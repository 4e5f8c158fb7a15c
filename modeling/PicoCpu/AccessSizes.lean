import PicoCpu.Decoder.Widths
import PicoCpu.Handlers.Lanes
import PicoCpu.Lib.Asked
import PicoCpu.Machine

/-!
How much a handler accesses at a time. A program of the machine is narrow when it never asks its
environment to read or write more than 64 bytes, whatever it is answered. The basic operations
and the operand helpers are, at sizes of at most 64.
-/

namespace PicoCpu

open H Proc

/-- Not an access of more than 64 bytes, the size of the widest register. -/
def MachineOp.Narrow : MachineOp → Prop
  | .read _ size => size ≤ 64
  | .write _ size _ => size ≤ 64
  | _ => True

/-- The program makes no access of more than 64 bytes. -/
structure NarrowAccess {α : Type} (p : H α) : Prop where
  asks : p.Asks MachineOp.Narrow

namespace NarrowAccess

variable {α β : Type}

theorem bind {p : H α} {f : α → H β} (hp : NarrowAccess p) (hf : ∀ a, NarrowAccess (f a)) :
    NarrowAccess (p >>= f) :=
  ⟨hp.asks.bind fun a => (hf a).asks⟩

theorem ite {c : Prop} [Decidable c] {p q : H α} (hp : NarrowAccess p) (hq : NarrowAccess q) :
    NarrowAccess (if c then p else q) :=
  ⟨hp.asks.ite hq.asks⟩

theorem attempt {p : H α} (hp : NarrowAccess p) : NarrowAccess (Proc.attempt p) :=
  ⟨hp.asks.attempt⟩

theorem ret (a : α) : NarrowAccess (pure a : H α) := ⟨asks_pure a⟩

theorem exit : NarrowAccess (Proc.exit : H α) := ⟨asks_exit⟩

theorem modify (f : Cpu → Cpu) : NarrowAccess (Proc.modify f : H Unit) := ⟨asks_modify f⟩

theorem gets (f : Cpu → α) : NarrowAccess (H.gets f) := ⟨fun _ => trivial⟩

theorem getsSynced (f : Cpu → α) : NarrowAccess (H.getsSynced f) := ⟨fun _ => trivial⟩

/-- What is read of the CPU does not matter. -/
theorem gets_bind {f : Cpu → α} {k : α → H β} (hk : ∀ a, NarrowAccess (k a)) :
    NarrowAccess (H.gets f >>= k) :=
  (gets f).bind hk

theorem modify_bind {f : Cpu → Cpu} {k : Unit → H β} (hk : NarrowAccess (k ())) :
    NarrowAccess (Proc.modify f >>= k) :=
  (modify f).bind fun _ => hk

/-- A step after another. -/
theorem seq {p : H Unit} {k : Unit → H β} (hp : NarrowAccess p) (hk : NarrowAccess (k ())) :
    NarrowAccess (p >>= k) :=
  hp.bind fun _ => hk

theorem raise (kind : FaultKind) (addr : GuestAddr) (reason : Status) (note : String) :
    NarrowAccess (H.raise kind addr reason note : H α) := ⟨fun _ => trivial⟩

theorem raiseAtRip (kind : FaultKind) (reason : Status) (note : String) :
    NarrowAccess (H.raiseAtRip kind reason note : H α) := ⟨fun _ => trivial⟩

theorem ask {o : MachineOp} (ho : o.Narrow) :
    NarrowAccess (Proc.ask (S := machine) o : H (machine.Answer o)) :=
  ⟨asks_ask ho⟩

theorem attached (isWrite : Bool) : NarrowAccess (H.attached isWrite) := ask trivial

theorem fireMemHooks (addr : GuestAddr) (size : Nat) (value : U64) (isWrite : Bool) :
    NarrowAccess (H.fireMemHooks addr size value isWrite) :=
  (ask (o := .memHooks addr size value isWrite) trivial).bind fun f => modify f

theorem checkDataBreakpoint (addr : GuestAddr) (isWrite : Bool) (size : Nat) (note : String) :
    NarrowAccess (H.checkDataBreakpoint addr isWrite size note) :=
  gets_bind fun _ => modify_bind ((raise ..).ite (ret _))

theorem requireAttached (isWrite : Bool) (addr : GuestAddr) (note : String) :
    NarrowAccess (PicoCpu.requireAttached isWrite addr note) :=
  (attached isWrite).bind fun _ => (raise ..).ite (ret _)

section Accesses

variable {size : Nat} (hsize : size ≤ 64)
include hsize

theorem askRead (addr : GuestAddr) : NarrowAccess (H.askRead addr size) :=
  ask hsize

theorem askWrite (addr : GuestAddr) (data : Buf) : NarrowAccess (H.askWrite addr size data) :=
  ask hsize

theorem load (addr : GuestAddr) (kind : Status → FaultKind) (note : String) :
    NarrowAccess (H.load addr size kind note) := by
  apply (askRead hsize addr).bind
  intro r
  cases r with
  | ok buf => exact ret buf
  | error s => exact raise ..

theorem store (addr : GuestAddr) (data : Buf) (kind : Status → FaultKind) (note : String) :
    NarrowAccess (H.store addr size data kind note) := by
  apply (askWrite hsize addr data).bind
  intro r
  cases r with
  | ok u => exact ret u
  | error s => exact raise ..

theorem readOperand (insn : Insn) (op : Operand) :
    NarrowAccess (PicoCpu.readOperand insn op size) := by
  have hmem : NarrowAccess (do
      let rip ← H.gets Cpu.rip
      PicoCpu.requireAttached false rip "no read provider"
      let addr ← H.gets fun c => ea c insn op
      H.checkDataBreakpoint addr false size "DR data load breakpoint"
      H.fireMemHooks addr size 0 false
      let buf ← H.load addr size pageFault "operand read"
      pure (loadLE buf size)) := by
    apply gets_bind
    intro rip
    apply (requireAttached false rip _).seq
    apply gets_bind
    intro addr
    apply (checkDataBreakpoint addr false size _).seq
    apply (fireMemHooks addr size 0 false).seq
    exact (load hsize addr pageFault _).bind fun buf => ret _
  unfold PicoCpu.readOperand
  cases op.kind with
  | none => exact ret 0
  | reg => exact gets _
  | imm => exact ret _
  | rel => exact ret _
  | xmm => exact exit
  | mem => exact hmem
  | ripRelMem => exact hmem

theorem writeOperand (insn : Insn) (op : Operand) (value : U64) :
    NarrowAccess (PicoCpu.writeOperand insn op size value) := by
  have hmem : NarrowAccess (do
      let addr ← H.gets fun c => ea c insn op
      PicoCpu.requireAttached true addr "no write provider"
      H.checkDataBreakpoint addr true size "DR data store breakpoint"
      H.fireMemHooks addr size value true
      H.store addr size (storeLE value) kindFromStatus "operand write") := by
    apply gets_bind
    intro addr
    apply (requireAttached true addr _).seq
    apply (checkDataBreakpoint addr true size _).seq
    apply (fireMemHooks addr size value true).seq
    exact store hsize addr _ kindFromStatus _
  unfold PicoCpu.writeOperand
  cases op.kind with
  | none => exact raiseAtRip ..
  | reg => exact (modify _).ite (raiseAtRip ..)
  | imm => exact raiseAtRip ..
  | rel => exact raiseAtRip ..
  | xmm => exact exit
  | mem => exact hmem
  | ripRelMem => exact hmem

theorem readMemBytes (missing note : String) (addr : GuestAddr) :
    NarrowAccess (PicoCpu.readMemBytes missing note addr size) :=
  (requireAttached false addr missing).seq
    ((load hsize addr pageFault note).bind fun _ => ret _)

theorem writeMemBytes (missing note : String) (addr : GuestAddr) (value : U64) :
    NarrowAccess (PicoCpu.writeMemBytes missing note addr size value) :=
  (requireAttached true addr missing).seq (store hsize addr _ kindFromStatus note)

/-! ### Vector operands -/

/-- A memory source that is checked and read without breakpoints or hooks. -/
theorem memRead (insn : Insn) (op : Operand) (note : String) :
    NarrowAccess (do
      let rip ← H.gets Cpu.rip
      PicoCpu.requireAttached false rip note
      let addr ← H.gets fun c => ea c insn op
      H.load addr size pageFault note) :=
  gets_bind fun _ => (requireAttached ..).seq (gets_bind fun addr => load hsize addr pageFault note)

theorem memWrite (insn : Insn) (op : Operand) (note : String) (v : Buf) :
    NarrowAccess (do
      let rip ← H.gets Cpu.rip
      PicoCpu.requireAttached true rip note
      let addr ← H.gets fun c => ea c insn op
      H.store addr size v kindFromStatus note) :=
  gets_bind fun _ => (requireAttached ..).seq
    (gets_bind fun addr => store hsize addr v kindFromStatus note)

theorem vecRead (io : VecIo) (insn : Insn) (op : Operand) :
    NarrowAccess (io.read insn op size) := by
  have hmem := memRead hsize insn op io.readNote
  unfold VecIo.read
  split
  · exact gets _
  · exact hmem
  · exact hmem
  · exact raiseAtRip ..
  · exact hmem

theorem vecWrite (io : VecIo) (insn : Insn) (op : Operand) (v : Buf) :
    NarrowAccess (io.write insn op size v) := by
  have hmem := memWrite hsize insn op io.writeNote v
  unfold VecIo.write
  split
  · exact modify _
  · exact hmem
  · exact hmem
  · exact raiseAtRip ..
  · exact hmem

end Accesses

end NarrowAccess

end PicoCpu
