import PicoCpu.Handlers.Operand
import PicoCpu.Normal

/-!
How handlers are put together. A derivation of `Within g p` builds the program `p` out of quiet
updates of the CPU, faults, accesses through the operand helpers, and, as far as the grade `g`
grants them, accesses of its own, stores whose status is dropped and branches. A handler is such
a program, but may end by ignoring that a write was given up (`Ends`). What is to be shown of
every handler is then shown by induction on its derivation.
-/

namespace PicoCpu

open H Proc

/-! ### Quiet updates -/

/-- What the dispatcher acts on after a handler, and the debug registers but the status one. -/
structure Control where
  rip : GuestAddr
  branchTaken : Bool
  fault : Fault
  halted : Bool
  debug : Nat → U64

namespace Cpu

/-- The breakpoint addresses and the register that enables them. -/
def debug (c : Cpu) (n : Nat) : U64 := if n = 6 then 0 else c.dr n

def control (c : Cpu) : Control := ⟨c.rip, c.branchTaken, c.fault, c.halted, c.debug⟩

/-- The update leaves the control state alone. -/
structure Quiet (g : Cpu → Cpu) : Prop where
  control : ∀ c, (g c).control = c.control

namespace Quiet

variable {f g : Cpu → Cpu}

theorem comp (hg : Quiet g) (hf : Quiet f) : Quiet fun c => g (f c) :=
  ⟨fun c => (hg.control (f c)).trans (hf.control c)⟩

theorem id : Quiet fun c => c := ⟨fun _ => rfl⟩

/-- What an update reads of the CPU may be read before. -/
theorem read {α : Type} {u : α → Cpu → Cpu} (r : Cpu → α) (hu : ∀ a, Quiet (u a)) :
    Quiet fun c => u (r c) c :=
  ⟨fun c => (hu (r c)).control c⟩

theorem ite {p : Cpu → Prop} [DecidablePred p] (hf : Quiet f) (hg : Quiet g) :
    Quiet fun c => if p c then f c else g c := by
  constructor
  intro c
  split
  · exact hf.control c
  · exact hg.control c

/-- One update an element, over a list. -/
theorem foldl {α : Type} {u : α → Cpu → Cpu} (hu : ∀ a, Quiet (u a)) (as : List α) :
    Quiet fun c => as.foldl (fun c a => u a c) c := by
  induction as with
  | nil => exact id
  | cons a as ih => exact ih.comp (hu a)

theorem syncFlags : Quiet Cpu.syncFlags := by
  constructor
  intro c
  rw [syncFlags_eq]
  rfl

theorem setFlag (mask : U64) (v : Bool) : Quiet fun c => c.setFlag mask v :=
  comp (g := fun c => { c with rflags_ := withBit c.rflags_ mask v }) ⟨fun _ => rfl⟩ syncFlags

theorem andFlag (hg : Quiet g) (mask : U64) (v : Bool) : Quiet fun c => (g c).setFlag mask v :=
  (setFlag mask v).comp hg

theorem stash (op : CcOp) (size : Nat) (src dst src2 : U64) :
    Quiet fun c => c.stash op size src dst src2 := ⟨fun _ => rfl⟩

theorem syncedStash (op : CcOp) (size : Nat) (src dst src2 : U64) :
    Quiet fun c => c.syncFlags.stash op size src dst src2 :=
  (stash op size src dst src2).comp syncFlags

theorem stashInc (size : Nat) (r : U64) : Quiet fun c => c.stashInc size r :=
  read (fun c => c.cf) fun cf => syncedStash .inc size (if cf then 1 else 0) r 0

theorem stashDec (size : Nat) (r : U64) : Quiet fun c => c.stashDec size r :=
  read (fun c => c.cf) fun cf => syncedStash .dec size (if cf then 1 else 0) r 0

theorem stashShift (op : CcOp) (size : Nat) (a : U64) (n : Nat) (r : U64) :
    Quiet fun c => c.stashShift op size a n r := by
  unfold Cpu.stashShift
  split
  · exact id
  · exact stash ..

theorem stashRotate (op : CcOp) (size : Nat) (a : U64) (n : Nat) (r : U64) :
    Quiet fun c => c.stashRotate op size a n r := by
  unfold Cpu.stashRotate
  split
  · exact id
  · exact syncedStash ..

theorem stashMulOv (overflow : Bool) : Quiet fun c => c.stashMulOv overflow :=
  syncedStash ..

theorem writeGpr (reg size : Nat) (v : U64) : Quiet fun c => c.writeGpr reg size v := by
  unfold Cpu.writeGpr
  split
  · unfold Cpu.setR8
    split
    · exact ⟨fun _ => rfl⟩
    · exact ⟨fun _ => rfl⟩
  · exact ⟨fun _ => rfl⟩
  · exact ⟨fun _ => rfl⟩
  · exact ⟨fun _ => rfl⟩

theorem setDr6Bit (c : Cpu) (n : Nat) : (c.setDr6Bit n).control = c.control := by
  have hdebug : (c.setDr6Bit n).debug = c.debug := by
    funext m
    unfold Cpu.debug
    split
    · rfl
    · rename_i hm
      exact Function.update_of_ne hm _ _
  exact congrArg (Control.mk c.rip c.branchTaken c.fault c.halted) hdebug

theorem firstDr (c : Cpu) (hit : Nat → Bool) : (c.firstDr hit).2.control = c.control := by
  unfold Cpu.firstDr
  split
  · exact setDr6Bit c _
  · rfl

theorem dataBreakpointAt (addr : GuestAddr) (isWrite : Bool) (size : Nat) :
    Quiet fun c => (c.dataBreakpointAt addr isWrite size).2 :=
  ⟨fun c => firstDr c _⟩

theorem execBreakpointAt (rip : GuestAddr) : Quiet fun c => (c.execBreakpointAt rip).2 :=
  ⟨fun c => firstDr c _⟩

end Quiet

end Cpu

/-! ### Derivations -/

/-- What a handler does besides using the operand helpers. -/
structure Grade where
  /-- It makes accesses of its own. -/
  direct : Prop
  /-- It stores without looking at the status. -/
  drops : Prop
  branches : Prop
  /-- What it gives to the operand helpers: the instruction, an operand and its width. -/
  spans : Insn → Operand → Nat → Prop

/-- The program of a failed access: latch a fault and return. -/
structure Reports {α : Type} (p : Status → H α) : Prop where
  raises : ∀ s, ∃ (kind : FaultKind) (addr : Cpu → GuestAddr) (reason : Status)
    (note : Option String), kind ≠ .none ∧
      p s = fun c => .ret (none, c.setFault kind (addr c) reason note)

inductive Within (g : Grade) : {α : Type} → H α → Prop
  | ret {α : Type} (a : α) : Within g (pure a : H α)
  | exit {α : Type} : Within g (Proc.exit : H α)
  | gets {α : Type} (f : Cpu → α) : Within g (H.gets f)
  | modify {f : Cpu → Cpu} (hf : Cpu.Quiet f) : Within g (Proc.modify f)
  | fault {kind : FaultKind} (hkind : kind ≠ .none) (addr : Cpu → GuestAddr) (reason : Status)
      (note : Option String) :
      Within g (Proc.modify fun c => c.setFault kind (addr c) reason note)
  | branch (h : g.branches) (target : GuestAddr) :
      Within g (Proc.modify fun c => c.takeBranch target)
  | bind {α β : Type} {p : H α} {f : α → H β} (hp : Within g p) (hf : ∀ a, Within g (f a)) :
      Within g (p >>= f)
  | attached (isWrite : Bool) : Within g (H.attached isWrite)
  | nextTsc : Within g H.nextTsc
  | nextRand : Within g H.nextRand
  | readOperand (insn : Insn) {op : Operand} {size : Nat} (h : g.spans insn op size) :
      Within g (readOperand insn op size)
  | writeOperand (insn : Insn) {op : Operand} {size : Nat} (h : g.spans insn op size) (v : U64) :
      Within g (writeOperand insn op size v)
  | read {α : Type} (h : g.direct) (addr : GuestAddr) (size : Nat) {k : Except Status Buf → H α}
      (hok : ∀ buf, Within g (k (.ok buf))) (herror : Reports fun s => k (.error s)) :
      Within g (askRead addr size >>= k)
  | write {α : Type} (h : g.direct) (addr : GuestAddr) (size : Nat) (data : Buf)
      {k : Except Status Unit → H α} (hok : Within g (k (.ok ())))
      (herror : Reports fun s => k (.error s)) :
      Within g (askWrite addr size data >>= k)
  | drop {α : Type} (h : g.direct) (hdrops : g.drops) (addr : GuestAddr) (size : Nat) (data : Buf)
      {k : Except Status Unit → H α} (hk : ∀ r, Within g (k r)) :
      Within g (askWrite addr size data >>= k)

/-- Nothing is asked of the environment. -/
inductive Silent (branches : Prop) : {α : Type} → H α → Prop
  | ret {α : Type} (a : α) : Silent branches (pure a : H α)
  | gets {α : Type} (f : Cpu → α) : Silent branches (H.gets f)
  | modify {f : Cpu → Cpu} (hf : Cpu.Quiet f) : Silent branches (Proc.modify f)
  | branch (h : branches) (target : GuestAddr) :
      Silent branches (Proc.modify fun c => c.takeBranch target)
  | bind {α β : Type} {p : H α} {f : α → H β} (hp : Silent branches p)
      (hf : ∀ a, Silent branches (f a)) : Silent branches (p >>= f)

/-- A handler goes on after an early return of a part only silently, and to its end. -/
inductive Ends (g : Grade) : {α : Type} → H α → Prop
  | of {α : Type} {p : H α} (hp : Within g p) : Ends g p
  | bind {α β : Type} {p : H α} {f : α → H β} (hp : Within g p) (hf : ∀ a, Ends g (f a)) :
      Ends g (p >>= f)
  | attempt {α β : Type} {p : H α} {k : Option α → H β} (hp : Within g p)
      (hk : ∀ a, Silent g.branches (k a)) : Ends g (Proc.attempt p >>= k)

theorem Silent.ite {α : Type} {branches : Prop} {c : Prop} [Decidable c] {p q : H α}
    (hp : Silent branches p) (hq : Silent branches q) : Silent branches (if c then p else q) := by
  split
  · exact hp
  · exact hq

theorem Silent.within {α : Type} {g : Grade} {p : H α} (h : Silent g.branches p) :
    Within g p := by
  induction h with
  | ret a => exact .ret a
  | gets f => exact .gets f
  | modify hf => exact .modify hf
  | branch h target => exact .branch h target
  | bind _ _ ihp ihf => exact .bind ihp ihf

theorem Ends.ite {α : Type} {g : Grade} {c : Prop} [Decidable c] {p q : H α} (hp : Ends g p)
    (hq : Ends g q) : Ends g (if c then p else q) := by
  split
  · exact hp
  · exact hq

theorem kindFromStatus_ne_none (s : Status) : kindFromStatus s ≠ .none := by
  unfold kindFromStatus
  split <;> exact FaultKind.noConfusion

theorem pageFault_ne_none (s : Status) : pageFault s ≠ .none := FaultKind.noConfusion

namespace Within

variable {α β : Type} {g : Grade}

theorem ite {c : Prop} [Decidable c] {p q : H α} (hp : Within g p) (hq : Within g q) :
    Within g (if c then p else q) := by
  split
  · exact hp
  · exact hq

theorem update {f : Cpu → Cpu} (hf : ∀ c, (f c).control = c.control) :
    Within g (Proc.modify f) := modify ⟨hf⟩

theorem getsSynced (f : Cpu → α) : Within g (H.getsSynced f) :=
  (modify .syncFlags).bind fun _ => gets f

theorem raise {kind : FaultKind} (hkind : kind ≠ .none) (addr : GuestAddr) (reason : Status)
    (note : String) : Within g (H.raise kind addr reason note : H α) :=
  (fault hkind (fun _ => addr) reason note).bind fun _ => exit

theorem raiseAtRip {kind : FaultKind} (hkind : kind ≠ .none) (reason : Status) (note : String) :
    Within g (H.raiseAtRip kind reason note : H α) :=
  (gets Cpu.rip).bind fun rip => raise hkind rip reason note

theorem requireAttached (isWrite : Bool) (addr : GuestAddr) (note : String) :
    Within g (PicoCpu.requireAttached isWrite addr note) := by
  refine (attached isWrite).bind fun present => ?_
  exact (raise FaultKind.noConfusion addr .providerFailure note).ite (ret ())

/-! ### Accesses of a handler's own -/

section Direct

variable (hdirect : g.direct)

include hdirect

theorem load (addr : GuestAddr) (size : Nat) {kind : Status → FaultKind}
    (hkind : ∀ s, kind s ≠ .none) (note : String) : Within g (H.load addr size kind note) :=
  read hdirect addr size ret ⟨fun s => ⟨kind s, fun _ => addr, s, some note, hkind s, rfl⟩⟩

theorem store (addr : GuestAddr) (size : Nat) (data : Buf) {kind : Status → FaultKind}
    (hkind : ∀ s, kind s ≠ .none) (note : String) :
    Within g (H.store addr size data kind note) :=
  write hdirect addr size data (ret ())
    ⟨fun s => ⟨kind s, fun _ => addr, s, some note, hkind s, rfl⟩⟩

theorem readMemBytes (missing note : String) (addr : GuestAddr) (size : Nat) :
    Within g (PicoCpu.readMemBytes missing note addr size) := by
  refine (requireAttached false addr missing).bind fun _ => ?_
  exact (load hdirect addr size pageFault_ne_none note).bind fun buf => ret _

theorem writeMemBytes (missing note : String) (addr : GuestAddr) (size : Nat) (value : U64) :
    Within g (PicoCpu.writeMemBytes missing note addr size value) := by
  refine (requireAttached true addr missing).bind fun _ => ?_
  exact store hdirect addr size _ kindFromStatus_ne_none note

/-- A memory source that is checked and read without breakpoints or hooks. -/
theorem memRead (insn : Insn) (op : Operand) (note : String) (size : Nat) :
    Within g (do
      let rip ← H.gets Cpu.rip
      PicoCpu.requireAttached false rip note
      let addr ← H.gets fun c => ea c insn op
      H.load addr size pageFault note) := by
  refine (gets Cpu.rip).bind fun rip => ?_
  refine (requireAttached false rip note).bind fun _ => ?_
  refine (gets fun c => ea c insn op).bind fun addr => ?_
  exact load hdirect addr size pageFault_ne_none note

theorem memWrite (insn : Insn) (op : Operand) (note : String) (size : Nat) (v : Buf) :
    Within g (do
      let rip ← H.gets Cpu.rip
      PicoCpu.requireAttached true rip note
      let addr ← H.gets fun c => ea c insn op
      H.store addr size v kindFromStatus note) := by
  refine (gets Cpu.rip).bind fun rip => ?_
  refine (requireAttached true rip note).bind fun _ => ?_
  refine (gets fun c => ea c insn op).bind fun addr => ?_
  exact store hdirect addr size v kindFromStatus_ne_none note

end Direct

/-! ### Vector operands -/

theorem vecRead (io : VecIo) (insn : Insn) {op : Operand} (hop : op.kind ≠ .xmm → g.direct)
    (size : Nat) : Within g (io.read insn op size) := by
  by_cases hxmm : op.kind = .xmm
  · unfold VecIo.read
    rw [hxmm]
    exact gets _
  · have hmem := memRead (hop hxmm) insn op io.readNote size
    unfold VecIo.read
    split
    · exact gets _
    · exact hmem
    · exact hmem
    · exact raiseAtRip FaultKind.noConfusion ..
    · exact hmem

theorem vecWrite (io : VecIo) (insn : Insn) {op : Operand} (hop : op.kind ≠ .xmm → g.direct)
    (size : Nat) (v : Buf) : Within g (io.write insn op size v) := by
  by_cases hxmm : op.kind = .xmm
  · unfold VecIo.write
    rw [hxmm]
    exact update fun _ => rfl
  · have hmem := memWrite (hop hxmm) insn op io.writeNote size v
    unfold VecIo.write
    split
    · exact update fun _ => rfl
    · exact hmem
    · exact hmem
    · exact raiseAtRip FaultKind.noConfusion ..
    · exact hmem

end Within

end PicoCpu
