import PicoCpu.Flags
import PicoCpu.Memory.Provider
import PicoCpu.Lib.Effect

/-!
What a handler can do besides computing on the CPU: go through the memory providers,
call the memory hooks, and use the two counters the host process keeps. A handler is a
program over these operations that owns the CPU; `return` before its end is an early exit.
-/

namespace PicoCpu

/-- The operations of a handler on its environment. -/
inductive MachineOp where
  /-- Is `cpu.mem_read()` (or, for a write, `cpu.mem_write()`) non-null? -/
  | attached (isWrite : Bool)
  | read (addr : GuestAddr) (size : Nat)
  | write (addr : GuestAddr) (size : Nat) (data : Buf)
  /-- Fire the `MemRead` or `MemWrite` hooks; the answer is what they do to the CPU. -/
  | memHooks (addr : GuestAddr) (size : Nat) (value : U64) (isWrite : Bool)
  | nextTsc
  | nextRand

/-- A failed read answers no buffer, since every handler drops it. -/
def machine : Signature where
  Op := MachineOp
  Answer
    | .attached _ => Bool
    | .read _ _ => Except Status Buf
    | .write _ _ _ => Except Status Unit
    | .memHooks _ _ _ _ => Cpu → Cpu
    | .nextTsc => U64
    | .nextRand => U64

abbrev H := Proc machine Cpu

namespace H

open Proc

variable {α : Type}

/-- Read something of the CPU. -/
def gets (f : Cpu → α) : H α := do
  let c ← Proc.get
  pure (f c)

/-- Read something that depends on a flag: the accessors synchronise first. -/
def getsSynced (f : Cpu → α) : H α := do
  Proc.modify Cpu.syncFlags
  gets f

/-- `cpu.set_fault(..)` and return. -/
def raise (kind : FaultKind) (addr : GuestAddr) (reason : Status) (note : String) : H α := do
  Proc.modify fun c => c.setFault kind addr reason (some note)
  Proc.exit

/-- `raise`, at the current `rip`. -/
def raiseAtRip (kind : FaultKind) (reason : Status) (note : String) : H α := do
  let rip ← gets Cpu.rip
  raise kind rip reason note

def attached (isWrite : Bool) : H Bool := Proc.ask (S := machine) (.attached isWrite)

def askRead (addr : GuestAddr) (size : Nat) : H (Except Status Buf) :=
  Proc.ask (S := machine) (.read addr size)

def askWrite (addr : GuestAddr) (size : Nat) (data : Buf) : H (Except Status Unit) :=
  Proc.ask (S := machine) (.write addr size data)

def fireMemHooks (addr : GuestAddr) (size : Nat) (value : U64) (isWrite : Bool) : H Unit := do
  let f ← (Proc.ask (S := machine) (.memHooks addr size value isWrite) : H (Cpu → Cpu))
  Proc.modify f

def nextTsc : H U64 := Proc.ask (S := machine) .nextTsc

def nextRand : H U64 := Proc.ask (S := machine) .nextRand

/-- `mp->read`, with a page fault when it fails. The kind is a parameter because some
handlers derive it from the status. -/
def load (addr : GuestAddr) (size : Nat) (kind : Status → FaultKind) (note : String) : H Buf := do
  match ← askRead addr size with
  | .ok buf => pure buf
  | .error s => raise (kind s) addr s note

/-- `mp->write`, with the fault its status maps to when it fails. -/
def store (addr : GuestAddr) (size : Nat) (data : Buf) (kind : Status → FaultKind)
    (note : String) : H Unit := do
  match ← askWrite addr size data with
  | .ok () => pure ()
  | .error s => raise (kind s) addr s note

/-- Latch a breakpoint fault when a DR0-DR3 data breakpoint covers the access. -/
def checkDataBreakpoint (addr : GuestAddr) (isWrite : Bool) (size : Nat) (note : String) :
    H Unit := do
  let hit ← gets fun c => (c.dataBreakpointAt addr isWrite size).1
  Proc.modify fun c => (c.dataBreakpointAt addr isWrite size).2
  if hit then raise .breakpoint addr .ok note

end H

/-! ### Hooks -/

/-- A memory hook: an inclusive address range, "any" when `begin > end`, and its callback. -/
structure MemHook where
  lo : GuestAddr
  hi : GuestAddr
  callback : GuestAddr → Nat → U64 → Bool → Cpu → Cpu

/-- `hook_in_range`. -/
def MemHook.inRange (h : MemHook) (addr : GuestAddr) : Bool :=
  h.hi.ult h.lo || (h.lo.ule addr && addr.ule h.hi)

/-- `for_each` over the hooks of one kind. -/
def runMemHooks (hooks : List MemHook) (addr : GuestAddr) (size : Nat) (value : U64)
    (isWrite : Bool) (c : Cpu) : Cpu :=
  hooks.foldl (fun c h => if h.inRange addr then h.callback addr size value isWrite c else c) c

/-! ### The environment -/

/-- What lives outside the CPU: the memory, and the host's time-stamp and random counters
(function-local statics in the source). -/
structure World (σ : Type) where
  mem : σ
  tsc : U64 := 0
  rand : U64 := 0x12345678ABCDEF01

/-- The xorshift step of `op_rdrand`. -/
def randStep (s : U64) : U64 :=
  let s := s ^^^ (s >>> 12)
  let s := s ^^^ (s <<< 25)
  s ^^^ (s >>> 27)

/-- What is attached to the CPU. -/
structure Attached (σ : Type) where
  memRead : Option (MemoryProvider σ)
  memWrite : Option (MemoryProvider σ)
  readHooks : List MemHook := []
  writeHooks : List MemHook := []

namespace Attached

variable {σ : Type}

/-- The environment of a handler. Reads and writes are only asked for when a provider is
attached; without one they fail. -/
def env (at_ : Attached σ) : machine.Env (World σ)
  | .attached isWrite, w => ((if isWrite then at_.memWrite else at_.memRead).isSome, w)
  | .read addr size, w =>
    match at_.memRead with
    | none => (.error .providerFailure, w)
    | some P =>
      let (status, buf, mem) := P.read addr size (fun _ => 0) w.mem
      (status.map fun _ => buf, { w with mem })
  | .write addr size data, w =>
    match at_.memWrite with
    | none => (.error .providerFailure, w)
    | some P =>
      let (status, mem) := P.write addr size data w.mem
      (status, { w with mem })
  | .memHooks addr size value isWrite, w =>
    (runMemHooks (if isWrite then at_.writeHooks else at_.readHooks) addr size value isWrite, w)
  | .nextTsc, w => (w.tsc + 1, { w with tsc := w.tsc + 1 })
  | .nextRand, w => (randStep w.rand * 0x2545F4914F6CDD1D, { w with rand := randStep w.rand })

end Attached

namespace Attached

variable {σ : Type} {at_ : Attached σ} {w w' : World σ}

/-- A provider is attached where a write has succeeded. -/
theorem memWrite_isSome {a : GuestAddr} {size : Nat} {data : Buf}
    (h : at_.env (.write a size data) w = ((.ok () : Except Status Unit), w')) :
    at_.memWrite.isSome = true := by
  cases hprovider : at_.memWrite with
  | none =>
      simp only [Attached.env, hprovider] at h
      cases congrArg Prod.fst h
  | some P => rfl

theorem memRead_isSome {a : GuestAddr} {size : Nat} {buf : Buf}
    (h : at_.env (.read a size) w = ((.ok buf : Except Status Buf), w')) :
    at_.memRead.isSome = true := by
  cases hprovider : at_.memRead with
  | none =>
      simp only [Attached.env, hprovider] at h
      cases congrArg Prod.fst h
  | some P => rfl

end Attached

/-- Run a handler's program on a CPU; a program that returned early has ended too. -/
def H.runOn {σ : Type} (p : H Unit) (at_ : Attached σ) (c : Cpu) (w : World σ) :
    Prog.Outcome machine (Option Unit × Cpu) (World σ) :=
  (p c).exec at_.env w

theorem post_gets_bind {α β : Type} {rely : machine.Rely} {f : Cpu → α} {k : α → H β} {c : Cpu}
    {Q : List machine.Event → Option β → Cpu → Prop} :
    (H.gets f >>= k).Post rely c Q ↔ (k (f c)).Post rely c Q := Iff.rfl

/-! ### Runs of the operations -/

section Runs

open H

variable {σ α β : Type} (at_ : Attached σ) (c : Cpu) (w : World σ)

@[simp] theorem run_gets (f : Cpu → α) :
    (gets f).run at_.env c w = ⟨(some (f c), c), w, []⟩ := rfl

theorem run_gets_bind (f : Cpu → α) (k : α → H β) :
    (gets f >>= k).run at_.env c w = (k (f c)).run at_.env c w := rfl

theorem run_modify_bind (f : Cpu → Cpu) (k : H α) :
    (Proc.modify f >>= fun _ => k).run at_.env c w = k.run at_.env (f c) w := rfl

@[simp] theorem run_raise (kind : FaultKind) (a : GuestAddr) (s : Status) (note : String) :
    (raise kind a s note : H α).run at_.env c w =
      ⟨(none, c.setFault kind a s (some note)), w, []⟩ := rfl

@[simp] theorem run_attached (isWrite : Bool) :
    (attached isWrite).run at_.env c w =
      ⟨(some (if isWrite then at_.memWrite else at_.memRead).isSome, c), w,
        [⟨MachineOp.attached isWrite, (if isWrite then at_.memWrite else at_.memRead).isSome⟩]⟩ :=
  rfl

@[simp] theorem run_askRead (a : GuestAddr) (size : Nat) :
    (askRead a size).run at_.env c w =
      ⟨(some (at_.env (.read a size) w).1, c), (at_.env (.read a size) w).2,
        [⟨MachineOp.read a size, (at_.env (.read a size) w).1⟩]⟩ := rfl

@[simp] theorem run_askWrite (a : GuestAddr) (size : Nat) (data : Buf) :
    (askWrite a size data).run at_.env c w =
      ⟨(some (at_.env (.write a size data) w).1, c), (at_.env (.write a size data) w).2,
        [⟨MachineOp.write a size data, (at_.env (.write a size data) w).1⟩]⟩ := rfl

end Runs

end PicoCpu
