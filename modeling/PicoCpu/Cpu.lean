import PicoCpu.Ir

/-!
CPU state. Register files are functions from an index, so that a field update is
a function update; the memory and hook pointers of the source, which no
instruction changes, belong to the environment an instruction runs in.
-/

namespace PicoCpu

inductive FaultKind where
  | none
  | pageFault | generalProtection | invalidOpcode | divideError | breakpoint | overflow
  | boundRange | deviceNotAvailable | doubleFault | invalidTss | segmentNotPresent
  | stackFault | alignmentCheck
  | providerFailure | notImplemented | internalError
  deriving DecidableEq

structure Fault where
  kind : FaultKind := .none
  rip : GuestAddr := 0
  addr : GuestAddr := 0
  reason : Status := .ok
  note : Option String := none
  deriving DecidableEq

def Fault.isSet (f : Fault) : Bool := f.kind ≠ .none

def kindFromStatus (s : Status) : FaultKind :=
  match s with
  | .unmappedRead | .unmappedWrite | .hostReadFailed => .pageFault
  | .protectionViolation => .generalProtection
  | .invalidInstruction | .unsupportedOpcode | .unsupportedPrefix => .invalidOpcode
  | .providerFailure => .providerFailure
  | .notImplemented => .notImplemented
  | .internal => .internalError
  | .truncatedInstruction => .invalidOpcode
  | _ => .internalError

/-- The operation whose flags are still to be computed; `eflags` when none is. -/
inductive CcOp where
  | eflags | add | adc | sub | sbb | inc | dec | neg | logic | shl | shr | sar | rol | ror | mulOv
  deriving DecidableEq

namespace Rflags

def cf : U64 := 1#64 <<< 0
def pf : U64 := 1#64 <<< 2
def af : U64 := 1#64 <<< 4
def zf : U64 := 1#64 <<< 6
def sf : U64 := 1#64 <<< 7
def df : U64 := 1#64 <<< 10
def of : U64 := 1#64 <<< 11

/-- Reserved bit 1, which always reads as one. -/
def alwaysOne : U64 := 1#64 <<< 1

/-- The six bits arithmetic is responsible for. -/
def arithMask : U64 := cf ||| pf ||| af ||| zf ||| sf ||| of

end Rflags

structure CpuidLeaf where
  leaf : U32
  subleaf : U32
  eax : U32
  ebx : U32
  ecx : U32
  edx : U32
  deriving DecidableEq

/-- The CPU. `rflags_` holds the flags word as stored; while `ccOp` is not
`eflags` its arithmetic bits are stale and `Flags` says how they are recomputed. -/
structure Cpu where
  gpr : Nat → U64 := fun _ => 0
  dr : Nat → U64 := fun _ => 0
  zmm : Nat → Nat → U8 := fun _ _ => 0
  k : Nat → U64 := fun _ => 0
  fpuSt : Nat → U64 := fun _ => 0
  fpuCw : U16 := 0x037F
  fpuSw : U16 := 0
  fpuTop : Nat := 0
  rip : GuestAddr := 0
  rflags_ : U64 := Rflags.alwaysOne
  fsBase : U64 := 0
  gsBase : U64 := 0
  fault : Fault := {}
  ccOp : CcOp := .eflags
  ccSize : Nat := 4
  ccDst : U64 := 0
  ccSrc : U64 := 0
  ccSrc2 : U64 := 0
  halted : Bool := false
  branchTaken : Bool := false
  cpuidOverrides : List CpuidLeaf := []

namespace Cpu

/-! ### General-purpose registers -/

def r (c : Cpu) (idx : Nat) : U64 := c.gpr idx

def setR (c : Cpu) (idx : Nat) (v : U64) : Cpu := { c with gpr := Function.update c.gpr idx v }

/-- Indices 16 to 19 name `AH`, `CH`, `DH` and `BH`. -/
def r8 (c : Cpu) (idx : Nat) : U64 :=
  if 16 ≤ idx ∧ idx < 20 then (c.gpr (idx - 16) >>> 8) &&& 0xFF else c.gpr idx &&& 0xFF

def r16 (c : Cpu) (idx : Nat) : U64 := c.gpr idx &&& 0xFFFF
def r32 (c : Cpu) (idx : Nat) : U64 := c.gpr idx &&& 0xFFFFFFFF

def setR8 (c : Cpu) (idx : Nat) (v : U64) : Cpu :=
  if 16 ≤ idx ∧ idx < 20 then
    c.setR (idx - 16) ((c.gpr (idx - 16) &&& ~~~0xFF00#64) ||| ((v &&& 0xFF) <<< 8))
  else c.setR idx ((c.gpr idx &&& ~~~0xFF#64) ||| (v &&& 0xFF))

def setR16 (c : Cpu) (idx : Nat) (v : U64) : Cpu :=
  c.setR idx ((c.gpr idx &&& ~~~0xFFFF#64) ||| (v &&& 0xFFFF))

def setR32 (c : Cpu) (idx : Nat) (v : U64) : Cpu := c.setR idx (v &&& 0xFFFFFFFF)
def setR64 (c : Cpu) (idx : Nat) (v : U64) : Cpu := c.setR idx v

/-! ### Control state -/

def setRip (c : Cpu) (v : GuestAddr) : Cpu := { c with rip := v }

/-- Latch a fault: the kind, the current `rip` and the address, and halt. -/
def setFault (c : Cpu) (kind : FaultKind) (at_ : GuestAddr) (reason : Status := .ok)
    (note : Option String := none) : Cpu :=
  { c with
    fault := { kind := kind, rip := c.rip, addr := at_, reason := reason, note := note }
    halted := true }

def clearFault (c : Cpu) : Cpu := { c with fault := {} }
def halt (c : Cpu) : Cpu := { c with halted := true }
def unhalt (c : Cpu) : Cpu := { c with halted := false }
def clearBranch (c : Cpu) : Cpu := { c with branchTaken := false }

def takeBranch (c : Cpu) (target : GuestAddr) : Cpu :=
  { c with rip := target, branchTaken := true }

/-! ### Breakpoint registers -/

/-- Whether breakpoint `n` is enabled locally or globally. -/
def drEnabled (c : Cpu) (n : Nat) : Bool := (c.dr 7 >>> (2 * n)) &&& 3 ≠ 0

def drCond (c : Cpu) (n : Nat) : U64 := (c.dr 7 >>> (16 + 4 * n)) &&& 3

/-- `LEN_TABLE`: the watched size each two-bit length field encodes. -/
def drLen (c : Cpu) (n : Nat) : U64 :=
  match ((c.dr 7 >>> (18 + 4 * n)) &&& 3).toNat with
  | 0 => 1
  | 1 => 2
  | 2 => 8
  | _ => 4

def setDr6Bit (c : Cpu) (n : Nat) : Cpu :=
  { c with dr := Function.update c.dr 6 (c.dr 6 ||| (1#64 <<< n)) }

/-- The first of the four registers that `hit` selects, with its DR6 bit set. -/
def firstDr (c : Cpu) (hit : Nat → Bool) : Bool × Cpu :=
  match [0, 1, 2, 3].find? hit with
  | some n => (true, c.setDr6Bit n)
  | none => (false, c)

def execBreakpointAt (c : Cpu) (rip : GuestAddr) : Bool × Cpu :=
  c.firstDr fun n => c.drEnabled n && c.drCond n == 0 && c.dr n == rip

/-- The range test is the source's, with its sums taken modulo 2^64. -/
def dataBreakpointAt (c : Cpu) (addr : GuestAddr) (isWrite : Bool) (size : Nat) : Bool × Cpu :=
  c.firstDr fun n =>
    c.drEnabled n && ((c.drCond n == 1 && isWrite) || c.drCond n == 3) &&
      decide (addr < c.dr n + c.drLen n) && decide (c.dr n < addr + BitVec.ofNat 64 size)

/-- An access that meets no breakpoint leaves the debug registers. -/
theorem dataBreakpointAt_miss {c : Cpu} {addr : GuestAddr} {isWrite : Bool} {size : Nat}
    (h : (c.dataBreakpointAt addr isWrite size).1 = false) :
    (c.dataBreakpointAt addr isWrite size).2 = c := by
  unfold dataBreakpointAt firstDr at h ⊢
  split
  · rename_i n hhit
    rw [hhit] at h
    cases h
  · rfl

/-! ### Vector, mask and x87 registers -/

def xmmQword (c : Cpu) (idx lane : Nat) : U64 := loadLE (fun i => c.zmm idx (lane * 8 + i)) 8

def setZmm (c : Cpu) (idx : Nat) (bytes : Nat → U8) : Cpu :=
  { c with zmm := Function.update c.zmm idx bytes }

/-- Overwrite the `size` bytes of register `idx` that start at byte `off`. -/
def setZmmBytes (c : Cpu) (idx off size : Nat) (buf : Buf) : Cpu :=
  c.setZmm idx fun i => if off ≤ i ∧ i < off + size then buf (i - off) else c.zmm idx i

def setXmmQword (c : Cpu) (idx lane : Nat) (v : U64) : Cpu :=
  c.setZmmBytes idx (lane * 8) 8 (storeLE v)

def zeroYmmUpper (c : Cpu) (idx : Nat) : Cpu := c.setZmmBytes idx 16 48 fun _ => 0

def zeroZmmUpper (c : Cpu) (idx width : Nat) : Cpu :=
  c.setZmmBytes idx width (64 - width) fun _ => 0

def kreg (c : Cpu) (idx : Nat) : U64 := c.k (idx % 8)
def setK (c : Cpu) (idx : Nat) (v : U64) : Cpu := { c with k := Function.update c.k (idx % 8) v }

def st (c : Cpu) (i : Nat) : U64 := c.fpuSt ((c.fpuTop + i) % 8)

def setSt (c : Cpu) (i : Nat) (v : U64) : Cpu :=
  { c with fpuSt := Function.update c.fpuSt ((c.fpuTop + i) % 8) v }

/-- Push on the x87 stack: `TOP` is decremented, then `ST(0)` written. -/
def fpuPush (c : Cpu) (v : U64) : Cpu :=
  { c with
    fpuTop := (c.fpuTop + 7) % 8
    fpuSt := Function.update c.fpuSt ((c.fpuTop + 7) % 8) v }

def fpuPop (c : Cpu) : Cpu := { c with fpuTop := (c.fpuTop + 1) % 8 }

def fpuSwWord (c : Cpu) : U16 :=
  (c.fpuSw &&& ~~~0x3800#16) ||| (BitVec.ofNat 16 (c.fpuTop % 8) <<< 11)

def setFpuSw (c : Cpu) (v : U16) : Cpu :=
  { c with fpuSw := v &&& ~~~0x3800#16, fpuTop := ((v >>> 11) &&& 7).toNat }

def cpuidLookup (c : Cpu) (leaf subleaf : U32) : Option CpuidLeaf :=
  c.cpuidOverrides.find? fun e => e.leaf = leaf && e.subleaf = subleaf

end Cpu

end PicoCpu
