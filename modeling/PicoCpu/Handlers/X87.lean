import PicoCpu.Handlers.Lanes

/-!
The x87 subset. Stack registers hold doubles; the 80-bit memory format is converted on the
way. Stores discard the status of a failed write.
-/

namespace PicoCpu

open H

namespace Handlers

/-- `st_index_from`: the decoder keeps the stack index in `dst.index`. -/
def stIndexFrom (insn : Insn) : Nat := insn.dst.index

/-- The provider check every x87 memory access starts with, and the address. -/
def x87Addr (isWrite : Bool) (note : String) (insn : Insn) (op : Operand) : H GuestAddr := do
  let rip ← gets Cpu.rip
  requireAttached isWrite rip note
  gets fun c => ea c insn op

/-- `mp->write` whose status is only reported: whether it succeeded. -/
def tryStore (addr : GuestAddr) (size : Nat) (data : Buf) : H Bool := do
  match ← askWrite addr size data with
  | .ok () => pure true
  | .error _ => pure false

section Float

variable (fp : HostFp)

/-- The decoding of a ten-byte image in `read_mem_f`. -/
def doubleOfExtended (b : Buf) : U64 :=
  let signExp := laneU16 (b.drop 8) 0
  let sign := signExp &&& 0x8000 != 0
  let exp : Int := ((signExp &&& 0x7FFF).toNat : Int) - 16383
  if exp = -16383 then (if sign then negF64 0 else 0)
  else
    let mant := (fp.f64 .current).div (fp.ofU64 (laneU64 b 0)) (fp.ofU64 (1#64 <<< 63))
    let out := fp.ldexp mant exp
    if sign then negF64 out else out

/-- The encoding of a double in `write_mem_f`. -/
def extendedOfDouble (v : U64) : Buf :=
  let sign := bitAt v 63
  let exp : Int := (((v >>> 52) &&& 0x7FF).toNat : Int) - 1023
  let mant := v &&& ((1#64 <<< 52) - 1)
  if exp = -1023 ∧ mant = 0 then fun i => if i = 9 ∧ sign then 0x80 else 0
  else
    let signExp : U16 := (if sign then 0x8000 else 0) ||| (BitVec.ofInt 16 (exp + 16383) &&& 0x7FFF)
    splice (storeLE ((mant <<< 11) ||| (1#64 <<< 63))) 8 2 (storeLE (signExp.setWidth 64))

def readMemF (insn : Insn) : H U64 := do
  let addr ← x87Addr false "x87 read" insn insn.src
  if insn.opSize = 4 then do
    let b ← load addr 4 pageFault "x87 read"
    pure (fp.toDouble (laneU32 b 0))
  else if insn.opSize = 8 then do
    let b ← load addr 8 pageFault "x87 read"
    pure (laneU64 b 0)
  else if insn.opSize = 10 then do
    let b ← load addr 10 pageFault "x87 read"
    pure (doubleOfExtended fp b)
  else raiseAtRip .invalidOpcode .invalidInstruction "x87 size"

/-- Whether the value was written. -/
def writeMemF (insn : Insn) (v : U64) : H Bool := do
  let addr ← x87Addr true "x87 write" insn insn.src
  if insn.opSize = 4 then tryStore addr 4 (packU32 fun _ => fp.toFloat v)
  else if insn.opSize = 8 then tryStore addr 8 (storeLE v)
  else if insn.opSize = 10 then tryStore addr 10 (extendedOfDouble v)
  else raiseAtRip .invalidOpcode .invalidInstruction "x87 size"

/-- The integer sizes of FILD and FISTP. -/
def isIntSize (size : Nat) : Bool := size == 2 || size == 4 || size == 8

def readMemI (insn : Insn) : H U64 := do
  let addr ← x87Addr false "fild" insn insn.src
  let b ← load addr insn.opSize pageFault "fild"
  if isIntSize insn.opSize then pure (signExtend (loadLE b insn.opSize) insn.opSize)
  else raiseAtRip .invalidOpcode .invalidInstruction "fild size"

def writeMemI (insn : Insn) (v : U64) : H Bool := do
  let addr ← x87Addr true "fistp" insn insn.src
  if isIntSize insn.opSize then tryStore addr insn.opSize (storeLE v)
  else raiseAtRip .invalidOpcode .invalidInstruction "fistp size"

/-! ### Loads, stores and exchanges -/

def opFld (insn : Insn) : H Unit := do
  if insn.src.isMem then
    let v ← readMemF fp insn
    Proc.modify fun c => c.fpuPush v
  else Proc.modify fun c => c.fpuPush (c.st (stIndexFrom insn))

def opFild (insn : Insn) : H Unit := do
  let v ← readMemI insn
  Proc.modify fun c => c.fpuPush ((fp.f64 .current).ofI64 v)

def opFst (insn : Insn) : H Unit := do
  if insn.src.isMem then
    let v ← gets fun c => c.st 0
    let _ ← writeMemF fp insn v
  else Proc.modify fun c => c.setSt (stIndexFrom insn) (c.st 0)

def opFstp (insn : Insn) : H Unit := do
  if insn.src.isMem then
    let v ← gets fun c => c.st 0
    let written ← writeMemF fp insn v
    if !written then Proc.exit
  else Proc.modify fun c => c.setSt (stIndexFrom insn) (c.st 0)
  Proc.modify Cpu.fpuPop

def opFistp (insn : Insn) : H Unit := do
  let v ← gets fun c => (fp.f64 .current).toI64 (c.st 0)
  let written ← writeMemI insn v
  if !written then Proc.exit
  Proc.modify Cpu.fpuPop

def opFxch (insn : Insn) : H Unit := Proc.modify fun c =>
  (c.setSt 0 (c.st (stIndexFrom insn))).setSt (stIndexFrom insn) (c.st 0)

/-! ### Arithmetic -/

/-- The right operand: memory, or `ST(i)`. -/
def fpOperand (insn : Insn) : H U64 := do
  if insn.src.isMem then readMemF fp insn
  else gets fun c => c.st (stIndexFrom insn)

/-- `fp_op_with`: `ST(0) := f ST(0) operand`. -/
def fpOpWith (f : U64 → U64 → U64) (insn : Insn) : H Unit := do
  let rhs ← fpOperand fp insn
  Proc.modify fun c => c.setSt 0 (f (c.st 0) rhs)

/-- `fp_op_pop`: `ST(i) := f ST(i) ST(0)`, then pop. -/
def fpOpPop (f : U64 → U64 → U64) (insn : Insn) : H Unit := Proc.modify fun c =>
  (c.setSt (stIndexFrom insn) (f (c.st (stIndexFrom insn)) (c.st 0))).fpuPop

def opFadd : Insn → H Unit := fpOpWith fp (fp.f64 .current).add
def opFsub : Insn → H Unit := fpOpWith fp (fp.f64 .current).sub
def opFmul : Insn → H Unit := fpOpWith fp (fp.f64 .current).mul
def opFdiv : Insn → H Unit := fpOpWith fp (fp.f64 .current).div

def opFaddp : Insn → H Unit := fpOpPop (fp.f64 .current).add
def opFsubp : Insn → H Unit := fpOpPop (fp.f64 .current).sub
def opFmulp : Insn → H Unit := fpOpPop (fp.f64 .current).mul
def opFdivp : Insn → H Unit := fpOpPop (fp.f64 .current).div

/-- `ST(0) := f ST(0)`. -/
def fpUnary (f : U64 → U64) (_ : Insn) : H Unit := Proc.modify fun c => c.setSt 0 (f (c.st 0))

def opFchs : Insn → H Unit := fpUnary negF64
def opFabs : Insn → H Unit := fpUnary absF64
def opFsqrt : Insn → H Unit := fpUnary (fp.f64 .current).sqrt
def opFsin : Insn → H Unit := fpUnary fp.sin
def opFcos : Insn → H Unit := fpUnary fp.cos
def opF2xm1 : Insn → H Unit :=
  fpUnary fun x => (fp.f64 .current).sub (fp.pow twoF64 x) oneF64
def opFrndint : Insn → H Unit := fpUnary (fp.f64 .current).nearbyint

def opFscale (_ : Insn) : H Unit := Proc.modify fun c =>
  c.setSt 0 (fp.ldexp (c.st 0) (fp.toInt (c.st 1)))

/-- `ST(1) := f ST(1) ST(0)`, then pop. -/
def fpBinaryPop (f : U64 → U64 → U64) (_ : Insn) : H Unit := Proc.modify fun c =>
  c.fpuPop.setSt 0 (f (c.st 1) (c.st 0))

def opFpatan : Insn → H Unit := fpBinaryPop fp.atan2
def opFyl2x : Insn → H Unit := fpBinaryPop fun y x => (fp.f64 .current).mul y (fp.log2 x)

/-! ### Comparison and control -/

/-- `set_x87_cond`: C3, C2 and C0; C1 is cleared. -/
def setX87Cond (gt eq unordered : Bool) (c : Cpu) : Cpu :=
  let sw := c.fpuSwWord &&& ~~~0x4700#16
  c.setFpuSw
    (if unordered then sw ||| 0x4500 else if eq then sw ||| 0x4000 else if gt then sw
      else sw ||| 0x0100)

def opFcom (insn : Insn) : H Unit := do
  let rhs ← fpOperand fp insn
  Proc.modify fun c =>
    let a := c.st 0
    let unordered := isNanF64 a || isNanF64 rhs
    setX87Cond (!unordered && (fp.f64 .current).lt rhs a) (!unordered && (fp.f64 .current).eq a rhs)
      unordered c

def opFcomp (insn : Insn) : H Unit := do
  let _ ← Proc.attempt (opFcom fp insn)
  Proc.modify Cpu.fpuPop

def opFcompp (insn : Insn) : H Unit := do
  let _ ← Proc.attempt (opFcom fp insn)
  Proc.modify fun c => c.fpuPop.fpuPop

def opFninit (_ : Insn) : H Unit := Proc.modify fun c =>
  ({ c with fpuSt := fun _ => 0, fpuCw := 0x037F }).setFpuSw 0

/-- `FNSTSW AX` or `m16`. -/
def opFnstsw (insn : Insn) : H Unit := do
  let sw ← gets fun c => c.fpuSwWord
  if insn.dst.kind = .reg then Proc.modify fun c => c.setR16 Reg.rax (sw.setWidth 64)
  else
    let addr ← x87Addr true "fnstsw" insn insn.dst
    let _ ← tryStore addr 2 (storeLE (sw.setWidth 64))

/-- The address is that of `src`. -/
def opFnstcw (insn : Insn) : H Unit := do
  let cw ← gets Cpu.fpuCw
  let addr ← x87Addr true "fnstcw" insn insn.src
  let _ ← tryStore addr 2 (storeLE (cw.setWidth 64))

def opFldcw (insn : Insn) : H Unit := do
  let addr ← x87Addr false "fldcw" insn insn.src
  match ← askRead addr 2 with
  | .ok buf => Proc.modify fun c => { c with fpuCw := laneU16 buf 0 }
  | .error s => raiseAtRip .pageFault s "fldcw"

end Float

end Handlers

end PicoCpu
