import PicoCpu.Handlers.Operand

/-!
Shifts and rotates. The count is an immediate or CL, masked to five bits, or to six at
64-bit operand size.
-/

namespace PicoCpu

open H

namespace Handlers

/-- `read_count`. -/
def readCount (insn : Insn) : H Nat := do
  let v ← readOperand insn insn.src 1
  pure (maskedCount insn.opSize (v.setWidth 8))

/-- Read destination and count, write back `f`, then stash the flags. -/
def shiftAlu (f : Nat → U64 → Nat → U64) (stash : Nat → U64 → Nat → U64 → Cpu → Cpu)
    (insn : Insn) : H Unit := do
  let a ← readOperand insn insn.dst insn.opSize
  let count ← readCount insn
  let r := f insn.opSize a count
  writeOperand insn insn.dst insn.opSize r
  Proc.modify (stash insn.opSize a count r)

def opShl : Insn → H Unit := shiftAlu shlResult fun size a n r c => c.stashShl size a n r
def opShr : Insn → H Unit := shiftAlu shrResult fun size a n r c => c.stashShr size a n r
def opSar : Insn → H Unit := shiftAlu sarResult fun size a n r c => c.stashSar size a n r
def opRol : Insn → H Unit := shiftAlu rolResult fun size a n r c => c.stashRol size a n r
def opRor : Insn → H Unit := shiftAlu rorResult fun size a n r c => c.stashRor size a n r

/-- `n` single-bit rotations to the left through the carry. -/
def rclLoop (size : Nat) : Nat → U64 → Bool → U64 × Bool
  | 0, val, cf => (val, cf)
  | n + 1, val, cf =>
    rclLoop size n (((val <<< 1) ||| (if cf then 1 else 0)) &&& maskFor size)
      (val &&& signMask size != 0)

def rcrLoop (size : Nat) : Nat → U64 → Bool → U64 × Bool
  | 0, val, cf => (val, cf)
  | n + 1, val, cf =>
    rcrLoop size n ((val >>> 1) ||| (if cf then signMask size else 0)) (val &&& 1 != 0)

/-- The rotation amount of `RCL` and `RCR`: the count modulo the width plus the carry. -/
def carryRotateAmount (size count : Nat) : Nat := count % (size * 8 + 1)

def opRcl (insn : Insn) : H Unit := do
  let a ← readOperand insn insn.dst insn.opSize
  let count ← readCount insn
  let amount := carryRotateAmount insn.opSize count
  if count = 0 ∨ amount = 0 then pure ()
  else do
    let cf ← getsSynced Cpu.cf
    let (val, cf) := rclLoop insn.opSize amount (a &&& maskFor insn.opSize) cf
    writeOperand insn insn.dst insn.opSize val
    Proc.modify fun c => c.setCf cf
    if count = 1 then
      Proc.modify fun c => c.setOf ((val &&& signMask insn.opSize != 0) != cf)

/-- OF is set before the loop, from the bit that will be rotated in. -/
def opRcr (insn : Insn) : H Unit := do
  let a ← readOperand insn insn.dst insn.opSize
  let count ← readCount insn
  let amount := carryRotateAmount insn.opSize count
  if count = 0 ∨ amount = 0 then pure ()
  else do
    let cf ← getsSynced Cpu.cf
    let val := a &&& maskFor insn.opSize
    if count = 1 then
      Proc.modify fun c => c.setOf ((val &&& signMask insn.opSize != 0) != cf)
    let (val, cf) := rcrLoop insn.opSize amount val cf
    writeOperand insn insn.dst insn.opSize val
    Proc.modify fun c => c.setCf cf

/-- The count of a double shift: CL, or the immediate. -/
def doubleShiftCount (insn : Insn) : H Nat :=
  gets fun c =>
    if insn.src.kind = .reg then maskedCount insn.opSize ((c.r8 Reg.rcx).setWidth 8)
    else maskedCount insn.opSize (insn.immExtra.setWidth 8)

/-- `SHLD` and `SHRD`. The second register is `dst.index`; a count of the width or more
stores zero. -/
def doubleShift (f : Nat → U64 → U64 → Nat → U64) (stash : Nat → U64 → Nat → U64 → Cpu → Cpu)
    (insn : Insn) : H Unit := do
  let dst ← readOperand insn insn.dst insn.opSize
  let src ← gets fun c => c.r insn.dst.index &&& maskFor insn.opSize
  let count ← doubleShiftCount insn
  if count = 0 then pure ()
  else if insn.opSize * 8 ≤ count then do
    writeOperand insn insn.dst insn.opSize 0
    Proc.modify fun c => c.stashLogic insn.opSize 0
  else do
    let r := f insn.opSize dst src count
    writeOperand insn insn.dst insn.opSize r
    Proc.modify (stash insn.opSize dst count r)

def shldResult (size : Nat) (dst src : U64) (count : Nat) : U64 :=
  ((dst <<< count) ||| (src >>> (size * 8 - count))) &&& maskFor size

def shrdResult (size : Nat) (dst src : U64) (count : Nat) : U64 :=
  ((dst >>> count) ||| (src <<< (size * 8 - count))) &&& maskFor size

def opShld : Insn → H Unit := doubleShift shldResult fun size a n r c => c.stashShl size a n r
def opShrd : Insn → H Unit := doubleShift shrdResult fun size a n r c => c.stashShr size a n r

end Handlers

end PicoCpu
