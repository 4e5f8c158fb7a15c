import PicoCpu.Handlers.Operand

/-!
BMI1 and BMI2. The second source is the general register `dst.index`.
-/

namespace PicoCpu

open H

namespace Handlers

/-- `read_vvvv`. -/
def readVvvv (insn : Insn) (c : Cpu) : U64 := c.r insn.dst.index &&& maskFor insn.opSize

/-- Read r/m, then the second source, write `f` to the destination, then set the flags. -/
def bmiOp (f : Insn → U64 → U64 → U64) (flags : Insn → U64 → U64 → U64 → Cpu → Cpu)
    (insn : Insn) : H Unit := do
  let src ← readOperand insn insn.src insn.opSize
  let vvvv ← gets (readVvvv insn)
  let r := f insn src vvvv
  let _ ← Proc.attempt (writeOperand insn insn.dst insn.opSize r)
  Proc.modify (flags insn src vvvv r)

/-- No flag is touched. -/
def noFlags : Insn → U64 → U64 → U64 → Cpu → Cpu := fun _ _ _ _ c => c

/-- CF, ZF and SF as given, the other status flags clear. -/
def bmiFlags (cf zf sf : Bool) (c : Cpu) : Cpu :=
  (((((c.syncFlags.setCf cf).setZf zf).setSf sf).setOf false).setPf false).setAf false

def signOf (insn : Insn) (r : U64) : Bool := r &&& signMask insn.opSize != 0

def opAndn : Insn → H Unit :=
  bmiOp (fun insn src vvvv => ~~~vvvv &&& src &&& maskFor insn.opSize)
    fun insn _ _ r c => c.stashLogic insn.opSize r

def bextr (width : Nat) (src ctl : U64) : U64 :=
  let start := (ctl &&& 0xFF).toNat
  let len := ((ctl >>> 8) &&& 0xFF).toNat
  if start < width then
    let effLen := if width - start < len then width - start else len
    (src >>> start) &&& (if 64 ≤ effLen then ~~~0#64 else (1#64 <<< effLen) - 1)
  else 0

def opBextr : Insn → H Unit :=
  bmiOp (fun insn src vvvv => bextr (insn.opSize * 8) src vvvv)
    fun _ _ _ r c => bmiFlags false (r == 0) false c

def opBlsi : Insn → H Unit :=
  bmiOp (fun _ src _ => src &&& (0 - src))
    fun insn src _ r c => bmiFlags (src != 0) (r == 0) (signOf insn r) c

def opBlsr : Insn → H Unit :=
  bmiOp (fun _ src _ => src &&& (src - 1))
    fun insn src _ r c => bmiFlags (src == 0) (r == 0) (signOf insn r) c

/-- The flags see the unmasked result. -/
def opBlsmsk : Insn → H Unit :=
  bmiOp (fun insn src _ => (src ^^^ (src - 1)) &&& maskFor insn.opSize)
    fun insn src _ _ c => bmiFlags (src == 0) false (signOf insn (src ^^^ (src - 1))) c

/-- The bit count of `BZHI`. -/
def bzhiIndex (vvvv : U64) : Nat := (vvvv &&& 0xFF).toNat

def opBzhi : Insn → H Unit :=
  bmiOp
    (fun insn src vvvv =>
      if insn.opSize * 8 ≤ bzhiIndex vvvv then src &&& maskFor insn.opSize
      else src &&& ((1#64 <<< bzhiIndex vvvv) - 1))
    fun insn _ vvvv r c =>
      bmiFlags (decide (insn.opSize * 8 ≤ bzhiIndex vvvv)) (r == 0) (signOf insn r) c

/-- The unsigned product of `RDX` and the source: its low and high halves. -/
def mulxHalves (size : Nat) (a b : U64) : U64 × U64 :=
  if size = 8 then
    let full : BitVec 128 := a.setWidth 128 * b.setWidth 128
    (full.setWidth 64, (full >>> 64).setWidth 64)
  else (a * b &&& 0xFFFFFFFF, ((a * b) >>> 32) &&& 0xFFFFFFFF)

/-- The low half is written first, so that the high half stays when both name one register. -/
def opMulx (insn : Insn) : H Unit := do
  let b ← readOperand insn insn.src insn.opSize
  Proc.modify fun c =>
    let (lo, hi) := mulxHalves insn.opSize (c.r Reg.rdx &&& maskFor insn.opSize) b
    (c.setR64 insn.dst.index lo).setR64 insn.dst.reg hi

/-- The loops of PDEP and PEXT visit the set bits of the mask from the lowest up; a 64-bit
mask has at most 64. -/
def pdepLoop (src : U64) : Nat → U64 → Nat → U64 → U64
  | 0, _, _, r => r
  | fuel + 1, mask, bit, r =>
    if mask = 0 then r
    else
      let lo := mask &&& (0 - mask)
      pdepLoop src fuel (mask &&& (mask - 1)) (bit + 1) (if bitAt src bit then r ||| lo else r)

def pextLoop (src : U64) : Nat → U64 → Nat → U64 → U64
  | 0, _, _, r => r
  | fuel + 1, mask, bit, r =>
    if mask = 0 then r
    else
      let lo := mask &&& (0 - mask)
      pextLoop src fuel (mask &&& (mask - 1)) (bit + 1)
        (if src &&& lo != 0 then r ||| (1#64 <<< bit) else r)

def opPdep : Insn → H Unit := bmiOp (fun _ mask vvvv => pdepLoop vvvv 65 mask 0 0) noFlags
def opPext : Insn → H Unit := bmiOp (fun _ mask vvvv => pextLoop vvvv 65 mask 0 0) noFlags

/-- Neither `RORX` nor the `BLS` group reads the second source, which changes nothing. -/
def opRorx : Insn → H Unit :=
  bmiOp
    (fun insn src _ =>
      let width := insn.opSize * 8
      let n := (insn.immExtra &&& BitVec.ofNat 64 (width - 1)).toNat
      ((src >>> n) ||| (src <<< (width - n))) &&& maskFor insn.opSize)
    noFlags

/-- The count of the flagless shifts. -/
def shiftxCount (insn : Insn) (vvvv : U64) : Nat :=
  maskedCount insn.opSize (vvvv.setWidth 8)

def opSarx : Insn → H Unit :=
  bmiOp
    (fun insn src vvvv =>
      (signExtend src insn.opSize).sshiftRight (shiftxCount insn vvvv) &&& maskFor insn.opSize)
    noFlags

def opShlx : Insn → H Unit :=
  bmiOp (fun insn src vvvv => (src <<< shiftxCount insn vvvv) &&& maskFor insn.opSize) noFlags

def opShrx : Insn → H Unit :=
  bmiOp (fun insn src vvvv => (src &&& maskFor insn.opSize) >>> shiftxCount insn vvvv) noFlags

end Handlers

end PicoCpu
