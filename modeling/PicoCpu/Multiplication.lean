import PicoCpu.Division
import PicoCpu.Lib.WideProduct

/-!
MUL, IMUL and MULX against multiplication of integers: the product of the operands' values, cut into
the halves of the destinations or to its low half, and CF and OF set when the low half does not
stand for it.
-/

namespace PicoCpu

open H Proc Handlers WideProduct

/-! ### Reference -/

/-- The exact product of the values. -/
def product (signed : Bool) (size : Nat) (a b : U64) : Int :=
  valueAs signed size a * valueAs signed size b

/-- The product is not the extension of its low half. -/
def Truncates (signed : Bool) (size : Nat) (p : Int) : Prop :=
  valueAs signed size (BitVec.ofInt 64 p) ≠ p

instance (signed : Bool) (size : Nat) (p : Int) : Decidable (Truncates signed size p) :=
  inferInstanceAs (Decidable (¬ _))

/-- The low half of a number in the accumulator, and its high half in AH at byte size, else in
rDX. -/
def multiplied (size : Nat) (p : Int) (c : Cpu) : Cpu :=
  (c.writeGpr Reg.rax size (BitVec.ofInt 64 p)).writeGpr (highHalf size) size
    (BitVec.ofInt 64 (p / 2 ^ (8 * size)))

/-- The product of the longer forms of IMUL: of the source and the immediate, or of the destination
as it was and the source. -/
def Insn.imulProduct (i : Insn) (c : Cpu) (b : U64) : Int :=
  if i.kind = .imul3 then product true i.opSize b i.immExtra
  else product true i.opSize (c.readGpr i.dst.reg i.opSize) b

/-- CF and OF, with the other flags as they were. -/
def Cpu.setOverflow (c : Cpu) (overflow : Bool) : Cpu :=
  c.setArith { c.arith with cf := overflow, of := overflow }

/-! ### Halves -/

/-- Two words that hold the halves of a number. -/
structure IsHalves (size : Nat) (p : Int) (lo hi : U64) : Prop where
  lo : (lo.toNat : Int) = p % 2 ^ (8 * size)
  hi : (hi.toNat : Int) = p / 2 ^ (8 * size) % 2 ^ (8 * size)

section Halves

variable {size : Nat} (hsize : IsOpSize size) {p : Int} {lo hi : U64}
include hsize

/-- A write takes the low bytes of its value. -/
theorem writeGpr_congr (c : Cpu) (reg : Nat) {v v' : U64}
    (h : v &&& maskFor size = v' &&& maskFor size) :
    c.writeGpr reg size v = c.writeGpr reg size v' := by
  have hshift (v : U64) : v <<< aliasShift reg size &&& aliasMask reg size =
      (v &&& maskFor size) <<< aliasShift reg size := by
    rw [aliasMask, BitVec.shiftLeft_and_distrib]
  rw [Cpu.writeGpr_eq c reg hsize, Cpu.writeGpr_eq c reg hsize, hshift, hshift, h]

/-- The low bytes of the word for a number. -/
theorem toNat_ofInt_mod (p : Int) :
    (((BitVec.ofInt 64 p).toNat % 2 ^ (8 * size) : Nat) : Int) = p % 2 ^ (8 * size) := by
  rw [BitVec.toNat_ofInt]
  rcases hsize with rfl | rfl | rfl | rfl <;> omega

omit hsize in
theorem toNat_lt_of_emod {v : U64} (h : (v.toNat : Int) = p % 2 ^ (8 * size)) :
    v.toNat < 2 ^ (8 * size) := by
  have hpos := Int.emod_lt_of_pos p (Int.pow_pos (by decide) : (0 : Int) < 2 ^ (8 * size))
  rw [← h] at hpos
  exact_mod_cast hpos

theorem masked_ofInt {v : U64} (h : (v.toNat : Int) = p % 2 ^ (8 * size)) :
    v &&& maskFor size = BitVec.ofInt 64 p &&& maskFor size := by
  apply and_maskFor_eq_of_mod_eq size hsize
  have hword := toNat_ofInt_mod hsize p
  rw [Nat.mod_eq_of_lt (toNat_lt_of_emod h)]
  exact_mod_cast h.trans hword.symm

theorem masked_of_lt {v : U64} (h : v.toNat < 2 ^ (8 * size)) : v &&& maskFor size = v := by
  apply BitVec.eq_of_toNat_eq
  rw [toNat_and_maskFor size hsize, Nat.mod_eq_of_lt h]

/-- The halves have the operand size. -/
theorem IsHalves.masked (h : IsHalves size p lo hi) :
    lo &&& maskFor size = lo ∧ hi &&& maskFor size = hi :=
  ⟨masked_of_lt hsize (toNat_lt_of_emod h.lo), masked_of_lt hsize (toNat_lt_of_emod h.hi)⟩

omit hsize in
/-- AX from its halves. -/
theorem setR16_halves (c : Cpu) (hmasked : lo &&& maskFor 1 = lo) :
    c.setR16 Reg.rax (lo ||| (hi <<< 8)) = (c.writeGpr Reg.rax 1 lo).writeGpr 16 1 hi := by
  have hbits (i : Nat) : (lo.getLsbD i && decide (i < 8)) = lo.getLsbD i := by
    have hbit := getLsbD_and_maskFor 1 (by decide) lo i
    rw [hmasked] at hbit
    exact hbit.symm
  have hlow : c.writeGpr Reg.rax 1 lo =
      c.setR Reg.rax ((c.r Reg.rax &&& ~~~maskFor 1) ||| (lo &&& maskFor 1)) := rfl
  have hhigh (d : Cpu) : d.writeGpr 16 1 hi =
      d.setR Reg.rax ((d.r Reg.rax &&& ~~~(maskFor 1 <<< 8)) ||| ((hi &&& maskFor 1) <<< 8)) := rfl
  have hwhole (v : U64) : c.setR16 Reg.rax v =
      c.setR Reg.rax ((c.r Reg.rax &&& ~~~maskFor 2) ||| (v &&& maskFor 2)) := rfl
  have htwice (x y : U64) : (c.setR Reg.rax x).setR Reg.rax y = c.setR Reg.rax y := by
    simp only [Cpu.setR, Function.update_idem]
  rw [hhigh, hlow, hwhole, Cpu.r_setR, htwice]
  congr 1
  apply BitVec.eq_of_getLsbD_eq
  intro i hi
  have hone := getLsbD_and_maskFor 1 (by decide) (BitVec.allOnes 64)
  have htwo := getLsbD_and_maskFor 2 (by decide) (BitVec.allOnes 64)
  simp only [BitVec.allOnes_and, BitVec.getLsbD_allOnes] at hone htwo
  simp only [BitVec.getLsbD_or, BitVec.getLsbD_and, BitVec.getLsbD_not, BitVec.getLsbD_shiftLeft,
    hone, htwo]
  have hbit := hbits i
  grind

theorem setAccumulator_eq (c : Cpu) (h : IsHalves size p lo hi) :
    setAccumulator size lo hi c = multiplied size p c := by
  have hlow := masked_ofInt hsize h.lo
  have hhigh : hi &&& maskFor size =
      BitVec.ofInt 64 (p / 2 ^ (8 * size)) &&& maskFor size := masked_ofInt hsize h.hi
  rw [multiplied, ← writeGpr_congr hsize c _ hlow, ← writeGpr_congr hsize _ _ hhigh]
  rcases hsize with rfl | rfl | rfl | rfl
  · exact setR16_halves c (h.masked (by decide)).1
  · rfl
  · rfl
  · rfl

omit hsize in
/-- The halves of a number modulo twice the width. -/
theorem isHalves_of_toNat (hsize : IsOpSize size) {full : Nat}
    (hfull : (full : Int) = p % 2 ^ (16 * size)) (hlo : lo.toNat = full % 2 ^ (8 * size))
    (hhi : hi.toNat = full / 2 ^ (8 * size) % 2 ^ (8 * size)) : IsHalves size p lo hi := by
  rcases hsize with rfl | rfl | rfl | rfl
  · constructor <;> omega
  · constructor <;> omega
  · constructor <;> omega
  · constructor <;> omega

theorem unsignedValue_ofInt (p : Int) :
    unsignedValue size (BitVec.ofInt 64 p) = p % 2 ^ (8 * size) := by
  rw [unsignedValue_eq, toNat_ofInt_mod hsize]

/-- An unsigned product is cut when its high half is not zero. -/
theorem IsHalves.unsigned_cut (h : IsHalves size p lo hi) (hlow : 0 ≤ p)
    (hhigh : p < 2 ^ (16 * size)) : (hi != 0) = decide (Truncates false size p) := by
  have hzero : hi = 0 ↔ (hi.toNat : Int) = 0 := by
    rw [← BitVec.toNat_inj]
    exact Int.natCast_inj.symm
  have hcut : Truncates false size p ↔ ¬ p % 2 ^ (8 * size) = p := by
    change unsignedValue size (BitVec.ofInt 64 p) ≠ p ↔ _
    rw [unsignedValue_ofInt hsize]
  rw [bne, beq_eq_decide, ← decide_not, decide_eq_decide, hcut, hzero, h.hi]
  rcases hsize with rfl | rfl | rfl | rfl <;> omega

theorem signedValue_ofInt (p : Int) :
    signedValue size (BitVec.ofInt 64 p) =
      if 2 * (p % 2 ^ (8 * size)) < 2 ^ (8 * size) then p % 2 ^ (8 * size)
      else p % 2 ^ (8 * size) - 2 ^ (8 * size) := by
  have hword := toNat_ofInt_mod hsize p
  have hlt : 2 * ((BitVec.ofInt 64 p).toNat % 2 ^ (8 * size)) < 2 ^ (8 * size) ↔
      2 * (p % 2 ^ (8 * size)) < 2 ^ (8 * size) := by
    rw [← hword]
    exact_mod_cast Iff.rfl
  rw [signedValue_eq, hword]
  simp only [hlt]

omit hsize in
/-- A signed product of 64-bit words is cut when its high half does not repeat the sign. -/
theorem IsHalves.signed_cut (h : IsHalves 8 p lo hi) (hlow : -2 ^ 127 ≤ p) (hhigh : p < 2 ^ 127) :
    (hi != lo.sshiftRight 63) = decide (Truncates true 8 p) := by
  have hcut : Truncates true 8 p ↔ ¬ signedValue 8 (BitVec.ofInt 64 p) = p := Iff.rfl
  rw [bne, beq_eq_decide, ← decide_not, decide_eq_decide, hcut, signedValue_ofInt (by decide),
    ← BitVec.toInt_inj, BitVec.toInt_sshiftRight, Int.shiftRight_eq_div_pow]
  have hlo := h.lo
  have hhi := h.hi
  have hloInt := lo.toInt_eq_toNat_cond
  have hhiInt := hi.toInt_eq_toNat_cond
  split at hloInt <;> split at hhiInt <;> split <;> omega

end Halves

/-! ### The products of the handlers -/

section Products

variable {a b : U64}

/-- The low bytes of a word, masked off. -/
theorem toNat_lt_of_mask {size : Nat} (hsize : IsOpSize size) (ha : a &&& maskFor size = a) :
    a.toNat < 2 ^ (8 * size) := by
  rw [← ha]
  exact toNat_lt_of_masked size hsize a

theorem product_unsigned {size : Nat} (hsize : IsOpSize size) (ha : a &&& maskFor size = a)
    (hb : b &&& maskFor size = b) :
    product false size a b = ((a.toNat * b.toNat : Nat) : Int) ∧
      a.toNat * b.toNat < 2 ^ (16 * size) := by
  have hlt := toNat_lt_of_mask hsize ha
  have hlt' := toNat_lt_of_mask hsize hb
  constructor
  · change unsignedValue size a * unsignedValue size b = _
    rw [unsignedValue_eq, unsignedValue_eq, Nat.mod_eq_of_lt hlt, Nat.mod_eq_of_lt hlt',
      Int.natCast_mul]
  · calc a.toNat * b.toNat < 2 ^ (8 * size) * 2 ^ (8 * size) := Nat.mul_lt_mul'' hlt hlt'
      _ = 2 ^ (16 * size) := by
        rw [← Nat.pow_add]
        congr 1
        omega

/-- The halves that masks and shifts cut out of a product of zero extensions. -/
theorem unsigned_halves {size m : Nat} (hsize : IsOpSize size) (hm : 16 * size = m) (h64 : m ≤ 64)
    {full : BitVec m} (ha : a &&& maskFor size = a) (hb : b &&& maskFor size = b)
    (hfull : full.toNat = a.toNat * b.toNat) :
    IsHalves size (product false size a b)
      ((full &&& BitVec.ofNat m (2 ^ (8 * size) - 1)).setWidth 64)
      ((full >>> (8 * size) &&& BitVec.ofNat m (2 ^ (8 * size) - 1)).setWidth 64) := by
  obtain ⟨hproduct, hlt⟩ := product_unsigned hsize ha hb
  have hnumber : ((full.toNat : Nat) : Int) = product false size a b % 2 ^ (16 * size) := by
    rw [hfull, hproduct]
    exact_mod_cast (Nat.mod_eq_of_lt hlt).symm
  apply isHalves_of_toNat hsize hnumber
  · rw [BitVec.toNat_setWidth_of_le h64, toNat_low _ (by omega)]
  · rw [BitVec.toNat_setWidth_of_le h64, toNat_high _ (by omega)]

theorem umul128_halves :
    IsHalves 8 (product false 8 a b) (umul128 a b).1 (umul128 a b).2 := by
  have hmask (x : U64) : x &&& maskFor 8 = x := BitVec.and_allOnes
  obtain ⟨hproduct, hlt⟩ := product_unsigned (by decide) (hmask a) (hmask b)
  have hfull : (a.setWidth 128 * b.setWidth 128).toNat = a.toNat * b.toNat :=
    toNat_setWidth_mul a b a.isLt b.isLt (Nat.le_refl 128)
  have hnumber : ((a.toNat * b.toNat : Nat) : Int) = product false 8 a b % 2 ^ (16 * 8) := by
    rw [hproduct]
    exact_mod_cast (Nat.mod_eq_of_lt hlt).symm
  apply isHalves_of_toNat (by decide) hnumber
  · change ((a.setWidth 128 * b.setWidth 128).setWidth 64).toNat = _
    rw [BitVec.toNat_setWidth, hfull]
  · change (((a.setWidth 128 * b.setWidth 128) >>> 64).setWidth 64).toNat = _
    rw [BitVec.toNat_setWidth, BitVec.toNat_ushiftRight, hfull, Nat.shiftRight_eq_div_pow]

theorem mulHalves_halves {size : Nat} (hsize : IsOpSize size) (ha : a &&& maskFor size = a)
    (hb : b &&& maskFor size = b) :
    IsHalves size (product false size a b) (mulHalves size a b).1 (mulHalves size a b).2.1 ∧
      (mulHalves size a b).2.2 = ((mulHalves size a b).2.1 != 0) := by
  have hlt := toNat_lt_of_mask hsize ha
  have hlt' := toNat_lt_of_mask hsize hb
  rcases hsize with rfl | rfl | rfl | rfl
  · have hfull : (a.setWidth 16 * b.setWidth 16).toNat = a.toNat * b.toNat :=
      toNat_setWidth_mul a b hlt hlt' (by decide)
    exact ⟨unsigned_halves (by decide) rfl (by decide) ha hb hfull, rfl⟩
  · have hfull : (a.setWidth 32 * b.setWidth 32).toNat = a.toNat * b.toNat :=
      toNat_setWidth_mul a b hlt hlt' (by decide)
    exact ⟨unsigned_halves (by decide) rfl (by decide) ha hb hfull, rfl⟩
  · have hfull : (a * b).toNat = a.toNat * b.toNat := by
      have hwide := toNat_setWidth_mul a b hlt hlt' (Nat.le_refl 64)
      rwa [BitVec.setWidth_eq, BitVec.setWidth_eq] at hwide
    have hhalves := unsigned_halves (by decide) rfl (by decide) ha hb hfull
    rw [BitVec.setWidth_eq, BitVec.setWidth_eq] at hhalves
    exact ⟨hhalves, rfl⟩
  · exact ⟨umul128_halves, rfl⟩

/-- MUL: the halves of the product, and whether it is cut. -/
theorem mulHalves_exact {size : Nat} (hsize : IsOpSize size) (ha : a &&& maskFor size = a)
    (hb : b &&& maskFor size = b) :
    IsHalves size (product false size a b) (mulHalves size a b).1 (mulHalves size a b).2.1 ∧
      (mulHalves size a b).2.2 = decide (Truncates false size (product false size a b)) := by
  obtain ⟨hhalves, hcut⟩ := mulHalves_halves hsize ha hb
  obtain ⟨hproduct, hlt⟩ := product_unsigned hsize ha hb
  refine ⟨hhalves, hcut.trans (hhalves.unsigned_cut hsize ?_ ?_)⟩
  · rw [hproduct]
    exact Int.natCast_nonneg _
  · rw [hproduct]
    exact_mod_cast hlt

/-- MULX: the same halves. -/
theorem mulxHalves_halves {size : Nat} (hsize : size = 4 ∨ size = 8) (ha : a &&& maskFor size = a)
    (hb : b &&& maskFor size = b) :
    IsHalves size (product false size a b) (mulxHalves size a b).1 (mulxHalves size a b).2 := by
  rcases hsize with rfl | rfl
  · exact (mulHalves_halves (by decide) ha hb).1
  · exact umul128_halves

/-! Signed products -/

theorem signedValue_congr {size : Nat} (hsize : IsOpSize size)
    (h : a &&& maskFor size = b &&& maskFor size) : signedValue size a = signedValue size b := by
  have hmod := congrArg BitVec.toNat h
  rw [toNat_and_maskFor size hsize, toNat_and_maskFor size hsize] at hmod
  rw [signedValue_eq, signedValue_eq, hmod]

theorem bits_pos_of_size {size : Nat} (hsize : IsOpSize size) : 0 < 8 * size := by
  rcases hsize with rfl | rfl | rfl | rfl <;> decide

/-- The halves that masks and shifts cut out of a product of sign extensions, and its comparison
with the extension of the low one. -/
theorem signed_halves {size m : Nat} (hsize : IsOpSize size) (hm : 16 * size = m) (h64 : m ≤ 64)
    {full : BitVec m}
    (hfull : full = (a.setWidth (8 * size)).signExtend m * (b.setWidth (8 * size)).signExtend m) :
    IsHalves size (product true size a b)
        ((full &&& BitVec.ofNat m (2 ^ (8 * size) - 1)).setWidth 64)
        ((full >>> (8 * size) &&& BitVec.ofNat m (2 ^ (8 * size) - 1)).setWidth 64) ∧
      (((full &&& BitVec.ofNat m (2 ^ (8 * size) - 1)).setWidth (8 * size)).signExtend m != full) =
        decide (Truncates true size (product true size a b)) := by
  have hvalue : full.toInt = product true size a b := by
    rw [hfull, toInt_signExtend_mul _ _ (bits_pos_of_size hsize) (by omega)]
    rfl
  have hhalves : IsHalves size (product true size a b)
      ((full &&& BitVec.ofNat m (2 ^ (8 * size) - 1)).setWidth 64)
      ((full >>> (8 * size) &&& BitVec.ofNat m (2 ^ (8 * size) - 1)).setWidth 64) := by
    have hnumber : (full.toNat : Int) = product true size a b % 2 ^ (16 * size) := by
      rw [toNat_of_toInt, hvalue, hm]
    apply isHalves_of_toNat hsize hnumber
    · rw [BitVec.toNat_setWidth_of_le h64, toNat_low _ (by omega)]
    · rw [BitVec.toNat_setWidth_of_le h64, toNat_high _ (by omega)]
  refine ⟨hhalves, ?_⟩
  have hlow := signedValue_congr hsize (masked_ofInt hsize hhalves.lo)
  rw [signedValue, BitVec.setWidth_setWidth_of_le _ (by omega)] at hlow
  rw [bne, beq_eq_decide, ← decide_not, decide_eq_decide, ← BitVec.toInt_inj,
    BitVec.toInt_signExtend_of_le (by omega), hlow, hvalue]
  exact Iff.rfl

theorem mul128_halves :
    IsHalves 8 (product true 8 a b) (mul128 a b).1 (mul128 a b).2 ∧
      ((mul128 a b).2 != (mul128 a b).1.sshiftRight 63) =
        decide (Truncates true 8 (product true 8 a b)) := by
  have hproduct : product true 8 a b = a.toInt * b.toInt := by
    change (a.setWidth 64).toInt * (b.setWidth 64).toInt = _
    rw [BitVec.setWidth_eq, BitVec.setWidth_eq]
  have hvalue : (a.signExtend 128 * b.signExtend 128).toInt = product true 8 a b := by
    rw [hproduct]
    exact toInt_signExtend_mul a b (by decide) (Nat.le_refl 128)
  have hnumber : ((a.signExtend 128 * b.signExtend 128).toNat : Int) =
      product true 8 a b % 2 ^ (16 * 8) := by
    rw [toNat_of_toInt, hvalue]
  have hhalves : IsHalves 8 (product true 8 a b) (mul128 a b).1 (mul128 a b).2 := by
    apply isHalves_of_toNat (by decide) hnumber
    · exact BitVec.toNat_setWidth ..
    · change (((a.signExtend 128 * b.signExtend 128) >>> 64).setWidth 64).toNat = _
      rw [BitVec.toNat_setWidth, BitVec.toNat_ushiftRight, Nat.shiftRight_eq_div_pow]
  obtain ⟨hlow, hhigh⟩ := toInt_mul_bounds a b (by decide) (Nat.le_refl 128)
  rw [← hproduct] at hlow hhigh
  exact ⟨hhalves, hhalves.signed_cut hlow hhigh⟩

/-- One-operand IMUL: the halves of the product, and whether it is cut. -/
theorem imulHalves_exact {size : Nat} (hsize : IsOpSize size) :
    IsHalves size (product true size a b) (imulHalves size a b).1 (imulHalves size a b).2.1 ∧
      (imulHalves size a b).2.2 = decide (Truncates true size (product true size a b)) := by
  rcases hsize with rfl | rfl | rfl | rfl
  · exact signed_halves (by decide) rfl (by decide) rfl
  · exact signed_halves (by decide) rfl (by decide) rfl
  · have hfour : IsOpSize 4 := by decide
    have hhalves := signed_halves (a := a) (b := b) hfour rfl (Nat.le_refl 64) rfl
    rw [BitVec.setWidth_eq, BitVec.setWidth_eq] at hhalves
    exact hhalves
  · exact mul128_halves

/-- Two- and three-operand IMUL: the low half of the product, and whether it is cut. -/
theorem imulResult_exact {size : Nat} (hsize : IsOpSize size) :
    (imulResult size a b).1 &&& maskFor size =
        BitVec.ofInt 64 (product true size a b) &&& maskFor size ∧
      (imulResult size a b).2 = decide (Truncates true size (product true size a b)) := by
  by_cases h8 : size = 8
  · subst h8
    obtain ⟨hhalves, hcut⟩ := mul128_halves (a := a) (b := b)
    exact ⟨masked_ofInt (by decide) hhalves.lo, hcut⟩
  · have hvalue : (signExtend a size * signExtend b size).toInt = product true size a b := by
      rw [signExtend_eq hsize, signExtend_eq hsize,
        toInt_signExtend_mul _ _ (bits_pos_of_size hsize)]
      · rfl
      · rcases hsize with rfl | rfl | rfl | rfl <;> omega
    have hword : signExtend a size * signExtend b size =
        BitVec.ofInt 64 (product true size a b) := by
      rw [← hvalue, BitVec.ofInt_toInt]
    rw [imulResult, if_neg h8]
    refine ⟨?_, ?_⟩
    · dsimp only
      rw [and_maskFor_idem, hword]
    · dsimp only
      rw [bne, beq_eq_decide, ← decide_not, decide_eq_decide, ← BitVec.toInt_inj,
        toInt_signExtend hsize, signedValue_congr hsize (and_maskFor_idem size _), hvalue, hword]
      exact not_congr eq_comm

end Products

/-! ### The handlers -/

/-- CF and OF alone change. -/
theorem same_stashMulOv (c : Cpu) (overflow : Bool) :
    (c.stashMulOv overflow).Same (c.setOverflow overflow) := by
  have hbits : (c.stashMulOv overflow).syncBits =
      computeMulOv c.syncFlags.rflags_ overflow := by
    cases overflow <;> rfl
  have hrest : (c.stashMulOv overflow).unflagged = c.unflagged := Cpu.unflagged_syncFlags c
  have hword : (c.stashMulOv overflow).rflags_ &&& ~~~Cpu.syncMask =
      c.rflags_ &&& ~~~Cpu.syncMask := syncFlags_outside c
  refine (Cpu.same_setArith_iff _ hrest hword CcOp.noConfusion).mpr ?_
  rw [hbits, computeMulOv, arithFlags_or_alwaysOne, arithFlags_withBit_of, arithFlags_withBit_cf,
    arithFlags_syncFlags, ← Cpu.arith_eq]

section Handlers

variable {σ : Type} {at_ : Attached σ} {c c₁ : Cpu} {w w₁ : World σ} {insn : Insn} {b : U64}

theorem readGpr_low (c : Cpu) {reg size : Nat} (hreg : reg < 16) :
    c.readGpr reg size = c.r reg &&& maskFor size := by
  have hhigh : ¬ isHighByte reg size := fun h => absurd h.2.1 (by omega)
  rw [Cpu.readGpr_eq, aliasIndex, aliasShift, if_neg hhigh, if_neg hhigh, BitVec.ushiftRight_zero]

/-- The one-operand forms, by what their halves are. -/
theorem wideMul_ends {halves : Nat → U64 → U64 → U64 × U64 × Bool} {signed : Bool}
    (hsize : IsOpSize insn.opSize)
    (hread : (readOperand insn insn.src insn.opSize).EndsIn at_ c w (some b) c₁ w₁)
    (hhalves : IsHalves insn.opSize (product signed insn.opSize (c₁.readGpr Reg.rax insn.opSize) b)
        (halves insn.opSize (c₁.readGpr Reg.rax insn.opSize) b).1
        (halves insn.opSize (c₁.readGpr Reg.rax insn.opSize) b).2.1 ∧
      (halves insn.opSize (c₁.readGpr Reg.rax insn.opSize) b).2.2 = decide (Truncates signed
        insn.opSize (product signed insn.opSize (c₁.readGpr Reg.rax insn.opSize) b))) :
    ∃ c', (wideMul halves insn).EndsIn at_ c w (some ()) c' w₁ ∧
      c'.Same ((multiplied insn.opSize
        (product signed insn.opSize (c₁.readGpr Reg.rax insn.opSize) b) c₁).setOverflow
          (decide (Truncates signed insn.opSize
            (product signed insn.opSize (c₁.readGpr Reg.rax insn.opSize) b)))) := by
  obtain ⟨hwords, hcut⟩ := hhalves
  refine ⟨_, ?_, same_stashMulOv _ _⟩
  rw [wideMul, hread.bind_iff, (endsIn_gets _).bind_iff, ← readGpr_low c₁ (by decide)]
  dsimp only
  rw [(endsIn_modify _).bind_iff, setAccumulator_eq hsize c₁ hwords, decide_eq_true hsize,
    Bool.true_and, hcut]
  exact endsIn_modify _

/-- What both forms of `op_imul` end with. -/
theorem storeProduct_ends {a x : U64} (hsize : IsOpSize insn.opSize) (hdst : insn.dst.kind = .reg) :
    H.EndsIn (do
      let _ ← Proc.attempt
        (writeOperand insn insn.dst insn.opSize (imulResult insn.opSize a x).1)
      Proc.modify fun c => c.stashMulOv (imulResult insn.opSize a x).2) at_ c w (some ())
      ((c.writeGpr insn.dst.reg insn.opSize
        (BitVec.ofInt 64 (product true insn.opSize a x))).stashMulOv
          (decide (Truncates true insn.opSize (product true insn.opSize a x)))) w := by
  obtain ⟨hlow, hcut⟩ := imulResult_exact (a := a) (b := x) hsize
  have hwrite : (writeOperand insn insn.dst insn.opSize (imulResult insn.opSize a x).1).EndsIn at_ c
      w (some ()) (c.writeGpr insn.dst.reg insn.opSize (imulResult insn.opSize a x).1) w :=
    writeOperand_of_reg hdst hsize _
  rw [writeGpr_congr hsize _ _ hlow] at hwrite
  refine (endsIn_attempt hwrite).bind ?_
  rw [hcut]
  exact endsIn_modify _

theorem opImul_ends (hsize : IsOpSize insn.opSize) (hdst : insn.dst.kind = .reg)
    (hread : (readOperand insn insn.src insn.opSize).EndsIn at_ c w (some b) c₁ w₁) :
    ∃ c', (opImul insn).EndsIn at_ c w (some ()) c' w₁ ∧
      c'.Same ((c₁.writeGpr insn.dst.reg insn.opSize
        (BitVec.ofInt 64 (insn.imulProduct c b))).setOverflow
          (decide (Truncates true insn.opSize (insn.imulProduct c b)))) := by
  refine ⟨_, ?_, same_stashMulOv _ _⟩
  by_cases hkind : insn.kind = .imul3
  · rw [opImul, if_pos hkind, hread.bind_iff, (endsIn_pure _).bind_iff, Insn.imulProduct,
      if_pos hkind]
    exact storeProduct_ends hsize hdst
  · rw [opImul, if_neg hkind, (readOperand_of_reg hdst).bind_iff, hread.bind_iff,
      (endsIn_pure _).bind_iff, Insn.imulProduct, if_neg hkind]
    exact storeProduct_ends hsize hdst

theorem opMulx_ends (hsize : insn.opSize = 4 ∨ insn.opSize = 8)
    (hb : b &&& maskFor insn.opSize = b)
    (hread : (readOperand insn insn.src insn.opSize).EndsIn at_ c w (some b) c₁ w₁) :
    (opMulx insn).EndsIn at_ c w (some ())
      ((c₁.writeGpr insn.dst.index insn.opSize
        (BitVec.ofInt 64 (product false insn.opSize (c₁.readGpr Reg.rdx insn.opSize) b))).writeGpr
          insn.dst.reg insn.opSize
          (BitVec.ofInt 64 (product false insn.opSize (c₁.readGpr Reg.rdx insn.opSize) b /
            2 ^ (8 * insn.opSize)))) w₁ := by
  have hopsize : IsOpSize insn.opSize := by
    rcases hsize with h | h <;> rw [h] <;> decide
  have ha : c₁.readGpr Reg.rdx insn.opSize &&& maskFor insn.opSize =
      c₁.readGpr Reg.rdx insn.opSize := by
    rw [readGpr_low c₁ (by decide), and_maskFor_idem]
  have hhalves := mulxHalves_halves hsize ha hb
  have hwrite (c : Cpu) (reg : Nat) {v : U64} (hv : v &&& maskFor insn.opSize = v) :
      c.setR64 reg v = c.writeGpr reg insn.opSize v := by
    rcases hsize with h | h
    · rw [h] at hv ⊢
      exact congrArg (c.setR reg) hv.symm
    · rw [h]
      rfl
  obtain ⟨hlo, hhi⟩ := hhalves.masked hopsize
  rw [opMulx, hread.bind_iff]
  rw [← writeGpr_congr hopsize _ _ (masked_ofInt hopsize hhalves.lo),
    ← writeGpr_congr hopsize _ _ (masked_ofInt hopsize hhalves.hi), ← hwrite _ _ hlo,
    ← hwrite _ _ hhi, readGpr_low c₁ (by decide)]
  exact endsIn_modify _

/-- MUL, IMUL and MULX with a source that reads as `b`: the exact product in its destinations, its
low half for the longer forms of IMUL, and CF and OF when that is not the product. MULX leaves
the flags. -/
theorem multiplication_exact (fp : HostFp) (hsize : IsOpSize insn.opSize)
    (hsrc : insn.src.kind ≠ .rel)
    (hread : (readOperand insn insn.src insn.opSize).EndsIn at_ c w (some b) c₁ w₁) :
    (∀ signed : Bool, insn.handler = (if signed then .opImul1 else .opMul) →
      ∃ c', (insn.run fp).EndsIn at_ c w (some ()) c' w₁ ∧
        c'.Same ((multiplied insn.opSize
          (product signed insn.opSize (c₁.readGpr Reg.rax insn.opSize) b) c₁).setOverflow
            (decide (Truncates signed insn.opSize
              (product signed insn.opSize (c₁.readGpr Reg.rax insn.opSize) b))))) ∧
    (insn.handler = .opImul → insn.dst.kind = .reg →
      ∃ c', (insn.run fp).EndsIn at_ c w (some ()) c' w₁ ∧
        c'.Same ((c₁.writeGpr insn.dst.reg insn.opSize
          (BitVec.ofInt 64 (insn.imulProduct c b))).setOverflow
            (decide (Truncates true insn.opSize (insn.imulProduct c b))))) ∧
    (insn.handler = .opMulx → insn.opSize = 4 ∨ insn.opSize = 8 →
      (insn.run fp).EndsIn at_ c w (some ())
        ((c₁.writeGpr insn.dst.index insn.opSize
          (BitVec.ofInt 64 (product false insn.opSize (c₁.readGpr Reg.rdx insn.opSize) b))).writeGpr
            insn.dst.reg insn.opSize
            (BitVec.ofInt 64 (product false insn.opSize (c₁.readGpr Reg.rdx insn.opSize) b /
              2 ^ (8 * insn.opSize)))) w₁) := by
  have hb := readOperand_masked hsize hsrc hread
  have ha : c₁.readGpr Reg.rax insn.opSize &&& maskFor insn.opSize =
      c₁.readGpr Reg.rax insn.opSize := by
    rw [readGpr_low c₁ (by decide), and_maskFor_idem]
  refine ⟨?_, ?_, ?_⟩
  · intro signed hop
    cases signed with
    | false =>
        have hrun : insn.run fp = wideMul mulHalves insn := by
          rw [Insn.run, hop]
          rfl
        rw [hrun]
        exact wideMul_ends hsize hread (mulHalves_exact hsize ha hb)
    | true =>
        have hrun : insn.run fp = wideMul imulHalves insn := by
          rw [Insn.run, hop]
          rfl
        rw [hrun]
        exact wideMul_ends hsize hread (imulHalves_exact hsize)
  · intro hop hdst
    have hrun : insn.run fp = opImul insn := by
      rw [Insn.run, hop]
      rfl
    rw [hrun]
    exact opImul_ends hsize hdst hread
  · intro hop hwide
    have hrun : insn.run fp = opMulx insn := by
      rw [Insn.run, hop]
      rfl
    rw [hrun]
    exact opMulx_ends hwide hb hread

end Handlers

/-- `mul cl` or `imul cl`. -/
def multiplyByCl (handler : Handler) : Insn :=
  { handler := handler, opSize := 1, src := { kind := .reg, reg := Reg.rcx } }

/-- AL and CL with every bit set. -/
def onesInBoth : Cpu := (({} : Cpu).setR Reg.rax 0xFF).setR Reg.rcx 0xFF

/-- 255 times 255 needs both bytes, -1 times -1 does not. -/
theorem multiplication_exact_ones :
    (∃ c, ((multiplyByCl .opMul).run default).EndsIn AluOp.bare onesInBoth { mem := () }
        (some ()) c { mem := () } ∧
      c.r Reg.rax = 0xFE01 ∧ c.cf = true ∧ c.of = true) ∧
    ∃ c, ((multiplyByCl .opImul1).run default).EndsIn AluOp.bare onesInBoth { mem := () }
        (some ()) c { mem := () } ∧
      c.r Reg.rax = 1 ∧ c.cf = false ∧ c.of = false := by
  have hread (handler : Handler) : (readOperand (multiplyByCl handler) (multiplyByCl handler).src
      (multiplyByCl handler).opSize).EndsIn AluOp.bare onesInBoth { mem := () } (some 0xFF)
      onesInBoth { mem := () } := by
    have hcl : onesInBoth.readGpr Reg.rcx 1 = 0xFF := by decide
    rw [← hcl]
    exact readOperand_of_reg rfl
  constructor
  · obtain ⟨hmul, _⟩ := multiplication_exact default (by decide) (by decide) (hread .opMul)
    obtain ⟨c, hends, hsame⟩ := hmul false rfl
    refine ⟨c, hends, (congrFun hsame.gpr Reg.rax).trans ?_,
      (hsame.flag Rflags.cf).trans ?_, (hsame.flag Rflags.of).trans ?_⟩
    · decide
    · decide
    · decide
  · obtain ⟨hmul, _⟩ := multiplication_exact default (by decide) (by decide) (hread .opImul1)
    obtain ⟨c, hends, hsame⟩ := hmul true rfl
    refine ⟨c, hends, (congrFun hsame.gpr Reg.rax).trans ?_,
      (hsame.flag Rflags.cf).trans ?_, (hsame.flag Rflags.of).trans ?_⟩
    · decide
    · decide
    · decide

end PicoCpu
