import PicoCpu.AluExact
import PicoCpu.Registers

/-!
The numbers that the low bytes of a word stand for, and the words that stand for numbers: ranges,
sign extension, and the numbers in registers.
-/

namespace PicoCpu

/-- The low bytes as a number, signed or not. -/
def valueAs (signed : Bool) (size : Nat) (v : U64) : Int :=
  if signed then signedValue size v else unsignedValue size v

/-- The values of a word of the width. -/
def InWord (signed : Bool) (width : Nat) (x : Int) : Prop :=
  if signed then -2 ^ (width - 1) ≤ x ∧ x < 2 ^ (width - 1) else 0 ≤ x ∧ x < 2 ^ width

instance (signed : Bool) (width : Nat) (x : Int) : Decidable (InWord signed width x) := by
  unfold InWord; infer_instance

section Values

variable {size : Nat} (hsize : IsOpSize size) (v : U64)
include hsize

/-- Sign extension keeps the signed value. -/
theorem signExtend_eq : signExtend v size = (v.setWidth (8 * size)).signExtend 64 := by
  have htop := and_signMask_bne hsize v
  have hmsb : (v.setWidth (8 * size)).msb = v.getLsbD (8 * size - 1) := by
    rw [BitVec.msb_eq_getLsbD_last, BitVec.getLsbD_setWidth]
    have hlast : 8 * size - 1 < 8 * size := by rcases hsize with rfl | rfl | rfl | rfl <;> omega
    simp [hlast]
  apply BitVec.eq_of_getLsbD_eq
  intro i hi
  have hlow := getLsbD_and_maskFor size hsize v i
  have hmask := getLsbD_and_maskFor size hsize (BitVec.allOnes 64) i
  rw [BitVec.allOnes_and, BitVec.getLsbD_allOnes, decide_eq_true hi, Bool.true_and] at hmask
  rw [BitVec.getLsbD_signExtend, hmsb, BitVec.getLsbD_setWidth, decide_eq_true hi, Bool.true_and,
    signExtend]
  cases hbit : v.getLsbD (8 * size - 1) with
  | false =>
      rw [hbit] at htop
      rw [if_neg (by simpa using htop), hlow]
      by_cases hlt : i < 8 * size <;> simp [hlt]
  | true =>
      rw [hbit] at htop
      rw [if_pos (by simpa using htop), BitVec.getLsbD_or, hlow, BitVec.getLsbD_not, hmask]
      by_cases hlt : i < 8 * size <;> simp [hlt, hi]

theorem toInt_signExtend : (signExtend v size).toInt = signedValue size v := by
  rw [signExtend_eq hsize, BitVec.toInt_signExtend_of_le]
  · rfl
  · rcases hsize with rfl | rfl | rfl | rfl <;> omega

end Values

/-- A truncated quotient has the width of its dividend, but for the least dividend by -1. -/
theorem tdiv_inWord {width : Nat} {x y : Int} (hx : InWord true width x) (hy : y ≠ 0)
    (hleast : ¬ (x = -2 ^ (width - 1) ∧ y = -1)) : InWord true width (x.tdiv y) := by
  obtain ⟨hlow, hhigh⟩ := hx
  have hle := Int.natAbs_tdiv_le_natAbs x y
  have hpos : (0 : Int) < 2 ^ (width - 1) := Int.pow_pos (by decide)
  have hne : x.tdiv y ≠ 2 ^ (width - 1) := by
    intro heq
    have habs : y.natAbs = 1 := by
      have hquotient := Int.natAbs_tdiv x y
      have hzero : y.natAbs ≠ 0 := Int.natAbs_ne_zero.mpr hy
      by_contra hone
      have hlt : x.natAbs.div y.natAbs < x.natAbs := Nat.div_lt_self (by omega) (by omega)
      omega
    rcases Int.natAbs_eq_iff.mp habs with hone | hone
    · rw [hone, Nat.cast_one, Int.tdiv_one] at heq
      omega
    · rw [hone, Nat.cast_one, Int.tdiv_neg, Int.tdiv_one] at heq
      exact hleast ⟨by omega, hone⟩
  change -2 ^ (width - 1) ≤ x.tdiv y ∧ x.tdiv y < 2 ^ (width - 1)
  omega

/-- A word is zero when its operand is. -/
theorem word_beq_zero {n : Nat} (hn : n ≤ 64) (r : BitVec n) :
    (r.setWidth 64 == 0) = decide (r = 0) := by
  rw [Bool.eq_iff_iff, beq_iff_eq, decide_eq_true_iff]
  constructor
  · intro h
    have hback := congrArg (BitVec.setWidth n) h
    rw [BitVec.setWidth_setWidth_of_le _ hn, BitVec.setWidth_eq] at hback
    exact hback.trans (BitVec.setWidth_zero ..)
  · intro h
    rw [h]
    exact BitVec.setWidth_zero ..

/-! ### Registers -/

section Registers

variable (c : Cpu) (reg : Nat)

theorem unsignedValue_readGpr {size : Nat} (hsize : IsOpSize size) :
    unsignedValue size (c.readGpr reg size) = ((c.readGpr reg size).toNat : Int) := by
  rw [unsignedValue_eq, c.readGpr_eq, toNat_and_maskFor size hsize, Nat.mod_mod]

theorem readGpr_eight : c.readGpr reg 8 = c.r reg := by
  have hlow : ¬ (8 = 1 ∧ 16 ≤ reg ∧ reg < 20) := fun h => absurd h.1 (by decide)
  rw [Cpu.readGpr, if_neg hlow]
  exact BitVec.and_allOnes

end Registers

end PicoCpu
