import PicoCpu.Lib.BinaryFormat
import Mathlib.Data.EReal.Operations

/-!
Patterns of a binary format in the order of the extended reals: below a fixed sign they are ordered
as they are numbered.
-/

namespace PicoCpu.BinaryFormat.Format

variable {F : Format} {n n' : ℕ}

/-- The absolute value of a pattern that is no NaN. -/
noncomputable def extended (F : Format) (n : ℕ) : EReal :=
  if F.exponentField n = F.top then ⊤ else ((F.magnitude n : ℝ) : EReal)

/-- The value of a pattern that is no NaN. -/
noncomputable def toEReal (F : Format) (n : ℕ) : EReal :=
  if F.negative n then -F.extended n else F.extended n

theorem extended_nonneg (F : Format) (n : ℕ) : 0 ≤ F.extended n := by
  unfold extended
  split
  · exact le_top
  · exact EReal.coe_nonneg.mpr (Rat.cast_nonneg.mpr (F.magnitude_nonneg n))

/-- The pattern without its sign. -/
def unsigned (F : Format) (n : ℕ) : ℕ := F.pattern false (F.exponentField n) (F.fractionField n)

theorem extended_unsigned (F : Format) (n : ℕ) : F.extended (F.unsigned n) = F.extended n := by
  have he := F.exponentField_lt n
  have hm := F.fractionField_lt n
  have hexp : F.exponentField (F.unsigned n) = F.exponentField n := exponentField_pattern he hm
  have hmag : F.magnitude (F.unsigned n) = F.magnitude n := by
    rw [unsigned, magnitude_pattern he hm, magnitude, significand, scale]
  rw [extended, extended, hexp, hmag]

/-- Up to infinity a pattern is infinite or finite by its number. -/
theorem exponentField_eq_top_iff (hn : n ≤ F.top * 2 ^ F.fraction) :
    F.exponentField n = F.top ↔ n = F.top * 2 ^ F.fraction := by
  have hpos := Nat.two_pow_pos F.fraction
  have hexp := Nat.two_pow_pos F.exponent
  have hle : n / 2 ^ F.fraction ≤ F.top := (Nat.div_le_iff_le_mul_add_pred hpos).mpr (by
    rw [Nat.mul_comm]
    omega)
  have hmod : F.exponentField n = n / 2 ^ F.fraction :=
    Nat.mod_eq_of_lt (lt_of_le_of_lt hle (Nat.sub_lt hexp Nat.one_pos))
  rw [hmod]
  constructor
  · intro h
    have hlow := Nat.div_mul_le_self n (2 ^ F.fraction)
    rw [h] at hlow
    exact le_antisymm hn hlow
  · rintro rfl
    exact Nat.mul_div_cancel _ hpos

theorem extended_le_iff (hn : n ≤ F.top * 2 ^ F.fraction) (hn' : n' ≤ F.top * 2 ^ F.fraction) :
    F.extended n ≤ F.extended n' ↔ n ≤ n' := by
  have hlt : F.top * 2 ^ F.fraction < 2 ^ (F.fraction + F.exponent) := by
    have hpos := Nat.two_pow_pos F.exponent
    rw [Nat.pow_add, Nat.mul_comm (2 ^ F.fraction)]
    exact Nat.mul_lt_mul_of_pos_right (Nat.sub_lt hpos Nat.one_pos) (Nat.two_pow_pos _)
  simp only [extended, exponentField_eq_top_iff hn, exponentField_eq_top_iff hn']
  by_cases htop' : n' = F.top * 2 ^ F.fraction
  · rw [if_pos htop']
    exact ⟨fun _ => htop' ▸ hn, fun _ => le_top⟩
  · rw [if_neg htop']
    by_cases htop : n = F.top * 2 ^ F.fraction
    · rw [if_pos htop]
      constructor
      · intro h
        exact absurd (top_le_iff.mp h) (EReal.coe_ne_top _)
      · intro h
        exact absurd (le_antisymm hn' (htop ▸ h)) htop'
    · rw [if_neg htop, EReal.coe_le_coe_iff, Rat.cast_le]
      exact magnitude_le_iff (hn.trans_lt hlt) (hn'.trans_lt hlt)

end PicoCpu.BinaryFormat.Format
