import Mathlib.Data.Rat.Floor
import Mathlib.Algebra.Order.Floor.Ring
import Mathlib.Tactic.Linarith
import Mathlib.Tactic.NormNum
import Mathlib.Tactic.Ring

/-!
Binary interchange formats: the fields of a bit pattern, and the rational that a finite one denotes.
-/

namespace PicoCpu.BinaryFormat

/-- The widths of the fraction and the exponent; the sign stands above them. -/
structure Format where
  fraction : ℕ
  exponent : ℕ
  deriving DecidableEq, Repr

def binary32 : Format := ⟨23, 8⟩
def binary64 : Format := ⟨52, 11⟩

namespace Format

variable (F : Format) (n : ℕ)

def fractionField : ℕ := n % 2 ^ F.fraction

def exponentField : ℕ := n / 2 ^ F.fraction % 2 ^ F.exponent

def negative : Bool := n.testBit (F.fraction + F.exponent)

/-- The exponent field of infinities and NaNs. -/
def top : ℕ := 2 ^ F.exponent - 1

def bias : ℤ := 2 ^ (F.exponent - 1) - 1

def IsFinite : Prop := F.exponentField n ≠ F.top

def IsInf : Prop := F.exponentField n = F.top ∧ F.fractionField n = 0

def IsNan : Prop := F.exponentField n = F.top ∧ F.fractionField n ≠ 0

instance : Decidable (F.IsFinite n) := inferInstanceAs (Decidable (_ ≠ _))
instance : Decidable (F.IsInf n) := inferInstanceAs (Decidable (_ ∧ _))
instance : Decidable (F.IsNan n) := inferInstanceAs (Decidable (_ ∧ _))

/-- Normal numbers have a leading one above the fraction. -/
def significand : ℕ :=
  if F.exponentField n = 0 then F.fractionField n else 2 ^ F.fraction + F.fractionField n

/-- The exponent of the last bit; the exponent field 0 counts as 1. -/
def scale : ℤ := max 1 (F.exponentField n : ℤ) - F.bias - F.fraction

def magnitude : ℚ := F.significand n * 2 ^ F.scale n

def value : ℚ := if F.negative n then -F.magnitude n else F.magnitude n

end Format

/-! ### Patterns -/

namespace Format

variable {F : Format} {s : Bool} {e m n n' : ℕ}

/-- The pattern with the given fields. -/
def pattern (F : Format) (s : Bool) (e m : ℕ) : ℕ :=
  (if s then 2 ^ (F.fraction + F.exponent) else 0) + (e * 2 ^ F.fraction + m)

theorem unsigned_lt (he : e < 2 ^ F.exponent) (hm : m < 2 ^ F.fraction) :
    e * 2 ^ F.fraction + m < 2 ^ (F.fraction + F.exponent) := by
  have hstep := Nat.mul_le_mul_right (2 ^ F.fraction) (Nat.succ_le_of_lt he)
  rw [Nat.succ_mul, ← Nat.pow_add, Nat.add_comm F.exponent] at hstep
  omega

theorem fractionField_pattern (hm : m < 2 ^ F.fraction) : F.fractionField (F.pattern s e m) = m := by
  have hsign : (if s then 2 ^ (F.fraction + F.exponent) else 0) % 2 ^ F.fraction = 0 := by
    cases s with
    | false => rfl
    | true => rw [if_pos rfl, Nat.pow_add, Nat.mul_mod_right]
  rw [fractionField, pattern, ← Nat.add_assoc, Nat.add_mod, Nat.add_mod _ (e * _), hsign,
    Nat.mul_mod_left, Nat.mod_eq_of_lt hm, Nat.zero_mod, Nat.zero_add, Nat.mod_eq_of_lt hm]

theorem exponentField_pattern (he : e < 2 ^ F.exponent) (hm : m < 2 ^ F.fraction) :
    F.exponentField (F.pattern s e m) = e := by
  have hpos := Nat.two_pow_pos F.fraction
  have hsign : (if s then 2 ^ (F.fraction + F.exponent) else 0) =
      2 ^ F.fraction * (if s then 2 ^ F.exponent else 0) := by
    cases s with
    | false => rfl
    | true => rw [if_pos rfl, if_pos rfl, Nat.pow_add]
  have hdrop : (if s then 2 ^ F.exponent else 0) % 2 ^ F.exponent = 0 := by
    cases s with
    | false => exact Nat.zero_mod _
    | true => exact Nat.mod_self _
  rw [exponentField, pattern, hsign, Nat.mul_add_div hpos, Nat.mul_comm e, Nat.mul_add_div hpos,
    Nat.div_eq_of_lt hm, Nat.add_zero, Nat.add_mod, hdrop, Nat.zero_add, Nat.mod_mod,
    Nat.mod_eq_of_lt he]

theorem negative_pattern (he : e < 2 ^ F.exponent) (hm : m < 2 ^ F.fraction) :
    F.negative (F.pattern s e m) = s := by
  have hlow := unsigned_lt he hm
  rw [negative, pattern]
  cases s with
  | false =>
      rw [if_neg Bool.false_ne_true, Nat.zero_add]
      exact Nat.testBit_lt_two_pow hlow
  | true =>
      rw [if_pos rfl, Nat.testBit_two_pow_add_eq, Nat.testBit_lt_two_pow hlow]
      rfl

/-- A pattern is made of its fields. -/
theorem pattern_fields (hn : n < 2 ^ (F.fraction + F.exponent + 1)) :
    F.pattern (F.negative n) (F.exponentField n) (F.fractionField n) = n := by
  have hlow : F.exponentField n * 2 ^ F.fraction + F.fractionField n =
      n % 2 ^ (F.fraction + F.exponent) := by
    rw [exponentField, fractionField, Nat.pow_add, Nat.mod_mul, Nat.mul_comm, Nat.add_comm]
  have hsplit := Nat.div_add_mod n (2 ^ (F.fraction + F.exponent))
  have hle : n / 2 ^ (F.fraction + F.exponent) < 2 := by
    rw [Nat.div_lt_iff_lt_mul (Nat.two_pow_pos _), ← Nat.pow_succ']
    exact hn
  have hbit : F.negative n = decide (n / 2 ^ (F.fraction + F.exponent) = 1) := by
    rw [negative, Nat.testBit_eq_decide_div_mod_eq, Nat.mod_eq_of_lt hle]
  rw [pattern, hlow, hbit]
  by_cases hone : n / 2 ^ (F.fraction + F.exponent) = 1
  · rw [hone] at hsplit
    rw [decide_eq_true hone, if_pos rfl]
    omega
  · have hzero : n / 2 ^ (F.fraction + F.exponent) = 0 :=
      Nat.lt_one_iff.mp (lt_of_le_of_ne (Nat.lt_succ_iff.mp hle) hone)
    rw [hzero] at hsplit
    rw [decide_eq_false hone, if_neg Bool.false_ne_true]
    omega

theorem fractionField_lt (F : Format) (n : ℕ) : F.fractionField n < 2 ^ F.fraction :=
  Nat.mod_lt _ (Nat.two_pow_pos _)

theorem exponentField_lt (F : Format) (n : ℕ) : F.exponentField n < 2 ^ F.exponent :=
  Nat.mod_lt _ (Nat.two_pow_pos _)

/-! ### The order of magnitudes -/

theorem significand_pattern (he : e < 2 ^ F.exponent) (hm : m < 2 ^ F.fraction) :
    F.significand (F.pattern s e m) = if e = 0 then m else 2 ^ F.fraction + m := by
  rw [significand, exponentField_pattern he hm, fractionField_pattern hm]

theorem scale_pattern (he : e < 2 ^ F.exponent) (hm : m < 2 ^ F.fraction) :
    F.scale (F.pattern s e m) = max 1 (e : ℤ) - F.bias - F.fraction := by
  rw [scale, exponentField_pattern he hm]

/-- The magnitude does not depend on the sign. -/
theorem magnitude_pattern (he : e < 2 ^ F.exponent) (hm : m < 2 ^ F.fraction) :
    F.magnitude (F.pattern s e m) =
      ((if e = 0 then m else 2 ^ F.fraction + m : ℕ) : ℚ) *
        2 ^ (max 1 (e : ℤ) - F.bias - F.fraction) := by
  rw [magnitude, significand_pattern he hm, scale_pattern he hm]

theorem magnitude_nonneg (F : Format) (n : ℕ) : 0 ≤ F.magnitude n := by
  have hscale : (0 : ℚ) < 2 ^ F.scale n := zpow_pos (by norm_num) _
  exact mul_nonneg (Nat.cast_nonneg _) hscale.le

/-- The next pattern is one unit in the last place larger. -/
theorem magnitude_succ (hn : n + 1 < 2 ^ (F.fraction + F.exponent)) :
    F.magnitude (n + 1) = F.magnitude n + 2 ^ F.scale n := by
  have hpos := Nat.two_pow_pos F.fraction
  have hfield {k : ℕ} (hk : k < 2 ^ (F.fraction + F.exponent)) :
      F.exponentField k = k / 2 ^ F.fraction := by
    rw [exponentField]
    apply Nat.mod_eq_of_lt
    rw [Nat.div_lt_iff_lt_mul hpos, ← Nat.pow_add, Nat.add_comm F.exponent]
    exact hk
  have hdiv := Nat.div_add_mod n (2 ^ F.fraction)
  have hmod := Nat.mod_lt n hpos
  rw [magnitude, magnitude, scale, scale, significand, significand, fractionField, fractionField,
    hfield hn, hfield (by omega)]
  generalize n / 2 ^ F.fraction = e at *
  generalize n % 2 ^ F.fraction = m at *
  subst hdiv
  by_cases hcarry : m + 1 < 2 ^ F.fraction
  · rw [Nat.add_assoc, Nat.mul_add_div hpos, Nat.div_eq_of_lt hcarry, Nat.add_zero,
      Nat.mul_add_mod, Nat.mod_eq_of_lt hcarry]
    split
    · push_cast
      ring
    · push_cast
      ring
  · have hm : m + 1 = 2 ^ F.fraction := by omega
    have hmQ : (m : ℚ) = 2 ^ F.fraction - 1 := by
      have hcast : ((m + 1 : ℕ) : ℚ) = ((2 ^ F.fraction : ℕ) : ℚ) := congrArg _ hm
      push_cast at hcast
      linarith
    rw [Nat.add_assoc, hm, Nat.mul_add_div hpos, Nat.div_self hpos, Nat.mul_add_mod,
      Nat.mod_self, if_neg (Nat.succ_ne_zero e)]
    rcases Nat.eq_zero_or_pos e with rfl | he
    · rw [if_pos rfl]
      push_cast
      rw [hmQ, max_eq_left (by norm_num), max_eq_left (by norm_num)]
      ring
    · have hstep : max 1 ((e + 1 : ℕ) : ℤ) - F.bias - F.fraction =
          max 1 (e : ℤ) - F.bias - F.fraction + 1 := by
        rw [max_eq_right (by omega), max_eq_right (by omega)]
        push_cast
        ring
      rw [if_neg (by omega), hstep, zpow_add_one₀ (by norm_num)]
      push_cast
      rw [hmQ]
      ring

theorem magnitude_lt_succ (hn : n + 1 < 2 ^ (F.fraction + F.exponent)) :
    F.magnitude n < F.magnitude (n + 1) := by
  rw [magnitude_succ hn]
  have hstep : (0 : ℚ) < 2 ^ F.scale n := zpow_pos (by norm_num) _
  linarith

theorem magnitude_lt (h : n < n') (hn' : n' < 2 ^ (F.fraction + F.exponent)) :
    F.magnitude n < F.magnitude n' := by
  induction n', h using Nat.le_induction with
  | base => exact magnitude_lt_succ hn'
  | succ k _ ih => exact (ih (by omega)).trans (magnitude_lt_succ hn')

theorem magnitude_le_iff (hn : n < 2 ^ (F.fraction + F.exponent))
    (hn' : n' < 2 ^ (F.fraction + F.exponent)) : F.magnitude n ≤ F.magnitude n' ↔ n ≤ n' := by
  constructor
  · intro h
    by_contra hlt
    exact absurd (magnitude_lt (not_le.mp hlt) hn) (not_lt.mpr h)
  · intro h
    rcases Nat.eq_or_lt_of_le h with rfl | hlt
    · exact le_refl _
    · exact (magnitude_lt hlt hn').le

end Format

/-! ### Truncation -/

/-- The integer part, toward zero. -/
def truncate (x : ℚ) : ℤ := if x < 0 then ⌈x⌉ else ⌊x⌋

/-- The signed numbers of a width. -/
def InSigned (bits : ℕ) (t : ℤ) : Prop := -2 ^ (bits - 1) ≤ t ∧ t < 2 ^ (bits - 1)

instance (bits : ℕ) (t : ℤ) : Decidable (InSigned bits t) := inferInstanceAs (Decidable (_ ∧ _))

end PicoCpu.BinaryFormat
