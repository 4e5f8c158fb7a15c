import PicoCpu.FloatToInteger
import PicoCpu.SoftFloat.Doubles

/-!
The scaling of FSCALE in `float80.cpp`: the integer part of the scale, taken through a double and two
casts, is added to the exponent field.
-/

namespace PicoCpu

open BinaryFormat

namespace Float80

/-! ### The operation -/

/-- The source's `static_cast<long long>` of a double, where the language defines it. -/
def castI64 (d : U64) : Option Int :=
  if binary64.Representable 64 d.toNat then some (binary64.truncated d.toNat) else none

/-- The source's `static_cast<i32>` of an integer. -/
def castI32 (k : Int) : Int := (BitVec.ofInt 32 k).toInt

/-- The sum of two `i32`, where the language defines it. -/
def addI32 (x y : Int) : Option Int := if InSigned 32 (x + y) then some (x + y) else none

/-- The end of `f80_scale`, with the exponent computed. -/
def withExponent (a : Float80) (newExp : Int) : Float80 :=
  if newExp ≥ 0x7FFF then inf a.isSignNegative
  else if newExp ≤ 0 then zero a.isSignNegative
  else { a with signexp := (a.signexp &&& 0x8000) ||| (BitVec.ofInt 16 newExp &&& 0x7FFF) }

/-- `none` where a cast or the sum is undefined. -/
def f80Scale (a scale : Float80) : Option Float80 :=
  if a.isNan || scale.isNan then some qnan
  else if a.isZero || a.isInf then some a
  else do
    let k ← castI64 scale.toDouble
    let newExp ← addI32 a.rawExp.toNat (castI32 k)
    return withExponent a newExp

/-! ### The law -/

/-- `r` is the number `a` times `2 ^ t`: exact in the normal range, else a signed infinity or zero. -/
structure Scaled (a : Float80) (t : ℤ) (r : Float80) : Prop where
  sign : r.isSignNegative = a.isSignNegative
  normal : (2 : ℚ) ^ (-16382 : ℤ) ≤ a.magnitude * 2 ^ t → a.magnitude * 2 ^ t < 2 ^ (16384 : ℤ) →
    r.Normal ∧ r.magnitude = a.magnitude * 2 ^ t
  overflow : 2 ^ (16384 : ℤ) ≤ a.magnitude * 2 ^ t → r.isInf = true
  underflow : a.magnitude * 2 ^ t < 2 ^ (-16382 : ℤ) → r.isZero = true

/-- The exponent that the narrowed scale `w` leads to and the exact scale `t` are on the same side. -/
inductive SameRange (a : Float80) (t w : ℤ) : Prop
  | normal (h : a.Normal) (hlow : (2 : ℚ) ^ (-16382 : ℤ) ≤ a.magnitude * 2 ^ t)
      (hhigh : a.magnitude * 2 ^ t < 2 ^ (16384 : ℤ)) (heq : w = t)
  | overflow (h : 2 ^ (16384 : ℤ) ≤ a.magnitude * 2 ^ t) (hexp : 0x7FFF ≤ a.rawExp.toNat + w)
  | underflow (h : a.magnitude * 2 ^ t < 2 ^ (-16382 : ℤ)) (hexp : a.rawExp.toNat + w ≤ 0)

/-- The double that the scale converts to has an integer part of an `i64`, and the low 32 bits of it
keep the exponent in its range. -/
structure ScalesInRange (a s : Float80) : Prop where
  wide : binary64.Representable 64 s.toDouble.toNat
  sum : InSigned 32 (a.rawExp.toNat + castI32 (binary64.truncated s.toDouble.toNat))
  range : SameRange a (truncate s.value) (castI32 (binary64.truncated s.toDouble.toNat))

/-! ### The exponent -/

/-- The sign over a new exponent is what the packing makes of them. -/
theorem withExponent_eq_packNormal (a : Float80) (newExp : Int) :
    withExponent a newExp = packNormal a.isSignNegative a.sig newExp := by
  have hsign : a.signexp &&& 0x8000 = if a.isSignNegative then 0x8000 else 0 := by
    have hbit : (0x8000 : U16) = BitVec.twoPow 16 15 := by decide
    rw [isSignNegative_eq_msb, hbit, BitVec.and_twoPow, BitVec.msb_eq_getLsbD_last]
    rfl
  rw [withExponent, packNormal, hsign]

theorem zero_isSignNegative (s : Bool) : (zero s).isSignNegative = s := by cases s <;> decide

theorem zero_isZero (s : Bool) : (zero s).isZero = true := by cases s <;> decide

theorem not_normal_zero (s : Bool) : ¬ (zero s).Normal := by cases s <;> decide

theorem not_normal_inf (s : Bool) : ¬ (inf s).Normal := by cases s <;> decide

theorem not_inf_zero (s : Bool) : ¬ (zero s).isInf = true := by cases s <;> decide

theorem range_lt : (2 : ℚ) ^ (-16382 : ℤ) < 2 ^ (16384 : ℤ) :=
  zpow_lt_zpow_right₀ (by norm_num) (by norm_num)

section Ranges

variable {a : Float80} {t : ℤ}

theorem scaled_inf_iff :
    Scaled a t (inf a.isSignNegative) ↔ (2 : ℚ) ^ (16384 : ℤ) ≤ a.magnitude * 2 ^ t := by
  constructor
  · intro h
    by_contra hlt
    by_cases hlow : a.magnitude * 2 ^ t < 2 ^ (-16382 : ℤ)
    · have hzero := h.underflow hlow
      rw [not_zero_of_isInf (isInf_inf _)] at hzero
      exact Bool.false_ne_true hzero
    · exact not_normal_inf _ (h.normal (not_lt.mp hlow) (not_le.mp hlt)).1
  · intro h
    exact ⟨inf_isSignNegative _, fun _ hhigh => absurd h (not_le.mpr hhigh), fun _ => isInf_inf _,
      fun hlow => absurd (h.trans_lt hlow) (not_lt.mpr range_lt.le)⟩

theorem scaled_zero_iff :
    Scaled a t (zero a.isSignNegative) ↔ a.magnitude * 2 ^ t < (2 : ℚ) ^ (-16382 : ℤ) := by
  constructor
  · intro h
    by_contra hle
    by_cases hhigh : (2 : ℚ) ^ (16384 : ℤ) ≤ a.magnitude * 2 ^ t
    · exact not_inf_zero _ (h.overflow hhigh)
    · exact not_normal_zero _ (h.normal (not_lt.mp hle) (not_le.mp hhigh)).1
  · intro h
    exact ⟨zero_isSignNegative _, fun hlow _ => absurd h (not_lt.mpr hlow),
      fun hhigh => absurd (hhigh.trans_lt h) (not_lt.mpr range_lt.le), fun _ => zero_isZero _⟩

/-- A scaled normal number keeps its significand. -/
theorem Normal.magnitude_mul (h : a.Normal) (t : ℤ) :
    a.magnitude * 2 ^ t = a.sig.toNat * 2 ^ ((a.rawExp.toNat : ℤ) + t - (0x3FFF + 63)) := by
  have hne : a.rawExp.toNat ≠ 0 := fun hzero => h.1 (BitVec.eq_of_toNat_eq hzero)
  have hexp : (a.rawExp.toNat : ℤ) + t - (0x3FFF + 63) =
      (a.rawExp.toNat : ℤ) - (0x3FFF + 63) + t := by ring
  rw [magnitude, max_eq_right (by omega), hexp, zpow_add₀ (by norm_num), mul_assoc]

/-- Its binade is that of the sum of the exponents. -/
theorem Normal.binade (h : a.Normal) (t : ℤ) :
    (2 : ℚ) ^ ((a.rawExp.toNat : ℤ) + t - 0x3FFF) ≤ a.magnitude * 2 ^ t ∧
      a.magnitude * 2 ^ t < (2 : ℚ) ^ ((a.rawExp.toNat : ℤ) + t - 0x3FFF + 1) := by
  have hunit : (0 : ℚ) < 2 ^ ((a.rawExp.toNat : ℤ) + t - (0x3FFF + 63)) := zpow_pos (by norm_num) _
  have hlow : (2 : ℚ) ^ (63 : ℤ) ≤ a.sig.toNat := by exact_mod_cast h.2.2
  have hhigh : (a.sig.toNat : ℚ) < 2 ^ (64 : ℤ) := by exact_mod_cast a.sig.isLt
  have hbottom : (a.rawExp.toNat : ℤ) + t - 0x3FFF =
      63 + ((a.rawExp.toNat : ℤ) + t - (0x3FFF + 63)) := by ring
  have htop : (a.rawExp.toNat : ℤ) + t - 0x3FFF + 1 =
      64 + ((a.rawExp.toNat : ℤ) + t - (0x3FFF + 63)) := by ring
  rw [h.magnitude_mul t, htop, hbottom, zpow_add₀ (by norm_num), zpow_add₀ (by norm_num)]
  exact ⟨mul_le_mul_of_nonneg_right hlow hunit.le, mul_lt_mul_of_pos_right hhigh hunit⟩

/-- In the normal range the sum of the exponents is a normal one. -/
theorem Normal.exponent_sum (h : a.Normal) (hlow : (2 : ℚ) ^ (-16382 : ℤ) ≤ a.magnitude * 2 ^ t)
    (hhigh : a.magnitude * 2 ^ t < 2 ^ (16384 : ℤ)) :
    0 < (a.rawExp.toNat : ℤ) + t ∧ (a.rawExp.toNat : ℤ) + t < 0x7FFF := by
  obtain ⟨hle, hlt⟩ := h.binade t
  have habove := (zpow_lt_zpow_iff_right₀ (by norm_num)).mp (hlow.trans_lt hlt)
  have hbelow := (zpow_lt_zpow_iff_right₀ (by norm_num)).mp (hle.trans_lt hhigh)
  omega

/-- A new exponent of a normal number is right for a number that is normal, in the normal range and
scaled by the exact scale. -/
theorem scaled_mid_iff (ha : a.Operand) (hcanonical : a.Canonical) {w : ℤ}
    (hpos : 0 < (a.rawExp.toNat : ℤ) + w) (hlt : (a.rawExp.toNat : ℤ) + w < 0x7FFF) :
    Scaled a t (withExponent a (a.rawExp.toNat + w)) ↔
      a.Normal ∧ (2 : ℚ) ^ (-16382 : ℤ) ≤ a.magnitude * 2 ^ t ∧
        a.magnitude * 2 ^ t < 2 ^ (16384 : ℤ) ∧ w = t := by
  obtain ⟨hsig, hexp, hsign⟩ := packNormal_fields a.isSignNegative a.sig _ hpos hlt
  rw [← withExponent_eq_packNormal] at hsig hexp hsign
  generalize withExponent a (a.rawExp.toNat + w) = r at *
  have hne : r.rawExp ≠ 0 := rawExp_ne (by change _ ≠ 0; omega)
  have htop : r.rawExp ≠ 0x7FFF := rawExp_ne (by change _ ≠ 32767; omega)
  have hmag : r.magnitude = a.sig.toNat * 2 ^ ((a.rawExp.toNat : ℤ) + w - (0x3FFF + 63)) := by
    rw [magnitude, hsig, hexp, max_eq_right (by omega)]
  constructor
  · intro h
    have hlow : (2 : ℚ) ^ (-16382 : ℤ) ≤ a.magnitude * 2 ^ t := by
      by_contra hlow
      have hzero := h.underflow (not_le.mp hlow)
      rw [isZero, Bool.and_eq_true, beq_iff_eq] at hzero
      exact hne hzero.1
    have hhigh : a.magnitude * 2 ^ t < (2 : ℚ) ^ (16384 : ℤ) := by
      by_contra hhigh
      have hinf := h.overflow (not_lt.mp hhigh)
      rw [isInf, Bool.and_eq_true, Bool.and_eq_true, beq_iff_eq] at hinf
      exact htop hinf.1.1
    obtain ⟨hnormal, hvalue⟩ := h.normal hlow hhigh
    have hbig := hnormal.2.2
    rw [hsig] at hbig
    have hanormal : a.Normal := ha.resolve_left fun hden => hcanonical.mp hbig hden.1
    have hsigpos : (0 : ℚ) < a.sig.toNat := by
      exact_mod_cast (show 0 < 2 ^ 63 by decide).trans_le hbig
    rw [hmag, hanormal.magnitude_mul t] at hvalue
    have hpow := mul_left_cancel₀ hsigpos.ne' hvalue
    have hexps := (zpow_right_inj₀ (by norm_num) (by norm_num)).mp hpow
    exact ⟨hanormal, hlow, hhigh, by omega⟩
  · rintro ⟨hanormal, hlow, hhigh, rfl⟩
    refine ⟨hsign, fun _ _ => ⟨⟨hne, htop, ?_⟩, ?_⟩, fun h => absurd h (not_le.mpr hhigh),
      fun h => absurd h (not_lt.mpr hlow)⟩
    · rw [hsig]
      exact hanormal.2.2
    · rw [hmag, hanormal.magnitude_mul]

/-- Every new exponent is right on the side of the exact one. -/
theorem scaled_withExponent_iff (ha : a.Operand) (hcanonical : a.Canonical) (w : ℤ) :
    Scaled a t (withExponent a (a.rawExp.toNat + w)) ↔ SameRange a t w := by
  by_cases hover : (a.rawExp.toNat : ℤ) + w ≥ 0x7FFF
  · rw [withExponent, if_pos hover, scaled_inf_iff]
    constructor
    · exact fun h => .overflow h hover
    · rintro (⟨h, hlow, hhigh, rfl⟩ | ⟨h, -⟩ | ⟨-, hexp⟩)
      · exact absurd hover (not_le.mpr (h.exponent_sum hlow hhigh).2)
      · exact h
      · omega
  · by_cases hunder : (a.rawExp.toNat : ℤ) + w ≤ 0
    · rw [withExponent, if_neg hover, if_pos hunder, scaled_zero_iff]
      constructor
      · exact fun h => .underflow h hunder
      · rintro (⟨h, hlow, hhigh, rfl⟩ | ⟨-, hexp⟩ | ⟨h, -⟩)
        · exact absurd hunder (not_le.mpr (h.exponent_sum hlow hhigh).1)
        · omega
        · exact h
    · rw [scaled_mid_iff ha hcanonical (not_le.mp hunder) (not_le.mp hover)]
      constructor
      · exact fun ⟨h, hlow, hhigh, heq⟩ => .normal h hlow hhigh heq
      · rintro (⟨h, hlow, hhigh, heq⟩ | ⟨-, hexp⟩ | ⟨-, hexp⟩)
        · exact ⟨h, hlow, hhigh, heq⟩
        · exact absurd hexp hover
        · exact absurd hexp hunder

end Ranges

/-! ### The whole operation -/

section Operation

variable {a s : Float80} (hfin : a.rawExp ≠ 0x7FFF) (hs : s.rawExp ≠ 0x7FFF)
include hfin hs

theorem f80Scale_zero (h : a.isZero = true) : f80Scale a s = some a := by
  rw [f80Scale, not_nan_of_exp hfin, not_nan_of_exp hs, h]
  rfl

theorem f80Scale_operand (h : a.Operand) : f80Scale a s = do
    let k ← castI64 s.toDouble
    let newExp ← addI32 a.rawExp.toNat (castI32 k)
    return withExponent a newExp := by
  rw [f80Scale, not_nan_of_exp hfin, not_nan_of_exp hs, h.not_zero, h.not_inf]
  rfl

end Operation

/-- A zero stays what it is. -/
theorem scaled_zero {a : Float80} (h : a.isZero = true) (t : ℤ) : Scaled a t a := by
  have hmag : a.magnitude * 2 ^ t = 0 := by
    rw [isZero, Bool.and_eq_true, beq_iff_eq, beq_iff_eq] at h
    rw [magnitude, h.2]
    simp
  have hlow : (0 : ℚ) < 2 ^ (-16382 : ℤ) := zpow_pos (by norm_num) _
  refine ⟨rfl, fun hle _ => ?_, fun hle => ?_, fun _ => h⟩
  · rw [hmag] at hle
    exact absurd hle (not_le.mpr hlow)
  · rw [hmag] at hle
    exact absurd hle (not_le.mpr (hlow.trans range_lt))

theorem operand_of_canonical {a : Float80} (ha : a.Canonical) (hfin : a.rawExp ≠ 0x7FFF)
    (hzero : ¬ a.isZero = true) : a.Operand := by
  by_cases hexp : a.rawExp = 0
  · refine .inl ⟨hexp, fun hsig => hzero ?_⟩
    rw [isZero, hexp, hsig]
    rfl
  · exact .inr ⟨hexp, hfin, ha.mpr hexp⟩

end Float80

open Float80

/-- FSCALE scales a finite canonical number by the integer part of a finite scale precisely where the
number is a zero, or the double that the scale converts to has an integer part of an `i64` whose low 32
bits keep the exponent in its range. -/
theorem f80_scale_iff {a s : Float80} (ha : a.Canonical) (hfin : a.rawExp ≠ 0x7FFF)
    (hs : s.rawExp ≠ 0x7FFF) :
    (∃ r, f80Scale a s = some r ∧ Scaled a (truncate s.value) r) ↔
      a.isZero = true ∨ ScalesInRange a s := by
  by_cases hzero : a.isZero = true
  · exact ⟨fun _ => .inl hzero, fun _ => ⟨a, f80Scale_zero hfin hs hzero, scaled_zero hzero _⟩⟩
  have hoperand := operand_of_canonical ha hfin hzero
  rw [f80Scale_operand hfin hs hoperand, castI64]
  by_cases hwide : binary64.Representable 64 s.toDouble.toNat
  · rw [if_pos hwide, Option.bind_eq_bind, Option.bind_some, addI32]
    by_cases hsum : InSigned 32 (a.rawExp.toNat + castI32 (binary64.truncated s.toDouble.toNat))
    · rw [if_pos hsum, Option.bind_some]
      have hrange := scaled_withExponent_iff (t := truncate s.value) hoperand ha
        (castI32 (binary64.truncated s.toDouble.toNat))
      constructor
      · rintro ⟨r, hr, h⟩
        obtain rfl := Option.some.inj hr
        exact .inr ⟨hwide, hsum, hrange.mp h⟩
      · rintro (h | h)
        · exact absurd h hzero
        · exact ⟨_, rfl, hrange.mpr h.range⟩
    · rw [if_neg hsum]
      constructor
      · rintro ⟨r, hr, -⟩
        exact absurd hr (Option.some_ne_none r).symm
      · rintro (h | h)
        · exact absurd h hzero
        · exact absurd h.sum hsum
  · rw [if_neg hwide]
    constructor
    · rintro ⟨r, hr, -⟩
      exact absurd hr (Option.some_ne_none r).symm
    · rintro (h | h)
      · exact absurd h hzero
      · exact absurd h.wide hwide

/-- One, and two. -/
theorem f80_scale_iff_one :
    (∃ r, f80Scale ⟨1#64 <<< 63, 0x3FFF⟩ ⟨1#64 <<< 63, 0x4000⟩ = some r ∧
      Scaled ⟨1#64 <<< 63, 0x3FFF⟩ (truncate (value ⟨1#64 <<< 63, 0x4000⟩)) r) ↔
      isZero ⟨1#64 <<< 63, 0x3FFF⟩ = true ∨
        ScalesInRange ⟨1#64 <<< 63, 0x3FFF⟩ ⟨1#64 <<< 63, 0x4000⟩ :=
  f80_scale_iff (by decide) (by decide) (by decide)

/-- One scaled by 2^32 stays one, and the denormal 2^-16383 with the scale two becomes an unnormal. -/
theorem f80_scale_unscaled :
    (f80Scale ⟨1#64 <<< 63, 0x3FFF⟩ ⟨1#64 <<< 63, 0x401F⟩ = some ⟨1#64 <<< 63, 0x3FFF⟩ ∧
      ¬ Scaled ⟨1#64 <<< 63, 0x3FFF⟩ (truncate (value ⟨1#64 <<< 63, 0x401F⟩))
        ⟨1#64 <<< 63, 0x3FFF⟩) ∧
    f80Scale ⟨1#64 <<< 62, 0⟩ ⟨1#64 <<< 63, 0x4000⟩ = some ⟨1#64 <<< 62, 2⟩ ∧
      ¬ Scaled ⟨1#64 <<< 62, 0⟩ (truncate (value ⟨1#64 <<< 63, 0x4000⟩)) ⟨1#64 <<< 62, 2⟩ := by
  refine ⟨⟨by decide +kernel, fun h => ?_⟩, by decide +kernel, fun h => ?_⟩
  · have htrunc : truncate (value ⟨1#64 <<< 63, 0x401F⟩) = 2 ^ 32 := by decide +kernel
    have hone : magnitude ⟨1#64 <<< 63, 0x3FFF⟩ = 1 := by decide +kernel
    have hover := h.overflow
    rw [htrunc, hone, one_mul] at hover
    exact absurd (hover (zpow_le_zpow_right₀ (by norm_num) (by norm_num))) (by decide)
  · have htrunc : truncate (value ⟨1#64 <<< 63, 0x4000⟩) = 2 := by decide +kernel
    have hmag : magnitude ⟨1#64 <<< 62, 0⟩ * 2 ^ (2 : ℤ) = 2 ^ (-16381 : ℤ) := by
      have hsig : ((1#64 <<< 62).toNat : ℚ) = 2 ^ (62 : ℤ) := by
        rw [show (1#64 <<< 62).toNat = 2 ^ 62 by decide]
        norm_num
      have hexp : (rawExp ⟨1#64 <<< 62, 0⟩).toNat = 0 := by decide
      rw [magnitude, hexp, hsig, ← zpow_add₀ (by norm_num), ← zpow_add₀ (by norm_num)]
      rfl
    have hnormal := h.normal
    rw [htrunc, hmag] at hnormal
    exact absurd (hnormal (zpow_le_zpow_right₀ (by norm_num) (by norm_num))
      (zpow_lt_zpow_right₀ (by norm_num) (by norm_num))).1 (by decide)

end PicoCpu
