import PicoCpu.Lib.BinaryOrder
import PicoCpu.SoftFloat.Doubles

/-!
The conversion to double truncates: it keeps the order of the extended reals, and in the normal range
of the doubles it is off by less than a unit in the last place.
-/

namespace PicoCpu

open BinaryFormat

namespace Float80

/-- The format's exponent and significand, the integer bit left out. -/
def binary80 : Format := ⟨63, 15⟩

/-- The number of a canonical magnitude in the order of the format. -/
def index (f : Float80) : Nat := f.rawExp.toNat * 2 ^ 63 + f.sig.toNat % 2 ^ 63

/-- The absolute value of a number that is no NaN. -/
noncomputable def extended (f : Float80) : EReal :=
  if f.isInf then ⊤ else ((f.magnitude : ℝ) : EReal)

/-- The value of a number that is no NaN. -/
noncomputable def toEReal (f : Float80) : EReal :=
  if f.isSignNegative then -f.extended else f.extended

theorem rawExp_lt (f : Float80) : f.rawExp.toNat < 2 ^ 15 := by
  rw [toNat_rawExp]
  exact Nat.mod_lt _ (by decide)

theorem rawExp_eq_iff {f : Float80} {n : U16} : f.rawExp = n ↔ f.rawExp.toNat = n.toNat :=
  BitVec.toNat_inj.symm

/-! ### The numbering -/

section Index

variable {f : Float80} (hcanonical : f.Canonical) (hnan : f.isNan = false)
include hcanonical

theorem magnitude_eq_index : f.magnitude = binary80.magnitude f.index := by
  have hexp := rawExp_lt f
  have hsig := f.sig.isLt
  have hindex : f.index = binary80.pattern false f.rawExp.toNat (f.sig.toNat % 2 ^ 63) :=
    (Nat.zero_add _).symm
  have hbias : binary80.bias = 0x3FFF := by decide
  have hsignificand : (if f.rawExp.toNat = 0 then f.sig.toNat % 2 ^ 63
      else 2 ^ 63 + f.sig.toNat % 2 ^ 63) = f.sig.toNat := by
    rw [Canonical, Ne, rawExp_eq_iff] at hcanonical
    have hzero : (0 : U16).toNat = 0 := rfl
    rw [hzero] at hcanonical
    split
    next h =>
      rw [Nat.mod_eq_of_lt (Nat.lt_of_not_le fun hle => hcanonical.mp hle h)]
    next h =>
      have hle := hcanonical.mpr h
      omega
  have hpattern := Format.magnitude_pattern (F := binary80) (s := false)
    (m := f.sig.toNat % 2 ^ 63) hexp (Nat.mod_lt _ (by decide))
  rw [hindex, hpattern, hbias]
  change _ = ((if f.rawExp.toNat = 0 then f.sig.toNat % 2 ^ 63
    else 2 ^ 63 + f.sig.toNat % 2 ^ 63 : ℕ) : ℚ) * _
  rw [hsignificand, magnitude]
  congr 2
  change _ = _ - 0x3FFF - ((63 : ℕ) : ℤ)
  push_cast
  ring

include hnan

omit hcanonical in
/-- What is neither finite nor a NaN is an infinity, with nothing below its integer bit. -/
theorem isInf_iff : f.isInf = true ↔ f.rawExp.toNat = 0x7FFF := by
  rw [isInf, Bool.and_eq_true, Bool.and_eq_true, beq_iff_eq, rawExp_eq_iff]
  constructor
  · exact fun h => h.1.1
  · intro h
    have hraw : (f.rawExp != 0x7FFF) = false := by
      rw [bne_eq_false_iff_eq]
      exact BitVec.eq_of_toNat_eq h
    rw [isNan, hraw, if_neg Bool.false_ne_true, Bool.or_eq_false_iff, bne_eq_false_iff_eq,
      beq_eq_false_iff_ne] at hnan
    rw [beq_iff_eq, bne_iff_ne]
    exact ⟨⟨h, hnan.1⟩, hnan.2⟩

omit hcanonical in
theorem index_le : f.index ≤ binary80.top * 2 ^ binary80.fraction := by
  have hexp := rawExp_lt f
  have htop : binary80.top = 0x7FFF := by decide
  rw [htop, index]
  change _ ≤ 0x7FFF * 2 ^ 63
  by_cases h : f.rawExp.toNat = 0x7FFF
  · have hinf := (isInf_iff hnan).mpr h
    have hsig : f.sig.toNat = 2 ^ 63 := by
      rw [← eq_inf_of_isInf hinf]
      rfl
    rw [h, hsig]
    decide
  · have hmod := Nat.mod_lt f.sig.toNat (show 0 < 2 ^ 63 by decide)
    omega

theorem extended_eq_index : f.extended = binary80.extended f.index := by
  have htop : binary80.top = 0x7FFF := by decide
  have hindex : f.index = binary80.pattern false f.rawExp.toNat (f.sig.toNat % 2 ^ 63) :=
    (Nat.zero_add _).symm
  have hexp : binary80.exponentField f.index = f.rawExp.toNat := by
    rw [hindex]
    exact Format.exponentField_pattern (rawExp_lt f) (Nat.mod_lt _ (by decide))
  rw [extended, Format.extended, hexp, htop, magnitude_eq_index hcanonical]
  simp only [isInf_iff hnan]

end Index

/-- The order of two magnitudes. -/
theorem extended_le_iff {f g : Float80} (hf : f.Canonical) (hnanf : f.isNan = false)
    (hg : g.Canonical) (hnang : g.isNan = false) : f.extended ≤ g.extended ↔ f.index ≤ g.index := by
  rw [extended_eq_index hf hnanf, extended_eq_index hg hnang]
  exact Format.extended_le_iff (index_le hnanf) (index_le hnang)

/-! ### The conversion -/

/-- The number of the double among the unsigned ones. -/
def doubleIndex (n : Nat) : Nat :=
  if 17407 * 2 ^ 63 ≤ n then 2047 * 2 ^ 52
  else if n < 15361 * 2 ^ 63 then 0 else n / 2 ^ 11 - 15360 * 2 ^ 52

theorem doubleIndex_mono {n n' : Nat} (h : n ≤ n') : doubleIndex n ≤ doubleIndex n' := by
  unfold doubleIndex
  split_ifs <;> omega

theorem doubleIndex_le (n : Nat) : doubleIndex n ≤ binary64.top * 2 ^ binary64.fraction := by
  have htop : binary64.top = 2047 := by decide
  rw [htop, doubleIndex]
  change _ ≤ 2047 * 2 ^ 52
  split_ifs <;> omega

section Conversion

variable {f : Float80} (hnan : f.isNan = false)
include hnan

theorem negative_toDouble : binary64.negative f.toDouble.toNat = f.isSignNegative := by
  have hexp := rawExp_lt f
  rw [toNat_toDouble hnan, doublePattern]
  split_ifs with hover hunder
  · exact Format.negative_pattern (by decide) (by decide)
  · exact Format.negative_pattern (by decide) (by decide)
  · exact Format.negative_pattern (by change _ < 2048; omega) (Nat.mod_lt _ (by decide))

theorem unsigned_toDouble (hcanonical : f.Canonical) :
    binary64.unsigned f.toDouble.toNat = doubleIndex f.index := by
  have hexp := rawExp_lt f
  have hsig := f.sig.isLt
  have hmod := Nat.mod_lt f.sig.toNat (show 0 < 2 ^ 63 by decide)
  have hunsigned {s : Bool} {e m : Nat} (he : e < 2 ^ binary64.exponent)
      (hm : m < 2 ^ binary64.fraction) :
      binary64.unsigned (binary64.pattern s e m) = e * 2 ^ 52 + m := by
    rw [Format.unsigned, Format.exponentField_pattern he hm, Format.fractionField_pattern hm]
    exact Nat.zero_add _
  rw [toNat_toDouble hnan, doublePattern, doubleIndex, index]
  by_cases hover : 17407 ≤ f.rawExp.toNat
  · rw [if_pos hover, if_pos (by omega), hunsigned (by decide) (by decide), Nat.add_zero]
  · have hover' : ¬ 17407 * 2 ^ 63 ≤ f.rawExp.toNat * 2 ^ 63 + f.sig.toNat % 2 ^ 63 := by omega
    rw [if_neg hover, if_neg hover']
    by_cases hunder : f.rawExp.toNat ≤ 15360
    · rw [if_pos hunder, if_pos (by omega), hunsigned (by decide) (by decide), Nat.zero_mul]
    · have hunder' : ¬ f.rawExp.toNat * 2 ^ 63 + f.sig.toNat % 2 ^ 63 < 15361 * 2 ^ 63 := by omega
      have hle : 2 ^ 63 ≤ f.sig.toNat := by
        rw [Canonical, Ne, rawExp_eq_iff] at hcanonical
        exact hcanonical.mpr (by change _ ≠ 0; omega)
      have he : f.rawExp.toNat - 15360 < 2 ^ binary64.exponent := by
        change _ < 2048
        omega
      have hm : f.sig.toNat / 2 ^ 11 % 2 ^ 52 < 2 ^ binary64.fraction := Nat.mod_lt _ (by decide)
      rw [if_neg hunder, if_neg hunder', hunsigned he hm]
      omega

end Conversion

section Monotone

variable {a b : Float80} (ha : a.Canonical) (hnana : a.isNan = false)
  (hb : b.Canonical) (hnanb : b.isNan = false)
include ha hnana hb hnanb

/-- On magnitudes the conversion is monotone. -/
theorem extended_toDouble_le (h : a.extended ≤ b.extended) :
    binary64.extended a.toDouble.toNat ≤ binary64.extended b.toDouble.toNat := by
  rw [← Format.extended_unsigned, ← Format.extended_unsigned binary64 b.toDouble.toNat,
    unsigned_toDouble hnana ha, unsigned_toDouble hnanb hb,
    Format.extended_le_iff (doubleIndex_le _) (doubleIndex_le _)]
  exact doubleIndex_mono ((extended_le_iff ha hnana hb hnanb).mp h)

end Monotone

theorem extended_nonneg (f : Float80) : 0 ≤ f.extended := by
  unfold extended
  split
  · exact le_top
  · refine EReal.coe_nonneg.mpr (Rat.cast_nonneg.mpr (mul_nonneg (Nat.cast_nonneg _) ?_))
    exact (zpow_pos (by norm_num) _).le

/-- Only zeros are not above zero, and they stay so. -/
theorem extended_toDouble_of_zero {f : Float80} (hf : f.Canonical) (hnan : f.isNan = false)
    (h : f.extended ≤ 0) : binary64.extended f.toDouble.toNat = 0 := by
  have hzero : (zero false).extended = 0 := by
    have hmag : (zero false).magnitude = 0 := zero_mul _
    rw [extended, if_neg (show ¬ (zero false).isInf = true by decide), hmag, Rat.cast_zero,
      EReal.coe_zero]
  have hindex := (extended_le_iff hf hnan (g := zero false) (by decide) (by decide)).mp
    (h.trans hzero.symm.le)
  have hnone : f.index = 0 := Nat.le_zero.mp hindex
  have hmag : binary64.magnitude 0 = 0 := by
    rw [Format.magnitude]
    exact zero_mul _
  have hpattern : doubleIndex 0 = 0 := by decide
  have hfinite : binary64.exponentField 0 ≠ binary64.top := by decide
  rw [← Format.extended_unsigned, unsigned_toDouble hnan hf, hnone, hpattern, Format.extended,
    if_neg hfinite, hmag]
  norm_num

/-- The order of the extended reals is kept, across signs, zeros and infinities. -/
theorem toDouble_mono {a b : Float80} (ha : a.Canonical) (hnana : a.isNan = false)
    (hb : b.Canonical) (hnanb : b.isNan = false) (h : a.toEReal ≤ b.toEReal) :
    binary64.toEReal a.toDouble.toNat ≤ binary64.toEReal b.toDouble.toNat := by
  have hposa := a.extended_nonneg
  have hposb := b.extended_nonneg
  rw [toEReal, toEReal] at h
  rw [Format.toEReal, Format.toEReal, negative_toDouble hnana, negative_toDouble hnanb]
  cases hsa : a.isSignNegative with
  | true =>
      rw [hsa, if_pos rfl] at h
      rw [if_pos rfl]
      cases hsb : b.isSignNegative with
      | true =>
          rw [hsb, if_pos rfl, EReal.neg_le_neg_iff] at h
          rw [if_pos rfl, EReal.neg_le_neg_iff]
          exact extended_toDouble_le hb hnanb ha hnana h
      | false =>
          rw [if_neg Bool.false_ne_true]
          have hneg : -binary64.extended a.toDouble.toNat ≤ 0 := by
            rw [EReal.neg_le, neg_zero]
            exact Format.extended_nonneg _ _
          exact hneg.trans (Format.extended_nonneg _ _)
  | false =>
      rw [hsa, if_neg Bool.false_ne_true] at h
      rw [if_neg Bool.false_ne_true]
      cases hsb : b.isSignNegative with
      | true =>
          -- Nothing positive is below a negative number, so both are zeros.
          rw [hsb, if_pos rfl] at h
          have hzeroa : a.extended ≤ 0 := h.trans (by rw [EReal.neg_le, neg_zero]; exact hposb)
          have hzerob : b.extended ≤ 0 := by
            have hle := hposa.trans h
            rwa [EReal.le_neg, neg_zero] at hle
          rw [if_pos rfl, extended_toDouble_of_zero ha hnana hzeroa,
            extended_toDouble_of_zero hb hnanb hzerob, neg_zero]
      | false =>
          rw [hsb, if_neg Bool.false_ne_true] at h
          rw [if_neg Bool.false_ne_true]
          exact extended_toDouble_le ha hnana hb hnanb h

/-! ### The error -/

/-- The magnitude of a power of two of the format. -/
theorem magnitude_power {e : ℕ} (hpos : 0 < e) (he : e < 2 ^ 15) :
    binary80.magnitude (e * 2 ^ 63) = 2 ^ ((e : ℤ) - 0x3FFF) := by
  have hbias : binary80.bias = 0x3FFF := by decide
  have hscale : (e : ℤ) - 0x3FFF = 63 + (max 1 (e : ℤ) - 0x3FFF - ((63 : ℕ) : ℤ)) := by
    rw [max_eq_right (by omega)]
    push_cast
    ring
  have hpattern := Format.magnitude_pattern (F := binary80) (s := false) (e := e) (m := 0) he
    (by decide)
  rw [if_neg (by omega), hbias] at hpattern
  have hindex : binary80.pattern false e 0 = e * 2 ^ 63 := by
    rw [Format.pattern, if_neg Bool.false_ne_true, Nat.zero_add, Nat.add_zero]
    rfl
  rw [← hindex, hpattern, hscale, zpow_add₀ (by norm_num)]
  change ((2 ^ 63 : ℕ) : ℚ) * _ = _
  push_cast
  rfl

section Error

variable {a : Float80} (ha : a.Canonical)
include ha

/-- The exponent field of a magnitude is read off its bounds. -/
theorem rawExp_of_normal (hlow : (2 : ℚ) ^ (-1022 : ℤ) ≤ a.magnitude)
    (hhigh : a.magnitude < (2 : ℚ) ^ (1024 : ℤ)) :
    15361 ≤ a.rawExp.toNat ∧ a.rawExp.toNat ≤ 17406 := by
  have hexp := rawExp_lt a
  have hmod := Nat.mod_lt a.sig.toNat (show 0 < 2 ^ 63 by decide)
  have hindex : a.index < 2 ^ 78 := by
    rw [index]
    omega
  have hbound {n : ℕ} (hn : n < 2 ^ 78) : binary80.magnitude n ≤ a.magnitude ↔ n ≤ a.index := by
    rw [magnitude_eq_index ha]
    exact Format.magnitude_le_iff hn hindex
  have hbelow : 15361 * 2 ^ 63 ≤ a.index := by
    rw [← hbound (n := 15361 * 2 ^ 63) (by norm_num), magnitude_power (by norm_num) (by norm_num)]
    exact hlow
  have habove : ¬ 17407 * 2 ^ 63 ≤ a.index := by
    rw [← hbound (n := 17407 * 2 ^ 63) (by norm_num), magnitude_power (by norm_num) (by norm_num),
      not_le]
    exact hhigh
  rw [index] at hbelow habove
  omega

theorem integerBit_of_normal (hmin : 15361 ≤ a.rawExp.toNat) : 2 ^ 63 ≤ a.sig.toNat := by
  rw [Canonical, Ne, rawExp_eq_iff] at ha
  exact ha.mpr (by change _ ≠ 0; omega)

omit ha in
theorem fields_of_normal (hmax : a.rawExp.toNat ≤ 17406) :
    a.rawExp.toNat - 15360 < 2 ^ binary64.exponent ∧
      a.sig.toNat / 2 ^ 11 % 2 ^ 52 < 2 ^ binary64.fraction := by
  refine ⟨?_, Nat.mod_lt _ (by decide)⟩
  change _ < 2048
  omega

variable (hnan : a.isNan = false) (hmin : 15361 ≤ a.rawExp.toNat) (hmax : a.rawExp.toNat ≤ 17406)
include hnan hmin hmax

/-- In the normal range the exponent field moves to the bias of the doubles, and the fraction is cut. -/
theorem toDouble_normal : a.toDouble.toNat = binary64.pattern a.isSignNegative
    (a.rawExp.toNat - 15360) (a.sig.toNat / 2 ^ 11 % 2 ^ 52) := by
  have hsig := a.sig.isLt
  have htop := integerBit_of_normal ha hmin
  rw [toNat_toDouble hnan, doublePattern, if_neg (by omega), if_neg (by omega)]

theorem scale_toDouble_normal :
    binary64.scale a.toDouble.toNat = (a.rawExp.toNat : ℤ) - 16435 := by
  obtain ⟨he, hm⟩ := fields_of_normal hmax
  have hbias : binary64.bias = 1023 := by decide
  rw [toDouble_normal ha hnan hmin hmax, Format.scale_pattern he hm, hbias,
    max_eq_right (by omega)]
  change _ - 1023 - ((52 : ℕ) : ℤ) = _
  push_cast [Nat.cast_sub (show 15360 ≤ a.rawExp.toNat by omega)]
  ring

theorem significand_toDouble_normal :
    binary64.significand a.toDouble.toNat = a.sig.toNat / 2 ^ 11 := by
  have hsig := a.sig.isLt
  have htop := integerBit_of_normal ha hmin
  obtain ⟨he, hm⟩ := fields_of_normal hmax
  rw [toDouble_normal ha hnan hmin hmax, Format.significand_pattern he hm, if_neg (by omega)]
  change 2 ^ 52 + _ = _
  omega

/-- What is dropped is below the last bit that is kept. -/
theorem magnitude_toDouble_normal : a.magnitude = binary64.magnitude a.toDouble.toNat +
    ((a.sig.toNat % 2 ^ 11 : ℕ) : ℚ) / 2 ^ 11 * 2 ^ binary64.scale a.toDouble.toNat := by
  have hsplit : (a.sig.toNat : ℚ) = 2 ^ 11 * (a.sig.toNat / 2 ^ 11 : ℕ) +
      (a.sig.toNat % 2 ^ 11 : ℕ) := by
    exact_mod_cast (Nat.div_add_mod a.sig.toNat (2 ^ 11)).symm
  have hstep : max 1 (a.rawExp.toNat : ℤ) - (0x3FFF + 63) =
      binary64.scale a.toDouble.toNat - 11 := by
    rw [scale_toDouble_normal ha hnan hmin hmax, max_eq_right (by omega)]
    ring
  rw [Format.magnitude, significand_toDouble_normal ha hnan hmin hmax, magnitude, hstep,
    zpow_sub₀ (by norm_num), hsplit]
  norm_num
  ring

omit hmin hmax

/-- A magnitude in the normal range of the doubles drops the last eleven bits of its significand. -/
theorem toDouble_error (hlow : (2 : ℚ) ^ (-1022 : ℤ) ≤ a.magnitude)
    (hhigh : a.magnitude < (2 : ℚ) ^ (1024 : ℤ)) :
    binary64.IsFinite a.toDouble.toNat ∧
      |binary64.value a.toDouble.toNat - a.value| < 2 ^ binary64.scale a.toDouble.toNat := by
  obtain ⟨hmin, hmax⟩ := rawExp_of_normal ha hlow hhigh
  have hdropped : ((a.sig.toNat % 2 ^ 11 : ℕ) : ℚ) < 2 ^ 11 := by
    exact_mod_cast Nat.mod_lt a.sig.toNat (show 0 < 2 ^ 11 by decide)
  have hpos : (0 : ℚ) < 2 ^ binary64.scale a.toDouble.toNat := zpow_pos (by norm_num) _
  have hnonneg : (0 : ℚ) ≤ (a.sig.toNat % 2 ^ 11 : ℕ) := Nat.cast_nonneg _
  have hpart : ((a.sig.toNat % 2 ^ 11 : ℕ) : ℚ) / 2 ^ 11 < 1 := by
    rw [div_lt_one (by norm_num)]
    exact hdropped
  have hdiff : |binary64.magnitude a.toDouble.toNat - a.magnitude| <
      2 ^ binary64.scale a.toDouble.toNat := by
    rw [magnitude_toDouble_normal ha hnan hmin hmax, sub_add_cancel_left, abs_neg,
      abs_of_nonneg (mul_nonneg (div_nonneg hnonneg (by norm_num)) hpos.le)]
    calc _ < 1 * (2 : ℚ) ^ binary64.scale a.toDouble.toNat := mul_lt_mul_of_pos_right hpart hpos
      _ = _ := one_mul _
  constructor
  · obtain ⟨he, hm⟩ := fields_of_normal hmax
    have hne : a.rawExp.toNat - 15360 ≠ 2047 := by omega
    rw [toDouble_normal ha hnan hmin hmax, Format.IsFinite, Format.exponentField_pattern he hm]
    exact hne
  · rw [Format.value, value, negative_toDouble hnan]
    cases a.isSignNegative with
    | false => exact hdiff
    | true =>
        rw [if_pos rfl, if_pos rfl, neg_sub_neg, abs_sub_comm]
        exact hdiff

end Error

end Float80

open Float80

/-- The conversion to double keeps the order of the extended reals, and where the magnitude is in the
normal range of the doubles it is off by less than a unit in the last place of its result. -/
theorem to_double_monotone_faithful {a b : Float80} (ha : a.Canonical) (hnana : a.isNan = false)
    (hb : b.Canonical) (hnanb : b.isNan = false) :
    (a.toEReal ≤ b.toEReal →
      binary64.toEReal a.toDouble.toNat ≤ binary64.toEReal b.toDouble.toNat) ∧
      ((2 : ℚ) ^ (-1022 : ℤ) ≤ a.magnitude → a.magnitude < (2 : ℚ) ^ (1024 : ℤ) →
        binary64.IsFinite a.toDouble.toNat ∧
          |binary64.value a.toDouble.toNat - a.value| < 2 ^ binary64.scale a.toDouble.toNat) :=
  ⟨toDouble_mono ha hnana hb hnanb, toDouble_error ha hnana⟩

theorem to_double_monotone_faithful_one :
    binary64.toEReal (toDouble ⟨1#64 <<< 63, 0x3FFF⟩).toNat ≤
      binary64.toEReal (inf false).toDouble.toNat ∧
    binary64.IsFinite (toDouble ⟨1#64 <<< 63, 0x3FFF⟩).toNat ∧
      |binary64.value (toDouble ⟨1#64 <<< 63, 0x3FFF⟩).toNat - value ⟨1#64 <<< 63, 0x3FFF⟩| <
        2 ^ binary64.scale (toDouble ⟨1#64 <<< 63, 0x3FFF⟩).toNat := by
  have hone : magnitude ⟨1#64 <<< 63, 0x3FFF⟩ = 1 := by
    have hsig : (1#64 <<< 63).toNat = 2 ^ 63 := by decide
    have hexp : (rawExp ⟨1#64 <<< 63, 0x3FFF⟩).toNat = 0x3FFF := by decide
    rw [magnitude, hexp, hsig]
    norm_num
  have hinf : (inf false).toEReal = ⊤ := by
    rw [toEReal, if_neg (show ¬ (inf false).isSignNegative = true by decide), extended,
      if_pos (by decide)]
  obtain ⟨hle, herror⟩ := to_double_monotone_faithful (a := ⟨1#64 <<< 63, 0x3FFF⟩) (b := inf false)
    (by decide) (by decide) (by decide) (by decide)
  refine ⟨hle (by rw [hinf]; exact le_top), herror ?_ ?_⟩
  · rw [hone]
    exact zpow_le_one_of_nonpos₀ (by norm_num) (by norm_num)
  · rw [hone]
    exact one_lt_zpow₀ (by norm_num) (by norm_num)

end PicoCpu
