import PicoCpu.EvexMasking
import PicoCpu.Lib.BinaryFormat
import PicoCpu.SoftFloat.Special

/-!
The conversions of `float80.h`, between doubles, the 80-bit format and its ten bytes, and which of
them lose nothing.
-/

namespace PicoCpu

open BinaryFormat Handlers

namespace Float80

/-! ### The conversions -/

def fromDouble (d : U64) : Float80 :=
  let sign := bitAt d 63
  let dexp : Int := (((d >>> 52) &&& 0x7FF).toNat : Int) - 1023
  let dmant := d &&& ((1#64 <<< 52) - 1)
  if (d &&& ~~~(1#64 <<< 63)) == 0 then ⟨0, if sign then 0x8000 else 0⟩
  else if dexp = 1024 then
    ⟨(1#64 <<< 63) ||| (dmant <<< 11), (if sign then 0x8000 else 0) ||| 0x7FFF⟩
  else
    ⟨(1#64 <<< 63) ||| (dmant <<< 11),
      (if sign then 0x8000 else 0) ||| BitVec.ofInt 16 (dexp + 0x3FFF)⟩

/-- The bits of the double. -/
def toDouble (f : Float80) : U64 :=
  let sign : U64 := if f.isSignNegative then 1#64 <<< 63 else 0
  let exp : Int := f.rawExp.toNat
  if exp = 0 ∧ f.sig = 0 then sign
  else if exp = 0x7FFF then
    if (f.sig &&& (1#64 <<< 63)) != 0 && (f.sig <<< 1) == 0 then sign ||| (0x7FF#64 <<< 52)
    else 0x7FF8000000000000
  else
    let mant52 := (f.sig >>> 11) &&& ((1#64 <<< 52) - 1)
    let dexp := exp - 0x3FFF + 1023
    if 2047 ≤ dexp then sign ||| (0x7FF#64 <<< 52)
    else if dexp ≤ 0 then sign
    else sign ||| (BitVec.ofInt 64 dexp <<< 52) ||| mant52

def fromBytes (b : Buf) : Float80 := ⟨laneU64 b 0, laneU16 (b.drop 8) 0⟩

def toBytes (f : Float80) : Buf := splice (storeLE f.sig) 8 2 (storeLE (f.signexp.setWidth 64))

/-! ### The fields of a double -/

section Fields

variable (d : U64)

theorem toNat_exponentBits : ((d >>> 52) &&& 0x7FF).toNat = binary64.exponentField d.toNat := by
  rw [BitVec.toNat_and, toNat_ushiftRight_div]
  exact Nat.and_two_pow_sub_one_eq_mod _ 11

theorem toNat_fractionBits :
    (d &&& ((1#64 <<< 52) - 1)).toNat = binary64.fractionField d.toNat :=
  toNat_and_lowMask d (by decide)

theorem bitAt_sign : bitAt d 63 = binary64.negative d.toNat := by
  rw [bitAt_eq]
  rfl

theorem magnitudeBits_eq_zero_iff : ((d &&& ~~~(1#64 <<< 63)) == 0) = true ↔
    binary64.exponentField d.toNat = 0 ∧ binary64.fractionField d.toNat = 0 := by
  have hmask : (~~~(1#64 <<< 63)).toNat = 2 ^ 63 - 1 := by decide
  rw [beq_iff_eq, ← BitVec.toNat_inj, BitVec.toNat_and, hmask, Nat.and_two_pow_sub_one_eq_mod,
    Format.exponentField, Format.fractionField]
  change d.toNat % 2 ^ 63 = 0 ↔ d.toNat / 2 ^ 52 % 2 ^ 11 = 0 ∧ d.toNat % 2 ^ 52 = 0
  omega

/-- A sign bit over a number of 63 bits. -/
theorem toNat_sign_or (s : Bool) {y : U64} (hy : y.toNat < 2 ^ 63) :
    ((if s then 1#64 <<< 63 else 0) ||| y : U64).toNat = (if s then 2 ^ 63 else 0) + y.toNat := by
  cases s with
  | false =>
      rw [if_neg Bool.false_ne_true, if_neg Bool.false_ne_true, Nat.zero_add]
      exact congrArg BitVec.toNat (BitVec.zero_or (x := y))
  | true =>
      have hone : (1#64).toNat = 1 := rfl
      rw [if_pos rfl, if_pos rfl, toNat_shiftLeft_or (by rw [hone]; decide) hy, hone, Nat.one_mul]

end Fields

/-! ### The fields of the results -/

/-- The significand with its integer bit. -/
theorem toNat_significand (d : U64) :
    ((1#64 <<< 63) ||| ((d &&& ((1#64 <<< 52) - 1)) <<< 11)).toNat =
      2 ^ 63 + binary64.fractionField d.toNat * 2 ^ 11 := by
  have hlt : binary64.fractionField d.toNat < 2 ^ 52 := binary64.fractionField_lt _
  have hshift : ((d &&& ((1#64 <<< 52) - 1)) <<< 11).toNat =
      binary64.fractionField d.toNat * 2 ^ 11 := by
    rw [toNat_shiftLeft_lt, toNat_fractionBits]
    rw [toNat_fractionBits]
    omega
  have hsign := toNat_sign_or true (y := (d &&& ((1#64 <<< 52) - 1)) <<< 11) (by omega)
  rw [if_pos rfl, if_pos rfl, hshift] at hsign
  exact hsign

/-- What the encoding of a double holds. -/
structure FromDouble (d : U64) (f : Float80) : Prop where
  sign : f.isSignNegative = binary64.negative d.toNat
  zero : binary64.exponentField d.toNat = 0 → binary64.fractionField d.toNat = 0 →
    f.sig = 0 ∧ f.rawExp = 0
  sig : ¬ (binary64.exponentField d.toNat = 0 ∧ binary64.fractionField d.toNat = 0) →
    f.sig.toNat = 2 ^ 63 + binary64.fractionField d.toNat * 2 ^ 11
  top : binary64.exponentField d.toNat = 2047 → f.rawExp.toNat = 0x7FFF
  exp : ¬ (binary64.exponentField d.toNat = 0 ∧ binary64.fractionField d.toNat = 0) →
    binary64.exponentField d.toNat ≠ 2047 →
    f.rawExp.toNat = binary64.exponentField d.toNat + 15360

theorem fromDouble_spec (d : U64) : FromDouble d (fromDouble d) := by
  have he : binary64.exponentField d.toNat < 2048 := binary64.exponentField_lt _
  rw [fromDouble]
  simp only [toNat_exponentBits, bitAt_sign]
  by_cases hzero : binary64.exponentField d.toNat = 0 ∧ binary64.fractionField d.toNat = 0
  · rw [if_pos ((magnitudeBits_eq_zero_iff d).mpr hzero)]
    obtain ⟨hexp, hsign⟩ := fields_mk (binary64.negative d.toNat) 0 (e := 0) (by decide)
    rw [show (0 : U16) = 0#16 from rfl, BitVec.or_zero] at hexp hsign
    refine ⟨hsign, fun _ _ => ⟨rfl, hexp⟩, fun h => absurd hzero h, fun h => ?_,
      fun h => absurd hzero h⟩
    rw [hzero.1] at h
    cases h
  · rw [if_neg fun h => hzero ((magnitudeBits_eq_zero_iff d).mp h)]
    by_cases htop : binary64.exponentField d.toNat = 2047
    · rw [if_pos (by omega)]
      obtain ⟨hexp, hsign⟩ := fields_mk (binary64.negative d.toNat)
        ((1#64 <<< 63) ||| ((d &&& ((1#64 <<< 52) - 1)) <<< 11)) (e := 0x7FFF) (by decide)
      exact ⟨hsign, fun h h' => absurd ⟨h, h'⟩ hzero, fun _ => toNat_significand d,
        fun _ => congrArg BitVec.toNat hexp, fun _ h => absurd htop h⟩
    · rw [if_neg (by omega)]
      have hfield : (BitVec.ofInt 16 ((binary64.exponentField d.toNat : Int) - 1023 + 0x3FFF)).toNat =
          binary64.exponentField d.toNat + 15360 := by
        rw [BitVec.toNat_ofInt]
        omega
      obtain ⟨hexp, hsign⟩ := fields_mk (binary64.negative d.toNat)
        ((1#64 <<< 63) ||| ((d &&& ((1#64 <<< 52) - 1)) <<< 11))
        (e := BitVec.ofInt 16 ((binary64.exponentField d.toNat : Int) - 1023 + 0x3FFF))
        (by rw [hfield]; omega)
      exact ⟨hsign, fun h h' => absurd ⟨h, h'⟩ hzero, fun _ => toNat_significand d,
        fun h => absurd h htop, fun _ _ => (congrArg BitVec.toNat hexp).trans hfield⟩

/-- The pattern that a number is converted to. -/
def doublePattern (f : Float80) : Nat :=
  if 17407 ≤ f.rawExp.toNat then binary64.pattern f.isSignNegative 2047 0
  else if f.rawExp.toNat ≤ 15360 then binary64.pattern f.isSignNegative 0 0
  else binary64.pattern f.isSignNegative (f.rawExp.toNat - 15360) (f.sig.toNat / 2 ^ 11 % 2 ^ 52)

theorem toNat_toDouble {f : Float80} (h : f.isNan = false) : f.toDouble.toNat = f.doublePattern := by
  have hexp : f.rawExp.toNat < 2 ^ 15 := by
    rw [toNat_rawExp]
    exact Nat.mod_lt _ (by decide)
  have hzero : (if f.isSignNegative then 1#64 <<< 63 else 0 : U64).toNat =
      binary64.pattern f.isSignNegative 0 0 := by
    cases f.isSignNegative <;> rfl
  have hinf : ((if f.isSignNegative then 1#64 <<< 63 else 0) ||| (0x7FF#64 <<< 52) : U64).toNat =
      binary64.pattern f.isSignNegative 2047 0 := by
    cases f.isSignNegative <;> rfl
  rw [toDouble, doublePattern]
  dsimp only
  by_cases hnone : (f.rawExp.toNat : Int) = 0 ∧ f.sig = 0
  · rw [if_pos hnone, if_neg (show ¬ 17407 ≤ f.rawExp.toNat by omega),
      if_pos (show f.rawExp.toNat ≤ 15360 by omega)]
    exact hzero
  rw [if_neg hnone]
  by_cases htop : f.rawExp.toNat = 0x7FFF
  · have hcond : ((f.sig &&& (1#64 <<< 63)) != 0 && (f.sig <<< 1) == 0) = true := by
      have hraw : (f.rawExp != 0x7FFF) = false := by
        rw [bne_eq_false_iff_eq]
        exact BitVec.eq_of_toNat_eq htop
      rw [isNan, hraw, if_neg Bool.false_ne_true, Bool.or_eq_false_iff, bne_eq_false_iff_eq,
        beq_eq_false_iff_ne] at h
      rw [Bool.and_eq_true, bne_iff_ne, beq_iff_eq]
      exact ⟨h.2, h.1⟩
    rw [if_pos (show (f.rawExp.toNat : Int) = 0x7FFF by omega), if_pos hcond,
      if_pos (show 17407 ≤ f.rawExp.toNat by omega)]
    exact hinf
  · rw [if_neg (show ¬ (f.rawExp.toNat : Int) = 0x7FFF by omega)]
    by_cases hover : 17407 ≤ f.rawExp.toNat
    · rw [if_pos (show 2047 ≤ (f.rawExp.toNat : Int) - 0x3FFF + 1023 by omega), if_pos hover]
      exact hinf
    · rw [if_neg (show ¬ 2047 ≤ (f.rawExp.toNat : Int) - 0x3FFF + 1023 by omega), if_neg hover]
      by_cases hunder : f.rawExp.toNat ≤ 15360
      · rw [if_pos (show (f.rawExp.toNat : Int) - 0x3FFF + 1023 ≤ 0 by omega), if_pos hunder]
        exact hzero
      · rw [if_neg (show ¬ (f.rawExp.toNat : Int) - 0x3FFF + 1023 ≤ 0 by omega), if_neg hunder]
        have hfraction : ((f.sig >>> 11) &&& ((1#64 <<< 52) - 1)).toNat =
            f.sig.toNat / 2 ^ 11 % 2 ^ 52 := by
          rw [toNat_and_lowMask _ (by decide), toNat_ushiftRight_div]
        have hexponent : (BitVec.ofInt 64 ((f.rawExp.toNat : Int) - 0x3FFF + 1023)).toNat =
            f.rawExp.toNat - 15360 := by
          rw [BitVec.toNat_ofInt]
          omega
        have hlow := toNat_shiftLeft_or (n := 52)
          (x := BitVec.ofInt 64 ((f.rawExp.toNat : Int) - 0x3FFF + 1023))
          (y := (f.sig >>> 11) &&& ((1#64 <<< 52) - 1)) (by rw [hexponent]; omega)
          (by rw [hfraction]; exact Nat.mod_lt _ (by decide))
        rw [hexponent, hfraction] at hlow
        rw [BitVec.or_assoc, toNat_sign_or _ (by rw [hlow]; omega), hlow]
        rfl

/-! ### The bytes -/

theorem fromBytes_congr {b b' : Buf} (h : ∀ j < 10, b j = b' j) : fromBytes b = fromBytes b' := by
  have hsig : laneU64 b 0 = laneU64 b' 0 := by
    rw [← element_eight, ← element_eight]
    exact element_congr (by decide) fun j hj => h _ (by omega)
  have hexp : laneU16 (b.drop 8) 0 = laneU16 (b'.drop 8) 0 := by
    rw [← element_two, ← element_two]
    exact element_congr (by decide) fun j hj => h _ (by omega)
  rw [fromBytes, hsig, hexp]
  rfl

theorem fromBytes_toBytes (f : Float80) : fromBytes f.toBytes = f := by
  have hsig : laneU64 f.toBytes 0 = f.sig := by
    have hstored : Buf.element 8 f.toBytes 0 = Buf.element 8 (storeLE f.sig) 0 := by
      apply element_congr (by decide)
      intro j hj
      rw [toBytes, splice, if_neg (by omega)]
    rw [← element_eight, hstored]
    exact (element_storeLE (show 8 ≤ 8 by decide) f.sig).trans (BitVec.setWidth_eq f.sig)
  have hexp : laneU16 (f.toBytes.drop 8) 0 = f.signexp := by
    have hstored : Buf.element 2 (f.toBytes.drop 8) 0 =
        Buf.element 2 (storeLE (f.signexp.setWidth 64)) 0 := by
      apply element_congr (by decide)
      intro j hj
      rw [Buf.drop, toBytes, splice, if_pos (by omega), Nat.add_sub_cancel_left]
    rw [← element_two, hstored]
    refine (element_storeLE (show 2 ≤ 8 by decide) _).trans ?_
    exact (BitVec.setWidth_setWidth_of_le _ (by decide)).trans (BitVec.setWidth_eq f.signexp)
  rw [fromBytes, hsig, hexp]

/-! ### Doubles in the format -/

/-- The integer bit is set where the exponent field is not zero, and only there. -/
def Canonical (f : Float80) : Prop := 2 ^ 63 ≤ f.sig.toNat ↔ f.rawExp ≠ 0

instance (f : Float80) : Decidable f.Canonical := inferInstanceAs (Decidable (_ ↔ _))

/-- The number denotes the value of the double: the same rational or infinity, with its sign. -/
structure Denotes (f : Float80) (d : U64) : Prop where
  sign : f.isSignNegative = binary64.negative d.toNat
  finite : binary64.IsFinite d.toNat → f.rawExp ≠ 0x7FFF ∧ f.value = binary64.value d.toNat
  inf : binary64.IsInf d.toNat → f.isInf = true

/-- The encoding is canonical, exact, and comes back as the same double. -/
structure EmbedsExactly (d : U64) : Prop where
  canonical : (fromDouble d).Canonical
  denotes : (fromDouble d).Denotes d
  back : (fromDouble d).toDouble = d

/-- A subnormal double: its exponent field is zero, its fraction is not. -/
def Subnormal (d : U64) : Prop :=
  binary64.exponentField d.toNat = 0 ∧ binary64.fractionField d.toNat ≠ 0

instance (d : U64) : Decidable (Subnormal d) := inferInstanceAs (Decidable (_ ∧ _))

section Embedding

variable {d : U64}

theorem pattern_double (d : U64) : binary64.pattern (binary64.negative d.toNat)
    (binary64.exponentField d.toNat) (binary64.fractionField d.toNat) = d.toNat :=
  Format.pattern_fields d.isLt

theorem eq_of_doublePattern {f : Float80} (hnan : f.isNan = false)
    (h : f.doublePattern = d.toNat) : f.toDouble = d :=
  BitVec.eq_of_toNat_eq ((toNat_toDouble hnan).trans h)

theorem not_nan_of_exp {f : Float80} (h : f.rawExp ≠ 0x7FFF) : f.isNan = false := by
  rw [isNan, if_pos (bne_iff_ne.mpr h)]

theorem rawExp_ne {f : Float80} {n : U16} (h : f.rawExp.toNat ≠ n.toNat) : f.rawExp ≠ n :=
  fun heq => h (congrArg BitVec.toNat heq)

theorem embeds_zero (hexp : binary64.exponentField d.toNat = 0)
    (hfraction : binary64.fractionField d.toNat = 0) : EmbedsExactly d := by
  have h := fromDouble_spec d
  obtain ⟨hsig, hraw⟩ := h.zero hexp hfraction
  have hpattern := pattern_double d
  rw [hexp, hfraction, ← h.sign] at hpattern
  refine ⟨?_, ⟨h.sign, fun _ => ⟨?_, ?_⟩, fun hinf => ?_⟩, ?_⟩
  · rw [Canonical, hsig, hraw]
    decide
  · rw [hraw]
    decide
  · have hmag : (fromDouble d).magnitude = 0 := by
      rw [magnitude, hsig]
      exact zero_mul _
    have hmag' : binary64.magnitude d.toNat = 0 := by
      rw [Format.magnitude, Format.significand, if_pos hexp, hfraction]
      exact zero_mul _
    rw [value, Format.value, hmag, hmag', neg_zero, ite_self, ite_self]
  · exact absurd (hexp.symm.trans hinf.1) (by decide)
  · apply eq_of_doublePattern (not_nan_of_exp (by rw [hraw]; decide))
    rw [doublePattern, hraw, if_neg (by decide), if_pos (by decide), hpattern]

theorem embeds_inf (h : binary64.IsInf d.toNat) : EmbedsExactly d := by
  obtain ⟨hexp, hfraction⟩ := h
  have hexp' : binary64.exponentField d.toNat = 2047 := hexp
  have h := fromDouble_spec d
  have hraw := h.top hexp'
  have hsig := h.sig fun hzero => absurd (hexp'.symm.trans hzero.1) (by decide)
  have hpattern := pattern_double d
  rw [hexp', hfraction, ← h.sign] at hpattern
  rw [hfraction, Nat.zero_mul, Nat.add_zero] at hsig
  have hinf : fromDouble d = inf (fromDouble d).isSignNegative := by
    apply ext_fields (BitVec.eq_of_toNat_eq hsig)
    · refine BitVec.eq_of_toNat_eq (hraw.trans ?_)
      cases (fromDouble d).isSignNegative <;> rfl
    · exact (inf_isSignNegative _).symm
  have hisInf : (fromDouble d).isInf = true := by
    rw [hinf]
    exact isInf_inf _
  have hnan : (fromDouble d).isNan = false := by
    rw [hinf]
    cases (fromDouble d).isSignNegative <;> decide
  refine ⟨?_, ⟨h.sign, fun hfinite => absurd hexp hfinite, fun _ => hisInf⟩, ?_⟩
  · rw [Canonical, hsig]
    exact ⟨fun _ => rawExp_ne (by rw [hraw]; decide), fun _ => le_refl _⟩
  · apply eq_of_doublePattern hnan
    rw [doublePattern, hraw, if_pos (by decide), hpattern]

theorem embeds_normal (hfinite : binary64.IsFinite d.toNat)
    (hexp : binary64.exponentField d.toNat ≠ 0) : EmbedsExactly d := by
  have h := fromDouble_spec d
  have hnone : ¬ (binary64.exponentField d.toNat = 0 ∧ binary64.fractionField d.toNat = 0) :=
    fun hzero => hexp hzero.1
  have hsig := h.sig hnone
  have hraw := h.exp hnone hfinite
  have he : binary64.exponentField d.toNat < 2048 := binary64.exponentField_lt _
  have hm : binary64.fractionField d.toNat < 2 ^ 52 := binary64.fractionField_lt _
  have hne : binary64.exponentField d.toNat ≠ 2047 := hfinite
  have hpattern := pattern_double d
  rw [← h.sign] at hpattern
  have htop : (fromDouble d).rawExp ≠ 0x7FFF := by
    apply rawExp_ne
    rw [hraw]
    change _ ≠ 32767
    omega
  refine ⟨?_, ⟨h.sign, fun _ => ⟨htop, ?_⟩, fun hinf => absurd hinf.1 hfinite⟩, ?_⟩
  · rw [Canonical, hsig]
    refine ⟨fun _ => rawExp_ne ?_, fun _ => Nat.le_add_right _ _⟩
    rw [hraw]
    exact Nat.ne_of_gt (Nat.add_pos_right _ (by decide))
  · have hmag : (fromDouble d).magnitude = binary64.magnitude d.toNat := by
      have hbias : binary64.bias = 1023 := by decide
      have hscale : max 1 ((binary64.exponentField d.toNat + 15360 : ℕ) : ℤ) - (0x3FFF + 63) =
          binary64.scale d.toNat - 11 := by
        rw [Format.scale, hbias, max_eq_right (by omega), max_eq_right (by omega)]
        push_cast
        change _ = _ - 1023 - ((52 : ℕ) : ℤ) - 11
        push_cast
        ring
      rw [magnitude, hsig, hraw, hscale, Format.magnitude, Format.significand, if_neg hexp,
        zpow_sub₀ (by norm_num)]
      change _ = ((2 ^ 52 + binary64.fractionField d.toNat : ℕ) : ℚ) * _
      push_cast
      ring
    rw [value, Format.value, hmag, h.sign]
  · apply eq_of_doublePattern (not_nan_of_exp htop)
    have hfraction : (2 ^ 63 + binary64.fractionField d.toNat * 2 ^ 11) / 2 ^ 11 % 2 ^ 52 =
        binary64.fractionField d.toNat := by omega
    rw [doublePattern, hraw, hsig, if_neg (by omega), if_neg (by omega), hfraction,
      Nat.add_sub_cancel, hpattern]

/-- A subnormal double comes back as a zero. -/
theorem not_embeds_subnormal (h : Subnormal d) : ¬ EmbedsExactly d := by
  obtain ⟨hexp, hfraction⟩ := h
  intro hembeds
  have h := fromDouble_spec d
  have hnone : ¬ (binary64.exponentField d.toNat = 0 ∧ binary64.fractionField d.toNat = 0) :=
    fun hzero => hfraction hzero.2
  have hraw := h.exp hnone (by rw [hexp]; decide)
  rw [hexp] at hraw
  have hnan : (fromDouble d).isNan = false :=
    not_nan_of_exp (rawExp_ne (by rw [hraw]; decide))
  have hback := toNat_toDouble hnan
  rw [hembeds.back, doublePattern, hraw, if_neg (by decide), if_pos (by decide)] at hback
  apply hfraction
  rw [hback]
  exact Format.fractionField_pattern (by decide)

end Embedding

end Float80

open Float80

/-- A double that is no NaN embeds exactly in the 80-bit format precisely when it is no subnormal,
and the ten bytes of a number always give it back. -/
theorem double_embeds_iff {d : U64} (hnan : ¬ binary64.IsNan d.toNat) :
    (EmbedsExactly d ↔ ¬ Subnormal d) ∧ ∀ f : Float80, fromBytes f.toBytes = f := by
  refine ⟨⟨fun hembeds hsub => not_embeds_subnormal hsub hembeds, fun hsub => ?_⟩,
    fromBytes_toBytes⟩
  by_cases hexp : binary64.exponentField d.toNat = 0
  · exact embeds_zero hexp (not_not.mp fun hne => hsub ⟨hexp, hne⟩)
  · by_cases hfinite : binary64.IsFinite d.toNat
    · exact embeds_normal hfinite hexp
    · have htop := not_not.mp hfinite
      exact embeds_inf ⟨htop, not_not.mp fun hne => hnan ⟨htop, hne⟩⟩

theorem double_embeds_iff_one : EmbedsExactly oneF64 ↔ ¬ Subnormal oneF64 :=
  (double_embeds_iff (by decide)).1

/-- The least double becomes a normal number, and that a zero. -/
theorem least_double_lost :
    fromDouble 1 = ⟨0x8000000000000800, 0x3C00⟩ ∧ (fromDouble 1).toDouble = 0 ∧
      ¬ EmbedsExactly 1 :=
  ⟨by decide, by decide, not_embeds_subnormal (by decide)⟩

end PicoCpu
