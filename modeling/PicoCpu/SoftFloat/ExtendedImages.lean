import PicoCpu.DoubleShifts
import PicoCpu.Lib.BinaryNearest
import PicoCpu.MemoryAccess
import PicoCpu.SoftFloat.Doubles

/-!
The two codecs of the ten-byte format: the conversions of `float80.h`, and the coding inside FSTP and
FLD, which goes through the host's division and `ldexp`. The host's operations are parameters that
round to nearest.
-/

namespace PicoCpu

open H Proc Handlers BinaryFormat NearestEven Granule Float80

/-- A double that is finite and not negative. -/
def FiniteMagnitude (x : U64) : Prop := x.toNat < 2047 * 2 ^ 52

/-- The host rounds to nearest, ties to even, what it computes on doubles that are not negative. -/
structure HostFp.RoundsToNearest (fp : HostFp) : Prop where
  ofU64 : ∀ m : U64, (fp.ofU64 m).toNat = binary64.nearest m.toNat
  div : ∀ x y : U64, FiniteMagnitude x → FiniteMagnitude y → binary64.magnitude y.toNat ≠ 0 →
    ((fp.f64 .current).div x y).toNat =
      binary64.nearest (binary64.magnitude x.toNat / binary64.magnitude y.toNat)
  ldexp : ∀ (x : U64) (n : Int), FiniteMagnitude x →
    (fp.ldexp x n).toNat = binary64.nearest (binary64.magnitude x.toNat * 2 ^ n)

/-! ### Storing -/

section Storing

variable (v : U64)

/-- A double is coded as in `float80.h`, but for its exponent. -/
theorem extendedOfDouble_eq : ∀ j < 10, extendedOfDouble v j =
    (toBytes
      (if binary64.exponentField v.toNat = 0 ∧ binary64.fractionField v.toNat = 0 then
        ⟨0, if bitAt v 63 then 0x8000 else 0⟩
      else ⟨(1#64 <<< 63) ||| ((v &&& ((1#64 <<< 52) - 1)) <<< 11),
        (if bitAt v 63 then 0x8000 else 0) |||
          (BitVec.ofInt 16 ((binary64.exponentField v.toNat : Int) - 1023 + 16383) &&& 0x7FFF)⟩)) j := by
  intro j hj
  have hfraction : v &&& ((1#64 <<< 52) - 1) = 0 ↔ binary64.fractionField v.toNat = 0 := by
    rw [← BitVec.toNat_inj, toNat_fractionBits]
    rfl
  rw [extendedOfDouble]
  simp only [toNat_exponentBits, hfraction]
  by_cases hzero : binary64.exponentField v.toNat = 0 ∧ binary64.fractionField v.toNat = 0
  · rw [if_pos (show (binary64.exponentField v.toNat : Int) - 1023 = -1023 ∧
      binary64.fractionField v.toNat = 0 from ⟨by omega, hzero.2⟩), if_pos hzero]
    have hbytes : ∀ s : Bool, ∀ j < 10, (if j = 9 ∧ s = true then 0x80 else 0 : U8) =
        toBytes ⟨0, if s then 0x8000 else 0⟩ j := by decide
    exact hbytes _ j hj
  · rw [if_neg (show ¬ ((binary64.exponentField v.toNat : Int) - 1023 = -1023 ∧
      binary64.fractionField v.toNat = 0) from fun h => hzero ⟨by omega, h.2⟩), if_neg hzero,
      BitVec.or_comm _ (1#64 <<< 63)]
    rfl

theorem extendedOfDouble_finite (h : binary64.IsFinite v.toNat) :
    ∀ j < 10, extendedOfDouble v j = (fromDouble v).toBytes j := by
  have he : binary64.exponentField v.toNat < 2048 := binary64.exponentField_lt _
  have hne : binary64.exponentField v.toNat ≠ 2047 := h
  intro j hj
  rw [extendedOfDouble_eq v j hj, fromDouble]
  simp only [toNat_exponentBits]
  by_cases hzero : binary64.exponentField v.toNat = 0 ∧ binary64.fractionField v.toNat = 0
  · rw [if_pos hzero, if_pos ((magnitudeBits_eq_zero_iff v).mpr hzero)]
  · have hmask : BitVec.ofInt 16 ((binary64.exponentField v.toNat : Int) - 1023 + 16383) &&& 0x7FFF =
        BitVec.ofInt 16 ((binary64.exponentField v.toNat : Int) - 1023 + 0x3FFF) := by
      apply BitVec.eq_of_toNat_eq
      have hand := Nat.and_two_pow_sub_one_eq_mod
        (BitVec.ofInt 16 ((binary64.exponentField v.toNat : Int) - 1023 + 16383)).toNat 15
      rw [BitVec.toNat_and]
      refine hand.trans (Nat.mod_eq_of_lt ?_)
      rw [BitVec.toNat_ofInt]
      omega
    rw [if_neg hzero, if_neg fun hnone => hzero ((magnitudeBits_eq_zero_iff v).mp hnone),
      if_neg (show ¬ (binary64.exponentField v.toNat : Int) - 1023 = 1024 by omega), hmask]

/-- An infinity or a NaN is given the exponent after the largest double's. -/
theorem extendedOfDouble_top (h : ¬ binary64.IsFinite v.toNat) :
    ¬ ∀ j < 10, extendedOfDouble v j = (fromDouble v).toBytes j := by
  have hexp : binary64.exponentField v.toNat = 2047 := not_not.mp h
  intro hbytes
  have hsame : fromBytes (extendedOfDouble v) = fromDouble v := by
    rw [fromBytes_congr hbytes, fromBytes_toBytes]
  have htop := (fromDouble_spec v).top hexp
  rw [← hsame, fromBytes_congr (extendedOfDouble_eq v), fromBytes_toBytes, hexp,
    if_neg (show ¬ (2047 = 0 ∧ binary64.fractionField v.toNat = 0) from fun h => by cases h.1),
    (fields_mk (bitAt v 63) _ (by decide)).1] at htop
  exact absurd htop (by decide)

theorem extendedOfDouble_iff :
    (∀ j < 10, extendedOfDouble v j = (fromDouble v).toBytes j) ↔ binary64.IsFinite v.toNat :=
  ⟨fun h => by_contra fun htop => extendedOfDouble_top v htop h, extendedOfDouble_finite v⟩

end Storing

/-! ### Loading -/

/-- The significand rounds down to 53 bits. -/
def RoundsDown (sig : Nat) : Prop :=
  sig % 2 ^ 11 < 2 ^ 10 ∨ sig % 2 ^ 11 = 2 ^ 10 ∧ sig / 2 ^ 11 % 2 = 0

instance (sig : Nat) : Decidable (RoundsDown sig) := inferInstanceAs (Decidable (_ ∨ _))

/-- The 53 bits it rounds to. -/
def kept (sig : Nat) : Nat := if RoundsDown sig then sig / 2 ^ 11 else sig / 2 ^ 11 + 1

theorem roundEven_kept (sig : Nat) : (roundEven ((sig : ℚ) / 2 ^ 11)).toNat = kept sig := by
  have hrounds : RoundsDown sig ↔
      sig % 2 ^ 11 < 2 ^ 10 ∨ sig % 2 ^ 11 = 2 ^ 10 ∧ sig / 2 ^ 11 % 2 = 0 := Iff.rfl
  rw [roundEven_natCast_div]
  by_cases h : RoundsDown sig
  · rw [kept, if_pos h]
    rw [hrounds] at h
    split_ifs <;> omega
  · rw [kept, if_neg h]
    rw [hrounds] at h
    split_ifs <;> omega

theorem kept_bounds {sig : Nat} (hlow : 2 ^ 63 ≤ sig) (hhigh : sig < 2 ^ 64) :
    2 ^ 52 ≤ kept sig ∧ kept sig ≤ 2 ^ 53 := by
  unfold kept
  split_ifs <;> omega

/-- A quotient by a power of two rounds to nothing up to a half. -/
theorem roundEven_eq_zero_iff (k s : Nat) :
    (roundEven ((k : ℚ) / 2 ^ s)).toNat = 0 ↔ 2 * k ≤ 2 ^ s := by
  have hpos := Nat.two_pow_pos s
  have hdiv := Nat.div_add_mod k (2 ^ s)
  have hmod := Nat.mod_lt k hpos
  rw [roundEven_natCast_div]
  by_cases hlt : k < 2 ^ s
  · rw [Nat.div_eq_of_lt hlt, Nat.mod_eq_of_lt hlt]
    split_ifs <;> omega
  · have hquot := Nat.div_pos (Nat.not_lt.mp hlt) hpos
    split_ifs <;> omega

theorem leastScale_binary64 : binary64.leastScale = -1074 := by decide

theorem top_binary64 : binary64.top * 2 ^ binary64.fraction = 2047 * 2 ^ 52 := by decide

section Loading

variable {fp : HostFp} (hfp : fp.RoundsToNearest)
include hfp

/-- The significand as a double. -/
theorem toNat_ofU64 {m : U64} (hm : 2 ^ 63 ≤ m.toNat) :
    (fp.ofU64 m).toNat = 1085 * 2 ^ 52 + kept m.toNat ∧
      binary64.magnitude (fp.ofU64 m).toNat = kept m.toNat * 2 ^ (11 : ℤ) := by
  have hkept := kept_bounds hm m.isLt
  have hnearest := Format.nearest_natCast (F := binary64) (m := m.toNat) (s := 11) hm m.isLt
    (by rw [leastScale_binary64]; decide)
  have htoNat : (fp.ofU64 m).toNat = 1085 * 2 ^ 52 + kept m.toNat := by
    rw [hfp.ofU64, hnearest, roundEven_kept, leastScale_binary64, top_binary64]
    change min (1085 * 2 ^ 52 + kept m.toNat) _ = _
    omega
  refine ⟨htoNat, ?_⟩
  rw [htoNat]
  have hmagnitude := Format.magnitude_number (F := binary64) (k := kept m.toNat) (d := 1085) hkept.2
    (.inr hkept.1) (by rw [top_binary64]; change 1085 * 2 ^ 52 + _ < _; omega)
  rw [leastScale_binary64] at hmagnitude
  exact hmagnitude

/-- The quotient by `2 ^ 63`. -/
theorem toNat_quotient {m : U64} (hm : 2 ^ 63 ≤ m.toNat) :
    FiniteMagnitude ((fp.f64 .current).div (fp.ofU64 m) (fp.ofU64 (1#64 <<< 63))) ∧
      binary64.magnitude ((fp.f64 .current).div (fp.ofU64 m) (fp.ofU64 (1#64 <<< 63))).toNat =
        kept m.toNat * 2 ^ (-52 : ℤ) := by
  have hkept := kept_bounds hm m.isLt
  obtain ⟨hx, hxmag⟩ := toNat_ofU64 hfp hm
  obtain ⟨hy, hymag⟩ := toNat_ofU64 hfp (m := 1#64 <<< 63) (by decide)
  have hone : kept (1#64 <<< 63).toNat = 2 ^ 52 := by decide
  rw [hone] at hy hymag
  have hquotient : (kept m.toNat : ℚ) * 2 ^ (11 : ℤ) / ((2 ^ 52 : ℕ) * 2 ^ (11 : ℤ)) =
      kept m.toNat * 2 ^ (-52 : ℤ) := by
    rw [mul_div_mul_right _ _ (zpow_pos (by norm_num) _).ne', zpow_neg, div_eq_mul_inv]
    norm_cast
  have hfits := Format.nearest_of_fits (F := binary64) (q := -52) hkept.1 hkept.2
    (by rw [leastScale_binary64]; decide)
  have htoNat : ((fp.f64 .current).div (fp.ofU64 m) (fp.ofU64 (1#64 <<< 63))).toNat =
      1022 * 2 ^ 52 + kept m.toNat := by
    rw [hfp.div _ _ (by rw [FiniteMagnitude]; omega) (by rw [FiniteMagnitude]; omega)
      (by rw [hymag]; positivity), hxmag, hymag, hquotient, hfits, leastScale_binary64, top_binary64]
    change min (1022 * 2 ^ 52 + kept m.toNat) _ = _
    omega
  rw [FiniteMagnitude, htoNat]
  refine ⟨by omega, ?_⟩
  have hmagnitude := Format.magnitude_number (F := binary64) (k := kept m.toNat) (d := 1022) hkept.2
    (.inr hkept.1) (by rw [top_binary64]; change 1022 * 2 ^ 52 + _ < _; omega)
  rw [leastScale_binary64] at hmagnitude
  exact hmagnitude

/-- The scaled significand, as a pattern without its sign. -/
theorem toNat_scaled {m : U64} (hm : 2 ^ 63 ≤ m.toNat) (e : Nat) :
    (fp.ldexp ((fp.f64 .current).div (fp.ofU64 m) (fp.ofU64 (1#64 <<< 63))) ((e : Int) - 16383)).toNat =
      if 15361 ≤ e then min ((e - 15361) * 2 ^ 52 + kept m.toNat) (2047 * 2 ^ 52)
      else min (roundEven ((kept m.toNat : ℚ) / 2 ^ (15361 - e))).toNat (2047 * 2 ^ 52) := by
  have hkept := kept_bounds hm m.isLt
  obtain ⟨hfinite, hmag⟩ := toNat_quotient hfp hm
  have hscale : (kept m.toNat : ℚ) * 2 ^ (-52 : ℤ) * 2 ^ ((e : ℤ) - 16383) =
      kept m.toNat * 2 ^ ((e : ℤ) - 16435) := by
    rw [mul_assoc, ← zpow_add₀ (by norm_num)]
    congr 2
    ring
  rw [hfp.ldexp _ _ hfinite, hmag, hscale]
  split
  next h =>
    have hfits := Format.nearest_of_fits (F := binary64) (q := (e : ℤ) - 16435) hkept.1 hkept.2
      (by rw [leastScale_binary64]; omega)
    have hstep : ((e : ℤ) - 16435 - -1074).toNat = e - 15361 := by omega
    rw [hfits, leastScale_binary64, hstep, top_binary64]
    rfl
  next h =>
    have hexcess := Format.nearest_of_excess (F := binary64) (k := kept m.toNat) (s := 15361 - e)
      (by omega) hkept.2 (by omega)
    have hstep : (-1074 : ℤ) - ((15361 - e : ℕ) : ℤ) = (e : ℤ) - 16435 := by omega
    rw [leastScale_binary64, hstep, top_binary64] at hexcess
    exact hexcess

end Loading

/-- A sign bit set over a pattern without one. -/
theorem toNat_negF64 {x : U64} (hx : x.toNat < 2 ^ 63) : (negF64 x).toNat = 2 ^ 63 + x.toNat := by
  have hxor : negF64 x = (1#64 <<< 63) ||| x := by
    have hmask : (1#64 <<< 63) = BitVec.twoPow 64 63 := by decide
    have hclear : x.getLsbD 63 = false := Nat.testBit_lt_two_pow hx
    rw [negF64, hmask]
    apply BitVec.eq_of_getLsbD_eq
    intro j hj
    rw [BitVec.getLsbD_xor, BitVec.getLsbD_or, BitVec.getLsbD_twoPow]
    by_cases h : 63 = j
    · rw [← h, hclear]
      rfl
    · rw [decide_eq_false h, Bool.and_false, Bool.xor_false, Bool.false_or]
  have hsign := toNat_sign_or true hx
  rw [if_pos rfl, if_pos rfl] at hsign
  rw [hxor, hsign]

/-- The image of a number loads as the conversion of `float80.h` makes it: too small for both, just
above half the least double and truncated by rounding, rounded down, or too large for both. -/
def LoadsAlike (f : Float80) : Prop :=
  f.rawExp.toNat ≤ 15307 ∨ (f.rawExp.toNat = 15308 ∧ f.sig.toNat ≤ 2 ^ 63 + 2 ^ 10) ∨
    (15361 ≤ f.rawExp.toNat ∧ f.rawExp.toNat ≤ 17406 ∧ RoundsDown f.sig.toNat) ∨
    (17407 ≤ f.rawExp.toNat ∧ f.isNan = false)

instance (f : Float80) : Decidable (LoadsAlike f) := inferInstanceAs (Decidable (_ ∨ _))

theorem toDouble_of_nan {f : Float80} (h : f.isNan = true) :
    f.rawExp.toNat = 0x7FFF ∧ f.toDouble = 0x7FF8000000000000 := by
  rw [isNan] at h
  split at h
  next hne => cases h
  next hexp =>
    have htop : f.rawExp = 0x7FFF := by
      rw [bne_iff_ne, not_not] at hexp
      exact hexp
    have hcond : ((f.sig &&& (1#64 <<< 63)) != 0 && (f.sig <<< 1) == 0) = false := by
      rw [Bool.or_eq_true, bne_iff_ne, beq_iff_eq] at h
      rw [Bool.and_eq_false_iff, bne_eq_false_iff_eq, beq_eq_false_iff_ne]
      exact h.symm
    refine ⟨congrArg BitVec.toNat htop, ?_⟩
    rw [toDouble, htop, hcond]
    rfl

/-- The number a double pattern without its sign has: the conversion of `float80.h`. -/
theorem toNat_toDouble_index {f : Float80} (hnan : f.isNan = false) (hsig : 2 ^ 63 ≤ f.sig.toNat) :
    f.toDouble.toNat = (if f.isSignNegative then 2 ^ 63 else 0) +
      if 17407 ≤ f.rawExp.toNat then 2047 * 2 ^ 52
      else if f.rawExp.toNat ≤ 15360 then 0
      else (f.rawExp.toNat - 15361) * 2 ^ 52 + f.sig.toNat / 2 ^ 11 := by
  have hlt := f.sig.isLt
  have hpattern (e m : Nat) : binary64.pattern f.isSignNegative e m =
      (if f.isSignNegative then 2 ^ 63 else 0) + (e * 2 ^ 52 + m) := rfl
  rw [toNat_toDouble hnan, doublePattern]
  simp only [hpattern]
  split_ifs <;> omega

/-- Up to half the least double nothing is left of a significand. -/
theorem kept_vanishes_iff {sig e : Nat} (hlow : 2 ^ 63 ≤ sig) (hhigh : sig < 2 ^ 64) (he : e ≤ 15360) :
    2 * kept sig ≤ 2 ^ (15361 - e) ↔ e ≤ 15307 ∨ e = 15308 ∧ sig ≤ 2 ^ 63 + 2 ^ 10 := by
  have hkept := kept_bounds hlow hhigh
  rcases Nat.lt_trichotomy e 15308 with hlt | rfl | hgt
  · have hpow : 2 ^ 54 ≤ 2 ^ (15361 - e) := Nat.pow_le_pow_right (by decide) (by omega)
    exact ⟨fun _ => .inl (by omega), fun _ => by omega⟩
  · have hpow : 2 ^ (15361 - 15308) = 2 ^ 53 := rfl
    have hrounds : RoundsDown sig ↔
        sig % 2 ^ 11 < 2 ^ 10 ∨ sig % 2 ^ 11 = 2 ^ 10 ∧ sig / 2 ^ 11 % 2 = 0 := Iff.rfl
    rw [hpow]
    unfold kept
    split
    next h =>
      rw [hrounds] at h
      omega
    next h =>
      rw [hrounds] at h
      omega
  · have hpow : 2 ^ (15361 - e) ≤ 2 ^ 52 := Nat.pow_le_pow_right (by decide) (by omega)
    constructor
    · omega
    · omega

/-- `read_mem_f` on the fields of the image. -/
theorem doubleOfExtended_fields (fp : HostFp) (b : Buf) : doubleOfExtended fp b =
    if ((fromBytes b).rawExp.toNat : Int) - 16383 = -16383 then
      if (fromBytes b).isSignNegative then negF64 0 else 0
    else
      if (fromBytes b).isSignNegative then
        negF64 (fp.ldexp ((fp.f64 .current).div (fp.ofU64 (fromBytes b).sig)
          (fp.ofU64 (1#64 <<< 63))) (((fromBytes b).rawExp.toNat : Int) - 16383))
      else fp.ldexp ((fp.f64 .current).div (fp.ofU64 (fromBytes b).sig)
        (fp.ofU64 (1#64 <<< 63))) (((fromBytes b).rawExp.toNat : Int) - 16383) := rfl

section Loading

variable {fp : HostFp} (hfp : fp.RoundsToNearest) {b : Buf}
include hfp

/-- The double that is loaded, for a number with its integer bit set. -/
theorem toNat_doubleOfExtended (hexp : (fromBytes b).rawExp.toNat ≠ 0)
    (hsig : 2 ^ 63 ≤ (fromBytes b).sig.toNat) :
    (doubleOfExtended fp b).toNat = (if (fromBytes b).isSignNegative then 2 ^ 63 else 0) +
      if 15361 ≤ (fromBytes b).rawExp.toNat then
        min (((fromBytes b).rawExp.toNat - 15361) * 2 ^ 52 + kept (fromBytes b).sig.toNat)
          (2047 * 2 ^ 52)
      else min (roundEven ((kept (fromBytes b).sig.toNat : ℚ) /
        2 ^ (15361 - (fromBytes b).rawExp.toNat))).toNat (2047 * 2 ^ 52) := by
  have hscaled := toNat_scaled hfp hsig (fromBytes b).rawExp.toNat
  have hlt : (fp.ldexp ((fp.f64 .current).div (fp.ofU64 (fromBytes b).sig) (fp.ofU64 (1#64 <<< 63)))
      (((fromBytes b).rawExp.toNat : Int) - 16383)).toNat < 2 ^ 63 := by
    rw [hscaled]
    split_ifs <;> omega
  rw [← hscaled, doubleOfExtended_fields, if_neg (by omega)]
  cases (fromBytes b).isSignNegative with
  | true => exact toNat_negF64 hlt
  | false => exact (Nat.zero_add _).symm

omit hfp in
/-- Denormals and zeros load as zeros. -/
theorem doubleOfExtended_zero (hexp : (fromBytes b).rawExp.toNat = 0) :
    doubleOfExtended fp b = (fromBytes b).toDouble := by
  have hnan : (fromBytes b).isNan = false :=
    not_nan_of_exp (rawExp_ne (by rw [hexp]; decide))
  apply BitVec.eq_of_toNat_eq
  rw [doubleOfExtended_fields, if_pos (by omega), toNat_toDouble hnan, doublePattern,
    if_neg (show ¬ 17407 ≤ (fromBytes b).rawExp.toNat by omega),
    if_pos (show (fromBytes b).rawExp.toNat ≤ 15360 by omega)]
  cases (fromBytes b).isSignNegative <;> rfl

/-- The coding inside FLD is that of `float80.h` on the images above, and only on them. -/
theorem doubleOfExtended_eq_iff (hcanonical : (fromBytes b).Canonical) :
    doubleOfExtended fp b = (fromBytes b).toDouble ↔ LoadsAlike (fromBytes b) := by
  by_cases hexp : (fromBytes b).rawExp.toNat = 0
  · exact ⟨fun _ => .inl (by omega), fun _ => doubleOfExtended_zero hexp⟩
  have hsig : 2 ^ 63 ≤ (fromBytes b).sig.toNat := by
    rw [Canonical, Ne] at hcanonical
    exact hcanonical.mpr (rawExp_ne hexp)
  have hlt := (fromBytes b).sig.isLt
  have hkept := kept_bounds hsig hlt
  rw [← BitVec.toNat_inj, toNat_doubleOfExtended hfp hexp hsig, LoadsAlike]
  cases hnan : (fromBytes b).isNan with
  | true =>
      -- A NaN loads as an infinity.
      obtain ⟨htop, hdouble⟩ := toDouble_of_nan hnan
      have hpattern : (0x7FF8000000000000 : U64).toNat = 2047 * 2 ^ 52 + 2 ^ 51 := rfl
      rw [htop, hdouble, hpattern, if_pos (show 15361 ≤ 0x7FFF by decide)]
      constructor
      · intro h
        split at h <;> omega
      · rintro (h | ⟨h, -⟩ | ⟨-, h, -⟩ | ⟨-, h⟩)
        · omega
        · omega
        · omega
        · cases h
  | false =>
      rw [toNat_toDouble_index hnan hsig, Nat.add_left_cancel_iff]
      by_cases hover : 17407 ≤ (fromBytes b).rawExp.toNat
      · rw [if_pos (by omega), if_pos hover]
        exact ⟨fun _ => .inr (.inr (.inr ⟨hover, rfl⟩)), fun _ => by omega⟩
      · by_cases hnormal : 15361 ≤ (fromBytes b).rawExp.toNat
        · rw [if_pos hnormal, if_neg hover, if_neg (by omega)]
          by_cases hrounds : RoundsDown (fromBytes b).sig.toNat
          · rw [kept, if_pos hrounds]
            exact ⟨fun _ => .inr (.inr (.inl ⟨hnormal, by omega, hrounds⟩)), fun _ => by omega⟩
          · rw [kept, if_neg hrounds]
            constructor
            · omega
            · rintro (h | ⟨h, -⟩ | ⟨-, -, h⟩ | ⟨h, -⟩)
              · omega
              · omega
              · exact absurd h hrounds
              · omega
        · have hzero {n : Nat} : min n (2047 * 2 ^ 52) = 0 ↔ n = 0 := by omega
          rw [if_neg hnormal, if_neg hover, if_pos (by omega), hzero, roundEven_eq_zero_iff,
            kept_vanishes_iff hsig hlt (by omega)]
          omega

end Loading

/-! ### The instructions -/

section Runs

variable {σ : Type} {at_ : Attached σ} {c c' : Cpu} {w w' : World σ} {i : Insn}

theorem x87Addr_bind_iff {β : Type} {isWrite : Bool} {note : String} {op : Operand}
    {f : GuestAddr → H β} {b : β} :
    (x87Addr isWrite note i op >>= f).EndsIn at_ c w (some b) c' w' ↔
      (if isWrite then at_.memWrite else at_.memRead).isSome = true ∧
        (f (ea c i op)).EndsIn at_ c w (some b) c' w' := by
  simp only [x87Addr, bind_assoc]
  rw [(endsIn_gets _).bind_iff, requireAttached_bind_iff, (endsIn_gets _).bind_iff]

/-- FLD of ten bytes pushes what they stand for. -/
theorem opFld_extended_iff (fp : HostFp) (hmem : i.src.isMem = true) (hsize : i.opSize = 10) :
    (opFld fp i).EndsIn at_ c w (some ()) c' w' ↔
      ∃ buf, at_.env (.read (ea c i i.src) 10) w = ((.ok buf : Except Status Buf), w') ∧
        c' = c.fpuPush (doubleOfExtended fp buf) := by
  have hread : readMemF fp i = x87Addr false "x87 read" i i.src >>= fun addr =>
      load addr 10 pageFault "x87 read" >>= fun b => pure (doubleOfExtended fp b) := by
    rw [readMemF, hsize]
    rfl
  rw [opFld, if_pos hmem, hread, bind_assoc, x87Addr_bind_iff]
  simp only [bind_assoc, pure_bind]
  rw [load_bind_iff]
  constructor
  · rintro ⟨_, buf, w₁, hbuf, hends⟩
    obtain ⟨_, rfl, rfl⟩ := hends.unique (endsIn_modify _)
    exact ⟨buf, hbuf, rfl⟩
  · rintro ⟨buf, hbuf, rfl⟩
    exact ⟨Attached.memRead_isSome hbuf, buf, w', hbuf, endsIn_modify _⟩

/-- FSTP of ten bytes stores the double's coding and pops; a failed store ends it early. -/
theorem opFstp_extended_iff (fp : HostFp) (hmem : i.src.isMem = true) (hsize : i.opSize = 10) :
    (opFstp fp i).EndsIn at_ c w (some ()) c' w' ↔
      at_.env (.write (ea c i i.src) 10 (extendedOfDouble (c.st 0))) w =
        ((.ok () : Except Status Unit), w') ∧ c' = c.fpuPop := by
  have hwrite : writeMemF fp i (c.st 0) = x87Addr true "x87 write" i i.src >>= fun addr =>
      tryStore addr 10 (extendedOfDouble (c.st 0)) := by
    rw [writeMemF, hsize]
    rfl
  rw [opFstp, if_pos hmem, (endsIn_gets _).bind_iff, hwrite, bind_assoc, x87Addr_bind_iff]
  rcases hstore : at_.env (.write (ea c i i.src) 10 (extendedOfDouble (c.st 0))) w with ⟨s | u, w₁⟩
  · have hfails : (tryStore (ea c i i.src) 10 (extendedOfDouble (c.st 0))).EndsIn at_ c w
        (some false) c w₁ := by
      refine ⟨[⟨MachineOp.write (ea c i i.src) 10 (extendedOfDouble (c.st 0)), .error s⟩], ?_⟩
      rw [tryStore, run_bind, run_askWrite, hstore]
      rfl
    rw [hfails.bind_iff]
    constructor
    · rintro ⟨_, tr, hrun⟩
      cases hrun
    · rintro ⟨h, _⟩
      cases h
  · have hstored : (tryStore (ea c i i.src) 10 (extendedOfDouble (c.st 0))).EndsIn at_ c w
        (some true) c w₁ := by
      refine ⟨[⟨MachineOp.write (ea c i i.src) 10 (extendedOfDouble (c.st 0)), .ok ()⟩], ?_⟩
      rw [tryStore, run_bind, run_askWrite, hstore]
      rfl
    have hpop : (do
        if !true then Proc.exit
        Proc.modify Cpu.fpuPop : H Unit).EndsIn at_ c w₁ (some ()) c.fpuPop w₁ := ⟨[], rfl⟩
    rw [hstored.bind_iff]
    constructor
    · rintro ⟨_, hends⟩
      obtain ⟨_, rfl, rfl⟩ := hends.unique hpop
      exact ⟨rfl, rfl⟩
    · rintro ⟨h, rfl⟩
      cases h
      exact ⟨Attached.memWrite_isSome hstore, hpop⟩

theorem st_fpuPush (c : Cpu) (v : U64) : (c.fpuPush v).st 0 = v := by
  have htop : ((c.fpuTop + 7) % 8 + 0) % 8 = (c.fpuTop + 7) % 8 := by omega
  rw [Cpu.st, Cpu.fpuPush]
  dsimp only
  rw [htop, Function.update_self]

end Runs

/-- A run of FSTP that stores ten bytes stores those of `float80.h` precisely where `ST(0)` is finite,
and a run of FLD that loads a canonical image pushes the double of `float80.h` precisely on the images
that load alike. -/
theorem extended_codecs_iff {fp : HostFp} (hfp : fp.RoundsToNearest) {i : Insn}
    (hmem : i.src.isMem = true) (hsize : i.opSize = 10) {σ : Type} {at_ : Attached σ}
    {Inv : σ → Prop} {mem : σ → ByteMap} (hrep : at_.Represents Inv mem) {c c' : Cpu}
    {w w' : World σ} (hinv : Inv w.mem) (hends : (i.run fp).EndsIn at_ c w (some ()) c' w') :
    (i.handler = .opFstp →
      (Written (mem w.mem) (mem w'.mem) (ea c i i.src) 10 (fromDouble (c.st 0)).toBytes ↔
        binary64.IsFinite (c.st 0).toNat)) ∧
    (i.handler = .opFld → ∀ b : Buf,
      (∀ k < 10, mem w.mem (ea c i i.src + BitVec.ofNat 64 k) = some (b k)) →
      (fromBytes b).Canonical → (c'.st 0 = (fromBytes b).toDouble ↔ LoadsAlike (fromBytes b))) := by
  constructor
  · intro hhandler
    rw [Insn.run, hhandler] at hends
    obtain ⟨hstore, _⟩ := (opFstp_extended_iff fp hmem hsize).mp hends
    obtain ⟨hwritten, _⟩ := at_.written_of_ok hrep hinv (by decide) hstore
    rw [← extendedOfDouble_iff]
    exact Written.congr_iff hwritten (by decide)
  · intro hhandler b hb hcanonical
    rw [Insn.run, hhandler] at hends
    obtain ⟨buf, hread, rfl⟩ := (opFld_extended_iff fp hmem hsize).mp hends
    have hstored := (at_.stored_of_ok hrep hinv (by decide) hread).1
    have hsame : ∀ k < 10, buf k = b k := fun k hk =>
      Option.some.inj ((hstored k hk).symm.trans (hb k hk))
    have hbytes := fromBytes_congr hsame
    rw [st_fpuPush, ← hbytes]
    rw [← hbytes] at hcanonical
    exact doubleOfExtended_eq_iff hfp hcanonical

/-! ### Two encodings -/

/-- A host that rounds to nearest what is not negative. -/
def nearestHost : HostFp :=
  { (default : HostFp) with
    f64 := fun _ =>
      { (default : FpOps 64) with
        div := fun x y => BitVec.ofNat 64
          (binary64.nearest (binary64.magnitude x.toNat / binary64.magnitude y.toNat)) }
    ofU64 := fun m => BitVec.ofNat 64 (binary64.nearest m.toNat)
    ldexp := fun x n => BitVec.ofNat 64 (binary64.nearest (binary64.magnitude x.toNat * 2 ^ n)) }

theorem nearestHost_roundsToNearest : nearestHost.RoundsToNearest := by
  have hofNat (x : ℚ) : (BitVec.ofNat 64 (binary64.nearest x)).toNat = binary64.nearest x := by
    have hle := binary64.nearest_le x
    rw [top_binary64] at hle
    rw [BitVec.toNat_ofNat]
    omega
  exact ⟨fun _ => hofNat _, fun _ _ _ _ _ => hofNat _, fun _ _ _ => hofNat _⟩

/-- `fstp tbyte ptr [rax]`. -/
def fstpExtended : Insn :=
  { handler := .opFstp, kind := .fstp, opSize := 10, len := 2, cond := .none
    src := { kind := .mem, reg := Reg.rax, index := Reg.none } }

/-- `fld tbyte ptr [rax]`. -/
def fldExtended : Insn :=
  { handler := .opFld, kind := .fld, opSize := 10, len := 2, cond := .none
    src := { kind := .mem, reg := Reg.rax, index := Reg.none } }

/-- The image of one at address zero. -/
def imageOfOne : World (GuestAddr → U8) where
  mem := fun a => toBytes ⟨1#64 <<< 63, 0x3FFF⟩ a.toNat

/-- A value in `ST(0)`. -/
def holding (v : U64) : Cpu := { fpuSt := fun _ => v }

/-- Memory after ten bytes have been stored at address zero. -/
def storedImage (v : U64) : World (GuestAddr → U8) where
  mem := fun a => if (a - 0).toNat < 10 then extendedOfDouble v (a - 0).toNat else imageOfOne.mem a

theorem fstpExtended_ends (fp : HostFp) (v : U64) : (fstpExtended.run fp).EndsIn flatMachine (holding v)
    imageOfOne (some ()) (holding v).fpuPop (storedImage v) :=
  (opFstp_extended_iff (i := fstpExtended) (c := holding v) fp rfl rfl).mpr ⟨rfl, rfl⟩

/-- The ten bytes at address zero, as FLD reads them. -/
def loadedOne (fp : HostFp) : Cpu :=
  ({} : Cpu).fpuPush (doubleOfExtended fp fun j =>
    if j < 10 then imageOfOne.mem (0 + BitVec.ofNat 64 j) else 0)

theorem fldExtended_ends (fp : HostFp) : (fldExtended.run fp).EndsIn flatMachine {} imageOfOne
    (some ()) (loadedOne fp) imageOfOne :=
  (opFld_extended_iff (i := fldExtended) (c := {}) fp rfl rfl).mpr ⟨_, rfl, rfl⟩

theorem extended_codecs_iff_one :
    decodeWithSource (codeAt [0xDB, 0x38]) 0 2 = some (.ok fstpExtended) ∧
    decodeWithSource (codeAt [0xDB, 0x28]) 0 2 = some (.ok fldExtended) ∧
    (Written (flatBytes imageOfOne.mem) (flatBytes (storedImage oneF64).mem)
      (ea (holding oneF64) fstpExtended fstpExtended.src) 10 (fromDouble oneF64).toBytes ↔
        binary64.IsFinite oneF64.toNat) ∧
    ((loadedOne nearestHost).st 0 = (fromBytes (toBytes ⟨1#64 <<< 63, 0x3FFF⟩)).toDouble ↔
      LoadsAlike (fromBytes (toBytes ⟨1#64 <<< 63, 0x3FFF⟩))) :=
  ⟨rfl, rfl,
    (extended_codecs_iff nearestHost_roundsToNearest rfl rfl flatMachine_represents trivial
      (fstpExtended_ends nearestHost oneF64)).1 rfl,
    (extended_codecs_iff nearestHost_roundsToNearest rfl rfl flatMachine_represents trivial
      (fldExtended_ends nearestHost)).2 rfl (toBytes ⟨1#64 <<< 63, 0x3FFF⟩) (by decide)
      (by rw [fromBytes_toBytes]; decide)⟩

/-- The exponent that FSTP stores for an infinity is that of 2^1024. -/
theorem fstp_infinity :
    (fstpExtended.run nearestHost).EndsIn flatMachine (holding 0x7FF0000000000000) imageOfOne
      (some ()) (holding 0x7FF0000000000000).fpuPop (storedImage 0x7FF0000000000000) ∧
    ¬ Written (flatBytes imageOfOne.mem) (flatBytes (storedImage 0x7FF0000000000000).mem)
      (ea (holding 0x7FF0000000000000) fstpExtended fstpExtended.src) 10
      (fromDouble 0x7FF0000000000000).toBytes := by
  refine ⟨fstpExtended_ends nearestHost 0x7FF0000000000000, fun hwritten => ?_⟩
  have hlast := (hwritten 9).1 (by decide)
  exact absurd hlast (by decide)

end PicoCpu
