import PicoCpu.SoftFloat.AddSub

/-!
The product and the quotient: 128 bits of the exact product, and the long division with one more
quotient bit and a sticky one, against the exact rational result.
-/

namespace PicoCpu

open NearestEven Float80

/-! ### The product -/

/-- The magnitude of a product or a quotient, and the sign the source gives it. -/
theorem signed_mul {a b : Float80} {m : ℚ} (hm : m = a.magnitude * b.magnitude) :
    a.value * b.value = if a.isSignNegative ^^ b.isSignNegative then -m else m := by
  unfold value
  rw [hm]
  cases a.isSignNegative <;> cases b.isSignNegative <;> simp

theorem signed_div {a b : Float80} {m : ℚ} (hm : m = a.magnitude / b.magnitude) :
    a.value / b.value = if a.isSignNegative ^^ b.isSignNegative then -m else m := by
  unfold value
  rw [hm]
  cases a.isSignNegative <;> cases b.isSignNegative <;> simp [neg_div, div_neg]

theorem f80Mul_delivers {a b : Float80} (ha : a.Operand) (hb : b.Operand) :
    Delivers (a.value * b.value) (f80Mul a b) := by
  obtain ⟨hatop, haval⟩ := unpack_spec ha
  obtain ⟨hbtop, hbval⟩ := unpack_spec hb
  have hpos : 0 < a.magnitude * b.magnitude := mul_pos ha.magnitude_pos hb.magnitude_pos
  have hx := signed_mul (a := a) (b := b) rfl
  unfold f80Mul
  simp only [ha.not_nan, hb.not_nan, ha.not_inf, hb.not_inf, ha.not_zero, hb.not_zero,
    Bool.or_self, Bool.false_eq_true, if_false]
  have hp : (mul64x64 (unpack a).1 (unpack b).1).toNat =
      (unpack a).1.toNat * (unpack b).1.toNat := toNat_mul64x64 _ _
  have hlow : 2 ^ 63 * 2 ^ 63 ≤ (mul64x64 (unpack a).1 (unpack b).1).toNat := by
    rw [hp]
    exact Nat.mul_le_mul hatop hbtop
  have hscale : ∀ k : Int, a.magnitude * b.magnitude /
      2 ^ ((unpack a).2 + (unpack b).2 - 0x3FFF + k - (0x3FFF + 63) - 64) =
      ((mul64x64 (unpack a).1 (unpack b).1).toNat : ℚ) * 2 ^ (1 - k) := by
    intro k
    have hexp : (unpack a).2 + (unpack b).2 - 0x3FFF + k - (0x3FFF + 63) - 64 =
        ((unpack a).2 - (0x3FFF + 63)) + ((unpack b).2 - (0x3FFF + 63)) - (1 - k) := by ring
    have hne1 : (2 : ℚ) ^ ((unpack a).2 - (0x3FFF + 63)) ≠ 0 := (zpow_pos (by norm_num) _).ne'
    have hne2 : (2 : ℚ) ^ ((unpack b).2 - (0x3FFF + 63)) ≠ 0 := (zpow_pos (by norm_num) _).ne'
    rw [haval, hbval, hp, hexp, zpow_sub₀ (by norm_num) _ (1 - k), zpow_add₀ (by norm_num)]
    push_cast
    field_simp
  generalize mul64x64 (unpack a).1 (unpack b).1 = p at *
  have hdiv := p.toNat_div
  by_cases htop : 2 ^ 63 ≤ p.hi.toNat
  · have hstands : Stands p ((unpack a).2 + (unpack b).2 - 0x3FFF + 1)
        (a.magnitude * b.magnitude) := by
      constructor
      · omega
      · rw [hscale 1, sub_self, zpow_zero, mul_one]
        exact Together.refl _ _
    rw [if_pos ((top_ne_zero_iff p.hi).mpr htop)]
    exact hstands.delivers_signed hpos hx
  · have hdouble : p.double.toNat = 2 * p.toNat := toNat_double (by omega)
    have hstands : Stands p.double ((unpack a).2 + (unpack b).2 - 0x3FFF)
        (a.magnitude * b.magnitude) := by
      constructor
      · rw [hdouble]
        omega
      · have hs := hscale 0
        rw [add_zero, sub_zero, zpow_one] at hs
        rw [hs, hdouble]
        push_cast
        rw [mul_comm]
        exact Together.refl _ _
    rw [if_neg (fun h => htop ((top_ne_zero_iff p.hi).mp h))]
    exact hstands.delivers_signed hpos hx

/-! ### The quotient -/

/-- The quotient bit past the last and what then remains. -/
theorem quotientTail_spec {rem bm : U64} (hrem : rem.toNat < bm.toNat) :
    (quotientTail rem bm).1 = decide (bm.toNat ≤ 2 * rem.toNat) ∧
    (quotientTail rem bm).2.toNat =
      2 * rem.toNat - (if bm.toNat ≤ 2 * rem.toNat then bm.toNat else 0) := by
  have hbm := bm.isLt
  have hdoubled : (rem <<< 1).toNat = rem.toNat * 2 % 2 ^ 64 := by
    rw [BitVec.toNat_shiftLeft, Nat.shiftLeft_eq]
  have hneg : rem <<< 1 + (~~~bm + (1 : U64)) = rem <<< 1 - bm := by
    rw [BitVec.sub_eq_add_neg, BitVec.neg_eq_not_add]
    rfl
  have hsub : bm.toNat ≤ 2 * rem.toNat →
      (rem <<< 1 - bm).toNat = 2 * rem.toNat - bm.toNat := by
    intro hle
    rw [BitVec.toNat_sub, hdoubled]
    omega
  simp only [quotientTail, hneg]
  by_cases htop : 2 ^ 63 ≤ rem.toNat
  · have hle : bm.toNat ≤ 2 * rem.toNat := by omega
    rw [if_pos ((top_ne_zero_iff rem).mpr htop), if_pos hle]
    exact ⟨(decide_eq_true hle).symm, hsub hle⟩
  · rw [if_neg (fun h => htop ((top_ne_zero_iff rem).mp h))]
    have hule : bm.ule (rem <<< 1) = decide (bm.toNat ≤ 2 * rem.toNat) := by
      have hdef : bm.ule (rem <<< 1) = decide (bm.toNat ≤ (rem <<< 1).toNat) := rfl
      rw [hdef, hdoubled, decide_eq_decide]
      omega
    by_cases hle : bm.toNat ≤ 2 * rem.toNat
    · rw [hule, if_pos (decide_eq_true hle), if_pos hle]
      exact ⟨(decide_eq_true hle).symm, hsub hle⟩
    · rw [hule, if_neg (by simpa using hle), if_neg hle]
      refine ⟨(decide_eq_false hle).symm, ?_⟩
      rw [hdoubled]
      omega

/-- The 128-bit mantissa `f80_div` rounds: the quotient, the next bit and the sticky one. -/
def quotientMantissa (num : U128) (bm : U64) : U128 :=
  let division := div128By64 num bm
  let tail := quotientTail division.2 bm
  ⟨division.1, (if tail.1 then 1#64 <<< 63 else 0) ||| (if tail.2 != 0 then 1 else 0)⟩

theorem quotientMantissa_stands {num : U128} {bm : U64} {rawExp : Int} {x : ℚ}
    (hfits : num.hi.toNat < bm.toNat) (htop : bm.toNat * 2 ^ 63 ≤ num.toNat)
    (hx : x / 2 ^ (rawExp - (0x3FFF + 63) - 64) = (num.toNat : ℚ) / bm.toNat * 2 ^ 64) :
    Stands (quotientMantissa num bm) rawExp x := by
  have hbm : 0 < bm.toNat := by omega
  obtain ⟨hquot, hrem⟩ := div128By64_eq hfits
  have hremlt : (div128By64 num bm).2.toNat < bm.toNat := by
    rw [hrem]
    exact Nat.mod_lt _ hbm
  obtain ⟨hbit, hleft⟩ := quotientTail_spec hremlt
  obtain ⟨hdiv, hmod⟩ := div_mod_append_bit num.toNat bm.toNat 0 hbm (by omega)
  rw [Nat.add_zero, Nat.add_zero, ← hrem] at hdiv hmod
  rw [← hleft] at hmod
  rw [← hquot] at hdiv
  have hvalue : (quotientMantissa num bm).toNat = 2 * num.toNat / bm.toNat * 2 ^ 63 +
      (if 2 * num.toNat % bm.toNat = 0 then 0 else 1) := by
    have hsticky : ((quotientTail (div128By64 num bm).2 bm).2 != 0) =
        decide (¬ 2 * num.toNat % bm.toNat = 0) := by
      rw [Bool.eq_iff_iff, ne_zero_iff_toNat, decide_eq_true_eq, hmod]
    rw [hdiv]
    unfold quotientMantissa
    simp only [hsticky, hbit, U128.toNat_mk, decide_eq_true_eq, ite_not]
    by_cases hb : bm.toNat ≤ 2 * (div128By64 num bm).2.toNat
    · simp only [hb, if_true]
      split
      · rw [show (1#64 <<< 63 ||| 0 : U64).toNat = 2 ^ 63 by decide]
        omega
      · rw [show (1#64 <<< 63 ||| 1 : U64).toNat = 2 ^ 63 + 1 by decide]
        omega
    · simp only [hb, if_false]
      split
      · rw [show (0 ||| 0 : U64).toNat = 0 by decide]
        omega
      · rw [show (0 ||| 1 : U64).toNat = 1 by decide]
        omega
  constructor
  · have hq : 2 ^ 64 ≤ 2 * num.toNat / bm.toNat := by
      rw [Nat.le_div_iff_mul_le hbm]
      omega
    omega
  · have htog := together_quotient (K := ℚ) (2 * num.toNat) bm.toNat (2 ^ 63)
      (quotientMantissa num bm).toNat hbm
      (by
        intro hzero
        rw [hvalue, if_pos hzero, Nat.add_zero])
      (by
        intro hne
        rw [hvalue, if_neg hne]
        omega)
    have hplace : ((2 * num.toNat : ℕ) : ℚ) / bm.toNat * ((2 ^ 63 : ℕ) : ℚ) =
        (num.toNat : ℚ) / bm.toNat * 2 ^ 64 := by
      push_cast
      ring
    rw [hplace, ← hx] at htog
    exact_mod_cast htog

theorem f80Div_delivers {a b : Float80} (ha : a.Operand) (hb : b.Operand) :
    Delivers (a.value / b.value) (f80Div a b) := by
  obtain ⟨hatop, haval⟩ := unpack_spec ha
  obtain ⟨hbtop, hbval⟩ := unpack_spec hb
  have hpos : 0 < a.magnitude / b.magnitude := div_pos ha.magnitude_pos hb.magnitude_pos
  have hx := signed_div (a := a) (b := b) rfl
  have hamlt := (unpack a).1.isLt
  have hbmlt := (unpack b).1.isLt
  have hscale : ∀ k : Int, a.magnitude / b.magnitude /
      2 ^ ((unpack a).2 - (unpack b).2 + 0x3FFF - k - (0x3FFF + 63) - 64) =
      ((unpack a).1.toNat : ℚ) * 2 ^ (63 + k) / (unpack b).1.toNat * 2 ^ 64 := by
    intro k
    have hexp : (unpack a).2 - (unpack b).2 + 0x3FFF - k - (0x3FFF + 63) - 64 =
        ((unpack a).2 - (0x3FFF + 63)) - ((unpack b).2 - (0x3FFF + 63)) - (63 + k) - 64 := by ring
    rw [haval, hbval, hexp]
    generalize (unpack a).2 - (0x3FFF + 63) = p
    generalize (unpack b).2 - (0x3FFF + 63) = q
    have hp : (2 : ℚ) ^ p ≠ 0 := (zpow_pos (by norm_num) _).ne'
    have hq : (2 : ℚ) ^ q ≠ 0 := (zpow_pos (by norm_num) _).ne'
    have hk : (2 : ℚ) ^ (63 + k) ≠ 0 := (zpow_pos (by norm_num) _).ne'
    rw [zpow_sub₀ (by norm_num) _ 64, zpow_sub₀ (by norm_num) _ (63 + k), zpow_sub₀ (by norm_num)]
    generalize (2 : ℚ) ^ p = x at *
    generalize (2 : ℚ) ^ q = y at *
    generalize (2 : ℚ) ^ (63 + k) = z at *
    field_simp
  unfold f80Div
  simp only [ha.not_nan, hb.not_nan, ha.not_inf, hb.not_inf, ha.not_zero, hb.not_zero,
    Bool.or_self, Bool.and_self, Bool.false_eq_true, if_false]
  generalize (unpack a).1 = am at *
  generalize (unpack b).1 = bm at *
  by_cases hbelow : am.toNat < bm.toNat
  · have hult : am.ult bm = true := by
      rw [BitVec.ult_eq_decide]
      exact decide_eq_true hbelow
    have hnum : (U128.mk am 0).toNat = am.toNat * 2 ^ 64 := Nat.add_zero _
    have hstands : Stands (quotientMantissa ⟨am, 0⟩ bm)
        ((unpack a).2 - (unpack b).2 + 0x3FFF - 1) (a.magnitude / b.magnitude) := by
      apply quotientMantissa_stands hbelow
      · rw [hnum]
        omega
      · rw [hscale 1, hnum]
        push_cast
        norm_num
    simp only [hult, if_true]
    exact hstands.delivers_signed hpos hx
  · have hult : am.ult bm = false := by
      rw [BitVec.ult_eq_decide]
      exact decide_eq_false hbelow
    have hlow : ((am &&& 1) <<< 63).toNat = am.toNat % 2 * 2 ^ 63 := by
      have hand : (am &&& 1).toNat = am.toNat % 2 := by
        rw [BitVec.toNat_and]
        exact Nat.and_one_is_mod _
      rw [toNat_shiftLeft_lt (by rw [hand]; omega), hand]
    have hhalf : (am >>> 1).toNat = am.toNat / 2 := toNat_ushiftRight_div am 1
    have hnum : (U128.mk (am >>> 1) ((am &&& 1) <<< 63)).toNat = am.toNat * 2 ^ 63 := by
      rw [U128.toNat_mk, hlow, hhalf]
      omega
    have hstands : Stands (quotientMantissa ⟨am >>> 1, (am &&& 1) <<< 63⟩ bm)
        ((unpack a).2 - (unpack b).2 + 0x3FFF) (a.magnitude / b.magnitude) := by
      apply quotientMantissa_stands
      · rw [hhalf]
        omega
      · rw [hnum]
        omega
      · have hs := hscale 0
        rw [sub_zero, add_zero] at hs
        rw [hs, hnum]
        push_cast
        norm_num
    simp only [hult, Bool.false_eq_true, if_false]
    exact hstands.delivers_signed hpos hx

end PicoCpu
