import PicoCpu.SoftFloat.Contract
import Mathlib.Data.Nat.Cast.Field

/-!
The sum and the difference of two operands of one sign: alignment by a sticky shift, the carry
out of a sum, and the cancellation of a difference, each against the exact rational result.
-/

namespace PicoCpu

open NearestEven Float80

/-! ### Values of operands -/

theorem Float80.Operand.magnitude_pos {f : Float80} (h : f.Operand) : 0 < f.magnitude := by
  have hspec := unpack_spec h
  rw [hspec.value]
  have htop := hspec.top
  have hpos : (0 : ℚ) < ((unpack f).1.toNat : ℚ) := by
    have : 0 < (unpack f).1.toNat := by omega
    exact_mod_cast this
  exact mul_pos hpos (zpow_pos (by norm_num) _)

/-- A sign and a positive magnitude, read back from the value they make. -/
theorem signed_spec {sign : Bool} {x m : ℚ} (hx : x = if sign then -m else m) (hm : 0 < m) :
    |x| = m ∧ decide (x < 0) = sign ∧ x ≠ 0 := by
  cases sign with
  | false =>
      rw [if_neg Bool.false_ne_true] at hx
      rw [hx]
      exact ⟨abs_of_pos hm, decide_eq_false (not_lt.mpr hm.le), hm.ne'⟩
  | true =>
      rw [if_pos rfl] at hx
      rw [hx]
      exact ⟨by rw [abs_neg, abs_of_pos hm], decide_eq_true (neg_lt_zero.mpr hm),
        (neg_lt_zero.mpr hm).ne⟩

theorem Stands.delivers_signed {m : U128} {rawExp : Int} {sign : Bool} {x mag : ℚ}
    (h : Stands m rawExp mag) (hmag : 0 < mag) (hx : x = if sign then -mag else mag) :
    Delivers x (packNormal sign (roundToNearestEven m rawExp).1
      (roundToNearestEven m rawExp).2) := by
  obtain ⟨habs, hneg, hne⟩ := signed_spec hx hmag
  rw [← hneg]
  rw [← habs] at h
  exact h.delivers hne

/-! ### Alignment -/

/-- The mantissas of two aligned operands, `A` that of the larger exponent: exact and with an
empty low half, the other exact or jammed far below it. -/
structure Leads (a b : Float80) (A B : U128) (rawExp : Int) : Prop where
  lo_eq : A.lo.toNat = 0
  top : 2 ^ 127 ≤ A.toNat
  value_eq : (A.toNat : ℚ) = a.magnitude / 2 ^ (rawExp - (0x3FFF + 63) - 64)
  together : Together 2 (B.toNat : ℚ) (b.magnitude / 2 ^ (rawExp - (0x3FFF + 63) - 64))
  far : (B.toNat : ℚ) = b.magnitude / 2 ^ (rawExp - (0x3FFF + 63) - 64) ∨ B.toNat ≤ 2 ^ 126

theorem leads_of_shift {a b : Float80} {u v : U64 × Int} (ha : Unpacked a u) (hb : Unpacked b v)
    (n : Nat) (hn : u.2 - v.2 = n) :
    Leads a b ⟨u.1, 0⟩ (shr128Sticky ⟨v.1, 0⟩ n) u.2 := by
  have hwide : ∀ x : U64, (U128.mk x 0).toNat = x.toNat * 2 ^ 64 := fun x => Nat.add_zero _
  have htop := ha.top
  have hvlt := v.1.isLt
  have hscale : ∀ x : ℚ, ∀ k : Int, x * 2 ^ (u.2 - k - (0x3FFF + 63)) /
      2 ^ (u.2 - (0x3FFF + 63) - 64) = x * 2 ^ 64 / 2 ^ k := by
    intro x k
    have hexp : u.2 - k - (0x3FFF + 63) = u.2 - (0x3FFF + 63) - 64 + 64 - k := by ring
    have hne : (2 : ℚ) ^ (u.2 - (0x3FFF + 63) - 64) ≠ 0 := (zpow_pos (by norm_num) _).ne'
    rw [hexp, zpow_sub₀ (by norm_num), zpow_add₀ (by norm_num)]
    field_simp
  have hA : a.magnitude / 2 ^ (u.2 - (0x3FFF + 63) - 64) = (u.1.toNat : ℚ) * 2 ^ 64 := by
    have := hscale u.1.toNat 0
    rw [sub_zero, zpow_zero, div_one] at this
    rw [ha.value, this]
  have hB : b.magnitude / 2 ^ (u.2 - (0x3FFF + 63) - 64) =
      ((v.1.toNat * 2 ^ 64 : ℕ) : ℚ) / 2 ^ n := by
    have := hscale v.1.toNat n
    have hexp : v.2 = u.2 - n := by omega
    rw [hb.value, hexp, this, zpow_natCast]
    push_cast
    rfl
  have hshift : (shr128Sticky ⟨v.1, 0⟩ n).toNat = sticky (v.1.toNat * 2 ^ 64) n := by
    rw [toNat_shr128Sticky, hwide]
  constructor
  · rfl
  · rw [hwide]
    omega
  · rw [hwide, hA]
    push_cast
    rfl
  · rw [hshift, hB]
    exact together_sticky _ n
  · rw [hshift, hB]
    rcases Nat.lt_or_ge 64 n with hfar | hnear
    · right
      have hdiv : v.1.toNat * 2 ^ 64 / 2 ^ n < 2 ^ 64 := by
        rw [Nat.div_lt_iff_lt_mul (Nat.two_pow_pos n)]
        have hle : 2 ^ 64 ≤ 2 ^ n := Nat.pow_le_pow_right (by omega) hfar.le
        calc v.1.toNat * 2 ^ 64 < 2 ^ 64 * 2 ^ 64 := by omega
          _ ≤ 2 ^ 64 * 2 ^ n := Nat.mul_le_mul_left _ hle
      rw [sticky_eq]
      split
      · omega
      · omega
    · left
      have hdvd : 2 ^ n ∣ v.1.toNat * 2 ^ 64 := (Nat.pow_dvd_pow 2 hnear).mul_left _
      rw [sticky_of_mod_eq_zero (Nat.mod_eq_zero_of_dvd hdvd), Nat.cast_div hdvd]
      · push_cast
        rfl
      · positivity

/-- Whichever operand has the larger exponent leads. -/
theorem alignMantissas_leads {a b : Float80} (ha : a.Operand) (hb : b.Operand) :
    let r := alignMantissas (unpack a) (unpack b)
    Leads a b r.1 r.2.1 r.2.2 ∨ Leads b a r.2.1 r.1 r.2.2 := by
  have hA := unpack_spec ha
  have hB := unpack_spec hb
  intro r
  by_cases hgt : (unpack a).2 > (unpack b).2
  · left
    have hr : r = (⟨(unpack a).1, 0⟩,
        shr128Sticky ⟨(unpack b).1, 0⟩ ((unpack a).2 - (unpack b).2).toNat, (unpack a).2) :=
      if_pos hgt
    rw [hr]
    exact leads_of_shift hA hB _ (by omega)
  · by_cases hlt : (unpack b).2 > (unpack a).2
    · right
      have hr : r = (shr128Sticky ⟨(unpack a).1, 0⟩ ((unpack b).2 - (unpack a).2).toNat,
          ⟨(unpack b).1, 0⟩, (unpack b).2) := (if_neg hgt).trans (if_pos hlt)
      rw [hr]
      exact leads_of_shift hB hA _ (by omega)
    · left
      have hr : r = (⟨(unpack a).1, 0⟩, ⟨(unpack b).1, 0⟩, (unpack a).2) :=
        (if_neg hgt).trans (if_neg hlt)
      have hshift := leads_of_shift hA hB 0 (by omega)
      rw [hr]
      exact hshift

/-! ### The sum -/

/-- A step of 2 grown by a power of two is still a divisor of the rounding half step. -/
theorem Together.toHalfStep {x y : ℚ} {k : Nat} (h : Together (2 * 2 ^ k) x y) (hk : k ≤ 62) :
    Together (2 ^ 63) x y := by
  have hwide := h.coarsen (2 ^ (62 - k))
  have hstep : ((2 ^ (62 - k) : ℤ) : ℚ) * (2 * 2 ^ k) = 2 ^ 63 := by
    push_cast
    rw [mul_left_comm, ← pow_add, ← pow_succ']
    congr 1
    omega
  rw [hstep] at hwide
  exact hwide

/-- Adding to the leading mantissa, the carry out of bit 127 jammed back in. -/
theorem Leads.sum_stands {a b : Float80} {A B : U128} {rawExp : Int} (h : Leads a b A B rawExp) :
    let sum := add128 A B
    let carried := shr128Sticky sum 1
    (2 ^ 128 ≤ A.toNat + B.toNat →
      Stands ⟨carried.hi ||| (1#64 <<< 63), carried.lo⟩ (rawExp + 1) (a.magnitude + b.magnitude)) ∧
    (A.toNat + B.toNat < 2 ^ 128 → Stands sum rawExp (a.magnitude + b.magnitude)) := by
  intro sum carried
  have hAlt := A.toNat_lt
  have hBlt := B.toNat_lt
  have hsum : sum.toNat = (A.toNat + B.toNat) % 2 ^ 128 := toNat_add128 A B
  have hlead : (A.toNat : ℚ) = ((A.toNat / 2 : ℕ) : ℤ) * 2 := by
    have heven : A.toNat = A.toNat / 2 * 2 := by
      have hmod := A.toNat_mod
      rw [h.lo_eq] at hmod
      omega
    exact_mod_cast heven
  have htotal : Together 2 ((A.toNat + B.toNat : ℕ) : ℚ)
      ((a.magnitude + b.magnitude) / 2 ^ (rawExp - (0x3FFF + 63) - 64)) := by
    rw [add_div, ← h.value_eq, Nat.cast_add, hlead]
    exact h.together.add _
  constructor
  · intro hcarry
    have hcarried : carried.toNat = sticky sum.toNat 1 := toNat_shr128Sticky sum 1
    have hwhole : sum.toNat = A.toNat + B.toNat - 2 ^ 128 := by omega
    have hhalf : carried.toNat < 2 ^ 127 := by
      rw [hcarried, sticky_eq]
      split <;> omega
    have hhi : carried.hi.toNat < 2 ^ 63 := by
      have := carried.toNat_div
      omega
    have htopbit : (carried.hi ||| (1#64 <<< 63)).toNat = 2 ^ 63 + carried.hi.toNat := by
      rw [BitVec.toNat_or, toNat_one_shiftLeft (by omega), Nat.or_comm]
      exact (Nat.two_pow_add_eq_or_of_lt hhi 1).symm
    have hvalue : (U128.mk (carried.hi ||| (1#64 <<< 63)) carried.lo).toNat =
        sticky (A.toNat + B.toNat) 1 := by
      have hdef : carried.toNat = carried.hi.toNat * 2 ^ 64 + carried.lo.toNat := rfl
      rw [U128.toNat_mk, htopbit]
      rw [hcarried, sticky_eq, hwhole] at hdef
      rw [sticky_eq]
      split at hdef <;> split <;> omega
    constructor
    · rw [hvalue, sticky_eq]
      split <;> omega
    · have hexp : rawExp + 1 - (0x3FFF + 63) - 64 = rawExp - (0x3FFF + 63) - 64 + 1 := by ring
      have hjam := together_sticky (K := ℚ) (A.toNat + B.toNat) 1
      have hwide : Together 2 (((A.toNat + B.toNat : ℕ) : ℚ) / 2)
          ((a.magnitude + b.magnitude) / 2 ^ (rawExp - (0x3FFF + 63) - 64) / 2) := by
        have hdiv := (htotal.coarsen 2).div (c := 2) (by norm_num)
        have htwo : ((2 : ℤ) : ℚ) * 2 / 2 = 2 := by norm_num
        rw [htwo] at hdiv
        exact hdiv
      rw [hvalue, hexp, zpow_add_one₀ (by norm_num), ← div_div]
      rw [pow_one] at hjam
      exact (Together.toHalfStep (k := 0) (by rw [pow_zero, mul_one]; exact hjam.trans hwide)
        (by omega))
  · intro hfits
    have hwhole : sum.toNat = A.toNat + B.toNat := by
      rw [hsum]
      exact Nat.mod_eq_of_lt hfits
    constructor
    · have := h.top
      omega
    · rw [hwhole]
      exact Together.toHalfStep (k := 0) (by rw [pow_zero, mul_one]; exact htotal) (by omega)

/-- The wrap of the high half is the carry: the leading operand has no low half to lend one. -/
theorem carry_iff (A B : U128) (hlo : A.lo.toNat = 0 ∨ B.lo.toNat = 0) :
    (add128 A B).hi.ult A.hi = decide (2 ^ 128 ≤ A.toNat + B.toNat) := by
  have hAhi := A.hi.isLt
  have hBhi := B.hi.isLt
  have hAlo := A.lo.isLt
  have hBlo := B.lo.isLt
  have hsum := toNat_add128 A B
  have hhi := (add128 A B).toNat_div
  rw [BitVec.ult_eq_decide, decide_eq_decide, ← hhi, hsum]
  unfold U128.toNat
  omega

theorem U128.eq_of_toNat_eq {a b : U128} (h : a.toNat = b.toNat) : a = b := by
  have ha := a.toNat_div
  have hb := b.toNat_div
  have ha' := a.toNat_mod
  have hb' := b.toNat_mod
  cases a with
  | mk ahi alo =>
      cases b with
      | mk bhi blo =>
          simp only at ha hb ha' hb'
          have hhi : ahi = bhi := BitVec.eq_of_toNat_eq (by omega)
          have hlo : alo = blo := BitVec.eq_of_toNat_eq (by omega)
          rw [hhi, hlo]

theorem add128_comm (a b : U128) : add128 a b = add128 b a := by
  apply U128.eq_of_toNat_eq
  rw [toNat_add128, toNat_add128, Nat.add_comm]

/-- The sum of two aligned mantissas, whichever of them leads. -/
theorem sum_delivers {a b : Float80} {A B : U128} {rawExp : Int} {sign : Bool} {x mag : ℚ}
    (h : Leads a b A B rawExp) (hmag : mag = a.magnitude + b.magnitude) (hpos : 0 < mag)
    (hx : x = if sign then -mag else mag) (carry : Bool)
    (hcarry : carry = decide (2 ^ 128 ≤ A.toNat + B.toNat)) :
    let sum := add128 A B
    let carried := shr128Sticky sum 1
    let rounded :=
      if carry then roundToNearestEven ⟨carried.hi ||| (1#64 <<< 63), carried.lo⟩ (rawExp + 1)
      else roundToNearestEven sum rawExp
    Delivers x (packNormal sign rounded.1 rounded.2) := by
  intro sum carried rounded
  obtain ⟨hover, hfits⟩ := h.sum_stands
  rw [← hmag] at hover hfits
  by_cases hc : 2 ^ 128 ≤ A.toNat + B.toNat
  · have hr : rounded =
        roundToNearestEven ⟨carried.hi ||| (1#64 <<< 63), carried.lo⟩ (rawExp + 1) := by
      apply if_pos
      rw [hcarry]
      exact decide_eq_true hc
    rw [hr]
    exact (hover hc).delivers_signed hpos hx
  · have hr : rounded = roundToNearestEven sum rawExp := by
      apply if_neg
      rw [hcarry, decide_eq_true_eq]
      exact hc
    rw [hr]
    exact (hfits (not_le.mp hc)).delivers_signed hpos hx

theorem addSameSign_delivers {a b : Float80} (ha : a.Operand) (hb : b.Operand)
    (hsign : a.isSignNegative = b.isSignNegative) :
    Delivers (a.value + b.value) (addSameSign a b) := by
  have hpos : 0 < a.magnitude + b.magnitude := add_pos ha.magnitude_pos hb.magnitude_pos
  have hx : a.value + b.value =
      if a.isSignNegative then -(a.magnitude + b.magnitude) else a.magnitude + b.magnitude := by
    unfold value
    rw [← hsign]
    cases a.isSignNegative with
    | false => rfl
    | true => simp only [if_true]; ring
  unfold addSameSign
  rw [ha.not_zero, hb.not_zero]
  rcases alignMantissas_leads ha hb with h | h
  · exact sum_delivers h rfl hpos hx _ (carry_iff _ _ (Or.inl h.lo_eq))
  · have hcomm : add128 (alignMantissas (unpack a) (unpack b)).1
        (alignMantissas (unpack a) (unpack b)).2.1 =
        add128 (alignMantissas (unpack a) (unpack b)).2.1
          (alignMantissas (unpack a) (unpack b)).1 := add128_comm _ _
    have hcarry := carry_iff (alignMantissas (unpack a) (unpack b)).1
      (alignMantissas (unpack a) (unpack b)).2.1 (Or.inr h.lo_eq)
    rw [hcomm, Nat.add_comm] at hcarry
    have hsum := sum_delivers h (add_comm _ _) hpos hx _ hcarry
    rw [← hcomm] at hsum
    exact hsum

/-! ### The difference -/

/-- The normalising loop shifts by some distance until the top bit is set. -/
theorem normalizeDiff_spec (fuel : Nat) (diff : U128) (rawExp : Int) (hne : diff.toNat ≠ 0)
    (hfuel : 2 ^ 127 ≤ diff.toNat * 2 ^ fuel) :
    ∃ k : Nat, (normalizeDiff fuel diff rawExp).1.toNat = diff.toNat * 2 ^ k ∧
      (normalizeDiff fuel diff rawExp).2 = rawExp - k ∧
      2 ^ 127 ≤ (normalizeDiff fuel diff rawExp).1.toNat := by
  induction fuel generalizing diff rawExp with
  | zero =>
      rw [Nat.pow_zero, Nat.mul_one] at hfuel
      exact ⟨0, (Nat.mul_one _).symm, (sub_zero rawExp).symm, hfuel⟩
  | succ fuel ih =>
      rw [normalizeDiff]
      have hdiv := diff.toNat_div
      by_cases htop : diff.hi.toNat < 2 ^ 63
      · have hdouble : diff.double.toNat = 2 * diff.toNat := toNat_double (by omega)
        rw [if_pos ((top_eq_zero_iff diff.hi).mpr htop)]
        obtain ⟨k, hvalue, hexp, hhigh⟩ := ih diff.double (rawExp - 1) (by omega)
          (by rw [hdouble, Nat.mul_comm 2, Nat.mul_assoc, ← Nat.pow_succ']; exact hfuel)
        refine ⟨k + 1, ?_, ?_, hhigh⟩
        · rw [hvalue, hdouble, Nat.pow_succ]
          ring
        · rw [hexp]
          push_cast
          ring
      · have hhigh : 2 ^ 127 ≤ diff.toNat := by omega
        rw [if_neg (fun h => htop ((top_eq_zero_iff diff.hi).mp h))]
        exact ⟨0, (Nat.mul_one _).symm, (sub_zero rawExp).symm, hhigh⟩

/-- What the difference of two aligned mantissas tells about the operands: it has their order,
and once normalised stands for the magnitude of their difference. -/
structure DiffStands (a b : Float80) (A B : U128) (rawExp : Int) : Prop where
  lt_iff : A.toNat < B.toNat ↔ a.magnitude < b.magnitude
  gt_iff : B.toNat < A.toNat ↔ b.magnitude < a.magnitude
  stands : ∀ D : U128, (D.toNat : ℤ) = |(A.toNat : ℤ) - B.toNat| → D.toNat ≠ 0 →
    Stands (normalizeDiff 128 D rawExp).1 (normalizeDiff 128 D rawExp).2
      |a.magnitude - b.magnitude|

theorem DiffStands.symm {a b : Float80} {A B : U128} {rawExp : Int}
    (h : DiffStands a b A B rawExp) : DiffStands b a B A rawExp := by
  obtain ⟨hlt, hgt, hstands⟩ := h
  refine ⟨hgt, hlt, ?_⟩
  intro D hD hne
  rw [abs_sub_comm]
  rw [abs_sub_comm] at hD
  exact hstands D hD hne

theorem Leads.diff_stands {a b : Float80} {A B : U128} {rawExp : Int}
    (h : Leads a b A B rawExp) : DiffStands a b A B rawExp := by
  obtain ⟨hlo, htop, hexact, htog, hfar⟩ := h
  have hunit : (0 : ℚ) < 2 ^ (rawExp - (0x3FFF + 63) - 64) := zpow_pos (by norm_num) _
  have hlead : (A.toNat : ℚ) = ((A.toNat / 2 : ℕ) : ℤ) * 2 := by
    have heven : A.toNat = A.toNat / 2 * 2 := by
      have hmod := A.toNat_mod
      rw [hlo] at hmod
      omega
    exact_mod_cast heven
  have hdiff : Together 2 ((A.toNat : ℚ) - B.toNat)
      ((a.magnitude - b.magnitude) / 2 ^ (rawExp - (0x3FFF + 63) - 64)) := by
    rw [sub_div, ← hexact, hlead]
    exact htog.sub _
  refine ⟨?_, ?_, ?_⟩
  · have hneg := hdiff.neg_iff
    rw [sub_neg, div_lt_iff₀ hunit, zero_mul, sub_neg, Nat.cast_lt] at hneg
    exact hneg
  · have hpos := hdiff.pos_iff
    rw [sub_pos, lt_div_iff₀ hunit, zero_mul, sub_pos, Nat.cast_lt] at hpos
    exact hpos
  · intro D hD hne
    obtain ⟨k, hvalue, hexp, hhigh⟩ :=
      normalizeDiff_spec 128 D rawExp hne (by omega)
    have hDQ : (D.toNat : ℚ) = |(A.toNat : ℚ) - B.toNat| := by
      have hcast : ((D.toNat : ℤ) : ℚ) = ((|(A.toNat : ℤ) - B.toNat| : ℤ) : ℚ) := by rw [hD]
      push_cast at hcast
      exact hcast
    have htogD : Together 2 (D.toNat : ℚ)
        (|a.magnitude - b.magnitude| / 2 ^ (rawExp - (0x3FFF + 63) - 64)) := by
      have habs := hdiff.abs
      rw [abs_div, abs_of_pos hunit] at habs
      rw [hDQ]
      exact habs
    have hscale : |a.magnitude - b.magnitude| / 2 ^ (rawExp - k - (0x3FFF + 63) - 64) =
        |a.magnitude - b.magnitude| / 2 ^ (rawExp - (0x3FFF + 63) - 64) * 2 ^ k := by
      have hsplit : rawExp - (k : ℤ) - (0x3FFF + 63) - 64 =
          rawExp - (0x3FFF + 63) - 64 - k := by ring
      rw [hsplit, zpow_sub₀ (by norm_num), zpow_natCast]
      field_simp
    constructor
    · exact hhigh
    · rw [hexp, hvalue, hscale]
      push_cast
      have hpow : (0 : ℚ) < 2 ^ k := by positivity
      rcases hfar with hexactB | hsmall
      · -- nothing was lost in aligning
        have hD' : (D.toNat : ℚ) =
            |a.magnitude - b.magnitude| / 2 ^ (rawExp - (0x3FFF + 63) - 64) := by
          rw [hDQ, hexact, hexactB, ← sub_div, abs_div, abs_of_pos hunit]
        rw [hD']
        exact Together.refl _ _
      · -- far apart: at most one place cancels
        have hk : k ≤ 1 := by
          by_contra hk
          have hlt := (normalizeDiff 128 D rawExp).1.toNat_lt
          have hDge : 2 ^ 126 ≤ D.toNat := by
            rw [abs_of_nonneg (by omega)] at hD
            omega
          have hge : 2 ^ 126 * 2 ^ 2 ≤ D.toNat * 2 ^ k :=
            Nat.mul_le_mul hDge (Nat.pow_le_pow_right (by omega) (by omega))
          omega
        exact Together.toHalfStep (htogD.scale hpow) (by omega)

theorem alignMantissas_diff {a b : Float80} (ha : a.Operand) (hb : b.Operand) :
    let r := alignMantissas (unpack a) (unpack b)
    DiffStands a b r.1 r.2.1 r.2.2 := by
  intro r
  rcases alignMantissas_leads ha hb with h | h
  · exact h.diff_stands
  · exact h.diff_stands.symm

theorem U128.isZero_iff (v : U128) : (v.hi == 0 && v.lo == 0) = true ↔ v.toNat = 0 := by
  rw [Bool.and_eq_true, beq_iff_eq, beq_iff_eq, U128.toNat_eq_zero_iff]

theorem subSameSign_delivers {a b : Float80} (ha : a.Operand) (hb : b.Operand)
    (hsign : a.isSignNegative = b.isSignNegative) :
    Delivers (a.value - b.value) (subSameSign a b) := by
  have hx : a.value - b.value = if a.isSignNegative then -(a.magnitude - b.magnitude)
      else a.magnitude - b.magnitude := by
    unfold value
    rw [← hsign]
    cases a.isSignNegative with
    | false => rfl
    | true => simp only [if_true]; ring
  obtain ⟨hlt, hgt, hstands⟩ := alignMantissas_diff ha hb
  have hord : ∀ A B : U128, decide (cmp128 A B ≥ 0) = decide (B.toNat ≤ A.toNat) := by
    intro A B
    rw [decide_eq_decide]
    exact cmp128_nonneg_iff A B
  unfold subSameSign
  rw [ha.not_zero, hb.not_zero]
  simp only [hord, Bool.and_self, Bool.false_eq_true, if_false, decide_eq_true_eq]
  generalize (alignMantissas (unpack a) (unpack b)).2.2 = e at *
  generalize (alignMantissas (unpack a) (unpack b)).1 = A at *
  generalize (alignMantissas (unpack a) (unpack b)).2.1 = B at *
  rcases lt_trichotomy A.toNat B.toNat with h | h | h
  · have hD : ((sub128 B A).toNat : ℤ) = |(A.toNat : ℤ) - B.toNat| := by
      rw [toNat_sub128 h.le, abs_of_nonpos (by omega)]
      omega
    have hne : (sub128 B A).toNat ≠ 0 := by
      rw [toNat_sub128 h.le]
      omega
    have hmag := hlt.mp h
    simp only [not_le.mpr h, if_false]
    rw [if_neg (fun hzero => hne ((U128.isZero_iff _).mp hzero))]
    apply (hstands _ hD hne).delivers_signed (abs_pos.mpr (sub_ne_zero.mpr hmag.ne))
    rw [hx, abs_of_neg (sub_neg.mpr hmag)]
    cases a.isSignNegative <;> simp
  · have hD : (sub128 A B).toNat = 0 := by
      rw [toNat_sub128 h.ge, h]
      exact Nat.sub_self _
    have hmag : a.magnitude = b.magnitude := by
      apply le_antisymm
      · exact not_lt.mp (fun hlt' => absurd (hgt.mpr hlt') (by omega))
      · exact not_lt.mp (fun hlt' => absurd (hlt.mpr hlt') (by omega))
    have hzero : a.value - b.value = 0 := by
      rw [hx, hmag, sub_self, neg_zero]
      exact ite_self _
    simp only [h.ge, if_true]
    rw [if_pos ((U128.isZero_iff _).mpr hD), hzero, Delivers, if_pos rfl]
  · have hD : ((sub128 A B).toNat : ℤ) = |(A.toNat : ℤ) - B.toNat| := by
      rw [toNat_sub128 h.le, abs_of_nonneg (by omega)]
      omega
    have hne : (sub128 A B).toNat ≠ 0 := by
      rw [toNat_sub128 h.le]
      omega
    have hmag := hgt.mp h
    simp only [h.le, if_true]
    rw [if_neg (fun hzero => hne ((U128.isZero_iff _).mp hzero))]
    apply (hstands _ hD hne).delivers_signed (abs_pos.mpr (sub_ne_zero.mpr hmag.ne'))
    rw [hx, abs_of_pos (sub_pos.mpr hmag)]

end PicoCpu
