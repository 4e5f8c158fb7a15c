import PicoCpu.SoftFloat.Float80
import Mathlib.Data.Rat.Floor

/-!
The sticky shift and the long division over all their inputs. A shift by any distance keeps the
floor and, in its last bit, whether anything was lost, which is enough for the rounding to tell
on which side of the half the exact bits lie. A division whose quotient fits is exact, and none
of its 128 comparisons is wrong, however large the divisor.
-/

namespace PicoCpu

open NearestEven

/-! ### The sticky shift -/

/-- The comparison of the discarded word with the half in `round_to_nearest_even`. -/
def discardOrder (m : U128) : Ordering :=
  if m.lo.ult (1#64 <<< 63) then .lt
  else if (1#64 <<< 63).ult m.lo then .gt
  else .eq

/-- The rounding of a mantissa whose discarded bits compare so with the half. -/
def roundBy (discarded : Ordering) (result : U64) (rawExp : Int) : U64 × Int :=
  let up := if result + 1 == 0 then (1#64 <<< 63, rawExp + 1) else (result + 1, rawExp)
  match discarded with
  | .lt => (result, rawExp)
  | .gt => up
  | .eq => if (result &&& 1) == 0 then (result, rawExp) else up

/-- The comparison is all that the rounding asks of the discarded word. -/
theorem roundToNearestEven_eq (m : U128) (rawExp : Int) :
    roundToNearestEven m rawExp = roundBy (discardOrder m) m.hi rawExp := by
  cases hbelow : m.lo.ult (1#64 <<< 63) with
  | true => simp only [roundToNearestEven, discardOrder, hbelow, if_true, roundBy]
  | false =>
      cases habove : (1#64 <<< 63).ult m.lo with
      | true =>
          simp only [roundToNearestEven, discardOrder, hbelow, habove, Bool.false_eq_true, if_true,
            if_false, roundBy]
      | false =>
          simp only [roundToNearestEven, discardOrder, hbelow, habove, Bool.false_eq_true, if_false,
            roundBy]

theorem discardOrder_eq_cmp (m : U128) : discardOrder m = cmp (m.lo.toNat : ℚ) (2 ^ 63) := by
  have hhalf : (1#64 <<< 63).toNat = 2 ^ 63 := by decide
  have hcast : ((2 : ℚ) ^ 63) = ((2 ^ 63 : ℕ) : ℚ) := by push_cast; rfl
  unfold discardOrder
  rw [BitVec.ult_eq_decide, BitVec.ult_eq_decide, hhalf, hcast]
  rcases lt_trichotomy m.lo.toNat (2 ^ 63) with hlt | heq | hgt
  · rw [decide_eq_true hlt, if_pos rfl, (cmp_eq_lt_iff ..).mpr (Nat.cast_lt.mpr hlt)]
  · rw [heq, (cmp_eq_eq_iff ..).mpr rfl]
    simp
  · rw [decide_eq_false (Nat.lt_asymm hgt), decide_eq_true hgt, if_neg Bool.false_ne_true,
      if_pos rfl, (cmp_eq_gt_iff ..).mpr (Nat.cast_lt.mpr hgt)]

/-- The bits that the rounding discards of the exact quotient `v / 2 ^ n`. -/
def exactDiscard (v : U128) (n : Nat) : ℚ := modulo (2 ^ 64) ((v.toNat : ℚ) / 2 ^ n)

/-- The word below the sticky bit is in the place of the exact bits among the even numbers. -/
theorem together_exactDiscard (v : U128) (n : Nat) :
    Together (2 : ℚ) ((shr128Sticky v n).lo.toNat : ℚ) (exactDiscard v n) := by
  have hword : (((shr128Sticky v n).lo.toNat : ℕ) : ℚ) =
      modulo (2 ^ 64) ((sticky v.toNat n : ℕ) : ℚ) := by
    have hcast : ((2 : ℚ) ^ 64) = ((2 ^ 64 : ℕ) : ℚ) := by push_cast; rfl
    rw [hcast, modulo_natCast, ← toNat_shr128Sticky, U128.toNat_mod]
  have hplace := (together_sticky (K := ℚ) v.toNat n).modulo two_pos (n := 2 ^ 63) (by norm_num)
  have hmodulus : (((2 ^ 63 : ℤ) : ℚ) * 2) = 2 ^ 64 := by norm_num
  rw [hmodulus] at hplace
  rw [hword, exactDiscard]
  exact hplace

/-- The shift is the floor with its last bit set when something was lost, and what is rounded
after it is rounded as the exact bits say. -/
theorem shr128Sticky_exact (v : U128) (n : Nat) :
    (shr128Sticky v n).toNat =
        (if 2 ^ n ∣ v.toNat then v.toNat / 2 ^ n else v.toNat / 2 ^ n ||| 1) ∧
      discardOrder (shr128Sticky v n) = cmp (exactDiscard v n) (2 ^ 63) ∧
      ∀ rawExp, roundToNearestEven (shr128Sticky v n) rawExp =
        roundBy (cmp (exactDiscard v n) (2 ^ 63)) (shr128Sticky v n).hi rawExp := by
  have horder : discardOrder (shr128Sticky v n) = cmp (exactDiscard v n) (2 ^ 63) := by
    have hhalf : ((2 : ℚ) ^ 63) = ((2 ^ 62 : ℤ) : ℚ) * 2 := by norm_num
    rw [discardOrder_eq_cmp, hhalf]
    exact (together_exactDiscard v n).cmp_eq (2 ^ 62)
  refine ⟨?_, horder, ?_⟩
  · rw [toNat_shr128Sticky]
    by_cases hdvd : 2 ^ n ∣ v.toNat
    · rw [if_pos hdvd, sticky_of_mod_eq_zero (Nat.mod_eq_zero_of_dvd hdvd)]
    · have hmod : v.toNat % 2 ^ n ≠ 0 := fun h => hdvd (Nat.dvd_of_mod_eq_zero h)
      rw [if_neg hdvd, sticky, if_neg hmod]
  · intro rawExp
    rw [roundToNearestEven_eq, horder]

/-! ### The long division -/

/-- The quotient and the remainder are exact, and so is every comparison on the way. -/
theorem div128By64_exact (num : U128) (den : U64) (hfits : num.hi.toNat < den.toNat) :
    (div128By64 num den).1.toNat = num.toNat / den.toNat ∧
      (div128By64 num den).2.toNat = num.toNat % den.toNat ∧
      ∀ i q rem, DivReaches num den (i + 1) q rem → DivRound num den i q rem := by
  obtain ⟨hquot, hrem⟩ := div128By64_eq hfits
  refine ⟨hquot, hrem, ?_⟩
  intro i q rem hreach
  obtain ⟨hi, hdone⟩ := hreach.done hfits
  exact hdone.round (by omega) hfits

/-- The largest divisor, over a numerator whose remainders need the 65th bit. -/
theorem div128By64_exact_largest :
    (div128By64 ⟨0xFFFFFFFFFFFFFFFE, 5⟩ 0xFFFFFFFFFFFFFFFF).1.toNat =
        (U128.mk 0xFFFFFFFFFFFFFFFE 5).toNat / 0xFFFFFFFFFFFFFFFF ∧
      (div128By64 ⟨0xFFFFFFFFFFFFFFFE, 5⟩ 0xFFFFFFFFFFFFFFFF).2.toNat =
        (U128.mk 0xFFFFFFFFFFFFFFFE 5).toNat % 0xFFFFFFFFFFFFFFFF ∧
      ∀ i q rem, DivReaches ⟨0xFFFFFFFFFFFFFFFE, 5⟩ 0xFFFFFFFFFFFFFFFF (i + 1) q rem →
        DivRound ⟨0xFFFFFFFFFFFFFFFE, 5⟩ 0xFFFFFFFFFFFFFFFF i q rem :=
  div128By64_exact ⟨0xFFFFFFFFFFFFFFFE, 5⟩ 0xFFFFFFFFFFFFFFFF (by decide)

end PicoCpu
