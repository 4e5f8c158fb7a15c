import Mathlib.Algebra.Polynomial.Div
import Mathlib.Algebra.Field.ZMod
import Mathlib.Data.BitVec

/-!
Words as polynomials over GF(2), bit `i` being the coefficient of `X ^ i`: shifts multiply by powers
of `X`, a product of two words is built one bit at a time in two halves, and a reflected shift
register multiplies by `X` modulo its polynomial.
-/

namespace BinaryPoly

open Polynomial

variable {w : Nat}

/-! ### Words -/

/-- A bit in GF(2). -/
def coefficient (b : Bool) : ZMod 2 := if b then 1 else 0

theorem coefficient_xor (a b : Bool) :
    coefficient (a ^^ b) = coefficient a + coefficient b := by
  cases a with
  | false => exact (congrArg coefficient (Bool.false_xor b)).trans (zero_add _).symm
  | true =>
      cases b with
      | false => rfl
      | true => exact (by decide : (0 : ZMod 2) = 1 + 1)

/-- The polynomial whose coefficients are the bits of a word. -/
noncomputable def poly (x : BitVec w) : (ZMod 2)[X] :=
  ∑ i ∈ Finset.range w, monomial i (coefficient (x.getLsbD i))

theorem coeff_poly (x : BitVec w) (k : Nat) :
    (poly x).coeff k = coefficient (x.getLsbD k) := by
  rw [poly, finsetSum_coeff]
  simp only [coeff_monomial]
  rw [Finset.sum_ite_eq']
  by_cases hk : k < w
  · rw [if_pos (Finset.mem_range.mpr hk)]
  · have hnot : ¬ k ∈ Finset.range w := by rwa [Finset.mem_range]
    rw [if_neg hnot, BitVec.getLsbD_of_ge x k (Nat.le_of_not_lt hk)]
    rfl

theorem poly_zero : poly (0 : BitVec w) = 0 := by
  ext k
  rw [coeff_poly, coeff_zero]
  exact congrArg coefficient BitVec.getLsbD_zero

theorem poly_xor (x y : BitVec w) : poly (x ^^^ y) = poly x + poly y := by
  ext k
  rw [coeff_poly, coeff_add, coeff_poly, coeff_poly, BitVec.getLsbD_xor, coefficient_xor]

theorem degree_poly_lt (x : BitVec w) : (poly x).degree < w := by
  rw [degree_lt_iff_coeff_zero]
  intro k hk
  rw [coeff_poly, BitVec.getLsbD_of_ge x k hk]
  rfl

/-- Two halves. -/
theorem poly_append {v : Nat} (hi : BitVec v) (lo : BitVec w) :
    poly (hi ++ lo) = X ^ w * poly hi + poly lo := by
  ext k
  rw [coeff_poly, coeff_add, coeff_X_pow_mul', coeff_poly, coeff_poly, BitVec.getLsbD_append]
  by_cases hk : k < w
  · rw [if_pos hk, if_neg (Nat.not_le_of_lt hk), zero_add]
  · rw [if_neg hk, if_pos (Nat.le_of_not_lt hk), BitVec.getLsbD_of_ge lo k (Nat.le_of_not_lt hk)]
    exact (add_zero _).symm

/-- A shift to the left, with what it pushes out of the word. -/
theorem poly_shift (x : BitVec w) {i : Nat} (hi : i ≤ w) :
    X ^ w * poly (x >>> (w - i)) + poly (x <<< i) = X ^ i * poly x := by
  ext k
  rw [coeff_add, coeff_X_pow_mul', coeff_X_pow_mul', coeff_poly, coeff_poly, coeff_poly,
    BitVec.getLsbD_ushiftRight, BitVec.getLsbD_shiftLeft]
  by_cases hk : k < w
  · rw [if_neg (Nat.not_le_of_lt hk), zero_add, decide_eq_true hk, Bool.true_and]
    by_cases hik : i ≤ k
    · rw [if_pos hik, decide_eq_false (Nat.not_lt_of_le hik), Bool.not_false, Bool.true_and]
    · rw [if_neg hik, decide_eq_true (Nat.lt_of_not_le hik), Bool.not_true, Bool.false_and]
      rfl
  · have hik : i ≤ k := by omega
    have hindex : w - i + (k - w) = k - i := by omega
    rw [if_pos (Nat.le_of_not_lt hk), if_pos hik, hindex, decide_eq_false hk, Bool.false_and]
    exact add_zero _

/-! ### Products -/

/-- The low bits of a word, as a polynomial. -/
noncomputable def lowPoly (x : BitVec w) (n : Nat) : (ZMod 2)[X] :=
  ∑ i ∈ Finset.range n, monomial i (coefficient (x.getLsbD i))

/-- The step of a product in two halves: bit `i` of `a` adds `b` shifted by `i`. -/
def clmulStep (a b : BitVec w) (r : BitVec w × BitVec w) (i : Nat) : BitVec w × BitVec w :=
  if a.getLsbD i then (r.1 ^^^ (b <<< i), r.2 ^^^ (b >>> (w - i))) else r

/-- The halves after the first bits hold the product with those bits. -/
theorem foldl_clmulStep (a b : BitVec w) {n : Nat} (hn : n ≤ w) :
    X ^ w * poly ((List.range n).foldl (clmulStep a b) (0, 0)).2 +
        poly ((List.range n).foldl (clmulStep a b) (0, 0)).1 = lowPoly a n * poly b := by
  induction n with
  | zero => rw [List.range_zero, List.foldl_nil, poly_zero, lowPoly, Finset.range_zero,
      Finset.sum_empty, mul_zero, add_zero, zero_mul]
  | succ n ih =>
      have hbefore := ih (by omega)
      have hlow : lowPoly a (n + 1) = lowPoly a n + monomial n (coefficient (a.getLsbD n)) := by
        rw [lowPoly, Finset.sum_range_succ, lowPoly]
      rw [List.range_succ, List.foldl_append, List.foldl_cons, List.foldl_nil, clmulStep, hlow,
        add_mul, ← hbefore]
      cases hbit : a.getLsbD n with
      | false =>
          have hzero : coefficient false = 0 := rfl
          rw [if_neg Bool.false_ne_true, hzero, monomial_zero_right, zero_mul, add_zero]
      | true =>
          have hone : coefficient true = 1 := rfl
          rw [if_pos rfl, poly_xor, poly_xor, hone, monomial_one_right_eq_X_pow,
            ← poly_shift b (i := n) (by omega)]
          ring

/-- The halves of a whole product. -/
theorem poly_clmul (a b : BitVec w) :
    poly (((List.range w).foldl (clmulStep a b) (0, 0)).2 ++
      ((List.range w).foldl (clmulStep a b) (0, 0)).1) = poly a * poly b := by
  rw [poly_append, foldl_clmulStep a b (Nat.le_refl w)]
  rfl

/-! ### Reflected division -/

/-- The polynomial of a reflected word: bit 0 is the coefficient of the highest power. -/
noncomputable def reflected (x : BitVec w) : (ZMod 2)[X] := poly x.reverse

theorem coeff_reflected (x : BitVec w) (k : Nat) :
    (reflected x).coeff k = coefficient (x.getMsbD k) := by
  rw [reflected, coeff_poly, BitVec.getLsbD_reverse]

theorem reflected_xor (x y : BitVec w) : reflected (x ^^^ y) = reflected x + reflected y := by
  ext k
  rw [coeff_reflected, coeff_add, coeff_reflected, coeff_reflected, BitVec.getMsbD_xor,
    coefficient_xor]

/-- A narrower word stands at the high powers. -/
theorem reflected_setWidth {n : Nat} (x : BitVec w) (h : w ≤ n) :
    reflected (x.setWidth n) = X ^ (n - w) * reflected x := by
  ext k
  rw [coeff_reflected, coeff_X_pow_mul', coeff_reflected, BitVec.getMsbD_eq_getLsbD,
    BitVec.getLsbD_setWidth, BitVec.getMsbD_eq_getLsbD]
  by_cases hk : n - w ≤ k
  · rw [if_pos hk]
    by_cases hkn : k < n
    · have hinner : k - (n - w) < w := by omega
      have hbit : n - 1 - k < n := by omega
      have hindex : w - 1 - (k - (n - w)) = n - 1 - k := by omega
      rw [decide_eq_true hkn, decide_eq_true hbit, decide_eq_true hinner, hindex, Bool.true_and]
    · have hinner : ¬ k - (n - w) < w := by omega
      rw [decide_eq_false hkn, decide_eq_false hinner, Bool.false_and, Bool.false_and]
  · have hout : w ≤ n - 1 - k := by omega
    rw [if_neg hk, BitVec.getLsbD_of_ge x _ hout, Bool.and_false, Bool.and_false]
    rfl

/-- The divisor whose lower coefficients a reflected word holds. -/
noncomputable def divisor (g : BitVec w) : (ZMod 2)[X] := X ^ w + reflected g

theorem monic_divisor (g : BitVec w) : (divisor g).Monic :=
  monic_X_pow_add (degree_poly_lt g.reverse)

theorem degree_divisor (g : BitVec w) : (divisor g).degree = w := by
  have hlt : (reflected g).degree < (X ^ w : (ZMod 2)[X]).degree := by
    rw [degree_X_pow]
    exact degree_poly_lt g.reverse
  rw [divisor, degree_add_eq_left_of_degree_lt hlt, degree_X_pow]

/-- A shift to the right multiplies a reflected word by `X`, up to the bit it pushes out. -/
theorem reflected_ushiftRight_one (x : BitVec w) :
    reflected (x >>> 1) + C (coefficient (x.getLsbD 0)) * X ^ w = X * reflected x := by
  ext k
  rw [coeff_add, coeff_reflected, coeff_C_mul_X_pow, BitVec.getMsbD_ushiftRight]
  cases k with
  | zero =>
      rw [mul_comm, coeff_mul_X_zero, decide_eq_true Nat.zero_lt_one, Bool.not_true,
        Bool.false_and, Bool.and_false]
      by_cases hw : 0 = w
      · subst hw
        rw [BitVec.getLsbD_of_ge x 0 (Nat.le_refl 0)]
        rfl
      · rw [if_neg hw]
        rfl
  | succ k =>
      have hnot : ¬ k + 1 < 1 := by omega
      rw [coeff_X_mul, coeff_reflected, decide_eq_false hnot, Bool.not_false, Bool.true_and,
        Nat.add_sub_cancel]
      rcases Nat.lt_trichotomy (k + 1) w with hlt | rfl | hgt
      · rw [if_neg (by omega), decide_eq_true hlt, Bool.true_and, add_zero]
      · have hlast : (x.getMsbD k) = x.getLsbD 0 := by
          rw [BitVec.getMsbD_eq_getLsbD, decide_eq_true (Nat.lt_succ_self k), Bool.true_and,
            Nat.add_sub_cancel, Nat.sub_self]
        rw [if_pos rfl, decide_eq_false (Nat.lt_irrefl _), Bool.false_and, hlast]
        exact zero_add _
      · have hbeyond : x.getMsbD k = false := by
          rw [BitVec.getMsbD_eq_getLsbD, decide_eq_false (by omega), Bool.false_and]
        rw [if_neg (by omega), decide_eq_false (by omega), Bool.false_and, hbeyond, add_zero]

/-- One step of the division. -/
def divideStep (g x : BitVec w) : BitVec w := if x.getLsbD 0 then (x >>> 1) ^^^ g else x >>> 1

/-- One step multiplies by `X` modulo the divisor. -/
theorem reflected_divideStep (g x : BitVec w) :
    reflected (divideStep g x) = (X * reflected x) %ₘ divisor g := by
  have hstep : reflected (divideStep g x) +
      divisor g * C (coefficient (x.getLsbD 0)) = X * reflected x := by
    rw [← reflected_ushiftRight_one, divideStep, divisor]
    cases x.getLsbD 0 with
    | false =>
        have hzero : coefficient false = 0 := rfl
        rw [if_neg Bool.false_ne_true, hzero, C_0, mul_zero, zero_mul]
    | true =>
        have hone : coefficient true = 1 := rfl
        have htwice : reflected g + reflected g = 0 := CharTwo.add_self_eq_zero _
        rw [if_pos rfl, reflected_xor, hone, C_1, mul_one, one_mul]
        calc reflected (x >>> 1) + reflected g + (X ^ w + reflected g)
            = reflected (x >>> 1) + X ^ w + (reflected g + reflected g) := by ring
          _ = reflected (x >>> 1) + X ^ w := by rw [htwice, add_zero]
  have hdegree : (reflected (divideStep g x)).degree < (divisor g).degree := by
    rw [degree_divisor]
    exact degree_poly_lt _
  exact ((div_modByMonic_unique _ _ (monic_divisor g) ⟨hstep, hdegree⟩).2).symm

/-- As many steps multiply by that power of `X`. -/
theorem reflected_iterate_divideStep (g x : BitVec w) (n : Nat) :
    reflected ((divideStep g)^[n] x) = (X ^ n * reflected x) %ₘ divisor g := by
  induction n with
  | zero =>
      have hdegree : (reflected x).degree < (divisor g).degree := by
        rw [degree_divisor]
        exact degree_poly_lt _
      rw [Function.iterate_zero_apply, pow_zero, one_mul,
        (modByMonic_eq_self_iff (monic_divisor g)).mpr hdegree]
  | succ n ih =>
      have hreduced : (X ^ n * reflected x) %ₘ divisor g %ₘ divisor g =
          (X ^ n * reflected x) %ₘ divisor g :=
        (modByMonic_eq_self_iff (monic_divisor g)).mpr (degree_modByMonic_lt _ (monic_divisor g))
      rw [Function.iterate_succ_apply', reflected_divideStep, ih, mul_modByMonic X, hreduced,
        ← mul_modByMonic, pow_succ', mul_assoc]

end BinaryPoly
