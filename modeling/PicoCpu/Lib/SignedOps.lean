import Mathlib.Data.BitVec

/-!
Arithmetic of a signed host type of `n` bits: an operation whose exact result the type cannot
represent has no result.
-/

namespace SignedOps

variable {n : Nat} (x y : BitVec n)

/-- The type represents the value. -/
def Fits (n : Nat) (v : Int) : Prop := -2 ^ (n - 1) ≤ v ∧ v < 2 ^ (n - 1)

def signedAdd : Option (BitVec n) := if x.saddOverflow y then none else some (x + y)

def signedMul : Option (BitVec n) := if x.smulOverflow y then none else some (x * y)

def signedNeg : Option (BitVec n) := if x.negOverflow then none else some (-x)

/-- `v < 0 ? -v : v`. -/
def signedAbs : Option (BitVec n) := if x.msb then signedNeg x else some x

/-- A shift to the left of a value that is not negative. -/
def signedShl (k : Nat) : Option (BitVec n) :=
  if 0 ≤ x.toInt ∧ x.toInt * 2 ^ k < 2 ^ (n - 1) then some (x <<< k) else none

theorem signedAdd_eq (h : Fits n (x.toInt + y.toInt)) : signedAdd x y = some (x + y) := by
  have hno : x.saddOverflow y = false := by
    rw [BitVec.saddOverflow, Bool.or_eq_false_iff, decide_eq_false_iff_not,
      decide_eq_false_iff_not]
    exact ⟨Int.not_le.mpr h.2, Int.not_lt.mpr h.1⟩
  rw [signedAdd, hno, if_neg Bool.false_ne_true]

theorem signedMul_eq (h : Fits n (x.toInt * y.toInt)) : signedMul x y = some (x * y) := by
  have hno : x.smulOverflow y = false := by
    rw [BitVec.smulOverflow, Bool.or_eq_false_iff, decide_eq_false_iff_not,
      decide_eq_false_iff_not]
    exact ⟨Int.not_le.mpr h.2, Int.not_lt.mpr h.1⟩
  rw [signedMul, hno, if_neg Bool.false_ne_true]

/-- Only the least value has no negation. -/
theorem signedNeg_eq (h : x ≠ BitVec.intMin n) : signedNeg x = some (-x) := by
  have hno : x.negOverflow = false := by
    rw [BitVec.negOverflow_eq, Bool.and_eq_false_iff, beq_eq_false_iff_ne]
    exact .inr h
  rw [signedNeg, hno, if_neg Bool.false_ne_true]

theorem signedNeg_intMin (hn : 0 < n) : signedNeg (BitVec.intMin n) = none := by
  have hover : (BitVec.intMin n).negOverflow = true := by
    rw [BitVec.negOverflow_eq, Bool.and_eq_true, decide_eq_true_eq, beq_iff_eq]
    exact ⟨hn, rfl⟩
  rw [signedNeg, hover, if_pos rfl]

/-- The magnitude of a value is the one of its two's complement. -/
theorem abs_eq_ofInt : (if x.msb then -x else x) = BitVec.ofInt n |x.toInt| := by
  cases hmsb : x.msb with
  | true =>
      have hneg : x.toInt < 0 := BitVec.toInt_neg_iff.mpr (BitVec.msb_eq_true_iff_two_mul_ge.mp hmsb)
      rw [if_pos rfl, abs_of_neg hneg, BitVec.ofInt_neg, BitVec.ofInt_toInt]
  | false =>
      have hpos : 0 ≤ x.toInt := BitVec.toInt_nonneg_of_msb_false hmsb
      rw [if_neg Bool.false_ne_true, abs_of_nonneg hpos, BitVec.ofInt_toInt]

theorem signedAbs_eq (h : x ≠ BitVec.intMin n) :
    signedAbs x = some (if x.msb then -x else x) := by
  rw [signedAbs]
  cases x.msb with
  | true => exact signedNeg_eq x h
  | false => rfl

theorem signedAbs_intMin (hn : 0 < n) : signedAbs (BitVec.intMin n) = none := by
  rw [signedAbs, BitVec.msb_intMin, decide_eq_true hn, if_pos rfl]
  exact signedNeg_intMin hn

end SignedOps
