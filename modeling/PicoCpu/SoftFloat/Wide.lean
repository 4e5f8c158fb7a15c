import PicoCpu.Word
import PicoCpu.Lib.NearestEven
import Mathlib.Tactic.Linarith

/-!
The 128-bit mantissas of the soft-float unit, held as two 64-bit halves, and what each operation
on the halves computes on the number they stand for.
-/

namespace PicoCpu

open NearestEven

/-- A 128-bit unsigned mantissa as hi/lo halves. -/
structure U128 where
  hi : U64
  lo : U64
deriving DecidableEq

def U128.toNat (v : U128) : Nat := v.hi.toNat * 2 ^ 64 + v.lo.toNat

theorem U128.toNat_mk (hi lo : U64) : (U128.mk hi lo).toNat = hi.toNat * 2 ^ 64 + lo.toNat := rfl

theorem U128.toNat_lt (v : U128) : v.toNat < 2 ^ 128 := by
  have hhi := v.hi.isLt
  have hlo := v.lo.isLt
  unfold U128.toNat
  omega

theorem U128.toNat_div (v : U128) : v.toNat / 2 ^ 64 = v.hi.toNat := by
  have hlo := v.lo.isLt
  unfold U128.toNat
  omega

theorem U128.toNat_mod (v : U128) : v.toNat % 2 ^ 64 = v.lo.toNat := by
  have hlo := v.lo.isLt
  unfold U128.toNat
  omega

/-- Right shift accumulating a sticky OR of the bits shifted out. -/
def shr128Sticky (v : U128) (n : Nat) : U128 :=
  if n == 0 then v
  else if n ≥ 128 then
    ⟨0, if v.hi != 0 || v.lo != 0 then 1 else 0⟩
  else if n ≥ 64 then
    let k := n - 64
    let lostLo := v.lo
    let lostHi := if k == 0 then 0 else v.hi &&& ((1#64 <<< k) - 1)
    let lo := if k == 0 then v.hi else v.hi >>> k
    ⟨0, if lostLo != 0 || lostHi != 0 then lo ||| 1 else lo⟩
  else
    let lostLo := v.lo &&& ((1#64 <<< n) - 1)
    let lo := (v.lo >>> n) ||| (v.hi <<< (64 - n))
    ⟨v.hi >>> n, if lostLo != 0 then lo ||| 1 else lo⟩

def add128 (a b : U128) : U128 :=
  let lo := a.lo + b.lo
  let carry := if lo.ult a.lo then 1#64 else 0#64
  ⟨a.hi + b.hi + carry, lo⟩

def sub128 (a b : U128) : U128 :=
  let borrow := if a.lo.ult b.lo then 1#64 else 0#64
  ⟨a.hi - b.hi - borrow, a.lo - b.lo⟩

def cmp128 (a b : U128) : Int :=
  if a.hi != b.hi then (if b.hi.ult a.hi then 1 else -1)
  else if a.lo != b.lo then (if b.lo.ult a.lo then 1 else -1)
  else 0

/-- The 64x64 to 128 multiply. -/
def mul64x64 (a b : U64) : U128 :=
  let p : BitVec 128 := a.setWidth 128 * b.setWidth 128
  ⟨(p >>> 64).setWidth 64, p.setWidth 64⟩

/-- The shift left by one that normalises a mantissa. -/
def U128.double (v : U128) : U128 := ⟨(v.hi <<< 1) ||| (v.lo >>> 63), v.lo <<< 1⟩

/-- One round of the long division: bring down bit `i` of the numerator, and subtract the
divisor from the 65-bit partial remainder when it fits. -/
def div128Step (num : U128) (den : U64) (i : Nat) (q rem : U64) : U64 × U64 :=
  let remTop := (rem &&& (1#64 <<< 63)) != 0
  let newBit := (if i ≥ 64 then num.hi >>> (i - 64) else num.lo >>> i) &&& 1
  let shifted := (rem <<< 1) ||| newBit
  if remTop || den.ule shifted then
    (if i < 64 then q ||| (1#64 <<< i) else q, shifted - den)
  else (q, shifted)

/-- The rounds for the bits below `n`, from the top down. -/
def div128Loop (num : U128) (den : U64) : Nat → U64 → U64 → U64 × U64
  | 0, q, rem => (q, rem)
  | i + 1, q, rem =>
      div128Loop num den i (div128Step num den i q rem).1 (div128Step num den i q rem).2

/-- 128 / 64 by long division: the quotient, and the remainder of `rem_out`. -/
def div128By64 (num : U128) (den : U64) : U64 × U64 := div128Loop num den 128 0 0

/-! ### Single words -/

theorem toNat_shiftLeft_lt {x : U64} {n : Nat} (h : x.toNat * 2 ^ n < 2 ^ 64) :
    (x <<< n).toNat = x.toNat * 2 ^ n := by
  rw [BitVec.toNat_shiftLeft, Nat.shiftLeft_eq, Nat.mod_eq_of_lt h]

theorem toNat_ushiftRight_div (x : U64) (n : Nat) : (x >>> n).toNat = x.toNat / 2 ^ n := by
  rw [BitVec.toNat_ushiftRight, Nat.shiftRight_eq_div_pow]

theorem toNat_one_shiftLeft {n : Nat} (hn : n < 64) : (1#64 <<< n).toNat = 2 ^ n := by
  have hpow : 2 ^ n < 2 ^ 64 := Nat.pow_lt_pow_right (by omega) hn
  rw [toNat_shiftLeft_lt]
  · exact Nat.one_mul _
  · rw [show (1#64).toNat = 1 from rfl, Nat.one_mul]
    exact hpow

theorem toNat_and_lowMask (x : U64) {n : Nat} (hn : n < 64) :
    (x &&& ((1#64 <<< n) - 1)).toNat = x.toNat % 2 ^ n := by
  have hpow : 2 ^ n < 2 ^ 64 := Nat.pow_lt_pow_right (by omega) hn
  have hpos := Nat.two_pow_pos n
  have hone := toNat_one_shiftLeft hn
  have hmask : ((1#64 <<< n) - 1).toNat = 2 ^ n - 1 := by
    rw [BitVec.toNat_sub, hone]
    have h1 : (1 : U64).toNat = 1 := rfl
    rw [h1]
    omega
  rw [BitVec.toNat_and, hmask, Nat.and_two_pow_sub_one_eq_mod]

theorem ne_zero_iff_toNat (x : U64) : (x != 0) = true ↔ x.toNat ≠ 0 := by
  rw [bne_iff_ne, ne_eq, ne_eq, ← BitVec.toNat_inj]
  rfl

theorem toNat_or_one (x : U64) : (x ||| 1).toNat = 2 * (x.toNat / 2) + 1 := by
  rw [BitVec.toNat_or]
  exact or_one_eq x.toNat

/-- The top bit of a word. -/
theorem top_ne_zero_iff (x : U64) : ((x &&& (1#64 <<< 63)) != 0) = true ↔ 2 ^ 63 ≤ x.toNat := by
  have hx := x.isLt
  have hbit : (1#64 <<< 63).toNat = 2 ^ 63 := by decide
  have hdiv : x.toNat / 2 ^ 63 = 0 ∨ x.toNat / 2 ^ 63 = 1 := by omega
  rw [ne_zero_iff_toNat, BitVec.toNat_and, hbit, Nat.and_two_pow, Nat.testBit_eq_decide_div_mod_eq]
  rcases hdiv with h | h
  · rw [h]
    simp
    omega
  · rw [h]
    simp
    omega

theorem top_eq_zero_iff (x : U64) : ((x &&& (1#64 <<< 63)) == 0) = true ↔ x.toNat < 2 ^ 63 := by
  have hne := top_ne_zero_iff x
  rw [bne, Bool.not_eq_true'] at hne
  cases h : (x &&& (1#64 <<< 63)) == 0 with
  | false =>
      have := hne.mp h
      simp
      omega
  | true =>
      have : ¬ 2 ^ 63 ≤ x.toNat := fun hle => by
        have := hne.mpr hle
        rw [h] at this
        cases this
      simp
      omega

/-- Bits put below a shifted word. -/
theorem toNat_shiftLeft_or {x y : U64} {n : Nat} (hx : x.toNat * 2 ^ n < 2 ^ 64)
    (hy : y.toNat < 2 ^ n) : (x <<< n ||| y).toNat = x.toNat * 2 ^ n + y.toNat := by
  rw [BitVec.toNat_or, toNat_shiftLeft_lt hx, ← Nat.shiftLeft_eq,
    ← Nat.shiftLeft_add_eq_or_of_lt hy]

/-! ### The operations -/

theorem toNat_add128 (a b : U128) : (add128 a b).toNat = (a.toNat + b.toNat) % 2 ^ 128 := by
  have ha := a.lo.isLt
  have hb := b.lo.isLt
  have hah := a.hi.isLt
  have hbh := b.hi.isLt
  simp only [add128, U128.toNat, BitVec.ult_eq_decide, BitVec.toNat_add]
  by_cases h : (a.lo.toNat + b.lo.toNat) % 2 ^ 64 < a.lo.toNat
  · simp only [h, decide_true, if_true, show (1#64).toNat = 1 from rfl]
    omega
  · simp only [h, decide_false, Bool.false_eq_true, if_false, show (0#64).toNat = 0 from rfl]
    omega

theorem toNat_sub128 {a b : U128} (h : b.toNat ≤ a.toNat) :
    (sub128 a b).toNat = a.toNat - b.toNat := by
  have ha := a.lo.isLt
  have hb := b.lo.isLt
  have hah := a.hi.isLt
  have hbh := b.hi.isLt
  simp only [U128.toNat] at h
  simp only [sub128, U128.toNat, BitVec.ult_eq_decide]
  by_cases hlt : a.lo.toNat < b.lo.toNat
  · simp only [hlt, decide_true, if_true, BitVec.toNat_sub, show (1#64).toNat = 1 from rfl]
    omega
  · simp only [hlt, decide_false, Bool.false_eq_true, if_false, BitVec.toNat_sub,
      show (0#64).toNat = 0 from rfl]
    omega

theorem cmp128_nonneg_iff (a b : U128) : 0 ≤ cmp128 a b ↔ b.toNat ≤ a.toNat := by
  have ha := a.lo.isLt
  have hb := b.lo.isLt
  have hhi : a.hi = b.hi ↔ a.hi.toNat = b.hi.toNat := BitVec.toNat_inj.symm
  have hlo : a.lo = b.lo ↔ a.lo.toNat = b.lo.toNat := BitVec.toNat_inj.symm
  unfold cmp128 U128.toNat
  simp only [BitVec.ult_eq_decide, bne_iff_ne, ne_eq, hhi, hlo, decide_eq_true_eq]
  split_ifs <;> omega

theorem toNat_mul64x64 (a b : U64) : (mul64x64 a b).toNat = a.toNat * b.toNat := by
  have hlt : a.toNat * b.toNat < 2 ^ 64 * 2 ^ 64 := Nat.mul_lt_mul'' a.isLt b.isLt
  have hp : (a.setWidth 128 * b.setWidth 128 : BitVec 128).toNat = a.toNat * b.toNat := by
    have ha : a.toNat % 2 ^ 128 = a.toNat := Nat.mod_eq_of_lt (by have := a.isLt; omega)
    have hb : b.toNat % 2 ^ 128 = b.toNat := Nat.mod_eq_of_lt (by have := b.isLt; omega)
    rw [BitVec.toNat_mul, BitVec.toNat_setWidth, BitVec.toNat_setWidth, ha, hb]
    exact Nat.mod_eq_of_lt (by omega)
  unfold mul64x64 U128.toNat
  simp only [BitVec.toNat_setWidth, BitVec.toNat_ushiftRight, hp, Nat.shiftRight_eq_div_pow]
  omega

theorem toNat_double {v : U128} (h : v.toNat < 2 ^ 127) : v.double.toNat = 2 * v.toNat := by
  have hlo := v.lo.isLt
  have hhi : v.hi.toNat < 2 ^ 63 := by
    unfold U128.toNat at h
    omega
  have htop : (v.lo >>> 63).toNat = v.lo.toNat / 2 ^ 63 := toNat_ushiftRight_div v.lo 63
  unfold U128.double U128.toNat
  rw [toNat_shiftLeft_or (by omega) (by rw [htop]; omega), htop, BitVec.toNat_shiftLeft,
    Nat.shiftLeft_eq]
  omega

theorem U128.toNat_eq_zero_iff (v : U128) : v.toNat = 0 ↔ v.hi = 0 ∧ v.lo = 0 := by
  have hzero : ∀ x : U64, x = 0 ↔ x.toNat = 0 := fun x => BitVec.toNat_inj.symm
  rw [hzero, hzero]
  unfold U128.toNat
  omega

theorem toNat_ite_or_one (p : Bool) (x : U64) :
    (if p then x ||| 1 else x).toNat = if p then 2 * (x.toNat / 2) + 1 else x.toNat := by
  cases p with
  | false => rfl
  | true => exact toNat_or_one x

/-- The two ways a jammed quotient comes out. -/
theorem sticky_eq (v n : Nat) :
    sticky v n = if v % 2 ^ n = 0 then v / 2 ^ n else 2 * (v / 2 ^ n / 2) + 1 := by
  by_cases h : v % 2 ^ n = 0
  · rw [if_pos h, sticky_of_mod_eq_zero h]
  · rw [if_neg h, sticky_of_mod_ne_zero h]

theorem toNat_shr128Sticky_low (v : U128) {n : Nat} (hpos : 0 < n) (hn : n < 64) :
    (shr128Sticky v n).toNat = sticky v.toNat n := by
  have hlo := v.lo.isLt
  have hhi := v.hi.isLt
  have hpow : 2 ^ n * 2 ^ (64 - n) = 2 ^ 64 := by
    rw [← Nat.pow_add]
    congr 1
    omega
  have hdvd : 2 ^ n ∣ 2 ^ 64 := ⟨2 ^ (64 - n), hpow.symm⟩
  -- the word below: what is left of `lo`, under the low bits of `hi`
  have hword : (v.lo >>> n ||| v.hi <<< (64 - n)).toNat =
      v.hi.toNat % 2 ^ n * 2 ^ (64 - n) + v.lo.toNat / 2 ^ n := by
    have hbelow : v.lo.toNat / 2 ^ n < 2 ^ (64 - n) := by
      rw [Nat.div_lt_iff_lt_mul (Nat.two_pow_pos n), Nat.mul_comm, hpow]
      exact hlo
    rw [BitVec.toNat_or, BitVec.toNat_shiftLeft, toNat_ushiftRight_div, Nat.shiftLeft_eq, ← hpow,
      Nat.mul_mod_mul_right, Nat.or_comm, ← Nat.shiftLeft_eq,
      ← Nat.shiftLeft_add_eq_or_of_lt hbelow]
  have hquot : v.toNat / 2 ^ n =
      v.hi.toNat / 2 ^ n * 2 ^ 64 + (v.lo >>> n ||| v.hi <<< (64 - n)).toNat := by
    rw [hword]
    unfold U128.toNat
    have hsplit := Nat.div_add_mod v.hi.toNat (2 ^ n)
    have hwhole : v.hi.toNat * 2 ^ 64 + v.lo.toNat =
        v.lo.toNat + 2 ^ n * (v.hi.toNat * 2 ^ (64 - n)) := by
      rw [← hpow]
      ring
    rw [hwhole, Nat.add_mul_div_left _ _ (Nat.two_pow_pos n)]
    calc v.lo.toNat / 2 ^ n + v.hi.toNat * 2 ^ (64 - n)
        = v.lo.toNat / 2 ^ n +
          (2 ^ n * (v.hi.toNat / 2 ^ n) + v.hi.toNat % 2 ^ n) * 2 ^ (64 - n) := by rw [hsplit]
      _ = v.hi.toNat / 2 ^ n * (2 ^ n * 2 ^ (64 - n)) +
          (v.hi.toNat % 2 ^ n * 2 ^ (64 - n) + v.lo.toNat / 2 ^ n) := by ring
      _ = _ := by rw [hpow]
  have hrem : v.toNat % 2 ^ n = v.lo.toNat % 2 ^ n := by
    unfold U128.toNat
    rw [Nat.add_mod, Nat.mod_eq_zero_of_dvd (Dvd.dvd.mul_left hdvd _), Nat.zero_add, Nat.mod_mod]
  have hlost : ((v.lo &&& ((1#64 <<< n) - 1)) != 0) = decide (¬ v.toNat % 2 ^ n = 0) := by
    rw [Bool.eq_iff_iff, ne_zero_iff_toNat, toNat_and_lowMask v.lo hn, hrem, decide_eq_true_eq]
  have hne : (n == 0) = false := by
    rw [beq_eq_false_iff_ne]
    omega
  have hlt := (v.lo >>> n ||| v.hi <<< (64 - n)).isLt
  unfold shr128Sticky
  rw [hne, if_neg (by simp), if_neg (by omega), if_neg (by omega)]
  simp only [hlost, toNat_ite_or_one, U128.toNat_mk, toNat_ushiftRight_div v.hi n]
  rw [sticky_eq, hquot]
  by_cases h : v.toNat % 2 ^ n = 0
  · rw [if_pos h, if_neg (by simpa using h)]
  · rw [if_neg h, if_pos (by simpa using h)]
    omega

theorem toNat_shr128Sticky_high (v : U128) {n : Nat} (hge : 64 ≤ n) (hn : n < 128) :
    (shr128Sticky v n).toNat = sticky v.toNat n := by
  have hlo := v.lo.isLt
  obtain ⟨k, rfl⟩ : ∃ k, n = 64 + k := ⟨n - 64, by omega⟩
  have hk : k < 64 := by omega
  have hquot : v.toNat / 2 ^ (64 + k) = v.hi.toNat / 2 ^ k := by
    rw [Nat.pow_add, ← Nat.div_div_eq_div_mul, U128.toNat_div]
  have hrem : v.toNat % 2 ^ (64 + k) = v.lo.toNat + 2 ^ 64 * (v.hi.toNat % 2 ^ k) := by
    rw [Nat.pow_add, Nat.mod_mul, U128.toNat_div, U128.toNat_mod]
  have hlostHi : ((if (k == 0) = true then 0 else v.hi &&& ((1#64 <<< k) - 1)) : U64).toNat =
      v.hi.toNat % 2 ^ k := by
    by_cases hzero : k = 0
    · subst hzero
      simp [Nat.mod_one]
    · rw [if_neg (by simpa using hzero)]
      exact toNat_and_lowMask v.hi hk
  have hword : ((if (k == 0) = true then v.hi else v.hi >>> k) : U64).toNat =
      v.hi.toNat / 2 ^ k := by
    by_cases hzero : k = 0
    · subst hzero
      simp
    · rw [if_neg (by simpa using hzero)]
      exact toNat_ushiftRight_div v.hi k
  have hlost : (v.lo != 0 ||
      (if (k == 0) = true then 0 else v.hi &&& ((1#64 <<< k) - 1)) != 0) =
      decide (¬ v.toNat % 2 ^ (64 + k) = 0) := by
    rw [Bool.eq_iff_iff, Bool.or_eq_true, ne_zero_iff_toNat, ne_zero_iff_toNat, hlostHi, hrem,
      decide_eq_true_eq]
    omega
  have hne : (64 + k == 0) = false := by
    rw [beq_eq_false_iff_ne]
    omega
  unfold shr128Sticky
  rw [hne, if_neg (by simp), if_neg (by omega), if_pos (by omega), Nat.add_sub_cancel_left]
  simp only [hlost, toNat_ite_or_one, U128.toNat_mk, hword]
  rw [sticky_eq, hquot, show (0 : U64).toNat = 0 from rfl, Nat.zero_mul, Nat.zero_add]
  by_cases h : v.toNat % 2 ^ (64 + k) = 0
  · rw [if_pos h, if_neg (by simpa using h)]
  · rw [if_neg h, if_pos (by simpa using h)]

/-- The sticky shift is the jammed quotient of the whole number, for every distance. -/
theorem toNat_shr128Sticky (v : U128) (n : Nat) :
    (shr128Sticky v n).toNat = sticky v.toNat n := by
  rcases Nat.eq_zero_or_pos n with rfl | hpos
  · rw [sticky_of_mod_eq_zero (by simp [Nat.mod_one])]
    simp [shr128Sticky]
  · rcases Nat.lt_or_ge n 64 with hlow | hge
    · exact toNat_shr128Sticky_low v hpos hlow
    · rcases Nat.lt_or_ge n 128 with hhigh | hall
      · exact toNat_shr128Sticky_high v hge hhigh
      · have hlt : v.toNat < 2 ^ n :=
          lt_of_lt_of_le v.toNat_lt (Nat.pow_le_pow_right (by omega) hall)
        have hne : (n == 0) = false := by
          rw [beq_eq_false_iff_ne]
          omega
        have hany : (v.hi != 0 || v.lo != 0) = decide (¬ v.toNat = 0) := by
          rw [Bool.eq_iff_iff, Bool.or_eq_true, bne_iff_ne, bne_iff_ne, decide_eq_true_eq,
            U128.toNat_eq_zero_iff]
          tauto
        rw [sticky_eq, Nat.mod_eq_of_lt hlt, Nat.div_eq_of_lt hlt]
        unfold shr128Sticky
        rw [hne, if_neg (by simp), if_pos hall, hany]
        rw [U128.toNat_mk, show (0 : U64).toNat = 0 from rfl]
        by_cases h : v.toNat = 0
        · rw [if_pos h, if_neg (by simpa using h)]
          rfl
        · rw [if_neg h, if_pos (by simpa using h)]
          rfl

/-! ### The long division -/

/-- What the rounds above bit `n` have left: the remainder of the numerator's upper part, and
its quotient in place. -/
structure DivDone (num : U128) (den : U64) (n : Nat) (q rem : U64) : Prop where
  rem_eq : rem.toNat = num.toNat / 2 ^ n % den.toNat
  quot_eq : q.toNat = num.toNat / 2 ^ n / den.toNat * 2 ^ n

theorem toNat_newBit (num : U128) {i : Nat} (hi : i < 128) :
    ((if i ≥ 64 then num.hi >>> (i - 64) else num.lo >>> i) &&& 1).toNat =
      num.toNat / 2 ^ i % 2 := by
  rw [BitVec.toNat_and, show (1 : U64).toNat = 1 from rfl, Nat.and_one_is_mod]
  by_cases hge : i ≥ 64
  · obtain ⟨k, rfl⟩ : ∃ k, i = 64 + k := ⟨i - 64, by omega⟩
    rw [if_pos hge, toNat_ushiftRight_div, Nat.add_sub_cancel_left, Nat.pow_add,
      ← Nat.div_div_eq_div_mul, U128.toNat_div]
  · have hdvd : 2 ^ (i + 1) ∣ 2 ^ 64 := Nat.pow_dvd_pow 2 (by omega)
    have hmod : num.toNat % 2 ^ (i + 1) = num.lo.toNat % 2 ^ (i + 1) := by
      rw [← Nat.mod_mod_of_dvd num.toNat hdvd, U128.toNat_mod]
    have hbit : ∀ x : Nat, x / 2 ^ i % 2 = x % 2 ^ (i + 1) / 2 ^ i := by
      intro x
      rw [Nat.pow_succ, Nat.mod_mul_right_div_self]
    rw [if_neg hge, toNat_ushiftRight_div, hbit, hbit, hmod]

/-- A remainder moved up by one, its top bit leaving the word. -/
theorem toNat_double_or {x y : U64} (hy : y.toNat < 2) :
    (x <<< 1 ||| y).toNat = x.toNat * 2 % 2 ^ 64 + y.toNat := by
  have hx := x.isLt
  have hhalf : x.toNat * 2 % 2 ^ 64 = (x.toNat % 2 ^ 63) <<< 1 := by
    rw [Nat.shiftLeft_eq]
    omega
  rw [BitVec.toNat_or, BitVec.toNat_shiftLeft, Nat.shiftLeft_eq, Nat.pow_one, hhalf,
    ← Nat.shiftLeft_add_eq_or_of_lt (by omega)]

/-- Setting a bit below all the set ones. -/
theorem toNat_setBit_below {q : U64} {n i : Nat} (hq : q.toNat = n * 2 ^ (i + 1)) (hi : i < 64) :
    (q ||| (1#64 <<< i)).toNat = (2 * n + 1) * 2 ^ i := by
  have hbit := toNat_one_shiftLeft hi
  have hlt : 2 ^ i < 2 ^ (i + 1) := Nat.pow_lt_pow_right (by omega) (by omega)
  rw [BitVec.toNat_or, hbit, hq, ← Nat.shiftLeft_eq, ← Nat.shiftLeft_add_eq_or_of_lt hlt,
    Nat.shiftLeft_eq]
  ring

/-- Halving the place value: the quotient and remainder of a number one bit longer. -/
theorem div_mod_append_bit (m d b : Nat) (hd : 0 < d) (hb : b < 2) :
    (2 * m + b) / d = 2 * (m / d) + (if d ≤ 2 * (m % d) + b then 1 else 0) ∧
    (2 * m + b) % d = 2 * (m % d) + b - (if d ≤ 2 * (m % d) + b then d else 0) := by
  have hdiv := Nat.div_add_mod m d
  have hmod := Nat.mod_lt m hd
  generalize m / d = q at *
  generalize m % d = r at *
  have hassoc : d * (2 * q) = 2 * (d * q) := by ring
  have hassoc' : d * (2 * q + 1) = 2 * (d * q) + d := by ring
  by_cases hfits : d ≤ 2 * r + b
  · rw [if_pos hfits, if_pos hfits]
    exact (Nat.div_mod_unique hd).mpr ⟨by omega, by omega⟩
  · rw [if_neg hfits, if_neg hfits, Nat.add_zero, Nat.sub_zero]
    exact (Nat.div_mod_unique hd).mpr ⟨by omega, by omega⟩

/-- The number that round `i` compares with the divisor: the remainder with the next bit of the
numerator below it, which may take 65 bits. -/
def partialRemainder (num : U128) (i : Nat) (rem : U64) : Nat :=
  2 * rem.toNat + num.toNat / 2 ^ i % 2

/-- The word that is left of it in 64 bits. -/
def shiftedRemainder (num : U128) (i : Nat) (rem : U64) : U64 :=
  (rem <<< 1) ||| ((if i ≥ 64 then num.hi >>> (i - 64) else num.lo >>> i) &&& 1)

/-- The test of a round: the top bit went out, or the word holds the divisor. -/
def div128Takes (num : U128) (den : U64) (i : Nat) (rem : U64) : Bool :=
  (rem &&& (1#64 <<< 63)) != 0 || den.ule (shiftedRemainder num i rem)

theorem div128Step_eq (num : U128) (den : U64) (i : Nat) (q rem : U64) :
    div128Step num den i q rem =
      if div128Takes num den i rem then
        (if i < 64 then q ||| (1#64 <<< i) else q, shiftedRemainder num i rem - den)
      else (q, shiftedRemainder num i rem) :=
  rfl

theorem toNat_shiftedRemainder (num : U128) {i : Nat} (hi : i < 128) (rem : U64) :
    (shiftedRemainder num i rem).toNat = partialRemainder num i rem % 2 ^ 64 := by
  have hbit := toNat_newBit num hi
  have hrem := rem.isLt
  rw [shiftedRemainder, toNat_double_or (by omega), hbit, partialRemainder]
  omega

/-- With its top bit out the partial remainder is above every divisor, and else it is the word. -/
theorem div128Takes_iff (num : U128) (den : U64) {i : Nat} (hi : i < 128) (rem : U64) :
    div128Takes num den i rem = true ↔ den.toNat ≤ partialRemainder num i rem := by
  have hden := den.isLt
  have hrem := rem.isLt
  have hword := toNat_shiftedRemainder num hi rem
  have hle : den.ule (shiftedRemainder num i rem) =
      decide (den.toNat ≤ (shiftedRemainder num i rem).toNat) := rfl
  rw [div128Takes, Bool.or_eq_true, top_ne_zero_iff, hle, decide_eq_true_eq, hword]
  unfold partialRemainder
  omega

/-- A round takes the divisor from the partial remainder when it is in it, and says so in the
quotient. -/
structure DivRound (num : U128) (den : U64) (i : Nat) (q rem : U64) : Prop where
  compares : div128Takes num den i rem = true ↔ den.toNat ≤ partialRemainder num i rem
  rem_eq : (div128Step num den i q rem).2.toNat =
    partialRemainder num i rem - (if div128Takes num den i rem then den.toNat else 0)
  quot_eq : (div128Step num den i q rem).1.toNat =
    q.toNat + (if div128Takes num den i rem then 2 ^ i else 0)

section Rounds

variable {num : U128} {den : U64} {i : Nat} {q rem : U64}

/-- The numerator down to bit `i`, over the divisor. -/
theorem DivDone.next (h : DivDone num den (i + 1) q rem) (hden : 0 < den.toNat) :
    num.toNat / 2 ^ i / den.toNat = 2 * (num.toNat / 2 ^ (i + 1) / den.toNat) +
        (if den.toNat ≤ partialRemainder num i rem then 1 else 0) ∧
      num.toNat / 2 ^ i % den.toNat = partialRemainder num i rem -
        (if den.toNat ≤ partialRemainder num i rem then den.toNat else 0) := by
  have hbit : num.toNat / 2 ^ i % 2 < 2 := Nat.mod_lt _ Nat.two_pos
  have hm : num.toNat / 2 ^ i = 2 * (num.toNat / 2 ^ (i + 1)) + num.toNat / 2 ^ i % 2 := by
    rw [Nat.pow_succ, ← Nat.div_div_eq_div_mul]
    omega
  have hdivmod := div_mod_append_bit (num.toNat / 2 ^ (i + 1)) den.toNat _ hden hbit
  rw [← hm, ← h.rem_eq] at hdivmod
  exact hdivmod

/-- A round of the loop is right, and a divisor is only found in the lower half. -/
theorem DivDone.round (h : DivDone num den (i + 1) q rem) (hi : i < 128)
    (hfits : num.hi.toNat < den.toNat) : DivRound num den i q rem := by
  have hden : 0 < den.toNat := by omega
  have htakes := div128Takes_iff num den hi rem
  have hword := toNat_shiftedRemainder num hi rem
  obtain ⟨hdiv, hmod⟩ := h.next hden
  have hdlt := den.isLt
  have hrlt := Nat.mod_lt (num.toNat / 2 ^ i) hden
  have hhigh : 64 ≤ i → num.toNat / 2 ^ i / den.toNat = 0 := by
    intro hge
    apply Nat.div_eq_of_lt
    apply lt_of_le_of_lt _ hfits
    rw [← U128.toNat_div]
    exact Nat.div_le_div_left (Nat.pow_le_pow_right (by omega) hge) (by omega)
  by_cases hfit : den.toNat ≤ partialRemainder num i rem
  · have htake := htakes.mpr hfit
    rw [if_pos hfit] at hdiv hmod
    have hi64 : i < 64 := by
      by_contra hge
      rw [hhigh (by omega)] at hdiv
      omega
    refine ⟨htakes, ?_, ?_⟩
    · rw [div128Step_eq, if_pos htake, if_pos htake, BitVec.toNat_sub, hword]
      omega
    · rw [div128Step_eq, if_pos htake, if_pos htake]
      dsimp only
      rw [if_pos hi64, toNat_setBit_below h.quot_eq hi64, h.quot_eq]
      ring
  · have hleft : ¬ div128Takes num den i rem = true := fun htake => hfit (htakes.mp htake)
    refine ⟨htakes, ?_, ?_⟩
    · rw [div128Step_eq, if_neg hleft, if_neg hleft, hword]
      omega
    · rw [div128Step_eq, if_neg hleft, if_neg hleft]
      rfl

theorem DivDone.step (h : DivDone num den (i + 1) q rem) (hi : i < 128)
    (hfits : num.hi.toNat < den.toNat) :
    DivDone num den i (div128Step num den i q rem).1 (div128Step num den i q rem).2 := by
  obtain ⟨hcompares, hrem, hquot⟩ := h.round hi hfits
  obtain ⟨hdiv, hmod⟩ := h.next (by omega)
  simp only [hcompares] at hrem hquot
  constructor
  · rw [hrem, hmod]
  · rw [hquot, hdiv, h.quot_eq]
    by_cases hfit : den.toNat ≤ partialRemainder num i rem
    · rw [if_pos hfit, if_pos hfit]
      ring
    · rw [if_neg hfit, if_neg hfit]
      ring

/-- The loop comes to the rounds below `n` with a quotient and a remainder. -/
inductive DivReaches (num : U128) (den : U64) : Nat → U64 → U64 → Prop where
  | start : DivReaches num den 128 0 0
  | round {i : Nat} {q rem : U64} : DivReaches num den (i + 1) q rem →
    DivReaches num den i (div128Step num den i q rem).1 (div128Step num den i q rem).2

theorem DivReaches.loop {n : Nat} (h : DivReaches num den n q rem) :
    DivReaches num den 0 (div128Loop num den n q rem).1 (div128Loop num den n q rem).2 := by
  induction n generalizing q rem with
  | zero => exact h
  | succ i ih => exact ih h.round

/-- Before every round the numerator's upper part is divided. -/
theorem DivReaches.done {n : Nat} (h : DivReaches num den n q rem)
    (hfits : num.hi.toNat < den.toNat) : n ≤ 128 ∧ DivDone num den n q rem := by
  induction h with
  | start =>
      have hzero : num.toNat / 2 ^ 128 = 0 := Nat.div_eq_of_lt num.toNat_lt
      refine ⟨le_refl _, ?_, ?_⟩
      · rw [hzero, Nat.zero_mod]
        rfl
      · rw [hzero, Nat.zero_div, Nat.zero_mul]
        rfl
  | round _ ih => exact ⟨by omega, ih.2.step (by omega) hfits⟩

end Rounds

/-- The long division divides. -/
theorem div128By64_eq {num : U128} {den : U64} (hfits : num.hi.toNat < den.toNat) :
    (div128By64 num den).1.toNat = num.toNat / den.toNat ∧
    (div128By64 num den).2.toNat = num.toNat % den.toNat := by
  obtain ⟨-, hrem, hquot⟩ := DivReaches.start.loop.done hfits
  rw [Nat.pow_zero, Nat.div_one] at hrem hquot
  rw [Nat.mul_one] at hquot
  exact ⟨hquot, hrem⟩

end PicoCpu
