import Mathlib.Data.Int.Log
import Mathlib.Data.Nat.Bitwise
import Mathlib.Order.Compare
import Mathlib.Algebra.Order.Floor.Ring
import Mathlib.Tactic.Linarith
import Mathlib.Tactic.Ring
import Mathlib.Tactic.FieldSimp
import Mathlib.Tactic.NormNum
import Mathlib.Tactic.Push

/-!
Round-to-nearest-even of an exact value to a fixed number of significant bits, and the sticky
bits by which an implementation reaches it. What an implementation holds need not be the exact
value: it is enough that both fall in the same place between the multiples of the rounding
half step, which is how a shift that jams the lost bits into the last one is justified.
-/

namespace PicoCpu.NearestEven

variable {K : Type*} [Field K] [LinearOrder K]

/-! ### Falling in the same place -/

/-- `x` and `y` compare alike with every multiple of the step `d`: they are the same multiple,
or lie strictly between the same two. -/
def Together (d x y : K) : Prop :=
  ∀ k : ℤ, (k * d < x ↔ k * d < y) ∧ (x < k * d ↔ y < k * d)

theorem Together.refl (d x : K) : Together d x x := by
  intro k
  exact ⟨Iff.rfl, Iff.rfl⟩

theorem Together.trans {d x y z : K} (hxy : Together d x y) (hyz : Together d y z) :
    Together d x z := by
  intro k
  exact ⟨(hxy k).1.trans (hyz k).1, (hxy k).2.trans (hyz k).2⟩

/-- A coarser step tells no more apart. -/
theorem Together.coarsen {d x y : K} (h : Together d x y) (n : ℤ) : Together (n * d) x y := by
  intro k
  have hk := h (k * n)
  rw [Int.cast_mul, mul_assoc] at hk
  exact hk

theorem Together.pos_iff {d x y : K} (h : Together d x y) : 0 < x ↔ 0 < y := by
  simpa using (h 0).1

theorem Together.neg_iff {d x y : K} (h : Together d x y) : x < 0 ↔ y < 0 := by
  simpa using (h 0).2

theorem Together.le_iff {d x y : K} (h : Together d x y) (k : ℤ) : k * d ≤ x ↔ k * d ≤ y := by
  rw [← not_lt, ← not_lt]
  exact not_congr (h k).2

theorem Together.cmp_eq {d x y : K} (h : Together d x y) (k : ℤ) :
    cmp x (k * d) = cmp y (k * d) := by
  obtain ⟨hbelow, habove⟩ := h k
  rcases lt_trichotomy x (k * d) with hlt | heq | hgt
  · rw [(cmp_eq_lt_iff ..).mpr hlt, (cmp_eq_lt_iff ..).mpr (habove.mp hlt)]
  · have hge : ¬ y < k * d := fun hy => (habove.mpr hy).ne heq
    have hle : ¬ k * d < y := fun hy => (hbelow.mpr hy).ne' heq
    have hy : y = k * d := le_antisymm (not_lt.mp hle) (not_lt.mp hge)
    rw [(cmp_eq_eq_iff ..).mpr heq, (cmp_eq_eq_iff ..).mpr hy]
  · rw [(cmp_eq_gt_iff ..).mpr hgt, (cmp_eq_gt_iff ..).mpr (hbelow.mp hgt)]

section Ordered

variable [IsStrictOrderedRing K]

theorem Together.scale {d x y : K} (h : Together d x y) {c : K} (hc : 0 < c) :
    Together (d * c) (x * c) (y * c) := by
  intro k
  rw [← mul_assoc, mul_lt_mul_iff_left₀ hc, mul_lt_mul_iff_left₀ hc, mul_lt_mul_iff_left₀ hc,
    mul_lt_mul_iff_left₀ hc]
  exact h k

theorem Together.div {d x y : K} (h : Together d x y) {c : K} (hc : 0 < c) :
    Together (d / c) (x / c) (y / c) := by
  rw [div_eq_mul_inv, div_eq_mul_inv, div_eq_mul_inv]
  exact h.scale (inv_pos.mpr hc)

/-- Adding the same multiple of the step to both. -/
theorem Together.add {d x y : K} (h : Together d x y) (n : ℤ) :
    Together d (n * d + x) (n * d + y) := by
  intro k
  have hk := h (k - n)
  rw [Int.cast_sub, sub_mul] at hk
  constructor
  · rw [← sub_lt_iff_lt_add', ← sub_lt_iff_lt_add']
    exact hk.1
  · rw [← lt_sub_iff_add_lt', ← lt_sub_iff_add_lt']
    exact hk.2

/-- Subtracting both from the same multiple of the step. -/
theorem Together.sub {d x y : K} (h : Together d x y) (n : ℤ) :
    Together d (n * d - x) (n * d - y) := by
  intro k
  have hk := h (n - k)
  rw [Int.cast_sub, sub_mul] at hk
  constructor
  · rw [lt_sub_comm, lt_sub_comm (b := (n : K) * d) (c := y)]
    exact hk.2
  · rw [sub_lt_comm, sub_lt_comm (b := y)]
    exact hk.1

theorem Together.neg {d x y : K} (h : Together d x y) : Together d (-x) (-y) := by
  have hsub := h.sub 0
  simpa using hsub

/-- The magnitudes stay together. -/
theorem Together.abs {d x y : K} (h : Together d x y) : Together d |x| |y| := by
  rcases lt_or_ge x 0 with hneg | hnonneg
  · rw [abs_of_neg hneg, abs_of_neg (h.neg_iff.mp hneg)]
    exact h.neg
  · have hy : 0 ≤ y := not_lt.mp (fun hlt => not_lt.mpr hnonneg (h.neg_iff.mpr hlt))
    rw [abs_of_nonneg hnonneg, abs_of_nonneg hy]
    exact h

/-! ### Quotients and sticky bits -/

theorem mul_lt_natCast_iff (k : ℤ) (d v : ℕ) :
    ((k : K) * (d : K) < (v : K)) ↔ k * (d : ℤ) < (v : ℤ) := by
  have hcast : ((k * (d : ℤ) : ℤ) : K) = (k : K) * (d : K) := by push_cast; rfl
  rw [← hcast, ← Int.cast_natCast v, Int.cast_lt]

theorem natCast_lt_mul_iff (k : ℤ) (d v : ℕ) :
    ((v : K) < (k : K) * (d : K)) ↔ (v : ℤ) < k * (d : ℤ) := by
  have hcast : ((k * (d : ℤ) : ℤ) : K) = (k : K) * (d : K) := by push_cast; rfl
  rw [← hcast, ← Int.cast_natCast v, Int.cast_lt]

theorem mul_lt_iff_quotient (k : ℤ) (v n : ℕ) (hn : 0 < n) :
    k * (n : ℤ) < v ↔ k < (v / n : ℕ) ∨ (k = (v / n : ℕ) ∧ v % n ≠ 0) := by
  have hdiv := Nat.div_add_mod v n
  have hmod := Nat.mod_lt v hn
  generalize v / n = q at *
  generalize v % n = r at *
  subst hdiv
  push_cast
  constructor
  · intro hlt
    rcases lt_trichotomy k q with h | h | h
    · exact Or.inl h
    · subst h
      have hr : (0 : ℤ) < r := by linarith [mul_comm (q : ℤ) (n : ℤ)]
      exact Or.inr ⟨rfl, by omega⟩
    · exfalso
      nlinarith
  · rintro (h | ⟨rfl, h⟩)
    · nlinarith
    · have hr : (0 : ℤ) < r := by omega
      linarith [mul_comm (q : ℤ) (n : ℤ)]

theorem lt_mul_iff_quotient (k : ℤ) (v n : ℕ) (hn : 0 < n) :
    (v : ℤ) < k * n ↔ ((v / n : ℕ) : ℤ) < k := by
  have hdiv := Nat.div_add_mod v n
  have hmod := Nat.mod_lt v hn
  generalize v / n = q at *
  generalize v % n = r at *
  subst hdiv
  push_cast
  constructor
  · intro hlt
    by_contra hle
    nlinarith
  · intro hlt
    nlinarith

/-- A quotient carried out to an integer, with anything strictly between standing for a nonzero
remainder, keeps the place of the exact quotient. -/
theorem together_quotient (v n d t : ℕ) (hn : 0 < n)
    (hexact : v % n = 0 → t = v / n * d)
    (hlost : v % n ≠ 0 → v / n * d < t ∧ t < (v / n + 1) * d) :
    Together (d : K) (t : K) ((v : K) / n * d) := by
  intro k
  rcases Nat.eq_zero_or_pos d with rfl | hd
  · have ht : t = 0 := by
      by_cases hr : v % n = 0
      · rw [hexact hr, Nat.mul_zero]
      · have hlt := (hlost hr).2
        omega
    simp [ht]
  · have hdK : (0 : K) < d := by exact_mod_cast hd
    have hnK : (0 : K) < n := by exact_mod_cast hn
    have hdZ : (0 : ℤ) < d := by exact_mod_cast hd
    rw [mul_lt_mul_iff_left₀ hdK, mul_lt_mul_iff_left₀ hdK, lt_div_iff₀ hnK, div_lt_iff₀ hnK,
      mul_lt_natCast_iff, natCast_lt_mul_iff, mul_lt_natCast_iff, natCast_lt_mul_iff,
      mul_lt_iff_quotient k v n hn, lt_mul_iff_quotient k v n hn]
    by_cases hr : v % n = 0
    · rw [hexact hr]
      push_cast
      rw [mul_lt_mul_iff_left₀ hdZ, mul_lt_mul_iff_left₀ hdZ]
      simp [hr]
    · obtain ⟨hlow, hhigh⟩ := hlost hr
      have hlowZ : ((v / n : ℕ) : ℤ) * d < t := by exact_mod_cast hlow
      have hhighZ : (t : ℤ) < (((v / n : ℕ) : ℤ) + 1) * d := by exact_mod_cast hhigh
      generalize ((v / n : ℕ) : ℤ) = q at *
      constructor
      · constructor
        · intro hlt
          have hk : k < q + 1 := lt_of_mul_lt_mul_right (hlt.trans hhighZ) hdZ.le
          rcases lt_or_eq_of_le (Int.lt_add_one_iff.mp hk) with h | h
          · exact Or.inl h
          · exact Or.inr ⟨h, hr⟩
        · intro hk
          have hle : k ≤ q := by omega
          exact lt_of_le_of_lt (mul_le_mul_of_nonneg_right hle hdZ.le) hlowZ
      · constructor
        · intro hlt
          exact lt_of_mul_lt_mul_right (hlowZ.trans hlt) hdZ.le
        · intro hk
          exact lt_of_lt_of_le hhighZ (mul_le_mul_of_nonneg_right hk hdZ.le)

/-- The quotient by `2 ^ n`, its last bit set when a nonzero remainder was lost. -/
def sticky (v n : ℕ) : ℕ := v / 2 ^ n ||| (if v % 2 ^ n = 0 then 0 else 1)

theorem or_one_eq (q : ℕ) : q ||| 1 = 2 * (q / 2) + 1 := by
  apply Nat.eq_of_testBit_eq
  intro i
  cases i with
  | zero => simp [Nat.testBit_zero]
  | succ i =>
      have hhalf : (2 * (q / 2) + 1) / 2 = q / 2 := by omega
      rw [Nat.testBit_or, Nat.testBit_succ, Nat.testBit_succ, Nat.testBit_succ, hhalf]
      simp

theorem sticky_of_mod_eq_zero {v n : ℕ} (h : v % 2 ^ n = 0) : sticky v n = v / 2 ^ n := by
  simp [sticky, h]

theorem sticky_of_mod_ne_zero {v n : ℕ} (h : v % 2 ^ n ≠ 0) :
    sticky v n = 2 * (v / 2 ^ n / 2) + 1 := by
  rw [sticky, if_neg h, or_one_eq]

/-- Jamming the lost bits keeps the place of the exact quotient between the even numbers. -/
theorem together_sticky (v n : ℕ) :
    Together (2 : K) (sticky v n : K) ((v : K) / 2 ^ n) := by
  have hpow : 0 < 2 ^ n := Nat.two_pow_pos n
  have hdouble : v / (2 ^ n * 2) = v / 2 ^ n / 2 := (Nat.div_div_eq_div_mul v (2 ^ n) 2).symm
  have hmod : v % (2 ^ n * 2) = v % 2 ^ n + 2 ^ n * (v / 2 ^ n % 2) := Nat.mod_mul
  have hparity := Nat.mod_two_eq_zero_or_one (v / 2 ^ n)
  have hquot := together_quotient (K := K) v (2 ^ n * 2) 2 (sticky v n) (by omega)
    (by
      intro hzero
      rw [hmod] at hzero
      have hlow : v % 2 ^ n = 0 := by omega
      have heven : v / 2 ^ n % 2 = 0 := by
        rcases hparity with h | h
        · exact h
        · rw [h] at hzero
          omega
      rw [sticky_of_mod_eq_zero hlow, hdouble]
      omega)
    (by
      intro hne
      rw [hmod] at hne
      rw [hdouble]
      by_cases hlow : v % 2 ^ n = 0
      · have hodd : v / 2 ^ n % 2 = 1 := by
          rcases hparity with h | h
          · rw [h, hlow] at hne
            omega
          · exact h
        rw [sticky_of_mod_eq_zero hlow]
        omega
      · rw [sticky_of_mod_ne_zero hlow]
        omega)
  have hvalue : (v : K) / ((2 ^ n * 2 : ℕ) : K) * ((2 : ℕ) : K) = (v : K) / 2 ^ n := by
    push_cast
    field_simp
  rw [hvalue] at hquot
  exact_mod_cast hquot

end Ordered

/-! ### Rounding -/

variable [IsStrictOrderedRing K] [FloorRing K]

/-- The nearest integer, a tie going to the even one. -/
def roundEven (x : K) : ℤ :=
  if Int.fract x < 1 / 2 then ⌊x⌋
  else if 1 / 2 < Int.fract x then ⌊x⌋ + 1
  else if ⌊x⌋ % 2 = 0 then ⌊x⌋ else ⌊x⌋ + 1

/-- A positive value rounded to `p` significant bits, whatever its exponent. -/
def roundTo (p : ℕ) (x : K) : K :=
  roundEven (x / 2 ^ (Int.log 2 x - (p - 1))) * 2 ^ (Int.log 2 x - (p - 1))

theorem Together.floor_eq {d x y : K} (h : Together d x y) (hd : 0 < d) : ⌊x / d⌋ = ⌊y / d⌋ := by
  apply le_antisymm
  · rw [Int.le_floor, le_div_iff₀ hd, ← h.le_iff, ← le_div_iff₀ hd]
    exact Int.floor_le _
  · rw [Int.le_floor, le_div_iff₀ hd, h.le_iff, ← le_div_iff₀ hd]
    exact Int.floor_le _

/-- Rounding to a multiple of twice the step only asks where a value lies between multiples of
the step. -/
theorem Together.roundEven_eq {d x y : K} (h : Together d x y) (hd : 0 < d) :
    roundEven (x / (2 * d)) = roundEven (y / (2 * d)) := by
  have h2d : (0 : K) < 2 * d := by linarith
  have hwide : Together (2 * d) x y := by
    have := h.coarsen 2
    simpa using this
  have hfloor := hwide.floor_eq h2d
  have hbelow : Int.fract (x / (2 * d)) < 1 / 2 ↔ Int.fract (y / (2 * d)) < 1 / 2 := by
    have hk := (h (2 * ⌊y / (2 * d)⌋ + 1)).2
    unfold Int.fract
    rw [hfloor, sub_lt_iff_lt_add, sub_lt_iff_lt_add, div_lt_iff₀ h2d, div_lt_iff₀ h2d]
    have hsplit : (1 / 2 + (⌊y / (2 * d)⌋ : K)) * (2 * d) =
        ((2 * ⌊y / (2 * d)⌋ + 1 : ℤ) : K) * d := by
      push_cast; ring
    rw [hsplit]
    exact hk
  have habove : 1 / 2 < Int.fract (x / (2 * d)) ↔ 1 / 2 < Int.fract (y / (2 * d)) := by
    have hk := (h (2 * ⌊y / (2 * d)⌋ + 1)).1
    unfold Int.fract
    rw [hfloor, lt_sub_iff_add_lt, lt_sub_iff_add_lt, lt_div_iff₀ h2d, lt_div_iff₀ h2d]
    have hsplit : (1 / 2 + (⌊y / (2 * d)⌋ : K)) * (2 * d) =
        ((2 * ⌊y / (2 * d)⌋ + 1 : ℤ) : K) * d := by
      push_cast; ring
    rw [hsplit]
    exact hk
  unfold roundEven
  simp only [hbelow, habove, hfloor]

/-- The logarithm of a positive value is the exponent of its binade. -/
theorem log_of_binade {x : K} {e : ℤ} (hlow : (2 : K) ^ e ≤ x) (hhigh : x < 2 ^ (e + 1)) :
    Int.log 2 x = e := by
  have hpos : 0 < x := lt_of_lt_of_le (zpow_pos (by norm_num) e) hlow
  apply le_antisymm
  · have hlt := (Int.lt_zpow_iff_log_lt (b := 2) (by norm_num) (x := e + 1) hpos).mp
      (by exact_mod_cast hhigh)
    omega
  · exact (Int.zpow_le_iff_le_log (b := 2) (by norm_num) hpos).mp (by exact_mod_cast hlow)

/-- The binade of a positive value fixes the step `roundTo` rounds to. -/
theorem roundTo_eq (p : ℕ) {x : K} {e : ℤ} (hlow : (2 : K) ^ e ≤ x) (hhigh : x < 2 ^ (e + 1)) :
    roundTo p x = roundEven (x / 2 ^ (e - (p - 1))) * 2 ^ (e - (p - 1)) := by
  rw [roundTo, log_of_binade hlow hhigh]

theorem roundEven_intCast (n : ℤ) : roundEven (n : K) = n := by
  rw [roundEven, Int.fract_intCast, if_pos (by norm_num), Int.floor_intCast]

/-- Rounding a natural number to a multiple of `2 ^ s` reads the quotient and the remainder. -/
theorem roundEven_natCast_div (m s : ℕ) :
    roundEven ((m : K) / 2 ^ s) =
      if 2 * (m % 2 ^ s) < 2 ^ s then ((m / 2 ^ s : ℕ) : ℤ)
      else if 2 ^ s < 2 * (m % 2 ^ s) then ((m / 2 ^ s : ℕ) : ℤ) + 1
      else if m / 2 ^ s % 2 = 0 then ((m / 2 ^ s : ℕ) : ℤ) else ((m / 2 ^ s : ℕ) : ℤ) + 1 := by
  have hpow : (0 : K) < 2 ^ s := by positivity
  have hcastpow : ((2 ^ s : ℕ) : K) = 2 ^ s := by push_cast; rfl
  have hdiv := Nat.div_add_mod m (2 ^ s)
  have hmod := Nat.mod_lt m (Nat.two_pow_pos s)
  have hm : (m : K) = 2 ^ s * ((m / 2 ^ s : ℕ) : K) + ((m % 2 ^ s : ℕ) : K) := by
    rw [← hcastpow]
    exact_mod_cast hdiv.symm
  have hfloor : ⌊(m : K) / 2 ^ s⌋ = ((m / 2 ^ s : ℕ) : ℤ) := by
    rw [Int.floor_eq_iff, Int.cast_natCast, le_div_iff₀ hpow, div_lt_iff₀ hpow, hm]
    have hr : ((m % 2 ^ s : ℕ) : K) < 2 ^ s := by
      rw [← hcastpow]
      exact_mod_cast hmod
    have hr0 : (0 : K) ≤ ((m % 2 ^ s : ℕ) : K) := Nat.cast_nonneg _
    constructor
    · linarith [mul_comm ((m / 2 ^ s : ℕ) : K) (2 ^ s)]
    · linarith [add_mul ((m / 2 ^ s : ℕ) : K) 1 (2 ^ s), mul_comm ((m / 2 ^ s : ℕ) : K) (2 ^ s)]
  have hfract : Int.fract ((m : K) / 2 ^ s) = ((m % 2 ^ s : ℕ) : K) / 2 ^ s := by
    unfold Int.fract
    rw [hfloor, Int.cast_natCast, hm]
    field_simp
    ring
  have hbelow : Int.fract ((m : K) / 2 ^ s) < 1 / 2 ↔ 2 * (m % 2 ^ s) < 2 ^ s := by
    rw [hfract, div_lt_div_iff₀ hpow (by norm_num), one_mul, mul_comm, ← hcastpow]
    exact_mod_cast Iff.rfl
  have habove : 1 / 2 < Int.fract ((m : K) / 2 ^ s) ↔ 2 ^ s < 2 * (m % 2 ^ s) := by
    rw [hfract, div_lt_div_iff₀ (by norm_num) hpow, one_mul, mul_comm _ (2 : K), ← hcastpow]
    exact_mod_cast Iff.rfl
  unfold roundEven
  simp only [hbelow, habove, hfloor]
  have hparity : ((m / 2 ^ s : ℕ) : ℤ) % 2 = 0 ↔ m / 2 ^ s % 2 = 0 := by omega
  simp only [hparity]

/-! ### Remainders -/

/-- What a division by `m` leaves of `x`. -/
def modulo (m x : K) : K := x - ⌊x / m⌋ * m

/-- Values in the same place leave remainders in the same place. -/
theorem Together.modulo {d x y : K} (h : Together d x y) (hd : 0 < d) {n : ℤ} (hn : 0 < n) :
    Together d (modulo (n * d) x) (modulo (n * d) y) := by
  have hpos : 0 < (n : K) * d := mul_pos (Int.cast_pos.mpr hn) hd
  have hfloor := (h.coarsen n).floor_eq hpos
  have hform (z : K) (q : ℤ) : z - (q : K) * (n * d) = ((-(q * n) : ℤ) : K) * d + z := by
    push_cast
    ring
  rw [NearestEven.modulo, NearestEven.modulo, hfloor, hform, hform]
  exact h.add _

theorem modulo_natCast (m a : ℕ) : modulo (m : K) (a : K) = ((a % m : ℕ) : K) := by
  have hdiv : ((m * (a / m) + a % m : ℕ) : K) = (a : K) := by rw [Nat.div_add_mod]
  have hfloor : ⌊(a : K) / m⌋ = ((a / m : ℕ) : ℤ) := by
    rw [Int.floor_div_natCast, Int.floor_natCast]
    rfl
  rw [modulo, hfloor, ← hdiv, Int.cast_natCast]
  push_cast
  ring

end PicoCpu.NearestEven
