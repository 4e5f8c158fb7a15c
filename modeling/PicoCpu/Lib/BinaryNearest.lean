import PicoCpu.Lib.BinaryOrder
import PicoCpu.Lib.NearestEven

/-!
Rounding to a binary format: the pattern nearest to a rational that is not negative, a tie going to
the even one, and infinity from half a unit above the largest finite number.
-/

namespace PicoCpu.BinaryFormat.Format

open NearestEven

variable {F : Format} {x : ℚ} {n k : ℕ} {q : ℤ}

/-- The exponent of the last bit of the subnormal numbers. -/
def leastScale (F : Format) : ℤ := 1 - F.bias - F.fraction

/-- The exponent of the last bit that is kept of a positive rational. -/
def quantum (F : Format) (x : ℚ) : ℤ := max (Int.log 2 x - F.fraction) F.leastScale

/-- The nearest pattern: patterns are numbered as the multiples of their last bits. -/
def nearest (F : Format) (x : ℚ) : ℕ :=
  if x = 0 then 0
  else min ((F.quantum x - F.leastScale).toNat * 2 ^ F.fraction + (roundEven (x / 2 ^ F.quantum x)).toNat)
    (F.top * 2 ^ F.fraction)

theorem nearest_le (F : Format) (x : ℚ) : F.nearest x ≤ F.top * 2 ^ F.fraction := by
  unfold nearest
  split
  · exact Nat.zero_le _
  · exact min_le_right _ _

/-! ### Numbers below infinity -/

/-- The pattern numbered `d` steps of a binade and `k` last bits has the magnitude of the latter. -/
theorem magnitude_number {d : ℕ} (hk : k ≤ 2 ^ (F.fraction + 1)) (hd : d = 0 ∨ 2 ^ F.fraction ≤ k)
    (hlt : d * 2 ^ F.fraction + k < F.top * 2 ^ F.fraction) :
    F.magnitude (d * 2 ^ F.fraction + k) = k * 2 ^ (F.leastScale + d) := by
  have hpos := Nat.two_pow_pos F.fraction
  have htop : F.top < 2 ^ F.exponent := Nat.sub_lt (Nat.two_pow_pos _) Nat.one_pos
  rw [Nat.pow_succ] at hk
  have hfields {e m : ℕ} (he : e < F.top) (hm : m < 2 ^ F.fraction) :
      F.magnitude (e * 2 ^ F.fraction + m) = ((if e = 0 then m else 2 ^ F.fraction + m : ℕ) : ℚ) *
        2 ^ (max 1 (e : ℤ) - F.bias - F.fraction) := by
    rw [← magnitude_pattern (s := false) (he.trans htop) hm, pattern, if_neg Bool.false_ne_true,
      Nat.zero_add]
  have hbelow {e : ℕ} (h : e * 2 ^ F.fraction ≤ d * 2 ^ F.fraction + k) : e < F.top :=
    Nat.lt_of_mul_lt_mul_right (h.trans_lt hlt)
  rcases Nat.lt_or_ge k (2 ^ F.fraction) with hlow | hhigh
  · -- No leading one: the subnormal numbers.
    obtain rfl := hd.resolve_right (Nat.not_le.mpr hlow)
    rw [hfields (hbelow (by omega)) hlow, if_pos rfl, leastScale]
    norm_num
  · rcases Nat.eq_or_lt_of_le hk with hk | hk
    · -- All ones were rounded up, into the next binade.
      subst hk
      have hsum : d * 2 ^ F.fraction + 2 ^ F.fraction * 2 = (d + 2) * 2 ^ F.fraction + 0 := by ring
      rw [hsum, hfields (hbelow (by rw [hsum]; omega)) hpos, if_neg (by omega),
        max_eq_right (by omega), leastScale]
      have hscale : ((d + 2 : ℕ) : ℤ) - F.bias - F.fraction =
          1 - F.bias - F.fraction + d + 1 := by
        push_cast
        ring
      rw [hscale, zpow_add_one₀ (by norm_num)]
      push_cast
      ring
    · obtain ⟨m, rfl⟩ := Nat.exists_eq_add_of_le hhigh
      have hsum : d * 2 ^ F.fraction + (2 ^ F.fraction + m) = (d + 1) * 2 ^ F.fraction + m := by ring
      rw [hsum, hfields (hbelow (by rw [hsum]; omega)) (by omega), if_neg (by omega),
        max_eq_right (by omega), leastScale]
      have hscale : ((d + 1 : ℕ) : ℤ) - F.bias - F.fraction = 1 - F.bias - F.fraction + d := by
        push_cast
        ring
      rw [hscale]

/-! ### What is nearest -/

theorem quantum_of_binade {e : ℤ} (hlow : (2 : ℚ) ^ e ≤ x) (hhigh : x < 2 ^ (e + 1)) :
    F.quantum x = max (e - F.fraction) F.leastScale := by
  rw [quantum, log_of_binade hlow hhigh]

/-- A number of last bits that fits is kept, up to infinity. -/
theorem nearest_of_fits (hlow : 2 ^ F.fraction ≤ k) (hhigh : k ≤ 2 ^ (F.fraction + 1))
    (hq : F.leastScale ≤ q) :
    F.nearest (k * 2 ^ q) =
      min ((q - F.leastScale).toNat * 2 ^ F.fraction + k) (F.top * 2 ^ F.fraction) := by
  have hunit : (0 : ℚ) < 2 ^ q := zpow_pos (by norm_num) _
  have hlowQ : (2 : ℚ) ^ (F.fraction : ℤ) ≤ k := by exact_mod_cast hlow
  have hne : (k : ℚ) * 2 ^ q ≠ 0 := (mul_pos ((zpow_pos (by norm_num) _).trans_le hlowQ) hunit).ne'
  rw [nearest, if_neg hne]
  rcases Nat.eq_or_lt_of_le hhigh with rfl | hlt
  · have hpower : ((2 ^ (F.fraction + 1) : ℕ) : ℚ) * 2 ^ q = 2 ^ ((F.fraction : ℤ) + 1 + q) := by
      rw [zpow_add₀ (by norm_num)]
      norm_cast
    have hquantum : F.quantum (((2 ^ (F.fraction + 1) : ℕ) : ℚ) * 2 ^ q) = q + 1 := by
      rw [hpower, quantum_of_binade (le_refl _) (zpow_lt_zpow_right₀ (by norm_num) (by omega)),
        max_eq_left (by omega)]
      ring
    have hcount : ((2 ^ (F.fraction + 1) : ℕ) : ℚ) * 2 ^ q / 2 ^ (q + 1) =
        ((2 ^ F.fraction : ℤ) : ℚ) := by
      rw [zpow_add_one₀ (by norm_num)]
      push_cast
      field_simp
      ring
    have hstep : (q + 1 - F.leastScale).toNat = (q - F.leastScale).toNat + 1 := by omega
    have htoNat : (2 ^ F.fraction : ℤ).toNat = 2 ^ F.fraction := by
      exact_mod_cast Int.toNat_natCast (2 ^ F.fraction)
    rw [hquantum, hcount, roundEven_intCast, hstep, htoNat]
    congr 1
    ring
  · have hltQ : (k : ℚ) < 2 ^ ((F.fraction : ℤ) + 1) := by exact_mod_cast hlt
    have hquantum : F.quantum ((k : ℚ) * 2 ^ q) = q := by
      have hbottom : (2 : ℚ) ^ ((F.fraction : ℤ) + q) ≤ k * 2 ^ q := by
        rw [zpow_add₀ (by norm_num)]
        exact mul_le_mul_of_nonneg_right hlowQ hunit.le
      have htop : (k : ℚ) * 2 ^ q < 2 ^ ((F.fraction : ℤ) + q + 1) := by
        rw [add_right_comm, zpow_add₀ (by norm_num)]
        exact mul_lt_mul_of_pos_right hltQ hunit
      rw [quantum_of_binade hbottom htop, add_sub_cancel_left, max_eq_left hq]
    have hcount : (k : ℚ) * 2 ^ q / 2 ^ q = ((k : ℤ) : ℚ) := by
      rw [mul_div_cancel_right₀ _ hunit.ne']
      norm_cast
    rw [hquantum, hcount, roundEven_intCast, Int.toNat_natCast]

/-- Below the last bit of the subnormal numbers the excess bits are rounded off. -/
theorem nearest_of_excess {s : ℕ} (hk : k ≠ 0) (hhigh : k ≤ 2 ^ (F.fraction + 1)) (hs : 0 < s) :
    F.nearest (k * 2 ^ (F.leastScale - s)) =
      min (roundEven ((k : ℚ) / 2 ^ s)).toNat (F.top * 2 ^ F.fraction) := by
  have hunit : (0 : ℚ) < 2 ^ (F.leastScale - s) := zpow_pos (by norm_num) _
  have hkQ : (0 : ℚ) < k := by exact_mod_cast Nat.pos_of_ne_zero hk
  have hpos := mul_pos hkQ hunit
  have hbound : (k : ℚ) * 2 ^ (F.leastScale - s) ≤ 2 ^ (F.leastScale + F.fraction) := by
    have hhighQ : (k : ℚ) ≤ 2 ^ ((F.fraction : ℤ) + 1) := by exact_mod_cast hhigh
    calc (k : ℚ) * 2 ^ (F.leastScale - s) ≤ 2 ^ ((F.fraction : ℤ) + 1) * 2 ^ (F.leastScale - s) :=
          mul_le_mul_of_nonneg_right hhighQ hunit.le
      _ = 2 ^ ((F.fraction : ℤ) + 1 + (F.leastScale - s)) := (zpow_add₀ (by norm_num) _ _).symm
      _ ≤ 2 ^ (F.leastScale + F.fraction) := zpow_le_zpow_right₀ (by norm_num) (by omega)
  have hquantum : F.quantum (k * 2 ^ (F.leastScale - s)) = F.leastScale := by
    apply max_eq_right
    have hlog : Int.log 2 ((k : ℚ) * 2 ^ (F.leastScale - s)) ≤ F.leastScale + F.fraction := by
      have hlow := Int.zpow_log_le_self (b := 2) (by norm_num) hpos
      exact (zpow_le_zpow_iff_right₀ (by norm_num)).mp (hlow.trans hbound)
    omega
  have hcount : (k : ℚ) * 2 ^ (F.leastScale - s) / 2 ^ F.leastScale = k / 2 ^ s := by
    rw [zpow_sub₀ (by norm_num), zpow_natCast]
    field_simp
  rw [nearest, if_neg hpos.ne', hquantum, hcount, sub_self, Int.toNat_zero, Nat.zero_mul,
    Nat.zero_add]

/-- An integer is rounded to the last bit of its binade. -/
theorem nearest_natCast {m s : ℕ} (hlow : 2 ^ (F.fraction + s) ≤ m)
    (hhigh : m < 2 ^ (F.fraction + s + 1)) (hs : F.leastScale ≤ s) :
    F.nearest m = min ((s - F.leastScale).toNat * 2 ^ F.fraction + (roundEven ((m : ℚ) / 2 ^ s)).toNat)
      (F.top * 2 ^ F.fraction) := by
  have hlowQ : (2 : ℚ) ^ ((F.fraction + s : ℕ) : ℤ) ≤ m := by exact_mod_cast hlow
  have hhighQ : (m : ℚ) < 2 ^ (((F.fraction + s : ℕ) : ℤ) + 1) := by exact_mod_cast hhigh
  have hne : (m : ℚ) ≠ 0 := ((zpow_pos (by norm_num) _).trans_le hlowQ).ne'
  have hquantum : F.quantum m = s := by
    rw [quantum_of_binade hlowQ hhighQ, max_eq_left (by omega)]
    push_cast
    ring
  rw [nearest, if_neg hne, hquantum, zpow_natCast]

end PicoCpu.BinaryFormat.Format
