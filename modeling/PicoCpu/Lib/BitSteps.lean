import Mathlib.Data.Nat.ModEq
import Mathlib.Logic.Function.Iterate

/-!
Shifts and rotations one bit at a time, on a word and the bit that went out last. A shift by `n` is
`n` steps, whatever the width; what `n` steps come to is proved here.
-/

namespace BitSteps

variable {w : Nat}

/-- A word and a carry. -/
abbrev Carried (w : Nat) : Type := BitVec w × Bool

def shl (s : Carried w) : Carried w := (s.1 <<< 1, s.1.msb)
def shr (s : Carried w) : Carried w := (s.1 >>> 1, s.1.getLsbD 0)
def sar (s : Carried w) : Carried w := (s.1.sshiftRight 1, s.1.getLsbD 0)
def rol (s : Carried w) : Carried w := (s.1.rotateLeft 1, s.1.msb)
def ror (s : Carried w) : Carried w := (s.1.rotateRight 1, s.1.getLsbD 0)

/-- The carry comes in at the bottom. -/
def rcl (s : Carried w) : Carried w := (s.1.shiftConcat s.2, s.1.msb)

/-- The carry comes in at the top. -/
def rcr (s : Carried w) : Carried w := ((BitVec.cons s.2 s.1 >>> 1).setWidth w, s.1.getLsbD 0)

/-! ### Rotations of words -/

theorem getLsbD_rotateRight_mod (x : BitVec w) (r : Nat) {i : Nat} (hi : i < w) :
    (x.rotateRight r).getLsbD i = x.getLsbD ((i + r) % w) := by
  have hr : r % w < w := Nat.mod_lt _ (by omega)
  rw [← Nat.add_mod_mod, BitVec.getLsbD_rotateRight]
  by_cases hlow : i < w - r % w
  · rw [Nat.mod_eq_of_lt (by omega : i + r % w < w), Nat.add_comm]
    simp [hlow]
  · have hmod : (i + r % w) % w = i + r % w - w := by
      rw [Nat.mod_eq_sub_mod (by omega), Nat.mod_eq_of_lt (by omega)]
    have hindex : i - (w - r % w) = i + r % w - w := by omega
    rw [hmod]
    simp [hlow, hi, hindex]

theorem rotateRight_rotateRight (x : BitVec w) (m n : Nat) :
    (x.rotateRight m).rotateRight n = x.rotateRight (m + n) := by
  apply BitVec.eq_of_getLsbD_eq
  intro i hi
  rw [getLsbD_rotateRight_mod _ _ hi, getLsbD_rotateRight_mod _ _ (Nat.mod_lt _ (by omega)),
    getLsbD_rotateRight_mod _ _ hi, Nat.mod_add_mod]
  congr 2
  omega

/-- Which bit a rotation to the left brings to a place. -/
theorem getLsbD_rotateLeft_mod (x : BitVec w) (r : Nat) {j : Nat} (hj : j < w) :
    (x.rotateLeft r).getLsbD ((j + r) % w) = x.getLsbD j := by
  have hr : r % w < w := Nat.mod_lt _ (by omega)
  rw [← Nat.add_mod_mod, BitVec.getLsbD_rotateLeft]
  by_cases hlow : j + r % w < w
  · rw [Nat.mod_eq_of_lt hlow]
    have hge : ¬ j + r % w < r % w := by omega
    simp [hge, hlow]
  · have hmod : (j + r % w) % w = j + r % w - w := by
      rw [Nat.mod_eq_sub_mod (by omega), Nat.mod_eq_of_lt (by omega)]
    have hlt : j + r % w - w < r % w := by omega
    have hindex : w - r % w + (j + r % w - w) = j := by omega
    rw [hmod]
    simp [hlt, hindex]

theorem rotateRight_zero (x : BitVec w) : x.rotateRight 0 = x := by
  apply BitVec.eq_of_getLsbD_eq
  intro i hi
  rw [getLsbD_rotateRight_mod _ _ hi, Nat.add_zero, Nat.mod_eq_of_lt hi]

theorem rotateLeft_zero (x : BitVec w) : x.rotateLeft 0 = x := by
  apply BitVec.eq_of_getLsbD_eq
  intro i hi
  have hsource := getLsbD_rotateLeft_mod x 0 hi
  rw [Nat.add_zero, Nat.mod_eq_of_lt hi] at hsource
  exact hsource

/-- Every place is where some bit goes. -/
theorem exists_add_mod (r : Nat) {i : Nat} (hi : i < w) : ∃ j < w, (j + r) % w = i := by
  have hr : r % w < w := Nat.mod_lt _ (by omega)
  by_cases h : r % w ≤ i
  · refine ⟨i - r % w, by omega, ?_⟩
    rw [← Nat.add_mod_mod, Nat.sub_add_cancel h, Nat.mod_eq_of_lt hi]
  · refine ⟨i + w - r % w, by omega, ?_⟩
    rw [← Nat.add_mod_mod, Nat.sub_add_cancel (by omega), Nat.add_mod_right, Nat.mod_eq_of_lt hi]

theorem rotateLeft_rotateLeft (x : BitVec w) (m n : Nat) :
    (x.rotateLeft m).rotateLeft n = x.rotateLeft (m + n) := by
  apply BitVec.eq_of_getLsbD_eq
  intro i hi
  obtain ⟨k, hk, rfl⟩ := exists_add_mod n hi
  obtain ⟨j, hj, rfl⟩ := exists_add_mod m hk
  have hindex : ((j + m) % w + n) % w = (j + (m + n)) % w := by
    rw [Nat.mod_add_mod, Nat.add_assoc]
  rw [getLsbD_rotateLeft_mod _ _ hk, getLsbD_rotateLeft_mod _ _ hj, hindex,
    getLsbD_rotateLeft_mod _ _ hj]

/-! ### Many steps -/

section Steps

variable (n : Nat) (s : Carried w)

theorem shl_iterate :
    shl^[n] s = (s.1 <<< n, if n = 0 then s.2 else decide (n ≤ w) && s.1.getLsbD (w - n)) := by
  induction n with
  | zero => simp
  | succ n ih =>
      rw [Function.iterate_succ_apply', ih, shl]
      rw [BitVec.msb_shiftLeft, BitVec.getMsbD_eq_getLsbD, ← BitVec.shiftLeft_add]
      have hindex : w - 1 - n = w - (n + 1) := by omega
      simp [hindex, Nat.add_one_le_iff]

theorem shr_iterate :
    shr^[n] s = (s.1 >>> n, if n = 0 then s.2 else s.1.getLsbD (n - 1)) := by
  induction n with
  | zero => simp
  | succ n ih =>
      rw [Function.iterate_succ_apply', ih, shr, BitVec.getLsbD_ushiftRight,
        ← BitVec.shiftRight_add]
      rfl

theorem sar_iterate (hw : 0 < w) :
    sar^[n] s = (s.1.sshiftRight n,
      if n = 0 then s.2 else if n ≤ w then s.1.getLsbD (n - 1) else s.1.msb) := by
  induction n with
  | zero => simp
  | succ n ih =>
      rw [Function.iterate_succ_apply', ih, sar, BitVec.getLsbD_sshiftRight,
        ← BitVec.sshiftRight_add]
      simp [hw.ne', Nat.add_one_le_iff]

theorem rol_iterate (hw : 0 < w) :
    rol^[n] s = (s.1.rotateLeft n, if n = 0 then s.2 else (s.1.rotateLeft n).getLsbD 0) := by
  induction n with
  | zero =>
      rw [Function.iterate_zero_apply, rotateLeft_zero]
      rfl
  | succ n ih =>
      rw [Function.iterate_succ_apply', ih, rol, rotateLeft_rotateLeft]
      -- the bit at the top goes to the bottom
      have hout := getLsbD_rotateLeft_mod (s.1.rotateLeft n) 1 (Nat.sub_lt hw Nat.one_pos)
      rw [Nat.sub_add_cancel hw, Nat.mod_self, rotateLeft_rotateLeft] at hout
      rw [if_neg (Nat.succ_ne_zero n), hout, BitVec.msb_eq_getLsbD_last]

theorem ror_iterate (hw : 0 < w) :
    ror^[n] s = (s.1.rotateRight n, if n = 0 then s.2 else (s.1.rotateRight n).msb) := by
  induction n with
  | zero =>
      rw [Function.iterate_zero_apply, rotateRight_zero]
      rfl
  | succ n ih =>
      rw [Function.iterate_succ_apply', ih, ror, rotateRight_rotateRight]
      have hout := getLsbD_rotateRight_mod (s.1.rotateRight n) 1 (Nat.sub_lt hw Nat.one_pos)
      rw [Nat.sub_add_cancel hw, Nat.mod_self, rotateRight_rotateRight] at hout
      rw [if_neg (Nat.succ_ne_zero n), ← hout, BitVec.msb_eq_getLsbD_last]

end Steps

/-! ### Rotations through the carry -/

/-- The word with the carry on top. -/
def joined (s : Carried w) : BitVec (w + 1) := BitVec.cons s.2 s.1

theorem joined_injective {s t : Carried w} (h : joined s = joined t) : s = t := by
  have hword := congrArg (BitVec.setWidth w) h
  have hcarry := congrArg BitVec.msb h
  simp only [joined, BitVec.setWidth_cons, BitVec.msb_cons] at hword hcarry
  exact Prod.ext hword hcarry

theorem joined_rcl (hw : 0 < w) (s : Carried w) : joined (rcl s) = (joined s).rotateLeft 1 := by
  apply BitVec.eq_of_getLsbD_eq
  intro i hi
  obtain ⟨j, hj, rfl⟩ := exists_add_mod 1 hi
  rw [getLsbD_rotateLeft_mod _ _ hj, joined, joined, BitVec.getLsbD_cons, BitVec.getLsbD_cons]
  by_cases hlast : j = w
  · rw [hlast, Nat.mod_self, if_neg hw.ne, if_pos rfl, rcl, BitVec.getLsbD_shiftConcat]
    simp [hw]
  · rw [Nat.mod_eq_of_lt (Nat.succ_lt_succ (by omega)), if_neg hlast]
    by_cases htop : j + 1 = w
    · have hindex : w - 1 = j := by omega
      rw [if_pos htop, rcl, BitVec.msb_eq_getLsbD_last, hindex]
    · have hlt : j + 1 < w := by omega
      rw [if_neg htop, rcl, BitVec.getLsbD_shiftConcat]
      simp [hlt]

theorem joined_rcr (hw : 0 < w) (s : Carried w) : joined (rcr s) = (joined s).rotateRight 1 := by
  apply BitVec.eq_of_getLsbD_eq
  intro i hi
  rw [getLsbD_rotateRight_mod _ _ hi, joined, joined, BitVec.getLsbD_cons, BitVec.getLsbD_cons]
  by_cases hlast : i = w
  · rw [hlast, Nat.mod_self, if_pos rfl, if_neg hw.ne, rcr]
  · have hlt : i < w := by omega
    rw [Nat.mod_eq_of_lt (Nat.succ_lt_succ hlt), if_neg hlast, rcr, BitVec.getLsbD_setWidth,
      BitVec.getLsbD_ushiftRight, BitVec.getLsbD_cons, Nat.add_comm 1 i]
    simp [hlt]

theorem joined_rcl_iterate (hw : 0 < w) (n : Nat) (s : Carried w) :
    joined (rcl^[n] s) = (joined s).rotateLeft n := by
  induction n with
  | zero => rw [Function.iterate_zero_apply, rotateLeft_zero]
  | succ n ih => rw [Function.iterate_succ_apply', joined_rcl hw, ih, rotateLeft_rotateLeft]

theorem joined_rcr_iterate (hw : 0 < w) (n : Nat) (s : Carried w) :
    joined (rcr^[n] s) = (joined s).rotateRight n := by
  induction n with
  | zero => rw [Function.iterate_zero_apply, rotateRight_zero]
  | succ n ih => rw [Function.iterate_succ_apply', joined_rcr hw, ih, rotateRight_rotateRight]

/-- A rotation through the carry comes round after one step more than the width. -/
theorem rcl_iterate_mod (hw : 0 < w) (n : Nat) (s : Carried w) :
    rcl^[n % (w + 1)] s = rcl^[n] s := by
  apply joined_injective
  rw [joined_rcl_iterate hw, joined_rcl_iterate hw, BitVec.rotateLeft_mod_eq_rotateLeft]

theorem rcr_iterate_mod (hw : 0 < w) (n : Nat) (s : Carried w) :
    rcr^[n % (w + 1)] s = rcr^[n] s := by
  apply joined_injective
  rw [joined_rcr_iterate hw, joined_rcr_iterate hw, BitVec.rotateRight_mod_eq_rotateRight]

end BitSteps
