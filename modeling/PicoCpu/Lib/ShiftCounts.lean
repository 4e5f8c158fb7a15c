import Mathlib.Data.BitVec

/-!
Shifts of a word by any count: when two counts give the same word, and the shifts of a host type,
which have no result for a count of its width or more.
-/

namespace ShiftCounts

/-! ### Sequences -/

/-- Dropping `k` or more bits of a sequence that is constant from `n` on gives the same sequence
only when the first of them leaves nothing but the constant. -/
theorem drop_eq_iff {g : Nat → Bool} {fill : Bool} {n k m : Nat} (hfill : ∀ p, n ≤ p → g p = fill)
    (h : k < m) : (∀ p, g (p + k) = g (p + m)) ↔ ∀ p, k ≤ p → g p = fill := by
  constructor
  · intro hsame
    have hdown (d : Nat) : ∀ p, k ≤ p → n ≤ p + d → g p = fill := by
      induction d with
      | zero =>
          intro p _ hend
          exact hfill p hend
      | succ d ih =>
          intro p hp hend
          have hnext := hsame (p - k)
          rw [Nat.sub_add_cancel hp] at hnext
          rw [hnext]
          exact ih _ (by omega) (by omega)
    intro p hp
    exact hdown n p hp (by omega)
  · intro hleft p
    rw [hleft _ (by omega), hleft _ (by omega)]

/-! ### Directions -/

/-- The shifts of a word: left, right with zeros, and right with copies of the sign. -/
inductive Direction where
  | left | right | arith
  deriving DecidableEq, Repr

variable {n : Nat} (d : Direction) (v : BitVec n)

namespace Direction

/-- The bit that a shift brings in. -/
def fill : Bool := d == .arith && v.msb

/-- The word with only that bit. -/
def emptied : BitVec n := if d.fill v then BitVec.allOnes n else 0

/-- The shift by a smaller count than the width. -/
def shift (k : Nat) : BitVec n :=
  match d with
  | .left => v <<< k
  | .right => v >>> k
  | .arith => v.sshiftRight k

/-- The shift by any count: one of the width or more leaves only the bits brought in. -/
def shiftBy (k : Nat) : BitVec n := if n ≤ k then d.emptied v else d.shift v k

/-- The position of the bit that is the `p`th to leave. -/
def place (n : Nat) (p : Nat) : Nat :=
  match d with
  | .left => n - 1 - p
  | .right | .arith => p

/-- The bits in the order in which they leave, and after them those brought in. -/
def leaving (p : Nat) : Bool := if p < n then v.getLsbD (d.place n p) else d.fill v

/-- A shift by `k` has only copies of the bit it brings in. -/
def Emptied (k : Nat) : Prop := ∀ p < n, k ≤ p → v.getLsbD (d.place n p) = d.fill v

instance (k : Nat) : Decidable (d.Emptied v k) :=
  inferInstanceAs (Decidable (∀ p < n, k ≤ p → v.getLsbD (d.place n p) = d.fill v))

variable {p : Nat}

theorem place_lt (hp : p < n) : d.place n p < n := by
  cases d with
  | left => exact (Nat.sub_le ..).trans_lt (by omega)
  | right => exact hp
  | arith => exact hp

theorem place_place (hp : p < n) : d.place n (d.place n p) = p := by
  cases d with
  | left => exact Nat.sub_sub_self (by omega)
  | right => rfl
  | arith => rfl

theorem leaving_end (hp : n ≤ p) : d.leaving v p = d.fill v := if_neg (Nat.not_lt.mpr hp)

/-- A shift takes the next bits to leave. -/
theorem getLsbD_shift (hp : p < n) (k : Nat) :
    (d.shift v k).getLsbD (d.place n p) = d.leaving v (p + k) := by
  have hplace := d.place_lt hp
  cases d with
  | left =>
      rw [shift, BitVec.getLsbD_shiftLeft, decide_eq_true hplace, Bool.true_and, leaving, place,
        place]
      by_cases hin : p + k < n
      · rw [if_pos hin, decide_eq_false (by omega), Bool.not_false, Bool.true_and,
          Nat.sub_sub _ 1, Nat.sub_sub _ _ k, Nat.sub_sub, Nat.add_assoc]
      · rw [if_neg hin, decide_eq_true (by omega)]
        rfl
  | right =>
      rw [shift, BitVec.getLsbD_ushiftRight, leaving, place, place, Nat.add_comm]
      by_cases hin : p + k < n
      · rw [if_pos hin]
      · rw [if_neg hin, BitVec.getLsbD_of_ge _ _ (Nat.not_lt.mp hin)]
        rfl
  | arith =>
      rw [shift, BitVec.getLsbD_sshiftRight, leaving, place, place, Nat.add_comm,
        decide_eq_false (Nat.not_le.mpr hp), Bool.not_false, Bool.true_and]
      rfl

theorem getLsbD_emptied (hp : p < n) : (d.emptied v).getLsbD p = d.fill v := by
  rw [emptied]
  cases d.fill v with
  | true => exact (BitVec.getLsbD_allOnes ..).trans (decide_eq_true hp)
  | false => exact BitVec.getLsbD_zero

/-- A count of the width or more is no exception. -/
theorem shiftBy_eq (k : Nat) : d.shiftBy v k = d.shift v k := by
  rw [shiftBy]
  split
  next hk =>
    apply BitVec.eq_of_getLsbD_eq
    intro p hp
    have hbit := d.getLsbD_shift v (d.place_lt hp) k
    rw [d.place_place hp, d.leaving_end v (by omega)] at hbit
    rw [hbit, getLsbD_emptied d v hp]
  next => rfl

/-- Two shifts agree when their bits do in the order in which they leave. -/
theorem shift_eq_iff (k m : Nat) :
    d.shift v k = d.shift v m ↔ ∀ p, d.leaving v (p + k) = d.leaving v (p + m) := by
  constructor
  · intro h p
    by_cases hp : p < n
    · rw [← d.getLsbD_shift v hp, ← d.getLsbD_shift v hp, h]
    · rw [d.leaving_end v (by omega), d.leaving_end v (by omega)]
  · intro h
    apply BitVec.eq_of_getLsbD_eq
    intro p hp
    have hplace := d.place_lt hp
    rw [← d.place_place hp, d.getLsbD_shift v hplace, d.getLsbD_shift v hplace, h]

/-- A smaller count does for a larger one only when it already empties the word. -/
theorem shift_eq_iff_emptied {k m : Nat} (h : k < m) :
    d.shift v k = d.shift v m ↔ d.Emptied v k := by
  rw [shift_eq_iff, drop_eq_iff (fun p hp => d.leaving_end v hp) h]
  constructor
  · intro hleft p hp hk
    rw [← hleft p hk, leaving, if_pos hp]
  · intro hempty p hk
    by_cases hp : p < n
    · rw [leaving, if_pos hp]
      exact hempty p hp hk
    · exact d.leaving_end v (Nat.not_lt.mp hp)

end Direction

/-! ### Host shifts -/

/-- An arithmetic shift in a wider type. -/
theorem setWidth_sshiftRight_signExtend {n w : Nat} (v : BitVec n) (k : Nat) (hw : n ≤ w) :
    ((v.signExtend w).sshiftRight k).setWidth n = v.sshiftRight k := by
  have hmsb : 0 < w → (v.signExtend w).msb = v.msb := by
    intro hpos
    rw [BitVec.msb_signExtend, decide_eq_true hpos, Bool.true_and]
    by_cases hsame : w ≤ n
    · rw [if_pos hsame, Nat.sub_eq_zero_of_le hw, BitVec.msb_eq_getMsbD_zero]
    · rw [if_neg hsame]
  apply BitVec.eq_of_getLsbD_eq
  intro j hj
  have hjw : j < w := hj.trans_le hw
  rw [BitVec.getLsbD_setWidth, BitVec.getLsbD_sshiftRight, BitVec.getLsbD_sshiftRight,
    hmsb (by omega), decide_eq_true hj, decide_eq_false (Nat.not_le.mpr hjw),
    decide_eq_false (Nat.not_le.mpr hj), Bool.true_and, Bool.not_false, Bool.true_and,
    Bool.true_and, BitVec.getLsbD_signExtend]
  by_cases hin : k + j < n
  · rw [if_pos hin, if_pos (hin.trans_le hw), decide_eq_true (hin.trans_le hw), Bool.true_and]
  · rw [if_neg hin]
    split
    next hwide => rw [decide_eq_true hwide, Bool.true_and]
    next => rfl

section Host

variable {w k : Nat}

/-- `v << k` in a host type of `w` bits: defined only below its width. -/
def hostShl (v : BitVec w) (k : Nat) : Option (BitVec w) :=
  if k < w then some (v <<< k) else none

/-- `v >> k` in an unsigned host type. -/
def hostShr (v : BitVec w) (k : Nat) : Option (BitVec w) :=
  if k < w then some (v >>> k) else none

/-- `v >> k` in a signed host type. -/
def hostSar (v : BitVec w) (k : Nat) : Option (BitVec w) :=
  if k < w then some (v.sshiftRight k) else none

variable (v : BitVec w)

theorem hostShl_of_lt (h : k < w) : hostShl v k = some (v <<< k) := if_pos h

theorem hostShr_of_lt (h : k < w) : hostShr v k = some (v >>> k) := if_pos h

theorem hostSar_of_lt (h : k < w) : hostSar v k = some (v.sshiftRight k) := if_pos h

theorem hostShl_of_ge (h : w ≤ k) : hostShl v k = none := if_neg (Nat.not_lt.mpr h)

end Host

end ShiftCounts
