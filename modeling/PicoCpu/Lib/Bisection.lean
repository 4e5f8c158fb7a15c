import Mathlib.Tactic.Common

/-!
Binary search by a probe that says on which side of an entry the target lies. Entries may be
intervals with gaps between them, so that a target can lie strictly between two neighbours.
-/

namespace PicoCpu.Bisection

/-- The loop over the window from `lo` to below `hi`. -/
def find (probe : Nat → Ordering) (lo hi : Nat) : Option Nat :=
  if h : lo < hi then
    let mid := lo + (hi - lo) / 2
    match probe mid with
    | .lt => find probe lo mid
    | .eq => some mid
    | .gt => find probe (mid + 1) hi
  else none
termination_by hi - lo

/-- The entries below `n` are in order: a target before one is before the later ones, and a target
after one is after the earlier ones. -/
structure Ordered (probe : Nat → Ordering) (n : Nat) : Prop where
  before : ∀ i j, i < j → j < n → probe i = .lt → probe j = .lt
  after : ∀ i j, i < j → j < n → probe j = .gt → probe i = .gt

variable {probe : Nat → Ordering} {n : Nat}

theorem find_sound {lo hi k : Nat} (h : find probe lo hi = some k) :
    lo ≤ k ∧ k < hi ∧ probe k = .eq := by
  fun_induction find probe lo hi with
  | case1 lo hi hlt mid hprobe ih =>
      have hmid : mid = lo + (hi - lo) / 2 := rfl
      obtain ⟨hlow, hhigh, heq⟩ := ih h
      exact ⟨hlow, by omega, heq⟩
  | case2 lo hi hlt mid hprobe =>
      have hmid : mid = lo + (hi - lo) / 2 := rfl
      obtain rfl := Option.some.inj h
      exact ⟨by omega, by omega, hprobe⟩
  | case3 lo hi hlt mid hprobe ih =>
      have hmid : mid = lo + (hi - lo) / 2 := rfl
      obtain ⟨hlow, hhigh, heq⟩ := ih h
      exact ⟨by omega, hhigh, heq⟩
  | case4 => cases h

/-- Each step drops only entries that are not the target's. -/
theorem find_complete (hord : Ordered probe n) {lo hi : Nat} (hhi : hi ≤ n)
    (h : find probe lo hi = none) : ∀ k, lo ≤ k → k < hi → probe k ≠ .eq := by
  fun_induction find probe lo hi with
  | case1 lo hi hlt mid hprobe ih =>
      have hmid : mid = lo + (hi - lo) / 2 := rfl
      intro k hlow hhigh heq
      rcases Nat.lt_trichotomy k mid with hbefore | rfl | hafter
      · exact ih (by omega) h k hlow hbefore heq
      · rw [hprobe] at heq
        cases heq
      · rw [hord.before mid k hafter (by omega) hprobe] at heq
        cases heq
  | case2 => cases h
  | case3 lo hi hlt mid hprobe ih =>
      have hmid : mid = lo + (hi - lo) / 2 := rfl
      intro k hlow hhigh heq
      rcases Nat.lt_trichotomy k mid with hbefore | rfl | hafter
      · rw [hord.after k mid hbefore (by omega) hprobe] at heq
        cases heq
      · rw [hprobe] at heq
        cases heq
      · exact ih hhi h k hafter hhigh heq
  | case4 lo hi hge =>
      intro k hlow hhigh
      omega

end PicoCpu.Bisection
