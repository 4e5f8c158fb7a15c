import Mathlib.Data.List.Basic
import Mathlib.Tactic.Common

/-!
Least-recently-used order kept by stamps. The slots of a table hold keys; a use of a key stamps
its slot with the next reading of a clock. The history lists the uses, the most recent first.
The stamps order the held keys as the history does, so the oldest stamp is on the key that has
not been used for longest.
-/

namespace Recency

variable {ι κ : Type*} [DecidableEq κ] {held held' : ι → Option κ} {stamp stamp' : ι → Nat}
  {clock : Nat} {history : List κ}

/-- The slots are stamped as the history says: every held key has been used, no stamp is from
the future, and of two held keys the one used before the other has the older stamp. -/
structure Stamped (held : ι → Option κ) (stamp : ι → Nat) (clock : Nat) (history : List κ) :
    Prop where
  past : ∀ i a, held i = some a → stamp i ≤ clock
  order : ∀ i j a b, held i = some a → held j = some b →
    (stamp i < stamp j ↔ history.idxOf b < history.idxOf a)

/-- A table that holds nothing is stamped whatever the clock reads. -/
theorem stamped_of_empty (h : ∀ i, held i = none) : Stamped held stamp clock history where
  past i a hi := by rw [h i] at hi; cases hi
  order i j a b hi := by rw [h i] at hi; cases hi

/-- Letting go of keys. -/
theorem Stamped.forget (h : Stamped held stamp clock history)
    (hsub : ∀ i a, held' i = some a → held i = some a ∧ stamp' i = stamp i) :
    Stamped held' stamp' clock history where
  past i a hi := by
    obtain ⟨hold, hstamp⟩ := hsub i a hi
    rw [hstamp]
    exact h.past i a hold
  order i j a b hi hj := by
    obtain ⟨hiold, histamp⟩ := hsub i a hi
    obtain ⟨hjold, hjstamp⟩ := hsub j b hj
    rw [histamp, hjstamp]
    exact h.order i j a b hiold hjold

/-- Using key `k` in slot `v`, when no other slot holds it: the slot takes the next reading of
the clock and every other slot is left alone. -/
theorem Stamped.use (h : Stamped held stamp clock history) {v : ι} {k : κ}
    (hv : held' v = some k) (hstamp : stamp' v = clock + 1)
    (hother : ∀ i, i ≠ v → held' i = held i ∧ stamp' i = stamp i)
    (hsole : ∀ i, i ≠ v → held i ≠ some k) :
    Stamped held' stamp' (clock + 1) (k :: history) := by
  have hrest (i : ι) (a : κ) (hi : held' i = some a) (hne : i ≠ v) :
      held i = some a ∧ stamp' i = stamp i ∧ a ≠ k ∧ stamp i ≤ clock := by
    obtain ⟨hheld, hsame⟩ := hother i hne
    rw [hheld] at hi
    exact ⟨hi, hsame, fun hk => hsole i hne (hk ▸ hi), h.past i a hi⟩
  have hnewest (a : κ) (ha : held' v = some a) : a = k := by
    rw [hv] at ha
    exact (Option.some.inj ha).symm
  constructor
  · intro i a hi
    by_cases hiv : i = v
    · exact Nat.le_of_eq (hiv ▸ hstamp)
    · obtain ⟨-, hsame, -, hle⟩ := hrest i a hi hiv
      rw [hsame]
      exact Nat.le_succ_of_le hle
  · intro i j a b hi hj
    by_cases hiv : i = v
    · subst hiv
      rw [hnewest a hi, List.idxOf_cons_self, hstamp]
      by_cases hjv : j = i
      · rw [hjv, hstamp]
        omega
      · obtain ⟨-, hsame, -, hle⟩ := hrest j b hj hjv
        rw [hsame]
        omega
    · obtain ⟨hiold, hisame, hik, hile⟩ := hrest i a hi hiv
      rw [List.idxOf_cons_ne _ hik.symm, hisame]
      by_cases hjv : j = v
      · subst hjv
        rw [hnewest b hj, List.idxOf_cons_self, hstamp]
        omega
      · obtain ⟨hjold, hjsame, hjk, -⟩ := hrest j b hj hjv
        rw [List.idxOf_cons_ne _ hjk.symm, hjsame, h.order i j a b hiold hjold]
        omega

/-- A slot whose stamp is oldest holds the key that has not been used for longest. -/
theorem Stamped.oldest (h : Stamped held stamp clock history) {v : ι} {a : κ}
    (hv : held v = some a) (hleast : ∀ i b, held i = some b → stamp v ≤ stamp i) (i : ι) (b : κ)
    (hi : held i = some b) : history.idxOf b ≤ history.idxOf a := by
  have hnot : ¬ stamp i < stamp v := Nat.not_lt.mpr (hleast i b hi)
  rw [h.order i v b a hi hv] at hnot
  exact Nat.le_of_not_lt hnot

end Recency
