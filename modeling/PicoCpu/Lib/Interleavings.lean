import Mathlib.Tactic.Common

/-!
Several parties over one shared state, one action at a time. An action that is not enabled has no
step; a run is any order of enabled actions. What every step keeps, or every step that meets a
condition, holds all along a run.
-/

namespace Interleaving

variable {S A : Type} {step : A → S → Option S}

/-- The actions, one after the other. -/
def run (step : A → S → Option S) : List A → S → Option S
  | [], s => some s
  | a :: as, s => (step a s).bind (run step as)

/-- Every action of the run meets the condition where it is taken. -/
def Along (step : A → S → Option S) (ok : A → S → Prop) : List A → S → Prop
  | [], _ => True
  | a :: as, s => ok a s ∧ ∀ s', step a s = some s' → Along step ok as s'

theorem run_cons_eq_some {a : A} {as : List A} {s t : S} :
    run step (a :: as) s = some t ↔ ∃ s', step a s = some s' ∧ run step as s' = some t := by
  rw [run, Option.bind_eq_some_iff]

theorem run_append_eq_some {as bs : List A} {s t : S} :
    run step (as ++ bs) s = some t ↔ ∃ s', run step as s = some s' ∧ run step bs s' = some t := by
  induction as generalizing s with
  | nil => simp [run]
  | cons a as ih =>
      rw [List.cons_append, run_cons_eq_some]
      simp only [ih, run_cons_eq_some]
      constructor
      · rintro ⟨s₁, hstep, s₂, hrun, hrest⟩
        exact ⟨s₂, ⟨s₁, hstep, hrun⟩, hrest⟩
      · rintro ⟨s₂, ⟨s₁, hstep, hrun⟩, hrest⟩
        exact ⟨s₁, hstep, s₂, hrun, hrest⟩

/-- The rule of invariants, over the steps that meet a condition. -/
theorem run_keeps_along {I : S → Prop} {ok : A → S → Prop}
    (hstep : ∀ a s s', I s → ok a s → step a s = some s' → I s') {as : List A} {s t : S}
    (h : I s) (hok : Along step ok as s) (hrun : run step as s = some t) : I t := by
  induction as generalizing s with
  | nil =>
      cases hrun
      exact h
  | cons a as ih =>
      obtain ⟨s', hs', hrest⟩ := run_cons_eq_some.mp hrun
      exact ih (hstep a s s' h hok.1 hs') (hok.2 s' hs') hrest

theorem along_true (as : List A) (s : S) : Along step (fun _ _ => True) as s := by
  induction as generalizing s with
  | nil => trivial
  | cons a as ih => exact ⟨trivial, fun s' _ => ih s'⟩

theorem run_keeps {I : S → Prop} (hstep : ∀ a s s', I s → step a s = some s' → I s')
    {as : List A} {s t : S} (h : I s) (hrun : run step as s = some t) : I t :=
  run_keeps_along (fun a s s' hs _ => hstep a s s' hs) h (along_true as s) hrun

/-- A condition on the actions alone. -/
theorem along_of_forall {ok : A → Prop} {as : List A} (h : ∀ a ∈ as, ok a) (s : S) :
    Along step (fun a _ => ok a) as s := by
  induction as generalizing s with
  | nil => trivial
  | cons a as ih =>
      obtain ⟨ha, has⟩ := List.forall_mem_cons.mp h
      exact ⟨ha, fun s' _ => ih has s'⟩

theorem Along.append {ok : A → S → Prop} {as bs : List A} {s : S} (h : Along step ok as s)
    (hrest : ∀ t, run step as s = some t → Along step ok bs t) : Along step ok (as ++ bs) s := by
  induction as generalizing s with
  | nil => exact hrest s rfl
  | cons a as ih =>
      refine ⟨h.1, fun s' hs' => ih (h.2 s' hs') fun t ht => hrest t ?_⟩
      exact run_cons_eq_some.mpr ⟨s', hs', ht⟩

end Interleaving
