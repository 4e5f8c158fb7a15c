import Mathlib.Tactic.Common

/-!
Loops one turn at a time. A turn goes on from a new state or ends the loop with a result; it is
`none` when it does not come to an end itself. One loop is batched by another when each turn of
the larger is caught up with by one or more turns of the smaller: then the two end alike, and on
the same inputs if the larger can take its turn wherever the smaller can.
-/

namespace Loops

variable {S E T F : Type}

/-- What a turn comes to. -/
abbrev Next (S E : Type) := S → Option (S ⊕ E)

/-- `n` turns lead from one state to the other. -/
inductive Goes (next : Next S E) : Nat → S → S → Prop
  | refl (s : S) : Goes next 0 s s
  | turn {n : Nat} {s s' s'' : S} (h : next s = some (.inl s')) (hrest : Goes next n s' s'') :
      Goes next (n + 1) s s''

/-- After `n` turns more the loop ends with `e`. -/
def EndsIn (next : Next S E) (n : Nat) (s : S) (e : E) : Prop :=
  ∃ s', Goes next n s s' ∧ next s' = some (.inr e)

def Ends (next : Next S E) (s : S) (e : E) : Prop := ∃ n, EndsIn next n s e

def Reached (next : Next S E) (s s' : S) : Prop := ∃ n, Goes next n s s'

section One

variable {next : Next S E} {n m : Nat} {s s' s'' : S} {e e' : E}

theorem Goes.trans (h : Goes next n s s') (h' : Goes next m s' s'') : Goes next (n + m) s s'' := by
  induction h with
  | refl s => rw [Nat.zero_add]; exact h'
  | turn hturn _ ih =>
      rw [Nat.add_right_comm]
      exact .turn hturn (ih h')

theorem Goes.one (h : next s = some (.inl s')) : Goes next 1 s s' := .turn h (.refl s')

theorem Goes.endsIn (h : Goes next n s s') (h' : EndsIn next m s' e) : EndsIn next (n + m) s e := by
  obtain ⟨s'', hgoes, hend⟩ := h'
  exact ⟨s'', h.trans hgoes, hend⟩

theorem endsIn_zero (h : next s = some (.inr e)) : EndsIn next 0 s e := ⟨s, .refl s, h⟩

theorem EndsIn.turn_ne_none (h : EndsIn next n s e) : next s ≠ none := by
  obtain ⟨s', hgoes, hend⟩ := h
  cases hgoes with
  | refl => simp [hend]
  | turn hturn => simp [hturn]

theorem endsIn_succ_iff : EndsIn next (n + 1) s e ↔ ∃ s', next s = some (.inl s') ∧
    EndsIn next n s' e := by
  constructor
  · rintro ⟨s'', hgoes, hend⟩
    cases hgoes with
    | turn hturn hrest => exact ⟨_, hturn, s'', hrest, hend⟩
  · rintro ⟨s', hturn, hends⟩
    rw [Nat.add_comm]
    exact (Goes.one hturn).endsIn hends

/-- A loop that ends goes through every state it goes to. -/
theorem Goes.rest (h : Goes next n s s') (hends : EndsIn next m s e) :
    ∃ k, m = n + k ∧ EndsIn next k s' e := by
  induction h generalizing m with
  | refl s => exact ⟨m, (Nat.zero_add m).symm, hends⟩
  | turn hturn _ ih =>
      cases m with
      | zero =>
          obtain ⟨s'', hgoes, hend⟩ := hends
          cases hgoes
          rw [hturn] at hend
          cases hend
      | succ m =>
          obtain ⟨s₁, hturn₁, hrest⟩ := endsIn_succ_iff.mp hends
          rw [hturn] at hturn₁
          cases hturn₁
          obtain ⟨k, rfl, hk⟩ := ih hrest
          exact ⟨k, Nat.add_right_comm .., hk⟩

theorem EndsIn.unique (h : EndsIn next n s e) (h' : EndsIn next m s e') : e = e' := by
  obtain ⟨s', hgoes, hend⟩ := h
  obtain ⟨k, -, hrest⟩ := hgoes.rest h'
  obtain ⟨s'', hgoes', hend'⟩ := hrest
  cases hgoes' with
  | refl =>
      rw [hend] at hend'
      exact Sum.inr.inj (Option.some.inj hend')
  | turn hturn =>
      rw [hend] at hturn
      cases hturn

theorem Ends.unique (h : Ends next s e) (h' : Ends next s e') : e = e' :=
  h.elim fun _ hn => h'.elim fun _ hm => hn.unique hm

theorem Reached.refl (s : S) : Reached next s s := ⟨0, .refl s⟩

theorem Reached.turn (h : Reached next s s') (hturn : next s' = some (.inl s'')) :
    Reached next s s'' :=
  h.elim fun _ hn => ⟨_, hn.trans (.one hturn)⟩

theorem Reached.ends (h : Reached next s s') (hends : Ends next s' e) : Ends next s e :=
  h.elim fun _ hn => hends.elim fun _ hm => ⟨_, hn.endsIn hm⟩

/-- What every turn keeps holds of all that is reached. -/
theorem Reached.induct {I : S → Prop} (h : Reached next s s') (hstart : I s)
    (hturn : ∀ t t', Reached next s t → I t → next t = some (.inl t') → I t') : I s' := by
  obtain ⟨n, hgoes⟩ := h
  have hrule (m : Nat) (t t' : S) (hgoes : Goes next m t t') (hreach : Reached next s t)
      (ht : I t) : I t' := by
    induction hgoes with
    | refl t => exact ht
    | turn hstep _ ih => exact ih (hreach.turn hstep) (hturn _ _ hreach ht hstep)
  exact hrule n s s' hgoes (.refl s) hstart

end One

/-! ### With fuel -/

/-- The loop with a bound on its turns. -/
def run (next : Next S E) : Nat → S → Option E
  | 0, _ => none
  | fuel + 1, s =>
    match next s with
    | none => none
    | some (.inr e) => some e
    | some (.inl s') => run next fuel s'

theorem run_eq_some_iff {next : Next S E} {fuel : Nat} {s : S} {e : E} :
    run next fuel s = some e ↔ ∃ n < fuel, EndsIn next n s e := by
  induction fuel generalizing s with
  | zero => simp [run]
  | succ fuel ih =>
      rw [run]
      constructor
      · intro h
        cases hturn : next s with
        | none => rw [hturn] at h; cases h
        | some x =>
            rw [hturn] at h
            cases x with
            | inr e' =>
                cases h
                exact ⟨0, Nat.succ_pos fuel, endsIn_zero hturn⟩
            | inl s' =>
                obtain ⟨n, hn, hends⟩ := ih.mp h
                exact ⟨n + 1, Nat.succ_lt_succ hn, endsIn_succ_iff.mpr ⟨s', hturn, hends⟩⟩
      · rintro ⟨n, hn, hends⟩
        cases n with
        | zero =>
            obtain ⟨s', hgoes, hend⟩ := hends
            cases hgoes
            rw [hend]
        | succ n =>
            obtain ⟨s', hturn, hrest⟩ := endsIn_succ_iff.mp hends
            rw [hturn]
            exact ih.mpr ⟨n, Nat.lt_of_succ_lt_succ hn, hrest⟩

theorem exists_run_iff {next : Next S E} {s : S} {e : E} :
    (∃ fuel, run next fuel s = some e) ↔ Ends next s e := by
  constructor
  · rintro ⟨fuel, h⟩
    obtain ⟨n, -, hends⟩ := run_eq_some_iff.mp h
    exact ⟨n, hends⟩
  · rintro ⟨n, hends⟩
    exact ⟨n + 1, run_eq_some_iff.mpr ⟨n, Nat.lt_succ_self n, hends⟩⟩

/-! ### Batches -/

/-- The smaller loop comes from `t` to what a turn of the larger one came to: to a related
state, after at least one turn, or to the end. -/
def CatchesUp (small : Next T F) (R : S → T → Prop) (Q : E → F → Prop) (t : T) : S ⊕ E → Prop
  | .inl s => ∃ n t', Goes small (n + 1) t t' ∧ R s t'
  | .inr e => ∃ f, Ends small t f ∧ Q e f

/-- A turn of the smaller loop more. -/
theorem CatchesUp.turn {small : Next T F} {R : S → T → Prop} {Q : E → F → Prop} {t t' : T}
    {x : S ⊕ E} (hturn : small t = some (.inl t')) (h : CatchesUp small R Q t' x) :
    CatchesUp small R Q t x := by
  cases x with
  | inl s =>
      obtain ⟨n, t'', hgoes, hR⟩ := h
      exact ⟨n + 1, t'', .turn hturn hgoes, hR⟩
  | inr e =>
      obtain ⟨f, ⟨n, hends⟩, hQ⟩ := h
      exact ⟨f, ⟨n + 1, endsIn_succ_iff.mpr ⟨t', hturn, hends⟩⟩, hQ⟩

/-- A turn that is the smaller loop's own. -/
theorem CatchesUp.own {small : Next S E} {R : S → S → Prop} {s : S} {x : S ⊕ E}
    (hturn : small s = some x) (hR : ∀ s', x = .inl s' → R s' s') : CatchesUp small R Eq s x := by
  cases x with
  | inl s' => exact ⟨0, s', .one hturn, hR s' rfl⟩
  | inr e => exact ⟨e, ⟨0, endsIn_zero hturn⟩, rfl⟩

/-- Every turn of the larger loop is a batch of turns of the smaller one. -/
structure Batches (large : Next S E) (small : Next T F) (R : S → T → Prop) (Q : E → F → Prop) :
    Prop where
  turns : ∀ s t, R s t → small t ≠ none → large s ≠ none
  catchesUp : ∀ s t x, R s t → large s = some x → CatchesUp small R Q t x

/-- Two turns that go on alike, end alike, or do not come to an end. -/
inductive Lockstep (R : S → T → Prop) (Q : E → F → Prop) :
    Option (S ⊕ E) → Option (T ⊕ F) → Prop
  | goesOn {s : S} {t : T} (h : R s t) : Lockstep R Q (some (.inl s)) (some (.inl t))
  | ends {e : E} {f : F} (h : Q e f) : Lockstep R Q (some (.inr e)) (some (.inr f))
  | stuck : Lockstep R Q none none

section Two

variable {large : Next S E} {small : Next T F} {R : S → T → Prop} {Q : E → F → Prop} {s : S}
  {t : T}

/-- Where the larger loop ends, the smaller one ends alike. -/
theorem Batches.ends {e : E} (h : Batches large small R Q) (hR : R s t) (hends : Ends large s e) :
    ∃ f, Ends small t f ∧ Q e f := by
  obtain ⟨n, hends⟩ := hends
  induction n generalizing s t with
  | zero =>
      obtain ⟨s', hgoes, hend⟩ := hends
      cases hgoes
      exact h.catchesUp s t _ hR hend
  | succ n ih =>
      obtain ⟨s', hturn, hrest⟩ := endsIn_succ_iff.mp hends
      obtain ⟨k, t', hgoes, hR'⟩ := h.catchesUp s t _ hR hturn
      obtain ⟨f, hf, hQ⟩ := ih hR' hrest
      exact ⟨f, Reached.ends ⟨_, hgoes⟩ hf, hQ⟩

/-- Where the smaller loop ends, the larger one does: each of its turns takes some of the
smaller one's. -/
theorem Batches.ends_of_small {f : F} (h : Batches large small R Q) (hR : R s t)
    (hends : Ends small t f) : ∃ e, Ends large s e ∧ Q e f := by
  obtain ⟨n, hends⟩ := hends
  induction n using Nat.strongRecOn generalizing s t with
  | ind n ih =>
      obtain ⟨x, hx⟩ := Option.ne_none_iff_exists'.mp (h.turns s t hR hends.turn_ne_none)
      cases x with
      | inr e =>
          obtain ⟨f', hf', hQ⟩ := h.catchesUp s t _ hR hx
          obtain rfl : f' = f := hf'.unique ⟨n, hends⟩
          exact ⟨e, ⟨0, endsIn_zero hx⟩, hQ⟩
      | inl s' =>
          obtain ⟨k, t', hgoes, hR'⟩ := h.catchesUp s t _ hR hx
          obtain ⟨m, rfl, hrest⟩ := hgoes.rest hends
          obtain ⟨e, he, hQ⟩ := ih m (by omega) hR' hrest
          exact ⟨e, Reached.ends ⟨1, .one hx⟩ he, hQ⟩

/-- The two loops end on the same inputs, and alike. -/
theorem Batches.ends_iff (h : Batches large small R Q) (hR : R s t) :
    (∀ e, Ends large s e → ∃ f, Ends small t f ∧ Q e f) ∧
      ∀ f, Ends small t f → ∃ e, Ends large s e ∧ Q e f :=
  ⟨fun _ => h.ends hR, fun _ => h.ends_of_small hR⟩

/-- Loops that take their turns one for one end alike. -/
theorem ends_of_lockstep (h : ∀ s t, R s t → Lockstep R Q (large s) (small t)) (hR : R s t) :
    (∀ e, Ends large s e → ∃ f, Ends small t f ∧ Q e f) ∧
      ∀ f, Ends small t f → ∃ e, Ends large s e ∧ Q e f := by
  constructor
  · rintro e ⟨n, hends⟩
    induction n generalizing s t with
    | zero =>
        obtain ⟨s', hgoes, hend⟩ := hends
        cases hgoes
        have hturn := h s t hR
        rw [hend] at hturn
        generalize hsmall : small t = y at hturn
        cases hturn with
        | ends hQ => exact ⟨_, ⟨0, endsIn_zero hsmall⟩, hQ⟩
    | succ n ih =>
        obtain ⟨s', hnext, hrest⟩ := endsIn_succ_iff.mp hends
        have hturn := h s t hR
        rw [hnext] at hturn
        generalize hsmall : small t = y at hturn
        cases hturn with
        | goesOn hR' =>
            obtain ⟨f, hf, hQ⟩ := ih hR' hrest
            exact ⟨f, Reached.ends ⟨1, .one hsmall⟩ hf, hQ⟩
  · rintro f ⟨n, hends⟩
    induction n generalizing s t with
    | zero =>
        obtain ⟨t', hgoes, hend⟩ := hends
        cases hgoes
        have hturn := h s t hR
        rw [hend] at hturn
        generalize hlarge : large s = x at hturn
        cases hturn with
        | ends hQ => exact ⟨_, ⟨0, endsIn_zero hlarge⟩, hQ⟩
    | succ n ih =>
        obtain ⟨t', hnext, hrest⟩ := endsIn_succ_iff.mp hends
        have hturn := h s t hR
        rw [hnext] at hturn
        generalize hlarge : large s = x at hturn
        cases hturn with
        | goesOn hR' =>
            obtain ⟨e, he, hQ⟩ := ih hR' hrest
            exact ⟨e, Reached.ends ⟨1, .one hlarge⟩ he, hQ⟩

/-- Loops that take their turns one for one reach related states. -/
theorem reached_of_lockstep (h : ∀ s t, R s t → Lockstep R Q (large s) (small t)) (hR : R s t)
    {t' : T} (hreached : Reached small t t') : ∃ s', Reached large s s' ∧ R s' t' := by
  apply hreached.induct ⟨s, .refl s, hR⟩
  rintro t₁ t₂ _ ⟨s₁, hreached₁, hR₁⟩ hturn
  have hboth := h s₁ t₁ hR₁
  rw [hturn] at hboth
  generalize hlarge : large s₁ = x at hboth
  cases hboth with
  | goesOn hR₂ => exact ⟨_, hreached₁.turn hlarge, hR₂⟩

end Two

end Loops
