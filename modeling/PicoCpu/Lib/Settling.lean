import Mathlib.Tactic.Common

/-!
Computations that may fail and whose loops are given a number of iterations. A computation ends
well when it returns a value with `Q` or an error with `E`; a family indexed by the number of
iterations settles when from some number on it ends well, always the same way.
-/

namespace Settling

variable {ε α β : Type}

/-- A loop that runs out of iterations. -/
def spent : ExceptT ε Option α := (none : Option (Except ε α))

/-- The computation returns a value with `Q` or an error with `E`. -/
def Ends (E : ε → Prop) (p : ExceptT ε Option α) (Q : α → Prop) : Prop :=
  match (p : Option (Except ε α)) with
  | none => False
  | some (.error e) => E e
  | some (.ok a) => Q a

/-- With enough iterations the computation ends well, always the same way. -/
def Settles (E : ε → Prop) (p : Nat → ExceptT ε Option α) (Q : α → Prop) : Prop :=
  ∃ r, Ends E r Q ∧ ∃ n, ∀ fuel, n ≤ fuel → p fuel = r

variable {E : ε → Prop} {Q : β → Prop}

@[simp]
theorem ends_spent : ¬ Ends E (spent : ExceptT ε Option β) Q :=
  id

@[simp]
theorem ends_pure {a : β} : Ends E (pure a : ExceptT ε Option β) Q ↔ Q a :=
  Iff.rfl

@[simp]
theorem ends_throw {e : ε} : Ends E (throw e : ExceptT ε Option β) Q ↔ E e :=
  Iff.rfl

theorem cases_result (p : ExceptT ε Option α) :
    p = spent ∨ (∃ e, p = throw e) ∨ ∃ a, p = pure a := by
  cases hp : (p : Option (Except ε α)) with
  | none => exact .inl rfl
  | some r =>
      cases r with
      | error e => exact .inr (.inl ⟨e, rfl⟩)
      | ok a => exact .inr (.inr ⟨a, rfl⟩)

theorem spent_bind (f : α → ExceptT ε Option β) : spent >>= f = spent :=
  rfl

theorem throw_bind (e : ε) (f : α → ExceptT ε Option β) : throw e >>= f = throw e :=
  rfl

theorem value_bind (a : α) (f : α → ExceptT ε Option β) : pure a >>= f = f a :=
  rfl

theorem Ends.mono {p : ExceptT ε Option β} {R : β → Prop} (h : Ends E p R)
    (himp : ∀ b, R b → Q b) : Ends E p Q := by
  rcases cases_result p with rfl | ⟨e, rfl⟩ | ⟨b, rfl⟩
  · exact h
  · exact h
  · exact himp b h

theorem ends_iff_of_ends {p : ExceptT ε Option β}
    (h : Ends E p fun _ => True) : Ends E p Q ↔ ∀ a, p = pure a → Q a := by
  rcases cases_result p with rfl | ⟨e, rfl⟩ | ⟨a, rfl⟩
  · cases h
  · exact ⟨fun _ a ha => (nomatch ha), fun _ => h⟩
  · constructor
    · rintro hq a' ha
      cases ha
      exact hq
    · intro hq
      exact hq a rfl

theorem ends_bind {p : ExceptT ε Option α} {f : α → ExceptT ε Option β} :
    Ends E (p >>= f) Q ↔ Ends E p fun a => Ends E (f a) Q := by
  rcases cases_result p with rfl | ⟨e, rfl⟩ | ⟨a, rfl⟩ <;> exact Iff.rfl

theorem settles_const {p : ExceptT ε Option β} : Settles E (fun _ => p) Q ↔ Ends E p Q := by
  constructor
  · rintro ⟨r, hr, n, hn⟩
    obtain rfl : p = r := hn n (Nat.le_refl n)
    exact hr
  · intro h
    exact ⟨p, h, 0, fun _ _ => rfl⟩

theorem Settles.mono {p : Nat → ExceptT ε Option β} {R : β → Prop} (h : Settles E p R)
    (himp : ∀ b, R b → Q b) : Settles E p Q := by
  obtain ⟨r, hr, hn⟩ := h
  exact ⟨r, hr.mono himp, hn⟩

/-- From some number of iterations on, a settling computation ends well. -/
theorem Settles.ends {p : Nat → ExceptT ε Option β} (h : Settles E p Q) :
    ∃ n, ∀ fuel, n ≤ fuel → Ends E (p fuel) Q := by
  obtain ⟨r, hr, n, hn⟩ := h
  refine ⟨n, fun fuel hfuel => ?_⟩
  rw [hn fuel hfuel]
  exact hr

/-- Where no error is good, a settling computation returns. -/
theorem Settles.returns {p : Nat → ExceptT ε Option β} (h : Settles (fun _ => False) p Q) :
    ∃ b, Q b ∧ ∃ n, ∀ fuel, n ≤ fuel → p fuel = pure b := by
  obtain ⟨r, hr, hn⟩ := h
  rcases cases_result r with rfl | ⟨e, rfl⟩ | ⟨b, rfl⟩
  · cases ends_spent hr
  · cases hr
  · exact ⟨b, hr, hn⟩

/-- One iteration made, with the others left. -/
theorem settles_succ {p q : Nat → ExceptT ε Option β} (hp : ∀ fuel, p (fuel + 1) = q fuel)
    (h : Settles E q Q) : Settles E p Q := by
  obtain ⟨r, hr, n, hn⟩ := h
  refine ⟨r, hr, n + 1, fun fuel hfuel => ?_⟩
  cases fuel with
  | zero => cases hfuel
  | succ fuel =>
      rw [hp fuel]
      exact hn fuel (Nat.le_of_succ_le_succ hfuel)

theorem settles_bind {R : α → Prop} {p : Nat → ExceptT ε Option α}
    {f : Nat → α → ExceptT ε Option β} (hp : Settles E p R)
    (hf : ∀ a, R a → Settles E (fun fuel => f fuel a) Q) :
    Settles E (fun fuel => p fuel >>= f fuel) Q := by
  obtain ⟨r, hr, n, hn⟩ := hp
  rcases cases_result r with rfl | ⟨e, rfl⟩ | ⟨a, rfl⟩
  · cases ends_spent hr
  · refine ⟨throw e, hr, n, fun fuel hfuel => ?_⟩
    beta_reduce
    rw [hn fuel hfuel, throw_bind]
  · obtain ⟨s, hs, k, hk⟩ := hf a hr
    refine ⟨s, hs, max n k, fun fuel hfuel => ?_⟩
    beta_reduce
    rw [hn fuel (by omega), value_bind]
    exact hk fuel (by omega)

/-- What comes first and makes no use of the iterations. -/
theorem settles_bind_iff {p : ExceptT ε Option α} {f : Nat → α → ExceptT ε Option β} :
    Settles E (fun fuel => p >>= f fuel) Q ↔
      Ends E p fun a => Settles E (fun fuel => f fuel a) Q := by
  rcases cases_result p with rfl | ⟨e, rfl⟩ | ⟨a, rfl⟩
  · simp only [spent_bind, settles_const, ends_spent]
  · simp only [throw_bind, settles_const, ends_throw]
  · exact Iff.rfl

/-- The first of two computations ends well when both do. -/
theorem Settles.first {p : Nat → ExceptT ε Option α} {f : Nat → α → ExceptT ε Option β}
    (h : Settles E (fun fuel => p fuel >>= f fuel) Q) :
    ∃ n, ∀ fuel, n ≤ fuel → Ends E (p fuel) fun _ => True := by
  obtain ⟨n, hn⟩ := h.ends
  refine ⟨n, fun fuel hfuel => ?_⟩
  have hboth := ends_bind.mp (hn fuel hfuel)
  exact hboth.mono fun _ _ => trivial

end Settling
