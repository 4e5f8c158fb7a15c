import PicoCpu.Lib.Effect

/-!
Two effectful programs side by side. They are related when they ask for the same operations,
whatever is answered within the promise, and end in related results; a program respects a
relation on states when its runs from related states are related and return the same. This is
one step of a two-run argument: runs in two environments that answer alike stay alike.
-/

namespace Prog

variable {S : Signature} {α β γ δ ω : Type}

/-- The same operations, all of them allowed by `ok`, and results related by `R`. -/
inductive Related (ok : S.Op → Prop) (rely : S.Rely) (R : α → β → Prop) :
    Prog S α → Prog S β → Prop where
  | ret {a : α} {b : β} (h : R a b) : Related ok rely R (.ret a) (.ret b)
  | ask {o : S.Op} {k : S.Answer o → Prog S α} {k' : S.Answer o → Prog S β} (ho : ok o)
      (h : ∀ r, rely o r → Related ok rely R (k r) (k' r)) :
      Related ok rely R (.ask o k) (.ask o k')

variable {ok ok' : S.Op → Prop} {rely : S.Rely}

theorem Related.mono {R R' : α → β → Prop} {p : Prog S α} {q : Prog S β}
    (h : Related ok rely R p q) (hok : ∀ o, ok o → ok' o) (hR : ∀ a b, R a b → R' a b) :
    Related ok' rely R' p q := by
  induction h with
  | ret h => exact .ret (hR _ _ h)
  | ask ho _ ih => exact .ask (hok _ ho) ih

theorem Related.bind {R : α → β → Prop} {R' : γ → δ → Prop} {p : Prog S α} {q : Prog S β}
    {f : α → Prog S γ} {g : β → Prog S δ} (h : Related ok rely R p q)
    (hf : ∀ a b, R a b → Related ok rely R' (f a) (g b)) :
    Related ok rely R' (p.bind f) (q.bind g) := by
  induction h with
  | ret h => exact hf _ _ h
  | ask ho _ ih => exact .ask ho ih

/-- A program is beside itself. -/
theorem Related.refl (p : Prog S α) : Related (fun _ => True) rely Eq p p := by
  induction p with
  | ret a => exact .ret rfl
  | ask o k ih => exact .ask trivial fun r _ => ih r

/-- Environments that answer the allowed operations alike, and keep their states alike. -/
structure Alike (ok : S.Op → Prop) (rely : S.Rely) (W : ω → ω → Prop) (env : S.Env ω) : Prop where
  keeps : ∀ o w, rely o (env o w).1
  answer : ∀ o w w', ok o → W w w' → (env o w).1 = (env o w').1
  world : ∀ o w w', ok o → W w w' → W (env o w).2 (env o w').2

/-- Related programs run alike from worlds that are alike: the same trace, related results. -/
theorem Related.exec {R : α → β → Prop} {p : Prog S α} {q : Prog S β}
    (h : Related ok rely R p q) {W : ω → ω → Prop} {env : S.Env ω} (henv : Alike ok rely W env)
    {w w' : ω} (hw : W w w') :
    R (p.exec env w).value (q.exec env w').value ∧ W (p.exec env w).world (q.exec env w').world ∧
      (p.exec env w).trace = (q.exec env w').trace := by
  induction h generalizing w w' with
  | ret h => exact ⟨h, hw, rfl⟩
  | @ask o k k' ho _ ih =>
      have hanswer := henv.answer o w w' ho hw
      obtain ⟨hvalue, hworld, htrace⟩ :=
        ih (env o w).1 (henv.keeps o w) (henv.world o w w' ho hw)
      simp only [Prog.exec]
      rw [← hanswer]
      exact ⟨hvalue, hworld, by rw [htrace]⟩

end Prog

namespace Proc

variable {S : Signature} {σ α β : Type}

/-- From states related by `R` the program asks the same and returns the same, and leaves
related states. -/
def Respects (ok : S.Op → Prop) (rely : S.Rely) (R : σ → σ → Prop) (p : Proc S σ α) : Prop :=
  ∀ s s', R s s' →
    Prog.Related ok rely (fun x y => x.1 = y.1 ∧ R x.2 y.2) (p s) (p s')

variable {ok ok' : S.Op → Prop} {rely : S.Rely} {R : σ → σ → Prop}

theorem Respects.mono {p : Proc S σ α} (h : p.Respects ok rely R) (hok : ∀ o, ok o → ok' o) :
    p.Respects ok' rely R :=
  fun s s' hs => (h s s' hs).mono hok fun _ _ hr => hr

theorem respects_pure (a : α) : (Pure.pure a : Proc S σ α).Respects ok rely R :=
  fun _ _ hs => .ret ⟨rfl, hs⟩

theorem respects_exit : (exit : Proc S σ α).Respects ok rely R :=
  fun _ _ hs => .ret ⟨rfl, hs⟩

theorem respects_modify {f : σ → σ} (hf : ∀ s s', R s s' → R (f s) (f s')) :
    (modify f : Proc S σ Unit).Respects ok rely R :=
  fun s s' hs => .ret ⟨rfl, hf s s' hs⟩

theorem respects_ask (o : S.Op) (ho : ok o) : (ask o : Proc S σ _).Respects ok rely R :=
  fun _ _ hs => .ask ho fun _ _ => .ret ⟨rfl, hs⟩

/-- What is bound is known to be an answer within the promise. -/
theorem respects_ask_bind {o : S.Op} (ho : ok o) {f : S.Answer o → Proc S σ β}
    (hf : ∀ r, rely o r → (f r).Respects ok rely R) :
    (ask o >>= f : Proc S σ β).Respects ok rely R :=
  fun s s' hs => .ask ho fun r hr => hf r hr s s' hs

theorem Respects.bind {p : Proc S σ α} {f : α → Proc S σ β} (hp : p.Respects ok rely R)
    (hf : ∀ a, (f a).Respects ok rely R) : (p >>= f).Respects ok rely R := by
  intro s s' hs
  refine Prog.Related.bind (hp s s' hs) ?_
  rintro ⟨_ | a, t⟩ ⟨_ | b, t'⟩ ⟨hvalue, ht⟩
  · exact .ret ⟨rfl, ht⟩
  · cases hvalue
  · cases hvalue
  · cases hvalue
    exact hf a t t' ht

theorem Respects.map {p : Proc S σ α} (f : α → β) (hp : p.Respects ok rely R) :
    (f <$> p).Respects ok rely R :=
  hp.bind fun a => respects_pure (f a)

theorem Respects.attempt {p : Proc S σ α} (hp : p.Respects ok rely R) :
    (attempt p).Respects ok rely R := by
  intro s s' hs
  refine Prog.Related.bind (hp s s' hs) ?_
  rintro ⟨a, t⟩ ⟨b, t'⟩ ⟨hvalue, ht⟩
  exact .ret ⟨congrArg some hvalue, ht⟩

theorem Respects.ite {c : Prop} [Decidable c] {p q : Proc S σ α} (hp : p.Respects ok rely R)
    (hq : q.Respects ok rely R) : (if c then p else q).Respects ok rely R := by
  split
  · exact hp
  · exact hq

/-- The whole run. -/
theorem Respects.run {ω : Type} {p : Proc S σ α} (hp : p.Respects ok rely R) {W : ω → ω → Prop}
    {env : S.Env ω} (henv : Prog.Alike ok rely W env) {s s' : σ} (hs : R s s') {w w' : ω}
    (hw : W w w') :
    (p.run env s w).value.1 = (p.run env s' w').value.1 ∧
      R (p.run env s w).value.2 (p.run env s' w').value.2 ∧
      W (p.run env s w).world (p.run env s' w').world ∧
      (p.run env s w).trace = (p.run env s' w').trace := by
  obtain ⟨⟨hvalue, hstate⟩, hworld, htrace⟩ := (hp s s' hs).exec henv hw
  exact ⟨hvalue, hstate, hworld, htrace⟩

end Proc
