import PicoCpu.Lib.Effect

/-!
What a program asks for, whatever it is answered. Environments over different worlds that answer
these operations alike, and keep their worlds alike, cannot be told apart by the program.
-/

namespace Prog

variable {S : Signature} {α β ω ω' : Type}

/-- Every operation the program comes to satisfies `ok`. -/
def Asks (ok : S.Op → Prop) : Prog S α → Prop
  | ret _ => True
  | ask o k => ok o ∧ ∀ r, (k r).Asks ok

variable {ok ok' : S.Op → Prop}

theorem Asks.mono {p : Prog S α} (h : p.Asks ok) (hok : ∀ o, ok o → ok' o) : p.Asks ok' := by
  induction p with
  | ret a => exact trivial
  | ask o k ih => exact ⟨hok o h.1, fun r => ih r (h.2 r)⟩

theorem Asks.bind {p : Prog S α} {f : α → Prog S β} (hp : p.Asks ok) (hf : ∀ a, (f a).Asks ok) :
    (p.bind f).Asks ok := by
  induction p with
  | ret a => exact hf a
  | ask o k ih => exact ⟨hp.1, fun r => ih r (hp.2 r)⟩

/-- What happens in a run is among what the program asks for. -/
theorem Asks.trace {p : Prog S α} (h : p.Asks ok) (env : S.Env ω) (w : ω) :
    ∀ x ∈ (p.exec env w).trace, ok x.1 := by
  induction p generalizing w with
  | ret a => exact fun x hx => absurd hx List.not_mem_nil
  | ask o k ih =>
      intro x hx
      rcases List.mem_cons.mp hx with rfl | hrest
      · exact h.1
      · exact ih _ (h.2 _) _ x hrest

/-- Two environments that answer the operations alike and keep their worlds alike. -/
structure Matches (ok : S.Op → Prop) (W : ω → ω' → Prop) (env : S.Env ω) (env' : S.Env ω') :
    Prop where
  answer : ∀ o w w', ok o → W w w' → (env o w).1 = (env' o w').1
  world : ∀ o w w', ok o → W w w' → W (env o w).2 (env' o w').2

/-- The runs in them have one result and one trace. -/
theorem Asks.exec {p : Prog S α} (h : p.Asks ok) {W : ω → ω' → Prop} {env : S.Env ω}
    {env' : S.Env ω'} (henv : Matches ok W env env') {w : ω} {w' : ω'} (hw : W w w') :
    (p.exec env w).value = (p.exec env' w').value ∧
      W (p.exec env w).world (p.exec env' w').world ∧
        (p.exec env w).trace = (p.exec env' w').trace := by
  induction p generalizing w w' with
  | ret a => exact ⟨rfl, hw, rfl⟩
  | ask o k ih =>
      have hanswer := henv.answer o w w' h.1 hw
      obtain ⟨hvalue, hworld, htrace⟩ :=
        ih (env o w).1 (h.2 (env o w).1) (henv.world o w w' h.1 hw)
      simp only [Prog.exec]
      rw [← hanswer]
      exact ⟨hvalue, hworld, by rw [htrace]⟩

end Prog

namespace Proc

variable {S : Signature} {σ α β : Type}

/-- From every state. -/
def Asks (ok : S.Op → Prop) (p : Proc S σ α) : Prop := ∀ s, (p s).Asks ok

variable {ok ok' : S.Op → Prop}

theorem Asks.mono {p : Proc S σ α} (h : p.Asks ok) (hok : ∀ o, ok o → ok' o) : p.Asks ok' :=
  fun s => (h s).mono hok

@[simp] theorem asks_pure (a : α) : (Pure.pure a : Proc S σ α).Asks ok := fun _ => trivial

@[simp] theorem asks_exit : (exit : Proc S σ α).Asks ok := fun _ => trivial

@[simp] theorem asks_get : (get : Proc S σ σ).Asks ok := fun _ => trivial

@[simp] theorem asks_modify (f : σ → σ) : (modify f : Proc S σ Unit).Asks ok := fun _ => trivial

theorem asks_ask {o : S.Op} (h : ok o) : (ask o : Proc S σ _).Asks ok :=
  fun _ => ⟨h, fun _ => trivial⟩

theorem Asks.bind {p : Proc S σ α} {f : α → Proc S σ β} (hp : p.Asks ok)
    (hf : ∀ a, (f a).Asks ok) : (p >>= f).Asks ok := by
  intro s
  refine Prog.Asks.bind (hp s) ?_
  rintro ⟨_ | a, t⟩
  · exact trivial
  · exact hf a t

theorem Asks.attempt {p : Proc S σ α} (hp : p.Asks ok) : (attempt p).Asks ok :=
  fun s => Prog.Asks.bind (hp s) fun _ => trivial

theorem Asks.ite {c : Prop} [Decidable c] {p q : Proc S σ α} (hp : p.Asks ok) (hq : q.Asks ok) :
    (if c then p else q).Asks ok := by
  split
  · exact hp
  · exact hq

/-- A step after another, where both only ask for this. -/
theorem Asks.seq {p : Proc S σ Unit} {q : Proc S σ β} (hp : p.Asks ok) (hq : q.Asks ok) :
    (p >>= fun _ => q).Asks ok :=
  hp.bind fun _ => hq

end Proc
