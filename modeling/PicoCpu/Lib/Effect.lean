import Mathlib.Data.List.Basic

/-!
Effectful programs as trees. A program asks its environment one operation at a time and
goes on with the answer; a trace is the list of operations with their answers. `All` is
the weakest precondition over traces: it quantifies over every answer the environment may
give, so what it says of a program holds of the run in any environment.
-/

/-- The operations a program can ask for, and the type of the answer to each. -/
structure Signature where
  Op : Type
  Answer : Op → Type

namespace Signature

/-- An operation with the answer it got. -/
abbrev Event (S : Signature) : Type := Sigma S.Answer

/-- What an environment promises about its answers. -/
abbrev Rely (S : Signature) : Type := ∀ o : S.Op, S.Answer o → Prop

/-- An environment with a state of its own. -/
abbrev Env (S : Signature) (ω : Type) : Type := (o : S.Op) → ω → S.Answer o × ω

end Signature

inductive Prog (S : Signature) (α : Type) where
  | ret (a : α)
  | ask (o : S.Op) (k : S.Answer o → Prog S α)

namespace Prog

variable {S : Signature} {α β ω : Type}

def bind : Prog S α → (α → Prog S β) → Prog S β
  | ret a, f => f a
  | ask o k, f => ask o fun r => (k r).bind f

@[simp] theorem bind_ret (p : Prog S α) : p.bind ret = p := by
  induction p with
  | ret a => rfl
  | ask o k ih =>
      rw [bind]
      congr 1
      funext r
      exact ih r

theorem bind_assoc {γ : Type} (p : Prog S α) (f : α → Prog S β) (g : β → Prog S γ) :
    (p.bind f).bind g = p.bind fun a => (f a).bind g := by
  induction p with
  | ret a => rfl
  | ask o k ih =>
      rw [bind, bind, bind]
      congr 1
      funext r
      exact ih r

/-- Whatever is answered within `rely`, the trace and the result satisfy `Q`. -/
def All (rely : S.Rely) : Prog S α → (List S.Event → α → Prop) → Prop
  | ret a, Q => Q [] a
  | ask o k, Q => ∀ r, rely o r → (k r).All rely fun tr a => Q (⟨o, r⟩ :: tr) a

theorem All.mono {rely : S.Rely} {p : Prog S α} {Q R : List S.Event → α → Prop}
    (h : p.All rely Q) (hQR : ∀ tr a, Q tr a → R tr a) : p.All rely R := by
  induction p generalizing Q R with
  | ret a => exact hQR _ _ h
  | ask o k ih =>
      intro r hr
      exact ih r (h r hr) fun tr a => hQR _ a

/-- What holds of everything holds of a program. -/
theorem All.of_forall {rely : S.Rely} {p : Prog S α} {Q : List S.Event → α → Prop}
    (h : ∀ tr a, Q tr a) : p.All rely Q := by
  induction p generalizing Q with
  | ret a => exact h [] a
  | ask o k ih => exact fun r _ => ih r fun tr a => h _ a

theorem all_bind {rely : S.Rely} {p : Prog S α} {f : α → Prog S β}
    {Q : List S.Event → β → Prop} :
    (p.bind f).All rely Q ↔
      p.All rely fun tr a => (f a).All rely fun tr' b => Q (tr ++ tr') b := by
  induction p generalizing Q with
  | ret a => rfl
  | ask o k ih =>
      constructor
      · intro h r hr
        exact (ih r).mp (h r hr)
      · intro h r hr
        exact (ih r).mpr (h r hr)

theorem All.and {rely : S.Rely} {p : Prog S α} {Q R : List S.Event → α → Prop}
    (hQ : p.All rely Q) (hR : p.All rely R) : p.All rely fun tr a => Q tr a ∧ R tr a := by
  induction p generalizing Q R with
  | ret a => exact ⟨hQ, hR⟩
  | ask o k ih =>
      intro r hr
      exact ih r (hQ r hr) (hR r hr)

/-! ### Runs in an environment -/

/-- The end of a run: the result, the environment's state, and what happened. -/
structure Outcome (S : Signature) (α ω : Type) where
  value : α
  world : ω
  trace : List S.Event

theorem outcome_eq_iff {o o' : Outcome S α ω} :
    o = o' ↔ o.value = o'.value ∧ o.world = o'.world ∧ o.trace = o'.trace := by
  rcases o with ⟨v, w, tr⟩
  rcases o' with ⟨v', w', tr'⟩
  simp

def exec (env : S.Env ω) : Prog S α → ω → Outcome S α ω
  | ret a, w => ⟨a, w, []⟩
  | ask o k, w =>
    let out := (k (env o w).1).exec env (env o w).2
    { out with trace := ⟨o, (env o w).1⟩ :: out.trace }

theorem exec_bind (env : S.Env ω) (p : Prog S α) (f : α → Prog S β) (w : ω) :
    (p.bind f).exec env w =
      { (f (p.exec env w).value).exec env (p.exec env w).world with
        trace := (p.exec env w).trace ++
          ((f (p.exec env w).value).exec env (p.exec env w).world).trace } := by
  induction p generalizing w with
  | ret a => rfl
  | ask o k ih =>
      rw [bind, exec, exec, ih]
      rfl

/-- What holds of every trace holds of the run in an environment that keeps its promise. -/
theorem All.exec {rely : S.Rely} {p : Prog S α} {Q : List S.Event → α → Prop}
    (h : p.All rely Q) {env : S.Env ω} (henv : ∀ o w, rely o (env o w).1) (w : ω) :
    Q (p.exec env w).trace (p.exec env w).value := by
  induction p generalizing Q w with
  | ret a => exact h
  | ask o k ih => exact ih _ (h _ (henv o w)) _

end Prog

/-! ### Programs over a state, with early return -/

/-- A program that owns a state and may return early, which leaves the state as it is. -/
def Proc (S : Signature) (σ α : Type) : Type := σ → Prog S (Option α × σ)

namespace Proc

variable {S : Signature} {σ α β : Type}

protected def pure (a : α) : Proc S σ α := fun s => .ret (some a, s)

protected def bind (p : Proc S σ α) (f : α → Proc S σ β) : Proc S σ β := fun s =>
  (p s).bind fun r =>
    match r.1 with
    | none => .ret (none, r.2)
    | some a => f a r.2

instance : Monad (Proc S σ) where
  pure := Proc.pure
  bind := Proc.bind

theorem bind_pure_some (p : Proc S σ α) : p.bind Proc.pure = p := by
  funext s
  have hleaf : (fun r : Option α × σ =>
      match r.1 with
      | none => Prog.ret (none, r.2)
      | some a => Proc.pure a r.2) = (Prog.ret : Option α × σ → Prog S (Option α × σ)) := by
    funext ⟨a, s'⟩
    cases a <;> rfl
  rw [Proc.bind, hleaf, Prog.bind_ret]

theorem bind_bind {γ : Type} (p : Proc S σ α) (f : α → Proc S σ β) (g : β → Proc S σ γ) :
    (p.bind f).bind g = p.bind fun a => (f a).bind g := by
  funext s
  rw [Proc.bind, Proc.bind, Prog.bind_assoc, Proc.bind]
  congr 1
  funext ⟨a, s'⟩
  cases a <;> rfl

instance : LawfulMonad (Proc S σ) :=
  LawfulMonad.mk' (Proc S σ) bind_pure_some (fun _ _ => rfl) bind_bind

/-- Return early. -/
def exit : Proc S σ α := fun s => .ret (none, s)

def get : Proc S σ σ := fun s => .ret (some s, s)

def modify (f : σ → σ) : Proc S σ Unit := fun s => .ret (some (), f s)

def ask (o : S.Op) : Proc S σ (S.Answer o) := fun s => .ask o fun r => .ret (some r, s)

/-- Run `p` and go on also where it returns early. -/
def attempt (p : Proc S σ α) : Proc S σ (Option α) := fun s =>
  (p s).bind fun r => .ret (some r.1, r.2)

/-- From state `s`, whatever is answered within `rely`: the trace, the result and the final
state satisfy `Q`. -/
def Post (rely : S.Rely) (p : Proc S σ α) (s : σ) (Q : List S.Event → Option α → σ → Prop) :
    Prop :=
  (p s).All rely fun tr r => Q tr r.1 r.2

section Rules

variable {rely : S.Rely} {s : σ}

theorem Post.mono {p : Proc S σ α} {Q R : List S.Event → Option α → σ → Prop}
    (h : p.Post rely s Q) (hQR : ∀ tr a s', Q tr a s' → R tr a s') : p.Post rely s R :=
  Prog.All.mono h fun tr r => hQR tr r.1 r.2

theorem Post.of_forall {p : Proc S σ α} {Q : List S.Event → Option α → σ → Prop}
    (h : ∀ tr a s', Q tr a s') : p.Post rely s Q :=
  Prog.All.of_forall fun tr r => h tr r.1 r.2

theorem Post.and {p : Proc S σ α} {Q R : List S.Event → Option α → σ → Prop}
    (hQ : p.Post rely s Q) (hR : p.Post rely s R) :
    p.Post rely s fun tr a s' => Q tr a s' ∧ R tr a s' :=
  Prog.All.and hQ hR

@[simp] theorem post_pure {a : α} {Q : List S.Event → Option α → σ → Prop} :
    (Pure.pure a : Proc S σ α).Post rely s Q ↔ Q [] (some a) s := Iff.rfl

@[simp] theorem post_exit {Q : List S.Event → Option α → σ → Prop} :
    (exit : Proc S σ α).Post rely s Q ↔ Q [] none s := Iff.rfl

@[simp] theorem post_get {Q : List S.Event → Option σ → σ → Prop} :
    (get : Proc S σ σ).Post rely s Q ↔ Q [] (some s) s := Iff.rfl

@[simp] theorem post_modify {f : σ → σ} {Q : List S.Event → Option Unit → σ → Prop} :
    (modify f : Proc S σ Unit).Post rely s Q ↔ Q [] (some ()) (f s) := Iff.rfl

@[simp] theorem post_ask {o : S.Op} {Q : List S.Event → Option (S.Answer o) → σ → Prop} :
    (ask o : Proc S σ _).Post rely s Q ↔ ∀ r, rely o r → Q [⟨o, r⟩] (some r) s := Iff.rfl

@[simp] theorem post_bind {p : Proc S σ α} {f : α → Proc S σ β}
    {Q : List S.Event → Option β → σ → Prop} :
    (p >>= f).Post rely s Q ↔
      p.Post rely s fun tr a s' =>
        match a with
        | none => Q tr none s'
        | some a => (f a).Post rely s' fun tr' b s'' => Q (tr ++ tr') b s'' := by
  unfold Post
  rw [show (p >>= f) s = Proc.bind p f s from rfl, Proc.bind, Prog.all_bind]
  constructor <;>
  · intro h
    refine h.mono ?_
    rintro tr ⟨_ | a, s'⟩ hr
    · simpa [Prog.All] using hr
    · exact hr

theorem post_ask_bind {o : S.Op} {k : S.Answer o → Proc S σ β}
    {Q : List S.Event → Option β → σ → Prop} :
    ((ask o : Proc S σ _) >>= k).Post rely s Q ↔
      ∀ r, rely o r → (k r).Post rely s fun tr b s' => Q (⟨o, r⟩ :: tr) b s' := by
  rw [post_bind, post_ask]
  rfl

@[simp] theorem post_attempt {p : Proc S σ α} {Q : List S.Event → Option (Option α) → σ → Prop} :
    (attempt p).Post rely s Q ↔ p.Post rely s fun tr a s' => Q tr (some a) s' := by
  unfold Post attempt
  rw [Prog.all_bind]
  simp only [Prog.All, List.append_nil]

end Rules

/-! ### Runs of a program -/

section Run

variable {ω : Type} (env : S.Env ω)

/-- The run from a state and a world. -/
def run (p : Proc S σ α) (s : σ) (w : ω) : Prog.Outcome S (Option α × σ) ω := (p s).exec env w

/-- Go on from where a run ended, unless it returned early. -/
def andThen (o : Prog.Outcome S (Option α × σ) ω)
    (k : α → σ → ω → Prog.Outcome S (Option β × σ) ω) : Prog.Outcome S (Option β × σ) ω :=
  match o.value.1 with
  | none => ⟨(none, o.value.2), o.world, o.trace⟩
  | some a => { k a o.value.2 o.world with trace := o.trace ++ (k a o.value.2 o.world).trace }

@[simp] theorem andThen_none (s : σ) (w : ω) (tr : List S.Event)
    (k : α → σ → ω → Prog.Outcome S (Option β × σ) ω) :
    andThen ⟨(none, s), w, tr⟩ k = ⟨(none, s), w, tr⟩ := rfl

@[simp] theorem andThen_some (a : α) (s : σ) (w : ω) (tr : List S.Event)
    (k : α → σ → ω → Prog.Outcome S (Option β × σ) ω) :
    andThen ⟨(some a, s), w, tr⟩ k = { k a s w with trace := tr ++ (k a s w).trace } := rfl

@[simp] theorem run_pure (a : α) (s : σ) (w : ω) :
    (Pure.pure a : Proc S σ α).run env s w = ⟨(some a, s), w, []⟩ := rfl

@[simp] theorem run_exit (s : σ) (w : ω) :
    (exit : Proc S σ α).run env s w = ⟨(none, s), w, []⟩ := rfl

@[simp] theorem run_get (s : σ) (w : ω) :
    (get : Proc S σ σ).run env s w = ⟨(some s, s), w, []⟩ := rfl

@[simp] theorem run_modify (f : σ → σ) (s : σ) (w : ω) :
    (modify f : Proc S σ Unit).run env s w = ⟨(some (), f s), w, []⟩ := rfl

@[simp] theorem run_ask (o : S.Op) (s : σ) (w : ω) :
    (ask o : Proc S σ _).run env s w = ⟨(some (env o w).1, s), (env o w).2, [⟨o, (env o w).1⟩]⟩ :=
  rfl

@[simp] theorem run_bind (p : Proc S σ α) (f : α → Proc S σ β) (s : σ) (w : ω) :
    (p >>= f).run env s w = andThen (p.run env s w) fun a s' w' => (f a).run env s' w' := by
  change (Proc.bind p f s).exec env w = andThen ((p s).exec env w) _
  rw [Proc.bind, Prog.exec_bind]
  generalize (p s).exec env w = out
  rcases out with ⟨⟨_ | a, s'⟩, w', tr⟩
  · simp [Prog.exec]
  · rfl

theorem run_attempt (p : Proc S σ α) (s : σ) (w : ω) :
    (attempt p).run env s w =
      ⟨(some (p.run env s w).value.1, (p.run env s w).value.2), (p.run env s w).world,
        (p.run env s w).trace⟩ := by
  rw [run, attempt, Prog.exec_bind, Prog.exec, List.append_nil]
  rfl

@[simp] theorem run_map (f : α → β) (p : Proc S σ α) (s : σ) (w : ω) :
    (f <$> p).run env s w = andThen (p.run env s w) fun a s' w' => ⟨(some (f a), s'), w', []⟩ :=
  run_bind env p (fun a => Pure.pure (f a)) s w

theorem andThen_trace_ne {o : Prog.Outcome S (Option α × σ) ω}
    {k : α → σ → ω → Prog.Outcome S (Option β × σ) ω} (h : o.trace ≠ []) :
    (andThen o k).trace ≠ [] := by
  rcases o with ⟨⟨_ | a, s⟩, w, tr⟩
  · exact h
  · intro hnil
    exact h (List.append_eq_nil_iff.mp hnil).1

end Run

end Proc
