import Mathlib.Data.List.Basic

/-!
Pull parsers. A parser is a tree of symbol requests; it is run against a source that is
addressed by a `w`-bit offset, which the parser only ever moves forward by one. What a
parser can return, and on which symbols, does not depend on the source (`Yields`), so
facts about results are proved on the tree and then read off any run.
-/

/-- A parser over symbols `β` with errors `ε`. -/
inductive Parse (β ε α : Type) where
  | ret (a : α)
  | fail (e : ε)
  | next (k : β → Parse β ε α)

namespace Parse

variable {β ε α γ : Type}

def bind : Parse β ε α → (α → Parse β ε γ) → Parse β ε γ
  | ret a, f => f a
  | fail e, _ => fail e
  | next k, f => next fun b => (k b).bind f

instance : Monad (Parse β ε) where
  pure := ret
  bind := bind

/-- One symbol. -/
def symbol : Parse β ε β := next ret

@[simp] theorem pure_eq (a : α) : (pure a : Parse β ε α) = ret a := rfl

@[simp] theorem ret_bind (a : α) (f : α → Parse β ε γ) : (ret a >>= f) = f a := rfl

@[simp] theorem fail_bind (e : ε) (f : α → Parse β ε γ) : (fail e >>= f) = fail e := rfl

@[simp] theorem next_bind (k : β → Parse β ε α) (f : α → Parse β ε γ) :
    (next k >>= f) = next fun b => k b >>= f := rfl

@[simp] theorem symbol_bind (f : β → Parse β ε γ) : (symbol >>= f) = next f := rfl

/-- The first alternative that applies. -/
def firstOf (e : ε) : List (Option (Parse β ε α)) → Parse β ε α
  | [] => fail e
  | some p :: _ => p
  | none :: rest => firstOf e rest

/-- An alternative behind a guard. -/
def when (c : Bool) (p : Parse β ε α) : Option (Parse β ε α) := if c then some p else none

theorem when_eq_some {c : Bool} {p q : Parse β ε α} : when c p = some q ↔ c = true ∧ p = q := by
  rw [when, Option.ite_none_right_eq_some, Option.some.injEq]

/-! ### Results -/

/-- Fed exactly the symbols `bs`, the parser returns `a`. -/
inductive Yields : Parse β ε α → List β → α → Prop where
  | ret (a : α) : Yields (ret a) [] a
  | next {k : β → Parse β ε α} {b : β} {bs : List β} {a : α} (h : Yields (k b) bs a) :
      Yields (next k) (b :: bs) a

theorem yields_bind {p : Parse β ε α} {f : α → Parse β ε γ} {bs : List β} {c : γ} :
    Yields (p >>= f) bs c ↔
      ∃ bs₁ bs₂ a, bs = bs₁ ++ bs₂ ∧ Yields p bs₁ a ∧ Yields (f a) bs₂ c := by
  constructor
  · intro h
    induction p generalizing bs with
    | ret a => exact ⟨[], bs, a, rfl, .ret a, h⟩
    | fail e => cases h
    | next k ih =>
        cases h with
        | next h =>
            obtain ⟨bs₁, bs₂, a, rfl, hp, hf⟩ := ih _ h
            exact ⟨_ :: bs₁, bs₂, a, rfl, .next hp, hf⟩
  · rintro ⟨bs₁, bs₂, a, rfl, hp, hf⟩
    induction hp with
    | ret a => exact hf
    | next _ ih => exact .next (ih hf)

/-- Every result satisfies `Q`, together with the symbols it was parsed from. -/
def Post (p : Parse β ε α) (Q : α → List β → Prop) : Prop := ∀ bs a, Yields p bs a → Q a bs

theorem Post.mono {p : Parse β ε α} {Q R : α → List β → Prop} (h : Post p Q)
    (hQR : ∀ a bs, Q a bs → R a bs) : Post p R :=
  fun bs a hy => hQR a bs (h bs a hy)

theorem post_ret {a : α} {Q : α → List β → Prop} (h : Q a []) : Post (ret a : Parse β ε α) Q := by
  intro bs a' hy
  cases hy
  exact h

theorem post_fail {e : ε} {Q : α → List β → Prop} : Post (fail e : Parse β ε α) Q := by
  intro bs a hy
  cases hy

theorem post_next {k : β → Parse β ε α} {Q : α → List β → Prop}
    (h : ∀ b, Post (k b) fun a bs => Q a (b :: bs)) : Post (next k) Q := by
  intro bs a hy
  cases hy with
  | next hy => exact h _ _ _ hy

theorem post_bind {p : Parse β ε α} {f : α → Parse β ε γ} {R : α → List β → Prop}
    {Q : γ → List β → Prop} (hp : Post p R)
    (hf : ∀ a bs, R a bs → Post (f a) fun c bs' => Q c (bs ++ bs')) : Post (p >>= f) Q := by
  intro bs c hy
  obtain ⟨bs₁, bs₂, a, rfl, hya, hyc⟩ := yields_bind.mp hy
  exact hf a bs₁ (hp bs₁ a hya) bs₂ c hyc

theorem post_firstOf {e : ε} {ps : List (Option (Parse β ε α))} {Q : α → List β → Prop}
    (h : ∀ p ∈ ps, ∀ q, p = some q → Post q Q) : Post (firstOf e ps) Q := by
  induction ps with
  | nil => exact post_fail
  | cons p rest ih =>
      cases p with
      | none => exact ih fun p hp => h p (List.mem_cons_of_mem _ hp)
      | some q => exact h _ (List.mem_cons_self ..) q rfl

/-- A result satisfies what its symbols yield. -/
theorem post_yields (p : Parse β ε α) : Post p fun a bs => Yields p bs a := fun _ _ h => h

/-- Every alternative that applies satisfies `Q`. -/
def Arms (ps : List (Option (Parse β ε α))) (Q : α → List β → Prop) : Prop :=
  ∀ q, some q ∈ ps → Post q Q

theorem Arms.firstOf {e : ε} {ps : List (Option (Parse β ε α))} {Q : α → List β → Prop}
    (h : Arms ps Q) : Post (firstOf e ps) Q :=
  post_firstOf fun _ hp q hq => h q (hq ▸ hp)

theorem arms_nil {Q : α → List β → Prop} : Arms ([] : List (Option (Parse β ε α))) Q :=
  fun _ h => absurd h List.not_mem_nil

theorem arms_append {ps qs : List (Option (Parse β ε α))} {Q : α → List β → Prop}
    (hp : Arms ps Q) (hq : Arms qs Q) : Arms (ps ++ qs) Q := by
  intro q h
  rcases List.mem_append.mp h with h | h
  · exact hp q h
  · exact hq q h

theorem arms_ite {c : Prop} [Decidable c] {ps qs : List (Option (Parse β ε α))}
    {Q : α → List β → Prop} (hp : c → Arms ps Q) (hq : ¬ c → Arms qs Q) :
    Arms (if c then ps else qs) Q := by
  split
  · exact hp ‹_›
  · exact hq ‹_›

/-- One alternative of a list. -/
def Arm (p : Option (Parse β ε α)) (Q : α → List β → Prop) : Prop := ∀ q, p = some q → Post q Q

theorem arms_cons {p : Option (Parse β ε α)} {ps : List (Option (Parse β ε α))}
    {Q : α → List β → Prop} (h : Arm p Q) (hps : Arms ps Q) : Arms (p :: ps) Q := by
  intro q hq
  rcases List.mem_cons.mp hq with heq | hmem
  · exact h q heq.symm
  · exact hps q hmem

theorem arm_when {c : Bool} {p : Parse β ε α} {Q : α → List β → Prop} (h : c = true → Post p Q) :
    Arm (when c p) Q := by
  intro q hq
  obtain ⟨hc, rfl⟩ := when_eq_some.mp hq
  exact h hc

theorem arm_ite {c : Prop} [Decidable c] {p q : Option (Parse β ε α)} {Q : α → List β → Prop}
    (hp : c → Arm p Q) (hq : ¬ c → Arm q Q) : Arm (if c then p else q) Q := by
  split
  · exact hp ‹_›
  · exact hq ‹_›

theorem arm_none {Q : α → List β → Prop} : Arm (none : Option (Parse β ε α)) Q :=
  fun _ h => nomatch h

/-! ### Running against a source -/

section Run

variable {w : Nat}

def run (fetch : BitVec w → Except ε β) : Parse β ε α → BitVec w → Except ε (α × BitVec w)
  | ret a, c => .ok (a, c)
  | fail e, _ => .error e
  | next k, c =>
    match fetch c with
    | .error e => .error e
    | .ok b => run fetch (k b) (c + 1)

/-- The offsets a run asks the source for, in order. -/
def offsets (fetch : BitVec w → Except ε β) : Parse β ε α → BitVec w → List (BitVec w)
  | ret _, _ => []
  | fail _, _ => []
  | next k, c =>
    c :: match fetch c with
      | .error _ => []
      | .ok b => offsets fetch (k b) (c + 1)

theorem run_bind (fetch : BitVec w → Except ε β) (p : Parse β ε α) (f : α → Parse β ε γ)
    (c : BitVec w) :
    run fetch (p >>= f) c =
      match run fetch p c with
      | .error e => .error e
      | .ok (a, c') => run fetch (f a) c' := by
  induction p generalizing c with
  | ret a => rfl
  | fail e => rfl
  | next k ih =>
      rw [next_bind, run, run]
      cases fetch c with
      | error e => rfl
      | ok b => exact ih b (c + 1)

theorem offsets_bind (fetch : BitVec w → Except ε β) (p : Parse β ε α) (f : α → Parse β ε γ)
    (c : BitVec w) :
    offsets fetch (p >>= f) c =
      offsets fetch p c ++
        match run fetch p c with
        | .error _ => []
        | .ok (a, c') => offsets fetch (f a) c' := by
  induction p generalizing c with
  | ret a => rfl
  | fail e => rfl
  | next k ih =>
      rw [next_bind, offsets, offsets, run]
      cases fetch c with
      | error e => rfl
      | ok b =>
          simp only [List.cons_append]
          rw [ih b (c + 1)]

/-- The source holds the symbols `bs` from offset `c` on. -/
def Holds (fetch : BitVec w → Except ε β) : BitVec w → List β → Prop
  | _, [] => True
  | c, b :: bs => fetch c = .ok b ∧ Holds fetch (c + 1) bs

/-- Moving forward once more. -/
theorem add_one_add (c : BitVec w) (n : Nat) :
    c + 1 + BitVec.ofNat w n = c + BitVec.ofNat w (n + 1) := by
  rw [BitVec.ofNat_add, BitVec.add_assoc]
  exact congrArg (c + ·) (BitVec.add_comm _ _)

theorem holds_append {fetch : BitVec w → Except ε β} {c : BitVec w} (bs : List β) {bs' : List β} :
    Holds fetch c (bs ++ bs') ↔
      Holds fetch c bs ∧ Holds fetch (c + BitVec.ofNat w bs.length) bs' := by
  induction bs generalizing c with
  | nil => simp [Holds]
  | cons b rest ih =>
      rw [List.cons_append, Holds, Holds, ih, List.length_cons, add_one_add, and_assoc]

theorem holds_iff {fetch : BitVec w → Except ε β} {c : BitVec w} {bs : List β} :
    Holds fetch c bs ↔ ∀ i (h : i < bs.length), fetch (c + BitVec.ofNat w i) = .ok (bs[i]) := by
  induction bs generalizing c with
  | nil => simp [Holds]
  | cons b rest ih =>
      rw [Holds, ih]
      constructor
      · rintro ⟨hb, hrest⟩ i hi
        cases i with
        | zero => simpa using hb
        | succ i =>
            have h := hrest i (by simpa using hi)
            rwa [add_one_add] at h
      · intro h
        constructor
        · have hfirst := h 0 (by simp)
          rwa [BitVec.add_zero] at hfirst
        · intro i hi
          rw [add_one_add]
          exact h (i + 1) (by simpa using hi)

/-- A run returns `a` exactly when the source holds symbols that yield it. -/
theorem run_eq_ok {fetch : BitVec w → Except ε β} {p : Parse β ε α} {c c' : BitVec w} {a : α} :
    run fetch p c = .ok (a, c') ↔
      ∃ bs, Yields p bs a ∧ Holds fetch c bs ∧ c' = c + BitVec.ofNat w bs.length := by
  constructor
  · intro h
    induction p generalizing c with
    | ret a' =>
        rw [run, Except.ok.injEq, Prod.mk.injEq] at h
        obtain ⟨rfl, rfl⟩ := h
        exact ⟨[], .ret _, trivial, by simp⟩
    | fail e => cases h
    | next k ih =>
        rw [run] at h
        cases hb : fetch c with
        | error e => rw [hb] at h; cases h
        | ok b =>
            rw [hb] at h
            obtain ⟨bs, hy, hholds, hc⟩ := ih b h
            refine ⟨b :: bs, .next hy, ⟨hb, hholds⟩, ?_⟩
            rw [hc, List.length_cons, add_one_add]
  · rintro ⟨bs, hy, hholds, rfl⟩
    induction hy generalizing c with
    | ret a => simp [run]
    | @next k b bs a hy ih =>
        obtain ⟨hb, hrest⟩ := hholds
        rw [run, hb]
        simp only
        rw [ih hrest, List.length_cons, add_one_add]

/-- The offsets of a run that yields from `bs` are those of `bs`, in order. -/
theorem offsets_eq {fetch : BitVec w → Except ε β} {p : Parse β ε α} {c : BitVec w} {bs : List β}
    {a : α} (hy : Yields p bs a) (hholds : Holds fetch c bs) :
    offsets fetch p c = (List.range bs.length).map fun i => c + BitVec.ofNat w i := by
  induction hy generalizing c with
  | ret a => rfl
  | @next k b bs a hy ih =>
      obtain ⟨hb, hrest⟩ := hholds
      rw [offsets, hb]
      simp only
      rw [ih hrest, List.length_cons, List.range_succ_eq_map, List.map_cons, List.map_map]
      congr 1
      · simp
      · apply List.map_congr_left
        intro i _
        exact add_one_add c i

end Run

end Parse
