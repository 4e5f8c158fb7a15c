import PicoCpu.Lib.LaneMachine
import Mathlib.Tactic.Common

/-!
SHA-1 compression, and the schedule of SIMD instructions that computes it: twenty groups of four
rounds, whose round inputs are derived from the message while earlier groups run. The schedule is
followed exactly where the round, message and carry instructions meet the rounds and words of the
group.
-/

namespace Sha1

open Lanes

abbrev Word := BitVec 32

/-! ### The compression function -/

def ch (x y z : Word) : Word := (x &&& y) ^^^ (~~~x &&& z)
def parity (x y z : Word) : Word := x ^^^ y ^^^ z
def maj (x y z : Word) : Word := (x &&& y) ^^^ (x &&& z) ^^^ (y &&& z)

def f (t : Nat) : Word → Word → Word → Word :=
  if t ≤ 19 then ch else if t ≤ 39 then parity else if t ≤ 59 then maj else parity

def k (t : Nat) : Word :=
  if t ≤ 19 then 0x5A827999
  else if t ≤ 39 then 0x6ED9EBA1
  else if t ≤ 59 then 0x8F1BBCDC
  else 0xCA62C1D6

/-- The message schedule. -/
def w (M : Nat → Word) (t : Nat) : Word :=
  if t < 16 then M t else (w M (t - 3) ^^^ w M (t - 8) ^^^ w M (t - 14) ^^^ w M (t - 16)).rotateLeft 1
termination_by t

/-- The working variables. -/
@[ext] structure Vars where
  a : Word
  b : Word
  c : Word
  d : Word
  e : Word
deriving DecidableEq

def Vars.round (v : Vars) (t : Nat) (w : Word) : Vars where
  a := v.a.rotateLeft 5 + f t v.b v.c v.d + v.e + k t + w
  b := v.a
  c := v.b.rotateLeft 30
  d := v.c
  e := v.d

/-- The working variables after `t` rounds. -/
def vars (H : Vars) (M : Nat → Word) : Nat → Vars
  | 0 => H
  | t + 1 => (vars H M t).round t (w M t)

def Vars.add (u v : Vars) : Vars := ⟨u.a + v.a, u.b + v.b, u.c + v.c, u.d + v.d, u.e + v.e⟩

def compress (H : Vars) (M : Nat → Word) : Vars := H.add (vars H M 80)

/-- The rounds of one group of twenty have one function and one constant. -/
theorem f_congr {t t' : Nat} (h : t / 20 = t' / 20) : f t = f t' := by
  have h19 : t ≤ 19 ↔ t' ≤ 19 := by omega
  have h39 : t ≤ 39 ↔ t' ≤ 39 := by omega
  have h59 : t ≤ 59 ↔ t' ≤ 59 := by omega
  simp only [f, h19, h39, h59]

theorem k_congr {t t' : Nat} (h : t / 20 = t' / 20) : k t = k t' := by
  have h19 : t ≤ 19 ↔ t' ≤ 19 := by omega
  have h39 : t ≤ 39 ↔ t' ≤ 39 := by omega
  have h59 : t ≤ 59 ↔ t' ≤ 59 := by omega
  simp only [k, h19, h39, h59]

theorem w_add (M : Nat → Word) (t : Nat) :
    w M (t + 16) = (w M (t + 13) ^^^ w M (t + 8) ^^^ w M (t + 2) ^^^ w M t).rotateLeft 1 := by
  rw [w, if_neg (by omega)]
  rfl

/-! ### The schedule -/

inductive Op where
  | paddd
  | movdqa
  | pxor
  | rnds4 (group : Nat)
  | nexte
  | msg1
  | msg2

/-- The four instructions, as functions of destination and source. -/
structure Ops where
  rnds4 : Nat → Quad → Quad → Quad
  nexte : Quad → Quad → Quad
  msg1 : Quad → Quad → Quad
  msg2 : Quad → Quad → Quad

def Ops.meaning (ops : Ops) : Meaning Op
  | .paddd, _, d, s => d.map₂ (· + ·) s
  | .movdqa, _, _, s => s
  | .pxor, _, d, s => d.map₂ (· ^^^ ·) s
  | .rnds4 group, _, d, s => ops.rnds4 group d s
  | .nexte, _, d, s => ops.nexte d s
  | .msg1, _, d, s => ops.msg1 d s
  | .msg2, _, d, s => ops.msg2 d s

/-- The registers: the working variables, two that take turns for `e`, four for the message, and
the chaining state for the end. -/
def abcd : Nat := 0
def eReg (k : Nat) : Nat := 1 + k % 2
def msg (i : Nat) : Nat := 3 + i % 4
def abcdSave : Nat := 7
def eSave : Nat := 8

/-- The chaining state and the block in their registers, the first word in the top lane. -/
def loads (H : Vars) (M : Nat → Word) : List (Nat × Quad) :=
  let e : Quad := ⟨H.e, 0, 0, 0⟩
  let words (i : Nat) : Quad := ⟨M (4 * i), M (4 * i + 1), M (4 * i + 2), M (4 * i + 3)⟩
  [(abcd, ⟨H.a, H.b, H.c, H.d⟩), (eReg 0, e), (abcdSave, ⟨H.a, H.b, H.c, H.d⟩), (eSave, e),
    (msg 0, words 0), (msg 1, words 1), (msg 2, words 2), (msg 3, words 3)]

def setup (H : Vars) (M : Nat → Word) : List (Step Op) := (loads H M).map fun l => .load l.1 l.2

/-- The rounds `4k` to `4k + 3`, with the steps towards the words of the next three groups. -/
def group (k : Nat) : List (Step Op) :=
  [.op (if k = 0 then .paddd else .nexte) (eReg k) (msg k), .op .movdqa (eReg (k + 1)) abcd] ++
    onlyIf (3 ≤ k ∧ k ≤ 18) (.op .msg2 (msg (k + 1)) (msg k)) ++
    [.op (.rnds4 (k / 5)) abcd (eReg k)] ++
    onlyIf (1 ≤ k ∧ k ≤ 16) (.op .msg1 (msg (k + 3)) (msg k)) ++
    onlyIf (2 ≤ k ∧ k ≤ 17) (.op .pxor (msg (k + 2)) (msg k))

def groups (n : Nat) : List (Step Op) := upTo group n

/-- The chaining state is added at the end. -/
def finish : List (Step Op) := [.op .nexte (eReg 20) eSave, .op .paddd abcd abcdSave]

/-! ### What the registers hold -/

section Holds

variable (H : Vars) (M : Nat → Word)

def Vars.quad (v : Vars) : Quad := ⟨v.a, v.b, v.c, v.d⟩

/-- Four words of the schedule. -/
def words (i : Nat) : Quad := ⟨w M (4 * i), w M (4 * i + 1), w M (4 * i + 2), w M (4 * i + 3)⟩

/-- The words of group `i + 4` after the first message instruction. -/
def half (i : Nat) : Quad :=
  ⟨w M (4 * i) ^^^ w M (4 * i + 2), w M (4 * i + 1) ^^^ w M (4 * i + 3),
    w M (4 * i + 2) ^^^ w M (4 * i + 4), w M (4 * i + 3) ^^^ w M (4 * i + 5)⟩

/-- After the exclusive or with the words of group `i + 2`. -/
def mixed (i : Nat) : Quad := (half M i).map₂ (· ^^^ ·) (words M (i + 2))

/-- The words of a group, with `e` added to the first. -/
def withE (k : Nat) : Quad := { words M k with l3 := w M (4 * k) + (vars H M (4 * k)).e }

/-- The registers before group `k`. -/
structure Holds (k : Nat) (R : Regs) : Prop where
  state : R abcd = (vars H M (4 * k)).quad
  carry : R (eReg k) = if k = 0 then ⟨H.e, 0, 0, 0⟩ else (vars H M (4 * (k - 1))).quad
  slots : ∀ i, k ≤ i → i ≤ k + 3 → i < 20 → R (msg i) = slot (words M) (half M) (mixed M) k i
  saved : R abcdSave = H.quad ∧ R eSave = ⟨H.e, 0, 0, 0⟩

theorem holds_setup (m : Meaning Op) (R : Regs) : Holds H M 0 (run m (setup H M) R) := by
  have hdistinct : ((loads H M).map Prod.fst).Nodup := by
    change [0, 1, 7, 8, 3, 4, 5, 6].Nodup
    decide
  have hloaded {r : Nat} {v : Quad} (hmem : (r, v) ∈ loads H M) : run m (setup H M) R r = v :=
    run_loads hdistinct hmem R
  have hwords (i : Nat) (hi : i < 4) :
      words M i = ⟨M (4 * i), M (4 * i + 1), M (4 * i + 2), M (4 * i + 3)⟩ := by
    have hw (t : Nat) (ht : t < 16) : w M t = M t := by rw [w, if_pos ht]
    rw [words, hw _ (by omega), hw _ (by omega), hw _ (by omega), hw _ (by omega)]
  refine ⟨hloaded (by simp [loads, Vars.quad, vars]), hloaded (by simp [loads]), ?_,
    hloaded (by simp [loads, Vars.quad]), hloaded (by simp [loads])⟩
  intro i _ hi _
  rw [slot_early _ _ _ hi, hwords i (by omega)]
  rcases (by omega : i = 0 ∨ i = 1 ∨ i = 2 ∨ i = 3) with rfl | rfl | rfl | rfl
  · exact hloaded (by simp [loads])
  · exact hloaded (by simp [loads])
  · exact hloaded (by simp [loads])
  · exact hloaded (by simp [loads])

/-- The instructions of group `k` compute what the schedule needs of them. -/
structure Meets (ops : Ops) (k : Nat) : Prop where
  nexte : k ≠ 0 → ops.nexte (vars H M (4 * (k - 1))).quad (words M k) = withE H M k
  rnds4 : ops.rnds4 (k / 5) (vars H M (4 * k)).quad (withE H M k) =
    (vars H M (4 * (k + 1))).quad
  msg1 : 1 ≤ k → k ≤ 16 → ops.msg1 (words M (k - 1)) (words M k) = half M (k - 1)
  msg2 : 3 ≤ k → k ≤ 18 → ops.msg2 (mixed M (k - 3)) (words M k) = words M (k + 1)

end Holds

/-! ### One group -/

section Group

variable (ops : Ops) (k : Nat) (R : Regs)

/-- The source of the round instruction. -/
def roundInput : Quad :=
  if k = 0 then (R (eReg k)).map₂ (· + ·) (R (msg k)) else ops.nexte (R (eReg k)) (R (msg k))

/-- What one group leaves in a register. -/
theorem run_group (r : Nat) : run ops.meaning (group k) R r =
    if r = msg (k + 2) ∧ 2 ≤ k ∧ k ≤ 17 then
      (R (msg (k + 2))).map₂ (· ^^^ ·) (R (msg k))
    else if r = msg (k + 3) ∧ 1 ≤ k ∧ k ≤ 16 then ops.msg1 (R (msg (k + 3))) (R (msg k))
    else if r = abcd then ops.rnds4 (k / 5) (R abcd) (roundInput ops k R)
    else if r = msg (k + 1) ∧ 3 ≤ k ∧ k ≤ 18 then ops.msg2 (R (msg (k + 1))) (R (msg k))
    else if r = eReg (k + 1) then R abcd
    else if r = eReg k then roundInput ops k R
    else R r := by
  have hinput : ops.meaning (if k = 0 then .paddd else .nexte) (R 0) (R (eReg k)) (R (msg k)) =
      roundInput ops k R := by
    unfold roundInput
    split
    · rfl
    · rfl
  have hmsg (i j : Nat) : msg (k + i) = msg (k + j) ↔ i % 4 = j % 4 := by
    unfold msg
    omega
  have hmsg0 (i : Nat) : msg k = msg (k + i) ↔ i % 4 = 0 := by
    unfold msg
    omega
  have hmsg_e (i j : Nat) : msg i ≠ eReg j ∧ eReg j ≠ msg i := by
    unfold msg eReg
    omega
  have habcd (i : Nat) : msg i ≠ abcd ∧ abcd ≠ msg i ∧ abcd ≠ eReg i := by
    unfold msg eReg abcd
    omega
  have hnext : eReg k ≠ eReg (k + 1) := by
    unfold eReg
    omega
  simp only [group, run_append, run_cons, run_nil, run_onlyIf_apply, apply_op, hinput]
  simp [hmsg, hmsg0, hmsg_e, habcd, hnext, Ops.meaning]

/-- The registers that the next group reads. -/
theorem run_group_abcd : run ops.meaning (group k) R abcd =
    ops.rnds4 (k / 5) (R abcd) (roundInput ops k R) := by
  have hne (i : Nat) : abcd ≠ msg i := by
    unfold abcd msg
    omega
  rw [run_group, if_neg fun hand => hne _ hand.1, if_neg fun hand => hne _ hand.1, if_pos rfl]

theorem run_group_e : run ops.meaning (group k) R (eReg (k + 1)) = R abcd := by
  have hne (i : Nat) : eReg (k + 1) ≠ msg i := by
    unfold eReg msg
    omega
  have habcd : eReg (k + 1) ≠ abcd := by
    unfold eReg abcd
    omega
  rw [run_group, if_neg fun hand => hne _ hand.1, if_neg fun hand => hne _ hand.1, if_neg habcd,
    if_neg fun hand => hne _ hand.1, if_pos rfl]

theorem run_group_saved {r : Nat} (hr : r = abcdSave ∨ r = eSave) :
    run ops.meaning (group k) R r = R r := by
  have hne (i : Nat) : r ≠ msg i := by
    unfold abcdSave eSave at hr
    unfold msg
    omega
  have he (i : Nat) : r ≠ eReg i ∧ r ≠ abcd := by
    unfold abcdSave eSave at hr
    unfold eReg abcd
    omega
  rw [run_group, if_neg fun hand => hne _ hand.1, if_neg fun hand => hne _ hand.1,
    if_neg (he 0).2, if_neg fun hand => hne _ hand.1, if_neg (he _).1, if_neg (he _).1]

theorem run_group_msg (i : Nat) (hk : k + 1 ≤ i) (hi : i ≤ k + 4) :
    run ops.meaning (group k) R (msg i) =
      if i = k + 1 ∧ 3 ≤ k ∧ k ≤ 18 then ops.msg2 (R (msg (k + 1))) (R (msg k))
      else if i = k + 2 ∧ 2 ≤ k ∧ k ≤ 17 then (R (msg (k + 2))).map₂ (· ^^^ ·) (R (msg k))
      else if i = k + 3 ∧ 1 ≤ k ∧ k ≤ 16 then ops.msg1 (R (msg (k + 3))) (R (msg k))
      else R (msg i) := by
  have hsame (j : Nat) (hj : 1 ≤ j ∧ j ≤ 4) : msg i = msg (k + j) ↔ i = k + j := by
    unfold msg
    omega
  have he (j : Nat) : msg i ≠ eReg j := by
    unfold msg eReg
    omega
  have habcd : msg i ≠ abcd := by
    unfold msg abcd
    omega
  rw [run_group]
  simp only [hsame 1 (by decide), hsame 2 (by decide), hsame 3 (by decide), he, habcd, if_false]
  by_cases h1 : i = k + 1
  · have h2 : i ≠ k + 2 := by omega
    have h3 : i ≠ k + 3 := by omega
    simp only [h2, h3, false_and, if_false]
  · simp only [h1, false_and, if_false]

end Group

/-! ### Runs of groups -/

section Runs

variable {ops : Ops} {H : Vars} {M : Nat → Word} {k : Nat} {R : Regs}

theorem Holds.roundInput_eq (h : Holds H M k R) (hk : k < 20)
    (hnexte : k ≠ 0 → ops.nexte (vars H M (4 * (k - 1))).quad (words M k) = withE H M k) :
    roundInput ops k R = withE H M k := by
  have hmsg : R (msg k) = words M k := by rw [h.slots k (by omega) (by omega) hk, slot_self]
  unfold roundInput
  rw [h.carry, hmsg]
  by_cases hk0 : k = 0
  · subst hk0
    rw [if_pos rfl, if_pos rfl]
    simp [Quad.map₂, words, withE, vars, BitVec.add_comm]
  · rw [if_neg hk0, if_neg hk0]
    exact hnexte hk0

/-- The registers hold what they should after a group exactly where its instructions have computed
what the schedule needs. -/
theorem holds_succ_iff (h : Holds H M k R) (hk : k < 20)
    (hnexte : k ≠ 0 → ops.nexte (vars H M (4 * (k - 1))).quad (words M k) = withE H M k) :
    Holds H M (k + 1) (run ops.meaning (group k) R) ↔ Meets H M ops k := by
  have hmsg0 : R (msg k) = words M k := by rw [h.slots k (by omega) (by omega) hk, slot_self]
  have hmsg1 (hi : k + 1 < 20) : R (msg (k + 1)) = slot (words M) (half M) (mixed M) k (k + 1) :=
    h.slots _ (by omega) (by omega) hi
  have hmsg2 (hi : k + 2 < 20) : R (msg (k + 2)) = slot (words M) (half M) (mixed M) k (k + 2) :=
    h.slots _ (by omega) (by omega) hi
  have hmsg3 (hi : k + 3 < 20) : R (msg (k + 3)) = slot (words M) (half M) (mixed M) k (k + 3) :=
    h.slots _ (by omega) (by omega) hi
  constructor
  · intro h'
    refine ⟨hnexte, ?_, ?_, ?_⟩
    · rw [← h.state, ← h.roundInput_eq hk hnexte, ← run_group_abcd]
      exact h'.state
    · intro h1 h16
      have hhalf := h'.slots (k + 3) (by omega) (by omega) (by omega)
      rw [run_group_msg ops k R _ (by omega) (by omega), if_neg (by omega), if_neg (by omega),
        if_pos ⟨rfl, h1, h16⟩, hmsg3 (by omega), slot_three _ _ _ h1, hmsg0] at hhalf
      rw [hhalf]
      exact slot_two _ _ _ (by omega)
    · intro h3 h18
      have hwords := h'.slots (k + 1) (by omega) (by omega) (by omega)
      rw [run_group_msg ops k R _ (by omega) (by omega), if_pos ⟨rfl, h3, h18⟩,
        hmsg1 (by omega), slot_one _ _ _ h3, hmsg0] at hwords
      rw [hwords]
      exact slot_self _ _ _ (k + 1)
  · intro hmeets
    refine ⟨?_, ?_, ?_, ?_⟩
    · rw [run_group_abcd, h.state, h.roundInput_eq hk hnexte]
      exact hmeets.rnds4
    · rw [run_group_e, h.state, if_neg (by omega), Nat.add_sub_cancel]
    · intro i hi hi4 hi20
      rw [run_group_msg ops k R i hi (by omega)]
      rcases (by omega : i = k + 1 ∨ i = k + 2 ∨ i = k + 3 ∨ i = k + 4) with rfl | rfl | rfl | rfl
      · rw [slot_self]
        by_cases h3 : 3 ≤ k
        · rw [if_pos ⟨rfl, h3, by omega⟩, hmsg1 hi20, slot_one _ _ _ h3, hmsg0]
          exact hmeets.msg2 h3 (by omega)
        · rw [if_neg (by omega), if_neg (by omega), if_neg (by omega), hmsg1 hi20]
          exact slot_early _ _ _ (by omega)
      · rw [if_neg (by omega)]
        by_cases h2 : 2 ≤ k
        · have hnext : slot (words M) (half M) (mixed M) (k + 1) (k + 2) = mixed M (k - 2) :=
            slot_one _ _ _ (by omega)
          have hwords : words M (k - 2 + 2) = words M k := by rw [Nat.sub_add_cancel h2]
          rw [if_pos ⟨rfl, h2, by omega⟩, hmsg2 hi20, slot_two _ _ _ h2, hmsg0, hnext, mixed,
            hwords]
        · rw [if_neg (by omega), if_neg (by omega), hmsg2 hi20, slot_early _ _ _ (by omega),
            slot_early _ _ _ (by omega)]
      · rw [if_neg (by omega), if_neg (by omega)]
        by_cases h1 : 1 ≤ k
        · have hnext : slot (words M) (half M) (mixed M) (k + 1) (k + 3) = half M (k - 1) :=
            slot_two _ _ _ (by omega)
          rw [if_pos ⟨rfl, h1, by omega⟩, hmsg3 hi20, slot_three _ _ _ h1, hmsg0, hnext]
          exact hmeets.msg1 h1 (by omega)
        · rw [if_neg (by omega), hmsg3 hi20, slot_early _ _ _ (by omega),
            slot_early _ _ _ (by omega)]
      · have hnext : slot (words M) (half M) (mixed M) (k + 1) (k + 4) = words M k :=
          slot_three _ _ _ (by omega)
        have hreg : msg (k + 4) = msg k := by
          unfold msg
          omega
        rw [if_neg (by omega), if_neg (by omega), if_neg (by omega), hreg, hmsg0, hnext]
    · rw [run_group_saved ops k R (.inl rfl), run_group_saved ops k R (.inr rfl)]
      exact h.saved

/-- The carry instruction adds `e` to the first word. -/
def Ops.Carries (ops : Ops) : Prop :=
  ∀ d s, ops.nexte d s = { s with l3 := s.l3 + d.l3.rotateLeft 30 }

/-- The first variable of a group is `e` one group later. -/
theorem Ops.Carries.nexte (hcarries : ops.Carries) (H : Vars) (M : Nat → Word) (hk : k ≠ 0) :
    ops.nexte (vars H M (4 * (k - 1))).quad (words M k) = withE H M k := by
  obtain ⟨j, rfl⟩ := Nat.exists_eq_succ_of_ne_zero hk
  rw [hcarries]
  rfl

/-- Every group leaves the registers as the schedule wants them exactly where each one's
instructions meet its rounds and words. -/
theorem holds_groups_iff (hcarries : ops.Carries) (h : Holds H M 0 R) {n : Nat} (hn : n ≤ 20) :
    (∀ k ≤ n, Holds H M k (run ops.meaning (groups k) R)) ↔ ∀ k < n, Meets H M ops k := by
  apply run_upTo_iff h _ hn
  intro k hk R hR
  exact holds_succ_iff hR hk fun hk0 => hcarries.nexte H M hk0

end Runs

/-- The registers after the schedule and the additions at its end. -/
structure Compressed (H : Vars) (M : Nat → Word) (R : Regs) : Prop where
  state : R abcd = (compress H M).quad
  carry : (R (eReg 20)).l3 = (compress H M).e

theorem compressed_of_holds {ops : Ops} {H : Vars} {M : Nat → Word} {R : Regs}
    (hcarries : ops.Carries) (h : Holds H M 20 R) :
    Compressed H M (run ops.meaning finish R) := by
  have hcarry : R (eReg 20) = (vars H M 76).quad := h.carry
  obtain ⟨hsave, hesave⟩ := h.saved
  have hstate : run ops.meaning finish R abcd = (R abcd).map₂ (· + ·) (R abcdSave) := by
    simp [finish, apply_op, Ops.meaning, abcd, abcdSave, eReg]
  have he : run ops.meaning finish R (eReg 20) = ops.nexte (R (eReg 20)) (R eSave) := by
    simp [finish, apply_op, Ops.meaning, abcd, eReg]
  constructor
  · rw [hstate, h.state, hsave]
    simp only [Quad.map₂, Vars.quad, compress, Vars.add, BitVec.add_comm]
  · rw [he, hcarries, hcarry, hesave]
    rfl

/-! ### The instructions as they are meant -/

def standard : Ops where
  rnds4 group s we :=
    let t := 20 * group
    let v : Vars := ⟨s.l3, s.l2, s.l1, s.l0, 0⟩
    ((((v.round t we.l3).round t we.l2).round t we.l1).round t we.l0).quad
  nexte d s := { s with l3 := s.l3 + d.l3.rotateLeft 30 }
  msg1 d s := ⟨d.l3 ^^^ d.l1, d.l2 ^^^ d.l0, d.l1 ^^^ s.l3, d.l0 ^^^ s.l2⟩
  msg2 d s :=
    let first := (d.l3 ^^^ s.l2).rotateLeft 1
    ⟨first, (d.l2 ^^^ s.l1).rotateLeft 1, (d.l1 ^^^ s.l0).rotateLeft 1,
      (d.l0 ^^^ first).rotateLeft 1⟩

theorem Vars.round_congr (v : Vars) {t t' : Nat} (h : t / 20 = t' / 20) (w : Word) :
    v.round t w = v.round t' w := by
  rw [Vars.round, Vars.round, f_congr h, k_congr h]

/-- `e` may come with the word. -/
theorem Vars.round_withE (v : Vars) (t : Nat) (w : Word) :
    ({ v with e := 0 } : Vars).round t (w + v.e) = v.round t w := by
  ext1
  · simp only [Vars.round]
    ac_rfl
  · rfl
  · rfl
  · rfl
  · rfl

section Standard

variable (H : Vars) (M : Nat → Word)

/-- Four rounds. -/
theorem standard_rnds4 (group : Nat) (v : Vars) (x0 x1 x2 x3 : Word) :
    standard.rnds4 group v.quad ⟨x0 + v.e, x1, x2, x3⟩ =
      ((((v.round (20 * group) x0).round (20 * group) x1).round (20 * group) x2).round
        (20 * group) x3).quad := by
  rw [← v.round_withE]
  rfl

theorem vars_four (k : Nat) : (((((vars H M (4 * k)).round (20 * (k / 5)) (w M (4 * k))).round
    (20 * (k / 5)) (w M (4 * k + 1))).round (20 * (k / 5)) (w M (4 * k + 2))).round
    (20 * (k / 5)) (w M (4 * k + 3))) = vars H M (4 * (k + 1)) := by
  have hround (i : Nat) (hi : i < 4) :
      (vars H M (4 * k + i)).round (20 * (k / 5)) (w M (4 * k + i)) = vars H M (4 * k + i + 1) :=
    Vars.round_congr _ (by omega) _
  have h0 := hround 0 (by decide)
  rw [Nat.add_zero] at h0
  rw [h0, hround 1 (by decide), hround 2 (by decide), hround 3 (by decide)]
  rfl

theorem w_mixed (t : Nat) :
    (w M t ^^^ w M (t + 2) ^^^ w M (t + 8) ^^^ w M (t + 13)).rotateLeft 1 = w M (t + 16) := by
  rw [w_add]
  congr 1
  ac_rfl

theorem standard_msg2 (i : Nat) :
    standard.msg2 (mixed M i) (words M (i + 3)) = words M (i + 4) := by
  have hfirst : ((mixed M i).l3 ^^^ (words M (i + 3)).l2).rotateLeft 1 = w M (4 * i + 16) :=
    w_mixed M (4 * i)
  ext1
  · exact hfirst
  · exact w_mixed M (4 * i + 1)
  · exact w_mixed M (4 * i + 2)
  · change ((mixed M i).l0 ^^^ ((mixed M i).l3 ^^^ (words M (i + 3)).l2).rotateLeft 1).rotateLeft 1 =
      w M (4 * i + 3 + 16)
    rw [hfirst]
    exact w_mixed M (4 * i + 3)

theorem standard_meets (k : Nat) : Meets H M standard k := by
  refine ⟨fun hk => ?_, ?_, fun hk _ => ?_, fun hk _ => ?_⟩
  · exact Ops.Carries.nexte (fun _ _ => rfl) H M hk
  · rw [← vars_four]
    exact standard_rnds4 _ _ _ _ _ _
  · obtain ⟨i, rfl⟩ := Nat.exists_eq_add_of_le' hk
    rfl
  · obtain ⟨i, rfl⟩ := Nat.exists_eq_add_of_le' hk
    rw [Nat.add_sub_cancel]
    exact standard_msg2 M i

/-- With the instructions as they are meant, the schedule computes the compression function. -/
theorem schedule_compresses {R : Regs} (h : Holds H M 0 R) :
    Compressed H M (run standard.meaning (groups 20 ++ finish) R) := by
  have hcarries : standard.Carries := fun _ _ => rfl
  rw [run_append]
  apply compressed_of_holds hcarries
  exact (holds_groups_iff hcarries h (Nat.le_refl 20)).mpr (fun k _ => standard_meets H M k) 20
    (Nat.le_refl 20)

end Standard

end Sha1
