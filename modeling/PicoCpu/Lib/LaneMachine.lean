import Mathlib.Data.List.Basic
import Mathlib.Logic.Function.Basic

/-!
A machine whose registers hold four 32-bit lanes. Its programs are lists of two-operand
instructions and loads of constants; what the operations compute is a parameter, so that one
program runs under different readings of its instructions.
-/

namespace Lanes

/-- Four lanes, the most significant first. -/
@[ext] structure Quad where
  l3 : BitVec 32
  l2 : BitVec 32
  l1 : BitVec 32
  l0 : BitVec 32
deriving DecidableEq

namespace Quad

def map₂ (f : BitVec 32 → BitVec 32 → BitVec 32) (a b : Quad) : Quad :=
  ⟨f a.l3 b.l3, f a.l2 b.l2, f a.l1 b.l1, f a.l0 b.l0⟩

def lane (q : Quad) (i : Nat) : BitVec 32 :=
  match i with
  | 0 => q.l0
  | 1 => q.l1
  | 2 => q.l2
  | _ => q.l3

/-- The lanes that the bit pairs of `imm` select. -/
def shuffle (q : Quad) (imm : BitVec 8) : Quad :=
  let selected := fun i => q.lane ((imm >>> (i * 2)) &&& 3).toNat
  ⟨selected 3, selected 2, selected 1, selected 0⟩

end Quad

abbrev Regs := Nat → Quad

/-- What an operation makes of register 0, its destination and its source. -/
abbrev Meaning (Op : Type) := Op → Quad → Quad → Quad → Quad

/-- An operation on two registers into the first, or a constant into a register. -/
inductive Step (Op : Type) where
  | op (o : Op) (dst src : Nat)
  | load (dst : Nat) (v : Quad)

variable {Op : Type}

def Step.apply (m : Meaning Op) : Step Op → Regs → Regs
  | .op o dst src, R => Function.update R dst (m o (R 0) (R dst) (R src))
  | .load dst v, R => Function.update R dst v

/-- The registers after a program. -/
def run (m : Meaning Op) (steps : List (Step Op)) (R : Regs) : Regs :=
  steps.foldl (fun R s => s.apply m R) R

/-- The step where the condition holds. -/
def onlyIf (c : Prop) [Decidable c] (s : Step Op) : List (Step Op) := if c then [s] else []

section Run

variable {m : Meaning Op}

@[simp] theorem run_nil (R : Regs) : run m [] R = R := rfl

@[simp] theorem run_cons (s : Step Op) (steps : List (Step Op)) (R : Regs) :
    run m (s :: steps) R = run m steps (s.apply m R) := rfl

@[simp] theorem run_append (steps steps' : List (Step Op)) (R : Regs) :
    run m (steps ++ steps') R = run m steps' (run m steps R) := List.foldl_append ..

theorem run_onlyIf (c : Prop) [Decidable c] (s : Step Op) (R : Regs) :
    run m (onlyIf c s) R = if c then s.apply m R else R := by
  unfold onlyIf
  split
  · rfl
  · rfl

/-- A conditional operation, seen from one register. -/
theorem run_onlyIf_apply (c : Prop) [Decidable c] (o : Op) (dst src r : Nat) (R : Regs) :
    run m (onlyIf c (.op o dst src)) R r =
      if r = dst ∧ c then m o (R 0) (R dst) (R src) else R r := by
  rw [run_onlyIf]
  by_cases hc : c
  · by_cases hr : r = dst
    · rw [if_pos hc, if_pos ⟨hr, hc⟩, hr]
      exact Function.update_self ..
    · rw [if_pos hc, if_neg fun hand => hr hand.1]
      exact Function.update_of_ne hr ..
  · rw [if_neg hc, if_neg fun hand => hc hand.2]

theorem apply_op (o : Op) (dst src r : Nat) (R : Regs) :
    (Step.op o dst src).apply m R r = if r = dst then m o (R 0) (R dst) (R src) else R r := by
  by_cases hr : r = dst
  · rw [if_pos hr, hr]
    exact Function.update_self ..
  · rw [if_neg hr]
    exact Function.update_of_ne hr ..

/-- Loads into different registers all stand. -/
theorem run_loads {loads : List (Nat × Quad)} (hdistinct : (loads.map Prod.fst).Nodup)
    {r : Nat} {v : Quad} (hmem : (r, v) ∈ loads) (R : Regs) :
    run m (loads.map fun l => (.load l.1 l.2 : Step Op)) R r = v := by
  induction loads generalizing R with
  | nil => exact absurd hmem List.not_mem_nil
  | cons head rest ih =>
      rw [List.map_cons, List.nodup_cons] at hdistinct
      rcases List.mem_cons.mp hmem with hhead | hrest
      · subst hhead
        have hkeep (rest : List (Nat × Quad)) (hnot : r ∉ rest.map Prod.fst) (R : Regs) :
            run m (rest.map fun l => (.load l.1 l.2 : Step Op)) R r = R r := by
          induction rest generalizing R with
          | nil => rfl
          | cons next rest ih =>
              rw [List.map_cons, List.mem_cons, not_or] at hnot
              rw [List.map_cons, run_cons, ih hnot.2]
              exact Function.update_of_ne hnot.1 ..
        rw [List.map_cons, run_cons, hkeep rest hdistinct.1]
        exact Function.update_self ..
      · rw [List.map_cons, run_cons]
        exact ih hdistinct.2 hrest _

theorem apply_load (dst r : Nat) (v : Quad) (R : Regs) :
    (Step.load dst v : Step Op).apply m R r = if r = dst then v else R r := by
  by_cases hr : r = dst
  · rw [if_pos hr, hr]
    exact Function.update_self ..
  · rw [if_neg hr]
    exact Function.update_of_ne hr ..

end Run

/-! ### Programs of groups -/

/-- The first `n` groups of a program. -/
def upTo (group : Nat → List (Step Op)) (n : Nat) : List (Step Op) := (List.range n).flatMap group

theorem upTo_succ (group : Nat → List (Step Op)) (n : Nat) :
    upTo group (n + 1) = upTo group n ++ group n := by
  rw [upTo, List.range_succ, List.flatMap_append, List.flatMap_singleton]
  rfl

/-- Where each group keeps the property exactly if it meets its condition, the property holds after
every group exactly if all of them do. -/
theorem run_upTo_iff {m : Meaning Op} {group : Nat → List (Step Op)} {P : Nat → Regs → Prop}
    {Q : Nat → Prop} {N : Nat} {R : Regs} (h0 : P 0 R)
    (hstep : ∀ k < N, ∀ R, P k R → (P (k + 1) (run m (group k) R) ↔ Q k)) {n : Nat} (hn : n ≤ N) :
    (∀ k ≤ n, P k (run m (upTo group k) R)) ↔ ∀ k < n, Q k := by
  have hnext (k : Nat) (hk : k < n) (hP : P k (run m (upTo group k) R)) :
      P (k + 1) (run m (upTo group (k + 1)) R) ↔ Q k := by
    rw [upTo_succ, run_append]
    exact hstep k (by omega) _ hP
  constructor
  · intro hall k hk
    exact (hnext k hk (hall k (by omega))).mp (hall (k + 1) hk)
  · intro hQ k hk
    induction k with
    | zero => exact h0
    | succ k ih => exact (hnext k hk (ih (by omega))).mpr (hQ k hk)

/-! ### Words on their way -/

/-- Four registers hold the words of the groups to come, each in the register of the group four
before it. The words of group `i` are in place at group `i`, and pass through two stages in the
groups before; three groups before, the register still holds the words of group `i - 4`. -/
def slot (words first second : Nat → Quad) (k i : Nat) : Quad :=
  if i ≤ 3 then words i
  else match i - k with
    | 0 => words i
    | 1 => second (i - 4)
    | 2 => first (i - 4)
    | _ => words (i - 4)

section Slots

variable (words first second : Nat → Quad) {k i : Nat}

theorem slot_early (hi : i ≤ 3) : slot words first second k i = words i := if_pos hi

theorem slot_self (k : Nat) : slot words first second k k = words k := by
  unfold slot
  split
  · rfl
  · rw [Nat.sub_self]
    rfl

theorem slot_one (hk : 3 ≤ k) : slot words first second k (k + 1) = second (k - 3) := by
  rw [slot, if_neg (by omega), Nat.add_sub_cancel_left]
  rfl

theorem slot_two (hk : 2 ≤ k) : slot words first second k (k + 2) = first (k - 2) := by
  rw [slot, if_neg (by omega), Nat.add_sub_cancel_left]
  rfl

theorem slot_three (hk : 1 ≤ k) : slot words first second k (k + 3) = words (k - 1) := by
  rw [slot, if_neg (by omega), Nat.add_sub_cancel_left]
  rfl

end Slots

end Lanes
