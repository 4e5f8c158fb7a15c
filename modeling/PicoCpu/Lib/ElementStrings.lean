import Mathlib.Data.List.Basic
import Mathlib.Data.List.Pairwise
import Mathlib.Order.Basic
import Mathlib.Tactic.Common

/-!
Strings of bounded length in registers of `n` elements: how elements beyond an end are compared, how a
comparison is negated, and which of the selected elements comes first.
-/

namespace PicoCpu.ElementStrings

/-! ### Comparisons -/

/-- What is asked of an element of the second string: that it occurs anywhere in the first, or that it
equals the element at its own place. -/
inductive Aggregation where
  | equalAny | equalEach
  deriving DecidableEq, Repr

/-- Whether selected elements are those that compare, those that do not, or those of the second string
that do not. -/
inductive Polarity where
  | positive | negative | maskedNegative
  deriving DecidableEq, Repr

section Comparison

variable {α : Type*} [DecidableEq α] (x y : ℕ → α) (m k : ℕ)

/-- The first string has `m` elements, the second `k`. Beyond both ends elements are equal, beyond one
they differ. -/
def compares : Aggregation → ℕ → Bool
  | .equalAny, j => decide (j < k) && (List.range m).any fun i => decide (x i = y j)
  | .equalEach, j =>
    if j < m ∧ j < k then decide (x j = y j) else decide (m ≤ j ∧ k ≤ j)

def selects (a : Aggregation) : Polarity → ℕ → Bool
  | .positive, j => compares x y m k a j
  | .negative, j => !compares x y m k a j
  | .maskedNegative, j => if j < k then !compares x y m k a j else compares x y m k a j

/-- Both elements are in their strings, and equal. -/
def samePlace (j : ℕ) : Bool := decide (j < m) && decide (j < k) && decide (x j = y j)

/-- Comparing place by place without regard to the ends is what is asked: an element that occurs does so
at its own place, and no place is beyond both ends. -/
def PlaceSuffices : Aggregation → ℕ → Prop
  | .equalAny, j => j < k → (∃ i < m, x i = y j) → j < m ∧ x j = y j
  | .equalEach, j => j < m ∨ j < k

theorem samePlace_eq_iff (a : Aggregation) (j : ℕ) :
    samePlace x y m k j = compares x y m k a j ↔ PlaceSuffices x y m k a j := by
  cases a with
  | equalAny =>
      have hany : ((List.range m).any fun i => decide (x i = y j)) = true ↔ ∃ i < m, x i = y j := by
        simp
      rw [Bool.eq_iff_iff, samePlace, compares, PlaceSuffices, Bool.and_eq_true, Bool.and_eq_true,
        Bool.and_eq_true, hany, decide_eq_true_iff, decide_eq_true_iff, decide_eq_true_iff]
      constructor
      · intro h hk hoccurs
        obtain ⟨⟨hm, _⟩, heq⟩ := h.mpr ⟨hk, hoccurs⟩
        exact ⟨hm, heq⟩
      · intro h
        constructor
        · rintro ⟨⟨hm, hk⟩, heq⟩
          exact ⟨hk, j, hm, heq⟩
        · rintro ⟨hk, hoccurs⟩
          obtain ⟨hm, heq⟩ := h hk hoccurs
          exact ⟨⟨hm, hk⟩, heq⟩
  | equalEach =>
      rw [samePlace, compares, PlaceSuffices, ← Bool.decide_and]
      by_cases hboth : j < m ∧ j < k
      · rw [if_pos hboth, decide_eq_true hboth, Bool.true_and]
        exact ⟨fun _ => .inl hboth.1, fun _ => rfl⟩
      · rw [if_neg hboth, decide_eq_false hboth, Bool.false_and, eq_comm, decide_eq_false_iff_not]
        omega

/-- Selecting by place only, with all elements negated or none. -/
def placeSelects (p : Polarity) (j : ℕ) : Bool :=
  if p = .negative then !samePlace x y m k j else samePlace x y m k j

/-- Where the selections agree; a masked negation that is left out turns agreement round. -/
def PlaceRight (a : Aggregation) (p : Polarity) (j : ℕ) : Prop :=
  if p = .maskedNegative ∧ j < k then ¬ PlaceSuffices x y m k a j else PlaceSuffices x y m k a j

theorem placeSelects_eq_iff (a : Aggregation) (p : Polarity) (j : ℕ) :
    placeSelects x y m k p j = selects x y m k a p j ↔ PlaceRight x y m k a p j := by
  have h := samePlace_eq_iff x y m k a j
  unfold placeSelects selects PlaceRight
  cases p with
  | positive => simpa using h
  | negative => simpa using h
  | maskedNegative =>
      by_cases hk : j < k
      · simp only [hk, and_self, if_true, reduceCtorEq, if_false, Bool.eq_not, ne_eq, h]
      · simpa [hk] using h

end Comparison

/-! ### The element that comes first -/

/-- The least index below `n` that is selected, else `n`. -/
def leastIndex (n : ℕ) (p : ℕ → Bool) : ℕ := ((List.range n).find? p).getD n

/-- The greatest index below `n` that is selected, else `n`. -/
def greatestIndex (n : ℕ) (p : ℕ → Bool) : ℕ := ((List.range n).reverse.find? p).getD n

/-- Two selections find the same first element of an ordered list exactly where they agree up to it. -/
theorem find?_getD_eq_iff {r : ℕ → ℕ → Prop} (hasymm : ∀ i j, r i j → ¬ r j i) {l : List ℕ}
    (hl : l.Pairwise r) {d : ℕ} (hd : d ∉ l) (p q : ℕ → Bool) :
    (l.find? p).getD d = (l.find? q).getD d ↔
      ∀ j ∈ l, (∀ i ∈ l, r i j → q i = false) → p j = q j := by
  induction l with
  | nil => exact ⟨fun _ _ h => absurd h List.not_mem_nil, fun _ => rfl⟩
  | cons a l ih =>
      obtain ⟨hfirst, hrest⟩ := List.pairwise_cons.mp hl
      rw [List.mem_cons, not_or] at hd
      obtain ⟨hda, hdl⟩ := hd
      have hal : a ∉ l := fun h => hasymm a a (hfirst a h) (hfirst a h)
      have hne (f : ℕ → Bool) : (l.find? f).getD d ≠ a := by
        cases hf : l.find? f with
        | none => exact hda
        | some b => exact fun h => hal (h ▸ List.mem_of_find?_eq_some hf)
      -- The head is compared in any case, the tail only if the head is not selected.
      have hsplit : (∀ j ∈ a :: l, (∀ i ∈ a :: l, r i j → q i = false) → p j = q j) ↔
          p a = q a ∧ (q a = false → ∀ j ∈ l, (∀ i ∈ l, r i j → q i = false) → p j = q j) := by
        constructor
        · intro h
          refine ⟨h a List.mem_cons_self fun i hi hri => ?_, fun hqa j hj hbefore =>
            h j (List.mem_cons_of_mem a hj) fun i hi hri => ?_⟩
          · rcases List.mem_cons.mp hi with rfl | hi
            · exact absurd hri (hasymm _ _ hri)
            · exact absurd hri (hasymm _ _ (hfirst i hi))
          · rcases List.mem_cons.mp hi with rfl | hi
            · exact hqa
            · exact hbefore i hi hri
        · rintro ⟨hhead, htail⟩ j hj hbefore
          rcases List.mem_cons.mp hj with rfl | hj
          · exact hhead
          · exact htail (hbefore a List.mem_cons_self (hfirst j hj)) j hj fun i hi hri =>
              hbefore i (List.mem_cons_of_mem a hi) hri
      rw [hsplit, List.find?_cons, List.find?_cons]
      cases hp : p a with
      | true =>
          cases hq : q a with
          | true => exact ⟨fun _ => ⟨rfl, fun h => by cases h⟩, fun _ => rfl⟩
          | false => exact ⟨fun h => absurd h.symm (hne q), fun h => by cases h.1⟩
      | false =>
          cases hq : q a with
          | true => exact ⟨fun h => absurd h (hne p), fun h => by cases h.1⟩
          | false => exact ⟨fun h => ⟨rfl, fun _ => (ih hrest hdl).mp h⟩,
              fun h => (ih hrest hdl).mpr (h.2 rfl)⟩

/-- Nothing is found exactly where nothing is selected. -/
theorem find?_getD_eq_default_iff {l : List ℕ} {d : ℕ} (hd : d ∉ l) (p : ℕ → Bool) :
    (l.find? p).getD d = d ↔ ∀ j ∈ l, p j = false := by
  cases h : l.find? p with
  | none =>
      rw [List.find?_eq_none] at h
      exact ⟨fun _ j hj => Bool.eq_false_iff.mpr (h j hj), fun _ => rfl⟩
  | some b =>
      have hb := List.mem_of_find?_eq_some h
      constructor
      · intro heq
        rw [Option.getD_some] at heq
        exact absurd (heq ▸ hb) hd
      · intro hnone
        exact absurd (List.find?_some h) (Bool.eq_false_iff.mp (hnone b hb))

theorem leastIndex_eq_iff (n : ℕ) (p q : ℕ → Bool) :
    leastIndex n p = leastIndex n q ↔ ∀ j < n, (∀ i < j, q i = false) → p j = q j := by
  rw [leastIndex, leastIndex, find?_getD_eq_iff (fun _ _ => Nat.lt_asymm) List.pairwise_lt_range
    List.not_mem_range_self]
  simp only [List.mem_range]
  constructor
  · exact fun h j hj hbefore => h j hj fun i _ hi => hbefore i hi
  · exact fun h j hj hbefore => h j hj fun i hi => hbefore i (Nat.lt_trans hi hj) hi

theorem greatestIndex_eq_iff (n : ℕ) (p q : ℕ → Bool) :
    greatestIndex n p = greatestIndex n q ↔
      ∀ j < n, (∀ i < n, j < i → q i = false) → p j = q j := by
  have hsorted : (List.range n).reverse.Pairwise fun i j => j < i :=
    List.pairwise_reverse.mpr List.pairwise_lt_range
  have hnot : n ∉ (List.range n).reverse := by simp
  rw [greatestIndex, greatestIndex, find?_getD_eq_iff (fun _ _ => Nat.lt_asymm) hsorted hnot]
  simp only [List.mem_reverse, List.mem_range]

theorem leastIndex_eq_self_iff (n : ℕ) (p : ℕ → Bool) :
    leastIndex n p = n ↔ ∀ j < n, p j = false := by
  rw [leastIndex, find?_getD_eq_default_iff List.not_mem_range_self]
  simp only [List.mem_range]

theorem greatestIndex_eq_self_iff (n : ℕ) (p : ℕ → Bool) :
    greatestIndex n p = n ↔ ∀ j < n, p j = false := by
  have hnot : n ∉ (List.range n).reverse := by simp
  rw [greatestIndex, find?_getD_eq_default_iff hnot]
  simp only [List.mem_reverse, List.mem_range]

theorem leastIndex_le (n : ℕ) (p : ℕ → Bool) : leastIndex n p ≤ n := by
  rw [leastIndex]
  cases h : (List.range n).find? p with
  | none => exact Nat.le_refl n
  | some b => exact Nat.le_of_lt (List.mem_range.mp (List.mem_of_find?_eq_some h))

theorem greatestIndex_le (n : ℕ) (p : ℕ → Bool) : greatestIndex n p ≤ n := by
  rw [greatestIndex]
  cases h : (List.range n).reverse.find? p with
  | none => exact Nat.le_refl n
  | some b => exact Nat.le_of_lt (List.mem_range.mp (List.mem_reverse.mp (List.mem_of_find?_eq_some h)))

/-! ### Selections as bits -/

/-- Setting the bits at which a selection holds. -/
theorem getLsbD_foldl_or {w : ℕ} (p : ℕ → Bool) {n : ℕ} (hn : n ≤ w) (b : BitVec w) (j : ℕ) :
    ((List.range n).foldl (fun b i => if p i then b ||| (1#w <<< i) else b) b).getLsbD j =
      (b.getLsbD j || (decide (j < n) && p j)) := by
  induction n with
  | zero => simp
  | succ n ih =>
      have hbit : (1#w <<< n).getLsbD j = decide (j = n) := by
        rw [BitVec.getLsbD_shiftLeft, BitVec.getLsbD_one]
        by_cases hj : j = n
        · subst hj
          simp
          omega
        · rw [decide_eq_false hj]
          by_cases hlt : j < n
          · simp [hlt]
          · have hsub : j - n ≠ 0 := by omega
            simp [hsub]
      rw [List.range_succ, List.foldl_append, List.foldl_cons, List.foldl_nil]
      split
      next hp =>
        rw [BitVec.getLsbD_or, ih (by omega), hbit]
        by_cases hj : j = n
        · subst hj
          simp [hp]
        · have hlt : j < n + 1 ↔ j < n := by omega
          simp [hj, hlt]
      next hp =>
        rw [ih (by omega)]
        by_cases hj : j = n
        · subst hj
          simp [hp]
        · have hlt : j < n + 1 ↔ j < n := by omega
          simp [hlt]

end PicoCpu.ElementStrings
