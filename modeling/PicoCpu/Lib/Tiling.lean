import Mathlib.Data.List.Basic
import Mathlib.Data.List.Chain

/-!
Lists of segments that tile an interval of numbers: each begins where the one before it ends,
and none is empty.
-/

section

variable {α : Type} (start len : α → Nat)

/-- The segments tile the numbers from `lo` up to `hi`. -/
def Tiles : Nat → Nat → List α → Prop
  | lo, hi, [] => lo = hi
  | lo, hi, a :: as => start a = lo ∧ 0 < len a ∧ Tiles (lo + len a) hi as

end

namespace Tiles

variable {α : Type} {start len : α → Nat} {lo hi : Nat} {as bs : List α}

theorem append_iff :
    Tiles start len lo hi (as ++ bs) ↔
      ∃ mid, Tiles start len lo mid as ∧ Tiles start len mid hi bs := by
  induction as generalizing lo with
  | nil =>
      constructor
      · intro h
        exact ⟨lo, rfl, h⟩
      · rintro ⟨mid, hmid, h⟩
        obtain rfl : lo = mid := hmid
        exact h
  | cons a as ih =>
      constructor
      · rintro ⟨hstart, hlen, h⟩
        obtain ⟨mid, has, hbs⟩ := ih.mp h
        exact ⟨mid, ⟨hstart, hlen, has⟩, hbs⟩
      · rintro ⟨mid, ⟨hstart, hlen, has⟩, hbs⟩
        exact ⟨hstart, hlen, ih.mpr ⟨mid, has, hbs⟩⟩

theorem le (h : Tiles start len lo hi as) : lo ≤ hi := by
  induction as generalizing lo with
  | nil => exact Nat.le_of_eq h
  | cons a as ih =>
      obtain ⟨_, _, hrest⟩ := h
      exact (Nat.le_add_right ..).trans (ih hrest)

/-- Every segment lies in the interval. -/
theorem bounds (h : Tiles start len lo hi as) {a : α} (ha : a ∈ as) :
    lo ≤ start a ∧ 0 < len a ∧ start a + len a ≤ hi := by
  induction as generalizing lo with
  | nil => cases ha
  | cons b as ih =>
      obtain ⟨hstart, hlen, hrest⟩ := h
      rcases List.mem_cons.mp ha with rfl | ha
      · refine ⟨hstart.ge, hlen, ?_⟩
        rw [hstart]
        exact hrest.le
      · obtain ⟨hlo, hpos, hhi⟩ := ih hrest ha
        exact ⟨(Nat.le_add_right ..).trans hlo, hpos, hhi⟩

/-- The segments stand in increasing order, without overlap. -/
theorem pairwise (h : Tiles start len lo hi as) :
    as.Pairwise fun a b => start a + len a ≤ start b := by
  induction as generalizing lo with
  | nil => exact .nil
  | cons a as ih =>
      obtain ⟨hstart, hlen, hrest⟩ := h
      refine .cons (fun b hb => ?_) (ih hrest)
      rw [hstart]
      exact (hrest.bounds hb).1

/-- Two segments do not overlap. -/
theorem separate (h : Tiles start len lo hi as) {a b : α} (ha : a ∈ as) (hb : b ∈ as)
    (hne : a ≠ b) : start a + len a ≤ start b ∨ start b + len b ≤ start a := by
  have hpairwise := h.pairwise
  clear h
  induction as with
  | nil => cases ha
  | cons c as ih =>
      obtain ⟨hfirst, hrest⟩ := List.pairwise_cons.mp hpairwise
      rcases List.mem_cons.mp ha with rfl | harest
      · rcases List.mem_cons.mp hb with rfl | hbrest
        · exact absurd rfl hne
        · exact .inl (hfirst b hbrest)
      · rcases List.mem_cons.mp hb with rfl | hbrest
        · exact .inr (hfirst a harest)
        · exact ih harest hbrest hrest

/-- A part that tiles its own interval may be replaced by another that does. -/
theorem replace (mid mid' : List α) (h : Tiles start len lo hi (as ++ (mid ++ bs)))
    (hmid : ∀ l u, Tiles start len l u mid → lo ≤ l → u ≤ hi → Tiles start len l u mid') :
    Tiles start len lo hi (as ++ (mid' ++ bs)) := by
  obtain ⟨l, has, hrest⟩ := append_iff.mp h
  obtain ⟨u, hpart, hbs⟩ := append_iff.mp hrest
  exact append_iff.mpr ⟨l, has, append_iff.mpr ⟨u, hmid l u hpart has.le hbs.le, hbs⟩⟩

end Tiles
