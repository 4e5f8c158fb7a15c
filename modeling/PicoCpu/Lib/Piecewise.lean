import PicoCpu.Lib.GranuleCache

/-!
A buffer filled one granule at a time. The state of the walk holds the buffer beside what the
pieces are served from; a piece that fails may leave something in its part of the buffer, and
the walk stops there. Such a walk leaves the buffer alone when it fails only if its first piece
fails, since every later failure comes after bytes have been delivered.
-/

namespace Granule

variable {w : Nat} {β τ S ε : Type}

/-- The length of the piece at `cur`. -/
def pieceLen (k : Nat) (cur : BitVec w) (remaining : Nat) : Nat :=
  if 2 ^ k - off k cur < remaining then 2 ^ k - off k cur else remaining

theorem pieceLen_pos (k : Nat) (cur : BitVec w) {remaining : Nat} (h : remaining ≠ 0) :
    0 < pieceLen k cur remaining := by
  have hoff := off_lt k cur
  unfold pieceLen
  split <;> omega

/-- Every piece is served, each from what the ones before it left. -/
def ServedInTurn (k : Nat) (piece : BitVec w → Nat → τ → Except ε (Nat → β) × τ) :
    Nat → BitVec w → Nat → τ → Prop
  | 0, _, _, _ => True
  | fuel + 1, cur, remaining, t =>
    remaining = 0 ∨ ∃ d t', piece cur (pieceLen k cur remaining) t = (.ok d, t') ∧
      ServedInTurn k piece fuel (cur + BitVec.ofNat w (pieceLen k cur remaining))
        (remaining - pieceLen k cur remaining) t'

/-- Put the contents `d` into the buffer from position `done` on. -/
def place (out : Nat → β) (done : Nat) (d : Nat → β) : Nat → β :=
  fun i => if i < done then out i else d (i - done)

theorem place_zero (out d : Nat → β) : place out 0 d = d := by
  funext i
  rw [place, if_neg (Nat.not_lt_zero i), Nat.sub_zero]

theorem place_self (out : Nat → β) (done : Nat) : place out done (fun i => out (done + i)) = out := by
  funext i
  unfold place
  by_cases hi : i < done
  · rw [if_pos hi]
  · rw [if_neg hi]
    exact congrArg out (Nat.add_sub_cancel' (Nat.le_of_not_lt hi))

/-- The body of the walk delivers the pieces: a served piece goes to its place in the buffer, a
failing one turns the rest of the buffer into what `spill` says. -/
structure Delivers (body : BitVec w → Nat → Nat → S → Except ε Unit × S) (buf : S → Nat → β)
    (rest : S → τ) (piece : BitVec w → Nat → τ → Except ε (Nat → β) × τ)
    (spill : BitVec w → Nat → τ → (Nat → β) → Nat → β) : Prop where
  ok : ∀ cur n done s d t, piece cur n (rest s) = (.ok d, t) →
    (body cur n done s).1 = .ok () ∧ buf (body cur n done s).2 = overwrite (buf s) done n d ∧
      rest (body cur n done s).2 = t
  error : ∀ cur n done s e t, piece cur n (rest s) = (.error e, t) →
    (body cur n done s).1 = .error e ∧ buf (body cur n done s).2 =
      place (buf s) done (spill cur n (rest s) fun i => buf s (done + i))

section

variable {k : Nat} {body : BitVec w → Nat → Nat → S → Except ε Unit × S} {buf : S → Nat → β}
  {rest : S → τ} {piece : BitVec w → Nat → τ → Except ε (Nat → β) × τ}
  {spill : BitVec w → Nat → τ → (Nat → β) → Nat → β} (h : Delivers body buf rest piece spill)
include h

/-- One step of the walk, by its piece. -/
theorem Delivers.walk_step (fuel : Nat) (cur : BitVec w) (done : Nat) {remaining : Nat}
    (hrem : remaining ≠ 0) (s : S) :
    (∃ e t, piece cur (pieceLen k cur remaining) (rest s) = (.error e, t) ∧
      (walk k body (fuel + 1) cur done remaining s).1 = .error e ∧
      buf (walk k body (fuel + 1) cur done remaining s).2 =
        place (buf s) done
          (spill cur (pieceLen k cur remaining) (rest s) fun i => buf s (done + i))) ∨
    ∃ d s', piece cur (pieceLen k cur remaining) (rest s) = (.ok d, rest s') ∧
      buf s' = overwrite (buf s) done (pieceLen k cur remaining) d ∧
      walk k body (fuel + 1) cur done remaining s =
        walk k body fuel (cur + BitVec.ofNat w (pieceLen k cur remaining))
          (done + pieceLen k cur remaining) (remaining - pieceLen k cur remaining) s' := by
  have hlen : (if 2 ^ k - off k cur < remaining then 2 ^ k - off k cur else remaining) =
      pieceLen k cur remaining := rfl
  rw [walk, if_neg hrem]
  simp only [hlen]
  generalize pieceLen k cur remaining = n
  cases hpiece : piece cur n (rest s) with
  | mk r t =>
      cases r with
      | error e =>
          obtain ⟨hstatus, hbuf⟩ := h.error cur n done s e t hpiece
          cases hbody : body cur n done s with
          | mk r s' =>
              rw [hbody] at hstatus hbuf
              simp only at hstatus
              subst hstatus
              exact Or.inl ⟨e, t, rfl, rfl, hbuf⟩
      | ok d =>
          obtain ⟨hstatus, hbuf, hrest⟩ := h.ok cur n done s d t hpiece
          cases hbody : body cur n done s with
          | mk r s' =>
              rw [hbody] at hstatus hbuf hrest
              simp only at hstatus hrest
              subst hstatus
              exact Or.inr ⟨d, s', by rw [hrest], hbuf, rfl⟩

theorem Delivers.walk_ok_iff (fuel : Nat) (cur : BitVec w) (done remaining : Nat) (s : S) :
    (walk k body fuel cur done remaining s).1 = .ok () ↔
      ServedInTurn k piece fuel cur remaining (rest s) := by
  induction fuel generalizing cur done remaining s with
  | zero => exact ⟨fun _ => trivial, fun _ => rfl⟩
  | succ fuel ih =>
      rw [ServedInTurn]
      by_cases hrem : remaining = 0
      · rw [walk, if_pos hrem]
        exact ⟨fun _ => Or.inl hrem, fun _ => rfl⟩
      · rcases h.walk_step fuel cur done hrem s with ⟨e, t, hpiece, hstatus, _⟩ |
          ⟨d, s', hpiece, _, hwalk⟩
        · rw [hstatus]
          constructor
          · intro hok
            cases hok
          · rintro (hzero | ⟨d, t', hserved, _⟩)
            · exact absurd hzero hrem
            · cases hpiece.symm.trans hserved
        · rw [hwalk, ih]
          constructor
          · intro hrest
            exact Or.inr ⟨d, rest s', hpiece, hrest⟩
          · rintro (hzero | ⟨d', t', hserved, hrest⟩)
            · exact absurd hzero hrem
            · cases hpiece.symm.trans hserved
              exact hrest

/-- What has been delivered stays. -/
theorem Delivers.walk_keeps (fuel : Nat) (cur : BitVec w) (done remaining : Nat) (s : S) {i : Nat}
    (hi : i < done) : buf (walk k body fuel cur done remaining s).2 i = buf s i := by
  induction fuel generalizing cur done remaining s with
  | zero => rfl
  | succ fuel ih =>
      by_cases hrem : remaining = 0
      · rw [walk, if_pos hrem]
      · rcases h.walk_step fuel cur done hrem s with ⟨e, t, _, _, hbuf⟩ | ⟨d, s', _, hbuf, hwalk⟩
        · rw [hbuf, place, if_pos hi]
        · rw [hwalk, ih _ _ _ _ (by omega), hbuf, overwrite_outside _ _ _ _ (by omega)]

/-- A failing walk leaves every buffer alone exactly when it cannot fail, or fails at its first
piece and that leaves the buffer alone. -/
theorem Delivers.unchanged_iff [Nontrivial β] (mk : (Nat → β) → τ → S)
    (hbuf : ∀ out t, buf (mk out t) = out) (hrest : ∀ out t, rest (mk out t) = t)
    (addr : BitVec w) (size : Nat) (t : τ) :
    (∀ out, (walkRange k body addr size (mk out t)).1 ≠ .ok () →
        buf (walkRange k body addr size (mk out t)).2 = out) ↔
      ServedInTurn k piece size addr size t ∨
        ∃ e t', piece addr (pieceLen k addr size) t = (.error e, t') ∧
          ∀ d, spill addr (pieceLen k addr size) t d = d := by
  have hstatus (out : Nat → β) := h.walk_ok_iff (k := k) size addr 0 size (mk out t)
  simp only [hrest] at hstatus
  unfold walkRange
  by_cases hserved : ServedInTurn k piece size addr size t
  · exact iff_of_true (fun out hfail => absurd ((hstatus out).mpr hserved) hfail) (Or.inl hserved)
  · have hsize : size ≠ 0 := by
      rintro rfl
      exact hserved trivial
    obtain ⟨fuel, rfl⟩ := Nat.exists_eq_succ_of_ne_zero hsize
    have hfails (out : Nat → β) : (walk k body (fuel + 1) addr 0 (fuel + 1) (mk out t)).1 ≠ .ok () :=
      mt (hstatus out).mp hserved
    constructor
    · intro hkeep
      refine Or.inr ?_
      obtain ⟨x, y, hxy⟩ := exists_pair_ne β
      rcases h.walk_step (k := k) fuel addr 0 hsize (mk (fun _ => x) t) with
        ⟨e, t', hpiece, _, _⟩ | ⟨d, s', hpiece, _, _⟩
      · rw [hrest] at hpiece
        refine ⟨e, t', hpiece, fun d => ?_⟩
        rcases h.walk_step (k := k) fuel addr 0 hsize (mk d t) with
          ⟨_, _, _, _, hleft⟩ | ⟨d', s', hpiece', _, _⟩
        · have hsame := hkeep d (hfails d)
          rw [hleft, hbuf, hrest, place_zero] at hsame
          simpa only [Nat.zero_add] using hsame
        · rw [hrest] at hpiece'
          cases hpiece.symm.trans hpiece'
      · -- the first byte delivered is not what some buffer held
        rw [hrest] at hpiece
        obtain ⟨z, hz⟩ : ∃ z, z ≠ d 0 := by
          by_cases hx : x = d 0
          · exact ⟨y, fun hy => hxy (hx.trans hy.symm)⟩
          · exact ⟨x, hx⟩
        have hsame := congrFun (hkeep (fun _ => z) (hfails _)) 0
        rcases h.walk_step (k := k) fuel addr 0 hsize (mk (fun _ => z) t) with
          ⟨e, t', hpiece', _, _⟩ | ⟨d', s'', hpiece', hfill, hwalk⟩
        · rw [hrest] at hpiece'
          cases hpiece.symm.trans hpiece'
        · rw [hrest] at hpiece'
          obtain rfl : d = d' :=
            Except.ok.inj (congrArg Prod.fst (hpiece.symm.trans hpiece'))
          have hpos := pieceLen_pos k addr hsize
          rw [hwalk, h.walk_keeps _ _ _ _ _ (by omega), hfill,
            overwrite_inside _ _ _ _ (by omega)] at hsame
          exact absurd hsame.symm hz
    · rintro (hall | ⟨e, t', hpiece, hleft⟩) out _
      · exact absurd hall hserved
      · rcases h.walk_step (k := k) fuel addr 0 hsize (mk out t) with
          ⟨_, _, _, _, hfill⟩ | ⟨d, s', hpiece', _, _⟩
        · rw [hfill, hbuf, hrest, place_zero]
          simpa only [Nat.zero_add] using hleft out
        · rw [hrest] at hpiece'
          cases hpiece.symm.trans hpiece'

end

end Granule
