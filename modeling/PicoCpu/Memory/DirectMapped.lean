import PicoCpu.Memory.Provider

/-!
The direct-mapped levels. `L1Cache` (64 lines of 64 bytes) and `L2Cache` (256 pages of
4 KiB) run the same code with their own constants, so it is modelled once. The page
table `L2Cache` allocates on first use starts with every slot invalid; before that the
source returns early, which has the same effect.
-/

namespace PicoCpu

open Granule

/-- A cache line or page. -/
structure Slot where
  tag : GuestAddr := 0
  valid : Bool := false
  data : Buf := fun _ => 0

/-- The slot holds granule `b`. -/
def Slot.holds (slot : Slot) (b : GuestAddr) : Bool := slot.valid && slot.tag == b

def Slot.view (slot : Slot) (b : GuestAddr) : Option Buf :=
  if slot.holds b then some slot.data else none

theorem Slot.view_eq_some {slot : Slot} {b : GuestAddr} {d : Buf} :
    slot.view b = some d ↔ slot.valid = true ∧ slot.tag = b ∧ slot.data = d := by
  unfold Slot.view Slot.holds
  rw [Option.ite_none_right_eq_some, Bool.and_eq_true, beq_iff_eq, Option.some.injEq, and_assoc]

/-- The slots of a direct-mapped cache. -/
abbrev Slots := Nat → Slot

namespace DirectMapped

variable {σ : Type} (k entries : Nat)

/-- The slot a granule maps to: its number, modulo the (power of two) table size. -/
def slotIndex (b : GuestAddr) : Nat := ((b >>> k) &&& BitVec.ofNat 64 (entries - 1)).toNat

/-- One iteration of the read loop: serve a hit, or fetch the whole granule first. A
failed fetch invalidates the slot it was fetching into. -/
def serve (next : MemoryProvider σ) (cur : GuestAddr) (n done : Nat) (st : Buf × Slots × σ) :
    Except Status Unit × Buf × Slots × σ :=
  let (out, c, s) := st
  let b := base k cur
  let idx := slotIndex k entries b
  let slot := c idx
  if slot.holds b then
    (.ok (), overwrite out done n (fun i => slot.data (off k cur + i)), c, s)
  else
    match next.read b (2 ^ k) slot.data s with
    | (.error e, d, s') =>
        (.error e, out, Function.update c idx { slot with valid := false, data := d }, s')
    | (.ok _, d, s') =>
        (.ok (), overwrite out done n (fun i => d (off k cur + i)),
          Function.update c idx { tag := b, valid := true, data := d }, s')

def read (next : MemoryProvider σ) (addr : GuestAddr) (size : Nat) (out : Buf) (st : Slots × σ) :
    Except Status Unit × Buf × Slots × σ :=
  walkRange k (serve k entries next) addr size (out, st)

/-- Patch a held granule in place. -/
def patch (b : GuestAddr) (pos n : Nat) (src : Buf) (c : Slots) : Slots :=
  let idx := slotIndex k entries b
  if (c idx).holds b then
    Function.update c idx { c idx with data := overwrite (c idx).data pos n src }
  else c

/-- Write through, then patch the granules the write covers. -/
def write (next : MemoryProvider σ) (addr : GuestAddr) (size : Nat) (data : Buf)
    (st : Slots × σ) : Except Status Unit × Slots × σ :=
  if size = 0 then (.ok (), st)
  else
    match next.write addr size data st.2 with
    | (.error e, s') => (.error e, st.1, s')
    | (.ok _, s') => (.ok (), patchRange k (patch k entries) addr size data st.1, s')

def provider (next : MemoryProvider σ) : MemoryProvider (Slots × σ) where
  read := read k entries next
  write := write k entries next

/-- Invalidate the slot of granule `b` if it holds it. -/
def drop (c : Slots) (b : GuestAddr) : Slots :=
  let idx := slotIndex k entries b
  if (c idx).holds b then Function.update c idx { c idx with valid := false } else c

/-- Drop every granule from that of `addr` to that of the last byte. The loop of the source
steps from the first to the last granule base and stops on equality, which takes as many
steps as there are granules between them. -/
def invalidate (addr : GuestAddr) (size : Nat) (c : Slots) : Slots :=
  if size = 0 then c
  else
    let first := base k addr
    let last := base k (addr + BitVec.ofNat 64 size - 1)
    let steps := (last - first).toNat / 2 ^ k + 1
    (List.range steps).foldl
      (fun c i => drop k entries c (first + BitVec.ofNat 64 (i * 2 ^ k))) c

def flush (c : Slots) : Slots := fun i => { c i with valid := false, tag := 0 }

/-! ### Coherence -/

/-- The granules the cache holds. -/
def view (c : Slots) (b : GuestAddr) : Option Buf := (c (slotIndex k entries b)).view b

/-- A valid slot is the one its tag maps to. -/
def Placed (c : Slots) : Prop := ∀ j, (c j).valid = true → slotIndex k entries (c j).tag = j

theorem view_of_valid {c : Slots} (hplaced : Placed k entries c) {j : Nat}
    (hvalid : (c j).valid = true) : view k entries c (c j).tag = some (c j).data := by
  rw [view, hplaced j hvalid]
  exact Slot.view_eq_some.mpr ⟨hvalid, rfl, rfl⟩

/-- Replacing a slot by an invalid one hides at most its own granule. -/
theorem view_update_invalid {c : Slots} {idx : Nat} {slot : Slot} (hslot : slot.valid = false)
    {b : GuestAddr} {d : Buf} (h : view k entries (Function.update c idx slot) b = some d) :
    view k entries c b = some d := by
  unfold view at h ⊢
  by_cases hidx : slotIndex k entries b = idx
  · rw [hidx, Function.update_self, Slot.view_eq_some, hslot] at h
    exact absurd h.1 (by simp)
  · rwa [Function.update_of_ne hidx] at h

theorem view_update_fetched {c : Slots} {b' : GuestAddr} {d' : Buf} {b : GuestAddr} {d : Buf}
    (h : view k entries
      (Function.update c (slotIndex k entries b') { tag := b', valid := true, data := d' }) b =
        some d) : (b = b' ∧ d = d') ∨ view k entries c b = some d := by
  unfold view at h ⊢
  by_cases hidx : slotIndex k entries b = slotIndex k entries b'
  · rw [hidx, Function.update_self, Slot.view_eq_some] at h
    exact Or.inl ⟨h.2.1.symm, h.2.2.symm⟩
  · rw [Function.update_of_ne hidx] at h
    exact Or.inr h

theorem placed_update_invalid {c : Slots} (hplaced : Placed k entries c) {idx : Nat} {slot : Slot}
    (hslot : slot.valid = false) : Placed k entries (Function.update c idx slot) := by
  intro j hj
  by_cases hidx : j = idx
  · rw [hidx, Function.update_self, hslot] at hj
    exact absurd hj (by simp)
  · rw [Function.update_of_ne hidx] at hj ⊢
    exact hplaced j hj

theorem placed_update_tag {c : Slots} (hplaced : Placed k entries c) (slot : Slot) :
    Placed k entries (Function.update c (slotIndex k entries slot.tag) slot) := by
  intro j hj
  by_cases hidx : j = slotIndex k entries slot.tag
  · rw [hidx, Function.update_self]
  · rw [Function.update_of_ne hidx] at hj ⊢
    exact hplaced j hj

theorem patch_law : PatchLaw (view k entries) (patch k entries) := by
  intro b pos n src c b'
  by_cases hholds : (c (slotIndex k entries b)).holds b = true
  · simp only [patch, if_pos hholds, view]
    by_cases hb : b' = b
    · subst hb
      rw [if_pos rfl, Function.update_self]
      unfold Slot.holds at hholds
      simp only [Slot.view, Slot.holds, hholds, if_true, Option.map_some]
    · rw [if_neg hb]
      by_cases hidx : slotIndex k entries b' = slotIndex k entries b
      · have hne : ((c (slotIndex k entries b)).tag == b') = false := by
          have htag := (Bool.and_eq_true _ _ ▸ hholds : _ ∧ _).2
          rw [beq_iff_eq] at htag
          rw [htag]
          exact beq_eq_false_iff_ne.mpr (fun h => hb h.symm)
        rw [hidx, Function.update_self]
        simp only [Slot.view, Slot.holds, hne, Bool.and_false, Bool.false_eq_true, if_false]
      · rw [Function.update_of_ne hidx]
  · simp only [patch, if_neg hholds, view]
    by_cases hb : b' = b
    · subst hb
      rw [if_pos rfl, Slot.view, if_neg hholds, Option.map_none]
    · rw [if_neg hb]

theorem placed_patch {c : Slots} (hplaced : Placed k entries c) (b : GuestAddr) (pos n : Nat)
    (src : Buf) : Placed k entries (patch k entries b pos n src c) := by
  by_cases hholds : (c (slotIndex k entries b)).holds b = true
  · simp only [patch, if_pos hholds]
    have hboth := hholds
    rw [Slot.holds, Bool.and_eq_true, beq_iff_eq] at hboth
    have h := placed_update_tag k entries hplaced
      { c (slotIndex k entries b) with
        data := overwrite (c (slotIndex k entries b)).data pos n src }
    rwa [hplaced _ hboth.1] at h
  · simp only [patch, if_neg hholds]
    exact hplaced

/-! ### The layer represents what the next one represents -/

/-- The invariant of a level over a next level with invariant `Inv` and memory `mem`. -/
def LevelInv (Inv : σ → Prop) (mem : σ → ByteMap) (st : Slots × σ) : Prop :=
  Inv st.2 ∧ Coherent k (view k entries st.1) (mem st.2) ∧ Placed k entries st.1

section Level

variable {next : MemoryProvider σ} {Inv : σ → Prop} {mem : σ → ByteMap}
  (hnext : Represents next Inv mem) (hk : k ≤ 64)
include hnext hk

/-- One iteration of the read loop. -/
theorem serve_leaves (addr : GuestAddr) (size : Nat) (out : Buf) (s₀ : σ) (done n : Nat)
    (st : Buf × Slots × σ) (hle : done + n ≤ size)
    (hfit : off k (addr + BitVec.ofNat 64 done) + n ≤ 2 ^ k)
    (hinv : LevelInv k entries Inv mem st.2) (hmem : mem st.2.2 = mem s₀)
    (hfill : Filled (mem s₀) addr size out done st.1) :
    Leaves (done + n)
      (fun m st => LevelInv k entries Inv mem st.2 ∧ mem st.2.2 = mem s₀ ∧
        Filled (mem s₀) addr size out m st.1)
      (fun _ st => LevelInv k entries Inv mem st.2 ∧ mem st.2.2 = mem s₀ ∧
        ∀ i, size ≤ i → st.1 i = out i)
      (serve k entries next (addr + BitVec.ofNat 64 done) n done st) := by
  obtain ⟨out', c, s⟩ := st
  obtain ⟨hs, hco, hplaced⟩ := hinv
  have hgranule : 2 ^ k ≤ 2 ^ 64 := Nat.pow_le_pow_right (by omega) hk
  generalize hcur : addr + BitVec.ofNat 64 done = cur at hfit
  simp only [serve]
  by_cases hholds : (c (slotIndex k entries (base k cur))).holds (base k cur) = true
  · rw [if_pos hholds]
    have hview : view k entries c (base k cur) =
        some (c (slotIndex k entries (base k cur))).data := if_pos hholds
    have hdata := (hco _ _ hview).2
    rw [hmem] at hdata
    exact ⟨⟨hs, hco, hplaced⟩, hmem, hfill.copy hcur.symm hle hfit hdata⟩
  · rw [if_neg hholds]
    have hinv' := hnext.read_inv (base k cur) (2 ^ k)
      (c (slotIndex k entries (base k cur))).data s hgranule hs
    have hmem' := hnext.read_mem (base k cur) (2 ^ k)
      (c (slotIndex k entries (base k cur))).data s hgranule hs
    have hok := hnext.read_ok (base k cur) (2 ^ k)
      (c (slotIndex k entries (base k cur))).data s hgranule hs
    revert hinv' hmem' hok
    cases next.read (base k cur) (2 ^ k) (c (slotIndex k entries (base k cur))).data s with
    | mk r rest =>
        obtain ⟨d, s'⟩ := rest
        intro hinv' hmem' hok
        simp only at hinv' hmem' hok
        cases r with
        | error e =>
            refine ⟨⟨hinv', ?_, placed_update_invalid k entries hplaced rfl⟩, hmem'.trans hmem,
              hfill.2⟩
            intro b d' hview
            have := hco b d' (view_update_invalid k entries rfl hview)
            rwa [← hmem'] at this
        | ok u =>
            have hfetched := hok rfl
            refine ⟨⟨hinv', ?_, ?_⟩, hmem'.trans hmem, ?_⟩
            · intro b d' hview
              rw [hmem']
              rcases view_update_fetched k entries hview with ⟨rfl, rfl⟩ | hold
              · exact ⟨base_base k cur, hfetched⟩
              · exact hco b d' hold
            · exact placed_update_tag k entries hplaced
                { tag := base k cur, valid := true, data := d }
            · rw [hmem] at hfetched
              exact hfill.copy hcur.symm hle hfit hfetched

theorem read_leaves (addr : GuestAddr) (size : Nat) (out : Buf) (st : Slots × σ)
    (hinv : LevelInv k entries Inv mem st) :
    Leaves size
      (fun m st' => LevelInv k entries Inv mem st'.2 ∧ mem st'.2.2 = mem st.2 ∧
        Filled (mem st.2) addr size out m st'.1)
      (fun _ st' => LevelInv k entries Inv mem st'.2 ∧ mem st'.2.2 = mem st.2 ∧
        ∀ i, size ≤ i → st'.1 i = out i)
      (read k entries next addr size out st) := by
  refine walkRange_rule k _ addr size _ _ ?_ (out, st) ⟨hinv, rfl, ?_, fun _ _ => rfl⟩
  · rintro done n st' ⟨hinv', hmem, hfill⟩ hpos hle hfit
    exact serve_leaves k entries hnext hk addr size out st.2 done n st' hle hfit hinv' hmem hfill
  · exact fun i hi => absurd hi (Nat.not_lt_zero i)

/-- A write-through leaves the level coherent with the memory below it. -/
theorem write_levelInv (addr : GuestAddr) (size : Nat) (data : Buf) (st : Slots × σ)
    (hsize : size ≤ 2 ^ 64) (hinv : LevelInv k entries Inv mem st) :
    LevelInv k entries Inv mem (write k entries next addr size data st).2 ∧
      (∀ e, (write k entries next addr size data st).1 = .error e →
        mem (write k entries next addr size data st).2.2 = mem st.2) ∧
      ((write k entries next addr size data st).1 = .ok () →
        Written (mem st.2) (mem (write k entries next addr size data st).2.2) addr size data) := by
  obtain ⟨c, s⟩ := st
  obtain ⟨hs, hco, hplaced⟩ := hinv
  unfold write
  by_cases hzero : size = 0
  · subst hzero
    rw [if_pos rfl]
    exact ⟨⟨hs, hco, hplaced⟩, fun _ _ => rfl, fun _ => written_zero _ _ _⟩
  · rw [if_neg hzero]
    have hinv' := hnext.write_inv addr size data s hsize hs
    have herror := hnext.write_error addr size data s
    have hok := hnext.write_ok addr size data s hsize hs
    revert hinv' herror hok
    simp only
    cases next.write addr size data s with
    | mk r s' =>
        intro hinv' herror hok
        simp only at hinv' herror hok
        cases r with
        | error e =>
            have hmem := herror e hsize hs rfl
            refine ⟨⟨hinv', ?_, hplaced⟩, fun _ _ => hmem, fun h => by simp at h⟩
            simp only
            rwa [hmem]
        | ok u =>
            have hwritten := hok rfl
            refine ⟨⟨hinv', ?_, ?_⟩, fun e h => by simp at h, fun _ => hwritten⟩
            · exact patchRange_coherent k hk (patch_law k entries) hsize hwritten hco
            · exact patchRange_induct k (patch k entries) addr size data
                (fun _ c => Placed k entries c)
                (fun done n c hc _ _ _ => placed_patch k entries hc _ _ _ _) c hplaced

theorem represents :
    Represents (provider k entries next) (LevelInv k entries Inv mem) (fun st => mem st.2) where
  read_inv addr size out st _ hinv := by
    have h := read_leaves k entries hnext hk addr size out st hinv
    change LevelInv k entries Inv mem (read k entries next addr size out st).2.2
    revert h
    cases read k entries next addr size out st with
    | mk r st' => cases r <;> exact fun h => h.1
  read_mem addr size out st _ hinv := by
    have h := read_leaves k entries hnext hk addr size out st hinv
    change mem (read k entries next addr size out st).2.2.2 = _
    revert h
    cases read k entries next addr size out st with
    | mk r st' => cases r <;> exact fun h => h.2.1
  read_frame addr size out st _ hinv := by
    have h := read_leaves k entries hnext hk addr size out st hinv
    change ∀ i, size ≤ i → (read k entries next addr size out st).2.1 i = out i
    revert h
    cases read k entries next addr size out st with
    | mk r st' =>
        cases r with
        | error e => exact fun h => h.2.2
        | ok u => exact fun h => h.2.2.2
  read_ok addr size out st _ hinv := by
    have h := read_leaves k entries hnext hk addr size out st hinv
    change (read k entries next addr size out st).1 = .ok () → ∀ i < size,
      mem st.2 _ = some ((read k entries next addr size out st).2.1 i)
    revert h
    cases read k entries next addr size out st with
    | mk r st' =>
        cases r with
        | error e => exact fun _ h => by simp at h
        | ok u => exact fun h _ => h.2.2.1
  write_inv addr size data st hsize hinv :=
    (write_levelInv k entries hnext hk addr size data st hsize hinv).1
  write_error addr size data st e hsize hinv :=
    (write_levelInv k entries hnext hk addr size data st hsize hinv).2.1 e
  write_ok addr size data st hsize hinv :=
    (write_levelInv k entries hnext hk addr size data st hsize hinv).2.2

end Level

/-! ### Dropping entries -/

section Drop

variable {c : Slots} {mem : ByteMap}

theorem drop_coherent (hco : Coherent k (view k entries c) mem) (hplaced : Placed k entries c)
    (b : GuestAddr) :
    Coherent k (view k entries (drop k entries c b)) mem ∧ Placed k entries (drop k entries c b) := by
  simp only [drop]
  split
  · exact ⟨fun b' d hview => hco b' d (view_update_invalid k entries rfl hview),
      placed_update_invalid k entries hplaced rfl⟩
  · exact ⟨hco, hplaced⟩

theorem invalidate_coherent (hco : Coherent k (view k entries c) mem) (hplaced : Placed k entries c)
    (addr : GuestAddr) (size : Nat) :
    Coherent k (view k entries (invalidate k entries addr size c)) mem ∧
      Placed k entries (invalidate k entries addr size c) := by
  by_cases hzero : size = 0
  · rw [invalidate, if_pos hzero]
    exact ⟨hco, hplaced⟩
  · simp only [invalidate, if_neg hzero]
    generalize List.range _ = steps
    induction steps generalizing c with
    | nil => exact ⟨hco, hplaced⟩
    | cons i rest ih =>
        obtain ⟨hco', hplaced'⟩ := drop_coherent k entries hco hplaced
          (base k addr + BitVec.ofNat 64 (i * 2 ^ k))
        exact ih hco' hplaced'

theorem flush_coherent :
    Coherent k (view k entries (flush c)) mem ∧ Placed k entries (flush c) := by
  constructor
  · intro b d hview
    exact absurd (Slot.view_eq_some.mp hview).1 (by simp [flush])
  · intro j hj
    exact absurd hj (by simp [flush])

/-- A table with no valid slot is coherent with anything. -/
theorem empty_coherent (mem : ByteMap) :
    Coherent k (view k entries fun _ => {}) mem ∧ Placed k entries fun _ => {} := by
  constructor
  · intro b d hview
    exact absurd (Slot.view_eq_some.mp hview).1 (by simp)
  · intro j hj
    exact absurd hj (by simp)

end Drop

end DirectMapped

end PicoCpu
