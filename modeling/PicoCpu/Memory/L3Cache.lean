import PicoCpu.Memory.Provider

/-!
The third level: sixteen regions of 2 MiB with least-recently-used replacement. A
region that cannot be fetched whole is not cached; the request then goes straight to
the next provider.
-/

namespace PicoCpu

open Granule

structure Region where
  base : GuestAddr := 0
  valid : Bool := false
  data : Buf := fun _ => 0
  dataSize : Nat := 0
  lastUse : U64 := 0

def Region.holds (r : Region) (b : GuestAddr) : Bool := r.valid && r.base == b

structure L3Cache where
  regions : Nat → Region := fun _ => {}
  useCounter : U64 := 0

namespace L3Cache

abbrev entries : Nat := 16
abbrev regionShift : Nat := 21

variable {σ : Type}

/-- The first slot that holds region `b`. -/
def hit (c : L3Cache) (b : GuestAddr) : Option Nat :=
  (List.range entries).find? fun i => (c.regions i).holds b

/-- The replacement scan: the first invalid slot, else the least recently used one. -/
def victimFrom (c : L3Cache) : List Nat → Nat → Nat
  | [], v => v
  | i :: rest, v =>
    if (c.regions i).valid = false then i
    else victimFrom c rest (if (c.regions i).lastUse < (c.regions v).lastUse then i else v)

def victim (c : L3Cache) : Nat := victimFrom c (List.range entries) 0

def setRegion (c : L3Cache) (i : Nat) (r : Region) : L3Cache :=
  { c with regions := Function.update c.regions i r }

/-- `slot.last_use = ++use_counter_`. -/
def touch (c : L3Cache) (i : Nat) : L3Cache :=
  { (c.setRegion i { c.regions i with lastUse := c.useCounter + 1 }) with
    useCounter := c.useCounter + 1 }

def prefetchRegion (next : MemoryProvider σ) (addr : GuestAddr) (st : L3Cache × σ) :
    Except Status Unit × L3Cache × σ :=
  let (c, s) := st
  let b := base regionShift addr
  match c.hit b with
  | some i => (.ok (), c.touch i, s)
  | none =>
    let v := c.victim
    let r := c.regions v
    let r := if r.dataSize = 2 ^ regionShift then r
      else { r with data := fun _ => 0, dataSize := 2 ^ regionShift }
    match next.read b (2 ^ regionShift) r.data s with
    | (.error e, d, s') =>
        (.error e, c.setRegion v { r with valid := false, data := d, dataSize := 0 }, s')
    | (.ok _, d, s') =>
        (.ok (), ({ c with useCounter := c.useCounter + 1 } : L3Cache).setRegion v
          { r with base := b, valid := true, data := d, lastUse := c.useCounter + 1 }, s')

/-- `next_->read(cur, n, dst)`, into the buffer from position `done` on. -/
def passThrough (next : MemoryProvider σ) (cur : GuestAddr) (n done : Nat) (out : Buf) (s : σ) :
    Except Status Unit × Buf × σ :=
  match next.read cur n (fun i => out (done + i)) s with
  | (r, d, s') => (r, fun i => if i < done then out i else d (i - done), s')

/-- One iteration of the read loop. -/
def serve (next : MemoryProvider σ) (cur : GuestAddr) (n done : Nat) (st : Buf × L3Cache × σ) :
    Except Status Unit × Buf × L3Cache × σ :=
  let (out, c, s) := st
  let b := base regionShift cur
  let copy (c : L3Cache) (i : Nat) : Buf :=
    overwrite out done n (fun j => (c.regions i).data (off regionShift cur + j))
  match c.hit b with
  | some i => (.ok (), copy c i, c.touch i, s)
  | none =>
    match prefetchRegion next b (c, s) with
    | (.error _, c', s') =>
        -- no bulk fetch: this request alone passes through
        match passThrough next cur n done out s' with
        | (r, out', s'') => (r, out', c', s'')
    | (.ok _, c', s') =>
        match c'.hit b with
        | some i => (.ok (), copy c' i, c', s')
        | none => (.ok (), out, c', s')

def read (next : MemoryProvider σ) (addr : GuestAddr) (size : Nat) (out : Buf)
    (st : L3Cache × σ) : Except Status Unit × Buf × L3Cache × σ :=
  walkRange regionShift (serve next) addr size (out, st)

/-- Patch the region in place if a slot holds it. -/
def patch (b : GuestAddr) (pos n : Nat) (src : Buf) (c : L3Cache) : L3Cache :=
  match c.hit b with
  | some i => c.setRegion i { c.regions i with data := overwrite (c.regions i).data pos n src }
  | none => c

def write (next : MemoryProvider σ) (addr : GuestAddr) (size : Nat) (data : Buf)
    (st : L3Cache × σ) : Except Status Unit × L3Cache × σ :=
  if size = 0 then (.ok (), st)
  else
    match next.write addr size data st.2 with
    | (.error e, s') => (.error e, st.1, s')
    | (.ok _, s') => (.ok (), patchRange regionShift patch addr size data st.1, s')

def provider (next : MemoryProvider σ) : MemoryProvider (L3Cache × σ) where
  read := read next
  write := write next

/-- Invalidate every slot that holds region `b`. -/
def drop (c : L3Cache) (b : GuestAddr) : L3Cache :=
  { c with regions := fun i =>
      if (c.regions i).holds b then { c.regions i with valid := false, dataSize := 0 }
      else c.regions i }

/-- As in the other levels, the loop over region bases meets the last one after the number
of steps between them. -/
def invalidate (addr : GuestAddr) (size : Nat) (c : L3Cache) : L3Cache :=
  if size = 0 then c
  else
    let first := base regionShift addr
    let last := base regionShift (addr + BitVec.ofNat 64 size - 1)
    let steps := (last - first).toNat / 2 ^ regionShift + 1
    (List.range steps).foldl
      (fun c i => c.drop (first + BitVec.ofNat 64 (i * 2 ^ regionShift))) c

def flush (c : L3Cache) : L3Cache :=
  { regions := fun i => { c.regions i with valid := false, base := 0, dataSize := 0 }
    useCounter := 0 }

/-! ### Coherence -/

/-- The regions the cache holds. -/
def view (c : L3Cache) (b : GuestAddr) : Option Buf := (c.hit b).map fun i => (c.regions i).data

/-- No region is held twice, and a held region has all its bytes. -/
structure Placed (c : L3Cache) : Prop where
  unique : ∀ i < entries, ∀ j < entries, (c.regions i).valid = true → (c.regions j).valid = true →
    (c.regions i).base = (c.regions j).base → i = j
  full : ∀ i < entries, (c.regions i).valid = true → (c.regions i).dataSize = 2 ^ regionShift

theorem Region.holds_iff {r : Region} {b : GuestAddr} :
    r.holds b = true ↔ r.valid = true ∧ r.base = b := by
  rw [Region.holds, Bool.and_eq_true, beq_iff_eq]

theorem hit_eq_some {c : L3Cache} {b : GuestAddr} {i : Nat} (h : c.hit b = some i) :
    i < entries ∧ (c.regions i).valid = true ∧ (c.regions i).base = b := by
  have hmem := List.mem_range.mp (List.mem_of_find?_eq_some h)
  have hholds := List.find?_some h
  exact ⟨hmem, Region.holds_iff.mp hholds⟩

theorem hit_eq_none {c : L3Cache} {b : GuestAddr} (h : c.hit b = none) {i : Nat}
    (hi : i < entries) (hvalid : (c.regions i).valid = true) : (c.regions i).base ≠ b := by
  intro hb
  have hnone := List.find?_eq_none.mp h i (List.mem_range.mpr hi)
  exact hnone (Region.holds_iff.mpr ⟨hvalid, hb⟩)

theorem hit_of_valid {c : L3Cache} (hplaced : c.Placed) {i : Nat} (hi : i < entries)
    (hvalid : (c.regions i).valid = true) : c.hit (c.regions i).base = some i := by
  cases hhit : c.hit (c.regions i).base with
  | none => exact absurd rfl (hit_eq_none hhit hi hvalid)
  | some j =>
      obtain ⟨hj, hjvalid, hbase⟩ := hit_eq_some hhit
      rw [hplaced.unique j hj i hi hjvalid hvalid hbase]

theorem view_of_valid {c : L3Cache} (hplaced : c.Placed) {i : Nat} (hi : i < entries)
    (hvalid : (c.regions i).valid = true) :
    c.view (c.regions i).base = some (c.regions i).data := by
  rw [view, hit_of_valid hplaced hi hvalid]
  rfl

theorem view_eq_some {c : L3Cache} {b : GuestAddr} {d : Buf} (h : c.view b = some d) :
    ∃ i < entries, (c.regions i).valid = true ∧ (c.regions i).base = b ∧ (c.regions i).data = d := by
  rw [view, Option.map_eq_some_iff] at h
  obtain ⟨i, hhit, hd⟩ := h
  obtain ⟨hi, hvalid, hbase⟩ := hit_eq_some hhit
  exact ⟨i, hi, hvalid, hbase, hd⟩

/-- An update that keeps `valid` and `base` finds the same slots. -/
theorem hit_congr {c c' : L3Cache}
    (h : ∀ i, (c'.regions i).valid = (c.regions i).valid ∧ (c'.regions i).base = (c.regions i).base)
    (b : GuestAddr) : c'.hit b = c.hit b := by
  unfold hit
  congr 1
  funext i
  rw [Region.holds, Region.holds, (h i).1, (h i).2]

theorem regions_setRegion_self (c : L3Cache) (i : Nat) (r : Region) :
    (c.setRegion i r).regions i = r :=
  Function.update_self ..

theorem regions_setRegion_of_ne (c : L3Cache) {i j : Nat} (r : Region) (h : j ≠ i) :
    (c.setRegion i r).regions j = c.regions j :=
  Function.update_of_ne h ..

/-- Rewriting a slot without moving it: same base, validity and size. -/
theorem setRegion_same_hit {c : L3Cache} {i : Nat} {r : Region}
    (hvalid : r.valid = (c.regions i).valid) (hbase : r.base = (c.regions i).base) (b : GuestAddr) :
    (c.setRegion i r).hit b = c.hit b := by
  apply hit_congr
  intro j
  by_cases hj : j = i
  · subst hj
    rw [regions_setRegion_self]
    exact ⟨hvalid, hbase⟩
  · rw [regions_setRegion_of_ne c r hj]
    exact ⟨rfl, rfl⟩

theorem setRegion_same_placed {c : L3Cache} (hplaced : c.Placed) {i : Nat} {r : Region}
    (hvalid : r.valid = (c.regions i).valid) (hbase : r.base = (c.regions i).base)
    (hfull : r.dataSize = (c.regions i).dataSize) : (c.setRegion i r).Placed := by
  have hsame (j : Nat) : ((c.setRegion i r).regions j).valid = (c.regions j).valid ∧
      ((c.setRegion i r).regions j).base = (c.regions j).base ∧
      ((c.setRegion i r).regions j).dataSize = (c.regions j).dataSize := by
    by_cases hj : j = i
    · subst hj
      rw [regions_setRegion_self]
      exact ⟨hvalid, hbase, hfull⟩
    · rw [regions_setRegion_of_ne c r hj]
      exact ⟨rfl, rfl, rfl⟩
  constructor
  · intro a ha j hj hva hvj hb
    rw [(hsame a).1] at hva
    rw [(hsame j).1] at hvj
    rw [(hsame a).2.1, (hsame j).2.1] at hb
    exact hplaced.unique a ha j hj hva hvj hb
  · intro a ha hva
    rw [(hsame a).1] at hva
    rw [(hsame a).2.2]
    exact hplaced.full a ha hva

theorem view_touch (c : L3Cache) (i : Nat) : (c.touch i).view = c.view := by
  funext b
  have hhit : (c.touch i).hit b = c.hit b :=
    setRegion_same_hit (c := c) (i := i) (r := { c.regions i with lastUse := c.useCounter + 1 })
      rfl rfl b
  unfold view
  rw [hhit]
  congr 1
  funext j
  by_cases hj : j = i
  · subst hj
    change ((c.setRegion j _).regions j).data = _
    rw [regions_setRegion_self]
  · change ((c.setRegion i _).regions j).data = _
    rw [regions_setRegion_of_ne c _ hj]

theorem placed_touch {c : L3Cache} (hplaced : c.Placed) (i : Nat) : (c.touch i).Placed := by
  have h := setRegion_same_placed hplaced (i := i)
    (r := { c.regions i with lastUse := c.useCounter + 1 }) rfl rfl rfl
  exact ⟨h.unique, h.full⟩

theorem patch_law : PatchLaw view patch := by
  intro b pos n src c b'
  unfold patch
  cases hhit : c.hit b with
  | none =>
      by_cases hb : b' = b
      · rw [if_pos hb, hb, view, hhit]
        rfl
      · rw [if_neg hb]
  | some i =>
      obtain ⟨hi, hvalid, hbase⟩ := hit_eq_some hhit
      simp only [view]
      have hsame := setRegion_same_hit (c := c) (i := i)
        (r := { c.regions i with data := overwrite (c.regions i).data pos n src }) rfl rfl b'
      rw [hsame]
      by_cases hb : b' = b
      · rw [if_pos hb, hb, hhit, Option.map_some, Option.map_some, Option.map_some,
          regions_setRegion_self]
      · rw [if_neg hb]
        cases hhit' : c.hit b' with
        | none => rfl
        | some j =>
            have hj : j ≠ i := by
              rintro rfl
              exact hb ((hit_eq_some hhit').2.2.symm.trans hbase)
            rw [Option.map_some, Option.map_some, regions_setRegion_of_ne c _ hj]

theorem placed_patch {c : L3Cache} (hplaced : c.Placed) (b : GuestAddr) (pos n : Nat) (src : Buf) :
    (patch b pos n src c).Placed := by
  unfold patch
  cases c.hit b with
  | none => exact hplaced
  | some i => exact setRegion_same_placed hplaced rfl rfl rfl

/-- Any update that only invalidates slots keeps the others placed. -/
theorem placed_of_sub {c c' : L3Cache}
    (hsub : ∀ i, (c'.regions i).valid = true → c'.regions i = c.regions i) (hplaced : c.Placed) :
    c'.Placed := by
  constructor
  · intro a ha j hj hva hvj hb
    have hsa := hsub a hva
    have hsj := hsub j hvj
    rw [hsa] at hva hb
    rw [hsj] at hvj hb
    exact hplaced.unique a ha j hj hva hvj hb
  · intro a ha hva
    have hsame := hsub a hva
    rw [hsame] at hva ⊢
    exact hplaced.full a ha hva

/-- Any update that only invalidates slots keeps the level coherent. -/
theorem coherent_of_sub {c c' : L3Cache} {mem : ByteMap}
    (hsub : ∀ i, (c'.regions i).valid = true → c'.regions i = c.regions i)
    (hco : Coherent regionShift c.view mem) (hplaced : c.Placed) :
    Coherent regionShift c'.view mem ∧ c'.Placed := by
  refine ⟨?_, placed_of_sub hsub hplaced⟩
  intro b d hview
  obtain ⟨i, hi, hvalid, hbase, hdata⟩ := view_eq_some hview
  have hsame := hsub i hvalid
  rw [hsame] at hvalid hbase hdata
  rw [← hbase, ← hdata]
  exact hco _ _ (view_of_valid hplaced hi hvalid)

/-- Putting an invalid region into a slot keeps every valid slot that is left. -/
theorem setRegion_invalid_sub (c : L3Cache) (i : Nat) {r : Region} (hr : r.valid = false) (j : Nat)
    (hj : ((c.setRegion i r).regions j).valid = true) :
    (c.setRegion i r).regions j = c.regions j := by
  by_cases hji : j = i
  · subst hji
    rw [regions_setRegion_self, hr] at hj
    exact absurd hj (by simp)
  · exact regions_setRegion_of_ne c r hji

theorem setRegion_invalid {c : L3Cache} (hplaced : c.Placed) {i : Nat} {r : Region}
    (hr : r.valid = false) {mem : ByteMap} (hco : Coherent regionShift c.view mem) :
    Coherent regionShift (c.setRegion i r).view mem ∧ (c.setRegion i r).Placed :=
  coherent_of_sub (setRegion_invalid_sub c i hr) hco hplaced

/-- Filling a slot with a region no slot holds. -/
theorem placed_fetched {c : L3Cache} (hplaced : c.Placed) (v : Nat) {r : Region}
    (hfull : r.dataSize = 2 ^ regionShift) (hnone : c.hit r.base = none) :
    (c.setRegion v r).Placed := by
  constructor
  · intro a ha j hj hva hvj hb
    by_cases hav : a = v
    · by_cases hjv : j = v
      · rw [hav, hjv]
      · subst hav
        rw [regions_setRegion_self, regions_setRegion_of_ne c r hjv] at hb
        rw [regions_setRegion_of_ne c r hjv] at hvj
        exact absurd hb.symm (hit_eq_none hnone hj hvj)
    · by_cases hjv : j = v
      · subst hjv
        rw [regions_setRegion_self, regions_setRegion_of_ne c r hav] at hb
        rw [regions_setRegion_of_ne c r hav] at hva
        exact absurd hb (hit_eq_none hnone ha hva)
      · rw [regions_setRegion_of_ne c r hav] at hva hb
        rw [regions_setRegion_of_ne c r hjv] at hvj hb
        exact hplaced.unique a ha j hj hva hvj hb
  · intro a ha hva
    by_cases hav : a = v
    · rw [hav, regions_setRegion_self]
      exact hfull
    · rw [regions_setRegion_of_ne c r hav] at hva ⊢
      exact hplaced.full a ha hva

/-- The filled slot is coherent with the memory it was filled from, and is found. -/
theorem setRegion_fetched {c : L3Cache} (hplaced : c.Placed) {v : Nat} {r : Region}
    (hv : v < entries) (hr : r.valid = true) (hfull : r.dataSize = 2 ^ regionShift)
    (hnone : c.hit r.base = none) {mem : ByteMap} (hco : Coherent regionShift c.view mem)
    (hnew : Granule.base regionShift r.base = r.base ∧
      ∀ i < 2 ^ regionShift, mem (r.base + BitVec.ofNat 64 i) = some (r.data i)) :
    (c.setRegion v r).Placed ∧ Coherent regionShift (c.setRegion v r).view mem ∧
      (c.setRegion v r).hit r.base = some v := by
  have hplaced' : (c.setRegion v r).Placed := placed_fetched hplaced v hfull hnone
  refine ⟨hplaced', ?_, ?_⟩
  · intro b d hview
    obtain ⟨j, hj, hvalid, hbase, hdata⟩ := view_eq_some hview
    by_cases hjv : j = v
    · rw [hjv, regions_setRegion_self] at hbase hdata
      rw [← hbase, ← hdata]
      exact hnew
    · rw [regions_setRegion_of_ne c r hjv] at hvalid hbase hdata
      rw [← hbase, ← hdata]
      exact hco _ _ (view_of_valid hplaced hj hvalid)
  · have h := hit_of_valid hplaced' hv (by rw [regions_setRegion_self]; exact hr)
    rwa [regions_setRegion_self] at h

theorem victimFrom_lt (c : L3Cache) (slots : List Nat) (v : Nat) (hv : v < entries)
    (hslots : ∀ i ∈ slots, i < entries) : victimFrom c slots v < entries := by
  induction slots generalizing v with
  | nil => exact hv
  | cons i rest ih =>
      rw [victimFrom]
      split
      · exact hslots i (List.mem_cons_self ..)
      · refine ih _ ?_ (fun j hj => hslots j (List.mem_cons_of_mem _ hj))
        split
        · exact hslots i (List.mem_cons_self ..)
        · exact hv

theorem victim_lt (c : L3Cache) : c.victim < entries :=
  victimFrom_lt c _ 0 (by decide) (fun _ hi => List.mem_range.mp hi)

/-! ### The layer represents what the next one represents -/

def LevelInv (Inv : σ → Prop) (mem : σ → ByteMap) (st : L3Cache × σ) : Prop :=
  Inv st.2 ∧ Coherent regionShift st.1.view (mem st.2) ∧ st.1.Placed

section Level

variable {next : MemoryProvider σ} {Inv : σ → Prop} {mem : σ → ByteMap}
  (hnext : Represents next Inv mem)
include hnext

/-- A prefetch keeps the level coherent; when it succeeds the region is held. -/
theorem prefetchRegion_levelInv (addr : GuestAddr) (st : L3Cache × σ)
    (hinv : LevelInv Inv mem st) :
    LevelInv Inv mem (prefetchRegion next addr st).2 ∧
      mem (prefetchRegion next addr st).2.2 = mem st.2 ∧
      ((prefetchRegion next addr st).1 = .ok () →
        ∃ i, (prefetchRegion next addr st).2.1.hit (base regionShift addr) = some i) := by
  obtain ⟨c, s⟩ := st
  obtain ⟨hs, hco, hplaced⟩ := hinv
  simp only [prefetchRegion]
  generalize hb : base regionShift addr = b
  cases hhit : c.hit b with
  | some i =>
      refine ⟨⟨hs, ?_, placed_touch hplaced i⟩, rfl, fun _ => ⟨i, ?_⟩⟩
      · change Coherent regionShift (c.touch i).view (mem s)
        rwa [view_touch]
      · change (c.touch i).hit b = some i
        rw [← hhit]
        exact setRegion_same_hit (c := c) (i := i)
          (r := { c.regions i with lastUse := c.useCounter + 1 }) rfl rfl b
  | none =>
      simp only
      generalize hr : (if (c.regions c.victim).dataSize = 2 ^ regionShift then c.regions c.victim
        else { c.regions c.victim with data := fun _ => 0, dataSize := 2 ^ regionShift }) = r
      have hfull : r.dataSize = 2 ^ regionShift := by
        rw [← hr]
        split
        · assumption
        · rfl
      have hroom : 2 ^ regionShift ≤ 2 ^ 64 := Nat.pow_le_pow_right (by omega) (by decide)
      have hinv' := hnext.read_inv b (2 ^ regionShift) r.data s hroom hs
      have hmem' := hnext.read_mem b (2 ^ regionShift) r.data s hroom hs
      have hok := hnext.read_ok b (2 ^ regionShift) r.data s hroom hs
      revert hinv' hmem' hok
      cases next.read b (2 ^ regionShift) r.data s with
      | mk res rest =>
          obtain ⟨d, s'⟩ := rest
          intro hinv' hmem' hok
          simp only at hinv' hmem' hok
          have hco' : Coherent regionShift c.view (mem s') := by rwa [hmem']
          cases res with
          | error e =>
              obtain ⟨hc, hp⟩ := setRegion_invalid hplaced (i := c.victim)
                (r := { r with valid := false, data := d, dataSize := 0 }) rfl hco'
              exact ⟨⟨hinv', hc, hp⟩, hmem', fun h => by simp at h⟩
          | ok u =>
              have hfetched := hok rfl
              have halign : Granule.base regionShift b = b := by rw [← hb, base_base]
              obtain ⟨hp, hc, hh⟩ := setRegion_fetched
                (c := { c with useCounter := c.useCounter + 1 })
                ⟨hplaced.unique, hplaced.full⟩ (victim_lt c)
                (r := { r with
                  base := b, valid := true, data := d, lastUse := c.useCounter + 1 })
                rfl hfull hhit hco' ⟨halign, by rwa [hmem']⟩
              exact ⟨⟨hinv', hc, hp⟩, hmem', fun _ => ⟨c.victim, hh⟩⟩

omit hnext in
/-- A region in the view fills the chunk at `cur`. -/
theorem filled_of_hit {c : L3Cache} {m : ByteMap} (hco : Coherent regionShift c.view m)
    {addr cur : GuestAddr} {size done n : Nat} {out out' : Buf}
    (hfill : Filled m addr size out done out') (hcur : cur = addr + BitVec.ofNat 64 done)
    (hle : done + n ≤ size) (hfit : off regionShift cur + n ≤ 2 ^ regionShift) {i : Nat}
    (hhit : c.hit (base regionShift cur) = some i) :
    Filled m addr size out (done + n)
      (overwrite out' done n (fun j => (c.regions i).data (off regionShift cur + j))) := by
  have hview : c.view (base regionShift cur) = some (c.regions i).data := by
    rw [view, hhit]
    rfl
  exact hfill.copy hcur hle hfit (hco _ _ hview).2

/-- Passing a request through fills its chunk from the memory below. -/
theorem passThrough_leaves {addr cur : GuestAddr} {size done n : Nat} {out out' : Buf} {s : σ}
    (hsize : size ≤ 2 ^ 64) (hle : done + n ≤ size) (hcur : cur = addr + BitVec.ofNat 64 done)
    (hs : Inv s) (hfill : Filled (mem s) addr size out done out') :
    Inv (passThrough next cur n done out' s).2.2 ∧
      mem (passThrough next cur n done out' s).2.2 = mem s ∧
      (∀ i, size ≤ i → (passThrough next cur n done out' s).2.1 i = out i) ∧
      ((passThrough next cur n done out' s).1 = .ok () →
        Filled (mem s) addr size out (done + n) (passThrough next cur n done out' s).2.1) := by
  have hn : n ≤ 2 ^ 64 := by omega
  have hframe := hnext.read_frame cur n (fun i => out' (done + i)) s hn hs
  have hok := hnext.read_ok cur n (fun i => out' (done + i)) s hn hs
  have houter (i : Nat) (hi : size ≤ i) : (passThrough next cur n done out' s).2.1 i = out i := by
    simp only [passThrough]
    rw [if_neg (by omega), hframe (i - done) (by omega), Nat.add_sub_cancel' (by omega)]
    exact hfill.2 i hi
  refine ⟨hnext.read_inv cur n _ s hn hs, hnext.read_mem cur n _ s hn hs, houter, ?_⟩
  intro hres
  refine ⟨?_, houter⟩
  intro i hi
  simp only [passThrough]
  by_cases hdone : i < done
  · rw [if_pos hdone]
    exact hfill.1 i hdone
  · have hbyte := hok hres (i - done) (by omega)
    rw [hcur, add_add_ofNat, Nat.add_sub_cancel' (by omega), ← hcur] at hbyte
    rw [if_neg hdone, hbyte]

theorem serve_leaves (addr : GuestAddr) (size : Nat) (out : Buf) (s₀ : σ) (done n : Nat)
    (st : Buf × L3Cache × σ) (hsize : size ≤ 2 ^ 64) (hle : done + n ≤ size)
    (hfit : off regionShift (addr + BitVec.ofNat 64 done) + n ≤ 2 ^ regionShift)
    (hinv : LevelInv Inv mem st.2) (hmem : mem st.2.2 = mem s₀)
    (hfill : Filled (mem s₀) addr size out done st.1) :
    Leaves (done + n)
      (fun m st => LevelInv Inv mem st.2 ∧ mem st.2.2 = mem s₀ ∧
        Filled (mem s₀) addr size out m st.1)
      (fun _ st => LevelInv Inv mem st.2 ∧ mem st.2.2 = mem s₀ ∧
        ∀ i, size ≤ i → st.1 i = out i)
      (serve next (addr + BitVec.ofNat 64 done) n done st) := by
  obtain ⟨out', c, s⟩ := st
  have hinv₀ := hinv
  obtain ⟨hs, hco, hplaced⟩ := hinv
  generalize hcur : addr + BitVec.ofNat 64 done = cur at hfit
  simp only [serve]
  cases hhit : c.hit (base regionShift cur) with
  | some i =>
      simp only
      refine ⟨⟨hs, ?_, placed_touch hplaced i⟩, hmem, ?_⟩
      · change Coherent regionShift (c.touch i).view (mem s)
        rwa [view_touch]
      · simp only at hmem
        rw [← hmem] at hfill ⊢
        exact filled_of_hit hco hfill hcur.symm hle hfit hhit
  | none =>
      simp only
      have hpre := prefetchRegion_levelInv hnext (base regionShift cur) (c, s) hinv₀
      rw [base_base] at hpre
      revert hpre
      cases prefetchRegion next (base regionShift cur) (c, s) with
      | mk res rest =>
          obtain ⟨c', s'⟩ := rest
          rintro ⟨⟨hs', hco', hplaced'⟩, hmem', hheld⟩
          simp only at hs' hco' hplaced' hmem' hheld
          have hmem₀ : mem s' = mem s₀ := hmem'.trans hmem
          cases res with
          | error e =>
              simp only
              rw [← hmem₀] at hfill
              have hpass := passThrough_leaves hnext hsize hle hcur.symm hs' hfill
              revert hpass
              cases passThrough next cur n done out' s' with
              | mk res' rest' =>
                  obtain ⟨d, s''⟩ := rest'
                  rintro ⟨hinv'', hmem'', houter, hok⟩
                  simp only at hinv'' hmem'' houter hok
                  have hlevel : LevelInv Inv mem (c', s'') :=
                    ⟨hinv'', by rw [hmem'']; exact hco', hplaced'⟩
                  cases res' with
                  | error e' => exact ⟨hlevel, hmem''.trans hmem₀, houter⟩
                  | ok u => exact ⟨hlevel, hmem''.trans hmem₀, hmem₀ ▸ hok rfl⟩
          | ok u =>
              obtain ⟨i, hi⟩ := hheld rfl
              simp only [hi]
              refine ⟨⟨hs', hco', hplaced'⟩, hmem₀, ?_⟩
              rw [← hmem₀] at hfill ⊢
              exact filled_of_hit hco' hfill hcur.symm hle hfit hi

theorem read_leaves (addr : GuestAddr) (size : Nat) (out : Buf) (st : L3Cache × σ)
    (hsize : size ≤ 2 ^ 64) (hinv : LevelInv Inv mem st) :
    Leaves size
      (fun m st' => LevelInv Inv mem st'.2 ∧ mem st'.2.2 = mem st.2 ∧
        Filled (mem st.2) addr size out m st'.1)
      (fun _ st' => LevelInv Inv mem st'.2 ∧ mem st'.2.2 = mem st.2 ∧
        ∀ i, size ≤ i → st'.1 i = out i)
      (read next addr size out st) := by
  refine walkRange_rule regionShift _ addr size _ _ ?_ (out, st) ⟨hinv, rfl, ?_, fun _ _ => rfl⟩
  · rintro done n st' ⟨hinv', hmem, hfill⟩ hpos hle hfit
    exact serve_leaves hnext addr size out st.2 done n st' hsize hle hfit hinv' hmem hfill
  · exact fun i hi => absurd hi (Nat.not_lt_zero i)

/-- A write-through leaves the level coherent with the memory below it. -/
theorem write_levelInv (addr : GuestAddr) (size : Nat) (data : Buf) (st : L3Cache × σ)
    (hsize : size ≤ 2 ^ 64) (hinv : LevelInv Inv mem st) :
    LevelInv Inv mem (write next addr size data st).2 ∧
      (∀ e, (write next addr size data st).1 = .error e →
        mem (write next addr size data st).2.2 = mem st.2) ∧
      ((write next addr size data st).1 = .ok () →
        Written (mem st.2) (mem (write next addr size data st).2.2) addr size data) := by
  obtain ⟨c, s⟩ := st
  obtain ⟨hs, hco, hplaced⟩ := hinv
  unfold write
  by_cases hzero : size = 0
  · subst hzero
    rw [if_pos rfl]
    exact ⟨⟨hs, hco, hplaced⟩, fun _ _ => rfl, fun _ => written_zero _ _ _⟩
  · rw [if_neg hzero]
    have hinv' := hnext.write_inv addr size data s hsize hs
    have herror := hnext.write_error addr size data s
    have hok := hnext.write_ok addr size data s hsize hs
    revert hinv' herror hok
    simp only
    cases next.write addr size data s with
    | mk r s' =>
        intro hinv' herror hok
        simp only at hinv' herror hok
        cases r with
        | error e =>
            have hmem := herror e hsize hs rfl
            refine ⟨⟨hinv', ?_, hplaced⟩, fun _ _ => hmem, fun h => by simp at h⟩
            simp only
            rwa [hmem]
        | ok u =>
            have hwritten := hok rfl
            refine ⟨⟨hinv', ?_, ?_⟩, fun e h => by simp at h, fun _ => hwritten⟩
            · exact patchRange_coherent regionShift (by decide) patch_law hsize hwritten hco
            · exact patchRange_induct regionShift patch addr size data (fun _ c => c.Placed)
                (fun done n c hc _ _ _ => placed_patch hc _ _ _ _) c hplaced

theorem represents :
    Represents (provider next) (LevelInv Inv mem) (fun st => mem st.2) where
  read_inv addr size out st hsize hinv := by
    have h := read_leaves hnext addr size out st hsize hinv
    change LevelInv Inv mem (read next addr size out st).2.2
    revert h
    cases read next addr size out st with
    | mk r st' => cases r <;> exact fun h => h.1
  read_mem addr size out st hsize hinv := by
    have h := read_leaves hnext addr size out st hsize hinv
    change mem (read next addr size out st).2.2.2 = _
    revert h
    cases read next addr size out st with
    | mk r st' => cases r <;> exact fun h => h.2.1
  read_frame addr size out st hsize hinv := by
    have h := read_leaves hnext addr size out st hsize hinv
    change ∀ i, size ≤ i → (read next addr size out st).2.1 i = out i
    revert h
    cases read next addr size out st with
    | mk r st' =>
        cases r with
        | error e => exact fun h => h.2.2
        | ok u => exact fun h => h.2.2.2
  read_ok addr size out st hsize hinv := by
    have h := read_leaves hnext addr size out st hsize hinv
    change (read next addr size out st).1 = .ok () → ∀ i < size,
      mem st.2 _ = some ((read next addr size out st).2.1 i)
    revert h
    cases read next addr size out st with
    | mk r st' =>
        cases r with
        | error e => exact fun _ h => by simp at h
        | ok u => exact fun h _ => h.2.2.1
  write_inv addr size data st hsize hinv := (write_levelInv hnext addr size data st hsize hinv).1
  write_error addr size data st e hsize hinv :=
    (write_levelInv hnext addr size data st hsize hinv).2.1 e
  write_ok addr size data st hsize hinv :=
    (write_levelInv hnext addr size data st hsize hinv).2.2

end Level

/-! ### Dropping regions -/

section Drop

variable {c : L3Cache} {mem : ByteMap}

theorem drop_sub (c : L3Cache) (b : GuestAddr) (i : Nat)
    (hvalid : ((c.drop b).regions i).valid = true) : (c.drop b).regions i = c.regions i := by
  simp only [drop] at hvalid ⊢
  split at hvalid
  · exact absurd hvalid (by simp)
  · rename_i hholds
    rw [if_neg hholds]

theorem drop_coherent (hco : Coherent regionShift c.view mem) (hplaced : c.Placed)
    (b : GuestAddr) : Coherent regionShift (c.drop b).view mem ∧ (c.drop b).Placed :=
  coherent_of_sub (drop_sub c b) hco hplaced

theorem invalidate_coherent (hco : Coherent regionShift c.view mem) (hplaced : c.Placed)
    (addr : GuestAddr) (size : Nat) :
    Coherent regionShift (invalidate addr size c).view mem ∧ (invalidate addr size c).Placed := by
  by_cases hzero : size = 0
  · rw [invalidate, if_pos hzero]
    exact ⟨hco, hplaced⟩
  · simp only [invalidate, if_neg hzero]
    generalize List.range _ = steps
    induction steps generalizing c with
    | nil => exact ⟨hco, hplaced⟩
    | cons i rest ih =>
        obtain ⟨hco', hplaced'⟩ := drop_coherent hco hplaced
          (base regionShift addr + BitVec.ofNat 64 (i * 2 ^ regionShift))
        exact ih hco' hplaced'

/-- A cache with no valid slot is coherent with anything. -/
theorem coherent_of_invalid {c' : L3Cache} (h : ∀ i, (c'.regions i).valid = false) :
    Coherent regionShift c'.view mem ∧ c'.Placed := by
  constructor
  · intro b d hview
    obtain ⟨i, _, hvalid, _⟩ := view_eq_some hview
    rw [h i] at hvalid
    exact absurd hvalid (by simp)
  · constructor
    · intro a _ j _ hva
      rw [h a] at hva
      exact absurd hva (by simp)
    · intro a _ hva
      rw [h a] at hva
      exact absurd hva (by simp)

theorem flush_coherent : Coherent regionShift (flush c).view mem ∧ (flush c).Placed :=
  coherent_of_invalid fun _ => rfl

theorem empty_coherent (mem : ByteMap) :
    Coherent regionShift ({} : L3Cache).view mem ∧ ({} : L3Cache).Placed :=
  coherent_of_invalid fun _ => rfl

end Drop

end L3Cache

end PicoCpu
