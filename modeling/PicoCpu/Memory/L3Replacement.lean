import PicoCpu.Lib.Recency
import PicoCpu.Memory.L3Cache

/-!
Replacement in the third level, over any next provider. Every read and prefetch asks the table
for regions one after the other; the requests of a run are recorded with the table each of them
found and left and with the regions served until then. A fetch goes to the first invalid slot,
or to the slot of the region that has not been used for longest. The slot is given up before the
fetch has succeeded, so a fetch that fails costs a region when all sixteen slots were valid.
-/

namespace PicoCpu

open Granule

namespace L3Cache

variable {σ : Type}

/-! ### Calls and the requests they make -/

/-- A call on the level. Sizes are `usize`. -/
inductive Op where
  | read (addr : GuestAddr) (size : U64) (out : Buf)
  | write (addr : GuestAddr) (size : U64) (data : Buf)
  | prefetchRegion (addr : GuestAddr)
  | invalidate (addr : GuestAddr) (size : U64)
  | flush

def step (next : MemoryProvider σ) : Op → L3Cache × σ → L3Cache × σ
  | .read addr size out, st => (read next addr size.toNat out st).2.2
  | .write addr size data, st => (write next addr size.toNat data st).2
  | .prefetchRegion addr, st => (prefetchRegion next addr st).2
  | .invalidate addr size, (c, s) => (invalidate addr size.toNat c, s)
  | .flush, (c, s) => (flush c, s)

def run (next : MemoryProvider σ) (ops : List Op) (st : L3Cache × σ) : L3Cache × σ :=
  ops.foldl (fun st op => step next op st) st

/-- A request for a region: the regions served before it, the most recent first, the table and
the next provider's state it found, whether the region was held or fetched, and the table it
left. -/
structure Request (σ : Type) where
  region : GuestAddr
  history : List GuestAddr
  before : L3Cache
  below : σ
  outcome : Except Status Unit
  after : L3Cache

/-- A region that was held or fetched has been used. -/
def served (region : GuestAddr) (history : List GuestAddr) :
    Except Status Unit → List GuestAddr
  | .ok _ => region :: history
  | .error _ => history

/-- A run with its requests. -/
structure Trace (σ : Type) where
  table : L3Cache := {}
  below : σ
  history : List GuestAddr := []
  requests : List (Request σ) := []

namespace Trace

/-- What the level itself keeps. -/
def state (t : Trace σ) : L3Cache × σ := (t.table, t.below)

/-- Record a request for `region` that left the state `st`. -/
def record (t : Trace σ) (region : GuestAddr) (outcome : Except Status Unit) (st : L3Cache × σ) :
    Trace σ where
  table := st.1
  below := st.2
  history := served region t.history outcome
  requests := t.requests ++ [⟨region, t.history, t.table, t.below, outcome, st.1⟩]

/-- One iteration of the read loop, recorded. The region is held or fetched exactly when the
prefetch of it says so. -/
def serve (next : MemoryProvider σ) (cur : GuestAddr) (n done : Nat) (st : Buf × Trace σ) :
    Except Status Unit × Buf × Trace σ :=
  let r := L3Cache.serve next cur n done (st.1, st.2.state)
  let asked := L3Cache.prefetchRegion next (base regionShift cur) st.2.state
  (r.1, r.2.1, st.2.record (base regionShift cur) asked.1 r.2.2)

def step (next : MemoryProvider σ) : Op → Trace σ → Trace σ
  | .read addr size out, t => (walkRange regionShift (serve next) addr size.toNat (out, t)).2.2
  | .write addr size data, t =>
    let st := (L3Cache.write next addr size.toNat data t.state).2
    { t with table := st.1, below := st.2 }
  | .prefetchRegion addr, t =>
    let r := L3Cache.prefetchRegion next addr t.state
    t.record (base regionShift addr) r.1 r.2
  | .invalidate addr size, t => { t with table := L3Cache.invalidate addr size.toNat t.table }
  | .flush, t => { t with table := L3Cache.flush t.table }

end Trace

/-- The run of a new level over `next`, with its requests. -/
def trace (next : MemoryProvider σ) (ops : List Op) (s : σ) : Trace σ :=
  ops.foldl (fun t op => t.step next op) { below := s }

namespace Trace

/-- Recording changes nothing about a call. -/
theorem state_step (next : MemoryProvider σ) (op : Op) (t : Trace σ) :
    (t.step next op).state = L3Cache.step next op t.state := by
  cases op with
  | read addr size out =>
      have himage := walkRange_image regionShift (L3Cache.serve next) (serve next)
        (fun st : Buf × Trace σ => (st.1, st.2.state)) (fun _ _ _ _ => rfl) addr size.toNat (out, t)
      change _ = (walkRange regionShift (L3Cache.serve next) addr size.toNat (out, t.state)).2.2
      rw [himage]
      rfl
  | write addr size data => rfl
  | prefetchRegion addr => rfl
  | invalidate addr size => rfl
  | flush => rfl

end Trace

theorem trace_state (next : MemoryProvider σ) (ops : List Op) (s : σ) :
    (trace next ops s).state = run next ops ({}, s) := by
  have hgen : ∀ t : Trace σ, (ops.foldl (fun t op => t.step next op) t).state =
      run next ops t.state := by
    induction ops with
    | nil => intro t; rfl
    | cons op rest ih =>
        intro t
        simp only [List.foldl_cons, run]
        rw [ih, Trace.state_step]
        rfl
  exact hgen { below := s }

/-! ### What a request does to the table -/

/-- The region is found, or a fetch of it fails or succeeds. A fetch takes the victim's slot
either way. -/
inductive Asked (c : L3Cache) (b : GuestAddr) : Except Status Unit → L3Cache → Prop where
  | held (i : Nat) : c.hit b = some i → Asked c b (.ok ()) (c.touch i)
  | failed (e : Status) (r : Region) : c.hit b = none → r.valid = false →
      Asked c b (.error e) (c.setRegion c.victim r)
  | fetched (r : Region) : c.hit b = none → r.valid = true → r.base = b →
      r.dataSize = 2 ^ regionShift → r.lastUse = c.useCounter + 1 →
      Asked c b (.ok ()) (({ c with useCounter := c.useCounter + 1 } : L3Cache).setRegion
        c.victim r)

theorem asked_prefetchRegion (next : MemoryProvider σ) (addr : GuestAddr) (c : L3Cache) (s : σ) :
    Asked c (base regionShift addr) (prefetchRegion next addr (c, s)).1
      (prefetchRegion next addr (c, s)).2.1 := by
  simp only [prefetchRegion]
  cases hhit : c.hit (base regionShift addr) with
  | some i => exact .held i hhit
  | none =>
      simp only
      generalize hr : (if (c.regions c.victim).dataSize = 2 ^ regionShift then c.regions c.victim
        else { c.regions c.victim with data := fun _ => 0, dataSize := 2 ^ regionShift }) = r
      have hfull : r.dataSize = 2 ^ regionShift := by
        rw [← hr]
        split
        · assumption
        · rfl
      cases next.read (base regionShift addr) (2 ^ regionShift) r.data s with
      | mk res rest =>
          cases res with
          | error e => exact .failed e _ hhit rfl
          | ok u => exact .fetched _ hhit rfl rfl hfull rfl

/-- The buffer a fetch reads into. -/
def victimData (c : L3Cache) : Buf :=
  if (c.regions c.victim).dataSize = 2 ^ regionShift then (c.regions c.victim).data
  else fun _ => 0

/-- A miss is fetched when the next provider can read the whole region. -/
theorem prefetchRegion_missed {next : MemoryProvider σ} {addr : GuestAddr} {c : L3Cache} {s : σ}
    (hmiss : c.hit (base regionShift addr) = none) :
    (prefetchRegion next addr (c, s)).1 =
      (next.read (base regionShift addr) (2 ^ regionShift) c.victimData s).1 := by
  have hdata : (if (c.regions c.victim).dataSize = 2 ^ regionShift then c.regions c.victim
      else { c.regions c.victim with data := fun _ => 0, dataSize := 2 ^ regionShift }).data =
        c.victimData := by
    rw [victimData]
    split <;> rfl
  simp only [prefetchRegion, hmiss, hdata]
  cases next.read (base regionShift addr) (2 ^ regionShift) c.victimData s with
  | mk res rest => cases res <;> rfl

/-- A chunk of a read leaves the table as a prefetch of its region does. -/
theorem serve_table (next : MemoryProvider σ) (cur : GuestAddr) (n done : Nat) (out : Buf)
    (c : L3Cache) (s : σ) :
    (serve next cur n done (out, c, s)).2.2.1 =
      (prefetchRegion next (base regionShift cur) (c, s)).2.1 := by
  simp only [serve]
  cases hhit : c.hit (base regionShift cur) with
  | some i => simp only [prefetchRegion, base_base, hhit]
  | none =>
      simp only
      cases prefetchRegion next (base regionShift cur) (c, s) with
      | mk res rest =>
          cases res with
          | error e => rfl
          | ok u =>
              simp only
              split <;> rfl

theorem asked_serve (next : MemoryProvider σ) (cur : GuestAddr) (n done : Nat) (out : Buf)
    (c : L3Cache) (s : σ) :
    Asked c (base regionShift cur) (prefetchRegion next (base regionShift cur) (c, s)).1
      (serve next cur n done (out, c, s)).2.2.1 := by
  rw [serve_table]
  have hasked := asked_prefetchRegion next (base regionShift cur) c s
  rwa [base_base] at hasked

/-- No request puts a region into two slots, or a short one into any. -/
theorem Asked.placed {c c' : L3Cache} {b : GuestAddr} {outcome : Except Status Unit}
    (h : Asked c b outcome c') (hplaced : c.Placed) : c'.Placed := by
  cases h with
  | held i hhit => exact placed_touch hplaced i
  | failed e r hhit hr => exact placed_of_sub (setRegion_invalid_sub c _ hr) hplaced
  | fetched r hhit hr hb hfull huse =>
      exact placed_fetched (c := { c with useCounter := c.useCounter + 1 })
        ⟨hplaced.unique, hplaced.full⟩ _ hfull (by rw [hb]; exact hhit)

/-! ### Stamps -/

/-- The region a slot holds. -/
def heldAt (c : L3Cache) (i : Nat) : Option GuestAddr :=
  if i < entries ∧ (c.regions i).valid = true then some (c.regions i).base else none

/-- The slots' `lastUse` orders the regions as their uses did. -/
def Ordered (c : L3Cache) (history : List GuestAddr) : Prop :=
  Recency.Stamped c.heldAt (fun i => (c.regions i).lastUse.toNat) c.useCounter.toNat history

theorem heldAt_eq_some {c : L3Cache} {i : Nat} {b : GuestAddr} :
    c.heldAt i = some b ↔ i < entries ∧ (c.regions i).valid = true ∧ (c.regions i).base = b := by
  rw [heldAt]
  split
  · rename_i h
    rw [Option.some.injEq]
    exact ⟨fun hb => ⟨h.1, h.2, hb⟩, fun hb => hb.2.2⟩
  · rename_i h
    constructor
    · intro hb
      cases hb
    · rintro ⟨hi, hvalid, -⟩
      exact absurd ⟨hi, hvalid⟩ h

/-- Invalidating slots, and changes that move no region, keep the order. -/
theorem Ordered.of_sub {c c' : L3Cache} {history : List GuestAddr} (h : c.Ordered history)
    (hsub : ∀ i, (c'.regions i).valid = true → (c.regions i).valid = true ∧
      (c'.regions i).base = (c.regions i).base ∧ (c'.regions i).lastUse = (c.regions i).lastUse)
    (hcounter : c'.useCounter = c.useCounter) : c'.Ordered history := by
  rw [Ordered, hcounter]
  refine Recency.Stamped.forget h ?_
  intro i b hheld
  obtain ⟨hi, hvalid, hb⟩ := heldAt_eq_some.mp hheld
  obtain ⟨hvalid', hbase, huse⟩ := hsub i hvalid
  exact ⟨heldAt_eq_some.mpr ⟨hi, hvalid', hbase ▸ hb⟩, congrArg BitVec.toNat huse⟩

theorem Ordered.of_eq {c c' : L3Cache} {history : List GuestAddr} (h : c.Ordered history)
    (hsub : ∀ i, (c'.regions i).valid = true → c'.regions i = c.regions i)
    (hcounter : c'.useCounter = c.useCounter) : c'.Ordered history := by
  refine h.of_sub ?_ hcounter
  intro i hvalid
  have hsame := hsub i hvalid
  rw [hsame] at hvalid ⊢
  exact ⟨hvalid, rfl, rfl⟩

/-- Stamping a slot with the next count, when no other one holds its region. -/
theorem Ordered.stamp {c : L3Cache} {history : List GuestAddr} (h : c.Ordered history)
    {v : Nat} {r : Region} (hv : v < entries) (hr : r.valid = true)
    (huse : r.lastUse = c.useCounter + 1) (hcount : c.useCounter + 1 ≠ 0)
    (hsole : ∀ i, i ≠ v → c.heldAt i ≠ some r.base) :
    (({ c with useCounter := c.useCounter + 1 } : L3Cache).setRegion v r).Ordered
      (r.base :: history) := by
  generalize hc' : ({ c with useCounter := c.useCounter + 1 } : L3Cache).setRegion v r = c'
  have hself : c'.regions v = r := by
    rw [← hc']
    exact regions_setRegion_self ..
  have hother (i : Nat) (hi : i ≠ v) : c'.regions i = c.regions i := by
    rw [← hc']
    exact regions_setRegion_of_ne _ _ hi
  have hcounter : c'.useCounter = c.useCounter + 1 := by
    rw [← hc']
    rfl
  have hnext : (c.useCounter + 1).toNat = c.useCounter.toNat + 1 := by
    bv_omega
  rw [Ordered, hcounter, hnext]
  refine Recency.Stamped.use h (v := v) ?_ ?_ ?_ hsole
  · exact heldAt_eq_some.mpr ⟨hv, by rw [hself]; exact hr, by rw [hself]⟩
  · rw [hself, huse, hnext]
  · intro i hi
    rw [heldAt, heldAt, hother i hi]
    exact ⟨rfl, rfl⟩

/-- A request keeps the stamps in the order of use, as long as the counter does not wrap. -/
theorem Asked.ordered {c c' : L3Cache} {b : GuestAddr} {outcome : Except Status Unit}
    (h : Asked c b outcome c') (hplaced : c.Placed) {history : List GuestAddr}
    (hordered : c.Ordered history) (hcount : c.useCounter + 1 ≠ 0) :
    c'.Ordered (served b history outcome) := by
  cases h with
  | held i hhit =>
      obtain ⟨hi, hvalid, hbase⟩ := hit_eq_some hhit
      have hsole (j : Nat) (hj : j ≠ i) : c.heldAt j ≠ some (c.regions i).base := by
        intro hheld
        obtain ⟨hjlt, hjvalid, hjbase⟩ := heldAt_eq_some.mp hheld
        exact hj (hplaced.unique j hjlt i hi hjvalid hvalid hjbase)
      have hstamp := hordered.stamp (r := { c.regions i with lastUse := c.useCounter + 1 }) hi
        hvalid rfl hcount hsole
      rw [← hbase]
      exact hstamp
  | failed e r hhit hr => exact hordered.of_eq (setRegion_invalid_sub c _ hr) rfl
  | fetched r hhit hr hb hfull huse =>
      have hsole (j : Nat) (_ : j ≠ c.victim) : c.heldAt j ≠ some r.base := by
        intro hheld
        obtain ⟨hjlt, hjvalid, hjbase⟩ := heldAt_eq_some.mp hheld
        exact hit_eq_none hhit hjlt hjvalid (hjbase.trans hb)
      have hstamp := hordered.stamp (victim_lt c) hr huse hcount hsole
      rw [hb] at hstamp
      exact hstamp

/-! ### The slot a fetch takes -/

/-- No valid slot's region was used longer ago than that of slot `v`. -/
def LeastRecent (c : L3Cache) (history : List GuestAddr) (v : Nat) : Prop :=
  ∀ i < entries, (c.regions i).valid = true →
    history.idxOf (c.regions i).base ≤ history.idxOf (c.regions v).base

/-- The scan stops at an invalid slot if there is one. -/
theorem victimFrom_invalid (c : L3Cache) (slots : List Nat) (v : Nat)
    (h : ∃ i ∈ slots, (c.regions i).valid = false) :
    (c.regions (victimFrom c slots v)).valid = false := by
  induction slots generalizing v with
  | nil => simp at h
  | cons i rest ih =>
      rw [victimFrom]
      split
      · assumption
      · rename_i hvalid
        apply ih
        obtain ⟨j, hj, hinvalid⟩ := h
        cases hj with
        | head => exact absurd hinvalid hvalid
        | tail _ hrest => exact ⟨j, hrest, hinvalid⟩

/-- Over valid slots the scan keeps the oldest stamp it has seen. -/
theorem victimFrom_oldest (c : L3Cache) (slots : List Nat) (v : Nat)
    (h : ∀ i ∈ slots, (c.regions i).valid = true) :
    (c.regions (victimFrom c slots v)).lastUse ≤ (c.regions v).lastUse ∧
      ∀ i ∈ slots, (c.regions (victimFrom c slots v)).lastUse ≤ (c.regions i).lastUse := by
  induction slots generalizing v with
  | nil => exact ⟨BitVec.le_refl _, fun i hi => by cases hi⟩
  | cons i rest ih =>
      have hvalid := h i (List.mem_cons_self ..)
      have hrest : ∀ j ∈ rest, (c.regions j).valid = true :=
        fun j hj => h j (List.mem_cons_of_mem _ hj)
      rw [victimFrom, if_neg (by rw [hvalid]; simp)]
      generalize hw : (if (c.regions i).lastUse < (c.regions v).lastUse then i else v) = w
      have hle : (c.regions w).lastUse ≤ (c.regions i).lastUse ∧
          (c.regions w).lastUse ≤ (c.regions v).lastUse := by
        rw [← hw]
        split <;> bv_omega
      obtain ⟨hleast, hall⟩ := ih w hrest
      refine ⟨BitVec.le_trans hleast hle.2, ?_⟩
      intro j hj
      cases hj with
      | head => exact BitVec.le_trans hleast hle.1
      | tail _ hj => exact hall j hj

theorem victim_invalid {c : L3Cache} (h : ∃ i < entries, (c.regions i).valid = false) :
    (c.regions c.victim).valid = false := by
  obtain ⟨i, hi, hinvalid⟩ := h
  exact victimFrom_invalid c _ 0 ⟨i, List.mem_range.mpr hi, hinvalid⟩

theorem victim_leastRecent {c : L3Cache} {history : List GuestAddr} (hordered : c.Ordered history)
    (hfull : ∀ i < entries, (c.regions i).valid = true) : c.LeastRecent history c.victim := by
  have holdest := (victimFrom_oldest c (List.range entries) 0
    fun i hi => hfull i (List.mem_range.mp hi)).2
  have hvictim : c.heldAt c.victim = some (c.regions c.victim).base :=
    heldAt_eq_some.mpr ⟨victim_lt c, hfull _ (victim_lt c), rfl⟩
  intro i hi hvalid
  refine Recency.Stamped.oldest hordered hvictim ?_ i _ (heldAt_eq_some.mpr ⟨hi, hvalid, rfl⟩)
  intro j b hj
  exact holdest j (List.mem_range.mpr (heldAt_eq_some.mp hj).1)

/-! ### Runs -/

namespace Request

/-- What the next provider says to the bulk read of a region that is not held. -/
def fetch (next : MemoryProvider σ) (r : Request σ) : Except Status Unit :=
  (next.read r.region (2 ^ regionShift) r.before.victimData r.below).1

/-- The request finds its region, or the next provider can read it whole, or a slot is free. -/
def Affordable (next : MemoryProvider σ) (r : Request σ) : Prop :=
  r.before.hit r.region ≠ none ∨ r.fetch next = .ok () ∨
    ∃ i < entries, (r.before.regions i).valid = false

/-- The request was answered as the code answers one. -/
def Met (next : MemoryProvider σ) (r : Request σ) : Prop :=
  r.before.Placed ∧ Asked r.before r.region r.outcome r.after ∧
    (r.before.hit r.region = none → r.outcome = r.fetch next)

/-- A miss that is fetched fills one slot: an invalid one if there is one, and otherwise the one
whose region has not been used for longest. -/
def Replaces (r : Request σ) : Prop :=
  r.before.hit r.region = none → r.outcome = .ok () →
    ∃ v < entries, (r.after.regions v).holds r.region = true ∧
      (∀ i, i ≠ v → r.after.regions i = r.before.regions i) ∧
      ((∃ i < entries, (r.before.regions i).valid = false) →
        (r.before.regions v).valid = false) ∧
      ((∀ i < entries, (r.before.regions i).valid = true) → r.before.LeastRecent r.history v)

/-- A fetch that fails leaves every region held that was. -/
def EvictsNothing (r : Request σ) : Prop :=
  r.outcome ≠ .ok () → ∀ b, r.before.hit b ≠ none → r.after.hit b ≠ none

/-- Both tables are placed, a fetch goes where it should, and one that fails costs nothing. -/
def Sound (r : Request σ) : Prop :=
  r.before.Placed ∧ r.after.Placed ∧ r.Replaces ∧ r.EvictsNothing

end Request

theorem Asked.replaces {r : Request σ} (h : Asked r.before r.region r.outcome r.after)
    (hordered : r.before.Ordered r.history) : r.Replaces := by
  obtain ⟨region, history, c, s, outcome, c'⟩ := r
  change Asked c region outcome c' at h
  intro hmiss hok
  cases h with
  | held i hhit => exact absurd (hmiss.symm.trans hhit) (by simp)
  | failed e r' hhit hr => cases hok
  | fetched r' hhit hr hb hfull huse =>
      refine ⟨c.victim, victim_lt c, ?_, ?_, victim_invalid, victim_leastRecent hordered⟩
      · simp only [regions_setRegion_self]
        exact Region.holds_iff.mpr ⟨hr, hb⟩
      · exact fun i hi => regions_setRegion_of_ne _ _ hi

/-- A fetch that fails costs nothing exactly when it finds an invalid slot. -/
theorem Asked.evictsNothing_iff {r : Request σ} (h : Asked r.before r.region r.outcome r.after)
    (hplaced : r.before.Placed) :
    r.EvictsNothing ↔
      (r.outcome ≠ .ok () → ∃ i < entries, (r.before.regions i).valid = false) := by
  obtain ⟨region, history, c, s, outcome, c'⟩ := r
  change Asked c region outcome c' at h
  cases h with
  | held i hhit => exact iff_of_true (fun h => absurd rfl h) (fun h => absurd rfl h)
  | fetched r' hhit hr hb hfull huse =>
      exact iff_of_true (fun h => absurd rfl h) (fun h => absurd rfl h)
  | failed e r' hhit hr =>
      have hgone := setRegion_invalid_sub c c.victim hr
      constructor
      · intro hkeep hfail
        by_contra hnone
        have hvalid : (c.regions c.victim).valid = true := by
          by_contra h
          exact hnone ⟨c.victim, victim_lt c, by simpa using h⟩
        have hheld := hit_of_valid hplaced (victim_lt c) hvalid
        refine hkeep hfail (c.regions c.victim).base (by rw [hheld]; simp) ?_
        simp only
        cases hafter : (c.setRegion c.victim r').hit (c.regions c.victim).base with
        | none => rfl
        | some j =>
            obtain ⟨hj, hjvalid, hjbase⟩ := hit_eq_some hafter
            have hsame := hgone j hjvalid
            have hne : j ≠ c.victim := by
              rintro rfl
              rw [regions_setRegion_self, hr] at hjvalid
              cases hjvalid
            rw [hsame] at hjvalid hjbase
            exact absurd (hplaced.unique j hj _ (victim_lt c) hjvalid hvalid hjbase) hne
      · intro hroom hfail b hheld
        obtain ⟨i, hi⟩ := Option.ne_none_iff_exists'.mp hheld
        obtain ⟨hilt, hivalid, hibase⟩ := hit_eq_some hi
        have hvictim := victim_invalid (hroom hfail)
        simp only at hvictim ⊢
        have hne : i ≠ c.victim := by
          rintro rfl
          rw [hvictim] at hivalid
          cases hivalid
        intro hafter
        have hsame := regions_setRegion_of_ne c r' hne
        exact hit_eq_none hafter hilt (by rw [hsame]; exact hivalid) (by rw [hsame]; exact hibase)

/-- A request that finds its region succeeds. -/
theorem Asked.ok_of_held {c c' : L3Cache} {b : GuestAddr} {outcome : Except Status Unit}
    (h : Asked c b outcome c') (hheld : c.hit b ≠ none) : outcome = .ok () := by
  cases h with
  | held i hhit => rfl
  | failed e r hhit hr => exact absurd hhit hheld
  | fetched r hhit hr hb hfull huse => rfl

theorem Request.affordable_iff {next : MemoryProvider σ} {r : Request σ} (h : r.Met next) :
    r.Affordable next ↔
      (r.outcome ≠ .ok () → ∃ i < entries, (r.before.regions i).valid = false) := by
  obtain ⟨-, hasked, hfetch⟩ := h
  by_cases hmiss : r.before.hit r.region = none
  · rw [hfetch hmiss, Affordable]
    constructor
    · rintro (hheld | hok | hfree) hfail
      · exact absurd hmiss hheld
      · exact absurd hok hfail
      · exact hfree
    · intro hroom
      by_cases hok : r.fetch next = .ok ()
      · exact .inr (.inl hok)
      · exact .inr (.inr (hroom hok))
  · exact iff_of_true (.inl hmiss) (fun hfail => absurd (hasked.ok_of_held hmiss) hfail)

namespace Trace

/-- What holds of a recorded run: the table is placed, every request was answered as the code
answers one, and the stamps are in the order of use while the counter does not wrap. -/
structure Inv (next : MemoryProvider σ) (t : Trace σ) : Prop where
  placed : t.table.Placed
  met : ∀ r ∈ t.requests, r.Met next
  ordered : (∀ r ∈ t.requests, r.before.useCounter + 1 ≠ 0) →
    t.table.Ordered t.history ∧ ∀ r ∈ t.requests, r.before.Ordered r.history

variable {next : MemoryProvider σ} {t : Trace σ}

theorem Inv.record (h : Inv next t) {region : GuestAddr} {outcome : Except Status Unit}
    {st : L3Cache × σ} (hasked : Asked t.table region outcome st.1)
    (hfetch : t.table.hit region = none →
      outcome = (next.read region (2 ^ regionShift) t.table.victimData t.below).1) :
    Inv next (t.record region outcome st) where
  placed := hasked.placed h.placed
  met r hr := by
    rcases List.mem_append.mp hr with hold | hnew
    · exact h.met r hold
    · rw [List.mem_singleton.mp hnew]
      exact ⟨h.placed, hasked, hfetch⟩
  ordered hcount := by
    have hlast := hcount _ (List.mem_append_right _ (List.mem_singleton_self _))
    obtain ⟨hnow, hpast⟩ := h.ordered fun r hr => hcount r (List.mem_append_left _ hr)
    refine ⟨hasked.ordered h.placed hnow hlast, ?_⟩
    intro r hr
    rcases List.mem_append.mp hr with hold | hnew
    · exact hpast r hold
    · rw [List.mem_singleton.mp hnew]
      exact hnow

/-- A change of the table that makes no request. -/
theorem Inv.table (h : Inv next t) {c : L3Cache} (s : σ) (hplaced : c.Placed)
    (hordered : t.table.Ordered t.history → c.Ordered t.history) :
    Inv next { t with table := c, below := s } where
  placed := hplaced
  met := h.met
  ordered hcount := by
    obtain ⟨hnow, hpast⟩ := h.ordered hcount
    exact ⟨hordered hnow, hpast⟩

/-- Each chunk of a read makes one request. -/
theorem Inv.serve (cur : GuestAddr) (n done : Nat) (out : Buf) (h : Inv next t) :
    Inv next (Trace.serve next cur n done (out, t)).2.2 := by
  refine h.record (asked_serve next cur n done out t.table t.below) ?_
  intro hmiss
  have hmissed : t.table.hit (base regionShift (base regionShift cur)) = none := by
    rwa [base_base]
  have hread : (prefetchRegion next (base regionShift cur) (t.table, t.below)).1 =
      (next.read (base regionShift (base regionShift cur)) (2 ^ regionShift) t.table.victimData
        t.below).1 :=
    prefetchRegion_missed hmissed
  rwa [base_base] at hread

theorem patch_ordered {c : L3Cache} {history : List GuestAddr} (h : c.Ordered history)
    (b : GuestAddr) (pos n : Nat) (src : Buf) : (patch b pos n src c).Ordered history := by
  unfold patch
  cases c.hit b with
  | none => exact h
  | some i =>
      refine h.of_sub ?_ rfl
      intro j hj
      by_cases hji : j = i
      · subst hji
        rw [regions_setRegion_self] at hj ⊢
        exact ⟨hj, rfl, rfl⟩
      · rw [regions_setRegion_of_ne c _ hji] at hj ⊢
        exact ⟨hj, rfl, rfl⟩

theorem invalidate_sub (addr : GuestAddr) (size : Nat) (c : L3Cache) :
    (∀ i, ((L3Cache.invalidate addr size c).regions i).valid = true →
      (L3Cache.invalidate addr size c).regions i = c.regions i) ∧
      (L3Cache.invalidate addr size c).useCounter = c.useCounter := by
  unfold L3Cache.invalidate
  split
  · exact ⟨fun _ _ => rfl, rfl⟩
  · simp only
    generalize List.range _ = steps
    induction steps generalizing c with
    | nil => exact ⟨fun _ _ => rfl, rfl⟩
    | cons i rest ih =>
        obtain ⟨hsub, hcounter⟩ := ih
          (c.drop (base regionShift addr + BitVec.ofNat 64 (i * 2 ^ regionShift)))
        refine ⟨?_, hcounter⟩
        intro j hj
        have hsame := hsub j hj
        rw [List.foldl_cons] at hj ⊢
        rw [hsame] at hj ⊢
        exact drop_sub c _ j hj

theorem Inv.step (h : Inv next t) (op : Op) : Inv next (t.step next op) := by
  cases op with
  | read addr size out =>
      have hrule := walkRange_rule regionShift (Trace.serve next) addr size.toNat
        (fun _ st => Inv next st.2) (fun _ st => Inv next st.2)
        (fun done n st hinv _ _ _ => by
          have hserve := Inv.serve (addr + BitVec.ofNat 64 done) n done st.1 hinv
          revert hserve
          cases hres : Trace.serve next (addr + BitVec.ofNat 64 done) n done st with
          | mk res rest => cases res <;> exact id)
        (out, t) h
      revert hrule
      change _ → Inv next (walkRange regionShift (Trace.serve next) addr size.toNat (out, t)).2.2
      cases walkRange regionShift (Trace.serve next) addr size.toNat (out, t) with
      | mk res rest => cases res <;> exact id
  | write addr size data =>
      have hpatch := patchRange_induct regionShift patch addr size.toNat data
        (fun _ c => c.Placed ∧ (t.table.Ordered t.history → c.Ordered t.history))
        (fun done n c hc _ _ _ =>
          ⟨placed_patch hc.1 _ _ _ _, fun hold => patch_ordered (hc.2 hold) _ _ _ _⟩)
        t.table ⟨h.placed, id⟩
      have hwrite : (write next addr size.toNat data t.state).2.1.Placed ∧
          (t.table.Ordered t.history →
            (write next addr size.toNat data t.state).2.1.Ordered t.history) := by
        simp only [write, Trace.state]
        split
        · exact ⟨h.placed, id⟩
        · cases next.write addr size.toNat data t.below with
          | mk res s' =>
              cases res with
              | error e => exact ⟨h.placed, id⟩
              | ok u => exact hpatch
      exact h.table _ hwrite.1 hwrite.2
  | prefetchRegion addr =>
      refine h.record (asked_prefetchRegion next addr t.table t.below) ?_
      intro hmiss
      exact prefetchRegion_missed hmiss
  | invalidate addr size =>
      obtain ⟨hsub, hcounter⟩ := invalidate_sub addr size.toNat t.table
      exact h.table t.below (placed_of_sub hsub h.placed) fun hold => hold.of_eq hsub hcounter
  | flush =>
      refine h.table t.below ?_ fun _ => Recency.stamped_of_empty ?_
      · exact placed_of_sub (c := t.table) (fun i hi => by cases hi) h.placed
      · intro i
        rw [heldAt, if_neg (by simp [flush])]

theorem inv_trace (next : MemoryProvider σ) (ops : List Op) (s : σ) :
    Inv next (trace next ops s) := by
  have hgen : ∀ t : Trace σ, Inv next t → Inv next (ops.foldl (fun t op => t.step next op) t) := by
    induction ops with
    | nil => exact fun t h => h
    | cons op rest ih => exact fun t h => ih _ (h.step op)
  refine hgen _ ⟨⟨?_, ?_⟩, (fun r hr => by cases hr), fun _ => ⟨?_, (fun r hr => by cases hr)⟩⟩
  · exact fun a _ j _ hva => by cases hva
  · exact fun a _ hva => by cases hva
  · refine Recency.stamped_of_empty fun i => ?_
    rw [heldAt, if_neg (by simp)]

end Trace

/-- Over every run of a new level, while the use counter does not wrap: the tables are always
placed, a miss goes to a free slot or to the least recently used one, and a fetch that fails
costs nothing, exactly when no fetch fails with all the slots valid. -/
theorem replacement_iff (next : MemoryProvider σ) (ops : List Op) (s : σ)
    (hcount : ∀ r ∈ (trace next ops s).requests, r.before.useCounter + 1 ≠ 0) :
    ((run next ops ({}, s)).1.Placed ∧ ∀ r ∈ (trace next ops s).requests, r.Sound) ↔
      ∀ r ∈ (trace next ops s).requests, r.Affordable next := by
  have hinv := Trace.inv_trace next ops s
  constructor
  · rintro ⟨-, hsound⟩ r hr
    have hmet := hinv.met r hr
    exact (Request.affordable_iff hmet).mpr
      ((hmet.2.1.evictsNothing_iff hmet.1).mp (hsound r hr).2.2.2)
  · intro hroom
    refine ⟨?_, ?_⟩
    · rw [← trace_state]
      exact hinv.placed
    · intro r hr
      have hmet := hinv.met r hr
      refine ⟨hmet.1, hmet.2.1.placed hmet.1, hmet.2.1.replaces ((hinv.ordered hcount).2 r hr), ?_⟩
      exact (hmet.2.1.evictsNothing_iff hmet.1).mpr
        ((Request.affordable_iff hmet).mp (hroom r hr))

/-- A provider that can read the first sixteen regions only. -/
def lowRegions : MemoryProvider Unit where
  read addr _ out s :=
    if addr.ult 0x2000000 then (.ok (), fun _ => 0, s) else (.error .unmappedRead, out, s)
  write _ _ _ s := (.ok (), s)

theorem replacement_iff_lowRegions :
    ((run lowRegions [.prefetchRegion 0, .read 0x200000 8 fun _ => 0, .flush] ({}, ())).1.Placed ∧
      ∀ r ∈ (trace lowRegions [.prefetchRegion 0, .read 0x200000 8 fun _ => 0, .flush] ()).requests,
        r.Sound) ↔
      ∀ r ∈ (trace lowRegions [.prefetchRegion 0, .read 0x200000 8 fun _ => 0, .flush] ()).requests,
        r.Affordable lowRegions :=
  replacement_iff lowRegions _ () (by decide)

/-- Sixteen regions are held; the fetch of a seventeenth fails and costs one of them. -/
theorem failed_fetch_evicts :
    ¬ ∀ r ∈ (trace lowRegions ((List.range 17).map fun i =>
        .prefetchRegion (BitVec.ofNat 64 (i * 2 ^ 21))) ()).requests, r.Sound := by
  intro hsound
  have hcrowded : ∃ r ∈ (trace lowRegions ((List.range 17).map fun i =>
      .prefetchRegion (BitVec.ofNat 64 (i * 2 ^ 21))) ()).requests,
      r.outcome ≠ .ok () ∧ ∀ i < entries, (r.before.regions i).valid = true := by
    decide +kernel
  obtain ⟨r, hr, hfail, hvalid⟩ := hcrowded
  have hmet := (Trace.inv_trace lowRegions _ ()).met r hr
  obtain ⟨i, hi, hinvalid⟩ := (hmet.2.1.evictsNothing_iff hmet.1).mp (hsound r hr).2.2.2 hfail
  rw [hvalid i hi] at hinvalid
  cases hinvalid

end L3Cache

end PicoCpu
