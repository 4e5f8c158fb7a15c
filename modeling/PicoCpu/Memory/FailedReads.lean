import PicoCpu.Lib.Piecewise
import PicoCpu.Memory.CacheErrors

/-!
What a failed read leaves in the caller's buffer. Every provider copies piece by piece and
returns at the first piece it cannot serve, with the pieces before it already delivered.
-/

namespace PicoCpu

open Granule

/-- The contract: a read that does not return Ok leaves the buffer as it was. -/
def LeavesBuffer {σ : Type} (P : MemoryProvider σ) (s : σ) (addr : GuestAddr) (size : U64) : Prop :=
  ∀ out, (P.read addr size.toNat out s).1 ≠ .ok () → (P.read addr size.toNat out s).2.1 = out

/-- A read of `n` bytes writes to the buffer only: what it returns and delivers does not depend
on what the buffer held, and an Ok read writes nothing past its bytes. -/
structure ReadsInto (n : Nat) (read : Buf → Except Status Unit × Buf) : Prop where
  status : ∀ d d', (read d).1 = (read d').1
  delivers : ∀ d d', (read d).1 = .ok () → ∀ i < n, (read d).2 i = (read d').2 i
  frame : ∀ d, (read d).1 = .ok () → ∀ i, n ≤ i → (read d).2 i = d i

/-- A provider whose reads write to the buffer only. -/
structure OutputOnly {σ : Type} (P : MemoryProvider σ) : Prop where
  reads : ∀ addr n s, ReadsInto n fun d => ((P.read addr n d s).1, (P.read addr n d s).2.1)
  state : ∀ addr n s d d', (P.read addr n d s).2.2 = (P.read addr n d' s).2.2

/-- An Ok read into the buffer from `done` on delivers its bytes there. -/
theorem ReadsInto.place {n : Nat} {read : Buf → Except Status Unit × Buf} (h : ReadsInto n read)
    (out d : Buf) (done : Nat) (hok : (read d).1 = .ok ()) :
    Granule.place out done (read fun i => out (done + i)).2 = overwrite out done n (read d).2 := by
  have hok' : (read fun i => out (done + i)).1 = .ok () := (h.status _ d).trans hok
  funext i
  unfold Granule.place
  by_cases hold : i < done
  · rw [if_pos hold, overwrite_outside _ _ _ _ (by omega)]
  · rw [if_neg hold]
    by_cases hin : i < done + n
    · rw [overwrite_inside _ _ _ _ ⟨by omega, hin⟩]
      exact h.delivers _ d hok' (i - done) (by omega)
    · rw [overwrite_outside _ _ _ _ (by omega), h.frame _ hok' (i - done) (by omega)]
      congr 1
      omega

/-! ### The test provider -/

namespace FakeMemory

theorem readLoop_keeps (m : FakeMemory) (fuel : Nat) (cur : GuestAddr) (done remaining : Nat)
    (out : Buf) {i : Nat} (hi : i < done) :
    (m.readLoop fuel cur done remaining out).2 i = out i := by
  induction fuel generalizing cur done remaining out with
  | zero => rfl
  | succ fuel ih =>
      rw [readLoop]
      split
      · rfl
      · cases m.hit cur with
        | none => rfl
        | some r =>
            simp only
            rw [ih _ _ _ _ (by omega), overwrite_outside _ _ _ _ (by omega)]

theorem readLoop_status (m : FakeMemory) (fuel : Nat) (cur : GuestAddr) (done remaining : Nat)
    (out out' : Buf) :
    (m.readLoop fuel cur done remaining out).1 = (m.readLoop fuel cur done remaining out').1 := by
  induction fuel generalizing cur done remaining out out' with
  | zero => rfl
  | succ fuel ih =>
      rw [readLoop, readLoop]
      split
      · rfl
      · cases m.hit cur with
        | none => rfl
        | some r => exact ih _ _ _ _ _

theorem reads_into (m : FakeMemory) (addr : GuestAddr) (n : Nat) : ReadsInto n (m.read addr n) := by
  have hfilled (d : Buf) (hok : (m.read addr n d).1 = .ok ()) :
      Filled m.byteMap addr n d n (m.read addr n d).2 := by
    have h := m.read_fills addr n d
    cases hr : m.read addr n d with
    | mk r out =>
        rw [hr] at h hok
        simp only at hok
        subst hok
        exact h
  have hstatus (d d' : Buf) : (m.read addr n d).1 = (m.read addr n d').1 :=
    m.readLoop_status n addr 0 n d d'
  constructor
  · exact hstatus
  · intro d d' hok i hi
    have hleft := (hfilled d hok).1 i hi
    have hright := (hfilled d' ((hstatus d' d).trans hok)).1 i hi
    exact Option.some.inj (hleft.symm.trans hright)
  · intro d hok i hi
    exact (hfilled d hok).2 i hi

theorem outputOnly : OutputOnly provider where
  reads addr n m := m.reads_into addr n
  state _ _ _ _ _ := rfl

/-- A failing read leaves the buffer alone exactly when it cannot fail or fails at once. -/
theorem leavesBuffer_iff (m : FakeMemory) (addr : GuestAddr) (size : U64) :
    LeavesBuffer provider m addr size ↔
      Mapped m.byteMap addr size.toNat ∨ m.byteMap addr = none := by
  constructor
  · intro h
    by_contra hnot
    obtain ⟨hmapped, hsome⟩ := not_or.mp hnot
    have hfails (out : Buf) : (m.read addr size.toNat out).1 ≠ .ok () := by
      intro hok
      apply hmapped
      intro i hi
      rw [represents.read_ok addr size.toNat out m size.isLt.le trivial hok i hi]
      exact Option.some_ne_none _
    cases hhit : m.hit addr with
    | none => exact hsome (by rw [byteMap, hhit]; rfl)
    | some r =>
        -- the first byte delivered is not what this buffer held
        generalize hbyte : r.bytes.getD (addr - r.base).toNat 0 = b
        obtain ⟨z, hz⟩ : ∃ z, z ≠ b := ⟨b + 1, by bv_omega⟩
        have hsame : (m.read addr size.toNat fun _ => z).2 = fun _ => z := h _ (hfails _)
        have hfirst := congrFun hsame 0
        have hlt := (FakeRegion.offset_lt (hit_eq_some.mp hhit).2).1
        cases hsize : size.toNat with
        | zero =>
            rw [hsize] at hmapped
            exact hmapped fun i hi => absurd hi (Nat.not_lt_zero i)
        | succ fuel =>
            rw [read, hsize, readLoop, if_neg (Nat.succ_ne_zero fuel), hhit] at hfirst
            simp only at hfirst
            generalize hn : (if fuel + 1 < r.bytes.length - (addr - r.base).toNat then fuel + 1
              else r.bytes.length - (addr - r.base).toNat) = n at hfirst
            have hpos : 0 < n := by split at hn <;> omega
            rw [readLoop_keeps _ _ _ _ _ _ (by omega),
              overwrite_inside _ _ _ _ (by omega)] at hfirst
            exact hz (hfirst.symm.trans hbyte)
  · rintro (hmapped | hnone) out hfail
    · exact absurd (m.read_of_mapped addr size.toNat out hmapped) hfail
    · have hhit : m.hit addr = none := by
        simpa [byteMap] using hnone
      show (m.read addr size.toNat out).2 = out
      unfold read
      cases size.toNat with
      | zero => rfl
      | succ fuel => rw [readLoop, if_neg (Nat.succ_ne_zero fuel), hhit]

end FakeMemory

/-! ### The shadow pages -/

namespace ShadowPages

/-- One iteration of the read loop, without the buffer. -/
def piece (sp : ShadowPages) (cur : GuestAddr) (n : Nat) (_ : Unit) : Except Status Buf × Unit :=
  match sp.pages (base pageShift cur) with
  | some page => (.ok fun i => page (off pageShift cur + i), ())
  | none =>
    if sp.rangeIsPrivate (base pageShift cur) 4096 then (.ok fun _ => 0, ())
    else
      match sp.backing with
      | none => (.error .unmappedRead, ())
      | some backing =>
        match backing cur n fun _ => 0 with
        | (.ok _, d) => (.ok d, ())
        | (.error e, _) => (.error e, ())

/-- What a failing iteration makes of its part of the buffer. -/
def spill (sp : ShadowPages) (cur : GuestAddr) (n : Nat) (_ : Unit) (d : Buf) : Buf :=
  match sp.backing with
  | none => d
  | some backing => (backing cur n d).2

theorem delivers {sp : ShadowPages}
    (hbacking : ∀ backing, sp.backing = some backing → ∀ cur n, ReadsInto n (backing cur n)) :
    Delivers (fun cur n done out => sp.serve cur n done out) id (fun _ => ()) sp.piece
      sp.spill := by
  constructor
  · intro cur n done out d t hpiece
    cases hpage : sp.pages (base pageShift cur) with
    | some page =>
        simp only [piece, hpage] at hpiece
        cases hpiece
        simp only [serve, hpage]
        exact ⟨trivial, rfl, trivial⟩
    | none =>
        cases hprivate : sp.rangeIsPrivate (base pageShift cur) 4096 with
        | true =>
            simp only [piece, hpage, hprivate, if_true] at hpiece
            cases hpiece
            simp only [serve, hpage, hprivate, if_true]
            exact ⟨trivial, rfl, trivial⟩
        | false =>
            simp only [piece, hpage, hprivate, Bool.false_eq_true, if_false] at hpiece
            simp only [serve, hpage, hprivate, Bool.false_eq_true, if_false]
            cases hb : sp.backing with
            | none =>
                simp only [hb] at hpiece
                cases hpiece
            | some backing =>
                simp only [hb] at hpiece
                have hread := hbacking backing hb cur n
                have hstatus := hread.status (fun i => out (done + i)) fun _ => 0
                have hplace := hread.place out (fun _ => 0) done
                cases hr : backing cur n fun _ => 0 with
                | mk r d' =>
                    rw [hr] at hpiece hstatus hplace
                    cases r with
                    | error e => cases hpiece
                    | ok u =>
                        cases hpiece
                        exact ⟨hstatus, hplace rfl, trivial⟩
  · intro cur n done out e t hpiece
    cases hpage : sp.pages (base pageShift cur) with
    | some page =>
        simp only [piece, hpage] at hpiece
        cases hpiece
    | none =>
        cases hprivate : sp.rangeIsPrivate (base pageShift cur) 4096 with
        | true =>
            simp only [piece, hpage, hprivate, if_true] at hpiece
            cases hpiece
        | false =>
            simp only [piece, hpage, hprivate, Bool.false_eq_true, if_false] at hpiece
            simp only [serve, spill, hpage, hprivate, Bool.false_eq_true, if_false]
            cases hb : sp.backing with
            | none =>
                simp only [hb] at hpiece
                cases hpiece
                exact ⟨rfl, (place_self out done).symm⟩
            | some backing =>
                simp only [hb] at hpiece
                have hread := hbacking backing hb cur n
                have hstatus := hread.status (fun i => out (done + i)) fun _ => 0
                cases hr : backing cur n fun _ => 0 with
                | mk r d' =>
                    rw [hr] at hpiece hstatus
                    cases r with
                    | ok u => cases hpiece
                    | error e' =>
                        cases hpiece
                        exact ⟨hstatus, rfl⟩

end ShadowPages

/-! ### The cache levels -/

section Levels

variable {σ : Type}

namespace DirectMapped

variable (k entries : Nat)

/-- One iteration of the read loop, without the buffer. -/
def piece (next : MemoryProvider σ) (cur : GuestAddr) (_ : Nat) (st : Slots × σ) :
    Except Status Buf × Slots × σ :=
  let b := base k cur
  let idx := slotIndex k entries b
  let slot := st.1 idx
  if slot.holds b then (.ok fun i => slot.data (off k cur + i), st)
  else
    match next.read b (2 ^ k) slot.data st.2 with
    | (.error e, d, s') =>
        (.error e, Function.update st.1 idx { slot with valid := false, data := d }, s')
    | (.ok _, d, s') =>
        (.ok fun i => d (off k cur + i),
          Function.update st.1 idx { tag := b, valid := true, data := d }, s')

theorem delivers (next : MemoryProvider σ) :
    Delivers (serve k entries next) Prod.fst Prod.snd (piece k entries next) fun _ _ _ d => d := by
  constructor
  · rintro cur n done ⟨out, c, s⟩ d t hpiece
    simp only [piece] at hpiece
    simp only [serve]
    split at hpiece
    · rename_i hholds
      cases hpiece
      rw [if_pos hholds]
      exact ⟨rfl, rfl, rfl⟩
    · rename_i hholds
      rw [if_neg hholds]
      cases hr : next.read (base k cur) (2 ^ k) (c (slotIndex k entries (base k cur))).data s with
      | mk r rest =>
          rw [hr] at hpiece
          cases r with
          | error e => cases hpiece
          | ok u =>
              cases hpiece
              exact ⟨rfl, rfl, rfl⟩
  · rintro cur n done ⟨out, c, s⟩ e t hpiece
    simp only [piece] at hpiece
    simp only [serve]
    split at hpiece
    · cases hpiece
    · rename_i hholds
      rw [if_neg hholds]
      cases hr : next.read (base k cur) (2 ^ k) (c (slotIndex k entries (base k cur))).data s with
      | mk r rest =>
          rw [hr] at hpiece
          cases r with
          | ok u => cases hpiece
          | error e' =>
              cases hpiece
              exact ⟨rfl, (place_self out done).symm⟩

end DirectMapped

namespace L3Cache

/-- One iteration of the read loop, without the buffer. -/
def piece (next : MemoryProvider σ) (cur : GuestAddr) (n : Nat) (st : L3Cache × σ) :
    Except Status Buf × L3Cache × σ :=
  let b := base regionShift cur
  let copy (c : L3Cache) (i : Nat) : Buf := fun j => (c.regions i).data (off regionShift cur + j)
  match st.1.hit b with
  | some i => (.ok (copy st.1 i), st.1.touch i, st.2)
  | none =>
    match prefetchRegion next b st with
    | (.error _, c', s') =>
        match next.read cur n (fun _ => 0) s' with
        | (.error e, _, s'') => (.error e, c', s'')
        | (.ok _, d, s'') => (.ok d, c', s'')
    | (.ok _, c', s') =>
        match c'.hit b with
        | some i => (.ok (copy c' i), c', s')
        | none => (.ok fun _ => 0, c', s')

/-- A request that is neither held nor fetched is read straight into the buffer. -/
def spill (next : MemoryProvider σ) (cur : GuestAddr) (n : Nat) (st : L3Cache × σ) (d : Buf) :
    Buf :=
  (next.read cur n d (prefetchRegion next (base regionShift cur) st).2.2).2.1

/-- A fetched region is found. -/
theorem hit_prefetchRegion (next : MemoryProvider σ) {b : GuestAddr} (hb : base regionShift b = b)
    {st : L3Cache × σ} (hmiss : st.1.hit b = none)
    (hok : (prefetchRegion next b st).1 = .ok ()) :
    (prefetchRegion next b st).2.1.hit b ≠ none := by
  obtain ⟨c, s⟩ := st
  intro hnone
  have hvictim := victim_lt c
  simp only at hmiss
  simp only [prefetchRegion, hb, hmiss] at hok hnone
  generalize (if (c.regions c.victim).dataSize = 2 ^ regionShift then c.regions c.victim
    else { c.regions c.victim with data := fun _ => 0, dataSize := 2 ^ regionShift }) = r
    at hok hnone
  cases hr : next.read b (2 ^ regionShift) r.data s with
  | mk status rest =>
      rw [hr] at hok hnone
      cases status with
      | error e => cases hok
      | ok u =>
          have hself := regions_setRegion_self { c with useCounter := c.useCounter + 1 } c.victim
            { r with base := b, valid := true, data := rest.1, lastUse := c.useCounter + 1 }
          exact hit_eq_none hnone hvictim (by rw [hself]) (by rw [hself])

theorem delivers {next : MemoryProvider σ} (hnext : OutputOnly next) :
    Delivers (serve next) Prod.fst Prod.snd (piece next) (spill next) := by
  constructor
  · rintro cur n done ⟨out, c, s⟩ d t hpiece
    simp only [piece] at hpiece
    simp only [serve]
    cases hhit : c.hit (base regionShift cur) with
    | some i =>
        simp only [hhit] at hpiece
        cases hpiece
        exact ⟨rfl, rfl, rfl⟩
    | none =>
        simp only [hhit] at hpiece ⊢
        have hfound := @hit_prefetchRegion σ next _ (base_base regionShift cur) (c, s) hhit
        cases hp : prefetchRegion next (base regionShift cur) (c, s) with
        | mk r st' =>
            obtain ⟨c', s'⟩ := st'
            rw [hp] at hpiece hfound
            cases r with
            | ok u =>
                simp only at hpiece ⊢
                cases hhit' : c'.hit (base regionShift cur) with
                | none => exact absurd hhit' (hfound rfl)
                | some i =>
                    simp only [hhit'] at hpiece
                    cases hpiece
                    exact ⟨rfl, rfl, rfl⟩
            | error e =>
                simp only [passThrough] at hpiece ⊢
                have hread := hnext.reads cur n s'
                have hstatus := hread.status (fun i => out (done + i)) fun _ => 0
                have hplace := hread.place out (fun _ => 0) done
                have hstate := hnext.state cur n s' (fun i => out (done + i)) fun _ => 0
                cases hr : next.read cur n (fun _ => 0) s' with
                | mk r' rest =>
                    rw [hr] at hpiece hstatus hplace hstate
                    cases r' with
                    | error e' => cases hpiece
                    | ok u =>
                        cases hpiece
                        exact ⟨hstatus, hplace rfl, by simp only [hstate]⟩
  · rintro cur n done ⟨out, c, s⟩ e t hpiece
    simp only [piece] at hpiece
    simp only [serve, spill]
    cases hhit : c.hit (base regionShift cur) with
    | some i =>
        simp only [hhit] at hpiece
        cases hpiece
    | none =>
        simp only [hhit] at hpiece ⊢
        cases hp : prefetchRegion next (base regionShift cur) (c, s) with
        | mk r st' =>
            obtain ⟨c', s'⟩ := st'
            rw [hp] at hpiece
            cases r with
            | ok u =>
                simp only at hpiece
                cases hhit' : c'.hit (base regionShift cur) with
                | none =>
                    simp only [hhit'] at hpiece
                    cases hpiece
                | some i =>
                    simp only [hhit'] at hpiece
                    cases hpiece
            | error e₀ =>
                simp only [passThrough] at hpiece ⊢
                have hread := hnext.reads cur n s'
                have hstatus := hread.status (fun i => out (done + i)) fun _ => 0
                cases hr : next.read cur n (fun _ => 0) s' with
                | mk r' rest =>
                    rw [hr] at hpiece hstatus
                    cases r' with
                    | ok u => cases hpiece
                    | error e' =>
                        cases hpiece
                        exact ⟨hstatus, rfl⟩

end L3Cache

namespace Chain.Level

def shift : Level → Nat
  | .l1 => lineShift
  | .l2 => ShadowPages.pageShift
  | .l3 => L3Cache.regionShift

/-- One iteration of the read loop of the level, without the buffer. -/
def piece (next : MemoryProvider σ) : (level : Level) → GuestAddr → Nat → level.Table × σ →
    Except Status Buf × level.Table × σ
  | .l1 => DirectMapped.piece lineShift l1Entries next
  | .l2 => DirectMapped.piece ShadowPages.pageShift l2Entries next
  | .l3 => L3Cache.piece next

/-- What a failing iteration makes of its part of the buffer. -/
def spill (next : MemoryProvider σ) : (level : Level) → GuestAddr → Nat → level.Table × σ →
    Buf → Buf
  | .l1 => fun _ _ _ d => d
  | .l2 => fun _ _ _ d => d
  | .l3 => L3Cache.spill next

/-- What a level must find readable to serve the range. -/
def Readable (mem : ByteMap) (addr : GuestAddr) (size : Nat) : Level → Prop
  | .l1 => MappedGranules lineShift mem addr size
  | .l2 => MappedGranules ShadowPages.pageShift mem addr size
  | .l3 => Mapped mem addr size

/-- In the states a level gets to over a byte memory, the pieces served in turn are those that
are readable. -/
theorem servedInTurn_iff {next : MemoryProvider σ} {Inv : σ → Prop} {mem : σ → ByteMap}
    (hnext : ByteGranular next Inv mem) (hout : OutputOnly next) (level : Level)
    (st : level.Table × σ) (hst : Reaches next Inv mem level st) (addr : GuestAddr) (size : U64) :
    ServedInTurn level.shift (level.piece next) size.toNat addr size.toNat st ↔
      level.Readable (mem st.2) addr size.toNat := by
  have hinv := hst.coherence hnext.toRepresents
  cases level with
  | l1 =>
      have hserved := (DirectMapped.delivers lineShift l1Entries next).walk_ok_iff (k := lineShift)
        size.toNat addr 0 size.toNat ((fun _ => 0, st) : Buf × Slots × σ)
      exact hserved.symm.trans (DirectMapped.read_ok_iff hnext lineShift l1Entries (by decide) addr
        size.toNat (fun _ => 0) st hinv)
  | l2 =>
      have hserved := (DirectMapped.delivers ShadowPages.pageShift l2Entries next).walk_ok_iff
        (k := ShadowPages.pageShift) size.toNat addr 0 size.toNat ((fun _ => 0, st) : Buf × Slots × σ)
      exact hserved.symm.trans (DirectMapped.read_ok_iff hnext ShadowPages.pageShift l2Entries
        (by decide) addr size.toNat (fun _ => 0) st hinv)
  | l3 =>
      have hserved := (L3Cache.delivers hout).walk_ok_iff (k := L3Cache.regionShift) size.toNat addr 0
        size.toNat ((fun _ => 0, st) : Buf × L3Cache × σ)
      exact hserved.symm.trans (L3Cache.read_ok_iff hnext addr size.toNat (fun _ => 0) st
        size.isLt.le hinv)

end Chain.Level

end Levels

/-! ### Every provider -/

theorem U8.nontrivial : Nontrivial U8 := ⟨0, 1, by decide⟩

/-- For each provider, and whatever its state: failed reads of the range leave the buffer alone
exactly when the read is served whole, or its first piece already fails and that piece itself
leaves the buffer alone. -/
theorem failed_read_leaves_iff (m : FakeMemory) (sp : ShadowPages)
    (hbacking : ∀ backing, sp.backing = some backing → ∀ cur n, ReadsInto n (backing cur n))
    {σ : Type} (next : MemoryProvider σ) (hnext : OutputOnly next) (level : Chain.Level)
    (st : level.Table × σ) (addr : GuestAddr) (size : U64) :
    (LeavesBuffer FakeMemory.provider m addr size ↔
      Mapped m.byteMap addr size.toNat ∨ m.byteMap addr = none) ∧
    (LeavesBuffer ShadowPages.provider sp addr size ↔
      ServedInTurn ShadowPages.pageShift sp.piece size.toNat addr size.toNat () ∨
        ∃ e t, sp.piece addr (pieceLen ShadowPages.pageShift addr size.toNat) () = (.error e, t) ∧
          ∀ d, sp.spill addr (pieceLen ShadowPages.pageShift addr size.toNat) () d = d) ∧
    (LeavesBuffer (level.atop next) st addr size ↔
      ServedInTurn level.shift (level.piece next) size.toNat addr size.toNat st ∨
        ∃ e t, level.piece next addr (pieceLen level.shift addr size.toNat) st = (.error e, t) ∧
          ∀ d, level.spill next addr (pieceLen level.shift addr size.toNat) st d = d) := by
  have := U8.nontrivial
  refine ⟨m.leavesBuffer_iff addr size, ?_, ?_⟩
  · exact (ShadowPages.delivers hbacking).unchanged_iff (fun out _ => out) (fun _ _ => rfl)
      (fun _ _ => rfl) addr size.toNat ()
  · cases level with
    | l1 =>
        exact (DirectMapped.delivers _ _ next).unchanged_iff Prod.mk (fun _ _ => rfl)
          (fun _ _ => rfl) addr size.toNat st
    | l2 =>
        exact (DirectMapped.delivers _ _ next).unchanged_iff Prod.mk (fun _ _ => rfl)
          (fun _ _ => rfl) addr size.toNat st
    | l3 =>
        exact (L3Cache.delivers hnext).unchanged_iff Prod.mk (fun _ _ => rfl)
          (fun _ _ => rfl) addr size.toNat st

/-! ### A region of one line at `0x1000` -/

def oneLine : FakeMemory where
  regions := [{ base := 0x1000, bytes := List.replicate 64 0xAB, length_lt := by decide }]
  disjoint := List.pairwise_singleton _ _

theorem failed_read_leaves_iff_oneLine :
    LeavesBuffer (Chain.Level.l1.atop FakeMemory.provider) (Chain.Level.l1.empty, oneLine)
      0x1008 8 := by
  have h := (failed_read_leaves_iff oneLine { backing := some oneLine.read }
    (fun backing hb => by
      cases hb
      exact fun cur n => oneLine.reads_into cur n)
    FakeMemory.provider FakeMemory.outputOnly .l1 (Chain.Level.l1.empty, oneLine) 0x1008 8).2.2
  exact h.mpr (Or.inl (Or.inr ⟨_, _, rfl, Or.inl rfl⟩))

/-- Of eight bytes from `0x103C` the first level has four, and leaves them in the buffer. -/
theorem failed_read_delivers :
    ¬ ((∀ (m : FakeMemory) (addr : GuestAddr) (size : U64),
        LeavesBuffer FakeMemory.provider m addr size) ∧
      (∀ (m : FakeMemory) (addr : GuestAddr) (size : U64),
        LeavesBuffer ShadowPages.provider { backing := some m.read } addr size) ∧
      ∀ (level : Chain.Level) (m : FakeMemory) (addr : GuestAddr) (size : U64),
        LeavesBuffer (level.atop FakeMemory.provider) (level.empty, m) addr size) := by
  rintro ⟨-, -, h⟩
  have hfail : ((Chain.Level.l1.atop FakeMemory.provider).read 0x103C (8 : U64).toNat (fun _ => 0)
      (Chain.Level.l1.empty, oneLine)).1 = .error .unmappedRead := rfl
  have hsame := h .l1 oneLine 0x103C 8 (fun _ => 0) (by rw [hfail]; simp)
  have hdelivered : ((Chain.Level.l1.atop FakeMemory.provider).read 0x103C (8 : U64).toNat
      (fun _ => 0) (Chain.Level.l1.empty, oneLine)).2.1 0 = 0xAB := rfl
  have hfirst := congrFun hsame 0
  rw [hdelivered] at hfirst
  cases hfirst

end PicoCpu
