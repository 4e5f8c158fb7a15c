import PicoCpu.Memory.Chain
import PicoCpu.Memory.FakeMemory

/-!
Which reads the cache levels fail. A level that fetches whole granules and nothing else fails
a read of readable bytes when a byte beside them is not readable; a level that falls back to
the narrow request fails exactly the reads its next provider fails.
-/

namespace PicoCpu

open Granule

/-- A byte memory whose reads fail only at a byte that is not there. -/
structure ByteGranular {σ : Type} (P : MemoryProvider σ) (Inv : σ → Prop) (mem : σ → ByteMap) :
    Prop extends Represents P Inv mem where
  read_mapped : ∀ addr size out s, size ≤ 2 ^ 64 → Inv s →
    (∀ i < size, mem s (addr + BitVec.ofNat 64 i) ≠ none) → (P.read addr size out s).1 = .ok ()

/-- All the bytes of the range are in the memory. -/
def Mapped (mem : ByteMap) (addr : GuestAddr) (size : Nat) : Prop :=
  ∀ i < size, mem (addr + BitVec.ofNat 64 i) ≠ none

/-- All the bytes of every granule the range touches are. -/
def MappedGranules (k : Nat) (mem : ByteMap) (addr : GuestAddr) (size : Nat) : Prop :=
  ∀ i < size, Mapped mem (base k (addr + BitVec.ofNat 64 i)) (2 ^ k)

theorem MappedGranules.mapped {k : Nat} {mem : ByteMap} {addr : GuestAddr} {size : Nat}
    (h : MappedGranules k mem addr size) : Mapped mem addr size := by
  intro i hi
  have hbyte := h i hi (off k (addr + BitVec.ofNat 64 i)) (off_lt k _)
  rwa [base_add_off] at hbyte

theorem Leaves.and {σ ε : Type} {size : Nat} {I J : Nat → σ → Prop} {E F : ε → σ → Prop}
    {r : Except ε Unit × σ} (h : Leaves size I E r) (h' : Leaves size J F r) :
    Leaves size (fun n s => I n s ∧ J n s) (fun e s => E e s ∧ F e s) r := by
  obtain ⟨r, s⟩ := r
  cases r <;> exact ⟨h, h'⟩

section ReadOk

variable {σ : Type} {next : MemoryProvider σ} {Inv : σ → Prop} {mem : σ → ByteMap}
  (hnext : ByteGranular next Inv mem)
include hnext

theorem ByteGranular.read_ok_iff (addr : GuestAddr) {size : Nat} (out : Buf) {s : σ}
    (hsize : size ≤ 2 ^ 64) (hs : Inv s) :
    (next.read addr size out s).1 = .ok () ↔ Mapped (mem s) addr size := by
  constructor
  · intro hok i hi
    rw [hnext.read_ok addr size out s hsize hs hok i hi]
    exact Option.some_ne_none _
  · exact hnext.read_mapped addr size out s hsize hs

namespace DirectMapped

variable (k entries : Nat) (hk : k ≤ 64)
include hk

/-- One iteration succeeds when the whole granule is readable. -/
theorem serve_ok_iff (cur : GuestAddr) (n done : Nat) (st : Buf × Slots × σ)
    (hinv : LevelInv k entries Inv mem st.2) :
    (serve k entries next cur n done st).1 = .ok () ↔
      Mapped (mem st.2.2) (base k cur) (2 ^ k) := by
  obtain ⟨out, c, s⟩ := st
  obtain ⟨hs, hco, hplaced⟩ := hinv
  simp only [serve]
  by_cases hholds : (c (slotIndex k entries (base k cur))).holds (base k cur) = true
  · rw [if_pos hholds]
    have hview : view k entries c (base k cur) =
        some (c (slotIndex k entries (base k cur))).data := if_pos hholds
    refine iff_of_true rfl fun i hi => ?_
    rw [(hco _ _ hview).2 i hi]
    exact Option.some_ne_none _
  · rw [if_neg hholds]
    have hiff := hnext.read_ok_iff (base k cur)
      (c (slotIndex k entries (base k cur))).data
      (Nat.pow_le_pow_right (by omega) hk) hs
    rw [← hiff]
    cases next.read (base k cur) (2 ^ k) (c (slotIndex k entries (base k cur))).data s with
    | mk r rest => cases r <;> simp

/-- A read through a direct-mapped level returns Ok exactly when every granule it touches is
readable as a whole. -/
theorem read_ok_iff (addr : GuestAddr) (size : Nat) (out : Buf) (st : Slots × σ)
    (hinv : LevelInv k entries Inv mem st) :
    (read k entries next addr size out st).1 = .ok () ↔
      MappedGranules k (mem st.2) addr size := by
  have hleaves : Leaves size
      (fun m st' => (LevelInv k entries Inv mem st'.2 ∧ mem st'.2.2 = mem st.2 ∧
        Filled (mem st.2) addr size out m st'.1) ∧ MappedGranules k (mem st.2) addr m)
      (fun _ st' => (LevelInv k entries Inv mem st'.2 ∧ mem st'.2.2 = mem st.2 ∧
        ∀ i, size ≤ i → st'.1 i = out i) ∧ ¬ MappedGranules k (mem st.2) addr size)
      (read k entries next addr size out st) := by
    refine walkRange_rule k _ addr size _ _ ?_ (out, st) ⟨⟨hinv, rfl, ?_, fun _ _ => rfl⟩, ?_⟩
    · rintro done n st' ⟨⟨hinv', hmem, hfill⟩, hdone⟩ hpos hle hfit
      refine Leaves.and (serve_leaves k entries hnext.toRepresents hk addr size out st.2 done n st'
        hle hfit hinv' hmem hfill) ?_
      have hiff := serve_ok_iff hnext k entries hk (addr + BitVec.ofNat 64 done) n done st' hinv'
      rw [hmem] at hiff
      revert hiff
      cases serve k entries next (addr + BitVec.ofNat 64 done) n done st' with
      | mk r st'' =>
          intro hiff
          cases r with
          | error e =>
              intro hall
              have hfail := hiff.mpr (hall done (by omega))
              simp at hfail
          | ok u =>
              intro i hi
              by_cases hold : i < done
              · exact hdone i hold
              · have hbase := base_add k hk (addr + BitVec.ofNat 64 done) (i - done) (by omega)
                rw [add_add_ofNat, Nat.add_sub_cancel' (by omega)] at hbase
                rw [hbase]
                exact hiff.mp rfl
    · exact fun i hi => absurd hi (Nat.not_lt_zero i)
    · exact fun i hi => absurd hi (Nat.not_lt_zero i)
  revert hleaves
  cases read k entries next addr size out st with
  | mk r st' =>
      cases r with
      | error e => exact fun h => iff_of_false (by simp) h.2
      | ok u => exact fun h => iff_of_true rfl h.2

end DirectMapped

namespace L3Cache

omit hnext in
/-- A chunk inside a held region is readable. -/
theorem mapped_of_hit {c : L3Cache} {m : ByteMap} (hco : Coherent regionShift c.view m)
    {cur : GuestAddr} {n i : Nat} (hfit : off regionShift cur + n ≤ 2 ^ regionShift)
    (hhit : c.hit (base regionShift cur) = some i) : Mapped m cur n := by
  have hview : c.view (base regionShift cur) = some (c.regions i).data := by
    rw [view, hhit]
    rfl
  intro j hj
  have hbyte := (hco _ _ hview).2 (off regionShift cur + j) (by omega)
  rw [base_add_off_add] at hbyte
  rw [hbyte]
  exact Option.some_ne_none _

/-- One iteration succeeds when the requested bytes are readable: where the bulk fetch fails,
the request passes through. -/
theorem serve_ok_iff (cur : GuestAddr) (n done : Nat) (st : Buf × L3Cache × σ)
    (hn : n ≤ 2 ^ 64) (hfit : off regionShift cur + n ≤ 2 ^ regionShift)
    (hinv : LevelInv Inv mem st.2) :
    (serve next cur n done st).1 = .ok () ↔ Mapped (mem st.2.2) cur n := by
  obtain ⟨out, c, s⟩ := st
  have hinv₀ := hinv
  obtain ⟨hs, hco, hplaced⟩ := hinv
  simp only [serve]
  cases hhit : c.hit (base regionShift cur) with
  | some i => exact iff_of_true rfl (mapped_of_hit hco hfit hhit)
  | none =>
      simp only
      have hpre := prefetchRegion_levelInv hnext.toRepresents (base regionShift cur) (c, s) hinv₀
      rw [base_base] at hpre
      revert hpre
      cases prefetchRegion next (base regionShift cur) (c, s) with
      | mk res rest =>
          obtain ⟨c', s'⟩ := rest
          rintro ⟨⟨hs', hco', _⟩, hmem', hheld⟩
          simp only at hs' hco' hmem' hheld
          cases res with
          | error e =>
              have hiff := hnext.read_ok_iff cur (fun i => out (done + i)) hn hs'
              rw [hmem'] at hiff
              simp only [passThrough]
              rw [← hiff]
          | ok u =>
              obtain ⟨i, hi⟩ := hheld rfl
              simp only [hi]
              refine iff_of_true trivial ?_
              rw [← hmem']
              exact mapped_of_hit hco' hfit hi

/-- A read through the third level returns Ok exactly when its bytes are readable. -/
theorem read_ok_iff (addr : GuestAddr) (size : Nat) (out : Buf) (st : L3Cache × σ)
    (hsize : size ≤ 2 ^ 64) (hinv : LevelInv Inv mem st) :
    (read next addr size out st).1 = .ok () ↔ Mapped (mem st.2) addr size := by
  have hleaves : Leaves size
      (fun m st' => (LevelInv Inv mem st'.2 ∧ mem st'.2.2 = mem st.2 ∧
        Filled (mem st.2) addr size out m st'.1) ∧ Mapped (mem st.2) addr m)
      (fun _ st' => (LevelInv Inv mem st'.2 ∧ mem st'.2.2 = mem st.2 ∧
        ∀ i, size ≤ i → st'.1 i = out i) ∧ ¬ Mapped (mem st.2) addr size)
      (read next addr size out st) := by
    refine walkRange_rule regionShift _ addr size _ _ ?_ (out, st)
      ⟨⟨hinv, rfl, ?_, fun _ _ => rfl⟩, ?_⟩
    · rintro done n st' ⟨⟨hinv', hmem, hfill⟩, hdone⟩ hpos hle hfit
      refine Leaves.and (serve_leaves hnext.toRepresents addr size out st.2 done n st' hsize hle hfit
        hinv' hmem hfill) ?_
      have hiff := serve_ok_iff hnext (addr + BitVec.ofNat 64 done) n done st' (by omega) hfit hinv'
      rw [hmem] at hiff
      revert hiff
      cases serve next (addr + BitVec.ofNat 64 done) n done st' with
      | mk r st'' =>
          intro hiff
          cases r with
          | error e =>
              intro hall
              have hchunk : Mapped (mem st.2) (addr + BitVec.ofNat 64 done) n := by
                intro i hi
                rw [add_add_ofNat]
                exact hall (done + i) (by omega)
              have hfail := hiff.mpr hchunk
              simp at hfail
          | ok u =>
              intro i hi
              by_cases hold : i < done
              · exact hdone i hold
              · have hbyte := hiff.mp rfl (i - done) (by omega)
                rwa [add_add_ofNat, Nat.add_sub_cancel' (by omega)] at hbyte
    · exact fun i hi => absurd hi (Nat.not_lt_zero i)
    · exact fun i hi => absurd hi (Nat.not_lt_zero i)
  revert hleaves
  cases read next addr size out st with
  | mk r st' =>
      cases r with
      | error e => exact fun h => iff_of_false (by simp) h.2
      | ok u => exact fun h => iff_of_true rfl h.2

end L3Cache

end ReadOk

/-! ### Any level over any provider -/

namespace Chain.Level

variable {σ : Type}

/-- The table of a level. -/
abbrev Table : Level → Type
  | .l1 => Slots
  | .l2 => Slots
  | .l3 => L3Cache

/-- The level over a provider of any kind. -/
def atop (next : MemoryProvider σ) : (level : Level) → MemoryProvider (level.Table × σ)
  | .l1 => DirectMapped.provider lineShift l1Entries next
  | .l2 => DirectMapped.provider ShadowPages.pageShift l2Entries next
  | .l3 => L3Cache.provider next

def empty : (level : Level) → level.Table
  | .l1 => fun _ => {}
  | .l2 => fun _ => {}
  | .l3 => {}

def invalidate (addr : GuestAddr) (size : Nat) : (level : Level) → level.Table → level.Table
  | .l1, c => DirectMapped.invalidate lineShift l1Entries addr size c
  | .l2, c => DirectMapped.invalidate ShadowPages.pageShift l2Entries addr size c
  | .l3, c => L3Cache.invalidate addr size c

def flush : (level : Level) → level.Table → level.Table
  | .l1, c => DirectMapped.flush c
  | .l2, c => DirectMapped.flush c
  | .l3, c => L3Cache.flush c

/-- The states a level gets to, from an empty table: by reads, writes, invalidations, flushes,
prefetches of the third level, and changes below it that keep every readable byte. -/
inductive Reaches (next : MemoryProvider σ) (Inv : σ → Prop) (mem : σ → ByteMap) :
    (level : Level) → level.Table × σ → Prop where
  | empty {level} (s : σ) : Inv s → Reaches next Inv mem level (level.empty, s)
  | read {level st} (addr : GuestAddr) (size : U64) (out : Buf) : Reaches next Inv mem level st →
      Reaches next Inv mem level ((level.atop next).read addr size.toNat out st).2.2
  | write {level st} (addr : GuestAddr) (size : U64) (data : Buf) : Reaches next Inv mem level st →
      Reaches next Inv mem level ((level.atop next).write addr size.toNat data st).2
  | invalidate {level st} (addr : GuestAddr) (size : U64) : Reaches next Inv mem level st →
      Reaches next Inv mem level (level.invalidate addr size.toNat st.1, st.2)
  | flush {level st} : Reaches next Inv mem level st →
      Reaches next Inv mem level (level.flush st.1, st.2)
  | prefetchRegion {st} (addr : GuestAddr) : Reaches next Inv mem .l3 st →
      Reaches next Inv mem .l3 (L3Cache.prefetchRegion next addr st).2
  | changed {level st} (s : σ) : Reaches next Inv mem level st → Inv s →
      (∀ a v, mem st.2 a = some v → mem s a = some v) → Reaches next Inv mem level (st.1, s)

/-- The level is coherent with the memory below it. -/
def Coherence (Inv : σ → Prop) (mem : σ → ByteMap) : (level : Level) → level.Table × σ → Prop
  | .l1 => DirectMapped.LevelInv lineShift l1Entries Inv mem
  | .l2 => DirectMapped.LevelInv ShadowPages.pageShift l2Entries Inv mem
  | .l3 => L3Cache.LevelInv Inv mem

section Over

variable {next : MemoryProvider σ} {Inv : σ → Prop} {mem : σ → ByteMap}

theorem represents (hnext : Represents next Inv mem) (level : Level) :
    Represents (level.atop next) (Coherence Inv mem level) fun st => mem st.2 := by
  cases level with
  | l1 => exact DirectMapped.represents _ _ hnext (by decide)
  | l2 => exact DirectMapped.represents _ _ hnext (by decide)
  | l3 => exact L3Cache.represents hnext

theorem coherent_extend {k : Nat} {view : GuestAddr → Option Buf} {m m' : ByteMap}
    (hco : Coherent k view m) (hkeep : ∀ a v, m a = some v → m' a = some v) :
    Coherent k view m' := by
  intro b d hview
  obtain ⟨halign, hbytes⟩ := hco b d hview
  exact ⟨halign, fun i hi => hkeep _ _ (hbytes i hi)⟩

theorem Reaches.coherence (hnext : Represents next Inv mem) {level : Level}
    {st : level.Table × σ} (h : Reaches next Inv mem level st) : Coherence Inv mem level st := by
  induction h with
  | @empty level s hs =>
      cases level with
      | l1 => exact ⟨hs, DirectMapped.empty_coherent _ _ _⟩
      | l2 => exact ⟨hs, DirectMapped.empty_coherent _ _ _⟩
      | l3 => exact ⟨hs, L3Cache.empty_coherent _⟩
  | read addr size out _ ih =>
      exact (represents hnext _).read_inv addr _ out _ (le_of_lt size.isLt) ih
  | write addr size data _ ih =>
      exact (represents hnext _).write_inv addr _ data _ (le_of_lt size.isLt) ih
  | @invalidate level _ addr size _ ih =>
      cases level with
      | l1 => exact ⟨ih.1, DirectMapped.invalidate_coherent _ _ ih.2.1 ih.2.2 addr _⟩
      | l2 => exact ⟨ih.1, DirectMapped.invalidate_coherent _ _ ih.2.1 ih.2.2 addr _⟩
      | l3 => exact ⟨ih.1, L3Cache.invalidate_coherent ih.2.1 ih.2.2 addr _⟩
  | @flush level _ _ ih =>
      cases level with
      | l1 => exact ⟨ih.1, DirectMapped.flush_coherent _ _⟩
      | l2 => exact ⟨ih.1, DirectMapped.flush_coherent _ _⟩
      | l3 => exact ⟨ih.1, L3Cache.flush_coherent⟩
  | prefetchRegion addr _ ih => exact (L3Cache.prefetchRegion_levelInv hnext addr _ ih).1
  | @changed level _ s _ hs hkeep ih =>
      cases level with
      | l1 => exact ⟨hs, coherent_extend ih.2.1 hkeep, ih.2.2⟩
      | l2 => exact ⟨hs, coherent_extend ih.2.1 hkeep, ih.2.2⟩
      | l3 => exact ⟨hs, coherent_extend ih.2.1 hkeep, ih.2.2⟩

/-- Where a level can be trusted with a read: the third one always; the other two when the
read's own bytes are not all readable, or those of the lines or pages it touches all are. -/
def Transparent (mem : ByteMap) (addr : GuestAddr) (size : Nat) : Level → Prop
  | .l1 => Mapped mem addr size → MappedGranules lineShift mem addr size
  | .l2 => Mapped mem addr size → MappedGranules ShadowPages.pageShift mem addr size
  | .l3 => True

/-- From every state a level gets to, a read through it and the same read of its next provider
succeed or fail together exactly where the level is transparent. -/
theorem read_agrees_iff (hnext : ByteGranular next Inv mem) (level : Level)
    (st : level.Table × σ) (hst : Reaches next Inv mem level st) (addr : GuestAddr) (size : U64)
    (out : Buf) :
    (((level.atop next).read addr size.toNat out st).1 = .ok () ↔
        (next.read addr size.toNat out st.2).1 = .ok ()) ↔
      level.Transparent (mem st.2) addr size.toNat := by
  have hinv := hst.coherence hnext.toRepresents
  have hsize := le_of_lt size.isLt
  have hgranules {k : Nat} : (MappedGranules k (mem st.2) addr size.toNat ↔
      Mapped (mem st.2) addr size.toNat) ↔
        (Mapped (mem st.2) addr size.toNat → MappedGranules k (mem st.2) addr size.toNat) :=
    ⟨fun h => h.mpr, fun h => ⟨MappedGranules.mapped, h⟩⟩
  cases level with
  | l1 =>
      have hdirect := hnext.read_ok_iff addr out hsize hinv.1
      have hcached := DirectMapped.read_ok_iff hnext lineShift l1Entries (by decide) addr
        size.toNat out st hinv
      exact (iff_congr hcached hdirect).trans hgranules
  | l2 =>
      have hdirect := hnext.read_ok_iff addr out hsize hinv.1
      have hcached := DirectMapped.read_ok_iff hnext ShadowPages.pageShift l2Entries (by decide)
        addr size.toNat out st hinv
      exact (iff_congr hcached hdirect).trans hgranules
  | l3 =>
      have hdirect := hnext.read_ok_iff addr out hsize hinv.1
      have hcached := L3Cache.read_ok_iff hnext addr size.toNat out st hsize hinv
      exact iff_of_true (hcached.trans hdirect.symm) trivial

end Over

/-! ### Sixteen bytes at `0x1000` -/

theorem fake_byteGranular : ByteGranular FakeMemory.provider (fun _ => True) FakeMemory.byteMap where
  toRepresents := FakeMemory.represents
  read_mapped addr size out m _ _ h := m.read_of_mapped addr size out h

def sixteen : FakeMemory where
  regions := [{ base := 0x1000, bytes := List.replicate 16 0xAB, length_lt := by decide }]
  disjoint := List.pairwise_singleton _ _

/-- A four-byte read of them fails through L1: its line has forty-eight bytes more. -/
theorem narrow_read_fails :
    ¬ ∀ (level : Level) (m : FakeMemory) (addr : GuestAddr) (size : U64) (out : Buf),
      ((level.atop FakeMemory.provider).read addr size.toNat out (level.empty, m)).1 = .ok () ↔
        (FakeMemory.provider.read addr size.toNat out m).1 = .ok () := by
  intro h
  have hread := (h .l1 sixteen 0x1000 4 fun _ => 0).mpr rfl
  have hfail : ((Level.l1.atop FakeMemory.provider).read 0x1000 (4 : U64).toNat (fun _ => 0)
      (Level.l1.empty, sixteen)).1 = .error .unmappedRead := rfl
  rw [hfail] at hread
  cases hread

theorem read_agrees_iff_sixteen :
    ((Level.l3.atop FakeMemory.provider).read 0x1000 (4 : U64).toNat (fun _ => 0)
        (Level.l3.empty, sixteen)).1 = .ok () ↔
      (FakeMemory.provider.read 0x1000 (4 : U64).toNat (fun _ => 0) sixteen).1 = .ok () :=
  (read_agrees_iff fake_byteGranular .l3 (Level.l3.empty, sixteen) (.empty sixteen trivial) 0x1000 4
    fun _ => 0).mpr trivial

end Chain.Level

end PicoCpu
