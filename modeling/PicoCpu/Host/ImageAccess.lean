import PicoCpu.Host.LoaderBounds
import PicoCpu.Memory.CacheErrors

/-!
Range checks with 64-bit sums: the reads of `PeImageProvider` and `FakeMemoryProvider`, and
`add_region`, against the ranges over the integers.
-/

namespace PicoCpu

open Granule Settling

namespace Host

/-! ### The size of a loaded image -/

/-- A computation that returns a value returns one with `Q`. -/
def Yields {α : Type} (p : Load α) (Q : α → Prop) : Prop := ∀ a, p = pure a → Q a

section Yields

variable {α β : Type} {p : Load α} {f : α → Load β} {R : α → Prop} {Q : β → Prop}

theorem yields_pure {a : α} (h : R a) : Yields (pure a) R := by
  intro b hb
  cases hb
  exact h

theorem yields_throw (e : LoadStop) : Yields (throw e : Load α) R := by
  intro b hb
  cases hb

theorem yields_spent : Yields (spent : Load α) R := by
  intro b hb
  cases hb

theorem yields_bind (hp : Yields p R) (hf : ∀ a, R a → Yields (f a) Q) : Yields (p >>= f) Q := by
  rcases cases_result p with rfl | ⟨e, rfl⟩ | ⟨a, rfl⟩
  · exact yields_spent
  · exact yields_throw e
  · exact hf a (hp a rfl)

theorem yields_any (p : Load α) : Yields p fun _ => True := fun _ _ => trivial

theorem yields_ite {c : Prop} [Decidable c] {q : Load α} (hp : Yields p R) (hq : Yields q R) :
    Yields (if c then p else q) R := by
  split
  · exact hp
  · exact hq

theorem yields_need {b : Bytes} {off n : Nat} {next : Buf → Load α} (h : ∀ v, Yields (next v) R) :
    Yields (b.need off n next) R :=
  yields_ite (yields_throw _) (yields_bind (yields_any _) fun v _ => h v)

theorem yields_store (b : Bytes) (off n : Nat) (src : Buf) :
    Yields (b.store off n src) fun b' => b'.size = b.size :=
  yields_ite (yields_pure rfl) (yields_throw _)

end Yields

theorem size_copySections (raw : Bytes) (secTable left i : Nat) (m : Bytes) :
    Yields (copySections raw secTable left i m) fun m' => m'.size = m.size := by
  have hsection (m : Bytes) (h : SectionHeader) :
      Yields (copySection raw m h) fun m' => m'.size = m.size :=
    yields_ite (yields_pure rfl) (yields_ite (yields_pure rfl)
      (yields_bind (yields_any _) fun bytes _ => yields_store m _ _ bytes))
  induction left generalizing i m with
  | zero => exact yields_pure rfl
  | succ left ih =>
      rw [copySections]
      refine yields_need fun virtSize => yields_need fun virtAddr => ?_
      refine yields_need fun rawSize => yields_need fun rawPtr => ?_
      refine yields_bind (hsection m _) fun m' hsize => ?_
      rw [← hsize]
      exact ih (i + 1) m'

theorem size_relocEntries (delta : U64) (pageRva cur : U32) (left i : Nat) (m : Bytes) :
    Yields (relocEntries delta pageRva cur left i m) fun m' => m'.size = m.size := by
  have hentry (at_ : Nat) (m : Bytes) :
      Yields (relocEntry delta pageRva at_ m) fun m' => m'.size = m.size := by
    refine yields_bind (yields_any _) fun entry _ => yields_ite (yields_pure rfl) (yields_ite ?_ ?_)
    · exact yields_bind (yields_any _) fun v _ => yields_store m _ _ _
    · refine yields_ite (yields_ite (yields_pure rfl) ?_) (yields_pure rfl)
      exact yields_bind (yields_any _) fun v _ => yields_store m _ _ _
  induction left generalizing i m with
  | zero => exact yields_pure rfl
  | succ left ih =>
      rw [relocEntries]
      refine yields_bind (hentry _ m) fun m' hsize => ?_
      rw [← hsize]
      exact ih (i + 1) m'

theorem size_relocBlocks (delta : U64) (relocEnd : U32) (fuel : Nat) (cur : U32) (m : Bytes) :
    Yields (relocBlocks delta relocEnd fuel cur m) fun m' => m'.size = m.size := by
  induction fuel generalizing cur m with
  | zero => exact yields_spent
  | succ fuel ih =>
      rw [relocBlocks]
      refine yields_ite (yields_pure rfl) (yields_ite (yields_pure rfl) ?_)
      refine yields_bind (yields_any _) fun page _ => yields_bind (yields_any _) fun size _ => ?_
      refine yields_ite (yields_pure rfl) ?_
      refine yields_bind (size_relocEntries _ _ _ _ _ m) fun m' hsize => ?_
      rw [← hsize]
      exact ih _ m'

/-- The buffer of an image that is returned has the size of the image. -/
theorem size_peLoadFile (fuel : Nat) (file : Option Bytes) (forcedBase : GuestAddr)
    (out : PeLoadedImage) :
    Yields (peLoadFile fuel file forcedBase out) fun img => img.mapped.size = img.size.toNat := by
  unfold peLoadFile
  cases file with
  | none => exact yields_throw _
  | some raw =>
      refine yields_ite (yields_throw _) (yields_bind (yields_any _) fun h _ => ?_)
      have hmapped : Yields (mapHeaders raw h) fun m => m.size = h.sizeOfImage.toNat :=
        yields_ite (yields_throw _) (yields_ite (yields_throw _)
          (yields_bind (yields_any _) fun bytes _ => yields_store _ _ _ bytes))
      refine yields_bind hmapped fun m hm => ?_
      refine yields_bind (size_copySections raw _ _ _ m) fun m₁ hm₁ => ?_
      have hrelocs : Yields (applyRelocs fuel h.relocDir
          ((if forcedBase ≠ 0 then forcedBase else h.imageBase) - h.imageBase) m₁)
          fun m₂ => m₂.size = m₁.size :=
        yields_ite (size_relocBlocks _ _ _ _ m₁) (yields_pure rfl)
      refine yields_bind hrelocs fun m₂ hm₂ => yields_bind (yields_any _) fun exports _ =>
        yields_bind (yields_any _) fun imports _ => yields_pure ?_
      have hbound := h.sizeOfImage.isLt
      rw [hm₂, hm₁, hm, BitVec.toNat_setWidth, Nat.mod_eq_of_lt (by omega)]

/-! ### Loaded images -/

/-- `PeImageProvider`: the base, the size and the buffer of a loaded image. -/
structure PeImageProvider where
  base : GuestAddr
  size : U64
  data : Bytes
  size_eq : data.size = size.toNat

namespace PeImageProvider

/-- The provider of an image that `pe_load_file` has returned. -/
def ofLoaded {fuel : Nat} {file : Option Bytes} {forcedBase : GuestAddr} {out img : PeLoadedImage}
    (h : peLoadFile fuel file forcedBase out = pure img) : PeImageProvider where
  base := img.base
  size := img.size
  data := img.mapped
  size_eq := size_peLoadFile fuel file forcedBase out img h

/-- `read`. Ok comes with a copy from the buffer at the distance of the address from the base. -/
def read (p : PeImageProvider) (addr : GuestAddr) (size : U64) (out : Buf) :
    Except Status Unit × Buf :=
  if addr.ult p.base || (p.base + p.size).ult (addr + size) then (.error .unmappedRead, out)
  else (.ok (), overwrite out 0 size.toNat fun i => p.data.data ((addr - p.base).toNat + i))

/-- The integer is the address of a byte of the image. -/
def Holds (p : PeImageProvider) (a : Nat) : Prop :=
  p.base.toNat ≤ a ∧ a < p.base.toNat + p.size.toNat ∧ a < 2 ^ 64

/-- Reads succeed for bytes of the image alone, and copy from the buffer alone. -/
structure ReadLaw (p : PeImageProvider) (addr : GuestAddr) (size : U64) (out : Buf) : Prop where
  ok_iff : (p.read addr size out).1 = .ok () ↔ ∀ i < size.toNat, p.Holds (addr.toNat + i)
  inside : (p.read addr size out).1 = .ok () →
    ∀ i < size.toNat, (addr - p.base).toNat + i < p.data.size

/-- The check is right: the empty range is tested as an address. The sums may only wrap where this
makes no difference. -/
def ReadRight (p : PeImageProvider) (addr : GuestAddr) (size : U64) : Prop :=
  if size = 0 then p.base.ule addr ∧ addr.ule (p.base + p.size)
  else if p.base.toNat + p.size.toNat < 2 ^ 64 then
    addr.toNat < p.base.toNat ∨ addr.toNat + size.toNat < 2 ^ 64 ∨
      p.base.toNat + p.size.toNat + 2 ^ 64 < addr.toNat + size.toNat
  else
    addr.toNat < p.base.toNat ∨ addr.toNat + size.toNat = 2 ^ 64 ∨
      p.base.toNat + p.size.toNat < addr.toNat + size.toNat

theorem read_ok_iff (p : PeImageProvider) (addr : GuestAddr) (size : U64) (out : Buf) :
    (p.read addr size out).1 = .ok () ↔
      p.base.toNat ≤ addr.toNat ∧
        (addr.toNat + size.toNat) % 2 ^ 64 ≤ (p.base.toNat + p.size.toNat) % 2 ^ 64 := by
  rw [read, ← BitVec.toNat_add, ← BitVec.toNat_add, ← Nat.not_lt, ← Nat.not_lt]
  simp only [BitVec.ult, Bool.or_eq_true, decide_eq_true_eq]
  split
  next hout => exact iff_of_false (fun h => by cases h) (by tauto)
  next hin => exact iff_of_true rfl (by tauto)

/-- The bytes of a range that is not empty, by the ends of the range. -/
theorem holds_all_iff (p : PeImageProvider) (a : Nat) {n : Nat} (hn : 0 < n) :
    (∀ i < n, p.Holds (a + i)) ↔
      p.base.toNat ≤ a ∧ a + n ≤ p.base.toNat + p.size.toNat ∧ a + n ≤ 2 ^ 64 := by
  constructor
  · intro h
    obtain ⟨hlow, _⟩ := h 0 hn
    obtain ⟨_, hhigh, htop⟩ := h (n - 1) (by omega)
    omega
  · rintro ⟨hlow, hhigh, htop⟩ i hi
    exact ⟨by omega, by omega, by omega⟩

theorem readLaw_iff (p : PeImageProvider) (addr : GuestAddr) (size : U64) (out : Buf) :
    p.ReadLaw addr size out ↔ p.ReadRight addr size := by
  have hlaw : p.ReadLaw addr size out ↔ ((p.read addr size out).1 = .ok () ↔
      ∀ i < size.toNat, p.Holds (addr.toNat + i)) ∧ ((p.read addr size out).1 = .ok () →
        ∀ i < size.toNat, (addr - p.base).toNat + i < p.data.size) :=
    ⟨fun h => ⟨h.ok_iff, h.inside⟩, fun h => ⟨h.1, h.2⟩⟩
  have hbase := p.base.isLt
  have hsize := p.size.isLt
  have haddr := addr.isLt
  have hlen := size.isLt
  rw [hlaw, read_ok_iff, ReadRight, p.size_eq]
  split
  next hzero =>
    subst hzero
    have hnat : BitVec.toNat (0 : U64) = 0 := rfl
    simp only [hnat, Nat.not_lt_zero, false_implies, implies_true, iff_true, and_true,
      BitVec.ule, decide_eq_true_eq, BitVec.toNat_add]
    omega
  next hne =>
    have hpos : 0 < size.toNat := by
      rcases Nat.eq_zero_or_pos size.toNat with hzero | hpos
      · exact absurd (BitVec.eq_of_toNat_eq hzero) hne
      · exact hpos
    rw [p.holds_all_iff addr.toNat hpos]
    have hcopy (hok : p.base.toNat ≤ addr.toNat ∧ (addr.toNat + size.toNat) % 2 ^ 64 ≤
        (p.base.toNat + p.size.toNat) % 2 ^ 64 ↔ p.base.toNat ≤ addr.toNat ∧
          addr.toNat + size.toNat ≤ p.base.toNat + p.size.toNat ∧
            addr.toNat + size.toNat ≤ 2 ^ 64)
        (hread : p.base.toNat ≤ addr.toNat ∧ (addr.toNat + size.toNat) % 2 ^ 64 ≤
          (p.base.toNat + p.size.toNat) % 2 ^ 64) :
        ∀ i < size.toNat, (addr - p.base).toNat + i < p.size.toNat := by
      intro i hi
      have hin := hok.mp hread
      rw [BitVec.toNat_sub]
      omega
    split
    next hbelow =>
      constructor
      · rintro ⟨hok, _⟩
        omega
      · intro h
        exact ⟨by omega, hcopy (by omega)⟩
    next habove =>
      constructor
      · rintro ⟨hok, _⟩
        omega
      · intro h
        exact ⟨by omega, hcopy (by omega)⟩

end PeImageProvider

end Host

/-! ### Regions -/

namespace FakeRegion

/-- The integer is the address of a byte of the region. -/
def Spans (r : FakeRegion) (a : Nat) : Prop :=
  r.base.toNat ≤ a ∧ a < r.base.toNat + r.bytes.length ∧ a < 2 ^ 64

/-- The two regions have a byte in common. -/
def Meets (r q : FakeRegion) : Prop := ∃ a, r.Spans a ∧ q.Spans a

theorem contains_iff (r : FakeRegion) (a : GuestAddr) :
    r.contains a = true ↔ r.Spans a.toNat ∧ r.base.toNat + r.bytes.length < 2 ^ 64 := by
  have hlength := r.length_lt
  have hbase := r.base.isLt
  have ha := a.isLt
  simp only [contains, Spans, Bool.and_eq_true, BitVec.ule, BitVec.ult, decide_eq_true_eq,
    BitVec.toNat_add, BitVec.toNat_ofNat]
  omega

/-- What the wrapping test takes for an overlap of two regions that are not empty is one. -/
theorem meets_of_overlaps {r q : FakeRegion} (hr : r.bytes ≠ []) (hq : q.bytes ≠ [])
    (h : r.overlaps q = true) : r.Meets q := by
  have hpos := List.length_pos_iff.mpr hr
  have hpos' := List.length_pos_iff.mpr hq
  have hlength := r.length_lt
  have hlength' := q.length_lt
  have hbase := r.base.isLt
  have hbase' := q.base.isLt
  simp only [overlaps, Bool.not_eq_true', Bool.or_eq_false_iff, BitVec.ule, decide_eq_false_iff_not,
    BitVec.toNat_add, BitVec.toNat_ofNat] at h
  refine ⟨max r.base.toNat q.base.toNat, ⟨by omega, by omega, by omega⟩, by omega, by omega,
    by omega⟩

/-- The test finds every overlap of two regions that end below 2^64. -/
theorem overlaps_of_meets {r q : FakeRegion} (hr : r.base.toNat + r.bytes.length < 2 ^ 64)
    (hq : q.base.toNat + q.bytes.length < 2 ^ 64) (h : r.Meets q) : r.overlaps q = true := by
  obtain ⟨a, ⟨hlow, hhigh, _⟩, hlow', hhigh', _⟩ := h
  have hbase := r.base.isLt
  have hbase' := q.base.isLt
  simp only [overlaps, Bool.not_eq_true', Bool.or_eq_false_iff, BitVec.ule, decide_eq_false_iff_not,
    BitVec.toNat_add, BitVec.toNat_ofNat]
  omega

end FakeRegion

namespace FakeMemory

/-- The integer is the address of a byte of some region. -/
def Holds (m : FakeMemory) (a : Nat) : Prop := ∃ r ∈ m.regions, r.Spans a

/-- The copies of the read loop: the region, the offset in it and the number of bytes. -/
def copies (m : FakeMemory) : Nat → GuestAddr → Nat → List (FakeRegion × Nat × Nat)
  | 0, _, _ => []
  | fuel + 1, cur, remaining =>
    if remaining = 0 then []
    else
      match m.hit cur with
      | none => []
      | some r =>
        let hitOff := (cur - r.base).toNat
        let avail := r.bytes.length - hitOff
        let n := if remaining < avail then remaining else avail
        (r, hitOff, n) :: m.copies fuel (cur + BitVec.ofNat 64 n) (remaining - n)

/-- The buffer with the copies made one after the other from `done` on. -/
def pasted (out : Buf) : Nat → List (FakeRegion × Nat × Nat) → Buf
  | _, [] => out
  | done, (r, off, n) :: rest =>
    pasted (overwrite out done n fun i => r.bytes.getD (off + i) 0) (done + n) rest

theorem readLoop_pasted (m : FakeMemory) (fuel : Nat) (cur : GuestAddr) (done remaining : Nat)
    (out : Buf) :
    (m.readLoop fuel cur done remaining out).2 = pasted out done (m.copies fuel cur remaining) := by
  induction fuel generalizing cur done remaining out with
  | zero => rfl
  | succ fuel ih =>
      rw [readLoop, copies]
      split
      · rfl
      · cases m.hit cur with
        | none => rfl
        | some r => exact ih _ _ _ _

theorem copies_inside (m : FakeMemory) (fuel : Nat) (cur : GuestAddr) (remaining : Nat) :
    ∀ copy ∈ m.copies fuel cur remaining, copy.2.1 + copy.2.2 ≤ copy.1.bytes.length := by
  induction fuel generalizing cur remaining with
  | zero => exact fun copy hcopy => absurd hcopy List.not_mem_nil
  | succ fuel ih =>
      rw [copies]
      split
      · exact fun copy hcopy => absurd hcopy List.not_mem_nil
      · cases hhit : m.hit cur with
        | none => exact fun copy hcopy => absurd hcopy List.not_mem_nil
        | some r =>
            have hoff := (FakeRegion.offset_lt (hit_eq_some.mp hhit).2).1
            refine List.forall_mem_cons.mpr ⟨?_, ih _ _⟩
            dsimp only
            split <;> omega

/-- Reads succeed for bytes of the regions alone, and copy from them alone. -/
structure ReadLaw (m : FakeMemory) (addr : GuestAddr) (size : U64) (out : Buf) : Prop where
  ok_iff : (m.read addr size.toNat out).1 = .ok () ↔ ∀ i < size.toNat, m.Holds (addr.toNat + i)
  inside : ∀ copy ∈ m.copies size.toNat addr size.toNat,
    copy.2.1 + copy.2.2 ≤ copy.1.bytes.length

/-- A range of bytes of regions is a range of bytes of regions that end below 2^64. -/
def ReadRight (m : FakeMemory) (addr : GuestAddr) (size : U64) : Prop :=
  (∀ i < size.toNat, m.Holds (addr.toNat + i)) →
    ∀ i < size.toNat, ∃ r ∈ m.regions, r.Spans (addr.toNat + i) ∧
      r.base.toNat + r.bytes.length < 2 ^ 64

theorem byteMap_ne_none_iff (m : FakeMemory) (a : GuestAddr) :
    m.byteMap a ≠ none ↔ ∃ r ∈ m.regions, r.Spans a.toNat ∧
      r.base.toNat + r.bytes.length < 2 ^ 64 := by
  simp only [← FakeRegion.contains_iff]
  rw [byteMap, Ne, Option.map_eq_none_iff, hit, List.find?_eq_none]
  push Not
  exact Iff.rfl

theorem readLaw_iff (m : FakeMemory) (addr : GuestAddr) (size : U64) (out : Buf) :
    m.ReadLaw addr size out ↔ m.ReadRight addr size := by
  have hread : (m.read addr size.toNat out).1 = .ok () ↔
      ∀ i < size.toNat, m.byteMap (addr + BitVec.ofNat 64 i) ≠ none :=
    Chain.Level.fake_byteGranular.read_ok_iff addr out (Nat.le_of_lt size.isLt) (s := m) trivial
  have haddr := addr.isLt
  have hwithin (hall : ∀ i < size.toNat, m.byteMap (addr + BitVec.ofNat 64 i) ≠ none) :
      addr.toNat + size.toNat < 2 ^ 64 := by
    by_contra hwraps
    obtain ⟨r, _, ⟨_, hhigh, _⟩, hfits⟩ :=
      (m.byteMap_ne_none_iff _).mp (hall (2 ^ 64 - 1 - addr.toNat) (by omega))
    rw [BitVec.toNat_add, BitVec.toNat_ofNat] at hhigh
    omega
  have hbyte {i : Nat} (hi : addr.toNat + i < 2 ^ 64) :
      (addr + BitVec.ofNat 64 i).toNat = addr.toNat + i := by
    rw [BitVec.toNat_add, BitVec.toNat_ofNat]
    omega
  have hcontained (hok : (m.read addr size.toNat out).1 = .ok ()) {i : Nat} (hi : i < size.toNat) :
      ∃ r ∈ m.regions, r.Spans (addr.toNat + i) ∧ r.base.toNat + r.bytes.length < 2 ^ 64 := by
    have hall := hread.mp hok
    have htop := hwithin hall
    have hmapped := (m.byteMap_ne_none_iff _).mp (hall i hi)
    rwa [hbyte (by omega)] at hmapped
  constructor
  · intro h hall i hi
    exact hcontained (h.ok_iff.mpr hall) hi
  · intro hright
    refine ⟨⟨fun hok i hi => ?_, fun hall => hread.mpr fun i hi => ?_⟩,
      m.copies_inside size.toNat addr size.toNat⟩
    · obtain ⟨r, hr, hspans, _⟩ := hcontained hok hi
      exact ⟨r, hr, hspans⟩
    · obtain ⟨r, hr, hspans, hfits⟩ := hright hall i hi
      rw [m.byteMap_ne_none_iff, hbyte hspans.2.2]
      exact ⟨r, hr, hspans, hfits⟩

/-- The region sets that `add_region` makes. -/
inductive Built : FakeMemory → Prop where
  | empty : Built {}
  | add {m m' : FakeMemory} {r : FakeRegion} (h : Built m) (hadd : m.addRegion r = .ok m') :
    Built m'

theorem addRegion_error_iff (m : FakeMemory) (r : FakeRegion) :
    (∃ e, m.addRegion r = .error e) ↔
      r.bytes = [] ∨ ∃ q ∈ m.regions, r.overlaps q = true := by
  rw [← List.any_eq_true, addRegion]
  split
  next hempty => exact iff_of_true ⟨_, rfl⟩ (.inl hempty)
  next hnonempty =>
    split
    next hany => exact iff_of_true ⟨_, rfl⟩ (.inr hany)
    next hnone =>
      refine iff_of_false (by rintro ⟨e, he⟩; cases he) ?_
      rintro (hempty | hany)
      · exact hnonempty hempty
      · exact hnone hany

theorem mem_addRegion {m m' : FakeMemory} {r q : FakeRegion} (h : m.addRegion r = .ok m')
    (hq : q ∈ m'.regions) : q ∈ m.regions ∨ q = r ∧ r.bytes ≠ [] := by
  rw [addRegion] at h
  split at h
  next hempty => cases h
  next hnonempty =>
    split at h
    next hany => cases h
    next hnone =>
      cases h
      rw [List.mem_mergeSort, List.mem_append, List.mem_singleton] at hq
      exact hq.imp_right fun heq => ⟨heq, hnonempty⟩

theorem Built.nonempty {m : FakeMemory} (h : m.Built) : ∀ q ∈ m.regions, q.bytes ≠ [] := by
  induction h with
  | empty => exact fun q hq => absurd hq List.not_mem_nil
  | add _ hadd ih =>
      intro q hq
      rcases mem_addRegion hadd hq with hq | ⟨rfl, hr⟩
      · exact ih q hq
      · exact hr

/-- Besides the empty region exactly those that overlap a region there is or do not fit below 2^64
are refused. -/
def AddLaw (m : FakeMemory) (r : FakeRegion) : Prop :=
  (∃ e, m.addRegion r = .error e) ↔
    r.bytes = [] ∨ (∃ q ∈ m.regions, r.Meets q) ∨ 2 ^ 64 < r.base.toNat + r.bytes.length

/-- A region that is not empty is taken for one that overlaps, or it fits and overlaps none. -/
def AddRight (m : FakeMemory) (r : FakeRegion) : Prop :=
  r.bytes = [] ∨ (∃ q ∈ m.regions, r.overlaps q = true) ∨
    r.base.toNat + r.bytes.length ≤ 2 ^ 64 ∧ ∀ q ∈ m.regions, ¬ r.Meets q

theorem addLaw_iff {m : FakeMemory} (h : m.Built) (r : FakeRegion) :
    m.AddLaw r ↔ m.AddRight r := by
  rw [AddLaw, addRegion_error_iff, AddRight]
  by_cases hempty : r.bytes = []
  · exact iff_of_true (iff_of_true (.inl hempty) (.inl hempty)) (.inl hempty)
  by_cases hoverlaps : ∃ q ∈ m.regions, r.overlaps q = true
  · obtain ⟨q, hq, hwraps⟩ := hoverlaps
    have hmeets := FakeRegion.meets_of_overlaps hempty (h.nonempty q hq) hwraps
    exact iff_of_true (iff_of_true (.inr ⟨q, hq, hwraps⟩) (.inr (.inl ⟨q, hq, hmeets⟩)))
      (.inr (.inl ⟨q, hq, hwraps⟩))
  · simp only [false_iff, hempty, hoverlaps, false_or, not_or, Nat.not_lt]
    constructor
    · rintro ⟨hnone, hfits⟩
      exact ⟨hfits, fun q hq hmeets => hnone ⟨q, hq, hmeets⟩⟩
    · rintro ⟨hfits, hnone⟩
      exact ⟨fun ⟨q, hq, hmeets⟩ => hnone q hq hmeets, hfits⟩

/-- The test is right where every region ends below 2^64. -/
theorem addRight_of_below {m : FakeMemory} {r : FakeRegion}
    (hr : r.base.toNat + r.bytes.length < 2 ^ 64)
    (hm : ∀ q ∈ m.regions, q.base.toNat + q.bytes.length < 2 ^ 64) : m.AddRight r := by
  by_cases hmeets : ∃ q ∈ m.regions, r.Meets q
  · obtain ⟨q, hq, hmeets⟩ := hmeets
    exact .inr (.inl ⟨q, hq, FakeRegion.overlaps_of_meets hr (hm q hq) hmeets⟩)
  · exact .inr (.inr ⟨Nat.le_of_lt hr, fun q hq h => hmeets ⟨q, hq, h⟩⟩)

end FakeMemory

namespace Host

/-! ### The law -/

/-- Reads of images and of region sets, and additions to region sets, are as they should be exactly
under these conditions. -/
theorem ranges_checked_iff (p : PeImageProvider) (m : FakeMemory)
    (built : {m : FakeMemory // m.Built}) (addr : GuestAddr) (size : U64) (out : Buf)
    (r : FakeRegion) :
    (p.ReadLaw addr size out ↔ p.ReadRight addr size) ∧
      (m.ReadLaw addr size out ↔ m.ReadRight addr size) ∧
      (built.val.AddLaw r ↔ built.val.AddRight r) :=
  ⟨p.readLaw_iff addr size out, m.readLaw_iff addr size out,
    FakeMemory.addLaw_iff built.property r⟩

/-- An image of one page. -/
def pageImage : PeImageProvider where
  base := 0x140000000
  size := 0x1000
  data := ⟨0x1000, fun _ => 0⟩
  size_eq := rfl

/-- The page that the L2 cache fetches for the last addresses is read from far outside the
buffer. -/
theorem last_page_read : ¬ pageImage.ReadLaw 0xFFFFFFFFFFFFF000 0x1000 fun _ => 0 := by
  intro h
  have hread : (pageImage.read 0xFFFFFFFFFFFFF000 0x1000 fun _ => 0).1 = .ok () := rfl
  have hinside := h.inside hread 0 (by decide)
  exact absurd hinside (by decide)

end Host

end PicoCpu
