import PicoCpu.Host.PeLoader

/-!
Bounds of the PE loader. Every access of the loader either lies in its buffer or ends the run, so
a run that ends with an image or a status made none outside. What follows is when that is so: the
checked reads of headers, exports and imports never leave a buffer, while the sums that guard
sections and relocations can wrap, and some relocation bytes are not guarded at all.
-/

namespace PicoCpu

namespace Host

open Granule Settling

/-- The loader returned a status. -/
def LoadStop.Inside : LoadStop → Prop
  | .status _ => True
  | .outside _ _ _ => False

/-- Given enough iterations the loader ends, always the same way and with no access outside a
buffer. -/
def LoadsInside (file : Option Bytes) (forcedBase : GuestAddr) (out : PeLoadedImage) : Prop :=
  Settles LoadStop.Inside (fun fuel => peLoadFile fuel file forcedBase out) fun _ => True

section Access

variable {α β : Type} {b : Bytes} {off n : Nat} {Q : α → Prop}

@[simp]
theorem ends_stop {s : Status} : Ends LoadStop.Inside (Load.stop s : Load α) Q :=
  trivial

theorem ends_load {Q : Buf → Prop} :
    Ends LoadStop.Inside (b.load off n) Q ↔ off + n ≤ b.size ∧ Q fun i => b.data (off + i) := by
  unfold Bytes.load
  split
  · rename_i hle
    simp [hle]
  · rename_i hle
    simp [hle, LoadStop.Inside]

theorem ends_store {src : Buf} {Q : Bytes → Prop} :
    Ends LoadStop.Inside (b.store off n src) Q ↔
      off + n ≤ b.size ∧ Q { b with data := overwrite b.data off n src } := by
  unfold Bytes.store
  split
  · rename_i hle
    simp [hle]
  · rename_i hle
    simp [hle, LoadStop.Inside]

/-- A checked read makes no access outside: it is not made there. -/
theorem read_eq (fail : Load α) (next : Buf → Load α) :
    b.read off n fail next = if off + n ≤ b.size then next fun i => b.data (off + i) else fail := by
  unfold Bytes.read
  by_cases hle : off + n ≤ b.size
  · have hpass : ¬ (off > b.size ∨ b.size - off < n) := by omega
    rw [if_neg hpass, if_pos hle, Bytes.load, if_pos hle]
    exact value_bind _ _
  · have hstop : off > b.size ∨ b.size - off < n := by omega
    rw [if_pos hstop, if_neg hle]

theorem ends_read {E : LoadStop → Prop} {fail : Load α} {next : Buf → Load α}
    (hfail : Ends E fail Q) (hnext : ∀ v, Ends E (next v) Q) :
    Ends E (b.read off n fail next) Q := by
  rw [read_eq]
  split
  · exact hnext _
  · exact hfail

theorem ends_need {next : Buf → Load α} (hnext : ∀ v, Ends LoadStop.Inside (next v) Q) :
    Ends LoadStop.Inside (b.need off n next) Q :=
  ends_read ends_stop hnext

theorem settles_read {E : LoadStop → Prop} {fail : Nat → Load α} {k : Nat → Buf → Load α}
    (hfail : Settles E fail Q)
    (hnext : off + n ≤ b.size →
      Settles E (fun fuel => k fuel fun i => b.data (off + i)) Q) :
    Settles E (fun fuel => b.read off n (fail fuel) (k fuel)) Q := by
  simp only [read_eq]
  by_cases hle : off + n ≤ b.size
  · simp only [if_pos hle]
    exact hnext hle
  · simp only [if_neg hle]
    exact hfail

end Access

/-! ### Headers and sections -/

theorem ends_readHeaders (raw : Bytes) :
    Ends LoadStop.Inside (readHeaders raw) fun _ => True := by
  unfold readHeaders
  apply ends_need
  intro mz
  split
  · exact ends_stop
  apply ends_need
  intro lfanew
  apply ends_need
  intro sig
  split
  · exact ends_stop
  apply ends_need
  intro machine
  apply ends_need
  intro numSections
  apply ends_need
  intro optSize
  split
  · exact ends_stop
  apply ends_need
  intro optMagic
  split
  · exact ends_stop
  repeat
    apply ends_need
    intro _
  exact trivial

/-- The sizes the headers give pass the checks made of them. -/
structure Headers.Mapped (h : Headers) (raw : Bytes) : Prop where
  image : h.hdrSize.toNat ≤ h.sizeOfImage.toNat
  image_le : h.sizeOfImage.toNat ≤ 2 ^ 30
  file : h.hdrSize.toNat ≤ raw.size

/-- The image that holds the headers only. -/
def Headers.mapped (h : Headers) (raw : Bytes) : Bytes where
  size := h.sizeOfImage.toNat
  data := overwrite (fun _ => 0) 0 h.hdrSize.toNat fun i => raw.data (0 + i)

theorem ends_mapHeaders {raw : Bytes} {h : Headers} {Q : Bytes → Prop} :
    Ends LoadStop.Inside (mapHeaders raw h) Q ↔ (h.Mapped raw → Q (h.mapped raw)) := by
  unfold mapHeaders
  by_cases himage : h.sizeOfImage.ult h.hdrSize ∨ h.sizeOfImage.toNat > 2 ^ 30
  · rw [if_pos himage]
    simp only [ends_stop, true_iff]
    intro hmapped
    rw [BitVec.ult_iff_toNat_lt] at himage
    have hle := hmapped.image
    have hbound := hmapped.image_le
    omega
  · rw [if_neg himage]
    rw [BitVec.ult_iff_toNat_lt] at himage
    by_cases hfile : h.hdrSize.toNat > raw.size
    · rw [if_pos hfile]
      simp only [ends_stop, true_iff]
      intro hmapped
      exact absurd hmapped.file (by omega)
    · rw [if_neg hfile, ends_bind, ends_load, ends_store]
      have hmapped : h.Mapped raw := ⟨by omega, by omega, by omega⟩
      constructor
      · rintro ⟨_, _, hq⟩ _
        exact hq
      · intro hq
        exact ⟨by omega, by simpa using hmapped.image, hq hmapped⟩

/-- The check of the section's range in the file passes only when the range is in the file. -/
def SectionHeader.Fits (h : SectionHeader) (rawSize size : Nat) : Prop :=
  h.virtAddr.toNat < size → (h.rawPtr + h.copied size).toNat ≤ rawSize →
    h.rawPtr.toNat + (h.copied size).toNat ≤ rawSize

/-- The image with the section copied to it, when the checks let it through. -/
def SectionHeader.into (h : SectionHeader) (raw m : Bytes) : Bytes :=
  if h.virtAddr.toNat < m.size ∧ (h.rawPtr + h.copied m.size).toNat ≤ raw.size then
    { m with
      data := overwrite m.data h.virtAddr.toNat (h.copied m.size).toNat
        fun i => raw.data (h.rawPtr.toNat + i) }
  else m

@[simp]
theorem SectionHeader.size_into (h : SectionHeader) (raw m : Bytes) :
    (h.into raw m).size = m.size := by
  unfold SectionHeader.into
  split <;> rfl

theorem ite_ult_le (a b : U32) : (if a.ult b then a else b).toNat ≤ b.toNat := by
  split
  · rename_i hlt
    rw [BitVec.ult_iff_toNat_lt] at hlt
    exact Nat.le_of_lt hlt
  · exact Nat.le_refl _

/-- What is copied ends inside the image. -/
theorem SectionHeader.copied_le (h : SectionHeader) {size : Nat} (hsize : size ≤ 2 ^ 30)
    (haddr : h.virtAddr.toNat < size) :
    h.virtAddr.toNat + (h.copied size).toNat ≤ size := by
  have hfit : (BitVec.ofNat 32 (size - h.virtAddr.toNat)).toNat = size - h.virtAddr.toNat := by
    rw [BitVec.toNat_ofNat]
    exact Nat.mod_eq_of_lt (by omega)
  have hle : (h.copied size).toNat ≤ (BitVec.ofNat 32 (size - h.virtAddr.toNat)).toNat :=
    ite_ult_le _ _
  omega

theorem ends_copySection {raw m : Bytes} {h : SectionHeader} {Q : Bytes → Prop}
    (hsize : m.size ≤ 2 ^ 30) :
    Ends LoadStop.Inside (copySection raw m h) Q ↔
      h.Fits raw.size m.size ∧ Q (h.into raw m) := by
  unfold copySection SectionHeader.Fits SectionHeader.into
  by_cases haddr : h.virtAddr.toNat < m.size
  · by_cases hcheck : (h.rawPtr + h.copied m.size).toNat ≤ raw.size
    · have hdest := h.copied_le hsize haddr
      rw [if_neg (by omega), if_neg (by omega), if_pos ⟨haddr, hcheck⟩, ends_bind, ends_load,
        ends_store]
      constructor
      · rintro ⟨hsource, _, hq⟩
        exact ⟨fun _ _ => hsource, hq⟩
      · rintro ⟨hsource, hq⟩
        exact ⟨hsource haddr hcheck, hdest, hq⟩
    · rw [if_neg (by omega), if_pos (by omega), if_neg (by omega), ends_pure]
      exact ⟨fun hq => ⟨fun _ hpass => absurd hpass hcheck, hq⟩, And.right⟩
  · rw [if_pos (by omega), if_neg (by omega)]
    simp [haddr]

/-- The section header at the offset. -/
def sectionAt (raw : Bytes) (s : Nat) : SectionHeader where
  virtSize := u32At raw.data (s + 8)
  virtAddr := u32At raw.data (s + 12)
  rawSize := u32At raw.data (s + 16)
  rawPtr := u32At raw.data (s + 20)

/-- The fields read of the section header at index `i` are in the file. -/
def HeaderIn (raw : Bytes) (secTable i : Nat) : Prop := secTable + i * 40 + 24 ≤ raw.size

/-- The image with the first `k` sections copied to it. -/
def withSections (raw : Bytes) (secTable : Nat) (m : Bytes) : Nat → Bytes
  | 0 => m
  | k + 1 => (sectionAt raw (secTable + k * 40)).into raw (withSections raw secTable m k)

@[simp]
theorem size_withSections (raw : Bytes) (secTable : Nat) (m : Bytes) (k : Nat) :
    (withSections raw secTable m k).size = m.size := by
  induction k with
  | zero => rfl
  | succ k ih => rw [withSections, SectionHeader.size_into, ih]

theorem copySections_succ (raw : Bytes) (secTable left i : Nat) (m : Bytes) :
    copySections raw secTable (left + 1) i m =
      if secTable + i * 40 + 24 ≤ raw.size then
        copySection raw m (sectionAt raw (secTable + i * 40)) >>=
          copySections raw secTable left (i + 1)
      else Load.stop .internal := by
  simp only [copySections, Bytes.need, read_eq]
  by_cases hlast : secTable + i * 40 + 24 ≤ raw.size
  · rw [if_pos (by omega), if_pos (by omega), if_pos (by omega), if_pos (by omega), if_pos hlast]
    rfl
  · have hsame (a b c : Prop) [Decidable a] [Decidable b] [Decidable c] (p : Load Bytes) :
        (if a then if b then if c then if secTable + i * 40 + 20 + 4 ≤ raw.size then p
          else Load.stop .internal else Load.stop .internal else Load.stop .internal
          else Load.stop .internal) = Load.stop .internal := by
      rw [if_neg hlast]
      simp
    rw [hsame, if_neg hlast]

/-- The loop over the sections stays inside exactly when the sections it comes to fit. -/
theorem ends_copySections {raw m : Bytes} {secTable : Nat} {Q : Bytes → Prop}
    (hsize : m.size ≤ 2 ^ 30) (left i : Nat) :
    Ends LoadStop.Inside (copySections raw secTable left i (withSections raw secTable m i)) Q ↔
      (∀ k, i ≤ k → k < i + left → HeaderIn raw secTable k →
        (sectionAt raw (secTable + k * 40)).Fits raw.size m.size) ∧
      ((∀ k, i ≤ k → k < i + left → HeaderIn raw secTable k) →
        Q (withSections raw secTable m (i + left))) := by
  induction left generalizing i with
  | zero =>
      simp only [copySections, ends_pure, Nat.add_zero]
      constructor
      · intro hq
        exact ⟨fun k hik hki => absurd hik (by omega), fun _ => hq⟩
      · rintro ⟨_, hq⟩
        exact hq fun k hik hki => absurd hik (by omega)
  | succ left ih =>
      have hlast : i + 1 + left = i + (left + 1) := by omega
      rw [copySections_succ]
      by_cases hin : HeaderIn raw secTable i
      · have hread : secTable + i * 40 + 24 ≤ raw.size := hin
        have hbound : (withSections raw secTable m i).size ≤ 2 ^ 30 := by simpa using hsize
        have hnext := ih (i + 1)
        rw [withSections, hlast] at hnext
        rw [if_pos hread, ends_bind, ends_copySection hbound, hnext, size_withSections]
        constructor
        · rintro ⟨hfits, hrest, hq⟩
          refine ⟨fun k hik hki hk => ?_, fun hall => hq fun k hik hki => hall k (by omega) hki⟩
          rcases Nat.eq_or_lt_of_le hik with rfl | hlt
          · exact hfits
          · exact hrest k hlt hki hk
        · rintro ⟨hfits, hq⟩
          refine ⟨hfits i (Nat.le_refl i) (by omega) hin,
            fun k hik hki hk => hfits k (by omega) hki hk, fun hall => hq fun k hik hki => ?_⟩
          rcases Nat.eq_or_lt_of_le hik with rfl | hlt
          · exact hin
          · exact hall k hlt hki
      · have hnone (k : Nat) (hik : i ≤ k) : ¬ HeaderIn raw secTable k := by
          intro hk
          unfold HeaderIn at hk hin
          omega
        have hread : ¬ secTable + i * 40 + 24 ≤ raw.size := hin
        rw [if_neg hread]
        simp only [ends_stop, true_iff]
        exact ⟨fun k hik _ hk => absurd hk (hnone k hik),
          fun hall => absurd (hall i (Nat.le_refl i) (by omega)) hin⟩

/-! ### Relocations -/

/-- What an entry of a block relocates. -/
def entryTarget (m : Bytes) (pageRva : U32) (at_ : Nat) : U32 :=
  pageRva + (u16At m.data at_ &&& 0xFFF).setWidth 32

def entryType (m : Bytes) (at_ : Nat) : U16 := u16At m.data at_ >>> 12

/-- The entry is in the image, and the checks of its target pass only when the target is. -/
structure EntryFits (m : Bytes) (pageRva : U32) (at_ : Nat) : Prop where
  entry : at_ + 2 ≤ m.size
  dir64 : (entryTarget m pageRva at_ + 8).toNat ≤ m.size → entryType m at_ = 10 →
    (entryTarget m pageRva at_).toNat + 8 ≤ m.size
  highLow : (entryTarget m pageRva at_ + 8).toNat ≤ m.size → entryType m at_ = 3 →
    (entryTarget m pageRva at_ + 4).toNat ≤ m.size →
    (entryTarget m pageRva at_).toNat + 4 ≤ m.size

/-- The image with the entry's target relocated. -/
def fixEntry (delta : U64) (pageRva : U32) (at_ : Nat) (m : Bytes) : Bytes :=
  let target := entryTarget m pageRva at_
  if m.size < (target + 8).toNat then m
  else if entryType m at_ = 10 then
    { m with
      data := overwrite m.data target.toNat 8 (storeLE (u64At m.data target.toNat + delta)) }
  else if entryType m at_ = 3 then
    if m.size < (target + 4).toNat then m
    else
      { m with
        data := overwrite m.data target.toNat 4
          (storeLE ((u32At m.data target.toNat + delta.setWidth 32).setWidth 64)) }
  else m

@[simp]
theorem size_fixEntry (delta : U64) (pageRva : U32) (at_ : Nat) (m : Bytes) :
    (fixEntry delta pageRva at_ m).size = m.size := by
  unfold fixEntry
  dsimp only
  repeat' split
  all_goals rfl

theorem ends_relocEntry {delta : U64} {pageRva : U32} {at_ : Nat} {m : Bytes} {Q : Bytes → Prop} :
    Ends LoadStop.Inside (relocEntry delta pageRva at_ m) Q ↔
      EntryFits m pageRva at_ ∧ Q (fixEntry delta pageRva at_ m) := by
  have hload : Ends LoadStop.Inside (relocEntry delta pageRva at_ m) Q ↔ at_ + 2 ≤ m.size ∧
      Ends LoadStop.Inside
        (if (entryTarget m pageRva at_ + 8).toNat > m.size then (pure m : Load Bytes)
        else if entryType m at_ = 10 then do
          let v := u64At (← m.load (entryTarget m pageRva at_).toNat 8) 0
          m.store (entryTarget m pageRva at_).toNat 8 (storeLE (v + delta))
        else if entryType m at_ = 3 then
          if (entryTarget m pageRva at_ + 4).toNat > m.size then pure m
          else do
            let v := u32At (← m.load (entryTarget m pageRva at_).toNat 4) 0
            m.store (entryTarget m pageRva at_).toNat 4
              (storeLE ((v + delta.setWidth 32).setWidth 64))
        else pure m) Q := by
    rw [relocEntry, ends_bind, ends_load]
    exact Iff.rfl
  rw [hload]
  have hfits : EntryFits m pageRva at_ ↔ at_ + 2 ≤ m.size ∧
      ((entryTarget m pageRva at_ + 8).toNat ≤ m.size → entryType m at_ = 10 →
        (entryTarget m pageRva at_).toNat + 8 ≤ m.size) ∧
      ((entryTarget m pageRva at_ + 8).toNat ≤ m.size → entryType m at_ = 3 →
        (entryTarget m pageRva at_ + 4).toNat ≤ m.size →
        (entryTarget m pageRva at_).toNat + 4 ≤ m.size) :=
    ⟨fun h => ⟨h.entry, h.dir64, h.highLow⟩, fun h => ⟨h.1, h.2.1, h.2.2⟩⟩
  rw [hfits, and_assoc]
  apply and_congr_right
  intro _
  unfold fixEntry
  dsimp only
  by_cases hcheck : m.size < (entryTarget m pageRva at_ + 8).toNat
  · have hfail : ¬ (entryTarget m pageRva at_ + 8).toNat ≤ m.size := by omega
    rw [if_pos hcheck, if_pos hcheck, ends_pure]
    exact ⟨fun hq => ⟨⟨fun h => absurd h hfail, fun h => absurd h hfail⟩, hq⟩, And.right⟩
  have hpass : (entryTarget m pageRva at_ + 8).toNat ≤ m.size := by omega
  rw [if_neg hcheck, if_neg hcheck]
  by_cases h10 : entryType m at_ = 10
  · rw [if_pos h10, if_pos h10, ends_bind, ends_load, ends_store]
    constructor
    · rintro ⟨htarget, _, hq⟩
      refine ⟨⟨fun _ _ => htarget, fun _ h3 => ?_⟩, hq⟩
      rw [h10] at h3
      cases h3
    · rintro ⟨⟨htarget, _⟩, hq⟩
      exact ⟨htarget hpass h10, htarget hpass h10, hq⟩
  rw [if_neg h10, if_neg h10]
  by_cases h3 : entryType m at_ = 3
  · rw [if_pos h3, if_pos h3]
    by_cases hcheck4 : m.size < (entryTarget m pageRva at_ + 4).toNat
    · rw [if_pos hcheck4, if_pos hcheck4, ends_pure]
      exact ⟨fun hq => ⟨⟨fun _ h => absurd h h10, fun _ _ h => absurd h (by omega)⟩, hq⟩, And.right⟩
    · rw [if_neg hcheck4, if_neg hcheck4, ends_bind, ends_load, ends_store]
      constructor
      · rintro ⟨htarget, _, hq⟩
        exact ⟨⟨fun _ h => absurd h h10, fun _ _ _ => htarget⟩, hq⟩
      · rintro ⟨⟨_, htarget⟩, hq⟩
        have hin := htarget hpass h3 (by omega)
        exact ⟨hin, hin, hq⟩
  · rw [if_neg h3, if_neg h3, ends_pure]
    exact ⟨fun hq => ⟨⟨fun _ h => absurd h h10, fun _ h => absurd h h3⟩, hq⟩, And.right⟩

section Walk

variable (delta : U64) (relocEnd : U32)

/-- The image with the first `k` entries of the block at `cur` made. -/
def withEntries (pageRva cur : U32) (m : Bytes) : Nat → Bytes
  | 0 => m
  | k + 1 => fixEntry delta pageRva (cur.toNat + 8 + k * 2) (withEntries pageRva cur m k)

@[simp]
theorem size_withEntries (pageRva cur : U32) (m : Bytes) (k : Nat) :
    (withEntries delta pageRva cur m k).size = m.size := by
  induction k with
  | zero => rfl
  | succ k ih => rw [withEntries, size_fixEntry, ih]

theorem ends_relocEntries {pageRva cur : U32} {m : Bytes} {Q : Bytes → Prop} (left i : Nat) :
    Ends LoadStop.Inside
        (relocEntries delta pageRva cur left i (withEntries delta pageRva cur m i)) Q ↔
      (∀ k, i ≤ k → k < i + left →
        EntryFits (withEntries delta pageRva cur m k) pageRva (cur.toNat + 8 + k * 2)) ∧
      Q (withEntries delta pageRva cur m (i + left)) := by
  induction left generalizing i with
  | zero =>
      simp only [relocEntries, ends_pure, Nat.add_zero]
      exact ⟨fun hq => ⟨fun k hik hki => absurd hik (by omega), hq⟩, And.right⟩
  | succ left ih =>
      have hlast : i + 1 + left = i + (left + 1) := by omega
      have hnext := ih (i + 1)
      rw [withEntries, hlast] at hnext
      rw [relocEntries, ends_bind, ends_relocEntry, hnext]
      constructor
      · rintro ⟨hfits, hrest, hq⟩
        refine ⟨fun k hik hki => ?_, hq⟩
        rcases Nat.eq_or_lt_of_le hik with rfl | hlt
        · exact hfits
        · exact hrest k hlt hki
      · rintro ⟨hfits, hq⟩
        exact ⟨hfits i (Nat.le_refl i) (by omega), fun k hik hki => hfits k (by omega) hki, hq⟩

def blockPage (m : Bytes) (cur : U32) : U32 := u32At m.data cur.toNat

def blockSize (m : Bytes) (cur : U32) : U32 := u32At m.data (cur.toNat + 4)

def blockEntries (m : Bytes) (cur : U32) : Nat := ((blockSize m cur - 8) / 2).toNat

/-- The walk reads the header of the block at `cur`. -/
def Enters (m : Bytes) (cur : U32) : Prop :=
  (cur + 8).toNat ≤ relocEnd.toNat ∧ (cur + 4).toNat ≤ m.size

/-- The walk makes the entries of the block at `cur` and goes on to the next. -/
def Takes (m : Bytes) (cur : U32) : Prop :=
  Enters relocEnd m cur ∧ 8 ≤ (blockSize m cur).toNat ∧
    (cur + blockSize m cur).toNat ≤ relocEnd.toNat

/-- The image with the entries of the block at `cur` made. -/
def fixBlock (m : Bytes) (cur : U32) : Bytes :=
  withEntries delta (blockPage m cur) cur m (blockEntries m cur)

/-- The block at `cur` and the targets of its entries are in the image wherever the checks let
the walk use them. -/
structure BlockFits (m : Bytes) (cur : U32) : Prop where
  header : Enters relocEnd m cur → cur.toNat + 8 ≤ m.size
  entries : Takes relocEnd m cur → ∀ k < blockEntries m cur,
    EntryFits (withEntries delta (blockPage m cur) cur m k) (blockPage m cur)
      (cur.toNat + 8 + k * 2)

/-- The walk from the block at `start` comes to the block at an offset, with an image. -/
inductive Walks (start : U32) (m₀ : Bytes) : Bytes → U32 → Prop
  | start : Walks start m₀ m₀ start
  | next {m : Bytes} {cur : U32} : Walks start m₀ m cur → Takes relocEnd m cur →
      Walks start m₀ (fixBlock delta m cur) (cur + blockSize m cur)

variable {delta relocEnd}

theorem Walks.size_eq {start cur : U32} {m₀ m : Bytes} (h : Walks delta relocEnd start m₀ m cur) :
    m.size = m₀.size := by
  induction h with
  | start => rfl
  | next _ _ ih => rw [fixBlock, size_withEntries, ih]

/-- One turn of the walk, the number of iterations left being any function of those given. -/
theorem settles_relocBlocks {cur : U32} {m : Bytes} {Q : Bytes → Prop} (fuel : Nat → Nat) :
    Settles LoadStop.Inside (fun n => relocBlocks delta relocEnd (fuel n + 1) cur m) Q ↔
      BlockFits delta relocEnd m cur ∧ (¬ Takes relocEnd m cur → Q m) ∧
      (Takes relocEnd m cur → Settles LoadStop.Inside (fun n => relocBlocks delta relocEnd (fuel n)
        (cur + blockSize m cur) (fixBlock delta m cur)) Q) := by
  simp only [relocBlocks, BitVec.ult_iff_toNat_lt]
  by_cases hloop : relocEnd.toNat < (cur + 8).toNat
  · have henter : ¬ Enters relocEnd m cur := fun h => absurd h.1 (by omega)
    have htake : ¬ Takes relocEnd m cur := fun h => henter h.1
    simp only [if_pos hloop, settles_const, ends_pure]
    exact ⟨fun hq => ⟨⟨fun h => absurd h henter, fun h => absurd h htake⟩, fun _ => hq,
      fun h => absurd h htake⟩, fun h => h.2.1 htake⟩
  by_cases hheader : (cur + 4).toNat > m.size
  · have henter : ¬ Enters relocEnd m cur := fun h => absurd h.2 (by omega)
    have htake : ¬ Takes relocEnd m cur := fun h => henter h.1
    simp only [if_neg hloop, if_pos hheader, settles_const, ends_pure]
    exact ⟨fun hq => ⟨⟨fun h => absurd h henter, fun h => absurd h htake⟩, fun _ => hq,
      fun h => absurd h htake⟩, fun h => h.2.1 htake⟩
  have henter : Enters relocEnd m cur := ⟨by omega, by omega⟩
  simp only [if_neg hloop, if_neg hheader, settles_bind_iff, ends_load]
  have hsize : (u32At (fun i => m.data (cur.toNat + 4 + i)) 0) = blockSize m cur := rfl
  have hpage : (u32At (fun i => m.data (cur.toNat + 0 + i)) 0) = blockPage m cur := rfl
  rw [hsize, hpage]
  by_cases hbreak : (blockSize m cur).toNat < (8 : U32).toNat ∨
      relocEnd.toNat < (cur + blockSize m cur).toNat
  · have htake : ¬ Takes relocEnd m cur := by
      rintro ⟨_, hmin, hmax⟩
      rcases hbreak with h | h
      · exact absurd hmin (Nat.not_le_of_lt h)
      · omega
    simp only [if_pos hbreak, settles_const, ends_pure]
    constructor
    · rintro ⟨_, hlast, hq⟩
      exact ⟨⟨fun _ => hlast, fun h => absurd h htake⟩, fun _ => hq, fun h => absurd h htake⟩
    · rintro ⟨hfits, hq, _⟩
      have hlast := hfits.header henter
      exact ⟨by omega, by omega, hq htake⟩
  · have htake : Takes relocEnd m cur := by
      refine ⟨henter, Nat.le_of_not_lt fun h => hbreak (.inl h), by omega⟩
    have hentries := @ends_relocEntries delta (blockPage m cur) cur m
      (fun m' => Settles LoadStop.Inside (fun n => relocBlocks delta relocEnd (fuel n)
        (cur + blockSize m cur) m') Q) (blockEntries m cur) 0
    simp only [if_neg hbreak, settles_bind_iff]
    rw [Nat.zero_add] at hentries
    constructor
    · rintro ⟨_, hlast, hrest⟩
      obtain ⟨hfits, hq⟩ := hentries.mp hrest
      exact ⟨⟨fun _ => hlast, fun _ k hk => hfits k (Nat.zero_le k) hk⟩,
        fun h => absurd htake h, fun _ => hq⟩
    · rintro ⟨hfits, _, hq⟩
      have hlast := hfits.header henter
      exact ⟨by omega, by omega, hentries.mpr ⟨fun k _ hk => hfits.entries htake k hk, hq htake⟩⟩

theorem toNat_blockEntries {m : Bytes} {cur : U32} (h : 8 ≤ (blockSize m cur).toNat) :
    blockEntries m cur = ((blockSize m cur).toNat - 8) / 2 := by
  have hle : (8 : U32) ≤ blockSize m cur := h
  rw [blockEntries, BitVec.toNat_udiv, BitVec.toNat_sub_of_le hle]
  rfl

/-- A block that fits ends inside the address space, so the walk moves forward. -/
theorem BlockFits.advances {m : Bytes} {cur : U32} (h : BlockFits delta relocEnd m cur)
    (hsize : m.size ≤ 2 ^ 30) (htake : Takes relocEnd m cur) :
    (cur + blockSize m cur).toNat = cur.toNat + (blockSize m cur).toNat := by
  have hheader := h.header htake.1
  have hmin := htake.2.1
  have hcount := toNat_blockEntries hmin
  have hend : cur.toNat + 8 + blockEntries m cur * 2 ≤ m.size := by
    cases hentries : blockEntries m cur with
    | zero => omega
    | succ k =>
        have hlast := (h.entries htake k (by omega)).entry
        rw [size_withEntries] at hlast
        omega
  rw [BitVec.toNat_add]
  exact Nat.mod_eq_of_lt (by omega)

/-- When every block the walk comes to fits, the walk ends. -/
theorem settles_walk {start : U32} {m₀ : Bytes} (hsize : m₀.size ≤ 2 ^ 30)
    (hfits : ∀ m cur, Walks delta relocEnd start m₀ m cur → BlockFits delta relocEnd m cur)
    {m : Bytes} {cur : U32} (hwalk : Walks delta relocEnd start m₀ m cur) :
    Settles LoadStop.Inside (fun fuel => relocBlocks delta relocEnd fuel cur m)
      fun m' => m'.size = m₀.size := by
  induction hleft : 2 ^ 32 - cur.toNat using Nat.strongRecOn generalizing m cur with
  | _ left ih =>
      apply settles_succ fun fuel => rfl
      apply (settles_relocBlocks id).mpr
      refine ⟨hfits m cur hwalk, fun _ => hwalk.size_eq, fun htake => ?_⟩
      have hm : m.size ≤ 2 ^ 30 := hwalk.size_eq ▸ hsize
      have hadvance := (hfits m cur hwalk).advances hm htake
      have hmin := htake.2.1
      have hcur := cur.isLt
      exact ih _ (by omega) (hwalk.next htake) rfl

/-- A walk that ends inside the image came to blocks that fit only. -/
theorem fits_of_ends {start : U32} {m₀ : Bytes}
    (hends : ∃ n, ∀ fuel, n ≤ fuel →
      Ends LoadStop.Inside (relocBlocks delta relocEnd fuel start m₀) fun _ => True)
    {m : Bytes} {cur : U32} (hwalk : Walks delta relocEnd start m₀ m cur) :
    BlockFits delta relocEnd m cur := by
  have hturn {m : Bytes} {cur : U32} (hends : ∃ n, ∀ fuel, n ≤ fuel →
      Ends LoadStop.Inside (relocBlocks delta relocEnd fuel cur m) fun _ => True) :
      ∃ n, ∀ fuel, n ≤ fuel → BlockFits delta relocEnd m cur ∧ (Takes relocEnd m cur →
        Ends LoadStop.Inside
          (relocBlocks delta relocEnd fuel (cur + blockSize m cur) (fixBlock delta m cur))
          fun _ => True) := by
    obtain ⟨n, hn⟩ := hends
    refine ⟨n, fun fuel hfuel => ?_⟩
    obtain ⟨hfits, _, hnext⟩ :=
      (settles_relocBlocks fun _ => fuel).mp (settles_const.mpr (hn (fuel + 1) (by omega)))
    exact ⟨hfits, fun htake => settles_const.mp (hnext htake)⟩
  have hall : ∃ n, ∀ fuel, n ≤ fuel →
      Ends LoadStop.Inside (relocBlocks delta relocEnd fuel cur m) fun _ => True := by
    induction hwalk with
    | start => exact hends
    | next _ htake ih =>
        obtain ⟨n, hn⟩ := hturn ih
        exact ⟨n, fun fuel hfuel => (hn fuel hfuel).2 htake⟩
  obtain ⟨n, hn⟩ := hturn hall
  exact (hn n (Nat.le_refl n)).1

end Walk

/-! ### Exports and imports -/

section Tables

variable {E : LoadStop → Prop}

theorem ends_readName {m : Bytes} {rva : U32} {each : U8 → U8} (left : Nat) (j : U32)
    (name : List U8) :
    Ends E (readName m rva each left j name) fun _ => True := by
  induction left generalizing j name with
  | zero => exact trivial
  | succ left ih =>
      apply ends_read
      · exact trivial
      · intro c
        split
        · exact trivial
        · exact ih _ _

theorem ends_readExportRva {r : Bytes} {dir : DataDirectory} {eatIndex : U32} :
    Ends E (readExportRva r dir eatIndex) fun _ => True := by
  refine ends_read ?_ fun numFuncs => ?_
  · exact trivial
  refine ends_read ?_ fun funcsRva => ?_
  · exact trivial
  split
  · exact trivial
  · refine ends_read ?_ fun bytes => ?_
    · exact trivial
    dsimp only
    split <;> exact trivial

theorem ends_exportNames {m : Bytes} {dir : DataDirectory} {namesRva ordinalsRva : U32}
    (left : Nat) (i : U32) (exports : Exports) :
    Ends E (exportNames m dir namesRva ordinalsRva left i exports)
      fun _ => True := by
  induction left generalizing i exports with
  | zero => exact trivial
  | succ left ih =>
      refine ends_read ?_ fun nameRva => ?_
      · exact trivial
      refine ends_read ?_ fun ordinal => ?_
      · exact trivial
      apply ends_bind.mpr
      apply (ends_readName _ _ _).mono
      intro name _
      split
      · exact ih _ _
      · apply ends_bind.mpr
        apply ends_readExportRva.mono
        intro fnRva _
        exact ih _ _

theorem ends_exportField {m : Bytes} {off : U32} :
    Ends E (exportField m off) fun _ => True := by
  refine ends_read ?_ fun v => ?_
  · exact trivial
  exact trivial

theorem ends_parseExports (m : Bytes) (dir : DataDirectory) (exports : Exports) :
    Ends E (parseExports m dir exports) fun _ => True := by
  unfold parseExports
  split
  · apply ends_bind.mpr
    apply ends_exportField.mono
    intro numNames _
    apply ends_bind.mpr
    apply ends_exportField.mono
    intro namesRva _
    apply ends_bind.mpr
    apply ends_exportField.mono
    intro ordinalsRva _
    exact ends_exportNames _ _ _
  · exact trivial

/-- The next item of a table, after an item that is inside the image. -/
theorem toNat_add_inside (off : U32) {size n : Nat} (hsize : size ≤ 2 ^ 30)
    (hin : off.toNat + 4 ≤ size) (hn : n ≤ 20) :
    (off + BitVec.ofNat 32 n).toNat = off.toNat + n := by
  rw [BitVec.toNat_add, BitVec.toNat_ofNat]
  omega

/-- A thunk inside the image has a next one further on, so the list of thunks ends. -/
theorem settles_importThunks {m : Bytes} {dll : List U8} {base : U64} {namesArray iat : U32}
    (hsize : m.size ≤ 2 ^ 30) (i : U32) (imports : List PeImport) :
    Settles E
      (fun fuel => importThunks m dll base namesArray iat fuel i imports) fun _ => True := by
  induction hleft : m.size - (namesArray + i * 8).toNat using Nat.strongRecOn
    generalizing i imports with
  | _ left ih =>
      apply settles_succ fun fuel => rfl
      refine settles_read (settles_const.mpr ?_) fun hin => ?_
      · exact trivial
      have hnext (imports : List PeImport) : Settles E
          (fun fuel => importThunks m dll base namesArray iat fuel (i + 1) imports)
          fun _ => True := by
        have hadvance := toNat_add_inside (n := 8) (namesArray + i * 8) hsize (by omega) (by omega)
        have hoff : namesArray + (i + 1) * 8 = namesArray + i * 8 + BitVec.ofNat 32 8 := by
          rw [BitVec.add_mul, BitVec.add_assoc]
          rfl
        refine ih _ ?_ (i + 1) imports rfl
        rw [hoff, hadvance]
        omega
      by_cases hend : u64At (fun j => m.data ((namesArray + i * 8).toNat + j)) 0 = 0
      · simp only [if_pos hend]
        exact settles_const.mpr trivial
      by_cases hordinal :
          (u64At (fun j => m.data ((namesArray + i * 8).toNat + j)) 0).msb = true
      · simp only [if_neg hend, if_pos hordinal]
        exact hnext _
      · simp only [if_neg hend, if_neg hordinal]
        apply settles_bind_iff.mpr
        apply (ends_readName _ _ _).mono
        intro name _
        exact hnext _

theorem settles_importDescriptors {m : Bytes} {base : U64} {importRva : U32}
    (hsize : m.size ≤ 2 ^ 30) (d : U32) (imports : List PeImport) :
    Settles E (fun fuel => importDescriptors m base importRva fuel d imports)
      fun _ => True := by
  induction hleft : m.size - (importRva + d * 20).toNat using Nat.strongRecOn
    generalizing d imports with
  | _ left ih =>
      apply settles_succ fun fuel => rfl
      refine settles_read (settles_const.mpr ?_) fun hin => ?_
      · exact trivial
      refine settles_read (settles_const.mpr ?_) fun _ => ?_
      · exact trivial
      refine settles_read (settles_const.mpr ?_) fun _ => ?_
      · exact trivial
      have hnext (imports : List PeImport) : Settles E
          (fun fuel => importDescriptors m base importRva fuel (d + 1) imports)
          fun _ => True := by
        have hzero : importRva + d * 20 + 0 = importRva + d * 20 := BitVec.add_zero _
        rw [hzero] at hin
        have hadvance := toNat_add_inside (n := 20) (importRva + d * 20) hsize (by omega) (by omega)
        have hoff : importRva + (d + 1) * 20 = importRva + d * 20 + BitVec.ofNat 32 20 := by
          rw [BitVec.add_mul, BitVec.add_assoc]
          rfl
        refine ih _ ?_ (d + 1) imports rfl
        rw [hoff, hadvance]
        omega
      by_cases hend : u32At (fun j => m.data ((importRva + d * 20 + 0).toNat + j)) 0 = 0 ∧
          u32At (fun j => m.data ((importRva + d * 20 + 12).toNat + j)) 0 = 0 ∧
          u32At (fun j => m.data ((importRva + d * 20 + 16).toNat + j)) 0 = 0
      · simp only [if_pos hend]
        exact settles_const.mpr trivial
      · simp only [if_neg hend]
        apply settles_bind_iff.mpr
        apply (ends_readName _ _ _).mono
        intro dll _
        by_cases hempty : dll = []
        · simp only [if_pos hempty]
          exact hnext _
        · simp only [if_neg hempty]
          exact settles_bind (settles_importThunks hsize _ _) fun imports _ => hnext imports

theorem settles_parseImports {m : Bytes} (hsize : m.size ≤ 2 ^ 30) (dir : DataDirectory)
    (base : U64) (imports : List PeImport) :
    Settles E (fun fuel => parseImports fuel m dir base imports)
      fun _ => True := by
  unfold parseImports
  split
  · exact settles_importDescriptors hsize _ _
  · exact settles_const.mpr trivial

end Tables

/-! ### Files that are loaded inside the buffers -/

def chosenBase (h : Headers) (forcedBase : GuestAddr) : GuestAddr :=
  if forcedBase ≠ 0 then forcedBase else h.imageBase

/-- The image is loaded away from the base it prefers and has relocations. -/
def Headers.Relocates (h : Headers) (forcedBase : GuestAddr) : Prop :=
  h.relocDir.size ≠ 0 ∧ h.relocDir.rva ≠ 0 ∧ chosenBase h forcedBase - h.imageBase ≠ 0

/-- The image before it is relocated. -/
def Headers.image (h : Headers) (raw : Bytes) : Bytes :=
  withSections raw h.secTable (h.mapped raw) h.numSections.toNat

/-- The sections the loader comes to, and the relocation blocks if it comes to any, pass their
checks only where they and what they name are inside. -/
structure Headers.Fits (h : Headers) (raw : Bytes) (forcedBase : GuestAddr) : Prop where
  sections : ∀ k < h.numSections.toNat, HeaderIn raw h.secTable k →
    (sectionAt raw (h.secTable + k * 40)).Fits raw.size h.sizeOfImage.toNat
  relocs : (∀ k < h.numSections.toNat, HeaderIn raw h.secTable k) → h.Relocates forcedBase →
    ∀ m cur, Walks (chosenBase h forcedBase - h.imageBase) (h.relocDir.rva + h.relocDir.size)
      h.relocDir.rva (h.image raw) m cur →
    BlockFits (chosenBase h forcedBase - h.imageBase) (h.relocDir.rva + h.relocDir.size) m cur

/-- The file, when its headers are accepted, fits. -/
def FileFits (file : Option Bytes) (forcedBase : GuestAddr) : Prop :=
  ∀ raw ∈ file, 0x100 ≤ raw.size → ∀ h, readHeaders raw = pure h → h.Mapped raw →
    h.Fits raw forcedBase

/-- What follows the relocations settles on every image of the size, and keeps the image. -/
theorem settles_finishLoad {E : LoadStop → Prop} (h : Headers) {m : Bytes}
    (hsize : m.size ≤ 2 ^ 30) (base : GuestAddr) (out : PeLoadedImage) :
    Settles E (fun fuel => finishLoad fuel h m base out) fun img => img.mapped = m := by
  apply settles_bind_iff.mpr
  apply (ends_parseExports m h.exportDir out.exports).mono
  intro exports _
  apply settles_bind (settles_parseImports hsize h.importDir base out.imports)
  intro imports _
  exact settles_const.mpr rfl

theorem settles_applyRelocs {h : Headers} {m₀ : Bytes} {forcedBase : GuestAddr}
    (hsize : m₀.size ≤ 2 ^ 30) (out : PeLoadedImage) :
    Settles LoadStop.Inside (fun fuel => do
      let m ← applyRelocs fuel h.relocDir (chosenBase h forcedBase - h.imageBase) m₀
      finishLoad fuel h m (chosenBase h forcedBase) out) (fun _ => True) ↔
    (h.Relocates forcedBase → ∀ m cur,
      Walks (chosenBase h forcedBase - h.imageBase) (h.relocDir.rva + h.relocDir.size)
        h.relocDir.rva m₀ m cur →
      BlockFits (chosenBase h forcedBase - h.imageBase) (h.relocDir.rva + h.relocDir.size)
        m cur) := by
  unfold applyRelocs
  by_cases hrelocates : h.Relocates forcedBase
  · have hguard : h.relocDir.size ≠ 0 ∧ h.relocDir.rva ≠ 0 ∧
        chosenBase h forcedBase - h.imageBase ≠ 0 := hrelocates
    simp only [if_pos hguard]
    constructor
    · intro hsettles _ m cur hwalk
      exact fits_of_ends hsettles.first hwalk
    · intro hfits
      apply settles_bind (settles_walk hsize (hfits hrelocates) .start)
      intro m hm
      exact (settles_finishLoad h (hm ▸ hsize) _ _).mono fun _ _ => trivial
  · have hguard : ¬ (h.relocDir.size ≠ 0 ∧ h.relocDir.rva ≠ 0 ∧
        chosenBase h forcedBase - h.imageBase ≠ 0) := hrelocates
    simp only [if_neg hguard, value_bind]
    exact ⟨fun _ hr => absurd hr hrelocates,
      fun _ => (settles_finishLoad h hsize _ _).mono fun _ _ => trivial⟩

/-- Past the headers, the loader settles exactly when the sections and relocations fit. -/
theorem ends_sections_iff {h : Headers} {raw : Bytes} {forcedBase : GuestAddr}
    (hmapped : h.Mapped raw) (out : PeLoadedImage) :
    (Ends LoadStop.Inside (copySections raw h.secTable h.numSections.toNat 0 (h.mapped raw))
      fun m₀ => Settles LoadStop.Inside (fun fuel => do
        let m ← applyRelocs fuel h.relocDir (chosenBase h forcedBase - h.imageBase) m₀
        finishLoad fuel h m (chosenBase h forcedBase) out) fun _ => True) ↔
    h.Fits raw forcedBase := by
  have hsize : (h.mapped raw).size ≤ 2 ^ 30 := hmapped.image_le
  have himage : (h.image raw).size ≤ 2 ^ 30 := by
    rw [Headers.image, size_withSections]
    exact hsize
  have hsections := @ends_copySections raw (h.mapped raw) h.secTable
    (fun m₀ => Settles LoadStop.Inside (fun fuel => do
      let m ← applyRelocs fuel h.relocDir (chosenBase h forcedBase - h.imageBase) m₀
      finishLoad fuel h m (chosenBase h forcedBase) out) fun _ => True) hsize
    h.numSections.toNat 0
  rw [Nat.zero_add] at hsections
  rw [withSections] at hsections
  refine hsections.trans ⟨?_, ?_⟩
  · rintro ⟨hfits, hrest⟩
    refine ⟨fun k hk hin => hfits k (Nat.zero_le k) hk hin, fun hin => ?_⟩
    exact (settles_applyRelocs himage out).mp (hrest fun k _ hk => hin k hk)
  · rintro ⟨hfits, hrelocs⟩
    refine ⟨fun k _ hk hin => hfits k hk hin, fun hin => ?_⟩
    exact (settles_applyRelocs himage out).mpr (hrelocs fun k hk => hin k (Nat.zero_le k) hk)

/-- The loader ends and stays inside its buffers exactly on the files that fit. -/
theorem loadsInside_iff (file : Option Bytes) (forcedBase : GuestAddr) (out : PeLoadedImage) :
    LoadsInside file forcedBase out ↔ FileFits file forcedBase := by
  unfold LoadsInside FileFits
  cases file with
  | none =>
      simp only [peLoadFile, settles_const, ends_stop, true_iff]
      intro raw hraw
      cases hraw
  | some raw =>
      by_cases hshort : raw.size < 0x100
      · simp only [peLoadFile, if_pos hshort, settles_const, ends_stop, true_iff]
        intro raw' hraw hlong
        cases hraw
        exact absurd hshort (by omega)
      simp only [peLoadFile, if_neg hshort, settles_bind_iff]
      rw [ends_iff_of_ends (ends_readHeaders raw)]
      simp only [ends_mapHeaders]
      constructor
      · intro hall raw' hraw _ h hread hmapped
        cases hraw
        exact (ends_sections_iff hmapped out).mp (hall h hread hmapped)
      · intro hall h hread hmapped
        exact (ends_sections_iff hmapped out).mpr (hall raw rfl (by omega) h hread hmapped)

/-! ### A section past the file -/

/-- One section of two bytes, at 0xFFFFFFFF in a file of 0x170 bytes. -/
def wrappingFile : Bytes where
  size := 0x170
  data
    | 0x00 => 0x4D | 0x01 => 0x5A | 0x3C => 0x40 | 0x40 => 0x50 | 0x41 => 0x45
    | 0x44 => 0x64 | 0x45 => 0x86 | 0x46 => 1 | 0x54 => 0xF0 | 0x58 => 0x0B | 0x59 => 0x02
    | 0x91 => 0x10 | 0x150 => 2 | 0x158 => 2
    | 0x15C => 0xFF | 0x15D => 0xFF | 0x15E => 0xFF | 0x15F => 0xFF
    | _ => 0

/-- What the loader does before it relocates the image. -/
def mapSections (raw : Bytes) : Load Bytes := do
  let h ← readHeaders raw
  let m ← mapHeaders raw h
  copySections raw h.secTable h.numSections.toNat 0 m

theorem LoadsInside.sections {raw : Bytes} {forcedBase : GuestAddr} {out : PeLoadedImage}
    (h : LoadsInside (some raw) forcedBase out) (hlong : ¬ raw.size < 0x100) :
    Ends LoadStop.Inside (mapSections raw) fun _ => True := by
  simp only [LoadsInside, peLoadFile, if_neg hlong, settles_bind_iff] at h
  rw [mapSections, ends_bind]
  apply h.mono
  intro headers hmap
  rw [ends_bind]
  apply hmap.mono
  intro m hsections
  exact hsections.mono fun _ _ => trivial

theorem not_loadsInside_wrapping :
    ¬ LoadsInside (some wrappingFile) 0 ⟨0, 0, 0, ⟨0, fun _ => 0⟩, [], []⟩ := by
  intro h
  have hends := h.sections (by decide)
  have houtside : (mapSections wrappingFile).run.map (Except.map Bytes.size) =
      some (.error (.outside 0xFFFFFFFF 2 0x170)) := by
    decide +kernel
  rcases cases_result (mapSections wrappingFile) with hrun | ⟨e, hrun⟩ | ⟨m, hrun⟩
  · rw [hrun] at hends
    exact ends_spent hends
  · rw [hrun] at hends houtside
    cases houtside
    exact hends
  · rw [hrun] at houtside
    cases houtside

end Host

end PicoCpu
