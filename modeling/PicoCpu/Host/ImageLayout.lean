import PicoCpu.Host.ImageTables

/-!
The bytes of a loaded image that is not relocated: each is the one that the last section over it
has in the file, one of the headers where there is no section, and zero elsewhere.
-/

namespace PicoCpu

namespace Host

open Granule Settling

/-! ### Sections -/

namespace SectionHeader

variable (s : SectionHeader) (rawSize size a : Nat)

/-- How many bytes of the section an image of the size has room for. -/
def extent : Nat := min (min s.rawSize.toNat s.virtSize.toNat) (size - s.virtAddr.toNat)

/-- The address is in the section, and the section is in the file. -/
def Covers : Prop :=
  s.virtAddr.toNat ≤ a ∧ a < s.virtAddr.toNat + s.extent size ∧
    s.rawPtr.toNat + s.extent size ≤ rawSize

instance : Decidable (s.Covers rawSize size a) :=
  inferInstanceAs (Decidable (_ ∧ _ ∧ _))

variable {s rawSize size a}

theorem toNat_ite_ult (x y : U32) : (if x.ult y then x else y).toNat = min x.toNat y.toNat := by
  rw [BitVec.ult]
  split
  · rename_i hlt
    rw [decide_eq_true_eq] at hlt
    omega
  · rename_i hlt
    rw [decide_eq_true_eq] at hlt
    omega

theorem toNat_copied (hsize : size ≤ 2 ^ 30) (haddr : s.virtAddr.toNat < size) :
    (s.copied size).toNat = s.extent size := by
  have hfit : (BitVec.ofNat 32 (size - s.virtAddr.toNat)).toNat = size - s.virtAddr.toNat := by
    rw [BitVec.toNat_ofNat]
    exact Nat.mod_eq_of_lt (by omega)
  rw [copied, toNat_ite_ult, toNat_ite_ult, hfit, extent]

/-- A byte of the image with the section copied to it. -/
theorem data_into {raw m : Bytes} (hsize : m.size ≤ 2 ^ 30) (hfits : s.Fits raw.size m.size) :
    (s.into raw m).data a =
      if s.Covers raw.size m.size a then raw.data (s.rawPtr.toNat + (a - s.virtAddr.toNat))
      else m.data a := by
  unfold into
  by_cases haddr : s.virtAddr.toNat < m.size
  · have hcopied := toNat_copied hsize haddr
    by_cases hcheck : (s.rawPtr + s.copied m.size).toNat ≤ raw.size
    · have hinside := hfits haddr hcheck
      rw [if_pos ⟨haddr, hcheck⟩]
      simp only [overwrite, Covers, ← hcopied, hinside, and_true]
    · have houtside : ¬ s.rawPtr.toNat + (s.copied m.size).toNat ≤ raw.size := by
        intro hle
        rw [BitVec.toNat_add] at hcheck
        have hmod := Nat.mod_le (s.rawPtr.toNat + (s.copied m.size).toNat) (2 ^ 32)
        omega
      rw [if_neg fun h => hcheck h.2, if_neg]
      rw [Covers, ← hcopied]
      exact fun h => houtside h.2.2
  · rw [if_neg fun h => haddr h.1, if_neg]
    rintro ⟨hlow, hhigh, _⟩
    rw [extent] at hhigh
    omega

end SectionHeader

/-! ### The layout -/

/-- The section headers that the file header announces. -/
def Headers.sections (h : Headers) (raw : Bytes) : List SectionHeader :=
  (List.range h.numSections.toNat).map fun k => sectionAt raw (h.secTable + k * 40)

/-- The byte at an address of the image: of the last section that covers it, else of the
headers. -/
def Headers.layoutByte (h : Headers) (raw : Bytes) (a : Nat) : U8 :=
  match (h.sections raw).reverse.find? fun s => s.Covers raw.size h.sizeOfImage.toNat a with
  | some s => raw.data (s.rawPtr.toNat + (a - s.virtAddr.toNat))
  | none => if a < h.hdrSize.toNat then raw.data a else 0

section Layout

variable {raw m : Bytes} {h : Headers}

/-- Later sections are copied over earlier ones. -/
theorem data_withSections {secTable : Nat} (hsize : m.size ≤ 2 ^ 30) {k : Nat}
    (hfits : ∀ j < k, (sectionAt raw (secTable + j * 40)).Fits raw.size m.size) (a : Nat) :
    (withSections raw secTable m k).data a =
      ((((List.range k).map fun j => sectionAt raw (secTable + j * 40)).reverse.find?
        fun s => s.Covers raw.size m.size a).map fun s =>
          raw.data (s.rawPtr.toNat + (a - s.virtAddr.toNat))).getD (m.data a) := by
  induction k with
  | zero => rfl
  | succ k ih =>
      have hlast := hfits k (Nat.lt_succ_self k)
      rw [← size_withSections raw secTable m k] at hlast hsize
      rw [withSections, SectionHeader.data_into hsize hlast, size_withSections, List.range_succ,
        List.map_append, List.map_singleton, List.reverse_append, List.reverse_singleton,
        List.singleton_append]
      by_cases hcovers : (sectionAt raw (secTable + k * 40)).Covers raw.size m.size a
      · simp only [if_pos hcovers, List.find?_cons, decide_eq_true hcovers]
        rfl
      · simp only [if_neg hcovers, List.find?_cons, decide_eq_false hcovers]
        exact ih fun j hj => hfits j (Nat.lt_succ_of_lt hj)

/-- A loop over the sections that ends normally has copied them all, and from the file. -/
theorem copySections_withSections {secTable left : Nat} {m' : Bytes} (hsize : m.size ≤ 2 ^ 30)
    (hcopy : copySections raw secTable left 0 m = pure m') :
    (∀ k < left, (sectionAt raw (secTable + k * 40)).Fits raw.size m.size) ∧
      m' = withSections raw secTable m left := by
  have hends (Q : Bytes → Prop) := @ends_copySections raw m secTable Q hsize left 0
  simp only [withSections, hcopy, ends_pure, Nat.zero_add, Nat.zero_le, true_implies] at hends
  have hstop := mt (hends fun _ => False).mpr id
  have hin : ∀ k < left, HeaderIn raw secTable k := by
    by_contra hout
    exact hstop ⟨((hends fun _ => True).mp trivial).1, fun hall => hout hall⟩
  obtain ⟨hfits, hsame⟩ := (hends (m' = ·)).mp rfl
  exact ⟨fun k hk => hfits k hk (hin k hk), hsame hin⟩

/-- Every byte of an image that the loader returns and that is not relocated is the one of the
layout. -/
theorem loaded_layout (raw : Bytes) (h : Headers) (fuel : Nat) (forcedBase : GuestAddr)
    (out img : PeLoadedImage) (hread : readHeaders raw = pure h)
    (hload : peLoadFile fuel (some raw) forcedBase out = pure img)
    (hstays : ¬ h.Relocates forcedBase) (a : Nat) : img.mapped.data a = h.layoutByte raw a := by
  rw [peLoadFile] at hload
  split at hload
  · cases hload
  · rw [hread, value_bind] at hload
    obtain ⟨m₁, hmap, hload⟩ := bind_eq_pure hload
    obtain ⟨m₂, hcopy, hload⟩ := bind_eq_pure hload
    obtain ⟨m₃, hrelocs, hload⟩ := bind_eq_pure hload
    obtain ⟨exports, _, hload⟩ := bind_eq_pure hload
    obtain ⟨imports, _, hload⟩ := bind_eq_pure hload
    cases hload
    obtain ⟨hmapped, rfl⟩ := mapHeaders_mapped hmap
    have hsize : (h.mapped raw).size ≤ 2 ^ 30 := hmapped.image_le
    obtain ⟨hfits, rfl⟩ := copySections_withSections hsize hcopy
    have hkept : m₃ = withSections raw h.secTable (h.mapped raw) h.numSections.toNat := by
      have hguard : ¬ (h.relocDir.size ≠ 0 ∧ h.relocDir.rva ≠ 0 ∧
          chosenBase h forcedBase - h.imageBase ≠ 0) := hstays
      exact (load_inj ((if_neg hguard).symm.trans hrelocs)).symm
    have himage : (h.mapped raw).size = h.sizeOfImage.toNat := rfl
    change m₃.data a = _
    rw [hkept, data_withSections hsize hfits, himage, Headers.layoutByte, Headers.sections]
    cases (((List.range h.numSections.toNat).map fun j =>
        sectionAt raw (h.secTable + j * 40)).reverse.find?
          fun s => s.Covers raw.size h.sizeOfImage.toNat a) with
    | some s => rfl
    | none => simp [Headers.mapped, overwrite]

end Layout

/-! ### Overlapping sections -/

/-- A file of 0x200 bytes with two sections of four bytes, at 0x180 and 0x182 of the image, which
has room for two bytes of the second. -/
def overlappingFile : Bytes where
  size := 0x200
  data
    | 0x00 => 0x4D | 0x01 => 0x5A | 0x3C => 0x40 | 0x40 => 0x50 | 0x41 => 0x45
    | 0x44 => 0x64 | 0x45 => 0x86 | 0x46 => 2 | 0x54 => 0xA8 | 0x58 => 0x0B | 0x59 => 0x02
    | 0x72 => 1 | 0x90 => 0x84 | 0x91 => 0x01 | 0x94 => 0x50 | 0x95 => 0x01
    | 0x108 => 4 | 0x10C => 0x80 | 0x10D => 0x01 | 0x110 => 4 | 0x114 => 0xF0 | 0x115 => 0x01
    | 0x130 => 4 | 0x134 => 0x82 | 0x135 => 0x01 | 0x138 => 4 | 0x13C => 0xF8 | 0x13D => 0x01
    | 0x1F0 => 1 | 0x1F1 => 2 | 0x1F2 => 3 | 0x1F3 => 4
    | 0x1F8 => 9 | 0x1F9 => 8 | 0x1FA => 7 | 0x1FB => 6
    | _ => 0

def overlappingHeaders : Headers where
  entryRva := 0
  imageBase := 0x10000
  sizeOfImage := 0x184
  hdrSize := 0x150
  numSections := 2
  secTable := 0x100
  exportDir := ⟨0, 0⟩
  importDir := ⟨0, 0⟩
  relocDir := ⟨0, 0⟩

theorem loaded_layout_overlapping :
    ∃ img, peLoadFile 0 (some overlappingFile) 0 ⟨0, 0, 0, ⟨0, fun _ => 0⟩, [], []⟩ = pure img ∧
      (List.range 4).map (fun i => img.mapped.data (0x180 + i)) = [1, 2, 9, 8] := by
  have hload : peLoadFile 0 (some overlappingFile) 0 ⟨0, 0, 0, ⟨0, fun _ => 0⟩, [], []⟩ =
      pure ⟨0x10000, 0x184, 0, overlappingHeaders.image overlappingFile, [], []⟩ := rfl
  have hbyte (a : Nat) : (overlappingHeaders.image overlappingFile).data a =
      overlappingHeaders.layoutByte overlappingFile a :=
    loaded_layout overlappingFile overlappingHeaders 0 0 _ _ rfl hload (fun h => h.1 rfl) a
  refine ⟨_, hload, ?_⟩
  simp only [hbyte]
  decide

end Host

end PicoCpu
