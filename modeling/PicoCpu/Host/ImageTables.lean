import PicoCpu.Host.ImageAccess
import PicoCpu.Host.Relocations
import PicoCpu.Host.Served
import Mathlib.Algebra.Order.BigOperators.Group.List

/-!
The import and export tables of an image as they are laid out in it, and what the loader makes of
them: every import in its order with the address of its slot, and for every name the address that
the export table gives it.
-/

namespace PicoCpu

namespace Host

open Granule Settling

/-! ### Bytes in the image -/

/-- The bytes stand in the image from this address on. -/
structure Bytes.Has (m : Bytes) (off : Nat) (bs : List U8) : Prop where
  inside : off + bs.length ≤ m.size
  starts : Starts m.data off bs

namespace Bytes.Has

variable {α : Type} {m : Bytes} {off : Nat} {bs cs : List U8}

theorem append (h : m.Has off (bs ++ cs)) : m.Has off bs ∧ m.Has (off + bs.length) cs := by
  obtain ⟨hin, hstarts⟩ := h
  obtain ⟨hleft, hright⟩ := starts_append hstarts
  rw [List.length_append] at hin
  exact ⟨⟨by omega, hleft⟩, ⟨by omega, hright⟩⟩

theorem read {n : Nat} {fail : Load α} {next : Buf → Load α} (h : m.Has off bs)
    (hn : bs.length = n) : m.read off n fail next = next fun i => m.data (off + i) := by
  rw [read_eq, if_pos (hn ▸ h.inside)]

theorem shifted (h : m.Has off bs) : Starts (fun i => m.data (off + i)) 0 bs := by
  intro i hi
  simp only [Nat.zero_add]
  exact h.starts i hi

theorem u16 {v : U16} (h : m.Has off (le16 v)) : u16At (fun i => m.data (off + i)) 0 = v :=
  u16At_le16 h.shifted

theorem u32 {v : U32} (h : m.Has off (le32 v)) : u32At (fun i => m.data (off + i)) 0 = v :=
  u32At_le32 h.shifted

theorem u64 {v : U64} (h : m.Has off (le64 v)) : u64At (fun i => m.data (off + i)) 0 = v :=
  u64At_le64 h.shifted

end Bytes.Has

/-- An offset inside the image does not wrap. -/
theorem toNat_offset {rva : U32} {k : Nat} (h : rva.toNat + k < 2 ^ 32) :
    (rva + BitVec.ofNat 32 k).toNat = rva.toNat + k := by
  rw [BitVec.toNat_add, BitVec.toNat_ofNat]
  omega

theorem toNat_scaled {rva : U32} {k n : Nat} (h : rva.toNat + k * n < 2 ^ 32) :
    (rva + BitVec.ofNat 32 k * BitVec.ofNat 32 n).toNat = rva.toNat + k * n := by
  rw [← BitVec.ofNat_mul]
  exact toNat_offset h

/-- A table of items of one size. -/
theorem items_length {α : Type} {n : Nat} {l : List α} {enc : α → List U8}
    (h : ∀ a ∈ l, (enc a).length = n) : (l.flatMap enc).length = l.length * n := by
  rw [List.length_flatMap, List.map_congr_left h, List.map_const', List.sum_replicate]
  rfl

/-! ### Names -/

/-- A NUL-terminated name. -/
structure NameAt (m : Bytes) (rva : U32) (name : List U8) : Prop where
  has : m.Has rva.toNat (name ++ [0])
  present : name ≠ []
  nonzero : ∀ c ∈ name, c ≠ 0

section Tables

variable {m : Bytes}

/-- The loop has read the first `j` characters. -/
theorem readName_from {rva : U32} {name : List U8} (h : NameAt m rva name)
    (hsize : m.size ≤ 2 ^ 30) (each : U8 → U8) (left : Nat) {j : Nat} (hj : j ≤ name.length) :
    readName m rva each left (BitVec.ofNat 32 j) ((name.take j).map each) =
      pure ((name.take (j + left)).map each) := by
  have hin := h.has.inside
  rw [List.length_append, List.length_singleton] at hin
  induction left generalizing j with
  | zero => rfl
  | succ left ih =>
      have hbyte := h.has.starts j (by simp; omega)
      rw [readName, toNat_offset (by omega), read_eq, if_pos (by omega)]
      simp only [Nat.add_zero, hbyte]
      rcases Nat.lt_or_eq_of_le hj with hlt | rfl
      · have hnonzero := h.nonzero _ (List.getElem_mem hlt)
        rw [List.getElem_append_left hlt, if_neg hnonzero]
        have htake : (name.take j).map each ++ [each name[j]] = (name.take (j + 1)).map each := by
          rw [List.take_succ_eq_append_getElem hlt, List.map_append, List.map_singleton]
        have hnext : BitVec.ofNat 32 j + 1 = BitVec.ofNat 32 (j + 1) := (BitVec.ofNat_add j 1).symm
        rw [htake, hnext, ih hlt]
        congr 3
        omega
      · simp only [List.getElem_concat_length, if_true]
        rw [List.take_of_length_le (Nat.le_refl _), List.take_of_length_le (by omega)]

/-- The name is read back, up to the limit of the loop. -/
theorem readName_nameAt {rva : U32} {name : List U8} (h : NameAt m rva name)
    (hsize : m.size ≤ 2 ^ 30) (each : U8 → U8) (limit : Nat) :
    readName m rva each limit 0 [] = pure ((name.take limit).map each) := by
  have hread := readName_from h hsize each limit (Nat.zero_le _)
  rwa [List.take_zero, List.map_nil, Nat.zero_add] at hread

/-! ### Imports -/

/-- What an image imports from a library: a function by its ordinal or by its name, which stands
behind a hint. -/
inductive ImportRef where
  | ordinal (n : U16)
  | name (rva : U32) (hint : U16) (text : List U8)

namespace ImportRef

/-- The entry of the lookup table. -/
def thunk : ImportRef → U64
  | ordinal n => 0x8000000000000000 ||| n.setWidth 64
  | name rva _ _ => rva.setWidth 64

/-- The name that the import is bound by. -/
def bound : ImportRef → List U8
  | ordinal n => 0x23 :: (Nat.toDigits 10 n.toNat).map fun c => BitVec.ofNat 8 c.toNat
  | name _ _ text => text.take 128

def Laid (m : Bytes) : ImportRef → Prop
  | ordinal _ => True
  | name rva hint text => rva ≠ 0 ∧ m.Has rva.toNat (le16 hint) ∧ NameAt m (rva + 2) text

end ImportRef

/-- A descriptor of the import directory, with what it refers to. -/
structure ImportedDll where
  ilt : U32
  timeDateStamp : U32 := 0
  forwarderChain : U32 := 0
  nameRva : U32
  iat : U32
  dll : List U8
  refs : List ImportRef

namespace ImportedDll

def descriptor (d : ImportedDll) : List U8 :=
  le32 d.ilt ++ (le32 d.timeDateStamp ++ (le32 d.forwarderChain ++ (le32 d.nameRva ++ le32 d.iat)))

/-- Where the entries of the imports stand: in the lookup table, or in the IAT when there is
none. -/
def lookup (d : ImportedDll) : U32 := if d.ilt ≠ 0 then d.ilt else d.iat

structure Laid (m : Bytes) (d : ImportedDll) : Prop where
  used : ¬ (d.ilt = 0 ∧ d.nameRva = 0 ∧ d.iat = 0)
  name : NameAt m d.nameRva d.dll
  thunks : m.Has d.lookup.toNat (d.refs.flatMap (fun r => le64 r.thunk) ++ le64 0)
  refs : ∀ r ∈ d.refs, r.Laid m

/-- The imports of the library in an image at the base. -/
def imports (base : GuestAddr) (d : ImportedDll) : List PeImport :=
  d.refs.mapIdx fun i r =>
    ⟨(d.dll.take 64).map toLower, r.bound, base + d.iat.setWidth 64 + BitVec.ofNat 64 (i * 8)⟩

end ImportedDll

/-- An import directory: its descriptors, and one of zeros that ends them. -/
structure ImportTableAt (m : Bytes) (rva : U32) (t : List ImportedDll) : Prop where
  descriptors : m.Has rva.toNat (t.flatMap ImportedDll.descriptor ++ List.replicate 20 0)
  dlls : ∀ d ∈ t, d.Laid m

theorem ordinalName_thunk (n : U16) :
    ordinalName (ImportRef.ordinal n).thunk = (ImportRef.ordinal n).bound := by
  have hlow : ((ImportRef.ordinal n).thunk &&& 0xFFFF).toNat = n.toNat := by
    have hn := n.isLt
    have hmask : (0xFFFF : U64).toNat = 2 ^ 16 - 1 := rfl
    have htop : (0x8000000000000000 : U64).toNat % 2 ^ 16 = 0 := rfl
    rw [ImportRef.thunk, BitVec.toNat_and, hmask, Nat.and_two_pow_sub_one_eq_mod, BitVec.toNat_or,
      Nat.or_mod_two_pow, htop, Nat.zero_or, BitVec.toNat_setWidth]
    omega
  rw [ordinalName, hlow]
  rfl

theorem msb_ordinal (n : U16) : (ImportRef.ordinal n).thunk.msb = true := by
  rw [ImportRef.thunk, BitVec.msb_or]
  rfl

theorem msb_name (rva : U32) (hint : U16) (text : List U8) :
    (ImportRef.name rva hint text).thunk.msb = false := by
  rw [ImportRef.thunk, BitVec.msb_eq_decide, BitVec.toNat_setWidth]
  have hrva := rva.isLt
  simp
  omega

theorem thunk_ne_zero {r : ImportRef} (h : r.Laid m) : r.thunk ≠ 0 := by
  cases r with
  | ordinal n =>
      intro hzero
      have hmsb := msb_ordinal n
      rw [hzero] at hmsb
      cases hmsb
  | name rva hint text =>
      intro hzero
      apply h.1
      have hnat := congrArg BitVec.toNat hzero
      rw [ImportRef.thunk, BitVec.toNat_setWidth] at hnat
      apply BitVec.eq_of_toNat_eq
      have hrva := rva.isLt
      simp at hnat ⊢
      omega

/-- Where the hint and the name stand is read back from the entry. -/
theorem ibnRva_name {rva : U32} {hint : U16} {text : List U8} (h : rva.toNat < 2 ^ 31) :
    ((ImportRef.name rva hint text).thunk &&& 0x7FFFFFFF).setWidth 32 = rva := by
  have hmask : (0x7FFFFFFF : U64).toNat = 2 ^ 31 - 1 := rfl
  apply BitVec.eq_of_toNat_eq
  rw [BitVec.toNat_setWidth, BitVec.toNat_and, hmask, Nat.and_two_pow_sub_one_eq_mod,
    ImportRef.thunk, BitVec.toNat_setWidth]
  omega

theorem slot_address (base : U64) (iat : U32) {i : Nat} (h : i * 8 < 2 ^ 32) :
    base + iat.setWidth 64 + (BitVec.ofNat 32 i * 8).setWidth 64 =
      base + iat.setWidth 64 + BitVec.ofNat 64 (i * 8) := by
  congr 1
  apply BitVec.eq_of_toNat_eq
  have hmul : BitVec.ofNat 32 i * 8 = BitVec.ofNat 32 (i * 8) := (BitVec.ofNat_mul i 8).symm
  rw [hmul, BitVec.toNat_setWidth, BitVec.toNat_ofNat, BitVec.toNat_ofNat]
  omega

theorem take_ne_nil {name : List U8} {n : Nat} (h : name ≠ []) (hn : 0 < n) : name.take n ≠ [] := by
  rw [Ne, List.take_eq_nil_iff]
  rintro (hzero | hnil)
  · omega
  · exact h hnil

/-- The loop over the entries of a library, the next of them the one at index `k`. -/
theorem importThunks_from {dll : List U8} {base : U64} {names iat : U32}
    (hsize : m.size ≤ 2 ^ 30) {rest : List ImportRef} (hrest : ∀ r ∈ rest, r.Laid m) {k fuel : Nat}
    (h : m.Has (names.toNat + k * 8) (rest.flatMap (fun r => le64 r.thunk) ++ le64 0))
    (hfuel : rest.length < fuel) (imports : List PeImport) :
    importThunks m dll base names iat fuel (BitVec.ofNat 32 k) imports =
      pure (imports ++ rest.mapIdx fun i r =>
        ⟨dll, r.bound, base + iat.setWidth 64 + BitVec.ofNat 64 ((k + i) * 8)⟩) := by
  induction rest generalizing k fuel imports with
  | nil =>
      obtain ⟨fuel, rfl⟩ : ∃ n, fuel = n + 1 := ⟨fuel - 1, by simp at hfuel; omega⟩
      have hin := h.inside
      simp only [List.flatMap_nil, List.nil_append, le64_length] at h hin
      have hoff : (names + BitVec.ofNat 32 k * 8).toNat = names.toNat + k * 8 :=
        toNat_scaled (n := 8) (by omega)
      rw [importThunks, hoff, h.read (le64_length 0)]
      simp [h.u64]
  | cons r rest ih =>
      obtain ⟨fuel, rfl⟩ : ∃ n, fuel = n + 1 := ⟨fuel - 1, by omega⟩
      obtain ⟨hr, hothers⟩ := List.forall_mem_cons.mp hrest
      have hin := h.inside
      rw [List.flatMap_cons, List.append_assoc] at h
      rw [List.flatMap_cons, List.length_append, List.length_append, le64_length, le64_length] at hin
      obtain ⟨hthunk, hnext⟩ := h.append
      have hoff : (names + BitVec.ofNat 32 k * 8).toNat = names.toNat + k * 8 :=
        toNat_scaled (n := 8) (by omega)
      have hstep : names.toNat + k * 8 + (le64 r.thunk).length = names.toNat + (k + 1) * 8 := by
        rw [le64_length]
        omega
      rw [hstep] at hnext
      rw [List.length_cons] at hfuel
      have hindex : BitVec.ofNat 32 k + 1 = BitVec.ofNat 32 (k + 1) := (BitVec.ofNat_add k 1).symm
      rw [importThunks, hoff, hthunk.read (le64_length _)]
      simp only [hthunk.u64, if_neg (thunk_ne_zero hr), hindex,
        slot_address base iat (show k * 8 < 2 ^ 32 by omega)]
      have hlast (first : PeImport) :
          (imports ++ [first]) ++ rest.mapIdx (fun i r =>
            ⟨dll, r.bound, base + iat.setWidth 64 + BitVec.ofNat 64 ((k + 1 + i) * 8)⟩) =
          imports ++ (first :: rest.mapIdx fun i r =>
            ⟨dll, r.bound, base + iat.setWidth 64 + BitVec.ofNat 64 ((k + (i + 1)) * 8)⟩) := by
        simp only [List.append_assoc, List.singleton_append, Nat.add_assoc, Nat.add_comm 1]
      rw [List.mapIdx_cons, Nat.add_zero, ← hlast]
      cases r with
      | ordinal n =>
          rw [if_pos (msb_ordinal n), ordinalName_thunk]
          exact ih hothers hnext (by omega) _
      | name rva hint text =>
          obtain ⟨_, hhint, hname⟩ := hr
          have hrva : rva.toNat < 2 ^ 31 := by
            have hhint' := hhint.inside
            omega
          have htext : (text.take 128).map id ≠ [] := by
            rw [List.map_id]
            exact take_ne_nil hname.present (by omega)
          rw [if_neg (by simp [msb_name]), ibnRva_name hrva, readName_nameAt hname hsize, value_bind,
            if_neg htext, List.map_id]
          exact ih hothers hnext (by omega) _

theorem ImportedDll.Laid.importThunks {d : ImportedDll} (h : d.Laid m) (hsize : m.size ≤ 2 ^ 30)
    (base : U64) {fuel : Nat} (hfuel : d.refs.length < fuel) (imports : List PeImport) :
    Host.importThunks m ((d.dll.take 64).map toLower) base d.lookup d.iat fuel 0 imports =
      pure (imports ++ d.imports base) := by
  have hthunks : m.Has (d.lookup.toNat + 0 * 8)
      (d.refs.flatMap (fun r => le64 r.thunk) ++ le64 0) := by
    simpa using h.thunks
  have hread : Host.importThunks m ((d.dll.take 64).map toLower) base d.lookup d.iat fuel 0 imports =
      pure (imports ++ d.refs.mapIdx fun i r =>
        ⟨(d.dll.take 64).map toLower, r.bound,
          base + d.iat.setWidth 64 + BitVec.ofNat 64 ((0 + i) * 8)⟩) :=
    importThunks_from hsize h.refs hthunks hfuel imports
  simp only [Nat.zero_add] at hread
  exact hread

/-- The fields of a descriptor that the loader reads. -/
theorem descriptor_fields {off : Nat} {d : ImportedDll} (h : m.Has off d.descriptor) :
    m.Has off (le32 d.ilt) ∧ m.Has (off + 12) (le32 d.nameRva) ∧ m.Has (off + 16) (le32 d.iat) := by
  obtain ⟨hilt, h⟩ := h.append
  obtain ⟨_, h⟩ := h.append
  obtain ⟨_, h⟩ := h.append
  obtain ⟨hname, hiat⟩ := h.append
  exact ⟨hilt, hname, hiat⟩

/-- The loop reads a descriptor. -/
theorem importDescriptors_read {base : U64} {rva : U32} {d : ImportedDll} {k : Nat}
    (hsize : m.size ≤ 2 ^ 30) (h : m.Has (rva.toNat + k * 20) d.descriptor) (fuel : Nat)
    (imports : List PeImport) :
    importDescriptors m base rva (fuel + 1) (BitVec.ofNat 32 k) imports =
      if d.ilt = 0 ∧ d.nameRva = 0 ∧ d.iat = 0 then pure imports
      else readName m d.nameRva toLower 64 0 [] >>= fun dll =>
        if dll = [] then importDescriptors m base rva fuel (BitVec.ofNat 32 (k + 1)) imports
        else importThunks m dll base d.lookup d.iat fuel 0 imports >>= fun imports =>
          importDescriptors m base rva fuel (BitVec.ofNat 32 (k + 1)) imports := by
  have hin := h.inside
  have hlength : d.descriptor.length = 20 := rfl
  obtain ⟨hilt, hname, hiat⟩ := descriptor_fields h
  have hdesc : (rva + BitVec.ofNat 32 k * 20).toNat = rva.toNat + k * 20 :=
    toNat_scaled (n := 20) (by omega)
  have hoff {n : Nat} (hn : n ≤ 16) :
      (rva + BitVec.ofNat 32 k * 20 + BitVec.ofNat 32 n).toNat = rva.toNat + k * 20 + n := by
    rw [toNat_offset (by omega), hdesc]
  have hindex : BitVec.ofNat 32 k + 1 = BitVec.ofNat 32 (k + 1) := (BitVec.ofNat_add k 1).symm
  have hread₀ : (rva + BitVec.ofNat 32 k * 20 + 0).toNat = rva.toNat + k * 20 :=
    hoff (n := 0) (by omega)
  have hread₁₂ : (rva + BitVec.ofNat 32 k * 20 + 12).toNat = rva.toNat + k * 20 + 12 :=
    hoff (n := 12) (by omega)
  have hread₁₆ : (rva + BitVec.ofNat 32 k * 20 + 16).toNat = rva.toNat + k * 20 + 16 :=
    hoff (n := 16) (by omega)
  rw [importDescriptors, hread₀, hilt.read (le32_length _), hread₁₂, hname.read (le32_length _),
    hread₁₆, hiat.read (le32_length _)]
  simp only [hilt.u32, hname.u32, hiat.u32, hindex]
  rfl

/-- The loop over the descriptors, the next of them the one at index `k`. -/
theorem importDescriptors_from {base : U64} {rva : U32} (hsize : m.size ≤ 2 ^ 30)
    {rest : List ImportedDll} (hrest : ∀ d ∈ rest, d.Laid m) {k fuel : Nat}
    (h : m.Has (rva.toNat + k * 20)
      (rest.flatMap ImportedDll.descriptor ++ List.replicate 20 0))
    (hfuel : rest.length < fuel) (hrefs : ∀ d ∈ rest, d.refs.length + rest.length < fuel)
    (imports : List PeImport) :
    importDescriptors m base rva fuel (BitVec.ofNat 32 k) imports =
      pure (imports ++ rest.flatMap fun d => d.imports base) := by
  induction rest generalizing k fuel imports with
  | nil =>
      obtain ⟨fuel, rfl⟩ : ∃ n, fuel = n + 1 := ⟨fuel - 1, by simp at hfuel; omega⟩
      have hzeros : m.Has (rva.toNat + k * 20) (ImportedDll.descriptor ⟨0, 0, 0, 0, 0, [], []⟩) := h
      rw [importDescriptors_read hsize hzeros]
      simp
  | cons d rest ih =>
      obtain ⟨fuel, rfl⟩ : ∃ n, fuel = n + 1 := ⟨fuel - 1, by omega⟩
      obtain ⟨hd, hothers⟩ := List.forall_mem_cons.mp hrest
      obtain ⟨hdrefs, hothersRefs⟩ := List.forall_mem_cons.mp hrefs
      rw [List.flatMap_cons, List.append_assoc] at h
      obtain ⟨hdescriptor, hnext⟩ := h.append
      have hstep : rva.toNat + k * 20 + d.descriptor.length = rva.toNat + (k + 1) * 20 := by
        have hlength : d.descriptor.length = 20 := rfl
        omega
      rw [hstep] at hnext
      rw [List.length_cons] at hfuel hdrefs
      have hdll : (d.dll.take 64).map toLower ≠ [] := by
        rw [Ne, List.map_eq_nil_iff]
        exact take_ne_nil hd.name.present (by omega)
      rw [importDescriptors_read hsize hdescriptor, if_neg hd.used,
        readName_nameAt hd.name hsize, value_bind, if_neg hdll,
        hd.importThunks hsize base (by omega), value_bind, List.flatMap_cons, ← List.append_assoc]
      apply ih hothers hnext (by omega)
      intro d' hd'
      have hlonger := hothersRefs d' hd'
      rw [List.length_cons] at hlonger
      omega

/-- Given enough iterations, the loader reads an import table back: every import of it, in its
order. -/
theorem parseImports_table {dir : DataDirectory} {t : List ImportedDll} (hsize : m.size ≤ 2 ^ 30)
    (hdir : dir.size ≠ 0 ∧ dir.rva ≠ 0) (ht : ImportTableAt m dir.rva t) (base : U64)
    (imports : List PeImport) :
    ∃ n, ∀ fuel, n ≤ fuel → parseImports fuel m dir base imports =
      pure (imports ++ t.flatMap fun d => d.imports base) := by
  refine ⟨(t.map fun d => d.refs.length).sum + t.length + 1, fun fuel hfuel => ?_⟩
  rw [parseImports, if_pos hdir]
  apply importDescriptors_from (k := 0) hsize ht.dlls
  · simpa using ht.descriptors
  · omega
  · intro d hd
    have hle := List.single_le_sum (l := t.map fun d => d.refs.length) (by simp) _
      (List.mem_map_of_mem hd)
    omega

/-! ### Exports -/

/-- `pe_export_addr`: the address of an exported function, zero when the name is not found. -/
def peExportAddr (img : PeLoadedImage) (name : List U8) : GuestAddr :=
  match img.exports.find? fun e => e.1 = name with
  | none => 0
  | some e => img.base + e.2.setWidth 64

/-- An exported name, with the index of its function. -/
structure ExportedName where
  nameRva : U32
  name : List U8
  index : U16

/-- An export directory, with the tables it refers to. -/
structure ExportTable where
  characteristics : U32 := 0
  timeDateStamp : U32 := 0
  majorVersion : U16 := 0
  minorVersion : U16 := 0
  nameRva : U32 := 0
  ordinalBase : U32 := 0
  funcsRva : U32
  namesRva : U32
  ordinalsRva : U32
  funcs : List U32
  names : List ExportedName

namespace ExportTable

def directory (t : ExportTable) : List U8 :=
  le32 t.characteristics ++ (le32 t.timeDateStamp ++ (le16 t.majorVersion ++ (le16 t.minorVersion ++
    (le32 t.nameRva ++ (le32 t.ordinalBase ++ (le32 (BitVec.ofNat 32 t.funcs.length) ++
      (le32 (BitVec.ofNat 32 t.names.length) ++
        (le32 t.funcsRva ++ (le32 t.namesRva ++ le32 t.ordinalsRva)))))))))

structure Laid (m : Bytes) (rva : U32) (t : ExportTable) : Prop where
  directory : m.Has rva.toNat t.directory
  funcs : m.Has t.funcsRva.toNat (t.funcs.flatMap le32)
  names : m.Has t.namesRva.toNat (t.names.flatMap fun e => le32 e.nameRva)
  ordinals : m.Has t.ordinalsRva.toNat (t.names.flatMap fun e => le16 e.index)
  name : ∀ e ∈ t.names, NameAt m e.nameRva e.name

/-- The function at an index, zero when there is none or its RVA lies in the directory: that is
where the text of a forwarder stands. -/
def function (t : ExportTable) (dir : DataDirectory) (index : U16) : U32 :=
  match t.funcs[index.toNat]? with
  | none => 0
  | some rva => if dir.rva.ule rva ∧ rva.ult (dir.rva + dir.size) then 0 else rva

/-- The address of a name: that of the first function which is exported by the name and is in the
image itself. -/
def addrOf (t : ExportTable) (dir : DataDirectory) (base : GuestAddr) (name : List U8) :
    GuestAddr :=
  match t.names.find? fun e => e.name.take 256 = name ∧ t.function dir e.index ≠ 0 with
  | none => 0
  | some e => base + (t.function dir e.index).setWidth 64

end ExportTable

/-- One item of a table. -/
theorem Bytes.Has.item {α : Type} {off n : Nat} {l : List α} {enc : α → List U8}
    (hlength : ∀ a ∈ l, (enc a).length = n) (h : m.Has off (l.flatMap enc)) {i : Nat} {a : α}
    (hi : l[i]? = some a) : m.Has (off + i * n) (enc a) := by
  induction l generalizing off i with
  | nil => cases hi
  | cons b l ih =>
      obtain ⟨hb, hothers⟩ := List.forall_mem_cons.mp hlength
      rw [List.flatMap_cons] at h
      obtain ⟨hfirst, hrest⟩ := h.append
      cases i with
      | zero =>
          obtain rfl : b = a := Option.some.inj hi
          rwa [Nat.zero_mul, Nat.add_zero]
      | succ i =>
          have hitem := ih hothers hrest hi
          rw [hb] at hitem
          have hoff : off + n + i * n = off + (i + 1) * n := by
            rw [Nat.succ_mul]
            omega
          rwa [hoff] at hitem

/-- The fields of the directory that the loader reads. -/
theorem directory_fields {rva : U32} {t : ExportTable} (h : m.Has rva.toNat t.directory) :
    m.Has (rva.toNat + 0x14) (le32 (BitVec.ofNat 32 t.funcs.length)) ∧
      m.Has (rva.toNat + 0x18) (le32 (BitVec.ofNat 32 t.names.length)) ∧
      m.Has (rva.toNat + 0x1C) (le32 t.funcsRva) ∧ m.Has (rva.toNat + 0x20) (le32 t.namesRva) ∧
      m.Has (rva.toNat + 0x24) (le32 t.ordinalsRva) := by
  obtain ⟨_, h⟩ := h.append
  obtain ⟨_, h⟩ := h.append
  obtain ⟨_, h⟩ := h.append
  obtain ⟨_, h⟩ := h.append
  obtain ⟨_, h⟩ := h.append
  obtain ⟨_, h⟩ := h.append
  obtain ⟨hfuncs, h⟩ := h.append
  obtain ⟨hnames, h⟩ := h.append
  obtain ⟨hfuncsRva, h⟩ := h.append
  obtain ⟨hnamesRva, hordinalsRva⟩ := h.append
  exact ⟨hfuncs, hnames, hfuncsRva, hnamesRva, hordinalsRva⟩

/-- A field that is read back at its offset. -/
theorem exportField_directory {rva : U32} {k : Nat} {v : U32} (hsize : m.size ≤ 2 ^ 30)
    (h : m.Has (rva.toNat + k) (le32 v)) : exportField m (rva + BitVec.ofNat 32 k) = pure v := by
  have hin := h.inside
  rw [exportField, toNat_offset (by omega), h.read (le32_length v), h.u32]

theorem readExportRva_function {dir : DataDirectory} {t : ExportTable} (hsize : m.size ≤ 2 ^ 30)
    (h : t.Laid m dir.rva) (index : U16) :
    readExportRva m dir (index.setWidth 32) = pure (t.function dir index) := by
  obtain ⟨hfuncs, _, hfuncsRva, _, _⟩ := directory_fields h.directory
  have hin := hfuncsRva.inside
  have htable := h.funcs.inside
  rw [le32_length] at hin
  rw [items_length fun v _ => le32_length v] at htable
  have hoff₁ : (dir.rva + 0x14).toNat = dir.rva.toNat + 0x14 := toNat_offset (k := 0x14) (by omega)
  have hoff₂ : (dir.rva + 0x1C).toNat = dir.rva.toNat + 0x1C := toNat_offset (k := 0x1C) (by omega)
  rw [readExportRva, hoff₁, hfuncs.read (le32_length _), hoff₂, hfuncsRva.read (le32_length _)]
  simp only [hfuncs.u32, hfuncsRva.u32]
  have hindex : (index.setWidth 32).toNat = index.toNat := by
    rw [BitVec.toNat_setWidth]
    omega
  have hcount : (BitVec.ofNat 32 t.funcs.length).toNat = t.funcs.length := by
    rw [BitVec.toNat_ofNat]
    omega
  rw [ExportTable.function]
  cases hfunc : t.funcs[index.toNat]? with
  | none =>
      have hpast : (BitVec.ofNat 32 t.funcs.length).ule (index.setWidth 32) = true := by
        rw [BitVec.ule, decide_eq_true_eq, hcount, hindex]
        exact List.getElem?_eq_none_iff.mp hfunc
      rw [if_pos hpast]
  | some rva =>
      have hlt := (List.getElem?_eq_some_iff.mp hfunc).1
      have hbefore : ¬ (BitVec.ofNat 32 t.funcs.length).ule (index.setWidth 32) = true := by
        rw [BitVec.ule, decide_eq_true_eq, hcount, hindex]
        omega
      have hitem := h.funcs.item (fun v _ => le32_length v) hfunc
      have hoff : (t.funcsRva + 4 * index.setWidth 32).toNat =
          t.funcsRva.toNat + index.toNat * 4 := by
        have hscaled : (t.funcsRva + BitVec.ofNat 32 index.toNat * BitVec.ofNat 32 4).toNat =
            t.funcsRva.toNat + index.toNat * 4 := toNat_scaled (by omega)
        rw [BitVec.mul_comm]
        have hwidth : index.setWidth 32 = BitVec.ofNat 32 index.toNat := by
          apply BitVec.eq_of_toNat_eq
          rw [hindex, BitVec.toNat_ofNat]
          omega
        rw [hwidth]
        exact hscaled
      rw [if_neg hbefore, hoff, hitem.read (le32_length _)]
      simp only [hitem.u32]
      split
      · rfl
      · rfl

/-- What the loop adds for a name. -/
def addName (t : ExportTable) (dir : DataDirectory) (exports : Exports) (e : ExportedName) :
    Exports :=
  if t.function dir e.index ≠ 0 then
    exports.emplace (e.name.take 256) (t.function dir e.index)
  else exports

/-- The loop over the names, the next of them the one at index `k`. -/
theorem exportNames_from {dir : DataDirectory} {t : ExportTable} (hsize : m.size ≤ 2 ^ 30)
    (h : t.Laid m dir.rva) {rest : List ExportedName} {k : Nat} (hrest : t.names.drop k = rest)
    (exports : Exports) :
    exportNames m dir t.namesRva t.ordinalsRva rest.length (BitVec.ofNat 32 k) exports =
      pure (rest.foldl (addName t dir) exports) := by
  induction rest generalizing k exports with
  | nil => rfl
  | cons e rest ih =>
      have he : t.names[k]? = some e := by
        rw [← List.head?_drop, hrest, List.head?_cons]
      have hothers : t.names.drop (k + 1) = rest := by
        rw [← List.drop_drop, hrest, List.drop_one, List.tail_cons]
      have hmem := List.mem_of_getElem? he
      have hname := h.names.item (fun e _ => le32_length e.nameRva) he
      have hordinal := h.ordinals.item (fun e _ => le16_length e.index) he
      have hin₁ := hname.inside
      have hin₂ := hordinal.inside
      have hoff₁ : (t.namesRva + 4 * BitVec.ofNat 32 k).toNat = t.namesRva.toNat + k * 4 := by
        rw [BitVec.mul_comm]
        exact toNat_scaled (n := 4) (by omega)
      have hoff₂ : (t.ordinalsRva + 2 * BitVec.ofNat 32 k).toNat = t.ordinalsRva.toNat + k * 2 := by
        rw [BitVec.mul_comm]
        exact toNat_scaled (n := 2) (by omega)
      have hindex : BitVec.ofNat 32 k + 1 = BitVec.ofNat 32 (k + 1) := (BitVec.ofNat_add k 1).symm
      have hpresent : (e.name.take 256).map id ≠ [] := by
        rw [List.map_id]
        exact take_ne_nil (h.name e hmem).present (by omega)
      rw [List.length_cons, exportNames, hoff₁, hname.read (le32_length _), hoff₂,
        hordinal.read (le16_length _)]
      simp only [hname.u32, hordinal.u16]
      rw [readName_nameAt (h.name e hmem) hsize, value_bind, if_neg hpresent,
        readExportRva_function hsize h, value_bind, hindex, ih hothers, List.map_id,
        List.foldl_cons, addName]

theorem parseExports_table {dir : DataDirectory} {t : ExportTable} (hsize : m.size ≤ 2 ^ 30)
    (hdir : dir.size ≠ 0 ∧ dir.rva ≠ 0) (h : t.Laid m dir.rva) (exports : Exports) :
    parseExports m dir exports = pure (t.names.foldl (addName t dir) exports) := by
  obtain ⟨_, hnames, _, hnamesRva, hordinalsRva⟩ := directory_fields h.directory
  have htable := h.names.inside
  have hcount : (BitVec.ofNat 32 t.names.length).toNat = t.names.length := by
    rw [items_length fun e _ => le32_length e.nameRva] at htable
    rw [BitVec.toNat_ofNat]
    omega
  have hnumNames : exportField m (dir.rva + 0x18) = _ := exportField_directory hsize hnames
  have hnamesField : exportField m (dir.rva + 0x20) = _ := exportField_directory hsize hnamesRva
  have hordinals : exportField m (dir.rva + 0x24) = _ := exportField_directory hsize hordinalsRva
  rw [parseExports, if_pos hdir, hnumNames, value_bind, hnamesField, value_bind, hordinals,
    value_bind, hcount]
  exact exportNames_from (k := 0) hsize h rfl exports

theorem find_emplace (exports : Exports) (n name : List U8) (rva : U32) :
    ((exports.emplace n rva).find? fun e => e.1 = name) =
      (exports.find? fun e => e.1 = name).or (if n = name then some (name, rva) else none) := by
  unfold Exports.emplace
  by_cases hn : n = name
  · subst hn
    split
    · rename_i hany
      obtain ⟨e, he, hname⟩ := List.any_eq_true.mp hany
      have hsome : (exports.find? fun e => e.1 = n).isSome = true :=
        List.find?_isSome.mpr ⟨e, he, hname⟩
      obtain ⟨e', he'⟩ := Option.isSome_iff_exists.mp hsome
      simp [he']
    · simp
  · rw [if_neg hn, Option.or_none]
    split
    · rfl
    · simp [hn]

/-- A name is found under the first function that was added for it. -/
theorem find_addName (t : ExportTable) (dir : DataDirectory) (name : List U8)
    (names : List ExportedName) (exports : Exports) :
    ((names.foldl (addName t dir) exports).find? fun e => e.1 = name) =
      (exports.find? fun e => e.1 = name).or
        ((names.find? fun e => e.name.take 256 = name ∧ t.function dir e.index ≠ 0).map fun e =>
          (name, t.function dir e.index)) := by
  induction names generalizing exports with
  | nil => simp
  | cons e names ih =>
      rw [List.foldl_cons, ih, addName]
      by_cases hfunction : t.function dir e.index = 0
      · simp [hfunction]
      · rw [if_pos hfunction, find_emplace, Option.or_assoc]
        by_cases hname : e.name.take 256 = name
        · have hfirst : (e :: names).find? (fun e => e.name.take 256 = name ∧
              t.function dir e.index ≠ 0) = some e :=
            List.find?_cons_of_pos (decide_eq_true ⟨hname, hfunction⟩)
          rw [hfirst, if_pos hname, Option.map_some, Option.some_or]
        · have hlater : (e :: names).find? (fun e => e.name.take 256 = name ∧
              t.function dir e.index ≠ 0) = names.find? (fun e => e.name.take 256 = name ∧
              t.function dir e.index ≠ 0) :=
            List.find?_cons_of_neg (by simp [hname])
          rw [hlater, if_neg hname, Option.none_or]

/-! ### Loaded images -/

/-- What the loader returns, when it returns. -/
theorem bind_eq_pure {α β : Type} {p : Load α} {f : α → Load β} {b : β} (h : p >>= f = pure b) :
    ∃ a, p = pure a ∧ f a = pure b := by
  rcases cases_result p with rfl | ⟨e, rfl⟩ | ⟨a, rfl⟩
  · cases h
  · cases h
  · exact ⟨a, rfl, h⟩

theorem load_inj {α : Type} {a b : α} (h : (pure a : Load α) = pure b) : a = b :=
  Except.ok.inj (Option.some.inj h)

/-- The image that the header bytes were copied to. -/
theorem mapHeaders_mapped {raw mapped : Bytes} {h : Headers} (hmap : mapHeaders raw h = pure mapped) :
    h.Mapped raw ∧ mapped = h.mapped raw := by
  have hends (Q : Bytes → Prop) : Q mapped ↔ (h.Mapped raw → Q (h.mapped raw)) := by
    have hiff := @ends_mapHeaders raw h Q
    rw [hmap, ends_pure] at hiff
    exact hiff
  exact ⟨(hends fun _ => h.Mapped raw).mpr id, (hends (· = h.mapped raw)).mpr fun _ => rfl⟩

/-- The tables are read from the image that is returned. -/
structure Finished (fuel : Nat) (h : Headers) (out img : PeLoadedImage) : Prop where
  size_le : img.mapped.size ≤ 2 ^ 30
  exports : parseExports img.mapped h.exportDir out.exports = pure img.exports
  imports : parseImports fuel img.mapped h.importDir img.base out.imports = pure img.imports

theorem finished_of_peLoadFile {fuel : Nat} {raw : Bytes} {h : Headers} {forcedBase : GuestAddr}
    {out img : PeLoadedImage} (hread : readHeaders raw = pure h)
    (hload : peLoadFile fuel (some raw) forcedBase out = pure img) : Finished fuel h out img := by
  have hsize := size_peLoadFile fuel (some raw) forcedBase out img hload
  rw [peLoadFile] at hload
  split at hload
  · cases hload
  · rw [hread, value_bind] at hload
    obtain ⟨m₁, hmap, hload⟩ := bind_eq_pure hload
    obtain ⟨m₂, _, hload⟩ := bind_eq_pure hload
    obtain ⟨m₃, _, hload⟩ := bind_eq_pure hload
    obtain ⟨exports, hexports, hload⟩ := bind_eq_pure hload
    obtain ⟨imports, himports, hload⟩ := bind_eq_pure hload
    cases hload
    have hle := (mapHeaders_mapped hmap).1.image_le
    refine ⟨?_, hexports, himports⟩
    rw [hsize, BitVec.toNat_setWidth]
    exact (Nat.mod_le _ _).trans hle

/-- An image that the loader returns has every import of its import table, in the order of the
table, with the address of the slot in the IAT. -/
theorem loaded_imports (raw : Bytes) (h : Headers) (forcedBase : GuestAddr)
    (out img : PeLoadedImage) (t : List ImportedDll) (hread : readHeaders raw = pure h)
    (hload : ∃ n, ∀ fuel, n ≤ fuel → peLoadFile fuel (some raw) forcedBase out = pure img)
    (hdir : h.importDir.size ≠ 0 ∧ h.importDir.rva ≠ 0)
    (ht : ImportTableAt img.mapped h.importDir.rva t) :
    img.imports = out.imports ++ t.flatMap fun d => d.imports img.base := by
  obtain ⟨n, hn⟩ := hload
  have hsize := (finished_of_peLoadFile hread (hn n (Nat.le_refl n))).size_le
  obtain ⟨k, hk⟩ := parseImports_table hsize hdir ht img.base out.imports
  have hfinished := finished_of_peLoadFile hread (hn (max n k) (Nat.le_max_left n k))
  exact load_inj (hfinished.imports.symm.trans (hk (max n k) (Nat.le_max_right n k)))

end Tables

/-! ### A file with both tables -/

instance (buf : Buf) (off : Nat) (bs : List U8) : Decidable (Starts buf off bs) :=
  inferInstanceAs (Decidable (∀ i (h : i < bs.length), buf (off + i) = bs[i]))

instance (m : Bytes) (off : Nat) (bs : List U8) : Decidable (m.Has off bs) :=
  decidable_of_iff (off + bs.length ≤ m.size ∧ Starts m.data off bs)
    ⟨fun h => ⟨h.1, h.2⟩, fun h => ⟨h.inside, h.starts⟩⟩

instance (m : Bytes) (rva : U32) (name : List U8) : Decidable (NameAt m rva name) :=
  decidable_of_iff (m.Has rva.toNat (name ++ [0]) ∧ name ≠ [] ∧ ∀ c ∈ name, c ≠ 0)
    ⟨fun h => ⟨h.1, h.2.1, h.2.2⟩, fun h => ⟨h.has, h.present, h.nonzero⟩⟩

/-- A file of 0x200 bytes, all of them headers: it imports the function `f` and the ordinal 7 from
`K` and exports `g`, and `h` as a forwarder. -/
def tablesFile : Bytes where
  size := 0x200
  data
    | 0x00 => 0x4D | 0x01 => 0x5A | 0x3C => 0x40 | 0x40 => 0x50 | 0x41 => 0x45
    | 0x44 => 0x64 | 0x45 => 0x86 | 0x58 => 0x0B | 0x59 => 0x02 | 0x72 => 1
    | 0x91 => 0x02 | 0x95 => 0x02
    | 0xC8 => 0xA0 | 0xC9 => 0x01 | 0xCC => 0x60 | 0xD0 => 0x50 | 0xD1 => 0x01 | 0xD4 => 0x28
    | 0x15C => 0x78 | 0x15D => 0x01 | 0x160 => 0x80 | 0x161 => 0x01
    | 0x178 => 0x4B | 0x180 => 0x98 | 0x181 => 0x01 | 0x188 => 7 | 0x18F => 0x80 | 0x19A => 0x66
    | 0x1B4 => 2 | 0x1B8 => 2 | 0x1BC => 0xC8 | 0x1BD => 0x01
    | 0x1C0 => 0xD0 | 0x1C1 => 0x01 | 0x1C4 => 0xD8 | 0x1C5 => 0x01
    | 0x1C9 => 0x10 | 0x1CC => 0xA4 | 0x1CD => 0x01
    | 0x1D0 => 0xDC | 0x1D1 => 0x01 | 0x1D4 => 0xDE | 0x1D5 => 0x01 | 0x1DA => 1
    | 0x1DC => 0x67 | 0x1DE => 0x68
    | _ => 0

def tablesHeaders : Headers where
  entryRva := 0
  imageBase := 0x10000
  sizeOfImage := 0x200
  hdrSize := 0x200
  numSections := 0
  secTable := 0x58
  exportDir := ⟨0x1A0, 0x60⟩
  importDir := ⟨0x150, 0x28⟩
  relocDir := ⟨0, 0⟩

def tablesImports : List ImportedDll :=
  [{ ilt := 0, nameRva := 0x178, iat := 0x180, dll := [0x4B]
     refs := [.name 0x198 0 [0x66], .ordinal 7] }]

def tablesExports : ExportTable where
  funcsRva := 0x1C8
  namesRva := 0x1D0
  ordinalsRva := 0x1D8
  funcs := [0x1000, 0x1A4]
  names := [⟨0x1DC, [0x67], 0⟩, ⟨0x1DE, [0x68], 1⟩]

theorem importTableAt_tablesFile :
    ImportTableAt (tablesHeaders.mapped tablesFile) 0x150 tablesImports where
  descriptors := by decide
  dlls := by
    intro d hd
    obtain rfl := List.mem_singleton.mp hd
    refine ⟨by decide, by decide, by decide, ?_⟩
    intro r hr
    rcases List.mem_cons.mp hr with rfl | hr
    · exact ⟨by decide, by decide, by decide⟩
    · obtain rfl := List.mem_singleton.mp hr
      exact trivial

theorem laid_tablesFile : tablesExports.Laid (tablesHeaders.mapped tablesFile) 0x1A0 where
  directory := by decide
  funcs := by decide
  names := by decide
  ordinals := by decide
  name := by decide

/-- The loader returns the image of the file. -/
theorem peLoadFile_tablesFile :
    ∃ img, img.mapped = tablesHeaders.mapped tablesFile ∧ img.base = 0x10000 ∧
      ∃ n, ∀ fuel, n ≤ fuel →
        peLoadFile fuel (some tablesFile) 0 ⟨0, 0, 0, ⟨0, fun _ => 0⟩, [], []⟩ = pure img := by
  have hsame (fuel : Nat) :
      peLoadFile fuel (some tablesFile) 0 ⟨0, 0, 0, ⟨0, fun _ => 0⟩, [], []⟩ =
        finishLoad fuel tablesHeaders (tablesHeaders.mapped tablesFile) 0x10000
          ⟨0, 0, 0, ⟨0, fun _ => 0⟩, [], []⟩ := rfl
  have hsettles := settles_finishLoad (E := fun _ => False) tablesHeaders
    (m := tablesHeaders.mapped tablesFile) (by decide) 0x10000 ⟨0, 0, 0, ⟨0, fun _ => 0⟩, [], []⟩
  obtain ⟨img, hmapped, n, hn⟩ := hsettles.returns
  refine ⟨img, hmapped, ?_, n, fun fuel hfuel => (hsame fuel).trans (hn fuel hfuel)⟩
  obtain ⟨_, _, hload⟩ := bind_eq_pure (hn n (Nat.le_refl n))
  obtain ⟨_, _, hload⟩ := bind_eq_pure hload
  exact (congrArg PeLoadedImage.base (load_inj hload)).symm

theorem loaded_imports_tablesFile :
    ∃ img, (∃ n, ∀ fuel, n ≤ fuel →
        peLoadFile fuel (some tablesFile) 0 ⟨0, 0, 0, ⟨0, fun _ => 0⟩, [], []⟩ = pure img) ∧
      img.imports = [] ++ tablesImports.flatMap fun d => d.imports img.base := by
  obtain ⟨img, hmapped, _, hload⟩ := peLoadFile_tablesFile
  exact ⟨img, hload, loaded_imports tablesFile tablesHeaders 0 _ img tablesImports rfl hload
    (by decide) (hmapped ▸ importTableAt_tablesFile)⟩

end Host

end PicoCpu
