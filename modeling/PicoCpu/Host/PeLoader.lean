import PicoCpu.Host.PeImage
import PicoCpu.Lib.Settling

/-!
The PE loader: the file is read into memory, its headers and sections are copied into the mapped
image, base relocations are applied to the image, and its export and import tables are parsed.
-/

namespace PicoCpu

namespace Host

open Granule

/-! ### Buffers -/

/-- `std::vector<u8>`: a size and the bytes. -/
structure Bytes where
  size : Nat
  data : Buf

/-- What ends the loader early: the status it returns, or an access of `n` bytes that does not
lie inside a buffer of `size` bytes. -/
inductive LoadStop
  | status (s : Status)
  | outside (off n size : Nat)
  deriving DecidableEq

/-- The loader's steps. -/
abbrev Load := ExceptT LoadStop Option

namespace Load

def stop {α : Type} (s : Status) : Load α := throw (.status s)

end Load

namespace Bytes

/-- `memcpy` out of the buffer. -/
def load (b : Bytes) (off n : Nat) : Load Buf :=
  if off + n ≤ b.size then pure fun i => b.data (off + i)
  else throw (.outside off n b.size)

/-- `memcpy` into the buffer. -/
def store (b : Bytes) (off n : Nat) (src : Buf) : Load Bytes :=
  if off + n ≤ b.size then pure { b with data := overwrite b.data off n src }
  else throw (.outside off n b.size)

/-- `Reader::read`, and what is done with the bytes or when they do not all exist. -/
def read {α : Type} (b : Bytes) (off n : Nat) (fail : Load α) (next : Buf → Load α) : Load α :=
  if off > b.size ∨ b.size - off < n then fail
  else b.load off n >>= next

/-- `if (!r.read(...)) return Status::Internal;` -/
def need {α : Type} (b : Bytes) (off n : Nat) (next : Buf → Load α) : Load α :=
  b.read off n (Load.stop .internal) next

end Bytes

/-! ### Headers and sections -/

structure Headers where
  entryRva : U32
  imageBase : U64
  sizeOfImage : U32
  hdrSize : U32
  numSections : U16
  secTable : Nat
  exportDir : DataDirectory
  importDir : DataDirectory
  relocDir : DataDirectory

/-- The DOS and NT headers, up to the check of the sizes they give. -/
def readHeaders (r : Bytes) : Load Headers :=
  r.need 0 2 fun mz =>
  if mz 0 ≠ 0x4D ∨ mz 1 ≠ 0x5A then Load.stop .internal
  else r.need 0x3C 4 fun lfanew =>
  let nt := (u32At lfanew 0).toNat
  r.need nt 4 fun sig =>
  if sig 0 ≠ 0x50 ∨ sig 1 ≠ 0x45 then Load.stop .internal
  else r.need (nt + 4) 2 fun machine => r.need (nt + 6) 2 fun numSections =>
  r.need (nt + 20) 2 fun optSize =>
  if u16At machine 0 ≠ 0x8664 then Load.stop .notImplemented
  else
  let opt := nt + 24
  r.need opt 2 fun optMagic =>
  if u16At optMagic 0 ≠ 0x20B then Load.stop .notImplemented
  else r.need (opt + 16) 4 fun entryRva => r.need (opt + 24) 8 fun imageBase =>
  r.need (opt + 56) 4 fun sizeOfImage => r.need (opt + 60) 4 fun hdrSize =>
  let dd0 := opt + 112
  r.need (dd0 + 0) 4 fun exportRva => r.need (dd0 + 4) 4 fun exportSize =>
  r.need (dd0 + 8) 4 fun importRva => r.need (dd0 + 12) 4 fun importSize =>
  r.need (dd0 + 40) 4 fun relocRva => r.need (dd0 + 44) 4 fun relocSize =>
  pure {
    entryRva := u32At entryRva 0
    imageBase := u64At imageBase 0
    sizeOfImage := u32At sizeOfImage 0
    hdrSize := u32At hdrSize 0
    numSections := u16At numSections 0
    secTable := opt + (u16At optSize 0).toNat
    exportDir := ⟨u32At exportRva 0, u32At exportSize 0⟩
    importDir := ⟨u32At importRva 0, u32At importSize 0⟩
    relocDir := ⟨u32At relocRva 0, u32At relocSize 0⟩ }

/-- The mapped buffer, with the header bytes copied. -/
def mapHeaders (raw : Bytes) (h : Headers) : Load Bytes :=
  if h.sizeOfImage.ult h.hdrSize ∨ h.sizeOfImage.toNat > 2 ^ 30 then Load.stop .internal
  else if h.hdrSize.toNat > raw.size then Load.stop .internal
  else do
    let bytes ← raw.load 0 h.hdrSize.toNat
    Bytes.store ⟨h.sizeOfImage.toNat, fun _ => 0⟩ 0 h.hdrSize.toNat bytes

structure SectionHeader where
  virtSize : U32
  virtAddr : U32
  rawSize : U32
  rawPtr : U32

/-- How much of a section is copied to an image of the size. -/
def SectionHeader.copied (h : SectionHeader) (size : Nat) : U32 :=
  let copy := if h.rawSize.ult h.virtSize then h.rawSize else h.virtSize
  let fit := BitVec.ofNat 32 (size - h.virtAddr.toNat)
  if copy.ult fit then copy else fit

def copySection (raw mapped : Bytes) (h : SectionHeader) : Load Bytes :=
  if h.virtAddr.toNat ≥ mapped.size then pure mapped
  else
    let n := h.copied mapped.size
    if (h.rawPtr + n).toNat > raw.size then pure mapped
    else do
      let bytes ← raw.load h.rawPtr.toNat n.toNat
      mapped.store h.virtAddr.toNat n.toNat bytes

/-- The loop over the section headers, the next of them the one at index `i`. -/
def copySections (raw : Bytes) (secTable : Nat) : Nat → Nat → Bytes → Load Bytes
  | 0, _, mapped => pure mapped
  | left + 1, i, mapped =>
      let s := secTable + i * 40
      raw.need (s + 8) 4 fun virtSize => raw.need (s + 12) 4 fun virtAddr =>
      raw.need (s + 16) 4 fun rawSize => raw.need (s + 20) 4 fun rawPtr => do
        let mapped ← copySection raw mapped
          ⟨u32At virtSize 0, u32At virtAddr 0, u32At rawSize 0, u32At rawPtr 0⟩
        copySections raw secTable left (i + 1) mapped

/-! ### Relocations -/

/-- One entry of a relocation block, at the offset in the image. -/
def relocEntry (delta : U64) (pageRva : U32) (at_ : Nat) (m : Bytes) : Load Bytes := do
  let entry := u16At (← m.load at_ 2) 0
  let type := entry >>> 12
  let targetRva := pageRva + (entry &&& 0xFFF).setWidth 32
  if (targetRva + 8).toNat > m.size then pure m
  else if type = 10 then do
    let v := u64At (← m.load targetRva.toNat 8) 0
    m.store targetRva.toNat 8 (storeLE (v + delta))
  else if type = 3 then
    if (targetRva + 4).toNat > m.size then pure m
    else do
      let v := u32At (← m.load targetRva.toNat 4) 0
      m.store targetRva.toNat 4 (storeLE ((v + delta.setWidth 32).setWidth 64))
  else pure m

/-- The loop over the entries of the block at `cur`, the next of them the one at index `i`. -/
def relocEntries (delta : U64) (pageRva : U32) (cur : U32) : Nat → Nat → Bytes → Load Bytes
  | 0, _, m => pure m
  | left + 1, i, m => do
      let m ← relocEntry delta pageRva (cur.toNat + 8 + i * 2) m
      relocEntries delta pageRva cur left (i + 1) m

/-- The loop over the relocation blocks, the next of them the one at `cur`. -/
def relocBlocks (delta : U64) (relocEnd : U32) : Nat → U32 → Bytes → Load Bytes
  | 0, _, _ => Settling.spent
  | fuel + 1, cur, m =>
      if relocEnd.ult (cur + 8) then pure m
      else if (cur + 4).toNat > m.size then pure m
      else do
        let pageRva := u32At (← m.load (cur.toNat + 0) 4) 0
        let blockSize := u32At (← m.load (cur.toNat + 4) 4) 0
        if blockSize.ult 8 ∨ relocEnd.ult (cur + blockSize) then pure m
        else do
          let numEntries := (blockSize - 8) / 2
          let m ← relocEntries delta pageRva cur numEntries.toNat 0 m
          relocBlocks delta relocEnd fuel (cur + blockSize) m

def applyRelocs (fuel : Nat) (dir : DataDirectory) (delta : U64) (m : Bytes) : Load Bytes :=
  if dir.size ≠ 0 ∧ dir.rva ≠ 0 ∧ delta ≠ 0 then
    relocBlocks delta (dir.rva + dir.size) fuel dir.rva m
  else pure m

/-! ### Exports and imports -/

/-- The loop that reads a NUL-terminated name of at most `left` more bytes, the next of them the
one at index `j`. A name that leaves the image is empty. -/
def readName (m : Bytes) (rva : U32) (each : U8 → U8) : Nat → U32 → List U8 → Load (List U8)
  | 0, _, name => pure name
  | left + 1, j, name =>
      m.read (rva + j).toNat 1 (pure []) fun c =>
        if c 0 = 0 then pure name else readName m rva each left (j + 1) (name ++ [each (c 0)])

/-- `read_export_rva`. -/
def readExportRva (r : Bytes) (dir : DataDirectory) (eatIndex : U32) : Load U32 :=
  r.read (dir.rva + 0x14).toNat 4 (pure 0) fun numFuncs =>
  r.read (dir.rva + 0x1C).toNat 4 (pure 0) fun funcsRva =>
  if (u32At numFuncs 0).ule eatIndex then pure 0
  else r.read (u32At funcsRva 0 + 4 * eatIndex).toNat 4 (pure 0) fun bytes =>
    let rva := u32At bytes 0
    if dir.rva.ule rva ∧ rva.ult (dir.rva + dir.size) then pure 0 else pure rva

/-- The map from a name to an RVA. -/
abbrev Exports := List (List U8 × U32)

/-- `emplace`: the first RVA of a name stays. -/
def Exports.emplace (exports : Exports) (name : List U8) (rva : U32) : Exports :=
  if exports.any (fun e => e.1 = name) then exports else exports ++ [(name, rva)]

/-- The loop over the exported names, the next of them the one at index `i`. -/
def exportNames (m : Bytes) (dir : DataDirectory) (namesRva ordinalsRva : U32) :
    Nat → U32 → Exports → Load Exports
  | 0, _, exports => pure exports
  | left + 1, i, exports =>
      m.read (namesRva + 4 * i).toNat 4 (pure exports) fun nameRva =>
      m.read (ordinalsRva + 2 * i).toNat 2 (pure exports) fun ordinal => do
        let name ← readName m (u32At nameRva 0) id 256 0 []
        if name = [] then exportNames m dir namesRva ordinalsRva left (i + 1) exports
        else do
          let fnRva ← readExportRva m dir ((u16At ordinal 0).setWidth 32)
          exportNames m dir namesRva ordinalsRva left (i + 1)
            (if fnRva ≠ 0 then exports.emplace name fnRva else exports)

/-- A field of the export directory, zero when it is not in the image. -/
def exportField (m : Bytes) (off : U32) : Load U32 :=
  m.read off.toNat 4 (pure 0) fun v => pure (u32At v 0)

def parseExports (m : Bytes) (dir : DataDirectory) (exports : Exports) : Load Exports :=
  if dir.size ≠ 0 ∧ dir.rva ≠ 0 then do
    let numNames ← exportField m (dir.rva + 0x18)
    let namesRva ← exportField m (dir.rva + 0x20)
    let ordinalsRva ← exportField m (dir.rva + 0x24)
    exportNames m dir namesRva ordinalsRva numNames.toNat 0 exports
  else pure exports

structure PeImport where
  dll : List U8
  name : List U8
  iatAddr : GuestAddr

/-- `std::tolower`. -/
def toLower (c : U8) : U8 := if (0x41 : U8).ule c ∧ c.ule 0x5A then c + 0x20 else c

/-- `"#%u"` of the low 16 bits. -/
def ordinalName (thunk : U64) : List U8 :=
  0x23 :: (Nat.toDigits 10 (thunk &&& 0xFFFF).toNat).map fun c => BitVec.ofNat 8 c.toNat

/-- The loop over the thunks of one descriptor, the next of them the one at index `i`. -/
def importThunks (m : Bytes) (dll : List U8) (base : U64) (namesArray iat : U32) :
    Nat → U32 → List PeImport → Load (List PeImport)
  | 0, _, _ => Settling.spent
  | fuel + 1, i, imports =>
      m.read (namesArray + i * 8).toNat 8 (pure imports) fun bytes =>
        let thunk := u64At bytes 0
        let iatAddr := base + iat.setWidth 64 + (i * 8).setWidth 64
        if thunk = 0 then pure imports
        else if thunk.msb then
          importThunks m dll base namesArray iat fuel (i + 1)
            (imports ++ [⟨dll, ordinalName thunk, iatAddr⟩])
        else do
          let ibnRva := (thunk &&& 0x7FFFFFFF).setWidth 32
          let name ← readName m (ibnRva + 2) id 128 0 []
          importThunks m dll base namesArray iat fuel (i + 1)
            (if name = [] then imports else imports ++ [⟨dll, name, iatAddr⟩])

/-- The loop over the import descriptors, the next of them the one at index `d`. -/
def importDescriptors (m : Bytes) (base : U64) (importRva : U32) :
    Nat → U32 → List PeImport → Load (List PeImport)
  | 0, _, _ => Settling.spent
  | fuel + 1, d, imports =>
      let desc := importRva + d * 20
      m.read (desc + 0).toNat 4 (pure imports) fun ilt =>
      m.read (desc + 12).toNat 4 (pure imports) fun nameRva =>
      m.read (desc + 16).toNat 4 (pure imports) fun iat =>
        if u32At ilt 0 = 0 ∧ u32At nameRva 0 = 0 ∧ u32At iat 0 = 0 then pure imports
        else do
          let dll ← readName m (u32At nameRva 0) toLower 64 0 []
          if dll = [] then importDescriptors m base importRva fuel (d + 1) imports
          else do
            let namesArray := if u32At ilt 0 ≠ 0 then u32At ilt 0 else u32At iat 0
            let imports ← importThunks m dll base namesArray (u32At iat 0) fuel 0 imports
            importDescriptors m base importRva fuel (d + 1) imports

def parseImports (fuel : Nat) (m : Bytes) (dir : DataDirectory) (base : U64)
    (imports : List PeImport) : Load (List PeImport) :=
  if dir.size ≠ 0 ∧ dir.rva ≠ 0 then importDescriptors m base dir.rva fuel 0 imports
  else pure imports

/-! ### The loader -/

structure PeLoadedImage where
  base : GuestAddr
  size : U64
  entryRva : U32
  mapped : Bytes
  exports : Exports
  imports : List PeImport

/-- The export and import tables, and what is returned. -/
def finishLoad (fuel : Nat) (h : Headers) (mapped : Bytes) (base : GuestAddr)
    (out : PeLoadedImage) : Load PeLoadedImage := do
  let exports ← parseExports mapped h.exportDir out.exports
  let imports ← parseImports fuel mapped h.importDir base out.imports
  pure {
    base := base
    size := h.sizeOfImage.setWidth 64
    entryRva := h.entryRva
    mapped := mapped
    exports := exports
    imports := imports }

/-- `pe_load_file`, given the content of the file: none when it cannot be opened or read. The
walks over relocation blocks and imports are given `fuel` iterations. -/
def peLoadFile (fuel : Nat) (file : Option Bytes) (forcedBase : GuestAddr) (out : PeLoadedImage) :
    Load PeLoadedImage :=
  match file with
  | none => Load.stop .providerFailure
  | some raw =>
      if raw.size < 0x100 then Load.stop .internal
      else do
        let h ← readHeaders raw
        let mapped ← mapHeaders raw h
        let mapped ← copySections raw h.secTable h.numSections.toNat 0 mapped
        let chosenBase := if forcedBase ≠ 0 then forcedBase else h.imageBase
        let mapped ← applyRelocs fuel h.relocDir (chosenBase - h.imageBase) mapped
        finishLoad fuel h mapped chosenBase out

end Host

end PicoCpu
