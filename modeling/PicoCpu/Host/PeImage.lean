import PicoCpu.Memory.Provider

/-!
The PE image inspector: the lookup of a function in `.pdata`, and the walk over its unwind codes
that finds the caller's frame.
-/

namespace PicoCpu

namespace Host

/-! ### Reading through a provider -/

/-- A function of the inspector: it reads through a provider and returns a value or a status;
`none` when the iterations of a loop do not suffice. -/
abbrev Inspect (σ : Type) := StateT σ (ExceptT Status Option)

section Read

variable {σ : Type} (P : MemoryProvider σ)

/-- `mem.read`, returning its status when it fails. -/
def readBytes (addr : GuestAddr) (size : Nat) : Inspect σ Buf := fun s =>
  match P.read addr size (fun _ => 0) s with
  | (.ok (), buf, s') => some (.ok (buf, s'))
  | (.error e, _, _) => some (.error e)

def stop {α : Type} (s : Status) : Inspect σ α := fun _ => some (.error s)

/-- The little-endian word at an offset of a buffer. -/
def u16At (buf : Buf) (off : Nat) : U16 := buf (off + 1) ++ buf off
def u32At (buf : Buf) (off : Nat) : U32 := u16At buf (off + 2) ++ u16At buf off
def u64At (buf : Buf) (off : Nat) : U64 := u32At buf (off + 4) ++ u32At buf off

/-! ### `.pdata` -/

structure DataDirectory where
  rva : U32
  size : U32

/-- `read_pdata_dir`: entry 3 of the data directories. -/
def readPdataDir (base : GuestAddr) : Inspect σ DataDirectory := do
  let mz ← readBytes P base 2
  if mz 0 ≠ 0x4D ∨ mz 1 ≠ 0x5A then stop .internal
  else do
    let lfanew ← readBytes P (base + 0x3C) 4
    let nt := base + (u32At lfanew 0).setWidth 64
    let sig ← readBytes P nt 4
    if sig 0 ≠ 0x50 ∨ sig 1 ≠ 0x45 ∨ sig 2 ≠ 0 ∨ sig 3 ≠ 0 then stop .internal
    else do
      let machine ← readBytes P (nt + 4) 2
      if u16At machine 0 ≠ 0x8664 then stop .notImplemented
      else do
        let dir ← readBytes P (nt + 24 + 112 + 3 * 8) 8
        pure { rva := u32At dir 0, size := u32At dir 4 }

structure RuntimeFunction where
  beginRva : U32
  endRva : U32
  unwindRva : U32
  deriving DecidableEq

/-- The binary search of `pdata_lookup` over records of twelve bytes. -/
def searchPdata (pdata : GuestAddr) (target : U32) (lo hi : Nat) : Inspect σ RuntimeFunction :=
  if h : lo < hi then do
    let mid := lo + (hi - lo) / 2
    let rec ← readBytes P (pdata + 12 * BitVec.ofNat 64 mid) 12
    if target.ult (u32At rec 0) then searchPdata pdata target lo mid
    else if (u32At rec 4).ule target then searchPdata pdata target (mid + 1) hi
    else pure { beginRva := u32At rec 0, endRva := u32At rec 4, unwindRva := u32At rec 8 }
  else stop .functionNotFound
termination_by hi - lo

def pdataLookup (base rip : GuestAddr) : Inspect σ RuntimeFunction :=
  if rip.ult base then stop .functionNotFound
  else do
    let dir ← readPdataDir P base
    let pdata := base + dir.rva.setWidth 64
    if dir.size = 0 then stop .functionNotFound
    else searchPdata P pdata ((rip - base).setWidth 32) 0 (dir.size.toNat / 12)

/-! ### Unwind codes -/

/-- `unwind_op_size`, in slots of two bytes. -/
def unwindOpSize (op info : BitVec 4) : U8 :=
  match op.toNat with
  | 1 => if info = 0 then 2 else 3
  | 4 => 2
  | 5 => 3
  | 8 => 2
  | 9 => 3
  | _ => 1

/-- The effect of one code on the stack pointer. `extra` is the address of the slot after it. -/
def undoCode (op info : BitVec 4) (extra : GuestAddr) (rsp : U64) : Inspect σ U64 :=
  match op.toNat with
  | 0 => pure (rsp + 8)
  | 2 => pure (rsp + (info.setWidth 64 * 8 + 8))
  | 1 =>
    if info = 0 then do
      let b ← readBytes P extra 2
      pure (rsp + ((u16At b 0).setWidth 32 * 8 : U32).setWidth 64)
    else do
      let b ← readBytes P extra 4
      pure (rsp + (u32At b 0).setWidth 64)
  | 3 | 4 | 5 | 8 | 9 => pure rsp
  | _ => stop .notImplemented

/-- The walk over the codes, newest first, with its iterations bounded by `fuel`. The index is a
byte. A code applies when its operation has run by `offset`. -/
def undoCodes (codes : GuestAddr) (count : U8) (offset : U32) :
    Nat → U8 → U64 → Inspect σ U64
  | 0, _, _ => fun _ => none
  | fuel + 1, idx, rsp =>
    if idx.ult count then do
      let code ← readBytes P (codes + BitVec.ofNat 64 (2 * idx.toNat)) 2
      let op := (code 1).setWidth 4
      let info := (code 1 >>> 4).setWidth 4
      let extra := codes + BitVec.ofNat 64 (2 * (idx.toNat + 1))
      let applies := ((code 0).setWidth 32).ule offset
      let rsp ← if applies then undoCode P op info extra rsp else pure rsp
      undoCodes codes count offset fuel (idx + unwindOpSize op info) rsp
    else pure rsp

/-- The chain of unwind infos, followed while the link bit is set. -/
def followChain (base : GuestAddr) : Nat → U32 → Inspect σ U32
  | 0, ui => pure ui
  | hops + 1, ui =>
    if ui &&& 1 = 0 then pure ui
    else do
      let parent ← readBytes P (base + (ui.setWidth 64 &&& ~~~1)) 12
      followChain base hops (u32At parent 8)

structure UnwoundFrame where
  callerRip : GuestAddr
  callerRsp : GuestAddr
  deriving DecidableEq

/-- `seh_unwind_frame`. -/
def sehUnwindFrame (base rip rsp : GuestAddr) (fuel : Nat) : Inspect σ UnwoundFrame := do
  let rf ← pdataLookup P base rip
  let ui ← followChain P base 16 rf.unwindRva
  let uiAddr := base + ui.setWidth 64
  let header ← readBytes P uiAddr 4
  let offset : U32 := (rip - (base + rf.beginRva.setWidth 64)).setWidth 32
  let rsp ← undoCodes P (uiAddr + 4) (header 2) offset fuel 0 rsp
  let ret ← readBytes P rsp 8
  pure { callerRip := u64At ret 0, callerRsp := rsp + 8 }

end Read

end Host

end PicoCpu
