import PicoCpu.Ir
import PicoCpu.Lib.Parse

/-!
The byte source of the decoder, the prefix scan, and the pieces every opcode shares:
ModRM, SIB, displacement, immediates.
-/

namespace PicoCpu

/-- What a byte source answers at an offset from `rip`. -/
abbrev Fetch := U8 → Except Status U8

/-- A decoder step: it pulls bytes and returns, or stops with a status. -/
abbrev Decode := Parse U8 Status

namespace Decode

def readByte : Decode U8 := Parse.symbol

def readU16 : Decode U16 := do
  let lo ← readByte
  let hi ← readByte
  pure (hi ++ lo)

def readU32 : Decode U32 := do
  let b0 ← readByte
  let b1 ← readByte
  let b2 ← readByte
  let b3 ← readByte
  pure (b3 ++ b2 ++ b1 ++ b0)

def readU64 : Decode U64 := do
  let lo ← readU32
  let hi ← readU32
  pure (hi ++ lo)

/-- An immediate of 1, 2, 4 or 8 bytes, sign-extended to 64 bits. -/
def readImmSx : Nat → Decode U64
  | 1 => do
    let b ← readByte
    pure (b.signExtend 64)
  | 2 => do
    let v ← readU16
    pure (v.signExtend 64)
  | 4 => do
    let v ← readU32
    pure (v.signExtend 64)
  | 8 => readU64
  | _ => .fail .invalidArgument

end Decode

open Decode

structure Prefixes where
  opsizePfx : Bool := false
  addrsizePfx : Bool := false
  lock : Bool := false
  rep : Bool := false
  repne : Bool := false
  hasSeg : Bool := false
  seg : Seg := .ds
  hasRex : Bool := false
  rex : U8 := 0
  isVex : Bool := false
  vexW : Bool := false
  vexL : Bool := false
  vexVvvv : Nat := 0
  vexMap : Nat := 0
  vexR : Bool := false
  vexX : Bool := false
  vexB : Bool := false
  isEvex : Bool := false
  evexL2 : Bool := false
  evexV : Bool := false
  evexR : Bool := false
  evexZ : Bool := false
  evexB : Bool := false
  evexAaa : Nat := 0

namespace Prefixes

def rexW (px : Prefixes) : Bool := if px.isVex then px.vexW else px.rex &&& 0x08 != 0
def rexR (px : Prefixes) : Bool := if px.isVex then px.vexR else px.rex &&& 0x04 != 0
def rexX (px : Prefixes) : Bool := if px.isVex then px.vexX else px.rex &&& 0x02 != 0
def rexB (px : Prefixes) : Bool := if px.isVex then px.vexB else px.rex &&& 0x01 != 0

/-- The vector length VEX.L selects. -/
def vexSize (px : Prefixes) : Nat := if px.vexL then 32 else 16

def evexVectorSize (px : Prefixes) : Nat := if px.evexL2 then 64 else if px.vexL then 32 else 16

/-- `default_gpr_op_size`. -/
def aluSize (px : Prefixes) : Nat := if px.rexW then 8 else if px.opsizePfx then 2 else 4

/-- No mandatory prefix: neither 66 nor F3 nor F2. -/
def noMandatory (px : Prefixes) : Bool := !px.opsizePfx && !px.rep && !px.repne

theorem noMandatory_of_opsizePfx {px : Prefixes} (h : px.opsizePfx = true) :
    px.noMandatory = false := by
  rw [noMandatory, h]
  rfl

end Prefixes

/-! ### The prefix scan -/

/-- `apply_vex_pp`: the `pp` bits take the legacy prefixes' slots. -/
def applyVexPp (px : Prefixes) (pp : U8) : Prefixes :=
  match (pp &&& 0x3).toNat with
  | 1 => { px with opsizePfx := true }
  | 2 => { px with rep := true }
  | 3 => { px with repne := true }
  | _ => px

/-- The legacy prefix bytes and what each one records. -/
def legacyPrefix (b : U8) (px : Prefixes) : Option Prefixes :=
  match b.toNat with
  | 0x66 => some { px with opsizePfx := true }
  | 0x67 => some { px with addrsizePfx := true }
  | 0xF0 => some { px with lock := true }
  | 0xF2 => some { px with repne := true }
  | 0xF3 => some { px with rep := true }
  | 0x26 => some { px with seg := .es, hasSeg := true }
  | 0x2E => some { px with seg := .cs, hasSeg := true }
  | 0x36 => some { px with seg := .ss, hasSeg := true }
  | 0x3E => some { px with seg := .ds, hasSeg := true }
  | 0x64 => some { px with seg := .fs, hasSeg := true }
  | 0x65 => some { px with seg := .gs, hasSeg := true }
  | _ => none

/-- After `C5`. -/
def scanVex2 (px : Prefixes) : Decode Prefixes := do
  let v ← readByte
  pure (applyVexPp
    { px with
      isVex := true
      vexMap := 1
      vexR := v &&& 0x80 == 0
      vexX := false
      vexB := false
      vexVvvv := (~~~(v >>> 3) &&& 0xF).toNat
      vexL := v &&& 0x04 != 0 } (v &&& 0x3))

/-- After `C4`. -/
def scanVex3 (px : Prefixes) : Decode Prefixes := do
  let b1 ← readByte
  let b2 ← readByte
  pure (applyVexPp
    { px with
      isVex := true
      vexR := b1 &&& 0x80 == 0
      vexX := b1 &&& 0x40 == 0
      vexB := b1 &&& 0x20 == 0
      vexMap := (b1 &&& 0x1F).toNat
      vexW := b2 &&& 0x80 != 0
      vexVvvv := (~~~(b2 >>> 3) &&& 0xF).toNat
      vexL := b2 &&& 0x04 != 0 } (b2 &&& 0x3))

/-- After `62`. -/
def scanEvex (px : Prefixes) : Decode Prefixes := do
  let p1 ← readByte
  let p2 ← readByte
  let p3 ← readByte
  let px := applyVexPp
    { px with
      isVex := true
      isEvex := true
      vexR := p1 &&& 0x80 == 0
      vexX := p1 &&& 0x40 == 0
      vexB := p1 &&& 0x20 == 0
      evexR := p1 &&& 0x10 == 0
      vexMap := (p1 &&& 0x07).toNat
      vexW := p2 &&& 0x80 != 0
      vexVvvv := (~~~(p2 >>> 3) &&& 0x0F).toNat } (p2 &&& 0x3)
  let px := { px with
    evexZ := p3 &&& 0x80 != 0
    evexL2 := p3 &&& 0x40 != 0
    vexL := p3 &&& 0x20 != 0
    evexB := p3 &&& 0x10 != 0
    evexV := p3 &&& 0x08 == 0
    evexAaa := (p3 &&& 0x07).toNat }
  pure (if px.evexV then px else { px with vexVvvv := px.vexVvvv ||| 0x10 })

/-- What follows the legacy prefixes: a VEX or EVEX prefix, a REX byte, or nothing. `b` is
the byte peeked at offset `c`. -/
def scanOpcodePrefix (fetch : Fetch) (b : U8) (c : U8) (px : Prefixes) :
    Except Status (Prefixes × U8) :=
  if b = 0xC5 then (scanVex2 px).run fetch (c + 1)
  else if b = 0x62 then (scanEvex px).run fetch (c + 1)
  else if b = 0xC4 then (scanVex3 px).run fetch (c + 1)
  else if 0x40 ≤ b.toNat && b.toNat ≤ 0x4F then .ok ({ px with rex := b, hasRex := true }, c + 1)
  else .ok (px, c)

/-- `scan_prefixes`, with the iterations of its loop bounded by `fuel`; `none` when they do
not suffice. The loop peeks a byte and then reads the same byte, which answers alike. -/
def scanPrefixes (fetch : Fetch) : Nat → U8 → Prefixes → Option (Except Status (Prefixes × U8))
  | 0, _, _ => none
  | fuel + 1, c, px =>
    match fetch c with
    | .error s => some (.error s)
    | .ok b =>
      match legacyPrefix b px with
      | some px' => scanPrefixes fetch fuel (c + 1) px'
      | none => some (scanOpcodePrefix fetch b c px)

/-! ### ModRM -/

structure ModRm where
  mod : Nat
  reg : Nat
  rm : Nat

def splitModrm (b : U8) : ModRm where
  mod := (b >>> 6).toNat
  reg := ((b >>> 3) &&& 7).toNat
  rm := (b &&& 7).toNat

theorem eq_ofNat_of_toNat {b : U8} {n : Nat} (h : b.toNat = n) : b = BitVec.ofNat 8 n := by
  rw [← h, BitVec.ofNat_toNat, BitVec.setWidth_eq]

theorem splitModrm_rm_lt (b : U8) : (splitModrm b).rm < 8 := by
  rw [splitModrm, BitVec.toNat_and]
  exact Nat.lt_succ_of_le Nat.and_le_right

def readModrm : Decode ModRm := do
  let mb ← readByte
  pure (splitModrm mb)

/-- A register number from its extension bit and its three-bit field. -/
def combineReg (ext : Bool) (r3 : Nat) : Nat := (if ext then 8 else 0) + r3 % 8

structure Sib where
  base : Nat
  index : Nat
  scale : Nat
  needsDisp32Base : Bool

def splitSib (b : U8) (mod : Nat) (rexX rexB : Bool) : Sib :=
  let scaleField := (b >>> 6).toNat
  let indexField := ((b >>> 3) &&& 7).toNat
  let baseField := (b &&& 7).toNat
  let noBase := baseField == 5 && mod == 0
  { base := if noBase then Reg.none else combineReg rexB baseField
    index := if indexField == 4 && !rexX then Reg.none else combineReg rexX indexField
    scale := 2 ^ scaleField
    needsDisp32Base := noBase }

/-- A register named by a three-bit field. Without REX, codes 4 to 7 of a byte operand are
the high-byte registers, numbered 16 to 19. -/
def byteAwareReg (px : Prefixes) (ext : Bool) (field opSize : Nat) : Nat :=
  if opSize == 1 && !px.hasRex && (4 ≤ field && field ≤ 7 : Bool) then 16 + (field - 4)
  else combineReg ext field

def makeReg (r : Nat) : Operand := { kind := .reg, reg := r }
def makeImm (v : U64) : Operand := { kind := .imm, imm := v }
def makeRel (disp : U64) : Operand := { kind := .rel, imm := disp }
def makeXmm (r : Nat) : Operand := { kind := .xmm, reg := r }

def regOperand (px : Prefixes) (m : ModRm) (opSize : Nat) : Operand :=
  makeReg (byteAwareReg px px.rexR m.reg opSize)

/-- The displacement `mod` calls for. -/
def readDisp (mod : Nat) : Decode U64 :=
  if mod = 1 then readImmSx 1 else if mod = 2 then readImmSx 4 else pure 0

def decodeRmOperand (px : Prefixes) (m : ModRm) (opSize : Nat) : Decode Operand :=
  if m.mod = 3 then pure (makeReg (byteAwareReg px px.rexB m.rm opSize))
  else
    let seg := if px.hasSeg then px.seg else .ds
    if m.mod = 0 ∧ m.rm = 5 then do
      let disp ← readImmSx 4
      pure { kind := .ripRelMem, reg := Reg.none, index := Reg.none, scale := 0, seg, imm := disp }
    else if m.rm = 4 then do
      let sibByte ← readByte
      let sib := splitSib sibByte m.mod px.rexX px.rexB
      let disp ← if sib.needsDisp32Base then readImmSx 4 else readDisp m.mod
      pure { kind := .mem, reg := sib.base, index := sib.index, scale := sib.scale, seg, imm := disp }
    else do
      let disp ← readDisp m.mod
      pure { kind := .mem, reg := combineReg px.rexB m.rm, index := Reg.none, scale := 0, seg,
             imm := disp }

/-- A vector register when `mod` is 3, else the memory operand. -/
def decodeXmmOperand (px : Prefixes) (m : ModRm) (opSize : Nat) : Decode Operand :=
  if m.mod = 3 then pure (makeXmm (combineReg px.rexB m.rm)) else decodeRmOperand px m opSize

end PicoCpu
