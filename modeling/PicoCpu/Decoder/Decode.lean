import PicoCpu.Decoder.Vex

/-!
The one-byte opcode map and the decoder's entry points.
-/

namespace PicoCpu

namespace Decode

/-- The kinds and handlers of the eight ALU families, in their encoding order. -/
def aluFamily : Nat → OpKind × Handler
  | 0 => (.add, .opAdd)
  | 1 => (.or, .opOr)
  | 2 => (.adc, .opAdc)
  | 3 => (.sbb, .opSbb)
  | 4 => (.and, .opAnd)
  | 5 => (.sub, .opSub)
  | 6 => (.xor, .opXor)
  | _ => (.cmp, .opCmp)

/-- `decode_alu_primary`. -/
def decodeAluPrimary (px : Prefixes) (family variant : Nat) (out : Insn) : Decode Insn :=
  let (kind, handler) := aluFamily family
  match variant with
  | 0 => decodeRmReg px out 1 kind handler
  | 1 => decodeRmReg px out px.aluSize kind handler
  | 2 => decodeRegRm px out 1 kind handler
  | 3 => decodeRegRm px out px.aluSize kind handler
  | 4 => do
    let imm ← readImmSx 1
    pure { out with opSize := 1, kind, handler, dst := makeReg Reg.rax, src := makeImm imm }
  | 5 => do
    let imm ← readImmSx (if px.aluSize = 2 then 2 else 4)
    pure { out with
      opSize := px.aluSize, kind, handler, dst := makeReg Reg.rax, src := makeImm imm }
  | _ => .fail .unsupportedOpcode

/-- `decode_group1`. -/
def decodeGroup1 (px : Prefixes) (opc : U8) (out : Insn) : Decode Insn := do
  let m ← readModrm
  let opSize := if opc = 0x80 then 1 else px.aluSize
  let immSize := if opc = 0x81 then (if opSize = 2 then 2 else 4) else 1
  let dst ← decodeRmOperand px m opSize
  let imm ← readImmSx immSize
  let (kind, handler) := aluFamily m.reg
  pure { out with opSize, kind, handler, dst, src := makeImm imm }

/-- The shifts and rotates of group 2. -/
def shiftFamily : Nat → OpKind × Handler
  | 0 => (.rol, .opRol)
  | 1 => (.ror, .opRor)
  | 2 => (.rcl, .opRcl)
  | 3 => (.rcr, .opRcr)
  | 4 => (.shl, .opShl)
  | 5 => (.shr, .opShr)
  | 6 => (.shl, .opShl)
  | _ => (.sar, .opSar)

/-- `decode_group2`: the count is an immediate, one, or CL. -/
def decodeGroup2 (px : Prefixes) (opc : U8) (out : Insn) : Decode Insn := do
  let m ← readModrm
  let opSize := if opc = 0xC0 ∨ opc = 0xD0 ∨ opc = 0xD2 then 1 else px.aluSize
  let dst ← decodeRmOperand px m opSize
  let src ←
    if opc = 0xC0 ∨ opc = 0xC1 then do
      let imm ← readImmSx 1
      pure (makeImm imm)
    else if opc = 0xD0 ∨ opc = 0xD1 then pure (makeImm 1)
    else pure (makeReg Reg.rcx)
  let (kind, handler) := shiftFamily m.reg
  pure { out with opSize, kind, handler, dst, src }

/-- `decode_group3`. -/
def decodeGroup3 (px : Prefixes) (opc : U8) (out : Insn) : Decode Insn := do
  let m ← readModrm
  let opSize := if opc = 0xF6 then 1 else px.aluSize
  let rm ← decodeRmOperand px m opSize
  let out := { out with opSize }
  match m.reg with
  | 2 => pure { out with kind := .not, handler := .opNot, dst := rm }
  | 3 => pure { out with kind := .neg, handler := .opNeg, dst := rm }
  | 4 => pure { out with kind := .mul, handler := .opMul, src := rm }
  | 5 => pure { out with kind := .imul, handler := .opImul1, src := rm }
  | 6 => pure { out with kind := .div, handler := .opDiv, src := rm }
  | 7 => pure { out with kind := .idiv, handler := .opIdiv, src := rm }
  | _ => do
    let imm ← readImmSx (if opc = 0xF6 then 1 else if opSize = 2 then 2 else 4)
    pure { out with kind := .test, handler := .opTest, dst := rm, src := makeImm imm }

/-- `decode_group4_5`. -/
def decodeGroup45 (px : Prefixes) (opc : U8) (out : Insn) : Decode Insn := do
  let m ← readModrm
  let opSize := if opc = 0xFE then 1 else px.aluSize
  let rm ← decodeRmOperand px m opSize
  let branch := { out.flags with controlFlow := true }
  match m.reg with
  | 0 => pure { out with opSize, kind := .inc, handler := .opInc, dst := rm }
  | 1 => pure { out with opSize, kind := .dec, handler := .opDec, dst := rm }
  | 2 =>
    if opc = 0xFF then
      pure { out with opSize := 8, kind := .call, handler := .opCall, dst := rm, flags := branch }
    else .fail .unsupportedOpcode
  | 4 =>
    if opc = 0xFF then
      pure { out with opSize := 8, kind := .jmp, handler := .opJmp, dst := rm, flags := branch }
    else .fail .unsupportedOpcode
  | 6 =>
    if opc = 0xFF then pure { out with opSize := 8, kind := .push, handler := .opPush, dst := rm }
    else .fail .unsupportedOpcode
  | _ => .fail .unsupportedOpcode

/-! ### x87 -/

/-- Register forms: opcode, then the ModRM byte or `reg` field that selects the row. -/
def x87RegTable (opc : U8) (m : ModRm) (mb : U8) : Option (OpKind × Handler) :=
  match opc.toNat with
  | 0xD8 =>
    match m.reg with
    | 0 => some (.fadd, .opFadd)
    | 1 => some (.fmul, .opFmul)
    | 2 => some (.fcom, .opFcom)
    | 3 => some (.fcom, .opFcom)
    | 4 => some (.fsub, .opFsub)
    | 6 => some (.fdiv, .opFdiv)
    | _ => none
  | 0xD9 =>
    match m.reg with
    | 0 => some (.fld, .opFld)
    | 1 => some (.fxch, .opFxch)
    | _ =>
      match mb.toNat with
      | 0xE0 => some (.fchs, .opFchs)
      | 0xE1 => some (.fabs, .opFabs)
      | 0xFA => some (.fsqrt, .opFsqrt)
      | 0xF0 => some (.f2xm1, .opF2xm1)
      | 0xF1 => some (.fyl2x, .opFyl2x)
      | 0xF3 => some (.fpatan, .opFpatan)
      | 0xFD => some (.fscale, .opFscale)
      | 0xFC => some (.frndint, .opFrndint)
      | 0xFE => some (.fsin, .opFsin)
      | 0xFF => some (.fcos, .opFcos)
      | _ => none
  | 0xDB => if mb = 0xE3 then some (.fninit, .opFninit) else none
  | 0xDC =>
    match m.reg with
    | 0 => some (.fadd, .opFadd)
    | 1 => some (.fmul, .opFmul)
    | 4 => some (.fsub, .opFsub)
    | 6 => some (.fdiv, .opFdiv)
    | _ => none
  | 0xDD =>
    match m.reg with
    | 2 => some (.fst, .opFst)
    | 3 => some (.fstp, .opFstp)
    | _ => none
  | 0xDE =>
    match m.reg with
    | 0 => some (.faddp, .opFaddp)
    | 1 => some (.fmulp, .opFmulp)
    | 4 => some (.fsubp, .opFsubp)
    | 6 => some (.fdivp, .opFdivp)
    | _ => none
  | _ => none

/-- Memory forms: the operand size, the kind and the handler. -/
def x87MemTable (opc : U8) (reg : Nat) : Option (Nat × OpKind × Handler) :=
  match opc.toNat with
  | 0xD9 =>
    match reg with
    | 0 => some (4, .fld, .opFld)
    | 2 => some (4, .fst, .opFst)
    | 3 => some (4, .fstp, .opFstp)
    | 5 => some (2, .fldcw, .opFldcw)
    | 7 => some (2, .fnstcw, .opFnstcw)
    | _ => none
  | 0xDB =>
    match reg with
    | 0 => some (4, .fild, .opFild)
    | 3 => some (4, .fistp, .opFistp)
    | 5 => some (10, .fld, .opFld)
    | 7 => some (10, .fstp, .opFstp)
    | _ => none
  | 0xDD =>
    match reg with
    | 0 => some (8, .fld, .opFld)
    | 2 => some (8, .fst, .opFst)
    | 3 => some (8, .fstp, .opFstp)
    | _ => none
  | 0xDF =>
    match reg with
    | 0 => some (2, .fild, .opFild)
    | 5 => some (8, .fild, .opFild)
    | 7 => some (8, .fistp, .opFistp)
    | _ => none
  | _ => none

/-- The operand size the register forms keep. -/
def x87Size (opc : U8) : Nat :=
  match opc.toNat with
  | 0xDC => 8
  | 0xDD => 8
  | 0xDE => 2
  | 0xDF => 2
  | _ => 4

/-- `D8` to `DF`. A register form keeps its stack index in `dst.index`; `FNSTCW` moves the
memory operand to `dst`. -/
def decodeX87 (px : Prefixes) (opc : U8) (out : Insn) : Decode Insn := do
  let mb ← readByte
  let m := splitModrm mb
  if m.mod = 3 then
    let out := { out with opSize := x87Size opc, dst := { out.dst with index := m.rm } }
    match x87RegTable opc m mb with
    | some (kind, handler) => pure { out with kind, handler }
    | none =>
      if opc = 0xDF ∧ mb = 0xE0 then
        pure { out with kind := .fnstsw, handler := .opFnstsw, dst := makeReg Reg.rax }
      else .fail .unsupportedOpcode
  else do
    let src ← decodeRmOperand px m (x87Size opc)
    match x87MemTable opc m.reg with
    | some (opSize, .fnstcw, handler) =>
      pure { out with opSize, kind := .fnstcw, handler, dst := src, src := {} }
    | some (opSize, kind, handler) => pure { out with opSize, kind, handler, src }
    | none => .fail .unsupportedOpcode

/-! ### The one-byte map -/

def stringTable : OpTable :=
  [(0xA4, .movs, .opMovs), (0xA5, .movs, .opMovs), (0xA6, .cmps, .opCmps), (0xA7, .cmps, .opCmps),
   (0xAA, .stos, .opStos), (0xAB, .stos, .opStos), (0xAC, .lods, .opLods), (0xAD, .lods, .opLods),
   (0xAE, .scas, .opScas), (0xAF, .scas, .opScas)]

/-- The size bit of an opcode. -/
def sizeByBit (px : Prefixes) (opc : U8) : Nat := if opc &&& 1 != 0 then px.aluSize else 1

/-- An instruction whose only operand is an immediate in `dst`. -/
def decodePushImm (out : Insn) (size : Nat) : Decode Insn := do
  let imm ← readImmSx size
  pure { out with opSize := 8, kind := .push, handler := .opPush, dst := makeImm imm }

/-- `0x69` and `0x6B`. -/
def decodeImul3 (px : Prefixes) (opc : U8) (out : Insn) : Decode Insn := do
  let m ← readModrm
  let src ← decodeRmOperand px m px.aluSize
  let imm ← readImmSx (if opc = 0x6B then 1 else if px.aluSize = 2 then 2 else 4)
  pure { out with
    opSize := px.aluSize, kind := .imul3, handler := .opImul, immExtra := imm, src
    dst := regOperand px m px.aluSize }

/-- `LEA`. -/
def decodeLea (px : Prefixes) (out : Insn) : Decode Insn := do
  let m ← readModrm
  if m.mod = 3 then .fail .invalidInstruction
  else do
    let src ← decodeRmOperand px m px.aluSize
    pure { out with
      opSize := px.aluSize, kind := .lea, handler := .opLea, dst := regOperand px m px.aluSize, src }

/-- `MOV r, imm`, the register in the opcode. -/
def decodeMovImm (px : Prefixes) (opc : U8) (size : Nat) (out : Insn) : Decode Insn := do
  let imm ← readImmSx size
  pure { out with
    opSize := size, kind := .mov, handler := .opMov
    dst := makeReg (combineReg px.rexB (opc.toNat % 8)), src := makeImm imm }

/-- `0xC6` and `0xC7`. -/
def decodeMovRmImm (px : Prefixes) (opc : U8) (out : Insn) : Decode Insn := do
  let size := if opc = 0xC6 then 1 else px.aluSize
  let m ← readModrm
  if m.reg ≠ 0 then .fail .unsupportedOpcode
  else do
    let dst ← decodeRmOperand px m size
    let imm ← readImmSx (if size = 8 then 4 else size)
    pure { out with opSize := size, kind := .mov, handler := .opMov, dst, src := makeImm imm }

/-- `0xA8` and `0xA9`. -/
def decodeTestImm (px : Prefixes) (opc : U8) (out : Insn) : Decode Insn := do
  let size := if opc = 0xA8 then 1 else px.aluSize
  let imm ← readImmSx (if size = 8 then 4 else size)
  pure { out with
    opSize := size, kind := .test, handler := .opTest, dst := makeReg Reg.rax, src := makeImm imm }

/-- `RET imm16`: the immediate is zero-extended. -/
def decodeRetImm (out : Insn) : Decode Insn := do
  let imm ← readU16
  pure { out with
    opSize := 8, kind := .ret, handler := .opRet, dst := makeImm (imm.setWidth 64)
    flags := { out.flags with controlFlow := true } }

/-- `INT n`. -/
def decodeIntN (out : Insn) : Decode Insn := do
  let n ← readByte
  pure { out with
    kind := .intN, handler := .opIntN
    dst := { out.dst with kind := .imm, imm := n.setWidth 64 }
    flags := { out.flags with controlFlow := true } }

def onePrimary (px : Prefixes) (opc : U8) (out : Insn) : List (Option (Decode Insn)) :=
  let n := opc.toNat
  let branch := { out.flags with controlFlow := true }
  [Parse.when (n ≤ 0x3D && opc &&& 0x06 != 0x06) (decodeAluPrimary px (n / 8) (n % 8) out),
   Parse.when (0x50 ≤ n && n ≤ 0x57)
     (pure { out with
       opSize := 8, kind := .push, handler := .opPush
       dst := makeReg (combineReg px.rexB (n - 0x50)) }),
   Parse.when (0x58 ≤ n && n ≤ 0x5F)
     (pure { out with
       opSize := 8, kind := .pop, handler := .opPop
       dst := makeReg (combineReg px.rexB (n - 0x58)) }),
   Parse.when (n == 0x68) (decodePushImm out 4),
   Parse.when (n == 0x6A) (decodePushImm out 1),
   Parse.when (n == 0x63) (decodeExtend px out 4 .movSxd .opMovsxd),
   Parse.when (n == 0x69 || n == 0x6B) (decodeImul3 px opc out),
   Parse.when (0x70 ≤ n && n ≤ 0x7F) (decodeRel out 1 .jcc .opJcc (Cc.ofNibble n)),
   Parse.when (n == 0x80 || n == 0x81 || n == 0x83) (decodeGroup1 px opc out),
   Parse.when (n == 0x84) (decodeRmReg px out 1 .test .opTest),
   Parse.when (n == 0x85) (decodeRmReg px out px.aluSize .test .opTest),
   Parse.when (n == 0x86) (decodeRmReg px out 1 .xchg .opXchg),
   Parse.when (n == 0x87) (decodeRmReg px out px.aluSize .xchg .opXchg),
   Parse.when (n == 0x88 || n == 0x89) (decodeRmReg px out (sizeByBit px opc) .mov .opMov),
   Parse.when (n == 0x8A || n == 0x8B) (decodeRegRm px out (sizeByBit px opc) .mov .opMov),
   Parse.when (n == 0x8D) (decodeLea px out),
   Parse.when (n == 0x90) (pure { out with opSize := 0, kind := .nop, handler := .opNop }),
   Parse.when (0xB0 ≤ n && n ≤ 0xB7) (decodeMovImm px opc 1 out),
   Parse.when (0xB8 ≤ n && n ≤ 0xBF) (decodeMovImm px opc px.aluSize out),
   Parse.when (n == 0xC0 || n == 0xC1) (decodeGroup2 px opc out),
   Parse.when (n == 0xC2) (decodeRetImm out),
   Parse.when (n == 0xC3)
     (pure { out with opSize := 8, kind := .ret, handler := .opRet, flags := branch }),
   Parse.when (n == 0xC6 || n == 0xC7) (decodeMovRmImm px opc out),
   Parse.when (0xD0 ≤ n && n ≤ 0xD3) (decodeGroup2 px opc out),
   Parse.when (0xD8 ≤ n && n ≤ 0xDF) (decodeX87 px opc out),
   Parse.when (n == 0x98)
     (pure { out with opSize := px.aluSize, kind := .cwde, handler := .opCwde }),
   Parse.when (n == 0x99)
     (pure { out with opSize := px.aluSize, kind := .cdq, handler := .opCdq }),
   Parse.when (n == 0xA8 || n == 0xA9) (decodeTestImm px opc out),
   tableRow stringTable opc fun kind handler =>
     pure { out with opSize := sizeByBit px opc, kind, handler },
   Parse.when (n == 0xE0) (decodeRel out 1 .loopNE .opLoop .nz),
   Parse.when (n == 0xE1) (decodeRel out 1 .loopE .opLoop .z),
   Parse.when (n == 0xE2) (decodeRel out 1 .loop .opLoop .none),
   Parse.when (n == 0xE3) (decodeRel out 1 .jcxz .opJcxz out.cond),
   Parse.when (n == 0xF4) (pure { out with kind := .hlt, handler := .opHlt, flags := branch }),
   Parse.when (n == 0x9C) (pure { out with opSize := 8, kind := .pushf, handler := .opPushf }),
   Parse.when (n == 0x9D) (pure { out with opSize := 8, kind := .popf, handler := .opPopf }),
   Parse.when (n == 0x9E) (pure { out with kind := .sahf, handler := .opSahf }),
   Parse.when (n == 0x9F) (pure { out with kind := .lahf, handler := .opLahf }),
   Parse.when (n == 0xCC) (pure { out with kind := .int3, handler := .opInt3, flags := branch }),
   Parse.when (n == 0xCD) (decodeIntN out),
   Parse.when (n == 0xE8) (decodeRel out 4 .call .opCall out.cond),
   Parse.when (n == 0xE9) (decodeRel out 4 .jmp .opJmp out.cond),
   Parse.when (n == 0xEB) (decodeRel out 1 .jmp .opJmp out.cond),
   Parse.when (n == 0xF6 || n == 0xF7) (decodeGroup3 px opc out),
   Parse.when (n == 0xFE || n == 0xFF) (decodeGroup45 px opc out),
   Parse.when (n == 0x0F) (decodeTwoByte px out)]

def decodePrimary (px : Prefixes) (out : Insn) : Decode Insn := do
  let opc ← readByte
  Parse.firstOf .unsupportedOpcode (onePrimary px opc out)

def decodeAfterPrefixes (px : Prefixes) (out : Insn) : Decode Insn :=
  if px.isVex then decodeVex px out else decodePrimary px out

end Decode

/-! ### Entry points -/

open Decode

/-- The instruction before its opcode is decoded. -/
def Prefixes.insn (px : Prefixes) (rip : GuestAddr) : Insn where
  rip := rip
  cond := .none
  flags :=
    { lock := px.lock, rep := px.rep, repne := px.repne, hasSeg := px.hasSeg
      opsizePfx := px.opsizePfx, addrsizePfx := px.addrsizePfx }

/-- `decode_with_source`. The length is the 8-bit count of consumed bytes. -/
def decodeWithSource (fetch : Fetch) (rip : GuestAddr) (fuel : Nat) :
    Option (Except Status Insn) :=
  match scanPrefixes fetch fuel 0 {} with
  | none => none
  | some (.error s) => some (.error s)
  | some (.ok (px, c)) =>
    match (decodeAfterPrefixes px (px.insn rip)).run fetch c with
    | .error s => some (.error s)
    | .ok (out, c') => some (.ok { out with len := c'.toNat })

/-- A memory as the decoder reads it, one byte at a time. -/
abbrev CodeBytes := GuestAddr → Except Status U8

/-- `mem_fetch`. -/
def memFetch (mem : CodeBytes) (rip : GuestAddr) : Fetch := fun off => mem (rip + off.setWidth 64)

def decodeOne (mem : CodeBytes) (rip : GuestAddr) (fuel : Nat) : Option (Except Status Insn) :=
  decodeWithSource (memFetch mem rip) rip fuel

/-- `buf_fetch`, over the first `size` bytes of a buffer. -/
def bufFetch (data : Buf) (size : Nat) : Fetch := fun off =>
  if off.toNat < size then .ok (data off.toNat) else .error .truncatedInstruction

def decodeBytes (bytes : Buf) (len : Nat) (rip : GuestAddr) (fuel : Nat) :
    Option (Except Status Insn) :=
  if len = 0 then some (.error .truncatedInstruction)
  else decodeWithSource (bufFetch bytes (if len > 15 then 15 else len)) rip fuel

end PicoCpu
