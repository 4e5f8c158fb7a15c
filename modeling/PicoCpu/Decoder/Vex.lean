import PicoCpu.Decoder.TwoByte

/-!
VEX and EVEX opcodes: AVX moves and integer ops, BMI, gathers, AVX-512 and scatters.
-/

namespace PicoCpu

namespace Decode

/-- Mark the instruction as VEX-encoded. -/
def markVex (out : Insn) : Insn := { out with flags := { out.flags with vex := true } }

/-- `decode_vex_op_rmv`: `op dst, vvvv, r/m`, with `vvvv` in `dst.index`. -/
def decodeVexOpRmv (px : Prefixes) (out : Insn) (kind : OpKind) (handler : Handler) :
    Decode Insn := do
  let m ← readModrm
  let size := px.vexSize
  let src ← decodeXmmOperand px m size
  pure { markVex out with
    opSize := size, kind, handler, src
    dst := { makeXmm (combineReg px.rexR m.reg) with index := px.vexVvvv } }

/-- `decode_vex_op_rm`: two operands, in either direction. -/
def decodeVexOpRm (px : Prefixes) (out : Insn) (kind : OpKind) (handler : Handler)
    (regToRm : Bool) : Decode Insn := do
  let m ← readModrm
  let size := px.vexSize
  let rmOp ← decodeXmmOperand px m size
  let regOp := makeXmm (combineReg px.rexR m.reg)
  pure { markVex out with
    opSize := size, kind, handler
    dst := if regToRm then rmOp else regOp
    src := if regToRm then regOp else rmOp }

/-- `decode_vex_gpr_rmv`: `op dst, r/m` with the second source in `dst.index`. -/
def decodeVexGprRmv (px : Prefixes) (out : Insn) (kind : OpKind) (handler : Handler) :
    Decode Insn := do
  let m ← readModrm
  let size := if px.vexW then 8 else 4
  let src ← decodeRmOperand px m size
  pure { markVex out with
    opSize := size, kind, handler, src
    dst := { makeReg (combineReg px.rexR m.reg) with index := px.vexVvvv } }

/-- The lane sizes of a gather or scatter, packed into `imm_extra`. -/
def laneSizes (dataLane indexLane : Nat) : U64 := BitVec.ofNat 64 (dataLane + 256 * indexLane)

/-- `decode_vgather`. -/
def decodeVgather (px : Prefixes) (out : Insn) (kind : OpKind) (handler : Handler)
    (dataLane indexLane : Nat) : Decode Insn := do
  let m ← readModrm
  if m.mod = 3 then .fail .invalidInstruction
  else do
    let size := px.vexSize
    let src ← decodeRmOperand px m size
    pure { markVex out with
      opSize := size, kind, handler, immExtra := laneSizes dataLane indexLane
      dst := { makeXmm (combineReg px.rexR m.reg) with index := px.vexVvvv }
      src := { src with pad0 := 1 } }

def vexMap2SseTable : OpTable :=
  [(0x00, .vpshufb, .opVpshufb), (0x37, .vpcmpgtq, .opVpcmpgtq), (0xDC, .vaesenc, .opVaesenc),
   (0xDD, .vaesenclast, .opVaesenclast), (0xDE, .vaesdec, .opVaesdec),
   (0xDF, .vaesdeclast, .opVaesdeclast)]

/-- A gather or scatter row: opcode, then kind, handler and lane sizes for W = 0 and W = 1. -/
abbrev LaneTable := List (Nat × (OpKind × Handler × Nat × Nat) × (OpKind × Handler × Nat × Nat))

def laneRow (table : LaneTable) (op : U8) (w : Bool)
    (p : OpKind → Handler → Nat → Nat → Decode Insn) : Option (Decode Insn) :=
  match table.lookup op.toNat with
  | some (row0, row1) =>
    let (kind, handler, dataLane, indexLane) := if w then row1 else row0
    some (p kind handler dataLane indexLane)
  | none => none

def vgatherTable : LaneTable :=
  [(0x90, (.vpgatherdd, .opVpgatherdd, 4, 4), (.vpgatherdq, .opVpgatherdq, 8, 4)),
   (0x91, (.vpgatherqd, .opVpgatherqd, 4, 8), (.vpgatherqq, .opVpgatherqq, 8, 8)),
   (0x92, (.vgatherdps, .opVgatherdps, 4, 4), (.vgatherdpd, .opVgatherdpd, 8, 4)),
   (0x93, (.vgatherqps, .opVgatherqps, 4, 8), (.vgatherqpd, .opVgatherqpd, 8, 8))]

/-- `decode_vex_map2_sse66`. -/
def decodeVexMap2Sse66 (px : Prefixes) (op : U8) (out : Insn) : Decode Insn :=
  Parse.firstOf .unsupportedOpcode
    [tableRow vexMap2SseTable op (decodeVexOpRmv px out),
     laneRow vgatherTable op px.vexW (decodeVgather px out)]

/-- The BLS group: `vvvv` is the destination, the ModRM reg field selects the operation. -/
def decodeBls (px : Prefixes) (out : Insn) : Decode Insn := do
  let m ← readModrm
  let size := if px.vexW then 8 else 4
  let src ← decodeRmOperand px m size
  let out := { markVex out with opSize := size, dst := makeReg px.vexVvvv, src }
  match m.reg with
  | 1 => pure { out with kind := .blsr, handler := .opBlsr }
  | 2 => pure { out with kind := .blsmsk, handler := .opBlsmsk }
  | 3 => pure { out with kind := .blsi, handler := .opBlsi }
  | _ => .fail .unsupportedOpcode

/-- `decode_vex_map2_bmi`. -/
def decodeVexMap2Bmi (px : Prefixes) (out : Insn) : Decode Insn := do
  let op ← readByte
  let gpr := decodeVexGprRmv px out
  Parse.firstOf .unsupportedOpcode
    [Parse.when px.opsizePfx (decodeVexMap2Sse66 px op out),
     Parse.when (op == 0xF2 && px.noMandatory) (gpr .andn .opAndn),
     Parse.when (op == 0xF7 && px.noMandatory) (gpr .bextr .opBextr),
     Parse.when (op == 0xF7 && px.opsizePfx) (gpr .shlx .opShlx),
     Parse.when (op == 0xF7 && px.rep) (gpr .sarx .opSarx),
     Parse.when (op == 0xF7 && px.repne) (gpr .shrx .opShrx),
     Parse.when (op == 0xF5 && px.noMandatory) (gpr .bzhi .opBzhi),
     Parse.when (op == 0xF5 && px.rep) (gpr .pext .opPext),
     Parse.when (op == 0xF5 && px.repne) (gpr .pdep .opPdep),
     Parse.when (op == 0xF6 && px.repne) (gpr .mulx .opMulx),
     Parse.when (op == 0xF3) (decodeBls px out)]

/-- `F2 0F 3A F0`. -/
def decodeRorx (px : Prefixes) (out : Insn) : Decode Insn := do
  let m ← readModrm
  let size := if px.vexW then 8 else 4
  let src ← decodeRmOperand px m size
  let imm ← readImmSx 1
  pure { markVex out with
    opSize := size, kind := .rorx, handler := .opRorx, immExtra := imm &&& 0xFF, src
    dst := makeReg (combineReg px.rexR m.reg) }

/-- `decode_vex_map3_rorx`. -/
def decodeVexMap3Rorx (px : Prefixes) (out : Insn) : Decode Insn := do
  let op ← readByte
  Parse.firstOf .unsupportedOpcode
    [Parse.when (op == 0x44 && px.opsizePfx)
       (withImm8 (decodeVexOpRmv px out .vpclmulqdq .opVpclmulqdq)),
     Parse.when (op == 0xF0 && px.repne) (decodeRorx px out)]

/-! ### EVEX -/

/-- The masking fields in `pad`: `aaa`, then `z`, then `b`. -/
def evexPad (px : Prefixes) (withB : Bool) : U16 :=
  (BitVec.ofNat 16 px.evexAaa &&& 0x7) ||| (if px.evexZ then 0x8 else 0) |||
    (if withB && px.evexB then 0x10 else 0)

/-- The five-bit register of the ModRM reg field. -/
def evexReg (px : Prefixes) (m : ModRm) : Nat :=
  (if px.evexR then 16 else 0) + combineReg px.rexR m.reg

/-- `decode_evex_op_rmv`. With `b` on a register form, L'L is kept in `pad` as the rounding
control. -/
def decodeEvexOpRmv (px : Prefixes) (out : Insn) (kind : OpKind) (handler : Handler) :
    Decode Insn := do
  let m ← readModrm
  let size := px.evexVectorSize
  let rc : U16 := (if px.evexL2 then 2 else 0) ||| (if px.vexL then 1 else 0)
  let pad := evexPad px true ||| (if m.mod = 3 ∧ px.evexB = true then rc <<< 5 else 0)
  let src ← decodeXmmOperand px m size
  pure { markVex out with
    opSize := size, kind, handler, pad, src
    dst := { makeXmm (evexReg px m) with index := px.vexVvvv } }

/-- `decode_evex_op_rm`. -/
def decodeEvexOpRm (px : Prefixes) (out : Insn) (kind : OpKind) (handler : Handler)
    (regToRm : Bool) : Decode Insn := do
  let m ← readModrm
  let size := px.evexVectorSize
  let rmOp ← decodeXmmOperand px m size
  let regOp := makeXmm (evexReg px m)
  pure { markVex out with
    opSize := size, kind, handler, pad := evexPad px true
    dst := if regToRm then rmOp else regOp
    src := if regToRm then regOp else rmOp }

/-- `decode_evex_scatter`: `dst` is the data register, `src` the memory operand. -/
def decodeEvexScatter (px : Prefixes) (out : Insn) (kind : OpKind) (handler : Handler)
    (dataLane indexLane : Nat) : Decode Insn := do
  let m ← readModrm
  if m.mod = 3 then .fail .invalidInstruction
  else do
    let size := px.evexVectorSize
    let src ← decodeRmOperand px m size
    pure { markVex out with
      opSize := size, kind, handler, pad := evexPad px false
      immExtra := laneSizes dataLane indexLane
      dst := makeXmm (evexReg px m), src := { src with pad0 := 1 } }

def evexScatterTable : LaneTable :=
  [(0xA0, (.vpscatterdd, .opVpscatterdd, 4, 4), (.vpscatterdq, .opVpscatterdq, 8, 4)),
   (0xA1, (.vpscatterqd, .opVpscatterqd, 4, 8), (.vpscatterqq, .opVpscatterqq, 8, 8)),
   (0xA2, (.vscatterdps, .opVscatterdps, 4, 4), (.vscatterdpd, .opVscatterdpd, 8, 4)),
   (0xA3, (.vscatterqps, .opVscatterqps, 4, 8), (.vscatterqpd, .opVscatterqpd, 8, 8))]

def decodeEvexMap2 (px : Prefixes) (out : Insn) : Decode Insn := do
  let op ← readByte
  Parse.firstOf .unsupportedOpcode
    [if px.opsizePfx then laneRow evexScatterTable op px.vexW (decodeEvexScatter px out) else none]

/-- Rows that choose by W. -/
def evexWTable (w : Bool) : OpTable :=
  if w then [(0xEF, .vpxorq, .opVpxorq), (0xDB, .vpandq, .opVpandq), (0xEB, .vporq, .opVporq)]
  else [(0xEF, .vpxord, .opVpxord), (0xDB, .vpandd, .opVpandd), (0xEB, .vpord, .opVpord)]

def evex66Table : OpTable :=
  [(0xFC, .vpaddbEvex, .opVpaddbEvex), (0xFD, .vpaddwEvex, .opVpaddwEvex),
   (0xFE, .vpadddEvex, .opVpadddEvex), (0xD4, .vpaddqEvex, .opVpaddqEvex),
   (0xF8, .vpsubbEvex, .opVpsubbEvex), (0xF9, .vpsubwEvex, .opVpsubwEvex),
   (0xFA, .vpsubdEvex, .opVpsubdEvex), (0xFB, .vpsubqEvex, .opVpsubqEvex),
   (0x58, .vaddpdEvex, .opVaddpdEvex), (0x59, .vmulpdEvex, .opVmulpdEvex),
   (0x5C, .vsubpdEvex, .opVsubpdEvex), (0x5D, .vminpdEvex, .opVminpdEvex),
   (0x5E, .vdivpdEvex, .opVdivpdEvex), (0x5F, .vmaxpdEvex, .opVmaxpdEvex)]

def evexNoneTable : OpTable :=
  [(0x58, .vaddpsEvex, .opVaddpsEvex), (0x59, .vmulpsEvex, .opVmulpsEvex),
   (0x5C, .vsubpsEvex, .opVsubpsEvex), (0x5D, .vminpsEvex, .opVminpsEvex),
   (0x5E, .vdivpsEvex, .opVdivpsEvex), (0x5F, .vmaxpsEvex, .opVmaxpsEvex)]

/-- A move whose kind and handler are chosen by W, for opcodes 6F (load) and 7F (store). -/
def evexMove (px : Prefixes) (op : U8) (out : Insn) (row0 row1 : OpKind × Handler) :
    List (Option (Decode Insn)) :=
  let (kind, handler) := if px.vexW then row1 else row0
  [Parse.when (op == 0x6F) (decodeEvexOpRm px out kind handler false),
   Parse.when (op == 0x7F) (decodeEvexOpRm px out kind handler true)]

def decodeEvex (px : Prefixes) (out : Insn) : Decode Insn :=
  if px.vexMap = 2 then decodeEvexMap2 px out
  else if px.vexMap ≠ 1 then .fail .unsupportedOpcode
  else do
    let op ← readByte
    Parse.firstOf .unsupportedOpcode
      ((if px.opsizePfx then
          [tableRow (evexWTable px.vexW) op (decodeEvexOpRmv px out),
           tableRow evex66Table op (decodeEvexOpRmv px out)] ++
            evexMove px op out (.vmovdqa32, .opVmovdqa32) (.vmovdqa64, .opVmovdqa64) ++
            [Parse.when (op == 0x51) (decodeEvexOpRm px out .vsqrtpdEvex .opVsqrtpdEvex false)]
        else []) ++
        (if px.noMandatory then
          [tableRow evexNoneTable op (decodeEvexOpRmv px out),
           Parse.when (op == 0x51) (decodeEvexOpRm px out .vsqrtpsEvex .opVsqrtpsEvex false)]
        else []) ++
        (if px.rep then
          evexMove px op out (.vmovdqu32, .opVmovdqu32) (.vmovdqu64, .opVmovdqu64)
        else []))

/-! ### VEX entry -/

def vex66Table : OpTable :=
  [(0xEF, .vpxor, .opVpxor), (0xDB, .vpand, .opVpand), (0xEB, .vpor, .opVpor),
   (0xFC, .vpaddb, .opVpaddb), (0xFD, .vpaddw, .opVpaddw), (0xFE, .vpaddd, .opVpaddd),
   (0xD4, .vpaddq, .opVpaddq), (0xF8, .vpsubb, .opVpsubb), (0xF9, .vpsubw, .opVpsubw),
   (0xFA, .vpsubd, .opVpsubd), (0xFB, .vpsubq, .opVpsubq)]

def decodeVexMap1 (px : Prefixes) (out : Insn) : Decode Insn := do
  let op ← readByte
  Parse.firstOf .unsupportedOpcode
    [Parse.when (px.opsizePfx && op == 0x6F) (decodeVexOpRm px out .vmovdqa .opVmovdqa false),
     Parse.when (px.opsizePfx && op == 0x7F) (decodeVexOpRm px out .vmovdqa .opVmovdqa true),
     if px.opsizePfx then tableRow vex66Table op (decodeVexOpRmv px out) else none,
     Parse.when (px.rep && op == 0x6F) (decodeVexOpRm px out .vmovdqu .opVmovdqu false),
     Parse.when (px.rep && op == 0x7F) (decodeVexOpRm px out .vmovdqu .opVmovdqu true),
     Parse.when (px.noMandatory && op == 0x77)
       (pure { out with
         kind := if px.vexL then .vzeroall else .vzeroupper
         handler := if px.vexL then .opVzeroall else .opVzeroupper })]

def decodeVex (px : Prefixes) (out : Insn) : Decode Insn :=
  if px.isEvex then decodeEvex px out
  else if px.vexMap = 2 then decodeVexMap2Bmi px out
  else if px.vexMap = 3 then decodeVexMap3Rorx px out
  else if px.vexMap ≠ 1 then .fail .unsupportedOpcode
  else decodeVexMap1 px out

end Decode

end PicoCpu
