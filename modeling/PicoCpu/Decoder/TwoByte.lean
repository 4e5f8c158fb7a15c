import PicoCpu.Decoder.Prefixes

/-!
The two- and three-byte opcode maps `0F`, `0F 38` and `0F 3A`. Rows of a switch that only
choose a kind and a handler for one operand form are tables of opcode, kind and handler.
-/

namespace PicoCpu

namespace Decode

/-- Rows of a switch on the opcode byte. -/
abbrev OpTable := List (Nat × OpKind × Handler)

/-- A parser for the row of `op`, if there is one. -/
def tableRow (table : OpTable) (op : U8) (p : OpKind → Handler → Decode Insn) :
    Option (Decode Insn) :=
  match table.lookup op.toNat with
  | some (kind, handler) => some (p kind handler)
  | none => none

/-- Append an 8-bit immediate in `imm_extra`. -/
def withImm8 (p : Decode Insn) : Decode Insn := do
  let out ← p
  let imm ← readImmSx 1
  pure { out with immExtra := imm &&& 0xFF }

/-- `decode_xmm_rm`. -/
def decodeXmmRm (px : Prefixes) (out : Insn) (kind : OpKind) (handler : Handler) :
    Decode Insn := do
  let m ← readModrm
  let src ← decodeXmmOperand px m 16
  pure { out with opSize := 16, kind, handler, dst := makeXmm (combineReg px.rexR m.reg), src }

/-- `decode_xmm_mr`. -/
def decodeXmmMr (px : Prefixes) (out : Insn) (kind : OpKind) (handler : Handler) :
    Decode Insn := do
  let m ← readModrm
  let dst ← decodeXmmOperand px m 16
  pure { out with opSize := 16, kind, handler, dst, src := makeXmm (combineReg px.rexR m.reg) }

/-- A ModRM form with a register destination and an r/m source, both of size `size`. -/
def decodeRegRm (px : Prefixes) (out : Insn) (size : Nat) (kind : OpKind) (handler : Handler) :
    Decode Insn := do
  let m ← readModrm
  let src ← decodeRmOperand px m size
  pure { out with opSize := size, kind, handler, dst := regOperand px m size, src }

/-- A ModRM form with an r/m destination and a register source, both of size `size`. -/
def decodeRmReg (px : Prefixes) (out : Insn) (size : Nat) (kind : OpKind) (handler : Handler) :
    Decode Insn := do
  let m ← readModrm
  let dst ← decodeRmOperand px m size
  pure { out with opSize := size, kind, handler, dst, src := regOperand px m size }

/-! ### 0F 38 -/

def sha0F38Table : OpTable :=
  [(0xC8, .sha1nexte, .opSha1nexte), (0xC9, .sha1msg1, .opSha1msg1), (0xCA, .sha1msg2, .opSha1msg2),
   (0xCB, .sha256rnds2, .opSha256rnds2), (0xCC, .sha256msg1, .opSha256msg1),
   (0xCD, .sha256msg2, .opSha256msg2)]

def sse0F38Table : OpTable :=
  [(0x00, .pshufb, .opPshufb), (0x1C, .pabsb, .opPabsb), (0x1D, .pabsw, .opPabsw),
   (0x1E, .pabsd, .opPabsd), (0x37, .pcmpgtq, .opPcmpgtq), (0x38, .pminsb, .opPminsw),
   (0x39, .pminsd, .opPminsw), (0x3A, .pminuw, .opPminub), (0x3B, .pminud, .opPminub),
   (0x3C, .pmaxsb, .opPmaxsw), (0x3D, .pmaxsd, .opPmaxsw), (0x3E, .pmaxuw, .opPmaxub),
   (0x3F, .pmaxud, .opPmaxub), (0x20, .pmovsxbw, .opPmovmskb), (0xDB, .aesimc, .opAesimc),
   (0xDC, .aesenc, .opAesenc), (0xDD, .aesenclast, .opAesenclast), (0xDE, .aesdec, .opAesdec),
   (0xDF, .aesdeclast, .opAesdeclast)]

/-- `F2 0F 38 F0/F1`. -/
def decodeCrc32 (px : Prefixes) (op : U8) (out : Insn) : Decode Insn := do
  let m ← readModrm
  let size := if op = 0xF0 then 1 else px.aluSize
  let src ← decodeRmOperand px m size
  pure { out with
    opSize := size, kind := .crc32, handler := .opCrc32, dst := regOperand px m 4, src }

/-- `0F 38 F0/F1`, without F2. -/
def decodeMovbe (px : Prefixes) (op : U8) (out : Insn) : Decode Insn :=
  if op = 0xF0 then decodeRegRm px out px.aluSize .movbe .opMovbe
  else decodeRmReg px out px.aluSize .movbe .opMovbe

def decode0F38 (px : Prefixes) (out : Insn) : Decode Insn := do
  let op ← readByte
  Parse.firstOf .unsupportedOpcode
    [Parse.when ((op == 0xF0 || op == 0xF1) && px.repne) (decodeCrc32 px op out),
     Parse.when (op == 0xF0 || op == 0xF1) (decodeMovbe px op out),
     if px.noMandatory then tableRow sha0F38Table op (decodeXmmRm px out) else none,
     if px.opsizePfx then tableRow sse0F38Table op (decodeXmmRm px out) else none]

/-! ### 0F 3A -/

def imm0F3ATable : OpTable :=
  [(0x08, .roundps, .opRoundps), (0x09, .roundpd, .opRoundpd), (0x0A, .roundss, .opRoundss),
   (0x0B, .roundsd, .opRoundsd), (0x21, .insertps, .opInsertps), (0x44, .pclmulqdq, .opPclmulqdq),
   (0x60, .pcmpestrm, .opPcmpestrm), (0x61, .pcmpestri, .opPcmpestri),
   (0x62, .pcmpistrm, .opPcmpistrm), (0x63, .pcmpistri, .opPcmpistri),
   (0xDF, .aeskeygenassist, .opAeskeygen)]

/-- `PEXTRx r/m, xmm`. -/
def decodePextr (px : Prefixes) (out : Insn) (size : Nat) (kind : OpKind) (handler : Handler) :
    Decode Insn := do
  let m ← readModrm
  let dst ← decodeRmOperand px m size
  pure { out with opSize := size, kind, handler, dst, src := makeXmm (combineReg px.rexR m.reg) }

/-- `PINSRx xmm, r/m`. -/
def decodePinsr (px : Prefixes) (out : Insn) (size : Nat) (kind : OpKind) (handler : Handler) :
    Decode Insn := do
  let m ← readModrm
  let src ← decodeRmOperand px m size
  pure { out with opSize := size, kind, handler, dst := makeXmm (combineReg px.rexR m.reg), src }

def decode0F3A (px : Prefixes) (out : Insn) : Decode Insn := do
  let op ← readByte
  Parse.firstOf .unsupportedOpcode
    [Parse.when (px.noMandatory && op == 0xCC)
       (withImm8 (decodeXmmRm px out .sha1rnds4 .opSha1rnds4)),
     Parse.when (!px.opsizePfx) (.fail .unsupportedOpcode),
     tableRow imm0F3ATable op fun kind handler => withImm8 (decodeXmmRm px out kind handler),
     Parse.when (op == 0x14) (withImm8 (decodePextr px out 1 .pextrb .opPextrb)),
     Parse.when (op == 0x15) (withImm8 (decodePextr px out 2 .pextrw .opPextrw)),
     Parse.when (op == 0x16 && px.rexW) (withImm8 (decodePextr px out 8 .pextrq .opPextrq)),
     Parse.when (op == 0x16) (withImm8 (decodePextr px out 4 .pextrd .opPextrd)),
     Parse.when (op == 0x20) (withImm8 (decodePinsr px out 1 .pinsrb .opPinsrb)),
     Parse.when (op == 0x22 && px.rexW) (withImm8 (decodePinsr px out 8 .pinsrq .opPinsrq)),
     Parse.when (op == 0x22) (withImm8 (decodePinsr px out 4 .pinsrd .opPinsrd))]

/-! ### 0F: SSE -/

def scalarSingleTable : OpTable :=
  [(0x10, .movss, .opMovss), (0x5A, .cvtss2sd, .opCvtss2sd), (0x58, .addss, .opAddss),
   (0x5C, .subss, .opSubss), (0x59, .mulss, .opMulss), (0x5E, .divss, .opDivss),
   (0x51, .sqrtss, .opSqrtss), (0x5D, .minss, .opMinss), (0x5F, .maxss, .opMaxss),
   (0x53, .rcpss, .opRcpss), (0x52, .rsqrtss, .opRsqrtss)]

def scalarDoubleTable : OpTable :=
  [(0x10, .movsd, .opMovsdFp), (0x5A, .cvtsd2ss, .opCvtsd2ss), (0x58, .addsd, .opAddsd),
   (0x5C, .subsd, .opSubsd), (0x59, .mulsd, .opMulsd), (0x5E, .divsd, .opDivsd),
   (0x51, .sqrtsd, .opSqrtsd), (0x5D, .minsd, .opMinsd), (0x5F, .maxsd, .opMaxsd)]

/-- `CVTSI2SS/SD xmm, r/m`. -/
def decodeCvtsi2 (px : Prefixes) (out : Insn) (kind : OpKind) (handler : Handler) :
    Decode Insn := do
  let m ← readModrm
  let intSize := if px.rexW then 8 else 4
  let src ← decodeRmOperand px m intSize
  pure { out with opSize := intSize, kind, handler, dst := makeXmm (combineReg px.rexR m.reg), src }

/-- `CVTTSS2SI/CVTTSD2SI r, xmm/m`. -/
def decodeCvtt2si (px : Prefixes) (out : Insn) (srcSize : Nat) (kind : OpKind)
    (handler : Handler) : Decode Insn := do
  let m ← readModrm
  let intSize := if px.rexW then 8 else 4
  let src ← decodeXmmOperand px m srcSize
  pure { out with opSize := intSize, kind, handler, dst := makeReg (combineReg px.rexR m.reg), src }

/-- The F3/F2 block. F2 selects the double forms, also when both are present. -/
def sseScalar (px : Prefixes) (sec : U8) (out : Insn) : List (Option (Decode Insn)) :=
  if px.repne then
    [tableRow scalarDoubleTable sec (decodeXmmRm px out),
     Parse.when (sec == 0x11) (decodeXmmMr px out .movsd .opMovsdFp),
     Parse.when (sec == 0x2A) (decodeCvtsi2 px out .cvtsi2sd .opCvtsi2sd),
     Parse.when (sec == 0x2C) (decodeCvtt2si px out 8 .cvttsd2si .opCvttsd2si),
     Parse.when (sec == 0x70) (withImm8 (decodeXmmRm px out .pshuflw .opPshuflw))]
  else
    [tableRow scalarSingleTable sec (decodeXmmRm px out),
     Parse.when (sec == 0x11) (decodeXmmMr px out .movss .opMovss),
     Parse.when (sec == 0x2A) (decodeCvtsi2 px out .cvtsi2ss .opCvtsi2ss),
     Parse.when (sec == 0x2C) (decodeCvtt2si px out 4 .cvttss2si .opCvttss2si),
     Parse.when (sec == 0x70) (withImm8 (decodeXmmRm px out .pshufhw .opPshufhw))]

def packedDoubleTable : OpTable :=
  [(0x10, .movupd, .opMovupd), (0x28, .movapd, .opMovupd), (0x2E, .ucomisd, .opUcomisd),
   (0x2F, .ucomisd, .opUcomisd), (0x58, .addpd, .opAddpd), (0x5C, .subpd, .opSubpd),
   (0x59, .mulpd, .opMulpd), (0x5E, .divpd, .opDivpd), (0x51, .sqrtpd, .opSqrtpd),
   (0x57, .xorpd, .opXorpd), (0x54, .andpd, .opAndps), (0x56, .orpd, .opOrps)]

def ssePackedDouble (px : Prefixes) (sec : U8) (out : Insn) : List (Option (Decode Insn)) :=
  [tableRow packedDoubleTable sec (decodeXmmRm px out),
   Parse.when (sec == 0x11) (decodeXmmMr px out .movupd .opMovupd),
   Parse.when (sec == 0x29) (decodeXmmMr px out .movapd .opMovupd)]

def packedSingleTable : OpTable :=
  [(0x10, .movups, .opMovups), (0x28, .movaps, .opMovups), (0x2E, .ucomiss, .opUcomiss),
   (0x2F, .ucomiss, .opUcomiss), (0x58, .addps, .opAddps), (0x5C, .subps, .opSubps),
   (0x59, .mulps, .opMulps), (0x5E, .divps, .opDivps), (0x51, .sqrtps, .opSqrtps),
   (0x57, .xorps, .opXorps), (0x54, .andps, .opAndps), (0x56, .orps, .opOrps),
   (0x53, .rcpps, .opRcpps), (0x52, .rsqrtps, .opRsqrtps)]

/-- `MOVMSKPS`, `MOVMSKPD` and `PMOVMSKB`: the r/m field is taken as a vector register
whatever `mod` says. -/
def decodeMovmsk (px : Prefixes) (out : Insn) (kind : OpKind) (handler : Handler) :
    Decode Insn := do
  let m ← readModrm
  pure { out with
    opSize := 4, kind, handler
    dst := makeReg (combineReg px.rexR m.reg), src := makeXmm (combineReg px.rexB m.rm) }

def ssePackedSingle (px : Prefixes) (sec : U8) (out : Insn) : List (Option (Decode Insn)) :=
  [tableRow packedSingleTable sec (decodeXmmRm px out),
   Parse.when (sec == 0x11) (decodeXmmMr px out .movups .opMovups),
   Parse.when (sec == 0x29) (decodeXmmMr px out .movaps .opMovups),
   Parse.when (sec == 0xC6) (withImm8 (decodeXmmRm px out .shufps .opShufps)),
   Parse.when (sec == 0x50) (decodeMovmsk px out .movmskps .opMovmskps)]

def sse2IntegerTable : OpTable :=
  [(0x6F, .movdqa, .opMovdqa), (0xEF, .pxor, .opPxor), (0xDB, .pand, .opPand), (0xEB, .por, .opPor),
   (0xFC, .paddb, .opPaddb), (0xFD, .paddw, .opPaddw), (0xFE, .paddd, .opPaddd),
   (0xD4, .paddq, .opPaddq), (0xF8, .psubb, .opPsubb), (0xF9, .psubw, .opPsubw),
   (0xFA, .psubd, .opPsubd), (0xFB, .psubq, .opPsubq), (0x74, .pcmpeqb, .opPcmpeqb),
   (0x75, .pcmpeqw, .opPcmpeqw), (0x76, .pcmpeqd, .opPcmpeqd), (0xD5, .pmullw, .opPmullw),
   (0xE5, .pmulhw, .opPmulhw), (0xE4, .pmulhuw, .opPmulhuw), (0xF5, .pmaddwd, .opPmaddwd),
   (0xF1, .psllw, .opPsllw), (0xF2, .pslld, .opPslld), (0xF3, .psllq, .opPsllq),
   (0xD1, .psrlw, .opPsrlw), (0xD2, .psrld, .opPsrld), (0xD3, .psrlq, .opPsrlq),
   (0xE1, .psraw, .opPsraw), (0xE2, .psrad, .opPsrad), (0x60, .punpcklbw, .opPunpcklbw),
   (0x61, .punpcklwd, .opPunpcklwd), (0x62, .punpckldq, .opPunpckldq),
   (0x6C, .punpcklqdq, .opPunpcklqdq), (0x68, .punpckhbw, .opPunpckhbw),
   (0x69, .punpckhwd, .opPunpckhwd), (0x6A, .punpckhdq, .opPunpckhdq),
   (0x6D, .punpckhqdq, .opPunpckhqdq)]

/-- `MOVD/MOVQ xmm, r/m`. -/
def decodeMovdToXmm (px : Prefixes) (out : Insn) : Decode Insn := do
  let m ← readModrm
  let size := if px.rexW then 8 else 4
  let src ← decodeRmOperand px m size
  pure { out with
    opSize := size, kind := if px.rexW then .movq else .movd, handler := .opMovdToXmm
    dst := makeXmm (combineReg px.rexR m.reg), src }

/-- `MOVD/MOVQ r/m, xmm`. -/
def decodeMovdFromXmm (px : Prefixes) (out : Insn) : Decode Insn := do
  let m ← readModrm
  let size := if px.rexW then 8 else 4
  let dst ← decodeRmOperand px m size
  pure { out with
    opSize := size, kind := if px.rexW then .movq else .movd, handler := .opMovdFromXmm
    dst, src := makeXmm (combineReg px.rexR m.reg) }

def sse2Integer (px : Prefixes) (sec : U8) (out : Insn) : List (Option (Decode Insn)) :=
  [tableRow sse2IntegerTable sec (decodeXmmRm px out),
   Parse.when (sec == 0x7F) (decodeXmmMr px out .movdqa .opMovdqa),
   Parse.when (sec == 0x6E) (decodeMovdToXmm px out),
   Parse.when (sec == 0x7E) (decodeMovdFromXmm px out),
   Parse.when (sec == 0xC6) (withImm8 (decodeXmmRm px out .shufpd .opShufpd)),
   Parse.when (sec == 0xD7) (decodeMovmsk px out .pmovmskb .opPmovmskb),
   Parse.when (sec == 0x50) (decodeMovmsk px out .movmskpd .opMovmskpd),
   Parse.when (sec == 0x70) (withImm8 (decodeXmmRm px out .pshufd .opPshufd))]

/-- `F3 0F 7E`: `MOVQ xmm, xmm/m64`. -/
def decodeMovqXmm (px : Prefixes) (out : Insn) : Decode Insn := do
  let m ← readModrm
  let src ← decodeXmmOperand px m 8
  pure { out with
    opSize := 8, kind := .movq, handler := .opMovdFromXmm
    dst := makeXmm (combineReg px.rexR m.reg), src }

def sseRep (px : Prefixes) (sec : U8) (out : Insn) : List (Option (Decode Insn)) :=
  [Parse.when (sec == 0x6F) (decodeXmmRm px out .movdqu .opMovdqu),
   Parse.when (sec == 0x7F) (decodeXmmMr px out .movdqu .opMovdqu),
   Parse.when (sec == 0x7E) (decodeMovqXmm px out)]

/-! ### 0F: general-purpose -/

/-- Group 8, `0F BA`: the immediate is read before the group is checked. -/
def decodeGroup8 (px : Prefixes) (out : Insn) : Decode Insn := do
  let m ← readModrm
  let dst ← decodeRmOperand px m px.aluSize
  let imm ← readImmSx 1
  let out := { out with opSize := px.aluSize, dst, src := makeImm imm }
  match m.reg with
  | 4 => pure { out with kind := .bt, handler := .opBt }
  | 5 => pure { out with kind := .bts, handler := .opBts }
  | 6 => pure { out with kind := .btr, handler := .opBtr }
  | 7 => pure { out with kind := .btc, handler := .opBtc }
  | _ => .fail .unsupportedOpcode

/-- `0F 18`: prefetch hints. -/
def decodePrefetch (px : Prefixes) (out : Insn) : Decode Insn := do
  let m ← readModrm
  let src ← decodeRmOperand px m 1
  let kind : OpKind :=
    match m.reg with
    | 1 => .prefetcht0
    | 2 => .prefetcht1
    | 3 => .prefetcht2
    | _ => .prefetchnta
  pure { out with opSize := 1, kind, handler := .opPrefetch, src }

/-- Group 15, `0F AE`: fences and `CLFLUSH`. -/
def decodeGroup15 (px : Prefixes) (out : Insn) : Decode Insn := do
  let m ← readModrm
  if m.mod = 3 then
    match m.reg with
    | 5 => pure { out with kind := .lfence, handler := .opFence }
    | 6 => pure { out with kind := .mfence, handler := .opFence }
    | 7 => pure { out with kind := .sfence, handler := .opFence }
    | _ => .fail .unsupportedOpcode
  else if m.reg = 7 then do
    let src ← decodeRmOperand px m 1
    pure { out with opSize := 1, kind := .clflush, handler := .opClflush, src }
  else .fail .unsupportedOpcode

/-- `0F 1F`: the multi-byte no-op. -/
def decodeNopHint (px : Prefixes) (out : Insn) : Decode Insn := do
  let m ← readModrm
  if m.mod = 3 then pure { out with opSize := 1, kind := .nop, handler := .opNop }
  else do
    let src ← decodeRmOperand px m 1
    pure { out with opSize := 1, kind := .nop, handler := .opNop, src }

/-- `0F C7 /6` and `/7`. -/
def decodeRdrand (px : Prefixes) (out : Insn) : Decode Insn := do
  let m ← readModrm
  if m.reg = 6 ∨ m.reg = 7 then do
    let dst ← decodeRmOperand px m px.aluSize
    pure { out with
      opSize := px.aluSize, kind := if m.reg = 6 then .rdrand else .rdseed
      handler := .opRdrand, dst }
  else .fail .unsupportedOpcode

/-- `SHLD` and `SHRD`: the second register goes into `dst.index`. -/
def decodeDoubleShift (px : Prefixes) (out : Insn) (byImm : Bool) (kind : OpKind)
    (handler : Handler) : Decode Insn := do
  let m ← readModrm
  let dst ← decodeRmOperand px m px.aluSize
  let dst := { dst with index := combineReg px.rexR m.reg }
  let out := { out with opSize := px.aluSize, kind, handler, dst }
  if byImm then do
    let imm ← readImmSx 1
    pure { out with src := makeImm imm, immExtra := imm }
  else pure { out with src := makeReg Reg.rcx }

/-- `MOVZX`, `MOVSX` and `MOVSXD`: the source size goes into `src.scale`. -/
def decodeExtend (px : Prefixes) (out : Insn) (srcSize : Nat) (kind : OpKind)
    (handler : Handler) : Decode Insn := do
  let m ← readModrm
  let src ← decodeRmOperand px m srcSize
  pure { out with
    opSize := px.aluSize, kind, handler, dst := regOperand px m px.aluSize
    src := { src with scale := srcSize } }

/-- `BSWAP`. -/
def decodeBswap (px : Prefixes) (sec : U8) (out : Insn) : Decode Insn :=
  pure { out with
    opSize := if px.rexW then 8 else 4, kind := .bswap, handler := .opBswap
    dst := makeReg (combineReg px.rexB (sec.toNat - 0xC8)) }

/-- A branch with a displacement of `size` bytes. -/
def decodeRel (out : Insn) (size : Nat) (kind : OpKind) (handler : Handler) (cond : Cc) :
    Decode Insn := do
  let disp ← readImmSx size
  pure { out with
    opSize := size, kind, handler, cond, dst := makeRel disp
    flags := { out.flags with controlFlow := true } }

def bitScanRepTable : OpTable :=
  [(0xB8, .popcnt, .opPopcnt), (0xBC, .tzcnt, .opTzcnt), (0xBD, .lzcnt, .opLzcnt)]

def bitScanTable : OpTable := [(0xBC, .bsf, .opBsf), (0xBD, .bsr, .opBsr)]

def bitTestTable : OpTable :=
  [(0xA3, .bt, .opBt), (0xAB, .bts, .opBts), (0xB3, .btr, .opBtr), (0xBB, .btc, .opBtc)]

def generalTwoByte (px : Prefixes) (sec : U8) (out : Insn) : List (Option (Decode Insn)) :=
  [if px.rep then tableRow bitScanRepTable sec (decodeRegRm px out px.aluSize) else none,
   if px.rep then none else tableRow bitScanTable sec (decodeRegRm px out px.aluSize),
   tableRow bitTestTable sec (decodeRmReg px out px.aluSize),
   Parse.when (sec == 0xBA) (decodeGroup8 px out),
   Parse.when (0x40 ≤ sec.toNat && sec.toNat ≤ 0x4F)
     (decodeRegRm px { out with cond := Cc.ofNibble sec.toNat } px.aluSize .cmov .opCmov),
   Parse.when (0x80 ≤ sec.toNat && sec.toNat ≤ 0x8F)
     (decodeRel out 4 .jcc .opJcc (Cc.ofNibble sec.toNat)),
   Parse.when (sec == 0x05)
     (pure { out with
       kind := .syscall, handler := .opSyscall, flags := { out.flags with controlFlow := true } }),
   Parse.when (sec == 0x0B) (.fail .invalidInstruction),
   Parse.when (sec == 0x18) (decodePrefetch px out),
   Parse.when (sec == 0xAE) (decodeGroup15 px out),
   Parse.when (sec == 0x1F) (decodeNopHint px out),
   Parse.when (sec == 0x31) (pure { out with kind := .rdtsc, handler := .opRdtsc }),
   Parse.when (sec == 0xA2) (pure { out with kind := .cpuid, handler := .opCpuid }),
   Parse.when (0xC8 ≤ sec.toNat && sec.toNat ≤ 0xCF) (decodeBswap px sec out),
   Parse.when (sec == 0xC7) (decodeRdrand px out),
   Parse.when (sec == 0xA4) (decodeDoubleShift px out true .shld .opShld),
   Parse.when (sec == 0xA5) (decodeDoubleShift px out false .shld .opShld),
   Parse.when (sec == 0xAC) (decodeDoubleShift px out true .shrd .opShrd),
   Parse.when (sec == 0xAD) (decodeDoubleShift px out false .shrd .opShrd),
   Parse.when (sec == 0xAF) (decodeRegRm px out px.aluSize .imul .opImul),
   Parse.when (sec == 0xB6) (decodeExtend px out 1 .movZx .opMovzx),
   Parse.when (sec == 0xB7) (decodeExtend px out 2 .movZx .opMovzx),
   Parse.when (sec == 0xBE) (decodeExtend px out 1 .movSx .opMovsx),
   Parse.when (sec == 0xBF) (decodeExtend px out 2 .movSx .opMovsx)]

/-- `decode_two_byte`. The SSE blocks come first, in the order of the source; an opcode a
block does not list falls through to the next. -/
def decodeTwoByte (px : Prefixes) (out : Insn) : Decode Insn := do
  let sec ← readByte
  Parse.firstOf .unsupportedOpcode
    ([Parse.when (sec == 0x38) (decode0F38 px out), Parse.when (sec == 0x3A) (decode0F3A px out)] ++
      (if px.rep || px.repne then sseScalar px sec out else []) ++
      (if px.opsizePfx then ssePackedDouble px sec out else []) ++
      (if px.noMandatory then ssePackedSingle px sec out else []) ++
      (if px.opsizePfx then sse2Integer px sec out else []) ++
      (if px.rep then sseRep px sec out else []) ++
      generalTwoByte px sec out)

end Decode

end PicoCpu
