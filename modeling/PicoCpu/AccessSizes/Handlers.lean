import PicoCpu.AccessSizes.Scalar
import PicoCpu.AccessSizes.Vector
import PicoCpu.BlockCache
import PicoCpu.Execute

/-!
No handler accesses more than 64 bytes at a time, on an instruction the decoder accepts.
-/

namespace PicoCpu

namespace NarrowAccess

theorem callHandler (fp : HostFp) (h : Handler) {insn : Insn} (hi : insn.Narrow) :
    NarrowAccess (PicoCpu.callHandler fp h insn) := by
  delta PicoCpu.callHandler
  cases h with
  | nullptr => exact exit
  | opInvalid | opHlt | opSyscall | opInt3 | opIntN =>
      exact raiseAtRip ..
  | opNop | opFence | opPause | opClflush | opPrefetch =>
      exact ret ()
  | opMov => exact opMov hi
  | opMovzx => exact opMovzx hi
  | opMovsx => exact opMovsx hi
  | opMovsxd => exact opMovsxd hi
  | opMovbe => exact opMovbe hi
  | opBswap => exact opBswap hi
  | opLea => exact opLea hi
  | opPush => exact opPush hi
  | opPop => exact opPop hi
  | opXchg => exact opXchg hi
  | opCmov => exact opCmov hi
  | opCwde => exact opCwde insn
  | opCdq => exact opCdq insn
  | opAdd | opSub | opAnd | opOr | opXor =>
      exact binaryAlu hi
  | opAdc | opSbb =>
      exact carryAlu hi
  | opInc | opDec | opNeg =>
      exact unaryAlu hi
  | opTest | opCmp =>
      exact compareAlu hi
  | opNot => exact opNot hi
  | opImul => exact opImul hi
  | opImul1 | opMul =>
      exact wideMul hi
  | opDiv => exact opDiv hi
  | opIdiv => exact opIdiv hi
  | opShl | opShr | opSar | opRol | opRor =>
      exact shiftAlu hi
  | opRcl => exact opRcl hi
  | opRcr => exact opRcr hi
  | opShld | opShrd =>
      exact doubleShift hi
  | opBsf | opBsr =>
      exact bitScan hi
  | opBt => exact opBt hi
  | opBts | opBtr | opBtc =>
      exact bitTestUpdate hi
  | opPopcnt | opLzcnt | opTzcnt =>
      exact bitCount hi
  | opAndn | opBextr | opBlsi | opBlsr | opBlsmsk | opBzhi | opPdep | opPext | opRorx | opSarx |
    opShlx | opShrx =>
      exact bmiOp hi
  | opMulx => exact opMulx hi
  | opCrc32 => exact opCrc32 hi
  | opJmp => exact opJmp insn
  | opJcc => exact opJcc insn
  | opCall => exact opCall insn
  | opRet => exact opRet insn
  | opLoop => exact opLoop insn
  | opJcxz => exact opJcxz insn
  | opCpuid | opLahf | opSahf =>
      exact modify _
  | opRdtsc => exact opRdtsc insn
  | opRdrand => exact opRdrand hi
  | opMovs => exact runString (movsStep hi.opSize) insn
  | opStos => exact runString (stosStep hi.opSize) insn
  | opLods => exact runString (lodsStep hi.opSize) insn
  | opScas => exact runString (scasStep hi.opSize) insn
  | opCmps => exact runString (cmpsStep hi.opSize) insn
  | opPushf => exact opPushf insn
  | opPopf => exact opPopf insn
  | opMovdqa | opPshufd | opMovups | opPshufhw | opPshuflw | opAesimc | opAeskeygen | opRoundps
  | opRoundpd | opPabsb | opPabsw | opPabsd =>
      exact xmmUnary ..
  | opMovdqu => exact xmmUnary Handlers.sseIo fun _ v => v
  | opMovupd => exact xmmUnary Handlers.fpIo fun _ v => v
  | opRcpps | opRsqrtps =>
      exact packedApprox _
  | opPxor | opPand | opPor | opPaddb | opPaddw | opPaddd | opPaddq | opPsubb | opPsubw |
    opPsubd | opPsubq | opPcmpeqb | opPcmpeqw | opPcmpeqd =>
      exact binaryXmm _
  | opXorps | opXorpd =>
      exact binaryXmm (map8 fun a b => a ^^^ b)
  | opAndps => exact binaryXmm (map8 fun a b => a &&& b)
  | opOrps => exact binaryXmm (map8 fun a b => a ||| b)
  | opAddps | opSubps | opMulps | opDivps | opSqrtps | opAddpd | opSubpd | opMulpd | opDivpd |
    opSqrtpd =>
      exact packedFp _
  | opShufps | opShufpd | opPshufb | opPmaddwd | opAesenc | opAesenclast | opAesdec |
    opAesdeclast | opPclmulqdq | opRoundss | opRoundsd | opInsertps =>
      exact xmmBinary ..
  | opRcpss | opRsqrtss =>
      exact scalarApprox _
  | opPmullw | opPmulhw | opPmulhuw =>
      exact packedMul16 _
  | opPunpcklbw | opPunpcklwd | opPunpckldq | opPunpcklqdq | opPunpckhbw | opPunpckhwd |
    opPunpckhdq | opPunpckhqdq =>
      exact unpck _ _
  | opPcmpgtb | opPcmpgtw | opPcmpgtd | opPcmpgtq | opPmaxub | opPmaxsw | opPminub | opPminsw |
    opPsadbw =>
      exact packed4 _
  | opMovdToXmm => exact opMovdToXmm hi
  | opMovdFromXmm => exact opMovdFromXmm hi
  | opMovss | opMovsdFp =>
      exact scalarMove (by decide) _
  | opAddss | opSubss | opMulss | opDivss | opSqrtss | opMinss | opMaxss =>
      exact scalarSingle _
  | opAddsd | opSubsd | opMulsd | opDivsd | opSqrtsd | opMinsd | opMaxsd =>
      exact scalarDouble _
  | opUcomiss | opUcomisd =>
      exact compareScalar (by decide) _
  | opCvtsi2ss | opCvtsi2sd =>
      exact convertInto hi.opSize _ _
  | opCvtss2sd => exact convertInto (by decide : 4 ≤ 64) _ _
  | opCvtsd2ss => exact convertInto (by decide : 8 ≤ 64) _ _
  | opCvttss2si | opCvttsd2si =>
      exact truncateTo hi (by decide) _
  | opPmovmskb | opMovmskps | opMovmskpd =>
      exact moveMask _
  | opPsllw | opPslld | opPsllq | opPsrlw | opPsrld | opPsrlq | opPsraw | opPsrad =>
      exact packedShift _
  | opPextrb | opPextrw =>
      exact extractElement hi.opSize _
  | opPextrd => exact extractElement (by decide : 4 ≤ 64) _
  | opPextrq => exact extractElement (by decide : 8 ≤ 64) _
  | opPinsrb | opPinsrw | opPinsrd | opPinsrq =>
      exact insertElement (by decide) _
  | opVpshufb | opVaesenc | opVaesenclast | opVaesdec | opVaesdeclast | opVpcmpgtq |
    opVpclmulqdq =>
      exact vexBinopXmm _
  | opSha1rnds4 | opSha1nexte | opSha1msg1 | opSha1msg2 | opSha256msg1 | opSha256msg2 =>
      exact shaBinary _
  | opSha256rnds2 => exact opSha256rnds2
  | opPcmpestri | opPcmpestrm | opPcmpistri | opPcmpistrm =>
      exact pcmpstrCore ..
  | opVpxor | opVpand | opVpor | opVpaddb | opVpaddw | opVpaddd | opVpaddq | opVpsubb | opVpsubw
  | opVpsubd | opVpsubq =>
      exact vexBinop hi _
  | opVmovdqa | opVmovdqu =>
      exact opVmovdqa hi
  | opVzeroupper | opVzeroall =>
      exact modify _
  | opVpxord | opVpxorq | opVpaddbEvex | opVpaddwEvex | opVpadddEvex | opVpaddqEvex |
    opVpsubbEvex | opVpsubwEvex | opVpsubdEvex | opVpsubqEvex | opVpandd | opVpandq | opVpord |
    opVporq =>
      exact maskedBinop hi _ _
  | opVmovdqu32 | opVmovdqu64 | opVmovdqa32 | opVmovdqa64 =>
      exact maskedMove hi _
  | opVaddpsEvex | opVaddpdEvex | opVsubpsEvex | opVsubpdEvex | opVmulpsEvex | opVmulpdEvex |
    opVdivpsEvex | opVdivpdEvex | opVminpsEvex | opVminpdEvex | opVmaxpsEvex | opVmaxpdEvex =>
      exact fpBinop hi (by decide) _
  | opVsqrtpsEvex | opVsqrtpdEvex =>
      exact fpUnop hi (by decide) _
  | opVpgatherdd | opVpgatherdq | opVpgatherqd | opVpgatherqq | opVgatherdps | opVgatherdpd |
    opVgatherqps | opVgatherqpd =>
      exact doGather hi
  | opVpscatterdd | opVpscatterdq | opVpscatterqd | opVpscatterqq | opVscatterdps |
    opVscatterdpd | opVscatterqps | opVscatterqpd =>
      exact doScatter hi
  | opFld => exact opFld fp
  | opFst => exact opFst fp
  | opFstp => exact opFstp fp
  | opFild => exact opFild hi fp
  | opFistp => exact opFistp hi fp
  | opFcom => exact opFcom fp
  | opFcomp | opFcompp =>
      exact (opFcom fp).attempt.bind fun _ => modify _
  | opFadd | opFsub | opFmul | opFdiv =>
      exact fpOpWith fp _
  | opFchs | opFabs | opFsqrt | opFsin | opFcos | opF2xm1 | opFrndint | opFaddp | opFsubp |
    opFmulp | opFdivp | opFpatan | opFyl2x | opFxch | opFscale | opFninit =>
      exact modify _
  | opFnstsw => exact opFnstsw
  | opFnstcw => exact opFnstcw
  | opFldcw => exact opFldcw

end NarrowAccess

/-- `VMOVDQU32 [rbx], zmm0`, the widest of the stores. -/
def wideStore : CodeBytes := fun a =>
  match ([0x62, 0xF1, 0x7E, 0x48, 0x7F, 0x03] : List U8)[(a - 0x1000).toNat]? with
  | some b => .ok b
  | none => .error .unmappedRead

/-- A memory that takes everything. -/
def acceptsAll : MemoryProvider Unit where
  read _ _ _ s := (.ok (), fun _ => 0, s)
  write _ _ _ s := (.ok (), s)

end PicoCpu
