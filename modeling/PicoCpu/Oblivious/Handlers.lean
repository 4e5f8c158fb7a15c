import PicoCpu.Oblivious.Integer
import PicoCpu.Oblivious.Flow
import PicoCpu.Oblivious.Vector
import PicoCpu.Execute

/-!
No handler can tell how the flags are kept.
-/

namespace PicoCpu

namespace Oblivious

open Cpu

variable {L : Option (List CpuidLeaf)} {t : Bool}

/-- The handlers that read the counters of the host. -/
def clocked (h : Handler) : Bool := h == .opRdtsc || h == .opRdrand

theorem callHandler (fp : HostFp) (h : Handler) (hclock : clocked h → t = true) (insn : Insn) :
    Oblivious L t (PicoCpu.callHandler fp h insn) := by
  delta PicoCpu.callHandler
  cases h with
  | nullptr => exact exit
  | opInvalid | opHlt | opSyscall | opInt3 | opIntN =>
      exact raiseAtRip ..
  | opNop | opFence | opPause | opClflush | opPrefetch =>
      exact ret ()
  | opMov => exact opMov insn
  | opMovzx => exact opMovzx insn
  | opMovsx => exact opMovsx insn
  | opMovsxd => exact opMovsxd insn
  | opMovbe => exact opMovbe insn
  | opBswap => exact opBswap insn
  | opLea => exact opLea insn
  | opPush => exact opPush insn
  | opPop => exact opPop insn
  | opXchg => exact opXchg insn
  | opCmov => exact opCmov insn
  | opCwde => exact opCwde insn
  | opCdq => exact opCdq insn
  | opAdd => exact binaryAlu keeps_stashAdd insn
  | opSub => exact binaryAlu keeps_stashSub insn
  | opAnd => exact binaryAlu keeps_logicStash insn
  | opOr => exact binaryAlu keeps_logicStash insn
  | opXor => exact binaryAlu keeps_logicStash insn
  | opAdc => exact carryAlu keeps_stashAdc insn
  | opSbb => exact carryAlu keeps_stashSbb insn
  | opInc => exact unaryAlu (fun size _ r => keeps_stashInc size r) insn
  | opDec => exact unaryAlu (fun size _ r => keeps_stashDec size r) insn
  | opNeg => exact unaryAlu keeps_stashNeg insn
  | opTest => exact compareAlu keeps_logicStash insn
  | opCmp => exact compareAlu keeps_stashSub insn
  | opNot => exact opNot insn
  | opImul => exact opImul insn
  | opImul1 | opMul =>
      exact wideMul insn
  | opDiv => exact opDiv insn
  | opIdiv => exact opIdiv insn
  | opShl => exact shiftAlu (keeps_stashShift (.inl rfl)) insn
  | opShr => exact shiftAlu (keeps_stashShift (.inr (.inl rfl))) insn
  | opSar => exact shiftAlu (keeps_stashShift (.inr (.inr rfl))) insn
  | opRol => exact shiftAlu (keeps_stashRotate .rol CcOp.noConfusion) insn
  | opRor => exact shiftAlu (keeps_stashRotate .ror CcOp.noConfusion) insn
  | opRcl => exact opRcl insn
  | opRcr => exact opRcr insn
  | opShld => exact doubleShift (keeps_stashShift (.inl rfl)) insn
  | opShrd => exact doubleShift (keeps_stashShift (.inr (.inl rfl))) insn
  | opBsf | opBsr =>
      exact bitScan insn
  | opBt => exact opBt insn
  | opBts | opBtr | opBtc =>
      exact bitTestUpdate insn
  | opPopcnt => exact bitCount keeps_popcntFlags insn
  | opLzcnt | opTzcnt =>
      exact bitCount keeps_zeroCountFlags insn
  | opAndn => exact bmiOp (fun insn _ _ r => keeps_stashLogic insn.opSize r) insn
  | opBextr => exact bmiOp (fun _ _ _ r => keeps_bmiFlags false (r == 0) false) insn
  | opBlsi => exact bmiOp (fun _ src _ r => keeps_bmiFlags (src != 0) (r == 0) _) insn
  | opBlsr => exact bmiOp (fun _ src _ r => keeps_bmiFlags (src == 0) (r == 0) _) insn
  | opBlsmsk => exact bmiOp (fun _ src _ _ => keeps_bmiFlags (src == 0) false _) insn
  | opBzhi => exact bmiOp (fun _ _ _ r => keeps_bmiFlags _ (r == 0) _) insn
  | opPdep | opPext | opRorx | opSarx | opShlx | opShrx =>
      exact bmiOp (fun _ _ _ _ => keeps_id) insn
  | opMulx => exact opMulx insn
  | opCrc32 => exact opCrc32 insn
  | opJmp => exact opJmp insn
  | opJcc => exact opJcc insn
  | opCall => exact opCall insn
  | opRet => exact opRet insn
  | opLoop => exact opLoop insn
  | opJcxz => exact opJcxz insn
  | opCpuid => exact opCpuid insn
  | opRdtsc =>
      obtain rfl := hclock rfl
      exact opRdtsc insn
  | opRdrand =>
      obtain rfl := hclock rfl
      exact opRdrand insn
  | opMovs => exact runString (movsStep _) insn
  | opStos => exact runString (stosStep _) insn
  | opLods => exact runString (lodsStep _) insn
  | opScas => exact runString (scasStep _) insn
  | opCmps => exact runString (cmpsStep _) insn
  | opLahf => exact opLahf insn
  | opSahf => exact opSahf insn
  | opPushf => exact opPushf insn
  | opPopf => exact opPopf insn
  | opMovdqa | opPshufd | opMovups | opPshufhw | opPshuflw | opAesimc | opAeskeygen | opRoundps
  | opRoundpd | opPabsb | opPabsw | opPabsd =>
      exact xmmUnary ..
  | opMovdqu => exact xmmUnary Handlers.sseIo (fun _ v => v) insn
  | opMovupd => exact xmmUnary Handlers.fpIo (fun _ v => v) insn
  | opRcpps | opRsqrtps =>
      exact packedApprox ..
  | opPxor | opPand | opPor | opPaddb | opPaddw | opPaddd | opPaddq | opPsubb | opPsubw |
    opPsubd | opPsubq | opPcmpeqb | opPcmpeqw | opPcmpeqd =>
      exact binaryXmm ..
  | opXorps | opXorpd =>
      exact binaryXmm (map8 fun a b => a ^^^ b) insn
  | opAndps => exact binaryXmm (map8 fun a b => a &&& b) insn
  | opOrps => exact binaryXmm (map8 fun a b => a ||| b) insn
  | opAddps | opSubps | opMulps | opDivps | opSqrtps | opAddpd | opSubpd | opMulpd | opDivpd |
    opSqrtpd =>
      exact packedFp ..
  | opShufps | opShufpd | opPshufb | opPmaddwd | opAesenc | opAesenclast | opAesdec |
    opAesdeclast | opPclmulqdq | opRoundss | opRoundsd | opInsertps =>
      exact xmmBinary ..
  | opRcpss | opRsqrtss =>
      exact scalarApprox ..
  | opPmullw | opPmulhw | opPmulhuw =>
      exact packedMul16 ..
  | opPunpcklbw | opPunpcklwd | opPunpckldq | opPunpcklqdq | opPunpckhbw | opPunpckhwd |
    opPunpckhdq | opPunpckhqdq =>
      exact unpck ..
  | opPcmpgtb | opPcmpgtw | opPcmpgtd | opPcmpgtq | opPmaxub | opPmaxsw | opPminub | opPminsw |
    opPsadbw =>
      exact packed4 ..
  | opMovdToXmm => exact opMovdToXmm insn
  | opMovdFromXmm => exact opMovdFromXmm insn
  | opMovss | opMovsdFp =>
      exact scalarMove ..
  | opAddss | opSubss | opMulss | opDivss | opSqrtss | opMinss | opMaxss =>
      exact scalarSingle ..
  | opAddsd | opSubsd | opMulsd | opDivsd | opSqrtsd | opMinsd | opMaxsd =>
      exact scalarDouble ..
  | opUcomiss | opUcomisd =>
      exact compareScalar _ (fun _ _ => keeps_setCompareFlags ..) insn
  | opCvtsi2ss | opCvtsi2sd | opCvtss2sd | opCvtsd2ss =>
      exact convertInto ..
  | opCvttss2si | opCvttsd2si =>
      exact truncateTo ..
  | opPmovmskb | opMovmskps | opMovmskpd =>
      exact moveMask ..
  | opPsllw | opPslld | opPsllq | opPsrlw | opPsrld | opPsrlq | opPsraw | opPsrad =>
      exact packedShift ..
  | opPextrb | opPextrw | opPextrd | opPextrq =>
      exact extractElement ..
  | opPinsrb | opPinsrw | opPinsrd | opPinsrq =>
      exact insertElement ..
  | opVpshufb | opVaesenc | opVaesenclast | opVaesdec | opVaesdeclast | opVpcmpgtq |
    opVpclmulqdq =>
      exact vexBinopXmm ..
  | opSha1rnds4 | opSha1nexte | opSha1msg1 | opSha1msg2 | opSha256msg1 | opSha256msg2 =>
      exact shaBinary ..
  | opSha256rnds2 => exact opSha256rnds2 insn
  | opPcmpestri | opPcmpestrm | opPcmpistri | opPcmpistrm =>
      exact pcmpstrCore ..
  | opVpxor | opVpand | opVpor | opVpaddb | opVpaddw | opVpaddd | opVpaddq | opVpsubb | opVpsubw
  | opVpsubd | opVpsubq =>
      exact vexBinop ..
  | opVmovdqa | opVmovdqu =>
      exact opVmovdqa insn
  | opVzeroupper => exact opVzeroupper insn
  | opVzeroall => exact opVzeroall insn
  | opVpxord | opVpxorq | opVpaddbEvex | opVpaddwEvex | opVpadddEvex | opVpaddqEvex |
    opVpsubbEvex | opVpsubwEvex | opVpsubdEvex | opVpsubqEvex | opVpandd | opVpandq | opVpord |
    opVporq =>
      exact maskedBinop ..
  | opVmovdqu32 | opVmovdqu64 | opVmovdqa32 | opVmovdqa64 =>
      exact maskedMove ..
  | opVaddpsEvex | opVaddpdEvex | opVsubpsEvex | opVsubpdEvex | opVmulpsEvex | opVmulpdEvex |
    opVdivpsEvex | opVdivpdEvex | opVminpsEvex | opVminpdEvex | opVmaxpsEvex | opVmaxpdEvex =>
      exact fpBinop ..
  | opVsqrtpsEvex | opVsqrtpdEvex =>
      exact fpUnop ..
  | opVpgatherdd | opVpgatherdq | opVpgatherqd | opVpgatherqq | opVgatherdps | opVgatherdpd |
    opVgatherqps | opVgatherqpd =>
      exact doGather insn
  | opVpscatterdd | opVpscatterdq | opVpscatterqd | opVpscatterqq | opVscatterdps |
    opVscatterdpd | opVscatterqps | opVscatterqpd =>
      exact doScatter insn
  | opFld => exact opFld fp insn
  | opFst => exact opFst fp insn
  | opFstp => exact opFstp fp insn
  | opFild => exact opFild fp insn
  | opFistp => exact opFistp fp insn
  | opFcom => exact opFcom fp insn
  | opFcomp | opFcompp =>
      exact (opFcom fp insn).attempt.bind fun _ => update fun _ _ => rfl
  | opFadd | opFsub | opFmul | opFdiv =>
      exact fpOpWith fp _ insn
  | opFchs | opFabs | opFsqrt | opFsin | opFcos | opF2xm1 | opFrndint | opFaddp | opFsubp |
    opFmulp | opFdivp | opFpatan | opFyl2x | opFxch | opFscale | opFninit =>
      exact update fun _ _ => rfl
  | opFnstsw => exact opFnstsw insn
  | opFnstcw => exact opFnstcw insn
  | opFldcw => exact opFldcw insn

end Oblivious

end PicoCpu
