import PicoCpu.Discipline.Scalar
import PicoCpu.Discipline.Vector
import PicoCpu.Execute

/-!
Every handler is put together at the grade its table says.
-/

namespace PicoCpu

open Handlers

/-- How a handler reaches memory. -/
inductive Reach where
  /-- Through the operand helpers, or not at all. -/
  | operands
  /-- By itself, unless the vector operand is a register: both operands, the source, or the
  destination. -/
  | vectors | vectorSource | vectorTarget
  /-- By itself, when the x87 source is in memory. -/
  | x87Source
  /-- By itself, unless the status word goes to AX. -/
  | statusWord
  /-- By itself: the stack, strings, lanes. -/
  | itself
  deriving DecidableEq

/-- The instruction accesses memory without the operand helpers. -/
def Reach.direct (r : Reach) (insn : Insn) : Prop :=
  match r with
  | .operands => False
  | .vectors => insn.dst.kind ≠ .xmm ∨ insn.src.kind ≠ .xmm
  | .vectorSource => insn.src.kind ≠ .xmm
  | .vectorTarget => insn.dst.kind ≠ .xmm
  | .x87Source => insn.src.isMem = true
  | .statusWord => insn.dst.kind ≠ .reg
  | .itself => True

def Handler.reach : Handler → Reach
  | .opPush | .opPop | .opCall | .opRet | .opMovs | .opStos | .opLods | .opScas | .opCmps
  | .opPushf | .opPopf | .opFild | .opFistp | .opFnstcw | .opFldcw
  | .opVpgatherdd | .opVpgatherdq | .opVpgatherqd | .opVpgatherqq | .opVgatherdps | .opVgatherdpd
  | .opVgatherqps | .opVgatherqpd | .opVpscatterdd | .opVpscatterdq | .opVpscatterqd
  | .opVpscatterqq | .opVscatterdps | .opVscatterdpd | .opVscatterqps | .opVscatterqpd => .itself
  | .opFld | .opFst | .opFstp | .opFcom | .opFcomp | .opFcompp | .opFadd | .opFsub | .opFmul
  | .opFdiv => .x87Source
  | .opFnstsw => .statusWord
  | .opMovdFromXmm | .opCvttss2si | .opCvttsd2si | .opPmovmskb | .opMovmskps | .opMovmskpd
  | .opPextrb | .opPextrw | .opPextrd | .opPextrq
  | .opVpxord | .opVpxorq | .opVpaddbEvex | .opVpaddwEvex | .opVpadddEvex | .opVpaddqEvex
  | .opVpsubbEvex | .opVpsubwEvex | .opVpsubdEvex | .opVpsubqEvex | .opVpandd | .opVpandq
  | .opVpord | .opVporq | .opVmovdqu32 | .opVmovdqu64 | .opVmovdqa32 | .opVmovdqa64
  | .opVaddpsEvex | .opVaddpdEvex | .opVsubpsEvex | .opVsubpdEvex | .opVmulpsEvex | .opVmulpdEvex
  | .opVdivpsEvex | .opVdivpdEvex | .opVminpsEvex | .opVminpdEvex | .opVmaxpsEvex | .opVmaxpdEvex
  | .opVsqrtpsEvex | .opVsqrtpdEvex => .vectorSource
  | .opPsllw | .opPslld | .opPsllq | .opPsrlw | .opPsrld | .opPsrlq | .opPsraw | .opPsrad
  | .opPinsrb | .opPinsrw | .opPinsrd | .opPinsrq => .vectorTarget
  | .opMovdqa | .opMovdqu | .opPxor | .opPand | .opPor | .opPaddb | .opPaddw | .opPaddd | .opPaddq
  | .opPsubb | .opPsubw | .opPsubd | .opPsubq | .opPshufd | .opPcmpeqb | .opPcmpeqw | .opPcmpeqd
  | .opMovss | .opMovsdFp | .opAddss | .opSubss | .opMulss | .opDivss | .opSqrtss | .opMinss
  | .opMaxss | .opAddsd | .opSubsd | .opMulsd | .opDivsd | .opSqrtsd | .opMinsd | .opMaxsd
  | .opUcomiss | .opUcomisd | .opCvtsi2ss | .opCvtsi2sd | .opCvtss2sd | .opCvtsd2ss | .opMovups
  | .opMovupd | .opAddps | .opSubps | .opMulps | .opDivps | .opSqrtps | .opAddpd | .opSubpd
  | .opMulpd | .opDivpd | .opSqrtpd | .opXorps | .opXorpd | .opAndps | .opOrps | .opVmovdqa
  | .opVmovdqu | .opVpxor | .opVpand | .opVpor | .opVpaddb | .opVpaddw | .opVpaddd | .opVpaddq
  | .opVpsubb | .opVpsubw | .opVpsubd | .opVpsubq | .opRcpss | .opRsqrtss | .opRcpps | .opRsqrtps
  | .opShufps | .opShufpd | .opPshufb | .opPshufhw | .opPshuflw | .opPmullw | .opPmulhw
  | .opPmulhuw | .opPmaddwd | .opPunpcklbw | .opPunpcklwd | .opPunpckldq | .opPunpcklqdq
  | .opPunpckhbw | .opPunpckhwd | .opPunpckhdq | .opPunpckhqdq | .opAesenc | .opAesenclast
  | .opAesdec | .opAesdeclast | .opAesimc | .opAeskeygen | .opPclmulqdq | .opRoundss | .opRoundsd
  | .opRoundps | .opRoundpd | .opInsertps | .opPcmpgtb | .opPcmpgtw | .opPcmpgtd | .opPcmpgtq
  | .opPmaxub | .opPmaxsw | .opPminub | .opPminsw | .opPabsb | .opPabsw | .opPabsd | .opPsadbw
  | .opVpshufb | .opVaesenc | .opVaesenclast | .opVaesdec | .opVaesdeclast | .opVpcmpgtq
  | .opVpclmulqdq | .opSha1rnds4 | .opSha1nexte | .opSha1msg1 | .opSha1msg2 | .opSha256rnds2
  | .opSha256msg1 | .opSha256msg2 | .opPcmpestri | .opPcmpestrm | .opPcmpistri | .opPcmpistrm =>
    .vectors
  | _ => .operands

/-- The handler stores without looking at the status. -/
def Handler.drops (h : Handler) (insn : Insn) : Prop :=
  match h with
  | .opFst | .opFstp => insn.src.isMem = true ∧ Within.IsFloatSize insn.opSize
  | .opFistp => isIntSize insn.opSize = true
  | .opFnstsw => insn.dst.kind ≠ .reg
  | .opFnstcw => True
  | _ => False

/-- The handler can take a branch. -/
def Handler.branches : Handler → Prop
  | .opJmp | .opJcc | .opCall | .opRet | .opLoop | .opJcxz => True
  | _ => False

/-- The width of the destination, where the operand helpers access it. -/
def Handler.dstWidth (h : Handler) (insn : Insn) : Nat :=
  match h with
  | .opJmp | .opCall | .opPextrq => 8
  | .opPextrd => 4
  | _ => insn.opSize

/-- The width of the source, where the operand helpers access it. -/
def Handler.srcWidth (h : Handler) (insn : Insn) : Nat :=
  match h with
  | .opMovzx | .opMovsx => extendSize insn
  | .opMovsxd | .opPinsrd => 4
  | .opShl | .opShr | .opSar | .opRol | .opRor | .opRcl | .opRcr | .opPinsrb => 1
  | .opPinsrw => 2
  | .opPinsrq => 8
  | _ => insn.opSize

/-- The operands the handler gives to the operand helpers, with their widths. -/
def Handler.spans (h : Handler) (insn i : Insn) (op : Operand) (size : Nat) : Prop :=
  i = insn ∧
    ((op = insn.dst ∧ size = h.dstWidth insn) ∨ (op = insn.src ∧ size = h.srcWidth insn))

def Handler.grade (h : Handler) (insn : Insn) : Grade :=
  ⟨h.reach.direct insn, h.drops insn, h.branches, h.spans insn⟩

namespace Within

open Cpu

theorem callHandler (fp : HostFp) (h : Handler) (insn : Insn) :
    Ends (h.grade insn) (PicoCpu.callHandler fp h insn) := by
  have hdst : h.spans insn insn insn.dst (h.dstWidth insn) := ⟨rfl, .inl ⟨rfl, rfl⟩⟩
  have hsrc : h.spans insn insn insn.src (h.srcWidth insn) := ⟨rfl, .inr ⟨rfl, rfl⟩⟩
  delta PicoCpu.callHandler
  cases h with
  | nullptr => exact .of (exit)
  | opInvalid | opHlt | opSyscall | opInt3 | opIntN =>
      exact .of (raiseAtRip FaultKind.noConfusion ..)
  | opNop | opFence | opPause | opClflush | opPrefetch =>
      exact .of (ret ())
  | opMov | opMovzx | opMovsx | opMovsxd | opMovbe =>
      exact .of (moveWith hdst hsrc _)
  | opBswap => exact .of (moveWith hdst hdst _)
  | opLea => exact .of (opLea hdst)
  | opPush => exact .of (opPush hdst trivial)
  | opPop => exact opPop hdst trivial
  | opXchg => exact .of (opXchg hdst hsrc)
  | opCmov => exact .of (opCmov hdst hsrc)
  | opCwde => exact .of (opCwde insn)
  | opCdq => exact .of (opCdq insn)
  | opAdd | opSub | opAnd | opOr | opXor => exact .of (binaryAlu hdst hsrc fun _ _ _ => .stash ..)
  | opAdc | opSbb => exact .of (carryAlu hdst hsrc fun _ _ _ _ => .stash ..)
  | opInc => exact .of (unaryAlu hdst fun size _ r => .stashInc size r)
  | opDec => exact .of (unaryAlu hdst fun size _ r => .stashDec size r)
  | opNeg => exact .of (unaryAlu hdst fun _ _ _ => .stash ..)
  | opTest | opCmp => exact .of (compareAlu hdst hsrc fun _ _ _ => .stash ..)
  | opNot => exact .of (opNot hdst)
  | opImul => exact opImul hdst hsrc
  | opImul1 | opMul => exact .of (wideMul hsrc)
  | opDiv => exact .of (opDiv hsrc)
  | opIdiv => exact .of (opIdiv hsrc)
  | opShl => exact .of (shiftAlu hdst hsrc (Quiet.stashShift .shl))
  | opShr => exact .of (shiftAlu hdst hsrc (Quiet.stashShift .shr))
  | opSar => exact .of (shiftAlu hdst hsrc (Quiet.stashShift .sar))
  | opRol => exact .of (shiftAlu hdst hsrc (Quiet.stashRotate .rol))
  | opRor => exact .of (shiftAlu hdst hsrc (Quiet.stashRotate .ror))
  | opRcl => exact .of (opRcl hdst hsrc)
  | opRcr => exact .of (opRcr hdst hsrc)
  | opShld => exact .of (doubleShift hdst (Quiet.stashShift .shl))
  | opShrd => exact .of (doubleShift hdst (Quiet.stashShift .shr))
  | opBsf | opBsr => exact bitScan hdst hsrc
  | opBt => exact .of (opBt hdst hsrc)
  | opBts | opBtr | opBtc => exact .of (bitTestUpdate hdst hsrc)
  | opPopcnt => exact bitCount hdst hsrc quiet_popcntFlags
  | opLzcnt | opTzcnt => exact bitCount hdst hsrc quiet_zeroCountFlags
  | opAndn => exact bmiOp hdst hsrc fun _ _ _ _ => .stash ..
  | opBextr | opBlsi | opBlsr | opBlsmsk | opBzhi =>
      exact bmiOp hdst hsrc fun _ _ _ _ => quiet_bmiFlags ..
  | opPdep | opPext | opRorx | opSarx | opShlx | opShrx =>
      exact bmiOp hdst hsrc fun _ _ _ _ => .id
  | opMulx => exact .of (opMulx hsrc)
  | opCrc32 => exact .of (opCrc32 hsrc)
  | opJmp => exact opJmp trivial hdst
  | opJcc => exact .of (opJcc trivial insn)
  | opCall => exact opCall trivial trivial hdst
  | opRet => exact .of (opRet trivial trivial insn)
  | opLoop => exact .of (opLoop trivial insn)
  | opJcxz => exact .of (opJcxz trivial insn)
  | opCpuid => exact .of (opCpuid insn)
  | opRdtsc => exact .of (opRdtsc insn)
  | opRdrand => exact opRdrand hdst
  | opMovs => exact .of (runString (movsStep trivial _) insn)
  | opStos => exact .of (runString (stosStep trivial _) insn)
  | opLods => exact .of (runString (lodsStep trivial _) insn)
  | opScas => exact .of (runString (scasStep trivial _) insn)
  | opCmps => exact .of (runString (cmpsStep trivial _) insn)
  | opLahf => exact .of (opLahf insn)
  | opSahf => exact .of (opSahf insn)
  | opPushf => exact .of (opPushf trivial insn)
  | opPopf => exact .of (opPopf trivial insn)
  | opMovdqa | opMovdqu | opPshufd | opMovups | opMovupd | opPshufhw | opPshuflw | opAesimc
  | opAeskeygen | opRoundps | opRoundpd | opPabsb | opPabsw | opPabsd | opRcpps | opRsqrtps =>
      apply Ends.of
      apply xmmUnary
      · exact Or.inl
      · exact Or.inr
  | opPxor | opPand | opPor | opPaddb | opPaddw | opPaddd | opPaddq | opPsubb | opPsubw
  | opPsubd | opPsubq | opPcmpeqb | opPcmpeqw | opPcmpeqd | opXorps | opXorpd | opAndps | opOrps
  | opAddps | opSubps | opMulps | opDivps | opSqrtps | opAddpd | opSubpd | opMulpd | opDivpd
  | opSqrtpd | opShufps | opShufpd | opPshufb | opPmaddwd | opAesenc | opAesenclast | opAesdec
  | opAesdeclast | opPclmulqdq | opRoundss | opRoundsd | opInsertps | opRcpss | opRsqrtss
  | opPmullw | opPmulhw | opPmulhuw | opPunpcklbw | opPunpcklwd | opPunpckldq | opPunpcklqdq
  | opPunpckhbw | opPunpckhwd | opPunpckhdq | opPunpckhqdq | opPcmpgtb | opPcmpgtw | opPcmpgtd
  | opPcmpgtq | opPmaxub | opPmaxsw | opPminub | opPminsw | opPsadbw =>
      apply Ends.of
      apply xmmBinary
      · exact Or.inl
      · exact Or.inr
  | opMovdToXmm => exact .of (opMovdToXmm hsrc)
  | opMovdFromXmm => exact .of (opMovdFromXmm id hdst)
  | opMovss | opMovsdFp =>
      apply Ends.of
      apply scalarMove
      · exact Or.inl
      · exact Or.inr
  | opAddss | opSubss | opMulss | opDivss | opSqrtss | opMinss | opMaxss | opAddsd | opSubsd
  | opMulsd | opDivsd | opSqrtsd | opMinsd | opMaxsd =>
      apply Ends.of
      apply scalarOp
      · exact Or.inl
      · exact Or.inr
  | opUcomiss | opUcomisd =>
      apply Ends.of
      apply compareScalar
      · exact Or.inl
      · exact Or.inr
      · exact fun _ _ => quiet_setCompareFlags ..
  | opCvtsi2ss | opCvtsi2sd | opCvtss2sd | opCvtsd2ss =>
      apply Ends.of
      apply convertInto
      · exact Or.inl
      · exact Or.inr
  | opCvttss2si | opCvttsd2si => exact .of (truncateTo id hdst)
  | opPmovmskb | opMovmskps | opMovmskpd => exact .of (moveMask id)
  | opPsllw | opPslld | opPsllq | opPsrlw | opPsrld | opPsrlq | opPsraw | opPsrad =>
      exact .of (packedShift id)
  | opPextrb | opPextrw | opPextrd | opPextrq => exact .of (extractElement id hdst)
  | opPinsrb | opPinsrw | opPinsrd | opPinsrq => exact .of (insertElement id hsrc)
  | opVpshufb | opVaesenc | opVaesenclast | opVaesdec | opVaesdeclast | opVpcmpgtq
  | opVpclmulqdq =>
      apply Ends.of
      apply vexBinopXmm
      · exact Or.inl
      · exact Or.inr
  | opSha1rnds4 | opSha1nexte | opSha1msg1 | opSha1msg2 | opSha256msg1 | opSha256msg2 =>
      apply Ends.of
      apply shaBinary
      · exact Or.inl
      · exact Or.inr
  | opSha256rnds2 =>
      apply Ends.of
      apply opSha256rnds2
      · exact Or.inl
      · exact Or.inr
  | opPcmpestri | opPcmpestrm | opPcmpistri | opPcmpistrm =>
      apply Ends.of
      apply pcmpstrCore
      · exact Or.inl
      · exact Or.inr
  | opVpxor | opVpand | opVpor | opVpaddb | opVpaddw | opVpaddd | opVpaddq | opVpsubb | opVpsubw
  | opVpsubd | opVpsubq =>
      apply Ends.of
      apply vexBinop
      · exact Or.inl
      · exact Or.inr
  | opVmovdqa | opVmovdqu =>
      apply Ends.of
      apply opVmovdqa
      · exact Or.inl
      · exact Or.inr
  | opVzeroupper => exact .of (opVzeroupper insn)
  | opVzeroall => exact .of (opVzeroall insn)
  | opVpxord | opVpxorq | opVpaddbEvex | opVpaddwEvex | opVpadddEvex | opVpaddqEvex
  | opVpsubbEvex | opVpsubwEvex | opVpsubdEvex | opVpsubqEvex | opVpandd | opVpandq | opVpord
  | opVporq =>
      exact .of (maskedBinop id)
  | opVmovdqu32 | opVmovdqu64 | opVmovdqa32 | opVmovdqa64 => exact .of (maskedMove id)
  | opVaddpsEvex | opVaddpdEvex | opVsubpsEvex | opVsubpdEvex | opVmulpsEvex | opVmulpdEvex
  | opVdivpsEvex | opVdivpdEvex | opVminpsEvex | opVminpdEvex | opVmaxpsEvex | opVmaxpdEvex =>
      exact .of (fpBinop id)
  | opVsqrtpsEvex | opVsqrtpdEvex => exact .of (fpUnop id)
  | opVpgatherdd | opVpgatherdq | opVpgatherqd | opVpgatherqq | opVgatherdps | opVgatherdpd
  | opVgatherqps | opVgatherqpd =>
      exact .of (doGather trivial insn)
  | opVpscatterdd | opVpscatterdq | opVpscatterqd | opVpscatterqq | opVscatterdps | opVscatterdpd
  | opVscatterqps | opVscatterqpd =>
      exact .of (doScatter trivial insn)
  | opFld => exact .of (opFld fp id)
  | opFst => exact .of (opFst fp id And.intro)
  | opFstp => exact .of (opFstp fp id And.intro)
  | opFild => exact .of (opFild fp trivial insn)
  | opFistp => exact .of (opFistp fp trivial id)
  | opFcom => exact .of (opFcom fp id)
  | opFcomp | opFcompp => exact .attempt (opFcom fp id) fun _ => .modify ⟨fun _ => rfl⟩
  | opFadd | opFsub | opFmul | opFdiv => exact .of (fpOpWith fp id)
  | opFchs | opFabs | opFsqrt | opFsin | opFcos | opF2xm1 | opFrndint | opFaddp | opFsubp
  | opFmulp | opFdivp | opFpatan | opFyl2x | opFxch | opFscale | opFninit =>
      exact .of (update fun _ => rfl)
  | opFnstsw => exact .of (opFnstsw id id)
  | opFnstcw => exact .of (opFnstcw trivial trivial insn)
  | opFldcw => exact .of (opFldcw trivial insn)

end Within

end PicoCpu
