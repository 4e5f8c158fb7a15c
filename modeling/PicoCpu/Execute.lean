import PicoCpu.Handlers.Logical
import PicoCpu.Handlers.ShiftRotate
import PicoCpu.Handlers.BitManip
import PicoCpu.Handlers.DataMov
import PicoCpu.Handlers.ControlFlow
import PicoCpu.Handlers.StringOps
import PicoCpu.Handlers.Sse
import PicoCpu.Handlers.SseFp
import PicoCpu.Handlers.Sse4Aes
import PicoCpu.Handlers.X87
import PicoCpu.Handlers.Bmi
import PicoCpu.Handlers.Misc
import PicoCpu.Handlers.Phase10
import PicoCpu.Handlers.Avx
import PicoCpu.Handlers.Avx512
import PicoCpu.Handlers.Gather

/-!
From the handler the decoder bound to what it does. The source stores a function pointer in
the instruction and calls it; here the pointer is a name and this is the call.
-/

namespace PicoCpu

open Handlers

/-- `insn.handler(cpu, insn)`. The decoder never leaves the null pointer in an instruction it
accepts. -/
def callHandler (fp : HostFp) : Handler → Insn → H Unit
  | .nullptr => fun _ => Proc.exit
  | .opInvalid => opInvalid | .opNop => opNop | .opMov => opMov | .opMovzx => opMovzx
  | .opMovsx => opMovsx | .opMovsxd => opMovsxd | .opLea => opLea | .opPush => opPush
  | .opPop => opPop | .opXchg => opXchg | .opCmov => opCmov | .opBswap => opBswap
  | .opCwde => opCwde | .opCdq => opCdq | .opMovdToXmm => opMovdToXmm
  | .opMovdFromXmm => opMovdFromXmm | .opAdd => opAdd | .opAdc => opAdc | .opSub => opSub
  | .opSbb => opSbb | .opInc => opInc | .opDec => opDec | .opNeg => opNeg | .opImul => opImul
  | .opImul1 => opImul1 | .opMul => opMul | .opDiv => opDiv | .opIdiv => opIdiv | .opAnd => opAnd
  | .opOr => opOr | .opXor => opXor | .opNot => opNot | .opTest => opTest | .opCmp => opCmp
  | .opShl => opShl | .opShr => opShr | .opSar => opSar | .opRol => opRol | .opRor => opRor
  | .opRcl => opRcl | .opRcr => opRcr | .opShld => opShld | .opShrd => opShrd | .opMovs => opMovs
  | .opStos => opStos | .opLods => opLods | .opScas => opScas | .opCmps => opCmps | .opBsf => opBsf
  | .opBsr => opBsr | .opBt => opBt | .opBts => opBts | .opBtr => opBtr | .opBtc => opBtc
  | .opPopcnt => opPopcnt | .opLzcnt => opLzcnt | .opTzcnt => opTzcnt | .opJmp => opJmp
  | .opJcc => opJcc | .opCall => opCall | .opRet => opRet | .opLoop => opLoop | .opJcxz => opJcxz
  | .opCpuid => opCpuid | .opRdtsc => opRdtsc | .opRdrand => opRdrand | .opHlt => opHlt
  | .opSyscall => opSyscall | .opMovdqa => opMovdqa | .opMovdqu => opMovdqu | .opPxor => opPxor
  | .opPand => opPand | .opPor => opPor | .opPaddb => opPaddb | .opPaddw => opPaddw
  | .opPaddd => opPaddd | .opPaddq => opPaddq | .opPsubb => opPsubb | .opPsubw => opPsubw
  | .opPsubd => opPsubd | .opPsubq => opPsubq | .opPshufd => opPshufd | .opPcmpeqb => opPcmpeqb
  | .opPcmpeqw => opPcmpeqw | .opPcmpeqd => opPcmpeqd | .opMovss => opMovss
  | .opMovsdFp => opMovsdFp | .opAddss => opAddss fp | .opSubss => opSubss fp
  | .opMulss => opMulss fp | .opDivss => opDivss fp | .opSqrtss => opSqrtss fp
  | .opMinss => opMinss fp | .opMaxss => opMaxss fp | .opAddsd => opAddsd fp
  | .opSubsd => opSubsd fp | .opMulsd => opMulsd fp | .opDivsd => opDivsd fp
  | .opSqrtsd => opSqrtsd fp | .opMinsd => opMinsd fp | .opMaxsd => opMaxsd fp
  | .opUcomiss => opUcomiss fp | .opUcomisd => opUcomisd fp | .opCvtsi2ss => opCvtsi2ss fp
  | .opCvtsi2sd => opCvtsi2sd fp | .opCvttss2si => opCvttss2si fp | .opCvttsd2si => opCvttsd2si fp
  | .opCvtss2sd => opCvtss2sd fp | .opCvtsd2ss => opCvtsd2ss fp | .opMovups => opMovups
  | .opMovupd => opMovupd | .opAddps => opAddps fp | .opSubps => opSubps fp | .opMulps => opMulps fp
  | .opDivps => opDivps fp | .opSqrtps => opSqrtps fp | .opAddpd => opAddpd fp
  | .opSubpd => opSubpd fp | .opMulpd => opMulpd fp | .opDivpd => opDivpd fp
  | .opSqrtpd => opSqrtpd fp | .opXorps => opXorps | .opXorpd => opXorpd | .opAndps => opAndps
  | .opOrps => opOrps | .opFld => opFld fp | .opFst => opFst fp | .opFstp => opFstp fp
  | .opFild => opFild fp | .opFistp => opFistp fp | .opFadd => opFadd fp | .opFsub => opFsub fp
  | .opFmul => opFmul fp | .opFdiv => opFdiv fp | .opFchs => opFchs | .opFabs => opFabs
  | .opFsqrt => opFsqrt fp | .opFaddp => opFaddp fp | .opFsubp => opFsubp fp
  | .opFmulp => opFmulp fp | .opFdivp => opFdivp fp | .opFxch => opFxch | .opFcom => opFcom fp
  | .opFcomp => opFcomp fp | .opFcompp => opFcompp fp | .opFninit => opFninit
  | .opFnstsw => opFnstsw | .opFnstcw => opFnstcw | .opFldcw => opFldcw | .opVmovdqa => opVmovdqa
  | .opVmovdqu => opVmovdqu | .opVpxor => opVpxor | .opVpand => opVpand | .opVpor => opVpor
  | .opVpaddb => opVpaddb | .opVpaddw => opVpaddw | .opVpaddd => opVpaddd | .opVpaddq => opVpaddq
  | .opVpsubb => opVpsubb | .opVpsubw => opVpsubw | .opVpsubd => opVpsubd | .opVpsubq => opVpsubq
  | .opVzeroupper => opVzeroupper | .opVzeroall => opVzeroall | .opLahf => opLahf
  | .opSahf => opSahf | .opPushf => opPushf | .opPopf => opPopf | .opInt3 => opInt3
  | .opIntN => opIntN | .opFence => opFence | .opPause => opPause | .opClflush => opClflush
  | .opPrefetch => opPrefetch | .opMovbe => opMovbe | .opRcpss => opRcpss fp
  | .opRsqrtss => opRsqrtss fp | .opRcpps => opRcpps fp | .opRsqrtps => opRsqrtps fp
  | .opPmovmskb => opPmovmskb | .opMovmskps => opMovmskps | .opMovmskpd => opMovmskpd
  | .opShufps => opShufps | .opShufpd => opShufpd | .opPshufb => opPshufb | .opPshufhw => opPshufhw
  | .opPshuflw => opPshuflw | .opPmullw => opPmullw | .opPmulhw => opPmulhw
  | .opPmulhuw => opPmulhuw | .opPmaddwd => opPmaddwd | .opPsllw => opPsllw | .opPslld => opPslld
  | .opPsllq => opPsllq | .opPsrlw => opPsrlw | .opPsrld => opPsrld | .opPsrlq => opPsrlq
  | .opPsraw => opPsraw | .opPsrad => opPsrad | .opPunpcklbw => opPunpcklbw
  | .opPunpcklwd => opPunpcklwd | .opPunpckldq => opPunpckldq | .opPunpcklqdq => opPunpcklqdq
  | .opPunpckhbw => opPunpckhbw | .opPunpckhwd => opPunpckhwd | .opPunpckhdq => opPunpckhdq
  | .opPunpckhqdq => opPunpckhqdq | .opAesenc => opAesenc | .opAesenclast => opAesenclast
  | .opAesdec => opAesdec | .opAesdeclast => opAesdeclast | .opAesimc => opAesimc
  | .opAeskeygen => opAeskeygen | .opPclmulqdq => opPclmulqdq | .opCrc32 => opCrc32
  | .opRoundss => opRoundss fp | .opRoundsd => opRoundsd fp | .opRoundps => opRoundps fp
  | .opRoundpd => opRoundpd fp | .opInsertps => opInsertps | .opPextrb => opPextrb
  | .opPextrw => opPextrw | .opPextrd => opPextrd | .opPextrq => opPextrq | .opPinsrb => opPinsrb
  | .opPinsrw => opPinsrw | .opPinsrd => opPinsrd | .opPinsrq => opPinsrq | .opPcmpgtb => opPcmpgtb
  | .opPcmpgtw => opPcmpgtw | .opPcmpgtd => opPcmpgtd | .opPcmpgtq => opPcmpgtq
  | .opPmaxub => opPmaxub | .opPmaxsw => opPmaxsw | .opPminub => opPminub | .opPminsw => opPminsw
  | .opPabsb => opPabsb | .opPabsw => opPabsw | .opPabsd => opPabsd | .opPsadbw => opPsadbw
  | .opFsin => opFsin fp | .opFcos => opFcos fp | .opFpatan => opFpatan fp | .opFyl2x => opFyl2x fp
  | .opF2xm1 => opF2xm1 fp | .opFscale => opFscale fp | .opFrndint => opFrndint fp
  | .opAndn => opAndn | .opBextr => opBextr | .opBlsi => opBlsi | .opBlsr => opBlsr
  | .opBlsmsk => opBlsmsk | .opBzhi => opBzhi | .opMulx => opMulx | .opPdep => opPdep
  | .opPext => opPext | .opRorx => opRorx | .opSarx => opSarx | .opShlx => opShlx
  | .opShrx => opShrx | .opVpshufb => opVpshufb | .opVaesenc => opVaesenc
  | .opVaesenclast => opVaesenclast | .opVaesdec => opVaesdec | .opVaesdeclast => opVaesdeclast
  | .opVpcmpgtq => opVpcmpgtq | .opVpclmulqdq => opVpclmulqdq | .opSha1rnds4 => opSha1rnds4
  | .opSha1nexte => opSha1nexte | .opSha1msg1 => opSha1msg1 | .opSha1msg2 => opSha1msg2
  | .opSha256rnds2 => opSha256rnds2 | .opSha256msg1 => opSha256msg1 | .opSha256msg2 => opSha256msg2
  | .opPcmpestri => opPcmpestri | .opPcmpestrm => opPcmpestrm | .opPcmpistri => opPcmpistri
  | .opPcmpistrm => opPcmpistrm | .opVpxord => opVpxord | .opVpxorq => opVpxorq
  | .opVpaddbEvex => opVpaddbEvex | .opVpaddwEvex => opVpaddwEvex | .opVpadddEvex => opVpadddEvex
  | .opVpaddqEvex => opVpaddqEvex | .opVpsubbEvex => opVpsubbEvex | .opVpsubwEvex => opVpsubwEvex
  | .opVpsubdEvex => opVpsubdEvex | .opVpsubqEvex => opVpsubqEvex | .opVpandd => opVpandd
  | .opVpandq => opVpandq | .opVpord => opVpord | .opVporq => opVporq | .opVmovdqu32 => opVmovdqu32
  | .opVmovdqu64 => opVmovdqu64 | .opVmovdqa32 => opVmovdqa32 | .opVmovdqa64 => opVmovdqa64
  | .opVaddpsEvex => opVaddpsEvex fp | .opVaddpdEvex => opVaddpdEvex fp
  | .opVsubpsEvex => opVsubpsEvex fp | .opVsubpdEvex => opVsubpdEvex fp
  | .opVmulpsEvex => opVmulpsEvex fp | .opVmulpdEvex => opVmulpdEvex fp
  | .opVdivpsEvex => opVdivpsEvex fp | .opVdivpdEvex => opVdivpdEvex fp
  | .opVsqrtpsEvex => opVsqrtpsEvex fp | .opVsqrtpdEvex => opVsqrtpdEvex fp
  | .opVminpsEvex => opVminpsEvex fp | .opVminpdEvex => opVminpdEvex fp
  | .opVmaxpsEvex => opVmaxpsEvex fp | .opVmaxpdEvex => opVmaxpdEvex fp
  | .opVpgatherdd => opVpgatherdd | .opVpgatherdq => opVpgatherdq | .opVpgatherqd => opVpgatherqd
  | .opVpgatherqq => opVpgatherqq | .opVgatherdps => opVgatherdps | .opVgatherdpd => opVgatherdpd
  | .opVgatherqps => opVgatherqps | .opVgatherqpd => opVgatherqpd | .opVpscatterdd => opVpscatterdd
  | .opVpscatterdq => opVpscatterdq | .opVpscatterqd => opVpscatterqd
  | .opVpscatterqq => opVpscatterqq | .opVscatterdps => opVscatterdps
  | .opVscatterdpd => opVscatterdpd | .opVscatterqps => opVscatterqps
  | .opVscatterqpd => opVscatterqpd

/-- What a decoded instruction does. -/
def Insn.run (fp : HostFp) (insn : Insn) : H Unit := callHandler fp insn.handler insn

end PicoCpu
