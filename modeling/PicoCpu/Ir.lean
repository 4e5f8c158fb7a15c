import PicoCpu.Word

/-!
The decoded form of an instruction: operands, semantic kinds, handlers, basic
blocks. Constructors keep the enumerator order of the header.
-/

namespace PicoCpu

/-- Status codes of the emulator core. -/
inductive Status where
  | ok
  | invalidArgument | outOfMemory | notImplemented | internal
  | unmappedRead | unmappedWrite | protectionViolation | providerFailure
  | invalidInstruction | truncatedInstruction | unsupportedPrefix | unsupportedOpcode
  | hostOpenFailed | hostQueryFailed | hostReadFailed
  | processNotFound | functionNotFound
  deriving DecidableEq

namespace Reg

abbrev rax : Nat := 0
abbrev rcx : Nat := 1
abbrev rdx : Nat := 2
abbrev rbx : Nat := 3
abbrev rsp : Nat := 4
abbrev rbp : Nat := 5
abbrev rsi : Nat := 6
abbrev rdi : Nat := 7
/-- `reg::NONE`: no base or no index register. -/
abbrev none : Nat := 255

end Reg

inductive Seg where
  | ds | cs | ss | es | fs | gs
  deriving DecidableEq

/-- Condition codes in the order of the low opcode nibble. -/
inductive Cc where
  | o | no | b | nb | z | nz | be | nbe | s | ns | p | np | l | nl | le | nle
  | none
  deriving DecidableEq

/-- The condition a `Jcc`, `CMOVcc` or `SETcc` opcode names in its low nibble. -/
def Cc.ofNibble (n : Nat) : Cc :=
  match n % 16 with
  | 0 => .o | 1 => .no | 2 => .b | 3 => .nb | 4 => .z | 5 => .nz | 6 => .be | 7 => .nbe
  | 8 => .s | 9 => .ns | 10 => .p | 11 => .np | 12 => .l | 13 => .nl | 14 => .le
  | _ => .nle

inductive OperandKind where
  | none | reg | imm | mem | ripRelMem | rel | xmm
  deriving DecidableEq

/-- One operand. `reg` is the register or the base, `imm` the immediate, the
displacement or the branch offset, as `kind` says. Of the three padding bytes only
`pad[0]` is ever written: it marks an operand whose index is a vector register. -/
structure Operand where
  kind : OperandKind := .none
  reg : Nat := 0
  index : Nat := 0
  scale : Nat := 0
  seg : Seg := .ds
  pad0 : Nat := 0
  imm : U64 := 0
  deriving DecidableEq

/-- Semantic operation of an instruction. -/
inductive OpKind where
  | invalid | nop | mov | movZx | movSx | movSxd | lea | push | pop | xchg | bswap | cmov | add
  | adc | sub | sbb | inc | dec | neg | mul | imul | imul3 | div | idiv | and | or | xor | not
  | test | cmp | shl | shr | sar | rol | ror | rcl | rcr | shld | shrd | jmp | jcc | call | ret
  | loop | loopE | loopNE | jcxz | movs | stos | lods | scas | cmps | bsf | bsr | bt | bts
  | btr | btc | popcnt | lzcnt | tzcnt | cpuid | rdtsc | rdrand | rdseed | hlt | syscall
  | movdqa | movdqu | pxor | pand | por | paddb | paddw | paddd | paddq | psubb | psubw | psubd
  | psubq | pshufd | pcmpeqb | pcmpeqw | pcmpeqd | movss | movsd | movups | movupd | movaps
  | movapd | addss | subss | mulss | divss | sqrtss | minss | maxss | addsd | subsd | mulsd
  | divsd | sqrtsd | minsd | maxsd | addps | subps | mulps | divps | sqrtps | minps | maxps
  | addpd | subpd | mulpd | divpd | sqrtpd | minpd | maxpd | ucomiss | ucomisd | comiss
  | comisd | cvtsi2ss | cvtsi2sd | cvttss2si | cvttsd2si | cvtss2sd | cvtsd2ss | xorps | xorpd
  | andps | andpd | orps | orpd | fld | fst | fstp | fild | fistp | fadd | fsub | fmul | fdiv
  | fchs | fabs | fsqrt | faddp | fsubp | fmulp | fdivp | fxch | fcom | fcomp | fcompp | fninit
  | fnstsw | fnstcw | fldcw | vmovdqa | vmovdqu | vpxor | vpand | vpor | vpaddb | vpaddw
  | vpaddd | vpaddq | vpsubb | vpsubw | vpsubd | vpsubq | vzeroupper | vzeroall | lahf | sahf
  | pushf | popf | int3 | intN | lfence | mfence | sfence | pause | clflush | prefetcht0
  | prefetcht1 | prefetcht2 | prefetchnta | movbe | rcpss | rsqrtss | rcpps | rsqrtps
  | pmovmskb | movmskps | movmskpd | shufps | shufpd | pshufb | pshufhw | pshuflw | pmullw
  | pmulhw | pmulhuw | pmaddwd | psllw | pslld | psllq | psrlw | psrld | psrlq | psraw | psrad
  | punpcklbw | punpcklwd | punpckldq | punpcklqdq | punpckhbw | punpckhwd | punpckhdq
  | punpckhqdq | aesenc | aesenclast | aesdec | aesdeclast | aesimc | aeskeygenassist
  | pclmulqdq | crc32 | roundss | roundsd | roundps | roundpd | insertps | pextrb | pextrw
  | pextrd | pextrq | pinsrb | pinsrw | pinsrd | pinsrq | pcmpgtb | pcmpgtw | pcmpgtd | pcmpgtq
  | pmaxub | pmaxuw | pmaxud | pmaxsb | pmaxsw | pmaxsd | pminub | pminuw | pminud | pminsb
  | pminsw | pminsd | pabsb | pabsw | pabsd | psadbw | pmovsxbw | pmovsxbd | pmovsxbq
  | pmovsxwd | pmovsxwq | pmovsxdq | pmovzxbw | pmovzxbd | pmovzxbq | pmovzxwd | pmovzxwq
  | pmovzxdq | fsin | fcos | fsincos | fpatan | fptan | fyl2x | f2xm1 | fscale | frndint | ftst
  | andn | bextr | blsi | blsr | blsmsk | bzhi | mulx | pdep | pext | rorx | sarx | shlx | shrx
  | vpshufb | vaesenc | vaesenclast | vaesdec | vaesdeclast | vpcmpgtq | vpclmulqdq | sha1rnds4
  | sha1nexte | sha1msg1 | sha1msg2 | sha256rnds2 | sha256msg1 | sha256msg2 | pcmpestri
  | pcmpestrm | pcmpistri | pcmpistrm | vpxord | vpxorq | vpaddbEvex | vpaddwEvex | vpadddEvex
  | vpaddqEvex | vpsubbEvex | vpsubwEvex | vpsubdEvex | vpsubqEvex | vpandd | vpandq | vpord
  | vporq | vmovdqu32 | vmovdqu64 | vmovdqa32 | vmovdqa64 | vaddpsEvex | vaddpdEvex
  | vsubpsEvex | vsubpdEvex | vmulpsEvex | vmulpdEvex | vdivpsEvex | vdivpdEvex | vsqrtpsEvex
  | vsqrtpdEvex | vminpsEvex | vminpdEvex | vmaxpsEvex | vmaxpdEvex | vpgatherdd | vpgatherdq
  | vpgatherqd | vpgatherqq | vgatherdps | vgatherdpd | vgatherqps | vgatherqpd | vpscatterdd
  | vpscatterdq | vpscatterqd | vpscatterqq | vscatterdps | vscatterdpd | vscatterqps
  | vscatterqpd | cwde | cdq | movd | movq
  deriving DecidableEq

/-- The handler entry points the decoder can bind; `nullptr` is the value of the
field in a zero-initialised instruction. -/
inductive Handler where
  | nullptr
  | opInvalid | opNop | opMov | opMovzx | opMovsx | opMovsxd | opLea | opPush | opPop | opXchg
  | opCmov | opBswap | opCwde | opCdq | opMovdToXmm | opMovdFromXmm | opAdd | opAdc | opSub
  | opSbb | opInc | opDec | opNeg | opImul | opImul1 | opMul | opDiv | opIdiv | opAnd | opOr
  | opXor | opNot | opTest | opCmp | opShl | opShr | opSar | opRol | opRor | opRcl | opRcr
  | opShld | opShrd | opMovs | opStos | opLods | opScas | opCmps | opBsf | opBsr | opBt | opBts
  | opBtr | opBtc | opPopcnt | opLzcnt | opTzcnt | opJmp | opJcc | opCall | opRet | opLoop
  | opJcxz | opCpuid | opRdtsc | opRdrand | opHlt | opSyscall | opMovdqa | opMovdqu | opPxor
  | opPand | opPor | opPaddb | opPaddw | opPaddd | opPaddq | opPsubb | opPsubw | opPsubd
  | opPsubq | opPshufd | opPcmpeqb | opPcmpeqw | opPcmpeqd | opMovss | opMovsdFp | opAddss
  | opSubss | opMulss | opDivss | opSqrtss | opMinss | opMaxss | opAddsd | opSubsd | opMulsd
  | opDivsd | opSqrtsd | opMinsd | opMaxsd | opUcomiss | opUcomisd | opCvtsi2ss | opCvtsi2sd
  | opCvttss2si | opCvttsd2si | opCvtss2sd | opCvtsd2ss | opMovups | opMovupd | opAddps
  | opSubps | opMulps | opDivps | opSqrtps | opAddpd | opSubpd | opMulpd | opDivpd | opSqrtpd
  | opXorps | opXorpd | opAndps | opOrps | opFld | opFst | opFstp | opFild | opFistp | opFadd
  | opFsub | opFmul | opFdiv | opFchs | opFabs | opFsqrt | opFaddp | opFsubp | opFmulp
  | opFdivp | opFxch | opFcom | opFcomp | opFcompp | opFninit | opFnstsw | opFnstcw | opFldcw
  | opVmovdqa | opVmovdqu | opVpxor | opVpand | opVpor | opVpaddb | opVpaddw | opVpaddd
  | opVpaddq | opVpsubb | opVpsubw | opVpsubd | opVpsubq | opVzeroupper | opVzeroall | opLahf
  | opSahf | opPushf | opPopf | opInt3 | opIntN | opFence | opPause | opClflush | opPrefetch
  | opMovbe | opRcpss | opRsqrtss | opRcpps | opRsqrtps | opPmovmskb | opMovmskps | opMovmskpd
  | opShufps | opShufpd | opPshufb | opPshufhw | opPshuflw | opPmullw | opPmulhw | opPmulhuw
  | opPmaddwd | opPsllw | opPslld | opPsllq | opPsrlw | opPsrld | opPsrlq | opPsraw | opPsrad
  | opPunpcklbw | opPunpcklwd | opPunpckldq | opPunpcklqdq | opPunpckhbw | opPunpckhwd
  | opPunpckhdq | opPunpckhqdq | opAesenc | opAesenclast | opAesdec | opAesdeclast | opAesimc
  | opAeskeygen | opPclmulqdq | opCrc32 | opRoundss | opRoundsd | opRoundps | opRoundpd
  | opInsertps | opPextrb | opPextrw | opPextrd | opPextrq | opPinsrb | opPinsrw | opPinsrd
  | opPinsrq | opPcmpgtb | opPcmpgtw | opPcmpgtd | opPcmpgtq | opPmaxub | opPmaxsw | opPminub
  | opPminsw | opPabsb | opPabsw | opPabsd | opPsadbw | opFsin | opFcos | opFpatan | opFyl2x
  | opF2xm1 | opFscale | opFrndint | opAndn | opBextr | opBlsi | opBlsr | opBlsmsk | opBzhi
  | opMulx | opPdep | opPext | opRorx | opSarx | opShlx | opShrx | opVpshufb | opVaesenc
  | opVaesenclast | opVaesdec | opVaesdeclast | opVpcmpgtq | opVpclmulqdq | opSha1rnds4
  | opSha1nexte | opSha1msg1 | opSha1msg2 | opSha256rnds2 | opSha256msg1 | opSha256msg2
  | opPcmpestri | opPcmpestrm | opPcmpistri | opPcmpistrm | opVpxord | opVpxorq | opVpaddbEvex
  | opVpaddwEvex | opVpadddEvex | opVpaddqEvex | opVpsubbEvex | opVpsubwEvex | opVpsubdEvex
  | opVpsubqEvex | opVpandd | opVpandq | opVpord | opVporq | opVmovdqu32 | opVmovdqu64
  | opVmovdqa32 | opVmovdqa64 | opVaddpsEvex | opVaddpdEvex | opVsubpsEvex | opVsubpdEvex
  | opVmulpsEvex | opVmulpdEvex | opVdivpsEvex | opVdivpdEvex | opVsqrtpsEvex | opVsqrtpdEvex
  | opVminpsEvex | opVminpdEvex | opVmaxpsEvex | opVmaxpdEvex | opVpgatherdd | opVpgatherdq
  | opVpgatherqd | opVpgatherqq | opVgatherdps | opVgatherdpd | opVgatherqps | opVgatherqpd
  | opVpscatterdd | opVpscatterdq | opVpscatterqd | opVpscatterqq | opVscatterdps
  | opVscatterdpd | opVscatterqps | opVscatterqpd
  deriving DecidableEq

/-- The `INSN_FLAG_*` bitmap, one field per bit. -/
structure InsnFlags where
  controlFlow : Bool := false
  lock : Bool := false
  rep : Bool := false
  repne : Bool := false
  hasSeg : Bool := false
  opsizePfx : Bool := false
  addrsizePfx : Bool := false
  vex : Bool := false
  deriving DecidableEq

structure Insn where
  handler : Handler := .nullptr
  kind : OpKind := .invalid
  opSize : Nat := 0
  len : Nat := 0
  cond : Cc := .o
  flags : InsnFlags := {}
  pad : U16 := 0
  rip : GuestAddr := 0
  dst : Operand := {}
  src : Operand := {}
  immExtra : U64 := 0
  deriving DecidableEq

/-- A straight-line run of instructions starting at `pc`. -/
structure DecodedBlock where
  pc : GuestAddr := 0
  byteSize : Nat := 0
  insns : List Insn := []
  deriving DecidableEq

end PicoCpu
