import PicoCpu.Handlers.Lanes

/-!
LAHF/SAHF, PUSHF/POPF, interrupts, fences, MOVBE, and the SSE moves, multiplies, shifts and
interleaves.
-/

namespace PicoCpu

open H

namespace Handlers

def opLahf (_ : Insn) : H Unit := Proc.modify fun c =>
  let c := c.syncFlags
  let ah := (c.rflags &&& 0xD7) ||| 0x02
  c.setR64 Reg.rax ((c.r Reg.rax &&& ~~~0xFF00#64) ||| (ah <<< 8))

def opSahf (_ : Insn) : H Unit := Proc.modify fun c =>
  let ah := (c.r Reg.rax >>> 8) &&& 0xFF
  let c := c.syncFlags
  c.setRflags ((c.rflags &&& ~~~0xFF#64) ||| ((ah &&& 0xD5) ||| 0x02))

def opPushf (_ : Insn) : H Unit := do
  let rflags ← getsSynced Cpu.rflags
  let newRsp ← gets fun c => c.r Reg.rsp - 8
  requireAttached true newRsp "pushfq"
  store newRsp 8 (storeLE rflags) kindFromStatus "pushfq"
  Proc.modify fun c => c.setR64 Reg.rsp newRsp

def opPopf (_ : Insn) : H Unit := do
  let rsp ← gets fun c => c.r Reg.rsp
  requireAttached false rsp "popfq"
  let buf ← load rsp 8 kindFromStatus "popfq"
  Proc.modify fun c => c.setRflags (loadLE buf 8)
  Proc.modify fun c => c.setR64 Reg.rsp (rsp + 8)

def opInt3 (_ : Insn) : H Unit := raiseAtRip .breakpoint .ok "INT3"
def opIntN (_ : Insn) : H Unit := raiseAtRip .breakpoint .ok "INT n"

def opFence (_ : Insn) : H Unit := pure ()
def opPause (_ : Insn) : H Unit := pure ()
def opClflush (_ : Insn) : H Unit := pure ()
def opPrefetch (_ : Insn) : H Unit := pure ()

/-- The low `size` bytes of `v` in reverse order. -/
def reverseBytes (size : Nat) (v : U64) : U64 :=
  (List.range size).foldl
    (fun r i => r ||| (((v >>> (8 * i)) &&& 0xFF) <<< (8 * (size - 1 - i)))) 0

/-- Both directions of `MOVBE` do the same. -/
def opMovbe (insn : Insn) : H Unit := do
  let v ← readOperand insn insn.src insn.opSize
  writeOperand insn insn.dst insn.opSize (reverseBytes insn.opSize v)

/-! ### SSE -/

def miscIo : VecIo where
  readNote := "xmm read"
  writeNote := "xmm write"
  badSrc := some "bad src"
  badDst := some "bad dst"

section Reciprocal

variable (fp : HostFp)

def rcp32 (x : U32) : U32 := (fp.f32 .current).div oneF32 x
def rsqrt32 (x : U32) : U32 := (fp.f32 .current).div oneF32 ((fp.f32 .current).sqrt x)

/-- Lane 0 of the destination becomes `f` of lane 0 of the source. -/
def scalarApprox (f : U32 → U32) : Insn → H Unit :=
  xmmBinary miscIo fun _ d s => splice d 0 4 (packU32 fun _ => f (laneU32 s 0))

def packedApprox (f : U32 → U32) : Insn → H Unit :=
  xmmUnary miscIo fun _ s => packU32 fun i => f (laneU32 s i)

def opRcpss : Insn → H Unit := scalarApprox (rcp32 fp)
def opRsqrtss : Insn → H Unit := scalarApprox (rsqrt32 fp)
def opRcpps : Insn → H Unit := packedApprox (rcp32 fp)
def opRsqrtps : Insn → H Unit := packedApprox (rsqrt32 fp)

end Reciprocal

/-- The sign bits of the bytes at `positions`, gathered into a mask. -/
def signMaskOf (s : Buf) (positions : List Nat) : U64 :=
  positions.zipIdx.foldl
    (fun m (p, i) => if (s p).msb then m ||| (1#64 <<< i) else m) 0

/-- `PMOVMSKB`, `MOVMSKPS` and `MOVMSKPD` write the whole 64-bit register. -/
def moveMask (positions : List Nat) (insn : Insn) : H Unit := do
  let s ← miscIo.read insn insn.src 16
  Proc.modify fun c => c.setR64 insn.dst.reg (signMaskOf s positions)

def opPmovmskb : Insn → H Unit := moveMask (List.range 16)
def opMovmskps : Insn → H Unit := moveMask [3, 7, 11, 15]
def opMovmskpd : Insn → H Unit := moveMask [7, 15]

/-- Two bits of the immediate. -/
def immSel (insn : Insn) (i : Nat) : Nat := ((imm8 insn >>> (2 * i)) &&& 3).toNat

def opShufps : Insn → H Unit :=
  xmmBinary miscIo fun insn a b =>
    packU32 fun i => laneU32 (if i < 2 then a else b) (immSel insn i)

def opShufpd : Insn → H Unit :=
  xmmBinary miscIo fun insn a b => packU64 fun i =>
    if i = 0 then laneU64 a (if imm8 insn &&& 1 != 0 then 1 else 0)
    else laneU64 b (if imm8 insn &&& 2 != 0 then 1 else 0)

def shuffleBytes (d s : Buf) : Buf := fun i =>
  if (s i).msb then 0 else d (s i &&& 0x0F).toNat

def opPshufb : Insn → H Unit := xmmBinary miscIo fun _ => shuffleBytes

def opPshufhw : Insn → H Unit :=
  xmmUnary miscIo fun insn s => packU16 fun i =>
    if i < 4 then laneU16 s i else laneU16 s (4 + immSel insn (i - 4))

def opPshuflw : Insn → H Unit :=
  xmmUnary miscIo fun insn s => packU16 fun i =>
    if i < 4 then laneU16 s (immSel insn i) else laneU16 s i

/-- `packed_mul16`. -/
def packedMul16 (f : U16 → U16 → U16) : Insn → H Unit := xmmBinary miscIo fun _ => map16 f

def opPmullw : Insn → H Unit := packedMul16 fun a b => (a.setWidth 32 * b.setWidth 32).setWidth 16
def opPmulhw : Insn → H Unit :=
  packedMul16 fun a b => ((a.signExtend 32 * b.signExtend 32) >>> 16).setWidth 16
def opPmulhuw : Insn → H Unit :=
  packedMul16 fun a b => ((a.setWidth 32 * b.setWidth 32) >>> 16).setWidth 16

def opPmaddwd : Insn → H Unit :=
  xmmBinary miscIo fun _ a b => packU32 fun i =>
    (laneU16 a (2 * i)).signExtend 32 * (laneU16 b (2 * i)).signExtend 32 +
      (laneU16 a (2 * i + 1)).signExtend 32 * (laneU16 b (2 * i + 1)).signExtend 32

/-- The count byte: the immediate, or the lowest byte of a vector register; zero otherwise. -/
def shiftCountFrom (insn : Insn) : H Nat :=
  match insn.src.kind with
  | .imm => pure (imm8 insn).toNat
  | .xmm => gets fun c => (c.zmm insn.src.reg 0).toNat
  | _ => pure 0

/-- The packed shifts: read the destination, shift every lane, write back. -/
def packedShift (f : Nat → Buf → Buf) (insn : Insn) : H Unit := do
  let d ← miscIo.read insn insn.dst 16
  let count ← shiftCountFrom insn
  miscIo.write insn insn.dst 16 (f count d)

def opPsllw : Insn → H Unit :=
  packedShift fun n d => packU16 fun i => if 16 ≤ n then 0 else laneU16 d i <<< n
def opPslld : Insn → H Unit :=
  packedShift fun n d => packU32 fun i => if 32 ≤ n then 0 else laneU32 d i <<< n
def opPsllq : Insn → H Unit :=
  packedShift fun n d => packU64 fun i => if 64 ≤ n then 0 else laneU64 d i <<< n
def opPsrlw : Insn → H Unit :=
  packedShift fun n d => packU16 fun i => if 16 ≤ n then 0 else laneU16 d i >>> n
def opPsrld : Insn → H Unit :=
  packedShift fun n d => packU32 fun i => if 32 ≤ n then 0 else laneU32 d i >>> n
def opPsrlq : Insn → H Unit :=
  packedShift fun n d => packU64 fun i => if 64 ≤ n then 0 else laneU64 d i >>> n
def opPsraw : Insn → H Unit :=
  packedShift fun n d => packU16 fun i => (laneU16 d i).sshiftRight (if 16 ≤ n then 15 else n)
def opPsrad : Insn → H Unit :=
  packedShift fun n d => packU32 fun i => (laneU32 d i).sshiftRight (if 32 ≤ n then 31 else n)

/-- `unpck`: interleave the low or high halves, by elements of `size` bytes. -/
def interleave (size : Nat) (hi : Bool) (a b : Buf) : Buf := fun j =>
  let elem := j / size
  (if elem % 2 = 0 then a else b) ((if hi then 8 else 0) + elem / 2 * size + j % size)

def unpck (size : Nat) (hi : Bool) : Insn → H Unit :=
  xmmBinary miscIo fun _ => interleave size hi

def opPunpcklbw : Insn → H Unit := unpck 1 false
def opPunpcklwd : Insn → H Unit := unpck 2 false
def opPunpckldq : Insn → H Unit := unpck 4 false
def opPunpcklqdq : Insn → H Unit := unpck 8 false
def opPunpckhbw : Insn → H Unit := unpck 1 true
def opPunpckhwd : Insn → H Unit := unpck 2 true
def opPunpckhdq : Insn → H Unit := unpck 4 true
def opPunpckhqdq : Insn → H Unit := unpck 8 true

end Handlers

end PicoCpu
