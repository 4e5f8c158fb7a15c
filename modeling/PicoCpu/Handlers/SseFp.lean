import PicoCpu.Handlers.Sse

/-!
SSE and SSE2 floating-point handlers, over the host's operations.
-/

namespace PicoCpu

open H

namespace Handlers

def fpIo : VecIo where
  readNote := "fp read"
  writeNote := "fp write"
  badSrc := some "bad fp src"
  badDst := some "bad fp dst"

/-- `read_scalar`: the low `size` bytes of a vector register, of memory, or of a general
register. -/
def readScalar (insn : Insn) (op : Operand) (size : Nat) : H Buf :=
  match op.kind with
  | .xmm => gets fun c => c.zmm op.reg
  | .mem | .ripRelMem => do
    let rip ← gets Cpu.rip
    requireAttached false rip "fp scalar read"
    let addr ← gets fun c => ea c insn op
    load addr size pageFault "fp scalar read"
  | .reg => gets fun c => storeLE (c.r op.reg)
  | _ => raiseAtRip .invalidOpcode .invalidInstruction "bad scalar src"

/-- `scalar_op`: lane 0 of the destination becomes `f`; the driver gives it both buffers. -/
def scalarOp (size : Nat) (f : Buf → Buf → Buf) (insn : Insn) : H Unit := do
  let dst ← fpIo.read insn insn.dst 16
  let src ← readScalar insn insn.src size
  fpIo.write insn insn.dst 16 (splice dst 0 size (f dst src))

def scalarSingle (f : U32 → U32 → U32) : Insn → H Unit :=
  scalarOp 4 fun a b => packU32 fun _ => f (laneU32 a 0) (laneU32 b 0)

def scalarDouble (f : U64 → U64 → U64) : Insn → H Unit :=
  scalarOp 8 fun a b => packU64 fun _ => f (laneU64 a 0) (laneU64 b 0)

/-- `packed_op`. -/
def packedFp (f : Buf → Buf → Buf) : Insn → H Unit := xmmBinary fpIo fun _ => f

/-! ### Moves -/

/-- `MOVSS` and `MOVSD`: between registers the upper lanes stay, a load clears them. -/
def scalarMove (size : Nat) (note : String) (insn : Insn) : H Unit := do
  if insn.dst.kind = .xmm ∧ insn.src.kind = .xmm then
    Proc.modify fun c => c.setZmmBytes insn.dst.reg 0 size (c.zmm insn.src.reg)
  else if insn.dst.kind = .xmm then do
    let src ← readScalar insn insn.src size
    fpIo.write insn insn.dst 16 (zeroExtended size src)
  else do
    let src ← fpIo.read insn insn.src 16
    let rip ← gets Cpu.rip
    requireAttached true rip note
    let addr ← gets fun c => ea c insn insn.dst
    store addr size src kindFromStatus note

def opMovss : Insn → H Unit := scalarMove 4 "MOVSS store"
def opMovsdFp : Insn → H Unit := scalarMove 8 "MOVSD store"

def opMovups : Insn → H Unit := xmmUnary fpIo fun _ v => v
def opMovupd : Insn → H Unit := opMovups

section Arithmetic

variable (fp : HostFp)

def minFp {w : Nat} (ops : FpOps w) (a b : BitVec w) : BitVec w := if ops.lt a b then a else b
def maxFp {w : Nat} (ops : FpOps w) (a b : BitVec w) : BitVec w := if ops.lt b a then a else b

def opAddss : Insn → H Unit := scalarSingle (fp.f32 .current).add
def opSubss : Insn → H Unit := scalarSingle (fp.f32 .current).sub
def opMulss : Insn → H Unit := scalarSingle (fp.f32 .current).mul
def opDivss : Insn → H Unit := scalarSingle (fp.f32 .current).div
def opSqrtss : Insn → H Unit := scalarSingle fun _ b => (fp.f32 .current).sqrt b
def opMinss : Insn → H Unit := scalarSingle (minFp (fp.f32 .current))
def opMaxss : Insn → H Unit := scalarSingle (maxFp (fp.f32 .current))

def opAddsd : Insn → H Unit := scalarDouble (fp.f64 .current).add
def opSubsd : Insn → H Unit := scalarDouble (fp.f64 .current).sub
def opMulsd : Insn → H Unit := scalarDouble (fp.f64 .current).mul
def opDivsd : Insn → H Unit := scalarDouble (fp.f64 .current).div
def opSqrtsd : Insn → H Unit := scalarDouble fun _ b => (fp.f64 .current).sqrt b
def opMinsd : Insn → H Unit := scalarDouble (minFp (fp.f64 .current))
def opMaxsd : Insn → H Unit := scalarDouble (maxFp (fp.f64 .current))

def opAddps : Insn → H Unit := packedFp (map32 (fp.f32 .current).add)
def opSubps : Insn → H Unit := packedFp (map32 (fp.f32 .current).sub)
def opMulps : Insn → H Unit := packedFp (map32 (fp.f32 .current).mul)
def opDivps : Insn → H Unit := packedFp (map32 (fp.f32 .current).div)
def opSqrtps : Insn → H Unit := packedFp (map32 fun _ b => (fp.f32 .current).sqrt b)

def opAddpd : Insn → H Unit := packedFp (map64 (fp.f64 .current).add)
def opSubpd : Insn → H Unit := packedFp (map64 (fp.f64 .current).sub)
def opMulpd : Insn → H Unit := packedFp (map64 (fp.f64 .current).mul)
def opDivpd : Insn → H Unit := packedFp (map64 (fp.f64 .current).div)
def opSqrtpd : Insn → H Unit := packedFp (map64 fun _ b => (fp.f64 .current).sqrt b)

/-! ### Comparisons -/

/-- `set_compare_flags`. -/
def setCompareFlags (unordered less equal : Bool) (c : Cpu) : Cpu :=
  (((((c.syncFlags.setZf (unordered || equal)).setPf unordered).setCf (unordered || less)).setAf
    false).setSf false).setOf false

/-- Compare the low lanes of destination and source. -/
def compareScalar (size : Nat) (flags : Buf → Buf → Cpu → Cpu) (insn : Insn) : H Unit := do
  let a ← readScalar insn insn.dst size
  let b ← readScalar insn insn.src size
  Proc.modify (flags a b)

def opUcomiss : Insn → H Unit :=
  compareScalar 4 fun a b =>
    let a := laneU32 a 0
    let b := laneU32 b 0
    let unordered := isNanF32 a || isNanF32 b
    setCompareFlags unordered (!unordered && (fp.f32 .current).lt a b)
      (!unordered && (fp.f32 .current).eq a b)

def opUcomisd : Insn → H Unit :=
  compareScalar 8 fun a b =>
    let a := laneU64 a 0
    let b := laneU64 b 0
    let unordered := isNanF64 a || isNanF64 b
    setCompareFlags unordered (!unordered && (fp.f64 .current).lt a b)
      (!unordered && (fp.f64 .current).eq a b)

/-! ### Conversions -/

/-- The integer source of a conversion, sign-extended from 32 bits unless it has 64. -/
def intSource (insn : Insn) (src : Buf) : U64 :=
  if insn.opSize = 4 then (laneU32 src 0).signExtend 64 else laneU64 src 0

/-- Read the source, then the destination, and replace its low `size` bytes. -/
def convertInto (srcSize : Insn → Nat) (size : Nat) (f : Insn → Buf → Buf) (insn : Insn) :
    H Unit := do
  let src ← readScalar insn insn.src (srcSize insn)
  let dst ← fpIo.read insn insn.dst 16
  fpIo.write insn insn.dst 16 (splice dst 0 size (f insn src))

def opCvtsi2ss : Insn → H Unit :=
  convertInto Insn.opSize 4 fun insn s =>
    packU32 fun _ => (fp.f32 .current).ofI64 (intSource insn s)

def opCvtsi2sd : Insn → H Unit :=
  convertInto Insn.opSize 8 fun insn s =>
    packU64 fun _ => (fp.f64 .current).ofI64 (intSource insn s)

def opCvtss2sd : Insn → H Unit :=
  convertInto (fun _ => 4) 8 fun _ s => packU64 fun _ => fp.toDouble (laneU32 s 0)

def opCvtsd2ss : Insn → H Unit :=
  convertInto (fun _ => 8) 4 fun _ s => packU32 fun _ => fp.toFloat (laneU64 s 0)

/-- Truncate a scalar into a general register. -/
def truncateTo (size : Nat) (f : Buf → U64) (insn : Insn) : H Unit := do
  let src ← readScalar insn insn.src size
  writeOperand insn insn.dst insn.opSize (f src)

def opCvttss2si : Insn → H Unit :=
  truncateTo 4 fun s => (fp.f32 .current).toI64 (laneU32 s 0)

def opCvttsd2si : Insn → H Unit :=
  truncateTo 8 fun s => (fp.f64 .current).toI64 (laneU64 s 0)

end Arithmetic

def opXorps : Insn → H Unit := opPxor
def opXorpd : Insn → H Unit := opPxor
def opAndps : Insn → H Unit := opPand
def opOrps : Insn → H Unit := opPor

end Handlers

end PicoCpu
