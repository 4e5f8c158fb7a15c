import PicoCpu.Handlers.Lanes

/-!
SSE2 integer handlers and the moves between general and vector registers.
-/

namespace PicoCpu

open H

namespace Handlers

def sseIo : VecIo where
  readNote := "xmm read"
  writeNote := "xmm write"
  badSrc := some "bad xmm src"
  badDst := some "bad xmm dst"

def opMovdqa : Insn → H Unit := xmmUnary sseIo fun _ v => v
def opMovdqu : Insn → H Unit := opMovdqa

/-- `binary_xmm` with an operation on the two buffers. -/
def binaryXmm (f : Buf → Buf → Buf) : Insn → H Unit := xmmBinary sseIo fun _ => f

def opPxor : Insn → H Unit := binaryXmm (map8 fun a b => a ^^^ b)
def opPand : Insn → H Unit := binaryXmm (map8 fun a b => a &&& b)
def opPor : Insn → H Unit := binaryXmm (map8 fun a b => a ||| b)

def opPaddb : Insn → H Unit := binaryXmm (map8 fun a b => a + b)
def opPaddw : Insn → H Unit := binaryXmm (map16 fun a b => a + b)
def opPaddd : Insn → H Unit := binaryXmm (map32 fun a b => a + b)
def opPaddq : Insn → H Unit := binaryXmm (map64 fun a b => a + b)

def opPsubb : Insn → H Unit := binaryXmm (map8 fun a b => a - b)
def opPsubw : Insn → H Unit := binaryXmm (map16 fun a b => a - b)
def opPsubd : Insn → H Unit := binaryXmm (map32 fun a b => a - b)
def opPsubq : Insn → H Unit := binaryXmm (map64 fun a b => a - b)

def opPshufd : Insn → H Unit :=
  xmmUnary sseIo fun insn s => packU32 fun lane =>
    laneU32 s ((imm8 insn >>> (lane * 2)) &&& 3).toNat

def opPcmpeqb : Insn → H Unit := binaryXmm (map8 fun a b => ones (a == b))
def opPcmpeqw : Insn → H Unit := binaryXmm (map16 fun a b => ones (a == b))
def opPcmpeqd : Insn → H Unit := binaryXmm (map32 fun a b => ones (a == b))

/-- The low `size` bytes of a buffer, and zeros above. -/
def zeroExtended (size : Nat) (b : Buf) : Buf := fun i => if i < size then b i else 0

def opMovdToXmm (insn : Insn) : H Unit := do
  let v ← readOperand insn insn.src insn.opSize
  Proc.modify fun c => c.setZmmBytes insn.dst.reg 0 16 (zeroExtended insn.opSize (storeLE v))

/-- `66 0F 7E` stores from a vector register; `F3 0F 7E` loads one. -/
def opMovdFromXmm (insn : Insn) : H Unit := do
  if insn.dst.kind = .xmm ∧ insn.src.kind = .xmm ∧ insn.opSize = 8 then
    Proc.modify fun c =>
      c.setZmmBytes insn.dst.reg 0 16 (zeroExtended 8 (c.zmm insn.src.reg))
  else if insn.dst.kind = .xmm ∧ insn.src.isMem ∧ insn.opSize = 8 then do
    let addr ← gets fun c => ea c insn insn.src
    let present ← attached false
    if !present then raise .pageFault addr .providerFailure "movq xmm m64"
    match ← askRead addr 8 with
    | .ok buf => Proc.modify fun c => c.setZmmBytes insn.dst.reg 0 16 (zeroExtended 8 buf)
    | .error _ => raise .pageFault addr .providerFailure "movq xmm m64"
  else do
    let v ← gets fun c => loadLE (c.zmm insn.src.reg) insn.opSize
    writeOperand insn insn.dst insn.opSize v

end Handlers

end PicoCpu
