import PicoCpu.Handlers.Lanes

/-!
VEX-encoded AVX handlers: 16 or 32 bytes, the first source in `dst.index`. Only the 128-bit
writes clear the rest of the register.
-/

namespace PicoCpu

open H

namespace Handlers

def vexIo : VecIo where
  readNote := "vex read"
  writeNote := "vex write"
  badSrc := some "bad vex src"
  badDst := some "bad vex dst"

def writeVec (insn : Insn) (v : Buf) : H Unit := do
  vexIo.write insn insn.dst insn.opSize v
  if insn.dst.kind = .xmm ∧ insn.opSize = 16 then
    Proc.modify fun c => c.zeroYmmUpper insn.dst.reg

/-- `vex_binop`. -/
def vexBinop (f : Buf → Buf → Buf) (insn : Insn) : H Unit := do
  let a ← gets fun c => c.zmm insn.dst.index
  let b ← vexIo.read insn insn.src insn.opSize
  writeVec insn (f a b)

def opVmovdqa (insn : Insn) : H Unit := do
  let v ← vexIo.read insn insn.src insn.opSize
  writeVec insn v

def opVmovdqu : Insn → H Unit := opVmovdqa

def opVpxor : Insn → H Unit := vexBinop (map8 fun a b => a ^^^ b)
def opVpand : Insn → H Unit := vexBinop (map8 fun a b => a &&& b)
def opVpor : Insn → H Unit := vexBinop (map8 fun a b => a ||| b)

def opVpaddb : Insn → H Unit := vexBinop (map8 fun a b => a + b)
def opVpaddw : Insn → H Unit := vexBinop (map16 fun a b => a + b)
def opVpaddd : Insn → H Unit := vexBinop (map32 fun a b => a + b)
def opVpaddq : Insn → H Unit := vexBinop (map64 fun a b => a + b)

def opVpsubb : Insn → H Unit := vexBinop (map8 fun a b => a - b)
def opVpsubw : Insn → H Unit := vexBinop (map16 fun a b => a - b)
def opVpsubd : Insn → H Unit := vexBinop (map32 fun a b => a - b)
def opVpsubq : Insn → H Unit := vexBinop (map64 fun a b => a - b)

/-- Registers 0 to 15 lose everything above 128 bits. -/
def opVzeroupper (_ : Insn) : H Unit := Proc.modify fun c =>
  (List.range 16).foldl (fun c i => c.zeroYmmUpper i) c

/-- Only the low 32 bytes are cleared. -/
def opVzeroall (_ : Insn) : H Unit := Proc.modify fun c =>
  (List.range 16).foldl (fun c i => c.setZmmBytes i 0 32 fun _ => 0) c

end Handlers

end PicoCpu
