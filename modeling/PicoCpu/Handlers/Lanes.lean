import PicoCpu.Handlers.Operand
import PicoCpu.HostFp

/-!
Vector registers as little-endian lanes, and the two shapes most vector handlers have.
-/

namespace PicoCpu

open H

def laneU16 (b : Buf) (i : Nat) : U16 := b (2 * i + 1) ++ b (2 * i)

def laneU32 (b : Buf) (i : Nat) : U32 :=
  b (4 * i + 3) ++ b (4 * i + 2) ++ b (4 * i + 1) ++ b (4 * i)

def laneU64 (b : Buf) (i : Nat) : U64 := laneU32 b (2 * i + 1) ++ laneU32 b (2 * i)

def packU16 (f : Nat → U16) : Buf := fun j => (f (j / 2) >>> (8 * (j % 2))).setWidth 8
def packU32 (f : Nat → U32) : Buf := fun j => (f (j / 4) >>> (8 * (j % 4))).setWidth 8
def packU64 (f : Nat → U64) : Buf := fun j => (f (j / 8) >>> (8 * (j % 8))).setWidth 8

def map8 (f : U8 → U8 → U8) (a b : Buf) : Buf := fun i => f (a i) (b i)
def map16 (f : U16 → U16 → U16) (a b : Buf) : Buf := packU16 fun i => f (laneU16 a i) (laneU16 b i)
def map32 (f : U32 → U32 → U32) (a b : Buf) : Buf := packU32 fun i => f (laneU32 a i) (laneU32 b i)
def map64 (f : U64 → U64 → U64) (a b : Buf) : Buf := packU64 fun i => f (laneU64 a i) (laneU64 b i)

/-- All ones when `p` holds of the lanes. -/
def ones {w : Nat} (p : Bool) : BitVec w := if p then BitVec.allOnes w else 0

/-- `memcpy(dst + off, src, size)`. -/
def splice (dst : Buf) (off size : Nat) (src : Buf) : Buf := fun i =>
  if off ≤ i ∧ i < off + size then src (i - off) else dst i

/-- The buffer from byte `off` on. -/
def Buf.drop (b : Buf) (off : Nat) : Buf := fun i => b (off + i)

/-- The immediate byte. -/
def imm8 (insn : Insn) : U8 := insn.immExtra.setWidth 8

/-- Read the destination and the source, write `f` to the destination. -/
def xmmBinary (io : VecIo) (f : Insn → Buf → Buf → Buf) (insn : Insn) : H Unit := do
  let a ← io.read insn insn.dst 16
  let b ← io.read insn insn.src 16
  io.write insn insn.dst 16 (f insn a b)

/-- Read the source, write `f` to the destination. -/
def xmmUnary (io : VecIo) (f : Insn → Buf → Buf) (insn : Insn) : H Unit := do
  let s ← io.read insn insn.src 16
  io.write insn insn.dst 16 (f insn s)

end PicoCpu
