import PicoCpu.Handlers.Operand

/-!
Integer arithmetic. The binary operations read the destination, then the source, write the
result back and stash the flags; `ADC` and `SBB` read CF in between.
-/

namespace PicoCpu

open H

namespace Handlers

/-- Read the destination and the source, write back `f`, then stash the flags. -/
def binaryAlu (f : Nat → U64 → U64 → U64) (stash : Nat → U64 → U64 → Cpu → Cpu) (insn : Insn) :
    H Unit := do
  let a ← readOperand insn insn.dst insn.opSize
  let b ← readOperand insn insn.src insn.opSize
  let r := f insn.opSize a b
  writeOperand insn insn.dst insn.opSize r
  Proc.modify (stash insn.opSize b r)

/-- The same with the incoming carry. -/
def carryAlu (f : Nat → U64 → U64 → Bool → U64) (stash : Nat → U64 → Bool → U64 → Cpu → Cpu)
    (insn : Insn) : H Unit := do
  let a ← readOperand insn insn.dst insn.opSize
  let b ← readOperand insn insn.src insn.opSize
  let cin ← getsSynced Cpu.cf
  let r := f insn.opSize a b cin
  writeOperand insn insn.dst insn.opSize r
  Proc.modify (stash insn.opSize b cin r)

/-- Read the destination, write back `f`, then stash the flags. -/
def unaryAlu (f : Nat → U64 → U64) (stash : Nat → U64 → U64 → Cpu → Cpu) (insn : Insn) :
    H Unit := do
  let a ← readOperand insn insn.dst insn.opSize
  let r := f insn.opSize a
  writeOperand insn insn.dst insn.opSize r
  Proc.modify (stash insn.opSize a r)

def opAdd : Insn → H Unit := binaryAlu addResult fun size b r c => c.stashAdd size b r
def opSub : Insn → H Unit := binaryAlu subResult fun size b r c => c.stashSub size b r
def opAdc : Insn → H Unit := carryAlu adcResult fun size b cin r c => c.stashAdc size b cin r
def opSbb : Insn → H Unit := carryAlu sbbResult fun size b bin r c => c.stashSbb size b bin r
def opInc : Insn → H Unit := unaryAlu incResult fun size _ r c => c.stashInc size r
def opDec : Insn → H Unit := unaryAlu decResult fun size _ r c => c.stashDec size r
def opNeg : Insn → H Unit := unaryAlu negResult fun size a r c => c.stashNeg size a r

/-! ### Multiplication -/

/-- `_mul128`: the low and high halves of a signed 64 by 64 bit product. -/
def mul128 (a b : U64) : U64 × U64 :=
  let full : BitVec 128 := a.signExtend 128 * b.signExtend 128
  (full.setWidth 64, (full >>> 64).setWidth 64)

/-- `_umul128`. -/
def umul128 (a b : U64) : U64 × U64 :=
  let full : BitVec 128 := a.setWidth 128 * b.setWidth 128
  (full.setWidth 64, (full >>> 64).setWidth 64)

/-- The truncated product of the two- and three-operand `IMUL`, and whether it overflowed. -/
def imulResult (size : Nat) (a b : U64) : U64 × Bool :=
  if size = 8 then
    let (lo, hi) := mul128 a b
    (lo, hi != lo.sshiftRight 63)
  else
    let full := signExtend a size * signExtend b size
    let r := full &&& maskFor size
    (r, full != signExtend r size)

/-- `Imul3` multiplies the source by an immediate, `Imul` the destination by the source. -/
def opImul (insn : Insn) : H Unit := do
  let (a, b) ←
    if insn.kind = .imul3 then do
      let a ← readOperand insn insn.src insn.opSize
      pure (a, insn.immExtra)
    else do
      let a ← readOperand insn insn.dst insn.opSize
      let b ← readOperand insn insn.src insn.opSize
      pure (a, b)
  let (r, overflow) := imulResult insn.opSize a b
  let _ ← Proc.attempt (writeOperand insn insn.dst insn.opSize r)
  Proc.modify fun c => c.stashMulOv overflow

/-- The double-width unsigned product of the accumulator: its halves, and CF = OF. -/
def mulHalves (size : Nat) (a b : U64) : U64 × U64 × Bool :=
  match size with
  | 1 =>
    let full : U16 := a.setWidth 16 * b.setWidth 16
    let hi := ((full >>> 8) &&& 0xFF).setWidth 64
    ((full &&& 0xFF).setWidth 64, hi, hi != 0)
  | 2 =>
    let full : U32 := a.setWidth 32 * b.setWidth 32
    let hi := ((full >>> 16) &&& 0xFFFF).setWidth 64
    ((full &&& 0xFFFF).setWidth 64, hi, hi != 0)
  | 4 =>
    let full : U64 := a * b
    let hi := (full >>> 32) &&& 0xFFFFFFFF
    (full &&& 0xFFFFFFFF, hi, hi != 0)
  | _ =>
    let (lo, hi) := umul128 a b
    (lo, hi, hi != 0)

/-- The signed product. -/
def imulHalves (size : Nat) (a b : U64) : U64 × U64 × Bool :=
  match size with
  | 1 =>
    let full : U16 := (a.setWidth 8).signExtend 16 * (b.setWidth 8).signExtend 16
    let lo := full &&& 0xFF
    (lo.setWidth 64, ((full >>> 8) &&& 0xFF).setWidth 64, (lo.setWidth 8).signExtend 16 != full)
  | 2 =>
    let full : U32 := (a.setWidth 16).signExtend 32 * (b.setWidth 16).signExtend 32
    let lo := full &&& 0xFFFF
    (lo.setWidth 64, ((full >>> 16) &&& 0xFFFF).setWidth 64,
      (lo.setWidth 16).signExtend 32 != full)
  | 4 =>
    let full : U64 := (a.setWidth 32).signExtend 64 * (b.setWidth 32).signExtend 64
    let lo := full &&& 0xFFFFFFFF
    (lo, (full >>> 32) &&& 0xFFFFFFFF, (lo.setWidth 32).signExtend 64 != full)
  | _ =>
    let (lo, hi) := mul128 a b
    (lo, hi, hi != lo.sshiftRight 63)

/-- Store a double-width result: `AX` at byte size, else `rDX:rAX`. -/
def setAccumulator (size : Nat) (lo hi : U64) (c : Cpu) : Cpu :=
  match size with
  | 1 => c.setR16 Reg.rax (lo ||| (hi <<< 8))
  | 2 => (c.setR16 Reg.rax lo).setR16 Reg.rdx hi
  | 4 => (c.setR32 Reg.rax lo).setR32 Reg.rdx hi
  | 8 => (c.setR64 Reg.rax lo).setR64 Reg.rdx hi
  | _ => c

/-- `MUL` and one-operand `IMUL`. -/
def wideMul (halves : Nat → U64 → U64 → U64 × U64 × Bool) (insn : Insn) : H Unit := do
  let b ← readOperand insn insn.src insn.opSize
  let a ← gets fun c => c.r Reg.rax &&& maskFor insn.opSize
  let (lo, hi, overflow) := halves insn.opSize a b
  Proc.modify (setAccumulator insn.opSize lo hi)
  Proc.modify fun c => c.stashMulOv (IsOpSize insn.opSize && overflow)

def opMul : Insn → H Unit := wideMul mulHalves
def opImul1 : Insn → H Unit := wideMul imulHalves

/-! ### Division -/

def divideError {α : Type} (note : String) : H α := raiseAtRip .divideError .ok note

/-- Write quotient and remainder: `AL` and `AH` at byte size, else `rAX` and `rDX`. -/
def setQuotient (size : Nat) (q r : U64) (c : Cpu) : Cpu :=
  match size with
  | 1 =>
    let c := c.setR8 Reg.rax q
    c.setR64 Reg.rax ((c.r Reg.rax &&& ~~~0xFF00#64) ||| ((r &&& 0xFF) <<< 8))
  | 2 => (c.setR16 Reg.rax q).setR16 Reg.rdx r
  | 4 => (c.setR32 Reg.rax q).setR32 Reg.rdx r
  | 8 => (c.setR64 Reg.rax q).setR64 Reg.rdx r
  | _ => c

/-- The unsigned dividend: the accumulator pair at twice the operand size. -/
def dividend (size : Nat) (c : Cpu) : Nat :=
  match size with
  | 1 => (c.r16 Reg.rax).toNat
  | 2 => (c.r16 Reg.rdx).toNat * 2 ^ 16 + (c.r16 Reg.rax).toNat
  | 4 => (c.r32 Reg.rdx).toNat * 2 ^ 32 + (c.r32 Reg.rax).toNat
  | _ => (c.r Reg.rdx).toNat * 2 ^ 64 + (c.r Reg.rax).toNat

/-- At 64 bits the source tests `hi >= divisor` before it divides, which is the same
overflow condition as a quotient of more than 64 bits. -/
def opDiv (insn : Insn) : H Unit := do
  let divisor ← readOperand insn insn.src insn.opSize
  if divisor = 0 then divideError "DIV by zero"
  else if !IsOpSize insn.opSize then pure ()
  else do
    let num ← gets (dividend insn.opSize)
    let q := num / divisor.toNat
    if 2 ^ (8 * insn.opSize) ≤ q then divideError "DIV overflow"
    else
      Proc.modify
        (setQuotient insn.opSize (BitVec.ofNat 64 q) (BitVec.ofNat 64 (num % divisor.toNat)))

/-- The signed dividend at 8 to 32 bits: the accumulator pair, read as signed. -/
def signedDividend (size : Nat) (c : Cpu) : Int :=
  match size with
  | 1 => ((c.r16 Reg.rax).setWidth 16).toInt
  | 2 => (((c.r16 Reg.rdx).setWidth 16) ++ ((c.r16 Reg.rax).setWidth 16)).toInt
  | _ => (((c.r32 Reg.rdx).setWidth 32) ++ ((c.r32 Reg.rax).setWidth 32)).toInt

/-- At 64 bits only a dividend that fits in `RAX` is divided; a wider one faults. -/
def opIdiv (insn : Insn) : H Unit := do
  let divisor ← readOperand insn insn.src insn.opSize
  if divisor = 0 then divideError "IDIV by zero"
  else if insn.opSize = 8 then do
    let hi ← gets fun c => c.r Reg.rdx
    let lo ← gets fun c => c.r Reg.rax
    if hi = lo.sshiftRight 63 then
      Proc.modify (setQuotient 8 (lo.sdiv divisor) (lo.srem divisor))
    else divideError "IDIV128 unsupported"
  else if !IsOpSize insn.opSize then pure ()
  else do
    let num ← gets (signedDividend insn.opSize)
    let div := (signExtend divisor insn.opSize).toInt
    let q := num.tdiv div
    let bound : Int := 2 ^ (8 * insn.opSize - 1)
    if q < -bound ∨ bound ≤ q then divideError "IDIV overflow"
    else
      Proc.modify
        (setQuotient insn.opSize (BitVec.ofInt 64 q) (BitVec.ofInt 64 (num.tmod div)))

end Handlers

end PicoCpu
