import PicoCpu.Handlers.Arithmetic

/-!
Logical operations and comparisons. `TEST` and `CMP` only stash flags; `NOT` leaves them.
-/

namespace PicoCpu

open H

namespace Handlers

def logicStash : Nat → U64 → U64 → Cpu → Cpu := fun size _ r c => c.stashLogic size r

def opAnd : Insn → H Unit := binaryAlu (fun size a b => (a &&& b) &&& maskFor size) logicStash
def opOr : Insn → H Unit := binaryAlu (fun size a b => (a ||| b) &&& maskFor size) logicStash
def opXor : Insn → H Unit := binaryAlu (fun size a b => (a ^^^ b) &&& maskFor size) logicStash

def opNot (insn : Insn) : H Unit := do
  let a ← readOperand insn insn.dst insn.opSize
  writeOperand insn insn.dst insn.opSize (~~~a &&& maskFor insn.opSize)

/-- Read the destination and the source and stash the flags of `f`. -/
def compareAlu (f : Nat → U64 → U64 → U64) (stash : Nat → U64 → U64 → Cpu → Cpu) (insn : Insn) :
    H Unit := do
  let a ← readOperand insn insn.dst insn.opSize
  let b ← readOperand insn insn.src insn.opSize
  Proc.modify (stash insn.opSize b (f insn.opSize a b))

def opTest : Insn → H Unit := compareAlu (fun size a b => (a &&& b) &&& maskFor size) logicStash
def opCmp : Insn → H Unit := compareAlu subResult fun size b r c => c.stashSub size b r

end Handlers

end PicoCpu
