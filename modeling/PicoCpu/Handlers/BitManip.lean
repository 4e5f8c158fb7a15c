import PicoCpu.Handlers.Operand

/-!
Bit scans, bit tests and bit counts.
-/

namespace PicoCpu

open H

namespace Handlers

def popcountU64 (v : U64) : Nat := (List.range 64).countP fun i => v.getLsbD i

/-- The index of the lowest set bit; `width` when there is none. -/
def tzcountU64 (v : U64) (width : Nat) : Nat :=
  ((List.range 64).find? fun i => v.getLsbD i).getD width

/-- The number of zeros above the highest set bit of a `width`-bit value. -/
def lzcountU64 (v : U64) (width : Nat) : Nat :=
  match (List.range 64).reverse.find? fun i => v.getLsbD i with
  | some i => width - 1 - i
  | none => width

/-- `BSF` and `BSR`: a zero source sets ZF and leaves the destination alone. -/
def bitScan (f : U64 → Nat → Nat) (insn : Insn) : H Unit := do
  let src ← readOperand insn insn.src insn.opSize
  Proc.modify Cpu.syncFlags
  if src = 0 then Proc.modify fun c => c.setZf true
  else do
    let idx := f src (insn.opSize * 8)
    let _ ← Proc.attempt (writeOperand insn insn.dst insn.opSize (BitVec.ofNat 64 idx))
    Proc.modify fun c => c.setZf false

def opBsf : Insn → H Unit := bitScan tzcountU64
def opBsr : Insn → H Unit := bitScan fun v w => w - 1 - lzcountU64 v w

/-- `bit_test_get`: the tested operand, and the bit offset modulo the operand width. -/
def bitTestGet (insn : Insn) : H (U64 × Nat) := do
  let v ← readOperand insn insn.dst insn.opSize
  let raw ← readOperand insn insn.src insn.opSize
  pure (v, raw.toNat % (insn.opSize * 8))

def opBt (insn : Insn) : H Unit := do
  let (v, bit) ← bitTestGet insn
  Proc.modify fun c => c.syncFlags.setCf (bitAt v bit)

/-- `BTS`, `BTR` and `BTC`: CF is written before the destination. -/
def bitTestUpdate (f : U64 → U64 → U64) (insn : Insn) : H Unit := do
  let (v, bit) ← bitTestGet insn
  Proc.modify fun c => c.syncFlags.setCf (bitAt v bit)
  writeOperand insn insn.dst insn.opSize (f v (1#64 <<< bit))

def opBts : Insn → H Unit := bitTestUpdate fun v m => v ||| m
def opBtr : Insn → H Unit := bitTestUpdate fun v m => v &&& ~~~m
def opBtc : Insn → H Unit := bitTestUpdate fun v m => v ^^^ m

/-- Read the source, write `f` to the destination, then set the flags directly. -/
def bitCount (f : Nat → U64 → Nat) (flags : Nat → Nat → Cpu → Cpu) (insn : Insn) : H Unit := do
  let v ← readOperand insn insn.src insn.opSize
  let n := f (insn.opSize * 8) (v &&& maskFor insn.opSize)
  let _ ← Proc.attempt (writeOperand insn insn.dst insn.opSize (BitVec.ofNat 64 n))
  Proc.modify fun c => flags (insn.opSize * 8) n c.syncFlags

/-- The flags of `POPCNT`: ZF from the result, the rest clear. -/
def popcntFlags (_ n : Nat) (c : Cpu) : Cpu :=
  (((((c.setZf (n == 0)).setCf false).setOf false).setSf false).setAf false).setPf false

/-- The flags of `LZCNT` and `TZCNT`. -/
def zeroCountFlags (w n : Nat) (c : Cpu) : Cpu := (c.setCf (n == w)).setZf (n == 0)

def opPopcnt : Insn → H Unit := bitCount (fun _ v => popcountU64 v) popcntFlags
def opLzcnt : Insn → H Unit := bitCount (fun w v => lzcountU64 v w) zeroCountFlags
def opTzcnt : Insn → H Unit := bitCount (fun w v => tzcountU64 v w) zeroCountFlags

end Handlers

end PicoCpu
