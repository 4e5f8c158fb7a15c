import PicoCpu.Handlers.Operand

/-!
String operations. With a REP prefix the step runs in a loop inside the handler; RCX counts
its iterations down, so its value bounds them.
-/

namespace PicoCpu

open H

namespace Handlers

/-- The signed distance between elements. -/
def dirStep (c : Cpu) (size : Nat) : U64 :=
  if c.df then -(BitVec.ofNat 64 size) else BitVec.ofNat 64 size

def readBytes (addr : GuestAddr) (size : Nat) : H U64 :=
  readMemBytes "string-op read" "string-op read" addr size

def writeBytes (addr : GuestAddr) (size : Nat) (value : U64) : H Unit :=
  writeMemBytes "string-op write" "string-op write" addr size value

def hasRep (insn : Insn) : Bool := insn.flags.rep || insn.flags.repne

/-- The `while` loop of `run_string`, entered with at most `fuel` iterations to go. `step`
answers the zero flag, which ends a REPE or REPNE loop. -/
def repLoop (insn : Insn) (step : H Bool) : Nat → H Unit
  | 0 => pure ()
  | fuel + 1 => do
    let more ← gets fun c => c.r Reg.rcx != 0 && !c.halted
    if more then
      let zf ← step
      Proc.modify fun c => c.setR64 Reg.rcx (c.r Reg.rcx - 1)
      if (insn.flags.rep && !zf) || (insn.flags.repne && zf) then pure ()
      else repLoop insn step fuel

/-- `run_string`. -/
def runString (insn : Insn) (step : H Bool) : H Unit := do
  if hasRep insn then
    let rcx ← gets fun c => c.r Reg.rcx
    repLoop insn step rcx.toNat
  else
    let _ ← step

/-- Add the step to a pointer register. -/
def advance (reg : Nat) (old : U64) (size : Nat) : H Unit :=
  Proc.modify fun c => c.setR64 reg (old + dirStep c size)

/-- MOVS, STOS and LODS leave `zf_after` false. -/
def movsStep (size : Nat) : H Bool := do
  let rsi ← gets fun c => c.r Reg.rsi
  let rdi ← gets fun c => c.r Reg.rdi
  let v ← readBytes rsi size
  writeBytes rdi size v
  advance Reg.rsi rsi size
  advance Reg.rdi rdi size
  pure false

def stosStep (size : Nat) : H Bool := do
  let rdi ← gets fun c => c.r Reg.rdi
  let v ← gets fun c => c.r Reg.rax &&& maskFor size
  writeBytes rdi size v
  advance Reg.rdi rdi size
  pure false

def lodsStep (size : Nat) : H Bool := do
  let rsi ← gets fun c => c.r Reg.rsi
  let v ← readBytes rsi size
  Proc.modify fun c => if IsOpSize size then c.writeGpr Reg.rax size v else c
  advance Reg.rsi rsi size
  pure false

def scasStep (size : Nat) : H Bool := do
  let rdi ← gets fun c => c.r Reg.rdi
  let v ← readBytes rdi size
  Proc.modify fun c =>
    c.stashSub size v ((c.r Reg.rax &&& maskFor size) - v &&& maskFor size)
  let zf ← getsSynced Cpu.zf
  advance Reg.rdi rdi size
  pure zf

def cmpsStep (size : Nat) : H Bool := do
  let rsi ← gets fun c => c.r Reg.rsi
  let rdi ← gets fun c => c.r Reg.rdi
  let vs ← readBytes rsi size
  let vd ← readBytes rdi size
  Proc.modify fun c => c.stashSub size vd (vs - vd &&& maskFor size)
  let zf ← getsSynced Cpu.zf
  advance Reg.rsi rsi size
  advance Reg.rdi rdi size
  pure zf

def opMovs (insn : Insn) : H Unit := runString insn (movsStep insn.opSize)
def opStos (insn : Insn) : H Unit := runString insn (stosStep insn.opSize)
def opLods (insn : Insn) : H Unit := runString insn (lodsStep insn.opSize)
def opScas (insn : Insn) : H Unit := runString insn (scasStep insn.opSize)
def opCmps (insn : Insn) : H Unit := runString insn (cmpsStep insn.opSize)

end Handlers

end PicoCpu
