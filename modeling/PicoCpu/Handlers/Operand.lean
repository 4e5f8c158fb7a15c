import PicoCpu.Machine
import PicoCpu.Alu

/-!
Operand resolution: effective addresses, and reads and writes of general and vector
operands. Every handler reaches guest memory through these.
-/

namespace PicoCpu

open H

def ea (c : Cpu) (insn : Insn) (op : Operand) : GuestAddr :=
  if op.kind = .ripRelMem then insn.rip + BitVec.ofNat 64 insn.len + op.imm
  else
    let base := if op.reg ≠ Reg.none then c.r op.reg else 0
    let index := if op.index ≠ Reg.none then c.r op.index * BitVec.ofNat 64 op.scale else 0
    let addr := base + index + op.imm
    match op.seg with
    | .fs => addr + c.fsBase
    | .gs => addr + c.gsBase
    | _ => addr

/-- Either memory form. -/
def Operand.isMem (op : Operand) : Bool := op.kind == .mem || op.kind == .ripRelMem

/-- A register operand's value. Indices 16 to 19 are the high bytes at byte size only. -/
def Cpu.readGpr (c : Cpu) (reg size : Nat) : U64 :=
  if size = 1 ∧ 16 ≤ reg ∧ reg < 20 then c.r8 reg else c.r reg &&& maskFor size

/-- Write one alias of a register; the 32-bit one zero-extends to 64 bits. -/
def Cpu.writeGpr (c : Cpu) (reg size : Nat) (v : U64) : Cpu :=
  match size with
  | 1 => c.setR8 reg v
  | 2 => c.setR16 reg v
  | 4 => c.setR32 reg v
  | _ => c.setR64 reg v

/-- Fault at `addr` unless the provider is attached. -/
def requireAttached (isWrite : Bool) (addr : GuestAddr) (note : String) : H Unit := do
  let present ← attached isWrite
  if !present then raise .providerFailure addr .providerFailure note

/-- The fault kind of every failed read but two. -/
def pageFault : Status → FaultKind := fun _ => .pageFault

def readOperand (insn : Insn) (op : Operand) (size : Nat) : H U64 :=
  match op.kind with
  | .none => pure 0
  | .reg => gets fun c => c.readGpr op.reg size
  | .imm => pure (op.imm &&& maskFor size)
  | .rel => pure op.imm
  | .xmm => Proc.exit
  | _ => do
    let rip ← gets Cpu.rip
    requireAttached false rip "no read provider"
    let addr ← gets fun c => ea c insn op
    checkDataBreakpoint addr false size "DR data load breakpoint"
    fireMemHooks addr size 0 false
    let buf ← load addr size pageFault "operand read"
    pure (loadLE buf size)

def writeOperand (insn : Insn) (op : Operand) (size : Nat) (value : U64) : H Unit :=
  match op.kind with
  | .reg =>
    if IsOpSize size then Proc.modify fun c => c.writeGpr op.reg size value
    else raiseAtRip .internalError .internal "bad reg width"
  | .xmm => Proc.exit
  | .none | .imm | .rel =>
    raiseAtRip .internalError .internal "write to non-writable operand kind"
  | _ => do
    let addr ← gets fun c => ea c insn op
    requireAttached true addr "no write provider"
    checkDataBreakpoint addr true size "DR data store breakpoint"
    fireMemHooks addr size value true
    store addr size (storeLE value) kindFromStatus "operand write"

/-! ### Plain accesses, without breakpoints or hooks -/

def readMemBytes (missing note : String) (addr : GuestAddr) (size : Nat) : H U64 := do
  requireAttached false addr missing
  let buf ← load addr size pageFault note
  pure (loadLE buf size)

def writeMemBytes (missing note : String) (addr : GuestAddr) (size : Nat) (value : U64) :
    H Unit := do
  requireAttached true addr missing
  store addr size (storeLE value) kindFromStatus note

/-! ### Vector operands -/

/-- How one source file reads and writes vector operands: the notes of its faults, and
whether it rejects operands that are neither a vector register nor memory. -/
structure VecIo where
  readNote : String
  writeNote : String
  badSrc : Option String := none
  badDst : Option String := none

namespace VecIo

/-- The first `size` bytes of a vector register or of memory. -/
def read (io : VecIo) (insn : Insn) (op : Operand) (size : Nat) : H Buf :=
  let fromMem : H Buf := do
    let rip ← gets Cpu.rip
    requireAttached false rip io.readNote
    let addr ← gets fun c => ea c insn op
    load addr size pageFault io.readNote
  match op.kind, io.badSrc with
  | .xmm, _ => gets fun c => c.zmm op.reg
  | .mem, _ => fromMem
  | .ripRelMem, _ => fromMem
  | _, some note => raiseAtRip .invalidOpcode .invalidInstruction note
  | _, none => fromMem

def write (io : VecIo) (insn : Insn) (op : Operand) (size : Nat) (v : Buf) : H Unit :=
  let toMem : H Unit := do
    let rip ← gets Cpu.rip
    requireAttached true rip io.writeNote
    let addr ← gets fun c => ea c insn op
    store addr size v kindFromStatus io.writeNote
  match op.kind, io.badDst with
  | .xmm, _ => Proc.modify fun c => c.setZmmBytes op.reg 0 size v
  | .mem, _ => toMem
  | .ripRelMem, _ => toMem
  | _, some note => raiseAtRip .invalidOpcode .invalidInstruction note
  | _, none => toMem

end VecIo

end PicoCpu
