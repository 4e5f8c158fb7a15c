import PicoCpu.Handlers.Operand

/-!
Data movement. Where the source discards the result of `write_operand` as its last act, the
handler ends with the write itself; where it goes on, the write is an `attempt`.
-/

namespace PicoCpu

open H

namespace Handlers

def stackRead (addr : GuestAddr) (size : Nat) : H U64 :=
  readMemBytes "no read provider" "mem read" addr size

def stackWrite (addr : GuestAddr) (size : Nat) (value : U64) : H Unit :=
  writeMemBytes "no write provider" "stack/mem write" addr size value

def opInvalid (_ : Insn) : H Unit :=
  raiseAtRip .invalidOpcode .invalidInstruction "invalid handler bound by decoder"

def opNop (_ : Insn) : H Unit := pure ()

def opMov (insn : Insn) : H Unit := do
  let v ← readOperand insn insn.src insn.opSize
  writeOperand insn insn.dst insn.opSize v

/-- The source size of an extension, kept in `src.scale`. -/
def extendSize (insn : Insn) : Nat := if insn.src.scale ≠ 0 then insn.src.scale else 1

def opMovzx (insn : Insn) : H Unit := do
  let v ← readOperand insn insn.src (extendSize insn)
  writeOperand insn insn.dst insn.opSize (v &&& maskFor (extendSize insn))

def opMovsx (insn : Insn) : H Unit := do
  let v ← readOperand insn insn.src (extendSize insn)
  writeOperand insn insn.dst insn.opSize (signExtend v (extendSize insn))

def opMovsxd (insn : Insn) : H Unit := do
  let v ← readOperand insn insn.src 4
  writeOperand insn insn.dst insn.opSize (signExtend v 4)

def opLea (insn : Insn) : H Unit :=
  if !insn.src.isMem then
    raiseAtRip .invalidOpcode .invalidInstruction "LEA requires memory operand"
  else do
    let addr ← gets fun c => ea c insn insn.src
    writeOperand insn insn.dst insn.opSize addr

def opPush (insn : Insn) : H Unit := do
  let v ← readOperand insn insn.dst insn.opSize
  let newRsp ← gets fun c => c.r Reg.rsp - BitVec.ofNat 64 insn.opSize
  stackWrite newRsp insn.opSize v
  Proc.modify fun c => c.setR64 Reg.rsp newRsp

def opPop (insn : Insn) : H Unit := do
  let rsp ← gets fun c => c.r Reg.rsp
  let v ← stackRead rsp insn.opSize
  let _ ← Proc.attempt (writeOperand insn insn.dst insn.opSize v)
  Proc.modify fun c => c.setR64 Reg.rsp (rsp + BitVec.ofNat 64 insn.opSize)

def opCmov (insn : Insn) : H Unit := do
  let holds ← getsSynced fun c => c.condHolds insn.cond
  if holds then
    let v ← readOperand insn insn.src insn.opSize
    writeOperand insn insn.dst insn.opSize v

def opXchg (insn : Insn) : H Unit := do
  let a ← readOperand insn insn.dst insn.opSize
  let b ← readOperand insn insn.src insn.opSize
  writeOperand insn insn.dst insn.opSize b
  writeOperand insn insn.src insn.opSize a

def bswap64 (v : U64) : U64 :=
  ((v &&& 0x00000000000000FF) <<< 56) ||| ((v &&& 0x000000000000FF00) <<< 40) |||
  ((v &&& 0x0000000000FF0000) <<< 24) ||| ((v &&& 0x00000000FF000000) <<< 8) |||
  ((v &&& 0x000000FF00000000) >>> 8) ||| ((v &&& 0x0000FF0000000000) >>> 24) |||
  ((v &&& 0x00FF000000000000) >>> 40) ||| ((v &&& 0xFF00000000000000) >>> 56)

def bswap32 (w : U32) : U32 :=
  ((w &&& 0x000000FF) <<< 24) ||| ((w &&& 0x0000FF00) <<< 8) |||
  ((w &&& 0x00FF0000) >>> 8) ||| ((w &&& 0xFF000000) >>> 24)

def opBswap (insn : Insn) : H Unit := do
  let v ← readOperand insn insn.dst insn.opSize
  let swapped := if insn.opSize = 8 then bswap64 v else (bswap32 (v.setWidth 32)).setWidth 64
  writeOperand insn insn.dst insn.opSize swapped

/-- `CBW`, `CWDE` or `CDQE`, by operand size. -/
def opCwde (insn : Insn) : H Unit := Proc.modify fun c =>
  let raw := c.r Reg.rax
  match insn.opSize with
  | 2 => c.setR64 Reg.rax
      ((raw &&& ~~~0xFFFF#64) ||| (((raw.setWidth 8).signExtend 16).setWidth 64 &&& 0xFFFF))
  | 4 => c.setR32 Reg.rax (((raw.setWidth 16).signExtend 32).setWidth 64)
  | 8 => c.setR64 Reg.rax ((raw.setWidth 32).signExtend 64)
  | _ => c.setR64 Reg.rax raw

/-- `CWD`, `CDQ` or `CQO`, by operand size. -/
def opCdq (insn : Insn) : H Unit := Proc.modify fun c =>
  let a := c.r Reg.rax
  match insn.opSize with
  | 2 => c.setR16 Reg.rdx (if a &&& 0x8000 != 0 then 0xFFFF else 0)
  | 4 => c.setR32 Reg.rdx (if a &&& 0x80000000 != 0 then 0xFFFFFFFF else 0)
  | 8 => c.setR64 Reg.rdx (if a &&& (1#64 <<< 63) != 0 then ~~~0#64 else 0)
  | _ => c

end Handlers

end PicoCpu
