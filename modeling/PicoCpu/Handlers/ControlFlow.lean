import PicoCpu.Handlers.Operand

/-!
Branches, calls and returns, the loop instructions, and the instructions that report on the
machine: CPUID, RDTSC, RDRAND, HLT and SYSCALL.
-/

namespace PicoCpu

open H

namespace Handlers

/-- The address after the instruction. -/
def nextRip (insn : Insn) : GuestAddr := insn.rip + BitVec.ofNat 64 insn.len

/-- `branch_target_from_operand`: zero when the operand cannot be read. -/
def branchTarget (insn : Insn) : H GuestAddr :=
  match insn.dst.kind with
  | .rel => pure (nextRip insn + insn.dst.imm)
  | .reg => gets fun c => c.r insn.dst.reg
  | .mem | .ripRelMem => do
    let v ← Proc.attempt (readOperand insn insn.dst 8)
    pure (v.getD 0)
  | _ => do
    Proc.modify fun c =>
      c.setFault .invalidOpcode c.rip .invalidInstruction (some "bad branch operand kind")
    pure 0

def opJmp (insn : Insn) : H Unit := do
  let target ← branchTarget insn
  let halted ← gets Cpu.halted
  if !halted then Proc.modify fun c => c.takeBranch target

def opJcc (insn : Insn) : H Unit := do
  let holds ← getsSynced fun c => c.condHolds insn.cond
  if holds then Proc.modify fun c => c.takeBranch (nextRip insn + insn.dst.imm)

/-- The return address is pushed before the target is read. -/
def opCall (insn : Insn) : H Unit := do
  let rsp ← gets fun c => c.r Reg.rsp
  requireAttached true rsp "no write provider for CALL push"
  store (rsp - 8) 8 (storeLE (nextRip insn)) kindFromStatus "CALL push"
  Proc.modify fun c => c.setR64 Reg.rsp (rsp - 8)
  let target ← branchTarget insn
  Proc.modify fun c => c.takeBranch target

def opLoop (insn : Insn) : H Unit := do
  let newRcx ← gets fun c => c.r Reg.rcx - 1
  Proc.modify fun c => c.setR64 Reg.rcx newRcx
  let take ←
    if newRcx = 0 then pure false
    else if insn.cond = .none then pure true
    else getsSynced fun c => c.condHolds insn.cond
  if take then Proc.modify fun c => c.takeBranch (nextRip insn + insn.dst.imm)

def opJcxz (insn : Insn) : H Unit := do
  let rcx ← gets fun c => c.r Reg.rcx
  if rcx = 0 then Proc.modify fun c => c.takeBranch (nextRip insn + insn.dst.imm)

/-- The word with the listed bits set. -/
def bitSet (bits : List Nat) : U32 := bits.foldl (fun acc n => acc ||| (1#32 <<< n)) 0

/-- The canned answer of CPUID: EAX, EBX, ECX, EDX. -/
def cpuidDefault (leaf subleaf : U32) : U32 × U32 × U32 × U32 :=
  match leaf.toNat with
  | 0x00000000 => (0x0000000D, 0x756E6547, 0x6C65746E, 0x49656E69)
  | 0x00000001 =>
    ((6#32 <<< 8) ||| (0x05#32 <<< 4) ||| 0x03#32 ||| (5#32 <<< 16),
      (1#32 <<< 0) ||| (8#32 <<< 8) ||| (1#32 <<< 16),
      bitSet [0, 1, 9, 12, 13, 19, 20, 22, 23, 25, 26, 27, 28, 29, 30],
      bitSet [0, 1, 2, 3, 4, 5, 6, 7, 8, 9, 11, 12, 13, 14, 15, 16, 17, 19, 21, 22, 23, 24, 25,
        26, 27, 28])
  | 0x00000007 => if subleaf = 0 then (0, bitSet [0, 3, 5, 8, 9], 0, 0) else (0, 0, 0, 0)
  | 0x80000000 => (0x80000004, 0, 0, 0)
  | 0x80000001 => (0, 0, 0, bitSet [29, 27])
  | 0x80000002 => (0x6C756D45, 0x726F7461, 0x38782820, 0x34362D36)
  | 0x80000003 => (0x55504320, 0x00000029, 0, 0)
  | _ => (0, 0, 0, 0)

/-- The answer of CPUID; an override of the leaf comes first. -/
def cpuidAnswer (c : Cpu) : U32 × U32 × U32 × U32 :=
  let leaf : U32 := (c.r32 Reg.rax).setWidth 32
  let subleaf : U32 := (c.r32 Reg.rcx).setWidth 32
  match c.cpuidLookup leaf subleaf with
  | some e => (e.eax, e.ebx, e.ecx, e.edx)
  | none => cpuidDefault leaf subleaf

def opCpuid (_ : Insn) : H Unit := Proc.modify fun c =>
  let (eax, ebx, ecx, edx) := cpuidAnswer c
  (((c.setR32 Reg.rax (eax.setWidth 64)).setR32 Reg.rbx (ebx.setWidth 64)).setR32 Reg.rcx
    (ecx.setWidth 64)).setR32 Reg.rdx (edx.setWidth 64)

def opRdtsc (_ : Insn) : H Unit := do
  let tsc ← nextTsc
  Proc.modify fun c => (c.setR32 Reg.rax tsc).setR32 Reg.rdx (tsc >>> 32)

/-- CF says the value is valid, and every other status flag is cleared. -/
def rdrandFlags (c : Cpu) : Cpu :=
  (((((c.syncFlags.setCf true).setOf false).setZf false).setSf false).setAf false).setPf false

def opRdrand (insn : Insn) : H Unit := do
  let v ← nextRand
  let _ ← Proc.attempt (writeOperand insn insn.dst insn.opSize v)
  Proc.modify rdrandFlags

def opHlt (_ : Insn) : H Unit := raiseAtRip .generalProtection .ok "HLT in user mode"

def opSyscall (_ : Insn) : H Unit :=
  raiseAtRip .invalidOpcode .ok
    "SYSCALL -- install an INSN hook with filter_op=Syscall to service"

/-- `RET`, with the bytes of an immediate released after the return address. -/
def opRet (insn : Insn) : H Unit := do
  let rsp ← gets fun c => c.r Reg.rsp
  requireAttached false rsp "no read provider for RET pop"
  let buf ← load rsp 8 kindFromStatus "RET pop"
  let released := if insn.dst.kind = .imm then insn.dst.imm &&& 0xFFFF else 0
  Proc.modify fun c => c.setR64 Reg.rsp (rsp + 8 + released)
  Proc.modify fun c => c.takeBranch (loadLE buf 8)

end Handlers

end PicoCpu
