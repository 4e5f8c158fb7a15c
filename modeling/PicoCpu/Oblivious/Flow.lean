import PicoCpu.Oblivious
import PicoCpu.Handlers.DataMov
import PicoCpu.Handlers.ControlFlow
import PicoCpu.Handlers.StringOps
import PicoCpu.Handlers.Misc

/-!
Moves, branches, string operations and the handlers that name the flags word: none can tell
how the flags are kept. A branch decides on a condition code, which the accessors compute; the
loops of the string operations are run in step.
-/

namespace PicoCpu

open Handlers

namespace Oblivious

open Cpu

variable {L : Option (List CpuidLeaf)} {t : Bool}

/-! ### Data movement -/

theorem opMov (insn : Insn) : Oblivious L t (Handlers.opMov insn) :=
  (readOperand ..).bind fun _ => writeOperand ..

theorem opMovzx (insn : Insn) : Oblivious L t (Handlers.opMovzx insn) :=
  (readOperand ..).bind fun _ => writeOperand ..

theorem opMovsx (insn : Insn) : Oblivious L t (Handlers.opMovsx insn) :=
  (readOperand ..).bind fun _ => writeOperand ..

theorem opMovsxd (insn : Insn) : Oblivious L t (Handlers.opMovsxd insn) :=
  (readOperand ..).bind fun _ => writeOperand ..

theorem opMovbe (insn : Insn) : Oblivious L t (Handlers.opMovbe insn) :=
  (readOperand ..).bind fun _ => writeOperand ..

theorem opBswap (insn : Insn) : Oblivious L t (Handlers.opBswap insn) :=
  (readOperand ..).bind fun _ => writeOperand ..

theorem opLea (insn : Insn) : Oblivious L t (Handlers.opLea insn) :=
  ite (raiseAtRip ..) ((getsEa insn insn.src).bind fun _ => writeOperand ..)

theorem opPush (insn : Insn) : Oblivious L t (Handlers.opPush insn) := by
  refine (readOperand insn insn.dst _).bind fun v => ?_
  refine (gets_free _ fun _ => rfl).bind fun newRsp => ?_
  refine (writeMemBytes ..).bind fun _ => ?_
  exact update fun _ _ => rfl

theorem opPop (insn : Insn) : Oblivious L t (Handlers.opPop insn) := by
  refine (getsReg Reg.rsp).bind fun rsp => ?_
  refine (readMemBytes ..).bind fun v => ?_
  refine (writeOperand ..).attempt.bind fun _ => ?_
  exact update fun _ _ => rfl

/-- Reading a condition code. -/
theorem getsCond (cc : Cc) : Oblivious L t (H.getsSynced fun c => c.condHolds cc) :=
  getsSynced _ fun _ _ h => h.condHolds cc

theorem opCmov (insn : Insn) : Oblivious L t (Handlers.opCmov insn) := by
  refine (getsCond insn.cond).bind fun holds => ?_
  exact ite ((readOperand ..).bind fun v => writeOperand ..) (ret _)

theorem opXchg (insn : Insn) : Oblivious L t (Handlers.opXchg insn) := by
  refine (readOperand insn insn.dst _).bind fun a => ?_
  refine (readOperand insn insn.src _).bind fun b => ?_
  refine (writeOperand insn insn.dst _ b).bind fun _ => ?_
  exact writeOperand insn insn.src _ a

theorem opCwde (insn : Insn) : Oblivious L t (Handlers.opCwde insn) := by
  refine modify ?_
  split
  · exact keeps_flagFree fun _ _ => rfl
  · exact keeps_flagFree fun _ _ => rfl
  · exact keeps_flagFree fun _ _ => rfl
  · exact keeps_flagFree fun _ _ => rfl

theorem opCdq (insn : Insn) : Oblivious L t (Handlers.opCdq insn) := by
  refine modify ?_
  split
  · exact keeps_flagFree fun _ _ => rfl
  · exact keeps_flagFree fun _ _ => rfl
  · exact keeps_flagFree fun _ _ => rfl
  · exact keeps_id

/-! ### Control flow -/

/-- The end of every taken branch. -/
theorem branchTo (target : GuestAddr) :
    Oblivious L t (Proc.modify fun c => c.takeBranch target : H Unit) :=
  update fun _ _ => rfl

theorem branchTarget (insn : Insn) : Oblivious L t (Handlers.branchTarget insn) := by
  have hmem : Oblivious L t (do
      let v ← Proc.attempt (PicoCpu.readOperand insn insn.dst 8)
      pure (v.getD 0)) :=
    (readOperand ..).attempt.bind fun v => ret _
  have hbad : Oblivious L t (do
      Proc.modify fun c =>
        c.setFault .invalidOpcode c.rip .invalidInstruction (some "bad branch operand kind")
      pure (0 : GuestAddr)) :=
    (update fun _ _ => rfl).bind fun _ => ret _
  unfold Handlers.branchTarget
  cases insn.dst.kind with
  | none => exact hbad
  | reg => exact getsReg insn.dst.reg
  | imm => exact hbad
  | rel => exact ret _
  | xmm => exact hbad
  | mem => exact hmem
  | ripRelMem => exact hmem

theorem opJmp (insn : Insn) : Oblivious L t (Handlers.opJmp insn) := by
  refine (branchTarget insn).bind fun target => ?_
  refine (gets_free Cpu.halted fun _ => rfl).bind fun halted => ?_
  exact ite (branchTo target) (ret _)

theorem opJcc (insn : Insn) : Oblivious L t (Handlers.opJcc insn) := by
  refine (getsCond insn.cond).bind fun holds => ?_
  exact ite (branchTo _) (ret _)

theorem opCall (insn : Insn) : Oblivious L t (Handlers.opCall insn) := by
  refine (getsReg Reg.rsp).bind fun rsp => ?_
  refine (requireAttached ..).bind fun _ => ?_
  refine (store ..).bind fun _ => ?_
  refine (update fun _ _ => rfl).bind fun _ => ?_
  exact (branchTarget insn).bind fun target => branchTo target

theorem opRet (insn : Insn) : Oblivious L t (Handlers.opRet insn) := by
  refine (getsReg Reg.rsp).bind fun rsp => ?_
  refine (requireAttached ..).bind fun _ => ?_
  refine (load ..).bind fun buf => ?_
  refine (update fun _ _ => rfl).bind fun _ => ?_
  exact branchTo _

theorem opLoop (insn : Insn) : Oblivious L t (Handlers.opLoop insn) := by
  have hbranch (take : Bool) : Oblivious L t
      (if take then Proc.modify fun c => c.takeBranch (nextRip insn + insn.dst.imm)
        else pure ()) :=
    ite (branchTo _) (ret _)
  refine (gets_free (fun c => c.r Reg.rcx - 1) fun _ => rfl).bind fun newRcx => ?_
  refine (update fun _ _ => rfl).bind fun _ => ?_
  refine ite ((ret false).bind hbranch) (ite ((ret true).bind hbranch) ?_)
  exact (getsCond insn.cond).bind hbranch

theorem opJcxz (insn : Insn) : Oblivious L t (Handlers.opJcxz insn) := by
  refine (getsReg Reg.rcx).bind fun rcx => ?_
  exact ite (branchTo _) (ret _)

/-- CPUID depends on the registers and the overrides. -/
theorem opCpuid (insn : Insn) : Oblivious L t (Handlers.opCpuid insn) := by
  refine modify ⟨fun c d h => ?_⟩
  have hanswer : cpuidAnswer c = cpuidAnswer d := h.same.observe cpuidAnswer fun _ => rfl
  simp only [hanswer]
  rcases cpuidAnswer d with ⟨eax, ebx, ecx, edx⟩
  have hwrite : Keeps L fun c =>
      (((c.setR32 Reg.rax (eax.setWidth 64)).setR32 Reg.rbx (ebx.setWidth 64)).setR32 Reg.rcx
        (ecx.setWidth 64)).setR32 Reg.rdx (edx.setWidth 64) := keeps_flagFree fun _ _ => rfl
  exact hwrite.same c d h

/-- The counters of the host are read only where that is allowed. -/
theorem opRdtsc (insn : Insn) : Oblivious L true (Handlers.opRdtsc insn) := by
  have hwrite (tsc : U64) : (Proc.modify fun c => (c.setR32 Reg.rax tsc).setR32 Reg.rdx (tsc >>> 32)
      : H Unit).Respects (MachineOp.Allowed true) (hookRely L) (SameWith L) :=
    (update fun _ _ => rfl).respects
  exact ⟨Proc.Respects.bind (Proc.respects_ask (S := machine) .nextTsc rfl) hwrite⟩

theorem keeps_rdrandFlags : Keeps L rdrandFlags :=
  (((((keeps_syncFlags.setFlag Rflags.cf true).setFlag Rflags.of false).setFlag Rflags.zf
    false).setFlag Rflags.sf false).setFlag Rflags.af false).setFlag Rflags.pf false

theorem opRdrand (insn : Insn) : Oblivious L true (Handlers.opRdrand insn) := by
  have hwrite (v : U64) : Oblivious L true (do
      let _ ← Proc.attempt (PicoCpu.writeOperand insn insn.dst insn.opSize v)
      Proc.modify rdrandFlags) :=
    (writeOperand ..).attempt.bind fun _ => modify keeps_rdrandFlags
  exact ⟨Proc.Respects.bind (Proc.respects_ask (S := machine) .nextRand rfl)
    fun v => (hwrite v).respects⟩

/-! ### String operations -/

theorem advance (reg : Nat) (old : U64) (size : Nat) :
    Oblivious L t (Handlers.advance reg old size) := by
  refine modify (keeps_read (r := fun c => dirStep c size)
    (f := fun step c => c.setR64 reg (old + step)) ?_ fun _ => keeps_flagFree fun _ _ => rfl)
  intro c d h
  rw [dirStep, dirStep, h.df]

theorem movsStep (size : Nat) : Oblivious L t (Handlers.movsStep size) := by
  refine (getsReg Reg.rsi).bind fun rsi => ?_
  refine (getsReg Reg.rdi).bind fun rdi => ?_
  refine (readMemBytes ..).bind fun v => ?_
  refine (writeMemBytes ..).bind fun _ => ?_
  refine (advance Reg.rsi rsi size).bind fun _ => ?_
  exact (advance Reg.rdi rdi size).bind fun _ => ret _

theorem stosStep (size : Nat) : Oblivious L t (Handlers.stosStep size) := by
  refine (getsReg Reg.rdi).bind fun rdi => ?_
  refine (gets_free (fun c => c.r Reg.rax &&& maskFor size) fun _ => rfl).bind fun v => ?_
  refine (writeMemBytes ..).bind fun _ => ?_
  exact (advance Reg.rdi rdi size).bind fun _ => ret _

theorem lodsStep (size : Nat) : Oblivious L t (Handlers.lodsStep size) := by
  have hwrite (v : U64) : Keeps L fun c =>
      if IsOpSize size then c.writeGpr Reg.rax size v else c := by
    split
    · exact keeps_writeGpr ..
    · exact keeps_id
  refine (getsReg Reg.rsi).bind fun rsi => ?_
  refine (readMemBytes ..).bind fun v => ?_
  refine (modify (hwrite v)).bind fun _ => ?_
  exact (advance Reg.rsi rsi size).bind fun _ => ret _

theorem scasStep (size : Nat) : Oblivious L t (Handlers.scasStep size) := by
  refine (getsReg Reg.rdi).bind fun rdi => ?_
  refine (readMemBytes ..).bind fun v => ?_
  have hcompare : Keeps L fun c =>
      c.stashSub size v ((c.r Reg.rax &&& maskFor size) - v &&& maskFor size) :=
    keeps_read (f := fun rax c => c.stashSub size v ((rax &&& maskFor size) - v &&& maskFor size))
      (fun _ _ h => h.observe (fun c => c.r Reg.rax) fun _ => rfl)
      fun rax => keeps_stashSub size v _
  refine (modify hcompare).bind fun _ => ?_
  refine (getsSynced Cpu.zf fun _ _ h => h.zf).bind fun zf => ?_
  exact (advance Reg.rdi rdi size).bind fun _ => ret _

theorem cmpsStep (size : Nat) : Oblivious L t (Handlers.cmpsStep size) := by
  refine (getsReg Reg.rsi).bind fun rsi => ?_
  refine (getsReg Reg.rdi).bind fun rdi => ?_
  refine (readMemBytes ..).bind fun vs => ?_
  refine (readMemBytes ..).bind fun vd => ?_
  refine (modify (keeps_stashSub ..)).bind fun _ => ?_
  refine (getsSynced Cpu.zf fun _ _ h => h.zf).bind fun zf => ?_
  refine (advance Reg.rsi rsi size).bind fun _ => ?_
  exact (advance Reg.rdi rdi size).bind fun _ => ret _

/-- The two loops take the same number of passes: both counters are the same. -/
theorem repLoop {step : H Bool} (hstep : Oblivious L t step) (insn : Insn) (fuel : Nat) :
    Oblivious L t (Handlers.repLoop insn step fuel) := by
  induction fuel with
  | zero => exact ret _
  | succ fuel ih =>
      refine (gets_free (fun c => c.r Reg.rcx != 0 && !c.halted) fun _ => rfl).bind fun more => ?_
      refine ite ?_ (ret _)
      refine hstep.bind fun zf => ?_
      refine (update fun _ _ => rfl).bind fun _ => ?_
      exact ite (ret _) ih

theorem runString {step : H Bool} (hstep : Oblivious L t step) (insn : Insn) :
    Oblivious L t (Handlers.runString insn step) := by
  refine ite ?_ (hstep.bind fun _ => ret _)
  exact (getsReg Reg.rcx).bind fun rcx => repLoop hstep insn rcx.toNat

/-! ### The flags word -/

theorem opLahf (insn : Insn) : Oblivious L t (Handlers.opLahf insn) := by
  refine modify (keeps_read (r := fun c => c.syncFlags.rflags) (f := fun (rflags : U64) c =>
    c.syncFlags.setR64 Reg.rax
      ((c.syncFlags.r Reg.rax &&& ~~~0xFF00#64) ||| (((rflags &&& 0xD7) ||| 0x02) <<< 8))) ?_ ?_)
  · exact fun _ _ h => h.synced.rflags
  · exact fun rflags => Keeps.comp (g := fun c => c.setR64 Reg.rax
      ((c.r Reg.rax &&& ~~~0xFF00#64) ||| (((rflags &&& 0xD7) ||| 0x02) <<< 8)))
      (keeps_flagFree fun _ _ => rfl) keeps_syncFlags

theorem opSahf (insn : Insn) : Oblivious L t (Handlers.opSahf insn) := by
  refine modify (keeps_read (r := fun c => (c.syncFlags.rflags, c.r Reg.rax))
    (f := fun (x : U64 × U64) c => c.syncFlags.setRflags
      ((x.1 &&& ~~~0xFF#64) ||| ((((x.2 >>> 8) &&& 0xFF) &&& 0xD5) ||| 0x02))) ?_ ?_)
  · exact fun _ _ h =>
      Prod.ext h.synced.rflags (h.observe (fun c => c.r Reg.rax) fun _ => rfl)
  · exact fun x => (keeps_setRflags _).comp keeps_syncFlags

theorem opPushf (insn : Insn) : Oblivious L t (Handlers.opPushf insn) := by
  refine (getsSynced Cpu.rflags fun _ _ h => h.rflags).bind fun rflags => ?_
  refine (gets_free (fun c => c.r Reg.rsp - 8) fun _ => rfl).bind fun newRsp => ?_
  refine (requireAttached ..).bind fun _ => ?_
  refine (store ..).bind fun _ => ?_
  exact update fun _ _ => rfl

theorem opPopf (insn : Insn) : Oblivious L t (Handlers.opPopf insn) := by
  refine (getsReg Reg.rsp).bind fun rsp => ?_
  refine (requireAttached ..).bind fun _ => ?_
  refine (load ..).bind fun buf => ?_
  refine (modify (keeps_setRflags _)).bind fun _ => ?_
  exact update fun _ _ => rfl

end Oblivious

end PicoCpu
