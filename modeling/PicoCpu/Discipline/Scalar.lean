import PicoCpu.Discipline
import PicoCpu.Handlers.Logical
import PicoCpu.Handlers.ShiftRotate
import PicoCpu.Handlers.BitManip
import PicoCpu.Handlers.Bmi
import PicoCpu.Handlers.DataMov
import PicoCpu.Handlers.ControlFlow
import PicoCpu.Handlers.StringOps
import PicoCpu.Handlers.Misc

/-!
The integer handlers, moves, branches and string operations, put together. Arithmetic keeps to
the operand helpers; the stack and the string operations access memory themselves.
-/

namespace PicoCpu

open Handlers

namespace Within

open Cpu

variable {g : Grade} {insn : Insn}

/-! ### Arithmetic -/

section Operands

variable (hdst : g.spans insn insn.dst insn.opSize) (hsrc : g.spans insn insn.src insn.opSize)

include hdst in
theorem unaryAlu {f : Nat → U64 → U64} {stash : Nat → U64 → U64 → Cpu → Cpu}
    (hstash : ∀ size a r, Quiet (stash size a r)) : Within g (Handlers.unaryAlu f stash insn) := by
  refine (readOperand insn hdst).bind fun a => ?_
  exact (writeOperand insn hdst _).bind fun _ => modify (hstash _ a _)

include hdst in
theorem opNot : Within g (Handlers.opNot insn) :=
  (readOperand insn hdst).bind fun _ => writeOperand insn hdst _

include hdst hsrc

theorem binaryAlu {f : Nat → U64 → U64 → U64} {stash : Nat → U64 → U64 → Cpu → Cpu}
    (hstash : ∀ size b r, Quiet (stash size b r)) :
    Within g (Handlers.binaryAlu f stash insn) := by
  refine (readOperand insn hdst).bind fun a => ?_
  refine (readOperand insn hsrc).bind fun b => ?_
  exact (writeOperand insn hdst _).bind fun _ => modify (hstash _ b _)

theorem carryAlu {f : Nat → U64 → U64 → Bool → U64} {stash : Nat → U64 → Bool → U64 → Cpu → Cpu}
    (hstash : ∀ size b cin r, Quiet (stash size b cin r)) :
    Within g (Handlers.carryAlu f stash insn) := by
  refine (readOperand insn hdst).bind fun a => ?_
  refine (readOperand insn hsrc).bind fun b => ?_
  refine (getsSynced Cpu.cf).bind fun cin => ?_
  exact (writeOperand insn hdst _).bind fun _ => modify (hstash _ b cin _)

theorem compareAlu {f : Nat → U64 → U64 → U64} {stash : Nat → U64 → U64 → Cpu → Cpu}
    (hstash : ∀ size b r, Quiet (stash size b r)) :
    Within g (Handlers.compareAlu f stash insn) := by
  refine (readOperand insn hdst).bind fun a => ?_
  exact (readOperand insn hsrc).bind fun b => modify (hstash _ b _)

end Operands

/-- A result is written, whether or not that succeeds, and flags follow. -/
theorem writeThen {size : Nat} (hdst : g.spans insn insn.dst size) (v : U64) {flags : Cpu → Cpu}
    (hflags : Quiet flags) : Ends g (do
      let _ ← Proc.attempt (PicoCpu.writeOperand insn insn.dst size v)
      Proc.modify flags) :=
  .attempt (writeOperand insn hdst v) fun _ => .modify hflags

theorem opImul (hdst : g.spans insn insn.dst insn.opSize) (hsrc : g.spans insn insn.src insn.opSize) :
    Ends g (Handlers.opImul insn) := by
  refine .ite ?_ ?_
  · exact .bind (readOperand insn hsrc) fun a => writeThen hdst _ (.stashMulOv _)
  · exact .bind (readOperand insn hdst) fun a =>
      .bind (readOperand insn hsrc) fun b => writeThen hdst _ (.stashMulOv _)

theorem quiet_setAccumulator (size : Nat) (lo hi : U64) :
    Quiet (Handlers.setAccumulator size lo hi) := by
  unfold Handlers.setAccumulator
  split
  · exact ⟨fun _ => rfl⟩
  · exact ⟨fun _ => rfl⟩
  · exact ⟨fun _ => rfl⟩
  · exact ⟨fun _ => rfl⟩
  · exact .id

theorem wideMul {halves : Nat → U64 → U64 → U64 × U64 × Bool}
    (hsrc : g.spans insn insn.src insn.opSize) : Within g (Handlers.wideMul halves insn) := by
  refine (readOperand insn hsrc).bind fun b => ?_
  refine (gets _).bind fun a => ?_
  exact (modify (quiet_setAccumulator ..)).bind fun _ => modify (.stashMulOv _)

theorem quiet_setQuotient (size : Nat) (q r : U64) : Quiet (Handlers.setQuotient size q r) := by
  unfold Handlers.setQuotient
  split
  · exact ⟨fun _ => rfl⟩
  · exact ⟨fun _ => rfl⟩
  · exact ⟨fun _ => rfl⟩
  · exact ⟨fun _ => rfl⟩
  · exact .id

theorem divideError {α : Type} (note : String) : Within g (Handlers.divideError note : H α) :=
  raiseAtRip FaultKind.noConfusion ..

theorem opDiv (hsrc : g.spans insn insn.src insn.opSize) : Within g (Handlers.opDiv insn) := by
  refine (readOperand insn hsrc).bind fun divisor => ?_
  refine ite (divideError _) (ite (ret _) ?_)
  refine (gets (Handlers.dividend insn.opSize)).bind fun num => ?_
  exact ite (divideError _) (modify (quiet_setQuotient ..))

theorem opIdiv (hsrc : g.spans insn insn.src insn.opSize) : Within g (Handlers.opIdiv insn) := by
  refine (readOperand insn hsrc).bind fun divisor => ?_
  refine ite (divideError _) (ite ?_ (ite (ret _) ?_))
  · refine (gets fun c => c.r Reg.rdx).bind fun hi => ?_
    refine (gets fun c => c.r Reg.rax).bind fun lo => ?_
    exact ite (modify (quiet_setQuotient ..)) (divideError _)
  · refine (gets (Handlers.signedDividend insn.opSize)).bind fun num => ?_
    exact ite (divideError _) (modify (quiet_setQuotient ..))

/-! ### Shifts and bits -/

section Shifts

variable (hdst : g.spans insn insn.dst insn.opSize) (hcount : g.spans insn insn.src 1)

include hcount in
theorem readCount : Within g (Handlers.readCount insn) :=
  (readOperand insn hcount).bind fun _ => ret _

include hdst in
theorem doubleShift {f : Nat → U64 → U64 → Nat → U64} {stash : Nat → U64 → Nat → U64 → Cpu → Cpu}
    (hstash : ∀ size a n r, Quiet (stash size a n r)) :
    Within g (Handlers.doubleShift f stash insn) := by
  refine (readOperand insn hdst).bind fun a => ?_
  refine (gets _).bind fun b => ?_
  refine (gets _).bind fun n => ?_
  refine ite (ret _) (ite ?_ ?_)
  · exact (writeOperand insn hdst _).bind fun _ => modify (.stash ..)
  · exact (writeOperand insn hdst _).bind fun _ => modify (hstash ..)

include hdst hcount

theorem shiftAlu {f : Nat → U64 → Nat → U64} {stash : Nat → U64 → Nat → U64 → Cpu → Cpu}
    (hstash : ∀ size a n r, Quiet (stash size a n r)) :
    Within g (Handlers.shiftAlu f stash insn) := by
  refine (readOperand insn hdst).bind fun a => ?_
  refine (readCount hcount).bind fun n => ?_
  exact (writeOperand insn hdst _).bind fun _ => modify (hstash _ a n _)

theorem opRcl : Within g (Handlers.opRcl insn) := by
  refine (readOperand insn hdst).bind fun a => ?_
  refine (readCount hcount).bind fun n => ?_
  refine ite (ret _) ?_
  refine (getsSynced Cpu.cf).bind fun cf => ?_
  refine (writeOperand insn hdst _).bind fun _ => ?_
  refine (modify (.setFlag Rflags.cf _)).bind fun _ => ?_
  exact ite (modify (.setFlag Rflags.of _)) (ret _)

theorem opRcr : Within g (Handlers.opRcr insn) := by
  refine (readOperand insn hdst).bind fun a => ?_
  refine (readCount hcount).bind fun n => ?_
  refine ite (ret _) ?_
  refine (getsSynced Cpu.cf).bind fun cf => ?_
  have hrotate (x : U64 × Bool) : Within g (do
      PicoCpu.writeOperand insn insn.dst insn.opSize x.1
      Proc.modify fun c => c.setCf x.2) :=
    (writeOperand insn hdst _).bind fun _ => modify (.setFlag Rflags.cf _)
  exact ite ((modify (.setFlag Rflags.of _)).bind fun _ => hrotate _) (hrotate _)

end Shifts

section Bits

variable (hdst : g.spans insn insn.dst insn.opSize) (hsrc : g.spans insn insn.src insn.opSize)

include hdst hsrc

theorem bitScan {f : U64 → Nat → Nat} : Ends g (Handlers.bitScan f insn) := by
  refine .bind (readOperand insn hsrc) fun v => ?_
  refine .bind (modify .syncFlags) fun _ => ?_
  exact .ite (.of (modify (.setFlag Rflags.zf true)))
    (writeThen hdst _ (.setFlag Rflags.zf false))

theorem bitTestGet : Within g (Handlers.bitTestGet insn) :=
  (readOperand insn hdst).bind fun _ => (readOperand insn hsrc).bind fun _ => ret _

theorem opBt : Within g (Handlers.opBt insn) :=
  (bitTestGet hdst hsrc).bind fun _ => modify (Quiet.syncFlags.andFlag Rflags.cf _)

theorem bitTestUpdate {f : U64 → U64 → U64} : Within g (Handlers.bitTestUpdate f insn) := by
  refine (bitTestGet hdst hsrc).bind fun x => ?_
  refine (modify (Quiet.syncFlags.andFlag Rflags.cf _)).bind fun _ => ?_
  exact writeOperand insn hdst _

theorem bitCount {f : Nat → U64 → Nat} {flags : Nat → Nat → Cpu → Cpu}
    (hflags : ∀ w n, Quiet (flags w n)) : Ends g (Handlers.bitCount f flags insn) :=
  .bind (readOperand insn hsrc) fun _ => writeThen hdst _ ((hflags _ _).comp .syncFlags)

theorem bmiOp {f : Insn → U64 → U64 → U64} {flags : Insn → U64 → U64 → U64 → Cpu → Cpu}
    (hflags : ∀ insn src vvvv r, Quiet (flags insn src vvvv r)) :
    Ends g (Handlers.bmiOp f flags insn) := by
  refine .bind (readOperand insn hsrc) fun src => ?_
  exact .bind (gets (readVvvv insn)) fun vvvv => writeThen hdst _ (hflags ..)

end Bits

theorem quiet_popcntFlags (w n : Nat) : Quiet (popcntFlags w n) :=
  (((((Quiet.setFlag Rflags.zf (n == 0)).andFlag Rflags.cf false).andFlag Rflags.of
    false).andFlag Rflags.sf false).andFlag Rflags.af false).andFlag Rflags.pf false

theorem quiet_zeroCountFlags (w n : Nat) : Quiet (zeroCountFlags w n) :=
  (Quiet.setFlag Rflags.cf (n == w)).andFlag Rflags.zf (n == 0)

theorem quiet_bmiFlags (cf zf sf : Bool) : Quiet (bmiFlags cf zf sf) :=
  (((((Quiet.syncFlags.andFlag Rflags.cf cf).andFlag Rflags.zf zf).andFlag Rflags.sf sf).andFlag
    Rflags.of false).andFlag Rflags.pf false).andFlag Rflags.af false

theorem opMulx (hsrc : g.spans insn insn.src insn.opSize) : Within g (Handlers.opMulx insn) :=
  (readOperand insn hsrc).bind fun _ => update fun _ => rfl

/-! ### Data movement -/

theorem quiet_rdrandFlags : Quiet rdrandFlags :=
  (((((Quiet.syncFlags.andFlag Rflags.cf true).andFlag Rflags.of false).andFlag Rflags.zf
    false).andFlag Rflags.sf false).andFlag Rflags.af false).andFlag Rflags.pf false

section Moves

variable (hdst : g.spans insn insn.dst insn.opSize)

include hdst

/-- `MOV` and its kin: read the source, write the destination. -/
theorem moveWith {op : Operand} {size : Nat} (hop : g.spans insn op size) (f : U64 → U64) :
    Within g (do
      let v ← PicoCpu.readOperand insn op size
      PicoCpu.writeOperand insn insn.dst insn.opSize (f v)) :=
  (readOperand insn hop).bind fun _ => writeOperand insn hdst _

theorem opLea : Within g (Handlers.opLea insn) :=
  ite (raiseAtRip FaultKind.noConfusion ..) ((gets _).bind fun _ => writeOperand insn hdst _)

theorem opPush (hdirect : g.direct) : Within g (Handlers.opPush insn) := by
  refine (readOperand insn hdst).bind fun v => ?_
  refine (gets _).bind fun newRsp => ?_
  exact (writeMemBytes hdirect ..).bind fun _ => update fun _ => rfl

theorem opPop (hdirect : g.direct) : Ends g (Handlers.opPop insn) := by
  refine .bind (gets fun c => c.r Reg.rsp) fun rsp => ?_
  refine .bind (readMemBytes hdirect ..) fun v => ?_
  exact writeThen hdst _ ⟨fun _ => rfl⟩

theorem opCmov (hsrc : g.spans insn insn.src insn.opSize) : Within g (Handlers.opCmov insn) := by
  refine (getsSynced fun c => c.condHolds insn.cond).bind fun holds => ?_
  exact ite ((readOperand insn hsrc).bind fun v => writeOperand insn hdst _) (ret _)

theorem opXchg (hsrc : g.spans insn insn.src insn.opSize) : Within g (Handlers.opXchg insn) := by
  refine (readOperand insn hdst).bind fun a => ?_
  refine (readOperand insn hsrc).bind fun b => ?_
  exact (writeOperand insn hdst b).bind fun _ => writeOperand insn hsrc a

theorem opRdrand : Ends g (Handlers.opRdrand insn) :=
  .bind nextRand fun _ => writeThen hdst _ quiet_rdrandFlags

end Moves

theorem opCwde (insn : Insn) : Within g (Handlers.opCwde insn) := by
  refine modify ?_
  split
  · exact ⟨fun _ => rfl⟩
  · exact ⟨fun _ => rfl⟩
  · exact ⟨fun _ => rfl⟩
  · exact ⟨fun _ => rfl⟩

theorem opCdq (insn : Insn) : Within g (Handlers.opCdq insn) := by
  refine modify ?_
  split
  · exact ⟨fun _ => rfl⟩
  · exact ⟨fun _ => rfl⟩
  · exact ⟨fun _ => rfl⟩
  · exact .id

/-! ### Control flow -/

/-- A branch target is read, or a bad operand is reported, and silent work follows. -/
theorem branchTarget (htarget : g.spans insn insn.dst 8) {k : GuestAddr → H Unit}
    (hk : ∀ target, Silent g.branches (k target)) : Ends g (Handlers.branchTarget insn >>= k) := by
  have hmem : Ends g ((do
      let v ← Proc.attempt (PicoCpu.readOperand insn insn.dst 8)
      pure (v.getD 0)) >>= k) := by
    rw [bind_assoc]
    exact .attempt (readOperand insn htarget) fun v => .bind (.ret _) hk
  have hbad : Ends g ((do
      Proc.modify fun c =>
        c.setFault .invalidOpcode c.rip .invalidInstruction (some "bad branch operand kind")
      pure (0 : GuestAddr)) >>= k) := by
    refine .bind ?_ fun target => .of (hk target).within
    exact (fault FaultKind.noConfusion ..).bind fun _ => ret _
  unfold Handlers.branchTarget
  cases insn.dst.kind with
  | none => exact hbad
  | reg => exact .bind (gets _) fun target => .of (hk target).within
  | imm => exact hbad
  | rel => exact .bind (ret _) fun target => .of (hk target).within
  | xmm => exact hbad
  | mem => exact hmem
  | ripRelMem => exact hmem

section Branches

variable (hbranches : g.branches)

include hbranches

theorem opJmp (htarget : g.spans insn insn.dst 8) : Ends g (Handlers.opJmp insn) := by
  refine branchTarget htarget fun target => ?_
  exact .bind (.gets Cpu.halted) fun halted => .ite (.branch hbranches target) (.ret _)

theorem opJcc (insn : Insn) : Within g (Handlers.opJcc insn) := by
  refine (getsSynced fun c => c.condHolds insn.cond).bind fun holds => ?_
  exact ite (branch hbranches _) (ret _)

theorem opCall (hdirect : g.direct) (htarget : g.spans insn insn.dst 8) :
    Ends g (Handlers.opCall insn) := by
  refine .bind (gets fun c => c.r Reg.rsp) fun rsp => ?_
  refine .bind (requireAttached ..) fun _ => ?_
  refine .bind (store hdirect _ _ _ kindFromStatus_ne_none _) fun _ => ?_
  refine .bind (update fun _ => rfl) fun _ => ?_
  exact branchTarget htarget fun target => .branch hbranches target

theorem opRet (hdirect : g.direct) (insn : Insn) : Within g (Handlers.opRet insn) := by
  refine (gets fun c => c.r Reg.rsp).bind fun rsp => ?_
  refine (requireAttached ..).bind fun _ => ?_
  refine (load hdirect _ _ kindFromStatus_ne_none _).bind fun buf => ?_
  exact bind (update fun _ => rfl) fun _ => branch hbranches _

theorem opLoop (insn : Insn) : Within g (Handlers.opLoop insn) := by
  have hbranch (take : Bool) : Within g
      (if take then Proc.modify fun c => c.takeBranch (nextRip insn + insn.dst.imm)
        else pure ()) :=
    ite (branch hbranches _) (ret _)
  refine (gets fun c => c.r Reg.rcx - 1).bind fun newRcx => ?_
  refine bind (update fun _ => rfl) fun _ => ?_
  refine ite ((ret false).bind hbranch) (ite ((ret true).bind hbranch) ?_)
  exact (getsSynced fun c => c.condHolds insn.cond).bind hbranch

theorem opJcxz (insn : Insn) : Within g (Handlers.opJcxz insn) :=
  (gets fun c => c.r Reg.rcx).bind fun _ => ite (branch hbranches _) (ret _)

end Branches

theorem opCpuid (insn : Insn) : Within g (Handlers.opCpuid insn) := by
  refine update fun c => ?_
  rcases cpuidAnswer c with ⟨eax, ebx, ecx, edx⟩
  rfl

theorem opRdtsc (insn : Insn) : Within g (Handlers.opRdtsc insn) :=
  nextTsc.bind fun _ => update fun _ => rfl

/-! ### String operations -/

theorem advance (reg : Nat) (old : U64) (size : Nat) :
    Within g (Handlers.advance reg old size) :=
  update fun _ => rfl

section Strings

variable (hdirect : g.direct)

include hdirect

theorem movsStep (size : Nat) : Within g (Handlers.movsStep size) := by
  refine (gets fun c => c.r Reg.rsi).bind fun rsi => ?_
  refine (gets fun c => c.r Reg.rdi).bind fun rdi => ?_
  refine (readMemBytes hdirect ..).bind fun v => ?_
  refine (writeMemBytes hdirect ..).bind fun _ => ?_
  exact (advance Reg.rsi rsi size).bind fun _ => (advance Reg.rdi rdi size).bind fun _ => ret _

theorem stosStep (size : Nat) : Within g (Handlers.stosStep size) := by
  refine (gets fun c => c.r Reg.rdi).bind fun rdi => ?_
  refine (gets fun c => c.r Reg.rax &&& maskFor size).bind fun v => ?_
  refine (writeMemBytes hdirect ..).bind fun _ => ?_
  exact (advance Reg.rdi rdi size).bind fun _ => ret _

theorem lodsStep (size : Nat) : Within g (Handlers.lodsStep size) := by
  refine (gets fun c => c.r Reg.rsi).bind fun rsi => ?_
  refine (readMemBytes hdirect ..).bind fun v => ?_
  refine (modify (.ite (.writeGpr ..) .id)).bind fun _ => ?_
  exact (advance Reg.rsi rsi size).bind fun _ => ret _

theorem scasStep (size : Nat) : Within g (Handlers.scasStep size) := by
  refine (gets fun c => c.r Reg.rdi).bind fun rdi => ?_
  refine (readMemBytes hdirect ..).bind fun v => ?_
  refine bind (update fun _ => rfl) fun _ => ?_
  refine (getsSynced Cpu.zf).bind fun zf => ?_
  exact (advance Reg.rdi rdi size).bind fun _ => ret _

theorem cmpsStep (size : Nat) : Within g (Handlers.cmpsStep size) := by
  refine (gets fun c => c.r Reg.rsi).bind fun rsi => ?_
  refine (gets fun c => c.r Reg.rdi).bind fun rdi => ?_
  refine (readMemBytes hdirect ..).bind fun vs => ?_
  refine (readMemBytes hdirect ..).bind fun vd => ?_
  refine bind (update fun _ => rfl) fun _ => ?_
  refine (getsSynced Cpu.zf).bind fun zf => ?_
  exact (advance Reg.rsi rsi size).bind fun _ => (advance Reg.rdi rdi size).bind fun _ => ret _

theorem opPushf (insn : Insn) : Within g (Handlers.opPushf insn) := by
  refine (getsSynced Cpu.rflags).bind fun rflags => ?_
  refine (gets fun c => c.r Reg.rsp - 8).bind fun newRsp => ?_
  refine (requireAttached ..).bind fun _ => ?_
  refine (store hdirect _ _ _ kindFromStatus_ne_none _).bind fun _ => ?_
  exact update fun _ => rfl

theorem opPopf (insn : Insn) : Within g (Handlers.opPopf insn) := by
  refine (gets fun c => c.r Reg.rsp).bind fun rsp => ?_
  refine (requireAttached ..).bind fun _ => ?_
  refine (load hdirect _ _ kindFromStatus_ne_none _).bind fun buf => ?_
  exact bind (update fun _ => rfl) fun _ => update fun _ => rfl

end Strings

theorem repLoop {step : H Bool} (hstep : Within g step) (insn : Insn) (fuel : Nat) :
    Within g (Handlers.repLoop insn step fuel) := by
  induction fuel with
  | zero => exact ret _
  | succ fuel ih =>
      refine (gets fun c => c.r Reg.rcx != 0 && !c.halted).bind fun more => ?_
      refine ite ?_ (ret _)
      refine hstep.bind fun zf => ?_
      exact bind (update fun _ => rfl) fun _ => ite (ret _) ih

theorem runString {step : H Bool} (hstep : Within g step) (insn : Insn) :
    Within g (Handlers.runString insn step) := by
  refine ite ?_ (hstep.bind fun _ => ret _)
  exact (gets fun c => c.r Reg.rcx).bind fun rcx => repLoop hstep insn rcx.toNat

/-! ### The flags word -/

theorem opLahf (insn : Insn) : Within g (Handlers.opLahf insn) :=
  update fun c => Quiet.syncFlags.control c

theorem opSahf (insn : Insn) : Within g (Handlers.opSahf insn) :=
  update fun c => Quiet.syncFlags.control c

end Within

end PicoCpu
