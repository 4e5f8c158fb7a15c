import PicoCpu.AccessSizes
import PicoCpu.Handlers.Logical
import PicoCpu.Handlers.ShiftRotate
import PicoCpu.Handlers.BitManip
import PicoCpu.Handlers.Bmi
import PicoCpu.Handlers.DataMov
import PicoCpu.Handlers.ControlFlow
import PicoCpu.Handlers.StringOps
import PicoCpu.Handlers.Misc

/-!
The accesses of the integer handlers, the branches and the string operations: of the operand
size, of the size of an extended source, or of a fixed size.
-/

namespace PicoCpu

open Handlers

namespace NarrowAccess

section Fixed

/-- The stack is accessed eight bytes at a time. -/
theorem eight_le : 8 ≤ 64 := by decide

theorem opCwde (insn : Insn) : NarrowAccess (Handlers.opCwde insn) := modify _

theorem opCdq (insn : Insn) : NarrowAccess (Handlers.opCdq insn) := modify _

theorem branchTarget (insn : Insn) : NarrowAccess (Handlers.branchTarget insn) := by
  have hmem : NarrowAccess (do
      let v ← Proc.attempt (PicoCpu.readOperand insn insn.dst 8)
      pure (v.getD 0)) :=
    (readOperand eight_le insn insn.dst).attempt.bind fun v => ret _
  have hbad : NarrowAccess (do
      Proc.modify fun c =>
        c.setFault .invalidOpcode c.rip .invalidInstruction (some "bad branch operand kind")
      pure (0 : GuestAddr)) :=
    modify_bind (ret _)
  unfold Handlers.branchTarget
  cases insn.dst.kind with
  | none => exact hbad
  | reg => exact gets _
  | imm => exact hbad
  | rel => exact ret _
  | xmm => exact hbad
  | mem => exact hmem
  | ripRelMem => exact hmem

theorem opJmp (insn : Insn) : NarrowAccess (Handlers.opJmp insn) :=
  (branchTarget insn).bind fun _ => gets_bind fun _ => (modify _).ite (ret _)

theorem opJcc (insn : Insn) : NarrowAccess (Handlers.opJcc insn) :=
  (getsSynced _).bind fun _ => (modify _).ite (ret _)

theorem opCall (insn : Insn) : NarrowAccess (Handlers.opCall insn) := by
  apply gets_bind
  intro rsp
  apply (requireAttached ..).seq
  apply (store eight_le _ _ _ _).seq
  apply modify_bind
  exact (branchTarget insn).bind fun target => modify _

theorem opRet (insn : Insn) : NarrowAccess (Handlers.opRet insn) := by
  apply gets_bind
  intro rsp
  apply (requireAttached ..).seq
  apply (load eight_le _ _ _).bind
  intro buf
  exact modify_bind (modify _)

theorem opLoop (insn : Insn) : NarrowAccess (Handlers.opLoop insn) := by
  have hbranch (take : Bool) : NarrowAccess
      (if take then Proc.modify fun c => c.takeBranch (nextRip insn + insn.dst.imm)
        else pure ()) :=
    (modify _).ite (ret _)
  apply gets_bind
  intro rcx
  apply modify_bind
  apply ite ((ret false).bind hbranch)
  apply ite ((ret true).bind hbranch)
  exact (getsSynced _).bind hbranch

theorem opJcxz (insn : Insn) : NarrowAccess (Handlers.opJcxz insn) :=
  gets_bind fun _ => (modify _).ite (ret _)

theorem opRdtsc (insn : Insn) : NarrowAccess (Handlers.opRdtsc insn) :=
  (ask (o := .nextTsc) trivial).bind fun _ => modify _

theorem opPushf (insn : Insn) : NarrowAccess (Handlers.opPushf insn) := by
  apply (getsSynced _).bind
  intro rflags
  apply gets_bind
  intro rsp
  apply (requireAttached ..).seq
  exact (store eight_le _ _ _ _).seq (modify _)

theorem opPopf (insn : Insn) : NarrowAccess (Handlers.opPopf insn) := by
  apply gets_bind
  intro rsp
  apply (requireAttached ..).seq
  apply (load eight_le _ _ _).bind
  intro buf
  exact modify_bind (modify _)

end Fixed

section Sized

variable {insn : Insn} (hi : insn.Narrow)
include hi

/-! ### Arithmetic -/

theorem binaryAlu {f : Nat → U64 → U64 → U64} {stash : Nat → U64 → U64 → Cpu → Cpu} :
    NarrowAccess (Handlers.binaryAlu f stash insn) :=
  (readOperand hi.opSize ..).bind fun _ => (readOperand hi.opSize ..).bind fun _ =>
    (writeOperand hi.opSize ..).seq (modify _)

theorem carryAlu {f : Nat → U64 → U64 → Bool → U64} {stash : Nat → U64 → Bool → U64 → Cpu → Cpu} :
    NarrowAccess (Handlers.carryAlu f stash insn) :=
  (readOperand hi.opSize ..).bind fun _ => (readOperand hi.opSize ..).bind fun _ =>
    (getsSynced _).bind fun _ => (writeOperand hi.opSize ..).seq (modify _)

theorem unaryAlu {f : Nat → U64 → U64} {stash : Nat → U64 → U64 → Cpu → Cpu} :
    NarrowAccess (Handlers.unaryAlu f stash insn) :=
  (readOperand hi.opSize ..).bind fun _ => (writeOperand hi.opSize ..).seq (modify _)

theorem compareAlu {f : Nat → U64 → U64 → U64} {stash : Nat → U64 → U64 → Cpu → Cpu} :
    NarrowAccess (Handlers.compareAlu f stash insn) :=
  (readOperand hi.opSize ..).bind fun _ => (readOperand hi.opSize ..).bind fun _ => modify _

theorem opNot : NarrowAccess (Handlers.opNot insn) :=
  (readOperand hi.opSize ..).bind fun _ => writeOperand hi.opSize ..

theorem opImul : NarrowAccess (Handlers.opImul insn) := by
  have hproduct (x : U64 × Bool) : NarrowAccess (do
      let _ ← Proc.attempt (PicoCpu.writeOperand insn insn.dst insn.opSize x.1)
      Proc.modify fun c => c.stashMulOv x.2) :=
    (writeOperand hi.opSize ..).attempt.bind fun _ => modify _
  apply ite
  · exact (readOperand hi.opSize ..).bind fun a => hproduct _
  · exact (readOperand hi.opSize ..).bind fun a =>
      (readOperand hi.opSize ..).bind fun b => hproduct _

theorem wideMul {halves : Nat → U64 → U64 → U64 × U64 × Bool} :
    NarrowAccess (Handlers.wideMul halves insn) :=
  (readOperand hi.opSize ..).bind fun _ => gets_bind fun _ => modify_bind (modify _)

theorem opDiv : NarrowAccess (Handlers.opDiv insn) := by
  apply (readOperand hi.opSize insn insn.src).bind
  intro divisor
  apply ite (raiseAtRip ..)
  apply ite (ret _)
  exact gets_bind fun num => (raiseAtRip ..).ite (modify _)

theorem opIdiv : NarrowAccess (Handlers.opIdiv insn) := by
  apply (readOperand hi.opSize insn insn.src).bind
  intro divisor
  apply ite (raiseAtRip ..)
  apply ite
  · exact gets_bind fun hi => gets_bind fun lo => (modify _).ite (raiseAtRip ..)
  · apply ite (ret _)
    exact gets_bind fun num => (raiseAtRip ..).ite (modify _)

/-! ### Shifts -/

omit hi in
theorem readCount : NarrowAccess (Handlers.readCount insn) :=
  (readOperand (by decide) insn insn.src).bind fun _ => ret _

theorem shiftAlu {f : Nat → U64 → Nat → U64} {stash : Nat → U64 → Nat → U64 → Cpu → Cpu} :
    NarrowAccess (Handlers.shiftAlu f stash insn) :=
  (readOperand hi.opSize ..).bind fun _ => readCount.bind fun _ =>
    (writeOperand hi.opSize ..).seq (modify _)

theorem opRcl : NarrowAccess (Handlers.opRcl insn) := by
  apply (readOperand hi.opSize insn insn.dst).bind
  intro a
  apply readCount.bind
  intro n
  apply ite (ret _)
  apply (getsSynced _).bind
  intro cf
  apply (writeOperand hi.opSize insn insn.dst _).seq
  exact modify_bind ((modify _).ite (ret _))

theorem opRcr : NarrowAccess (Handlers.opRcr insn) := by
  have hrotate (x : U64 × Bool) : NarrowAccess (do
      PicoCpu.writeOperand insn insn.dst insn.opSize x.1
      Proc.modify fun c => c.setCf x.2) :=
    (writeOperand hi.opSize ..).seq (modify _)
  apply (readOperand hi.opSize insn insn.dst).bind
  intro a
  apply readCount.bind
  intro n
  apply ite (ret _)
  apply (getsSynced _).bind
  intro cf
  exact ite (modify_bind (hrotate _)) (hrotate _)

theorem doubleShift {f : Nat → U64 → U64 → Nat → U64}
    {stash : Nat → U64 → Nat → U64 → Cpu → Cpu} :
    NarrowAccess (Handlers.doubleShift f stash insn) := by
  apply (readOperand hi.opSize insn insn.dst).bind
  intro a
  apply gets_bind
  intro b
  apply gets_bind
  intro n
  apply ite (ret _)
  exact ite ((writeOperand hi.opSize ..).seq (modify _)) ((writeOperand hi.opSize ..).seq (modify _))

/-! ### Bits -/

theorem bitScan {f : U64 → Nat → Nat} : NarrowAccess (Handlers.bitScan f insn) := by
  apply (readOperand hi.opSize insn insn.src).bind
  intro v
  apply modify_bind
  exact ite (modify _) ((writeOperand hi.opSize ..).attempt.bind fun _ => modify _)

theorem bitTestGet : NarrowAccess (Handlers.bitTestGet insn) :=
  (readOperand hi.opSize ..).bind fun _ => (readOperand hi.opSize ..).bind fun _ => ret _

theorem opBt : NarrowAccess (Handlers.opBt insn) := (bitTestGet hi).bind fun _ => modify _

theorem bitTestUpdate {f : U64 → U64 → U64} : NarrowAccess (Handlers.bitTestUpdate f insn) :=
  (bitTestGet hi).bind fun _ => modify_bind (writeOperand hi.opSize ..)

theorem bitCount {f : Nat → U64 → Nat} {flags : Nat → Nat → Cpu → Cpu} :
    NarrowAccess (Handlers.bitCount f flags insn) :=
  (readOperand hi.opSize ..).bind fun _ => (writeOperand hi.opSize ..).attempt.bind fun _ => modify _

theorem bmiOp {f : Insn → U64 → U64 → U64} {flags : Insn → U64 → U64 → U64 → Cpu → Cpu} :
    NarrowAccess (Handlers.bmiOp f flags insn) :=
  (readOperand hi.opSize ..).bind fun _ => gets_bind fun _ =>
    (writeOperand hi.opSize ..).attempt.bind fun _ => modify _

theorem opMulx : NarrowAccess (Handlers.opMulx insn) :=
  (readOperand hi.opSize ..).bind fun _ => modify _

/-! ### Data movement -/

theorem opMov : NarrowAccess (Handlers.opMov insn) :=
  (readOperand hi.opSize ..).bind fun _ => writeOperand hi.opSize ..

/-- The size of an extended source. -/
theorem extendSize_le : extendSize insn ≤ 64 := by
  rw [extendSize]
  split
  · exact hi.scale.trans (by decide)
  · decide

theorem opMovzx : NarrowAccess (Handlers.opMovzx insn) :=
  (readOperand (extendSize_le hi) ..).bind fun _ => writeOperand hi.opSize ..

theorem opMovsx : NarrowAccess (Handlers.opMovsx insn) :=
  (readOperand (extendSize_le hi) ..).bind fun _ => writeOperand hi.opSize ..

theorem opMovsxd : NarrowAccess (Handlers.opMovsxd insn) :=
  (readOperand (by decide) insn insn.src).bind fun _ => writeOperand hi.opSize ..

theorem opMovbe : NarrowAccess (Handlers.opMovbe insn) :=
  (readOperand hi.opSize ..).bind fun _ => writeOperand hi.opSize ..

theorem opBswap : NarrowAccess (Handlers.opBswap insn) :=
  (readOperand hi.opSize ..).bind fun _ => writeOperand hi.opSize ..

theorem opLea : NarrowAccess (Handlers.opLea insn) :=
  ite (raiseAtRip ..) (gets_bind fun _ => writeOperand hi.opSize ..)

theorem opPush : NarrowAccess (Handlers.opPush insn) := by
  apply (readOperand hi.opSize insn insn.dst).bind
  intro v
  apply gets_bind
  intro rsp
  exact (writeMemBytes hi.opSize ..).seq (modify _)

theorem opPop : NarrowAccess (Handlers.opPop insn) := by
  apply gets_bind
  intro rsp
  apply (readMemBytes hi.opSize ..).bind
  intro v
  exact (writeOperand hi.opSize ..).attempt.bind fun _ => modify _

theorem opCmov : NarrowAccess (Handlers.opCmov insn) :=
  (getsSynced _).bind fun _ =>
    ((readOperand hi.opSize ..).bind fun _ => writeOperand hi.opSize ..).ite (ret _)

theorem opXchg : NarrowAccess (Handlers.opXchg insn) :=
  (readOperand hi.opSize ..).bind fun _ => (readOperand hi.opSize ..).bind fun _ =>
    (writeOperand hi.opSize ..).seq (writeOperand hi.opSize ..)

theorem opRdrand : NarrowAccess (Handlers.opRdrand insn) :=
  (ask (o := .nextRand) trivial).bind fun _ =>
    (writeOperand hi.opSize ..).attempt.bind fun _ => modify _

end Sized

/-! ### String operations -/

section Strings

variable {size : Nat} (hsize : size ≤ 64)
include hsize

omit hsize in
theorem advance (reg : Nat) (old : U64) (size : Nat) :
    NarrowAccess (Handlers.advance reg old size) := modify _

theorem movsStep : NarrowAccess (Handlers.movsStep size) := by
  apply gets_bind
  intro rsi
  apply gets_bind
  intro rdi
  apply (readMemBytes hsize ..).bind
  intro v
  apply (writeMemBytes hsize ..).seq
  exact (advance ..).seq ((advance ..).seq (ret _))

theorem stosStep : NarrowAccess (Handlers.stosStep size) := by
  apply gets_bind
  intro rdi
  apply gets_bind
  intro v
  apply (writeMemBytes hsize ..).seq
  exact (advance ..).seq (ret _)

theorem lodsStep : NarrowAccess (Handlers.lodsStep size) := by
  apply gets_bind
  intro rsi
  apply (readMemBytes hsize ..).bind
  intro v
  apply modify_bind
  exact (advance ..).seq (ret _)

theorem scasStep : NarrowAccess (Handlers.scasStep size) := by
  apply gets_bind
  intro rdi
  apply (readMemBytes hsize ..).bind
  intro v
  apply modify_bind
  exact (getsSynced _).bind fun zf => (advance ..).seq (ret _)

theorem cmpsStep : NarrowAccess (Handlers.cmpsStep size) := by
  apply gets_bind
  intro rsi
  apply gets_bind
  intro rdi
  apply (readMemBytes hsize ..).bind
  intro vs
  apply (readMemBytes hsize ..).bind
  intro vd
  apply modify_bind
  exact (getsSynced _).bind fun zf => (advance ..).seq ((advance ..).seq (ret _))

omit hsize in
/-- However often the loop goes round. -/
theorem repLoop {step : H Bool} (hstep : NarrowAccess step) (insn : Insn) (fuel : Nat) :
    NarrowAccess (Handlers.repLoop insn step fuel) := by
  induction fuel with
  | zero => exact ret _
  | succ fuel ih =>
      apply gets_bind
      intro more
      apply ite _ (ret _)
      apply hstep.bind
      intro zf
      exact modify_bind ((ret _).ite ih)

omit hsize in
theorem runString {step : H Bool} (hstep : NarrowAccess step) (insn : Insn) :
    NarrowAccess (Handlers.runString insn step) :=
  ite (gets_bind fun rcx => repLoop hstep insn rcx.toNat) (hstep.bind fun _ => ret _)

end Strings

end NarrowAccess

end PicoCpu
