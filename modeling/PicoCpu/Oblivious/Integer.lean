import PicoCpu.Oblivious
import PicoCpu.Handlers.Logical
import PicoCpu.Handlers.ShiftRotate
import PicoCpu.Handlers.BitManip
import PicoCpu.Handlers.Bmi

/-!
The integer handlers cannot tell how the flags are kept: what they read of the CPU, they read
through the accessors, and a handler that keeps some of the flags synchronises before it
records its own.
-/

namespace PicoCpu

open Handlers

namespace Oblivious

open Cpu

variable {L : Option (List CpuidLeaf)} {t : Bool}

/-! ### Arithmetic -/

section Alu

variable {f : Nat → U64 → U64 → U64} {g : Nat → U64 → U64}

theorem binaryAlu {stash : Nat → U64 → U64 → Cpu → Cpu}
    (hstash : ∀ size b r, Keeps L (stash size b r)) (insn : Insn) :
    Oblivious L t (Handlers.binaryAlu f stash insn) := by
  refine (readOperand insn insn.dst _).bind fun a => ?_
  refine (readOperand insn insn.src _).bind fun b => ?_
  refine (writeOperand insn insn.dst _ _).bind fun _ => ?_
  exact modify (hstash _ b _)

theorem carryAlu {f : Nat → U64 → U64 → Bool → U64} {stash : Nat → U64 → Bool → U64 → Cpu → Cpu}
    (hstash : ∀ size b cin r, Keeps L (stash size b cin r)) (insn : Insn) :
    Oblivious L t (Handlers.carryAlu f stash insn) := by
  refine (readOperand insn insn.dst _).bind fun a => ?_
  refine (readOperand insn insn.src _).bind fun b => ?_
  refine (getsSynced Cpu.cf fun _ _ h => h.cf).bind fun cin => ?_
  refine (writeOperand insn insn.dst _ _).bind fun _ => ?_
  exact modify (hstash _ b cin _)

theorem unaryAlu {stash : Nat → U64 → U64 → Cpu → Cpu}
    (hstash : ∀ size a r, Keeps L (stash size a r)) (insn : Insn) :
    Oblivious L t (Handlers.unaryAlu g stash insn) := by
  refine (readOperand insn insn.dst _).bind fun a => ?_
  refine (writeOperand insn insn.dst _ _).bind fun _ => ?_
  exact modify (hstash _ a _)

theorem compareAlu {stash : Nat → U64 → U64 → Cpu → Cpu}
    (hstash : ∀ size b r, Keeps L (stash size b r)) (insn : Insn) :
    Oblivious L t (Handlers.compareAlu f stash insn) := by
  refine (readOperand insn insn.dst _).bind fun a => ?_
  refine (readOperand insn insn.src _).bind fun b => ?_
  exact modify (hstash _ b _)

theorem keeps_logicStash (size : Nat) (b r : U64) : Keeps L (logicStash size b r) :=
  keeps_stashLogic size r

theorem opNot (insn : Insn) : Oblivious L t (Handlers.opNot insn) :=
  (readOperand insn insn.dst _).bind fun _ => writeOperand ..

end Alu

theorem opImul (insn : Insn) : Oblivious L t (Handlers.opImul insn) := by
  have hproduct (x : U64 × Bool) : Oblivious L t (do
      let _ ← Proc.attempt (PicoCpu.writeOperand insn insn.dst insn.opSize x.1)
      Proc.modify fun c => c.stashMulOv x.2) :=
    (writeOperand ..).attempt.bind fun _ => modify (keeps_stashMulOv _)
  refine ite ?_ ?_
  · exact (readOperand ..).bind fun a => hproduct _
  · exact (readOperand ..).bind fun a => (readOperand ..).bind fun b => hproduct _

theorem keeps_setAccumulator (size : Nat) (lo hi : U64) :
    Keeps L (Handlers.setAccumulator size lo hi) := by
  unfold Handlers.setAccumulator
  split
  · exact keeps_flagFree fun _ _ => rfl
  · exact keeps_flagFree fun _ _ => rfl
  · exact keeps_flagFree fun _ _ => rfl
  · exact keeps_flagFree fun _ _ => rfl
  · exact keeps_id

theorem wideMul {halves : Nat → U64 → U64 → U64 × U64 × Bool} (insn : Insn) :
    Oblivious L t (Handlers.wideMul halves insn) := by
  refine (readOperand insn insn.src _).bind fun b => ?_
  refine (gets_free (fun c => c.r Reg.rax &&& maskFor insn.opSize) fun _ => rfl).bind fun a => ?_
  refine (modify (keeps_setAccumulator insn.opSize _ _)).bind fun _ => ?_
  exact modify (keeps_stashMulOv _)

/-! ### Division -/

theorem keeps_setQuotient (size : Nat) (q r : U64) : Keeps L (Handlers.setQuotient size q r) := by
  unfold Handlers.setQuotient
  split
  · exact keeps_flagFree fun _ _ => rfl
  · exact keeps_flagFree fun _ _ => rfl
  · exact keeps_flagFree fun _ _ => rfl
  · exact keeps_flagFree fun _ _ => rfl
  · exact keeps_id

theorem opDiv (insn : Insn) : Oblivious L t (Handlers.opDiv insn) := by
  refine (readOperand insn insn.src _).bind fun divisor => ?_
  refine ite (raiseAtRip ..) (ite (ret _) ?_)
  refine (gets_free (Handlers.dividend insn.opSize) fun _ => rfl).bind fun num => ?_
  exact ite (raiseAtRip ..) (modify (keeps_setQuotient ..))

theorem opIdiv (insn : Insn) : Oblivious L t (Handlers.opIdiv insn) := by
  refine (readOperand insn insn.src _).bind fun divisor => ?_
  refine ite (raiseAtRip ..) (ite ?_ (ite (ret _) ?_))
  · refine (getsReg Reg.rdx).bind fun hi => ?_
    refine (getsReg Reg.rax).bind fun lo => ?_
    exact ite (modify (keeps_setQuotient ..)) (raiseAtRip ..)
  · refine (gets_free (Handlers.signedDividend insn.opSize) fun _ => rfl).bind fun num => ?_
    exact ite (raiseAtRip ..) (modify (keeps_setQuotient ..))

/-! ### Shifts -/

theorem readCount (insn : Insn) : Oblivious L t (Handlers.readCount insn) :=
  (readOperand insn insn.src 1).bind fun _ => ret _

theorem shiftAlu {f : Nat → U64 → Nat → U64} {stash : Nat → U64 → Nat → U64 → Cpu → Cpu}
    (hstash : ∀ size a n r, Keeps L (stash size a n r)) (insn : Insn) :
    Oblivious L t (Handlers.shiftAlu f stash insn) := by
  refine (readOperand insn insn.dst _).bind fun a => ?_
  refine (readCount insn).bind fun n => ?_
  refine (writeOperand insn insn.dst _ _).bind fun _ => ?_
  exact modify (hstash _ a n _)

theorem opRcl (insn : Insn) : Oblivious L t (Handlers.opRcl insn) := by
  refine (readOperand insn insn.dst _).bind fun a => ?_
  refine (readCount insn).bind fun n => ?_
  refine ite (ret _) ?_
  refine (getsSynced Cpu.cf fun _ _ h => h.cf).bind fun cf => ?_
  refine (writeOperand insn insn.dst _ _).bind fun _ => ?_
  refine (modify (keeps_setFlag Rflags.cf _)).bind fun _ => ?_
  exact ite (modify (keeps_setFlag Rflags.of _)) (ret _)

theorem opRcr (insn : Insn) : Oblivious L t (Handlers.opRcr insn) := by
  refine (readOperand insn insn.dst _).bind fun a => ?_
  refine (readCount insn).bind fun n => ?_
  refine ite (ret _) ?_
  refine (getsSynced Cpu.cf fun _ _ h => h.cf).bind fun cf => ?_
  have hrotate (x : U64 × Bool) : Oblivious L t (do
      PicoCpu.writeOperand insn insn.dst insn.opSize x.1
      Proc.modify fun c => c.setCf x.2) :=
    (writeOperand ..).bind fun _ => modify (keeps_setFlag Rflags.cf _)
  refine ite ?_ (hrotate _)
  exact (modify (keeps_setFlag Rflags.of _)).bind fun _ => hrotate _

theorem doubleShift {f : Nat → U64 → U64 → Nat → U64} {stash : Nat → U64 → Nat → U64 → Cpu → Cpu}
    (hstash : ∀ size a n r, Keeps L (stash size a n r)) (insn : Insn) :
    Oblivious L t (Handlers.doubleShift f stash insn) := by
  refine (readOperand insn insn.dst _).bind fun a => ?_
  refine (gets_free _ fun _ => rfl).bind fun b => ?_
  refine (gets_free _ fun _ => rfl).bind fun n => ?_
  refine ite (ret _) (ite ?_ ?_)
  · exact (writeOperand ..).bind fun _ => modify (keeps_stashLogic ..)
  · exact (writeOperand ..).bind fun _ => modify (hstash ..)

/-! ### Bits -/

theorem bitScan {f : U64 → Nat → Nat} (insn : Insn) :
    Oblivious L t (Handlers.bitScan f insn) := by
  refine (readOperand insn insn.src _).bind fun v => ?_
  refine (modify keeps_syncFlags).bind fun _ => ?_
  refine ite (modify (keeps_setFlag Rflags.zf true)) ?_
  refine (writeOperand insn insn.dst _ _).attempt.bind fun _ => ?_
  exact modify (keeps_setFlag Rflags.zf false)

theorem bitTestGet (insn : Insn) : Oblivious L t (Handlers.bitTestGet insn) :=
  (readOperand ..).bind fun _ => (readOperand ..).bind fun _ => ret _

theorem opBt (insn : Insn) : Oblivious L t (Handlers.opBt insn) :=
  (bitTestGet insn).bind fun _ => modify (keeps_syncFlags.setFlag Rflags.cf _)

theorem bitTestUpdate {f : U64 → U64 → U64} (insn : Insn) :
    Oblivious L t (Handlers.bitTestUpdate f insn) := by
  refine (bitTestGet insn).bind fun x => ?_
  refine (modify (keeps_syncFlags.setFlag Rflags.cf _)).bind fun _ => ?_
  exact writeOperand ..

theorem bitCount {f : Nat → U64 → Nat} {flags : Nat → Nat → Cpu → Cpu}
    (hflags : ∀ w n, Keeps L (flags w n)) (insn : Insn) :
    Oblivious L t (Handlers.bitCount f flags insn) := by
  refine (readOperand insn insn.src _).bind fun v => ?_
  refine (writeOperand insn insn.dst _ _).attempt.bind fun _ => ?_
  exact modify ((hflags ..).comp keeps_syncFlags)

theorem keeps_popcntFlags (w n : Nat) : Keeps L (popcntFlags w n) :=
  (((((keeps_setFlag Rflags.zf (n == 0)).setFlag Rflags.cf false).setFlag Rflags.of
    false).setFlag Rflags.sf false).setFlag Rflags.af false).setFlag Rflags.pf false

theorem keeps_zeroCountFlags (w n : Nat) : Keeps L (zeroCountFlags w n) :=
  (keeps_setFlag Rflags.cf (n == w)).setFlag Rflags.zf (n == 0)

/-! ### BMI -/

theorem bmiOp {f : Insn → U64 → U64 → U64} {flags : Insn → U64 → U64 → U64 → Cpu → Cpu}
    (hflags : ∀ insn src vvvv r, Keeps L (flags insn src vvvv r)) (insn : Insn) :
    Oblivious L t (Handlers.bmiOp f flags insn) := by
  refine (readOperand insn insn.src _).bind fun src => ?_
  refine (gets_free (readVvvv insn) fun _ => rfl).bind fun vvvv => ?_
  refine (writeOperand insn insn.dst _ _).attempt.bind fun _ => ?_
  exact modify (hflags ..)

theorem keeps_bmiFlags (cf zf sf : Bool) : Keeps L (bmiFlags cf zf sf) :=
  (((((keeps_syncFlags.setFlag Rflags.cf cf).setFlag Rflags.zf zf).setFlag Rflags.sf sf).setFlag
    Rflags.of false).setFlag Rflags.pf false).setFlag Rflags.af false

theorem opMulx (insn : Insn) : Oblivious L t (Handlers.opMulx insn) :=
  (readOperand insn insn.src _).bind fun _ => update fun _ _ => rfl

end Oblivious

end PicoCpu
