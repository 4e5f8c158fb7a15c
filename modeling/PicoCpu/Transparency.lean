import PicoCpu.Oblivious.Handlers
import PicoCpu.Replay
import PicoCpu.Snapshot

/-!
Runs of instructions cannot tell how the flags are kept. From CPUs that are the same up to the
lazy record, and worlds that are alike, every sequence of instructions ends in such CPUs and
worlds again. So reading a flag, synchronising, or taking a snapshot and restoring it between
two instructions is invisible to all that follows.
-/

namespace PicoCpu

open Handlers

variable {σ : Type} {L : Option (List CpuidLeaf)} {t : Bool}

/-- The hooks see and change only the architectural state; with `L` they keep the CPUID
overrides too. -/
def Attached.HooksKeep (at_ : Attached σ) (L : Option (List CpuidLeaf)) : Prop :=
  ∀ h ∈ at_.readHooks ++ at_.writeHooks, ∀ addr size value isWrite,
    Cpu.Keeps L (h.callback addr size value isWrite)

theorem keeps_runMemHooks {hooks : List MemHook}
    (hhooks : ∀ h ∈ hooks, ∀ addr size value isWrite,
      Cpu.Keeps L (h.callback addr size value isWrite))
    (addr : GuestAddr) (size : Nat) (value : U64) (isWrite : Bool) :
    Cpu.Keeps L (runMemHooks hooks addr size value isWrite) := by
  induction hooks with
  | nil => exact Cpu.keeps_id
  | cons h hooks ih =>
      have hrest := ih fun h' hh' => hhooks h' (List.mem_cons_of_mem _ hh')
      have hhead : Cpu.Keeps L fun c =>
          if h.inRange addr then h.callback addr size value isWrite c else c := by
        split
        · exact hhooks h List.mem_cons_self addr size value isWrite
        · exact Cpu.keeps_id
      exact hrest.comp hhead

namespace Attached

variable {at_ : Attached σ}

theorem HooksKeep.answers (hhooks : at_.HooksKeep L) (o : MachineOp) (w : World σ) :
    hookRely L o (at_.env o w).1 := by
  cases o with
  | attached isWrite => trivial
  | read addr size => trivial
  | write addr size data => trivial
  | memHooks addr size value isWrite =>
      refine keeps_runMemHooks ?_ addr size value isWrite
      intro h hh
      refine hhooks h ?_
      cases isWrite with
      | false => exact List.mem_append_left _ hh
      | true => exact List.mem_append_right _ hh
  | nextTsc => trivial
  | nextRand => trivial

/-- From one world the same answers come. -/
theorem HooksKeep.alike_eq (hhooks : at_.HooksKeep L) :
    Prog.Alike (MachineOp.Allowed true) (hookRely L) Eq at_.env where
  keeps := hhooks.answers
  answer o w w' _ hw := by rw [hw]
  world o w w' _ hw := by rw [hw]

/-- Worlds of equal memory answer alike to all but the counters of the host. -/
theorem HooksKeep.alike_mem (hhooks : at_.HooksKeep L) :
    Prog.Alike (MachineOp.Allowed false) (hookRely L) (fun w w' => w.mem = w'.mem) at_.env where
  keeps := hhooks.answers
  answer o w w' ho hw := by
    cases o with
    | attached isWrite => rfl
    | read addr size =>
        simp only [Attached.env]
        split
        · rfl
        · rw [hw]
    | write addr size data =>
        simp only [Attached.env]
        split
        · rfl
        · rw [hw]
    | memHooks addr size value isWrite => rfl
    | nextTsc => exact absurd ho Bool.false_ne_true
    | nextRand => exact absurd ho Bool.false_ne_true
  world o w w' ho hw := by
    cases o with
    | attached isWrite => exact hw
    | read addr size =>
        simp only [Attached.env]
        split
        · exact hw
        · rw [hw]
    | write addr size data =>
        simp only [Attached.env]
        split
        · exact hw
        · rw [hw]
    | memHooks addr size value isWrite => exact hw
    | nextTsc => exact absurd ho Bool.false_ne_true
    | nextRand => exact absurd ho Bool.false_ne_true

end Attached

/-! ### Steps and runs -/

/-- Two machines in step. -/
structure VmState.Like (L : Option (List CpuidLeaf)) (W : World σ → World σ → Prop)
    (s s' : VmState σ) : Prop where
  cpu : Cpu.SameWith L s.cpu s'.cpu
  world : W s.world s'.world

section Runs

variable (fp : HostFp) (at_ : Attached σ)

/-- One instruction of the dispatcher's loop: nothing on a halted CPU; else the handler, and
the advance past the instruction unless it halted or branched. -/
def execute (s : VmState σ) (i : Insn) : VmState σ :=
  if s.cpu.halted then s
  else if (stepInsn fp at_ i s).stopped then stepInsn fp at_ i s
  else (stepInsn fp at_ i s).advance i

/-- The instructions one after the other, each from the state the one before left. -/
def executeAll (insns : List Insn) (s : VmState σ) : VmState σ := insns.foldl (execute fp at_) s

variable {at_} {W : World σ → World σ → Prop} {s s' : VmState σ}

theorem VmState.Like.stepInsn
    (henv : Prog.Alike (MachineOp.Allowed t) (hookRely L) W at_.env) {i : Insn}
    (hclock : Oblivious.clocked i.handler → t = true) (h : s.Like L W s') :
    (PicoCpu.stepInsn fp at_ i s).Like L W (PicoCpu.stepInsn fp at_ i s') := by
  have hclear : Cpu.Keeps L Cpu.clearBranch := Cpu.keeps_flagFree fun _ _ => rfl
  have hrun := (Oblivious.callHandler (L := L) fp i.handler hclock i).respects.run henv
    (hclear.same _ _ h.cpu) h.world
  exact ⟨hrun.2.1, hrun.2.2.1⟩

theorem VmState.Like.execute
    (henv : Prog.Alike (MachineOp.Allowed t) (hookRely L) W at_.env) {i : Insn}
    (hclock : Oblivious.clocked i.handler → t = true) (h : s.Like L W s') :
    (PicoCpu.execute fp at_ s i).Like L W (PicoCpu.execute fp at_ s' i) := by
  have hstep := h.stepInsn fp henv hclock
  have hhalted := h.cpu.same.halted
  have hstopped : (PicoCpu.stepInsn fp at_ i s).stopped =
      (PicoCpu.stepInsn fp at_ i s').stopped := by
    rw [VmState.stopped, VmState.stopped, hstep.cpu.same.halted, hstep.cpu.same.branchTaken]
  rw [PicoCpu.execute, PicoCpu.execute, hhalted, hstopped]
  split
  · exact h
  · split
    · exact hstep
    · have hadvance : Cpu.Keeps L fun c => c.setRip (nextRip i) := Cpu.keeps_flagFree fun _ _ => rfl
      exact ⟨hadvance.same _ _ hstep.cpu, hstep.world⟩

theorem VmState.Like.executeAll
    (henv : Prog.Alike (MachineOp.Allowed t) (hookRely L) W at_.env) {insns : List Insn}
    (hclock : ∀ i ∈ insns, Oblivious.clocked i.handler → t = true) (h : s.Like L W s') :
    (PicoCpu.executeAll fp at_ insns s).Like L W (PicoCpu.executeAll fp at_ insns s') := by
  induction insns generalizing s s' with
  | nil => exact h
  | cons i insns ih =>
      have hhead := h.execute fp henv (hclock i List.mem_cons_self)
      exact ih (fun j hj => hclock j (List.mem_cons_of_mem _ hj)) hhead

end Runs

end PicoCpu
