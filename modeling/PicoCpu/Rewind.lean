import PicoCpu.LazySync

/-!
Rewinding. Restoring a snapshot brings back every observation of the CPU, however it was
reached, and what runs from there runs as it would have run from the snapshotted state.
-/

namespace PicoCpu

open Handlers

namespace Cpu

/-- What the host reads of a CPU. -/
structure Observation where
  gpr : Nat → U64
  rip : GuestAddr
  rflags : U64
  /-- Each lazy flag through its accessor, by mask. -/
  flag : U64 → Bool
  df : Bool
  zmm : Nat → Nat → U8
  opmask : Nat → U64
  st : Nat → U64
  fpuTop : Nat
  fpuCw : U16
  fpuSw : U16
  dr : Nat → U64
  fsBase : U64
  gsBase : U64
  fault : Fault
  halted : Bool
  branchTaken : Bool

def observe (c : Cpu) : Observation :=
  { gpr := c.r, rip := c.rip, rflags := c.rflags, flag := c.flag, df := c.df, zmm := c.zmm
    opmask := c.kreg, st := c.st, fpuTop := c.fpuTop, fpuCw := c.fpuCw, fpuSw := c.fpuSwWord
    dr := c.dr, fsBase := c.fsBase, gsBase := c.gsBase, fault := c.fault, halted := c.halted
    branchTaken := c.branchTaken }

/-- The flags and the rest. -/
theorem observe_eq (c : Cpu) :
    c.observe =
      { c.unflagged.observe with rflags := c.rflags, flag := c.flag, df := c.df } := rfl

theorem Same.observe_eq {c d : Cpu} (h : c.Same d) : c.observe = d.observe := by
  have hflag : c.flag = d.flag := funext h.flag
  rw [Cpu.observe_eq c, Cpu.observe_eq d, (same_iff.mp h).2, h.rflags, hflag, h.df]

/-- The overrides show in CPUID alone. -/
theorem observe_withOverrides (c : Cpu) (l : List CpuidLeaf) :
    { c with cpuidOverrides := l }.observe = c.observe := by
  have hword : { c with cpuidOverrides := l }.syncFlags.rflags_ = c.syncFlags.rflags_ :=
    rflags_syncFlags_congr rfl
  have hrflags : { c with cpuidOverrides := l }.rflags = c.rflags := by
    rw [rflags, hword, rflags]
  have hflag : { c with cpuidOverrides := l }.flag = c.flag := by
    funext mask
    rw [flag, hword, flag]
  rw [observe_eq, hrflags, hflag]
  rfl

theorem observe_restore (c d : Cpu) : (d.restore c.snapshot.1).observe = c.observe := by
  rw [restore_snapshot, observe_withOverrides]
  exact (same_syncFlags c).observe_eq

end Cpu

section Rewind

variable {σ : Type} (fp : HostFp) (at_ : Attached σ)

/-- No instruction changes the CPUID overrides. -/
theorem overrides_executeAll {at_ : Attached σ} {l : List CpuidLeaf}
    (hhooks : at_.HooksKeep (some l)) (insns : List Insn) {s : VmState σ}
    (hs : s.cpu.cpuidOverrides = l) :
    (executeAll fp at_ insns s).cpu.cpuidOverrides = l := by
  have hstart : s.Like (some l) Eq s := by
    refine ⟨⟨Cpu.Same.refl s.cpu, ?_⟩, rfl⟩
    rintro _ ⟨⟩
    exact hs
  have hend := hstart.executeAll fp (hhooks.alike_eq) (fun i (_ : i ∈ insns) _ => rfl)
  exact hend.cpu.overrides l rfl

/-- Whatever was executed since the snapshot, restoring it brings every observation back; and
what is executed then, on equal memory, ends as from the state the snapshot was taken of. -/
theorem restore_rewinds (c : Cpu) (executed : List Insn) (w : World σ) :
    let rewound := (executeAll fp at_ executed ⟨c.snapshot.2, w⟩).cpu.restore c.snapshot.1
    rewound.observe = c.observe ∧
      ∀ again : List Insn,
        at_.HooksKeep (some c.cpuidOverrides) →
        (∀ i ∈ again, i.handler ≠ .opRdtsc ∧ i.handler ≠ .opRdrand) →
        ∀ w₁ w₂ : World σ, w₁.mem = w₂.mem →
          let rerun := executeAll fp at_ again ⟨rewound, w₁⟩
          let direct := executeAll fp at_ again ⟨c, w₂⟩
          rerun.cpu.Same direct.cpu ∧ rerun.cpu.observe = direct.cpu.observe ∧
            rerun.world.mem = direct.world.mem := by
  intro rewound
  refine ⟨Cpu.observe_restore c _, ?_⟩
  intro again hhooks hagain w₁ w₂ hmem rerun direct
  have hoverrides : c.snapshot.2.cpuidOverrides = c.cpuidOverrides := Cpu.overrides_syncFlags c
  have hrewound : rewound = c.syncFlags :=
    Cpu.restore_snapshot_of_overrides (overrides_executeAll fp hhooks executed hoverrides)
  have hstart : VmState.Like (some c.cpuidOverrides) (fun w w' => w.mem = w'.mem)
      ⟨rewound, w₁⟩ ⟨c, w₂⟩ := by
    rw [hrewound]
    refine ⟨⟨Cpu.same_syncFlags c, ?_⟩, hmem⟩
    rintro _ ⟨⟩
    exact Cpu.overrides_syncFlags c
  have hclock : ∀ i ∈ again, Oblivious.clocked i.handler → false = true := by
    intro i hi hclocked
    obtain ⟨htsc, hrand⟩ := hagain i hi
    simp [Oblivious.clocked, htsc, hrand] at hclocked
  have hend := hstart.executeAll fp hhooks.alike_mem hclock
  exact ⟨hend.cpu.same, hend.cpu.same.observe_eq, hend.world⟩

/-- Over flat memory with a hook, from a state with a subtraction pending: a push, RDTSC and a
pop are undone, and the push is run again. -/
theorem restore_rewinds_pending :
    let c := pendingState.cpu
    let rewound := (executeAll default countingMachine
      [{ handler := .opPushf, len := 1 }, { handler := .opRdtsc, len := 2 },
        { handler := .opPopf, len := 1 }] ⟨c.snapshot.2, pendingState.world⟩).cpu.restore
          c.snapshot.1
    rewound.observe = c.observe ∧
      (executeAll default countingMachine [{ handler := .opPushf, len := 1 }]
        ⟨rewound, { pendingState.world with tsc := 7 }⟩).world.mem =
      (executeAll default countingMachine [{ handler := .opPushf, len := 1 }]
        pendingState).world.mem := by
  intro c rewound
  obtain ⟨hback, hagain⟩ := restore_rewinds default countingMachine c
    [{ handler := .opPushf, len := 1 }, { handler := .opRdtsc, len := 2 },
      { handler := .opPopf, len := 1 }] pendingState.world
  refine ⟨hback, ?_⟩
  have hfree : ∀ i ∈ [({ handler := .opPushf, len := 1 } : Insn)],
      i.handler ≠ .opRdtsc ∧ i.handler ≠ .opRdrand := by decide
  exact (hagain _ (countingMachine_hooksKeep _) hfree _ pendingState.world rfl).2.2

end Rewind

end PicoCpu
