import PicoCpu.Stepping

/-!
The replay of a block against the plain steps. Two runs are alike when they agree on everything
but how the flags are kept; callbacks that work on the architectural state keep runs alike. An
instruction that has gone through the peephole pass steps like the one it was made from, so the
replay of a block of straight-line code is caught up with by plain steps.
-/

namespace PicoCpu

open Handlers

variable {σ : Type}

/-! ### Alike -/

/-- The same to the loop and to every handler; the cache is left out. -/
structure RunState.Alike (s t : RunState σ) : Prop where
  vm : s.vm.Like none Eq t.vm
  executed : s.executed = t.executed
  dispatched : s.dispatched = t.dispatched

/-- The same result, for a caller that does not look at how the flags are kept. -/
structure RunEnd.Alike (e f : RunEnd σ) : Prop where
  result : e.result = f.result
  notified : e.notified = f.notified
  state : e.state.Alike f.state

/-- A callback that keeps machines in step. -/
def FairCallback (f : VmState σ → VmState σ) : Prop :=
  ∀ s t : VmState σ, s.Like none Eq t → (f s).Like none Eq (f t)

namespace Emulator

/-- Two turns that end alike, or go on alike. -/
inductive Turn.Alike : Turn σ → Turn σ → Prop
  | ends {e f : RunEnd σ} (h : e.Alike f) : Turn.Alike (.ends e) (.ends f)
  | goesOn {s t : RunState σ} (h : s.Alike t) : Turn.Alike (.goesOn s) (.goesOn t)

/-- No hook is shown blocks or instructions, decoding leaves the memory alone, and the callbacks
of the host are fair. -/
structure Fair (em : Emulator σ) : Prop where
  blockHooks : em.blockHooks = []
  codeHooks : em.codeHooks = []
  insnHooks : em.insnHooks = []
  fetched : ∀ pc mem, em.fetched pc mem = mem
  memHooks : em.attached.HooksKeep none
  faultHooks : ∀ h ∈ em.faultHooks, ∀ f, FairCallback (h f)
  recovery : ∀ cb, em.recovery = some cb → ∀ f, FairCallback (fun vm => (cb f vm).2) ∧
    ∀ s t : VmState σ, s.Like none Eq t → (cb f s).1 = (cb f t).1
  stubs : ∀ stubs, em.iatStubs = some stubs → ∀ e fn, stubs.lookup e = some fn →
    FairCallback (fn e.dll e.name)

end Emulator

/-! ### What keeps machines in step -/

section Keeps

variable {s t : VmState σ}

theorem VmState.Like.mapCpu (h : s.Like none Eq t) {g : Cpu → Cpu} (hg : Cpu.Keeps none g) :
    (s.mapCpu g).Like none Eq (t.mapCpu g) :=
  ⟨hg.same _ _ h.cpu, h.world⟩

theorem VmState.Same.like (h : s.Same t) : s.Like none Eq t :=
  ⟨⟨h.1, fun l hl => absurd hl (Option.not_mem_none l)⟩, h.2⟩

theorem VmState.Like.refl (s : VmState σ) : s.Like none Eq s := (VmState.Same.refl s).like

theorem VmState.Like.trans {u : VmState σ} (h : s.Like none Eq t) (h' : t.Like none Eq u) :
    s.Like none Eq u :=
  VmState.Same.like ⟨h.cpu.same.trans h'.cpu.same, h.world.trans h'.world⟩

theorem fair_mapCpu {g : Cpu → Cpu} (hg : Cpu.Keeps none g) :
    FairCallback fun vm : VmState σ => vm.mapCpu g :=
  fun _ _ h => h.mapCpu hg

/-- A fault names the address it was raised at. -/
theorem fair_setFault (kind : FaultKind) (addr : GuestAddr) (reason : Status) (note : String) :
    FairCallback fun vm : VmState σ => vm.setFault kind addr reason note :=
  fair_mapCpu (Cpu.keeps_flagFree fun _ _ => rfl)

/-- The return of a stub. -/
theorem VmState.Like.popRet (at_ : Attached σ) (h : s.Like none Eq t) :
    (s.popRet at_).1 = (t.popRet at_).1 ∧ (s.popRet at_).2.Like none Eq (t.popRet at_).2 := by
  have hrsp : s.cpu.r Reg.rsp = t.cpu.r Reg.rsp := congrFun h.cpu.same.gpr Reg.rsp
  have hmem : s.world.mem = t.world.mem := congrArg World.mem h.world
  unfold VmState.popRet
  simp only [hrsp, hmem]
  split
  · exact ⟨rfl, fair_setFault _ _ _ _ s t h⟩
  · split
    · rename_i mem _
      have hworld : VmState.Like none Eq { s with world := { s.world with mem } }
          { t with world := { t.world with mem } } :=
        ⟨h.cpu, congrArg (fun w : World σ => { w with mem }) h.world⟩
      exact ⟨rfl, fair_setFault _ _ _ _ _ _ hworld⟩
    · rename_i buf mem _
      have hcpu : Cpu.Keeps none fun c : Cpu =>
          (c.setR64 Reg.rsp (t.cpu.r Reg.rsp + 8)).setRip (loadLE buf 8) :=
        Cpu.keeps_flagFree fun _ _ => rfl
      exact ⟨rfl, hcpu.same _ _ h.cpu, congrArg (fun w : World σ => { w with mem }) h.world⟩

theorem IatStubs.dispatch_like {stubs : IatStubs σ} (at_ : Attached σ) (rip : GuestAddr)
    (hfair : ∀ e fn, stubs.lookup e = some fn → FairCallback (fn e.dll e.name)) (h : s.Like none Eq t) :
    (stubs.dispatch at_ rip s).1 = (stubs.dispatch at_ rip t).1 ∧
      (stubs.dispatch at_ rip s).2.Like none Eq (stubs.dispatch at_ rip t).2 := by
  unfold IatStubs.dispatch
  split
  · exact ⟨rfl, h⟩
  · split
    · exact ⟨rfl, fair_setFault _ _ _ _ s t h⟩
    · rename_i e _
      cases hlookup : stubs.lookup e with
      | none => exact (h.mapCpu (Cpu.keeps_flagFree fun _ _ => rfl)).popRet at_
      | some fn => exact (hfair e fn hlookup s t h).popRet at_

end Keeps

namespace Emulator

variable {em : Emulator σ} {maxInsns : Nat} {s t : RunState σ}

/-! ### What the loop does around an instruction -/

theorem alike_resultWith (h : s.Alike t) (status : Status) :
    s.resultWith status = t.resultWith status := by
  have hrax : s.vm.cpu.r Reg.rax = t.vm.cpu.r Reg.rax :=
    congrFun h.vm.cpu.same.gpr Reg.rax
  rw [RunState.resultWith, RunState.resultWith, h.executed, h.vm.cpu.same.rip, hrax]

theorem alike_finish (h : s.Alike t) : s.finish.Alike t.finish :=
  ⟨alike_resultWith h .ok, rfl, h⟩

theorem alike_orStop (h : s.Alike t) : Turn.Alike (em.orStop s) (em.orStop t) := by
  rw [orStop, orStop, h.vm.cpu.same.rip]
  split
  · exact .ends (alike_finish h)
  · exact .goesOn h

theorem alike_advance (i : Insn) (h : s.Alike t) : (advance i s).Alike (advance i t) := by
  have hset : Cpu.Keeps none fun c => c.setRip (i.rip + BitVec.ofNat 64 i.len) :=
    Cpu.keeps_flagFree fun _ _ => rfl
  exact ⟨h.vm.mapCpu hset, h.executed, h.dispatched⟩

theorem alike_faultHooks {hooks : List (Fault → VmState σ → VmState σ)}
    (hfair : ∀ h ∈ hooks, ∀ f, FairCallback (h f)) {vm vm' : VmState σ}
    (h : vm.Like none Eq vm') :
    (hooks.foldl (fun vm hook => hook vm.cpu.fault vm) vm).Like none Eq
      (hooks.foldl (fun vm hook => hook vm.cpu.fault vm) vm') := by
  induction hooks generalizing vm vm' with
  | nil => exact h
  | cons hook rest ih =>
      rw [List.foldl_cons, List.foldl_cons, h.cpu.same.fault]
      apply ih fun h hh => hfair h (List.mem_cons_of_mem _ hh)
      exact hfair hook List.mem_cons_self vm'.cpu.fault vm vm' h

theorem alike_report (hfair : em.Fair) (h : s.Alike t) : (em.report s).Alike (em.report t) := by
  have hhooks := alike_faultHooks hfair.faultHooks h.vm
  rw [report, report, h.vm.cpu.same.fault]
  split
  · exact ⟨alike_resultWith h _, rfl, hhooks, h.executed, h.dispatched⟩
  · exact alike_finish h

/-- The recovery callback has consumed the fault. -/
def recovered (s : RunState σ) (vm : VmState σ) : RunState σ :=
  { s with vm := vm.mapCpu fun c => c.clearFault.unhalt, latched := false }

theorem haltTurn_recovery {cb : Fault → VmState σ → Bool × VmState σ}
    (hrecovery : em.recovery = some cb) (hset : s.vm.cpu.fault.isSet = true) :
    em.haltTurn s =
      if (cb s.vm.cpu.fault s.vm).1 then
        em.orStop (recovered s (cb s.vm.cpu.fault s.vm).2)
      else .ends (em.report { s with vm := (cb s.vm.cpu.fault s.vm).2 }) := by
  rw [haltTurn, handlerHalted, hrecovery]
  simp only [if_pos hset]
  cases cb s.vm.cpu.fault s.vm with
  | mk consumed vm => cases consumed <;> rfl

theorem haltTurn_report (h : ∀ cb, em.recovery = some cb → s.vm.cpu.fault.isSet = false) :
    em.haltTurn s = .ends (em.report s) := by
  rw [haltTurn, handlerHalted]
  cases hrecovery : em.recovery with
  | none => rfl
  | some cb => simp [h cb hrecovery]

theorem alike_haltTurn (hfair : em.Fair) (h : s.Alike t) :
    Turn.Alike (em.haltTurn s) (em.haltTurn t) := by
  by_cases hrecovers : ∃ cb, em.recovery = some cb ∧ t.vm.cpu.fault.isSet = true
  · obtain ⟨cb, hrecovery, hset⟩ := hrecovers
    obtain ⟨hkeeps, hanswers⟩ := hfair.recovery cb hrecovery t.vm.cpu.fault
    have hafter := hkeeps s.vm t.vm h.vm
    have hset' : s.vm.cpu.fault.isSet = true := by rw [h.vm.cpu.same.fault, hset]
    rw [haltTurn_recovery hrecovery hset, haltTurn_recovery hrecovery hset',
      h.vm.cpu.same.fault, hanswers s.vm t.vm h.vm]
    split
    · have hconsume : Cpu.Keeps none fun c => c.clearFault.unhalt :=
        Cpu.keeps_flagFree fun _ _ => rfl
      exact alike_orStop ⟨hafter.mapCpu hconsume, h.executed, h.dispatched⟩
    · exact .ends (alike_report hfair ⟨hafter, h.executed, h.dispatched⟩)
  · have hnone (cb) (hcb : em.recovery = some cb) : t.vm.cpu.fault.isSet = false := by
      rw [← Bool.not_eq_true]
      exact fun hset => hrecovers ⟨cb, hcb, hset⟩
    have hnone' (cb) (hcb : em.recovery = some cb) : s.vm.cpu.fault.isSet = false := by
      rw [h.vm.cpu.same.fault, hnone cb hcb]
    rw [haltTurn_report hnone, haltTurn_report hnone']
    exact .ends (alike_report hfair h)

theorem stubTurn_eq (em : Emulator σ) (stubs : IatStubs σ) (s : RunState σ) :
    em.stubTurn stubs s =
      if (stubs.dispatch em.attached s.vm.cpu.rip s.vm).1 then em.orStop (em.afterStub stubs s)
      else
        .ends { result := { (em.afterStub stubs s).resultWith
                              (em.afterStub stubs s).vm.cpu.fault.reason with
                            finalRip := s.vm.cpu.rip }
                state := em.afterStub stubs s } := rfl

theorem alike_stubTurn (hfair : em.Fair) {stubs : IatStubs σ} (hstubs : em.iatStubs = some stubs)
    (h : s.Alike t) : Turn.Alike (em.stubTurn stubs s) (em.stubTurn stubs t) := by
  obtain ⟨hreturned, hafter⟩ := IatStubs.dispatch_like em.attached t.vm.cpu.rip
    (hfair.stubs stubs hstubs) h.vm
  have hstate : (em.afterStub stubs s).Alike (em.afterStub stubs t) := by
    rw [afterStub, afterStub, h.vm.cpu.same.rip]
    exact ⟨hafter, h.executed, congrArg (· + 1) h.dispatched⟩
  rw [stubTurn_eq, stubTurn_eq, h.vm.cpu.same.rip, hreturned]
  split
  · exact alike_orStop hstate
  · refine .ends ⟨?_, rfl, hstate⟩
    rw [hstate.vm.cpu.same.fault, alike_resultWith hstate]

end Emulator

/-! ### An instruction of a block -/

section Folded

/-- The instruction asks nothing of its environment. -/
def Insn.Silent (i : Insn) (fp : HostFp) (c : Cpu) : Prop := ∃ x, i.run fp c = .ret x

theorem Insn.Silent.trace {i : Insn} {fp : HostFp} {c : Cpu} (h : i.Silent fp c)
    (at_ : Attached σ) (w : World σ) : ((i.run fp).runOn at_ c w).trace = [] := by
  obtain ⟨x, hx⟩ := h
  rw [H.runOn, hx]
  rfl

theorem silent_jcc {i : Insn} (hhandler : i.handler = .opJcc) (fp : HostFp) (c : Cpu) :
    i.Silent fp c := by
  have hrun : i.run fp c = opJcc i c := by rw [Insn.run, hhandler]; rfl
  have hflags : (H.getsSynced fun c => c.condHolds i.cond) c =
      .ret (some (c.syncFlags.condHolds i.cond), c.syncFlags) := rfl
  rw [Insn.Silent, hrun, opJcc, bind_ret hflags]
  cases c.syncFlags.condHolds i.cond with
  | false => exact ⟨_, rfl⟩
  | true => exact ⟨_, rfl⟩

theorem silent_jmp {i : Insn} (hhandler : i.handler = .opJmp) (hrel : i.dst.kind = .rel)
    (fp : HostFp) (c : Cpu) : i.Silent fp c := by
  have hrun : i.run fp c = opJmp i c := by rw [Insn.run, hhandler]; rfl
  have htarget : branchTarget i c = .ret (some (nextRip i + i.dst.imm), c) := by
    rw [branchTarget, hrel]
    rfl
  have hhalted : (H.gets Cpu.halted) c = .ret (some c.halted, c) := rfl
  rw [Insn.Silent, hrun, opJmp, bind_ret htarget, bind_ret hhalted]
  cases c.halted with
  | false => exact ⟨_, rfl⟩
  | true => exact ⟨_, rfl⟩

variable {prev i : Insn} {rip : GuestAddr} (hacc : Accepted rip i)

include hacc

/-- What the pass leaves of an instruction asks for the same. -/
theorem trace_folded (fp : HostFp) (at_ : Attached σ) (c : Cpu) (w : World σ) :
    (((foldJcc prev i.fold).run fp).runOn at_ c w).trace = ((i.run fp).runOn at_ c w).trace := by
  have hfoldable := jccFoldable_fold hacc
  have hfirst : ((i.fold.run fp).runOn at_ c w).trace = ((i.run fp).runOn at_ c w).trace := by
    unfold Insn.fold
    split
    · rename_i hfolded
      have hnop : i.makeNop.Silent fp c := ⟨_, rfl⟩
      have hself : i.Silent fp c := ⟨_, run_folded hacc fp hfolded c⟩
      rw [hnop.trace, hself.trace]
    · rfl
  rw [← hfirst]
  unfold foldJcc
  split
  · rename_i hfold
    simp only [Bool.and_eq_true, beq_iff_eq] at hfold
    obtain ⟨hhandler, hrel⟩ := hfoldable.jcc hfold.1.2
    have hjmp := @silent_jmp { i.fold with kind := .jmp, handler := .opJmp, cond := .none } rfl
      hrel fp c
    rw [hjmp.trace, (silent_jcc hhandler fp c).trace]
  · rfl

variable {fp : HostFp} {at_ : Attached σ}

/-- It steps like the instruction, where a fold of the instruction is harmless and the result of
a self-XOR before it is still pending. -/
theorem step_folded {s t : VmState σ} (hhooks : at_.HooksKeep none)
    (hharmless : i.isFolded = true → i.Harmless t.cpu)
    (hzero : prev.isXorSelf = true → ZeroPending s.cpu) (hhalted : s.cpu.halted = false)
    (h : s.Like none Eq t) :
    (stepInsn fp at_ (foldJcc prev i.fold) s).Like none Eq (stepInsn fp at_ i t) := by
  have hbases : i.src.segBase s.cpu = i.src.segBase t.cpu :=
    h.cpu.same.observe (i.src.segBase) fun _ => rfl
  have hharmless' : i.isFolded = true → i.Harmless s.cpu := by
    intro hfolded
    have hplain := hharmless hfolded
    unfold Insn.Harmless Cpu.r at hplain ⊢
    rwa [h.cpu.same.gpr, hbases]
  have hplain : (stepInsn fp at_ i s).Like none Eq (stepInsn fp at_ i t) :=
    h.stepInsn fp hhooks.alike_eq fun _ => rfl
  rw [← step_fold hacc hharmless'] at hplain
  by_cases hfold : (prev.isXorSelf && i.fold.kind == .jcc && i.fold.cond.holdsAfterXorSelf) = true
  · have hxor : prev.isXorSelf = true := by
      simp only [Bool.and_eq_true] at hfold
      exact hfold.1.1
    have hsame : (stepInsn fp at_ (foldJcc prev i.fold) s).Same (stepInsn fp at_ i.fold s) :=
      (step_foldJcc (jccFoldable_fold hacc) hhalted (hzero hxor) hfold).1
    exact hsame.like.trans hplain
  · rw [foldJcc, if_neg hfold]
    exact hplain

omit hacc in
theorem rip_folded : (foldJcc prev i.fold).rip = i.rip := by
  unfold foldJcc Insn.fold
  split <;> split <;> rfl

omit hacc in
theorem len_folded : (foldJcc prev i.fold).len = i.len := by
  unfold foldJcc Insn.fold
  split <;> split <;> rfl

/-- A self-XOR that the pass leaves has its result pending afterwards. -/
theorem zeroPending_folded {s : VmState σ}
    (hxor : (foldJcc prev i.fold).isXorSelf = true) :
    ZeroPending (stepInsn fp at_ (foldJcc prev i.fold) s).cpu := by
  unfold foldJcc at hxor ⊢
  split at hxor
  · cases hxor
  · rename_i hkeep
    rw [if_neg hkeep]
    have hpending : ZeroPending ((stepInsn fp at_ i.fold s).advance i.fold).cpu :=
      zeroPending_of_step (jccFoldable_fold hacc) hxor
    exact hpending

end Folded

namespace Emulator

variable {em : Emulator σ} {maxInsns : Nat} {s t : RunState σ} {i prev : Insn}

/-! ### One step -/

theorem vm_atHandler (hfair : em.Fair) (hrip : s.vm.cpu.rip = i.rip)
    (hpasses : (s.vm.cpu.clearBranch.execBreakpointAt i.rip).1 = false) :
    (em.atHandler i s).vm = s.vm.mapCpu Cpu.clearBranch := by
  have hcpu : (s.vm.cpu.clearBranch.execBreakpointAt i.rip).2 = s.vm.cpu.clearBranch := by
    unfold Cpu.execBreakpointAt Cpu.firstDr at hpasses ⊢
    split
    · rename_i n hhit
      rw [hhit] at hpasses
      cases hpasses
    · rfl
  rw [atHandler, hcpu, announce]
  simp only [RunState.act, fireCode, fireInsn, hfair.codeHooks, hfair.insnHooks, List.foldl_nil,
    fireTrace]
  rw [← hrip]
  split <;> rfl

theorem vm_afterInsn (hfair : em.Fair) (hrip : s.vm.cpu.rip = i.rip)
    (hpasses : (s.vm.cpu.clearBranch.execBreakpointAt i.rip).1 = false) :
    (em.afterInsn i s).vm = stepInsn em.fp em.attached i s.vm := by
  have hhandler := vm_atHandler hfair hrip hpasses
  rw [afterInsn, execute]
  simp only [RunState.act, hhandler]
  rfl

/-- What the listener makes of the cache. -/
theorem cache_afterInsn (hfair : em.Fair) (hrip : s.vm.cpu.rip = i.rip)
    (hpasses : (s.vm.cpu.clearBranch.execBreakpointAt i.rip).1 = false) :
    (em.afterInsn i s).cache = em.cacheAfter i (s.vm.mapCpu Cpu.clearBranch) s.cache := by
  have hhandler := vm_atHandler hfair hrip hpasses
  rw [afterInsn, execute]
  simp only [hhandler]
  rfl

theorem executed_afterInsn (em : Emulator σ) (i : Insn) (s : RunState σ) :
    (em.afterInsn i s).executed = s.executed + 1 := rfl

theorem dispatched_afterInsn (em : Emulator σ) (i : Insn) (s : RunState σ) :
    (em.afterInsn i s).dispatched = s.dispatched := rfl

theorem execBreakpointAt_like {c d : Cpu} (h : Cpu.SameWith none c d) (rip : GuestAddr) :
    (c.clearBranch.execBreakpointAt rip).1 = (d.clearBranch.execBreakpointAt rip).1 ∧
      Cpu.SameWith none (c.clearBranch.execBreakpointAt rip).2
        (d.clearBranch.execBreakpointAt rip).2 := by
  have hclear : Cpu.Keeps none Cpu.clearBranch := Cpu.keeps_flagFree fun _ _ => rfl
  have hsame := hclear.same c d h
  have hdr : c.clearBranch.dr = d.clearBranch.dr := hsame.same.observe Cpu.dr fun _ => rfl
  unfold Cpu.execBreakpointAt Cpu.firstDr
  unfold Cpu.drEnabled Cpu.drCond
  simp only [hdr]
  split
  · rename_i n _
    have hlatch : Cpu.Keeps none fun c => c.setDr6Bit n := Cpu.keeps_flagFree fun _ _ => rfl
    exact ⟨rfl, hlatch.same _ _ hsame⟩
  · exact ⟨rfl, hsame⟩

/-- What a block needs of the state its next instruction is executed in. -/
structure Ready (prev i : Insn) (s t : RunState σ) : Prop where
  alike : s.Alike t
  running : t.vm.cpu.halted = false
  rip : t.vm.cpu.rip = i.rip
  accepted : Accepted i.rip i
  harmless : i.isFolded = true → i.Harmless t.vm.cpu
  zero : prev.isXorSelf = true → ZeroPending s.vm.cpu

theorem Ready.running' (h : Ready prev i s t) : s.vm.cpu.halted = false :=
  h.alike.vm.cpu.same.halted.trans h.running

theorem Ready.passes (h : Ready prev i s t) :
    (s.vm.cpu.clearBranch.execBreakpointAt i.rip).1 =
      (t.vm.cpu.clearBranch.execBreakpointAt i.rip).1 :=
  (execBreakpointAt_like h.alike.vm.cpu i.rip).1

theorem Ready.afterInsn (hfair : em.Fair) (h : Ready prev i s t)
    (hpasses : (t.vm.cpu.clearBranch.execBreakpointAt i.rip).1 = false) :
    (em.afterInsn (foldJcc prev i.fold) s).Alike (em.afterInsn i t) ∧
      (em.afterInsn (foldJcc prev i.fold) s).cache =
        em.cacheAfter i (t.vm.mapCpu Cpu.clearBranch) s.cache := by
  have hrip : s.vm.cpu.rip = (foldJcc prev i.fold).rip := by
    rw [rip_folded, h.alike.vm.cpu.same.rip, h.rip]
  have hpasses' : (s.vm.cpu.clearBranch.execBreakpointAt (foldJcc prev i.fold).rip).1 = false := by
    rw [rip_folded, h.passes, hpasses]
  have hstep : (stepInsn em.fp em.attached (foldJcc prev i.fold) s.vm).Like none Eq
      (stepInsn em.fp em.attached i t.vm) :=
    step_folded h.accepted hfair.memHooks h.harmless h.zero h.running' h.alike.vm
  constructor
  · refine ⟨?_, congrArg (· + 1) h.alike.executed, h.alike.dispatched⟩
    rw [vm_afterInsn hfair hrip hpasses', vm_afterInsn hfair h.rip hpasses]
    exact hstep
  · have hclear : Cpu.Keeps none Cpu.clearBranch := Cpu.keeps_flagFree fun _ _ => rfl
    have hlike := h.alike.vm.mapCpu hclear
    have htrace := ((Oblivious.callHandler (L := none) (t := true) em.fp i.handler (fun _ => rfl)
      i).respects.run hfair.memHooks.alike_eq hlike.cpu hlike.world).2.2.2
    rw [cache_afterInsn hfair hrip hpasses', cacheAfter, cacheAfter, trace_folded h.accepted]
    exact congrArg (List.foldl em.heard s.cache) htrace

/-- The block's instruction and the plain one come to the same. -/
theorem Ready.stepOnce (hfair : em.Fair) (h : Ready prev i s t) :
    Turn.Alike (em.stepOnce (foldJcc prev i.fold) s) (em.stepOnce i t) := by
  have hbreak := execBreakpointAt_like h.alike.vm.cpu i.rip
  rw [Emulator.stepOnce, Emulator.stepOnce, rip_folded, hbreak.1]
  split
  · have hfault : Cpu.Keeps none fun c =>
        c.setFault .breakpoint i.rip .ok (some "DR execute breakpoint") :=
      Cpu.keeps_flagFree fun _ _ => rfl
    refine alike_orStop ⟨⟨?_, h.alike.vm.world⟩, h.alike.executed, h.alike.dispatched⟩
    simp only [breakpointHit, rip_folded]
    exact hfault.same _ _ hbreak.2
  · rename_i hpasses
    obtain ⟨hafter, _⟩ := h.afterInsn hfair (by simpa using hpasses)
    have hadvance := alike_advance i hafter
    rw [hafter.vm.cpu.same.halted, hafter.vm.cpu.same.branchTaken]
    split
    · exact alike_haltTurn hfair hafter
    · split
      · exact alike_orStop hafter
      · rw [advance, rip_folded, len_folded]
        exact alike_orStop hadvance

end Emulator

end PicoCpu
