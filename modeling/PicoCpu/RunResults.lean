import PicoCpu.Course
import PicoCpu.Faults

/-!
What a run reports. Its status is `Ok` exactly when no fault has been left latched, and the
fault hooks hear of the fault, when the run is entered with an empty latch, no import stub or
`Block` hook latches one, no execute breakpoint is hit, and everything fetched decodes.
-/

namespace PicoCpu

/-- A fault may be latched, but none is cleared and the CPU is not let run again. -/
structure Cpu.KeepsFault (c c' : Cpu) : Prop where
  fault : c'.fault = c.fault ∨ c'.Latched
  halted : c.halted = true → c'.halted = true

namespace Cpu.KeepsFault

variable {c c' c'' : Cpu}

theorem refl (c : Cpu) : KeepsFault c c := ⟨.inl rfl, id⟩

theorem latched (h : KeepsFault c c') (hc : c.Latched) : c'.Latched := by
  rcases h.fault with hsame | hlatched
  · exact ⟨by rw [hsame]; exact hc.1, h.halted hc.2⟩
  · exact hlatched

theorem trans (h : KeepsFault c c') (h' : KeepsFault c' c'') : KeepsFault c c'' := by
  refine ⟨?_, fun hc => h'.halted (h.halted hc)⟩
  rcases h.fault with hsame | hlatched
  · rw [← hsame]
    exact h'.fault
  · exact .inr (h'.latched hlatched)

theorem of_same (hfault : c'.fault = c.fault) (hhalted : c'.halted = c.halted) :
    KeepsFault c c' :=
  ⟨.inl hfault, fun hc => hhalted.trans hc⟩

/-- Every handler follows it. -/
theorem follows (branches : Prop) : Follows branches KeepsFault where
  refl := refl
  trans := trans
  quiet h := of_same (congrArg Control.fault h) (congrArg Control.halted h)
  fault c _ hkind addr reason note := ⟨.inr (latched_setFault c hkind addr reason note), fun _ => rfl⟩
  branch _ _ _ := of_same rfl rfl

/-- One step after another, over a list. -/
theorem foldl {α σ : Type} {f : VmState σ → α → VmState σ} (as : List α)
    (hf : ∀ a ∈ as, ∀ vm, KeepsFault vm.cpu (f vm a).cpu) (vm : VmState σ) :
    KeepsFault vm.cpu (as.foldl f vm).cpu := by
  induction as generalizing vm with
  | nil => exact refl _
  | cons a as ih =>
      have hfirst := hf a (List.mem_cons_self ..) vm
      have hrest := ih (fun b hb => hf b (List.mem_cons_of_mem _ hb)) (f vm a)
      exact hfirst.trans hrest

end Cpu.KeepsFault

/-! ### The latch along a run -/

namespace Emulator

variable {σ : Type}

/-- No fault is latched. -/
structure Clean (s : RunState σ) : Prop where
  fault : s.vm.cpu.fault = {}
  latched : s.latched = false

/-- A fault is latched if and only if the run has latched it. -/
def Tracks (s : RunState σ) : Prop := Clean s ∨ (s.vm.cpu.Latched ∧ s.latched = true)

/-- The hooks of an instruction neither clear a fault nor let the CPU run again, and neither
does a recovery callback that declines. -/
structure KeepsFaults (em : Emulator σ) : Prop where
  code : ∀ h ∈ em.codeHooks, ∀ (pc : GuestAddr) (len : Nat) (vm : VmState σ),
    vm.cpu.KeepsFault (h.callback pc len vm).cpu
  insn : ∀ h ∈ em.insnHooks, ∀ (i : Insn) (vm : VmState σ), vm.cpu.KeepsFault (h.callback i vm).cpu
  mem : em.attached.HooksFollow Cpu.KeepsFault
  declines : ∀ cb, em.recovery = some cb → ∀ (f : Fault) (vm : VmState σ), (cb f vm).1 = false →
    vm.cpu.KeepsFault (cb f vm).2.cpu

section Steps

variable {em : Emulator σ} {s : RunState σ}

theorem Clean.mapCpu_clearFault (h : Clean s) : s.vm.mapCpu Cpu.clearFault = s.vm := by
  have hcpu : s.vm.cpu.clearFault = s.vm.cpu := by
    rw [Cpu.clearFault, ← h.fault]
  rw [VmState.mapCpu, hcpu]

theorem Tracks.act {f : VmState σ → VmState σ} (h : Tracks s)
    (hf : s.vm.cpu.KeepsFault (f s.vm).cpu) : Tracks (s.act f) := by
  rcases h with hclean | ⟨hset, hlatched⟩
  · have hlatches : Latches f s.vm = (f s.vm).cpu.fault.isSet := by
      rw [Latches, hclean.mapCpu_clearFault]
    rcases hf.fault with hsame | hnew
    · have hempty : (f s.vm).cpu.fault = {} := hsame.trans hclean.fault
      refine .inl ⟨hempty, ?_⟩
      rw [RunState.act, hlatches, hclean.latched, hempty]
      rfl
    · refine .inr ⟨hnew, ?_⟩
      rw [RunState.act, hlatches, hnew.1, Bool.or_true]
  · refine .inr ⟨hf.latched hset, ?_⟩
    rw [RunState.act, hlatched, Bool.true_or]

theorem keepsFault_fireCode (hkeeps : em.KeepsFaults) (i : Insn) (vm : VmState σ) :
    vm.cpu.KeepsFault (em.fireCode i vm).cpu := by
  refine Cpu.KeepsFault.foldl _ (fun h hh vm => ?_) vm
  split
  · exact hkeeps.code h hh i.rip i.len vm
  · exact .refl _

theorem keepsFault_fireInsn (hkeeps : em.KeepsFaults) (i : Insn) (vm : VmState σ) :
    vm.cpu.KeepsFault (em.fireInsn i vm).cpu := by
  refine Cpu.KeepsFault.foldl _ (fun h hh vm => ?_) vm
  split
  · exact hkeeps.insn h hh i vm
  · exact .refl _

theorem keepsFault_fireTrace (em : Emulator σ) (i : Insn) (vm : VmState σ) :
    vm.cpu.KeepsFault (em.fireTrace i vm).cpu := by
  rw [fireTrace]
  split
  · exact .of_same rfl rfl
  · exact .refl _

theorem keepsFault_callInsn (hkeeps : em.KeepsFaults) (i : Insn) (vm : VmState σ) :
    vm.cpu.KeepsFault (em.callInsn i vm).cpu :=
  Follows.runOn em.fp i (Cpu.KeepsFault.follows _) hkeeps.mem vm.cpu vm.world

/-- The hooks and the handler of an instruction latch, but do not clear. -/
theorem Clean.afterInsn (hkeeps : em.KeepsFaults) (h : Clean s) (i : Insn) :
    Tracks (em.afterInsn i s) := by
  have hentered : Clean { s with
      vm := { s.vm with cpu := (s.vm.cpu.clearBranch.execBreakpointAt i.rip).2 } } :=
    ⟨(congrArg Control.fault ((Cpu.Quiet.execBreakpointAt i.rip).control _)).trans h.fault,
      h.latched⟩
  have hcode := Tracks.act (.inl hentered) (keepsFault_fireCode hkeeps i _)
  have hinsn := hcode.act (keepsFault_fireInsn hkeeps i _)
  have htrace := hinsn.act (keepsFault_fireTrace em i _)
  rcases htrace.act (keepsFault_callInsn hkeeps i _) with hclean | hlatched
  · exact .inl ⟨hclean.fault, hclean.latched⟩
  · exact .inr hlatched

theorem Tracks.clean (h : Tracks s) (hrunning : s.vm.cpu.halted = false) : Clean s := by
  rcases h with hclean | ⟨hset, _⟩
  · exact hclean
  · rw [hset.2] at hrunning
    cases hrunning

theorem Clean.advance (h : Clean s) (i : Insn) : Clean (advance i s) := ⟨h.fault, h.latched⟩

/-- At every point of a block no fault is latched. -/
theorem Replays.clean {maxInsns : Nat} {insns rest : List Insn} {s' : RunState σ}
    (hkeeps : em.KeepsFaults) (hclean : Clean s) (h : em.Replays maxInsns insns s rest s') :
    Clean s' := by
  induction h with
  | start => exact hclean
  | @next i _ _ _ hfalls ih =>
      exact ((ih.afterInsn hkeeps i).clean hfalls.notHalted).advance i

end Steps

end Emulator

/-! ### The report -/

/-- The status is `Ok` exactly when no fault is left latched; a fault that is has been reported
to the fault hooks, once, and no other has. -/
structure RunEnd.Truthful {σ : Type} (e : RunEnd σ) : Prop where
  status : e.result.status = .ok ↔ e.state.latched = false
  notified : e.state.latched = true → ∃ f, f.isSet = true ∧ e.notified = [f]
  quiet : e.state.latched = false → e.notified = []

namespace Emulator

variable {σ : Type} {em : Emulator σ} {P : MemoryProvider σ} {maxInsns : Nat} {s : RunState σ}

theorem faultStatus_ne_ok (f : Fault) : faultStatus f ≠ .ok := by
  rw [faultStatus]
  split
  · assumption
  · exact Status.noConfusion

theorem Clean.truthful (h : Clean s) : s.finish.Truthful :=
  ⟨⟨fun _ => h.latched, fun _ => rfl⟩,
    fun hlatched => absurd (hlatched.symm.trans h.latched) Bool.noConfusion, fun _ => rfl⟩

theorem Tracks.report_truthful (h : Tracks s) : (em.report s).Truthful := by
  rw [report]
  rcases h with hclean | ⟨hset, hlatched⟩
  · rw [if_neg (by rw [hclean.fault]; decide)]
    exact hclean.truthful
  · rw [if_pos hset.1]
    constructor
    · refine ⟨fun hok => absurd hok (faultStatus_ne_ok _), fun hnot => ?_⟩
      exact absurd (hlatched.symm.trans hnot) Bool.noConfusion
    · exact fun _ => ⟨s.vm.cpu.fault, hset.1, rfl⟩
    · exact fun hnot => absurd (hlatched.symm.trans hnot) Bool.noConfusion

/-- What holds where a block is left: the run has ended truthfully, or no fault is latched. -/
def BlockExit.Sound : BlockExit σ → Prop
  | .returned e => e.Truthful
  | .left _ s => Clean s

theorem Tracks.handlerHalted (hkeeps : em.KeepsFaults) (h : Tracks s) :
    (em.handlerHalted s).Sound := by
  unfold Emulator.handlerHalted
  split
  · exact h.report_truthful
  · rename_i cb hcb
    split
    · split
      · exact ⟨rfl, rfl⟩
      · rename_i vm hdeclined
        have hkept := hkeeps.declines cb hcb s.vm.cpu.fault s.vm (by rw [hdeclined])
        rw [hdeclined] at hkept
        have htracks : Tracks { s with vm } := by
          rcases h with hclean | ⟨hset, hlatched⟩
          · have hempty := hclean.fault
            have hfault : s.vm.cpu.fault.isSet = true := ‹_›
            rw [hempty] at hfault
            cases hfault
          · exact .inr ⟨hkept.latched hset, hlatched⟩
        exact htracks.report_truthful
    · exact h.report_truthful

/-- The points of a run at which it may go wrong: a stub that does not return or leaves a fault
latched, a block that does not decode, a `Block` hook that latches a fault, and an execute
breakpoint. A run is smooth if it comes to none of them. -/
structure Smooth (em : Emulator σ) (P : MemoryProvider σ) (maxInsns : Nat) (s₀ : RunState σ) :
    Prop where
  stubs : ∀ s stubs, em.Reaches P maxInsns s₀ s → em.AtStub s → em.iatStubs = some stubs →
    (stubs.dispatch em.attached s.vm.cpu.rip s.vm).1 = true ∧
      (stubs.dispatch em.attached s.vm.cpu.rip s.vm).2.cpu.fault = s.vm.cpu.fault
  decodes : ∀ s s' status, em.Reaches P maxInsns s₀ s →
    ¬ em.Fetches P maxInsns s (.error status) s'
  blockHooks : ∀ s s' block, em.Reaches P maxInsns s₀ s → em.Fetches P maxInsns s (.ok block) s' →
    (em.fireBlock s.vm.cpu.rip block.byteSize s'.vm).cpu.fault = s'.vm.cpu.fault
  breakpoints : ∀ s i, em.Comes P maxInsns s₀ i s → s.vm.cpu.halted = false →
    (s.vm.cpu.clearBranch.execBreakpointAt i.rip).1 = false

/-- A step that leaves the latch as it is. -/
theorem Clean.act {f : VmState σ → VmState σ} (h : Clean s)
    (hf : (f s.vm).cpu.fault = s.vm.cpu.fault) : Clean (s.act f) := by
  have hempty : (f s.vm).cpu.fault = {} := hf.trans h.fault
  refine ⟨hempty, ?_⟩
  rw [RunState.act, Latches, h.mapCpu_clearFault, hempty, h.latched]
  rfl

theorem Clean.fetches {r : Except Status DecodedBlock} {s' : RunState σ} (h : Clean s)
    (hfetches : em.Fetches P maxInsns s r s') : Clean s' :=
  ⟨by rw [hfetches.keeps.1, h.fault], hfetches.keeps.2.trans h.latched⟩

section Run

variable {s₀ : RunState σ} (hkeeps : em.KeepsFaults) (hsmooth : em.Smooth P maxInsns s₀)

include hsmooth

/-- A block that no fault is latched in front of. -/
theorem Clean.atBlock {block : DecodedBlock} {s' : RunState σ}
    (hreach : em.Reaches P maxInsns s₀ s) (h : Clean s)
    (hfetches : em.Fetches P maxInsns s (.ok block) s') : Clean (em.atBlock s block s') :=
  (h.fetches hfetches).act (hsmooth.blockHooks s s' block hreach hfetches)

include hkeeps

theorem Clean.exits {block : DecodedBlock} {s' : RunState σ} {x : BlockExit σ}
    (hreach : em.Reaches P maxInsns s₀ s) (h : Clean s)
    (hfetches : em.Fetches P maxInsns s (.ok block) s')
    (hexits : em.Exits maxInsns block.insns (em.atBlock s block s') x) : x.Sound := by
  have hblock := h.atBlock hsmooth hreach hfetches
  cases hexits with
  | finished h => exact h.clean hkeeps hblock
  | halted h hhalted => exact h.clean hkeeps hblock
  | breakpoint h hrunning hhit =>
      have hpasses := hsmooth.breakpoints _ _ ⟨s, block, s', _, hreach, hfetches, h⟩ hrunning
      rw [hhit] at hpasses
      cases hpasses
  | handler h hcalls hhalted hx =>
      subst hx
      exact ((h.clean hkeeps hblock).afterInsn hkeeps _).handlerHalted hkeeps
  | branched h hcalls hrunning =>
      exact ((h.clean hkeeps hblock).afterInsn hkeeps _).clean hrunning
  | stopped h hcalls hrunning =>
      exact (((h.clean hkeeps hblock).afterInsn hkeeps _).clean hrunning).advance _ |>.truthful
  | spent h hcalls hrunning =>
      exact (((h.clean hkeeps hblock).afterInsn hkeeps _).clean hrunning).advance _

/-- What holds after a turn. -/
theorem Clean.turns {t : Turn σ} (hreach : em.Reaches P maxInsns s₀ s) (h : Clean s)
    (hturns : em.Turns P maxInsns s t) :
    (∀ e, t = .ends e → e.Truthful) ∧ ∀ s', t = .goesOn s' → Clean s' := by
  have hends {e : RunEnd σ} (he : e.Truthful) : (∀ e', Turn.ends e = .ends e' → e'.Truthful) ∧
      ∀ s', Turn.ends e = .goesOn s' → Clean s' := by
    refine ⟨fun e' he' => ?_, fun _ hs' => (nomatch hs')⟩
    cases he'
    exact he
  have hgoes {s' : RunState σ} (hs' : Clean s') :
      (∀ e, Turn.goesOn s' = .ends e → e.Truthful) ∧
        ∀ s'', Turn.goesOn s' = .goesOn s'' → Clean s'' := by
    refine ⟨fun _ he => (nomatch he), fun s'' hs'' => ?_⟩
    cases hs''
    exact hs'
  cases hturns with
  | spent hspent => exact hends h.truthful
  | halted hhalted => exact hends h.truthful
  | @stub stubs _ hstubs hat hbudget hrunning ht =>
      obtain ⟨hreturned, hfault⟩ := hsmooth.stubs s stubs hreach hat hstubs
      have hacted := Clean.act (f := fun vm => (stubs.dispatch em.attached s.vm.cpu.rip vm).2) h
        hfault
      have hafter : Clean (em.afterStub stubs s) := ⟨hacted.fault, hacted.latched⟩
      rw [stubTurn, if_pos hreturned] at ht
      subst ht
      split
      · exact hends hafter.truthful
      · exact hgoes hafter
  | undecoded hfetches => exact absurd hfetches (hsmooth.decodes s _ _ hreach)
  | returned hfetches hexits => exact hends (h.exits hkeeps hsmooth hreach hfetches hexits)
  | stopped hfetches hexits hstop =>
      exact hends (Clean.truthful (h.exits hkeeps hsmooth hreach hfetches hexits))
  | left hfetches hexits => exact hgoes (h.exits hkeeps hsmooth hreach hfetches hexits)

/-- No fault is latched at the head of a turn. -/
theorem Reaches.clean (hclean : Clean s₀) (hreach : em.Reaches P maxInsns s₀ s) : Clean s := by
  induction hreach with
  | start => exact hclean
  | turn h hturn ih => exact (ih.turns hkeeps hsmooth h (turns_of_turn hturn)).2 _ rfl

end Run

/-- A run that is entered with an empty latch, and is smooth, reports what has happened. -/
theorem run_truthful (em : Emulator σ) (P : MemoryProvider σ) (vm : VmState σ) (cache : BlockCache)
    (entry : GuestAddr) (maxInsns : U64) (hread : em.attached.memRead = some P)
    (hempty : vm.cpu.fault = {}) (hkeeps : em.KeepsFaults)
    (hsmooth : em.Smooth P maxInsns.toNat (enter vm cache entry)) (e : RunEnd σ)
    (hruns : em.Runs vm cache entry maxInsns e) : e.Truthful := by
  obtain ⟨fuel, hrun⟩ := hruns
  rw [runWithCpu, hread] at hrun
  obtain ⟨s', hreach, hturns⟩ := ends_of_turns .start hrun
  have hclean := Reaches.clean hkeeps hsmooth ⟨hempty, rfl⟩ hreach
  exact (hclean.turns hkeeps hsmooth hreach hturns).1 e rfl

/-! ### Two runs -/

/-- No breakpoint is enabled. -/
theorem execBreakpointAt_disabled {c : Cpu} (h : c.dr 7 = 0#64) (rip : GuestAddr) :
    (c.execBreakpointAt rip).1 = false := by
  have hnone : [0, 1, 2, 3].find? (fun n => c.drEnabled n && c.drCond n == 0 && c.dr n == rip) =
      none := by
    refine List.find?_eq_none.mpr fun n _ => ?_
    rw [Cpu.drEnabled, h, BitVec.zero_ushiftRight, BitVec.zero_and]
    simp
  rw [Cpu.execBreakpointAt, Cpu.firstDr, hnone]

theorem hlt_smooth : plain.Smooth FakeMemory.provider 1 hltStart := by
  constructor
  · intro s stubs hreach hat
    cases hat.1
  · intro s s' status hreach hfetches
    obtain rfl := hlt_reaches hreach
    obtain ⟨block, _, hblock, _⟩ := hlt_fetches hfetches
    cases hblock
  · intro s s' block hreach hfetches
    rfl
  · intro s i hcomes hrunning
    apply execBreakpointAt_disabled
    rw [(hlt_comes hcomes).1]
    rfl

theorem run_truthful_hlt :
    ∃ e, plain.Runs ⟨{}, { mem := hltMemory }⟩ (fun _ => none) 0x1000 1 e ∧ e.Truthful := by
  have hends : (plain.runWithCpu 1 ⟨{}, { mem := hltMemory }⟩ (fun _ => none) 0x1000 1).isSome =
      true := by
    decide +kernel
  obtain ⟨e, he⟩ := Option.isSome_iff_exists.mp hends
  refine ⟨e, ⟨1, he⟩, ?_⟩
  refine run_truthful plain FakeMemory.provider _ _ _ 1 rfl rfl ?_ hlt_smooth e ⟨1, he⟩
  exact ⟨fun _ h => (nomatch h), fun _ h => (nomatch h), ⟨fun _ h => (nomatch h),
    fun _ h => (nomatch h)⟩, fun _ h => (nomatch h)⟩

/-- DR0 holds the address of the `HLT`, and DR7 enables it. -/
def watched : Cpu :=
  { ({} : Cpu) with dr := Function.update (Function.update (fun _ => 0) 0 0x1000) 7 1 }

/-- The run stops at the breakpoint, and reports `Ok`. -/
theorem breakpoint_reports_ok :
    ¬ ∀ (em : Emulator FakeMemory) (vm : VmState FakeMemory) (cache : BlockCache)
      (entry : GuestAddr) (maxInsns : U64) (e : RunEnd FakeMemory), cache.Decoded →
        em.Runs vm cache entry maxInsns e → e.Truthful := by
  intro h
  have hrun : (plain.runWithCpu 2 ⟨watched, { mem := hltMemory }⟩ (fun _ => none) 0x1000 1).any
      (fun e => e.result.status == .ok && e.state.latched) = true := by
    decide +kernel
  obtain ⟨e, he, hok⟩ := (Option.any_eq_true _ _).mp hrun
  rw [Bool.and_eq_true, beq_iff_eq] at hok
  have htruthful := h plain _ _ _ 1 e BlockCache.decoded_empty ⟨2, he⟩
  have hlatched := htruthful.status.mp hok.1
  rw [hok.2] at hlatched
  cases hlatched

end Emulator

end PicoCpu
