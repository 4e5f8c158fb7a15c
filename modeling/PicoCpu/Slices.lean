import PicoCpu.RunResults
import PicoCpu.Sessions

/-!
Running in slices. A run that has used up its budget, called again from where it stands, goes on
as the run with the whole budget would, although its new blocks may begin in the middle of the
old ones. Shown of the plain interpreter, whose turns only look at the budget to end, and carried
over to the dispatcher.
-/

namespace PicoCpu

namespace Emulator

variable {σ : Type}

/-! ### The budget -/

section Budget

variable {em : Emulator σ} {P : MemoryProvider σ} {n N : Nat} {s s' : RunState σ} {e : RunEnd σ}

/-- A turn with budget left does not look at it. -/
theorem plainTurn_budget (h : s.executed < n) (hle : n ≤ N) :
    em.plainTurn P n s = em.plainTurn P N s := by
  rw [plainTurn, plainTurn, if_neg (not_le.mpr h), if_neg (not_le.mpr (h.trans_le hle))]

theorem budget_of_goesOn (h : em.plainLoop P n s = some (.inl s')) : s.executed < n := by
  by_contra hspent
  rw [plainLoop, plainTurn, if_pos (not_lt.mp hspent)] at h
  cases h

theorem reached_budget {t₀ : RunState σ} (hle : n ≤ N)
    (h : Loops.Reached (em.plainLoop P n) t₀ s) : Loops.Reached (em.plainLoop P N) t₀ s := by
  apply h.induct (.refl t₀)
  intro t t' _ hreached hturn
  apply hreached.turn
  rw [← hturn, plainLoop, plainLoop, plainTurn_budget (budget_of_goesOn hturn) hle]

/-- A recovery callback that declines leaves the CPU halted. -/
def DeclinesHalted (em : Emulator σ) : Prop :=
  ∀ cb, em.recovery = some cb → ∀ f vm, (cb f vm).1 = false → vm.cpu.halted = true →
    (cb f vm).2.cpu.halted = true

/-- What the caller sees of a run that has used up its budget: it returns Ok with all of its
instructions executed, neither halted nor at a stop address. -/
structure Spent (em : Emulator σ) (n : Nat) (e : RunEnd σ) : Prop where
  status : e.result.status = .ok
  executed : e.result.insnsExecuted = n
  running : e.state.vm.cpu.halted = false
  noStop : em.isStop e.state.vm.cpu.rip = false

theorem orStop_ne_ends (hstop : em.isStop e.state.vm.cpu.rip = false) :
    em.orStop s ≠ .ends e := by
  intro h
  rw [orStop] at h
  split at h
  · rename_i hat
    cases h
    rw [RunState.finish, hat] at hstop
    cases hstop
  · cases h

theorem report_not_spent (hhalted : s.vm.cpu.halted = true) : ¬ Spent em n (em.report s) := by
  intro h
  rw [report] at h
  split at h
  · exact faultStatus_ne_ok _ h.status
  · have hrunning := h.running
    rw [RunState.finish, hhalted] at hrunning
    cases hrunning

theorem haltTurn_not_spent (hdeclines : em.DeclinesHalted) (hhalted : s.vm.cpu.halted = true)
    (hspent : Spent em n e) : em.haltTurn s ≠ .ends e := by
  by_cases hrecovers : ∃ cb, em.recovery = some cb ∧ s.vm.cpu.fault.isSet = true
  · obtain ⟨cb, hrecovery, hset⟩ := hrecovers
    rw [haltTurn_recovery hrecovery hset]
    split
    · exact orStop_ne_ends hspent.noStop
    · rename_i hdeclined
      have hstill := hdeclines cb hrecovery _ s.vm (by simpa using hdeclined) hhalted
      rintro ⟨⟩
      exact report_not_spent hstill hspent
  · have hnone (cb) (hcb : em.recovery = some cb) : s.vm.cpu.fault.isSet = false := by
      rw [← Bool.not_eq_true]
      exact fun hset => hrecovers ⟨cb, hcb, hset⟩
    rw [haltTurn_report hnone]
    rintro ⟨⟩
    exact report_not_spent hhalted hspent

theorem stepOnce_not_spent (hdeclines : em.DeclinesHalted) (i : Insn) (hspent : Spent em n e) :
    em.stepOnce i s ≠ .ends e := by
  rw [stepOnce]
  split
  · exact orStop_ne_ends hspent.noStop
  · split
    · exact haltTurn_not_spent hdeclines ‹_› hspent
    · split
      · exact orStop_ne_ends hspent.noStop
      · exact orStop_ne_ends hspent.noStop

/-- The turn in which the budget is found used up. -/
theorem finish_of_spent (hdeclines : em.DeclinesHalted) (hspent : Spent em n e)
    (h : em.plainLoop P n s = some (.inr e)) : s.executed = n ∧ e = s.finish := by
  have hcount (hless : s.executed < n) (heq : e.result.insnsExecuted = s.executed) : False := by
    have := hspent.executed
    omega
  obtain ⟨x, hx, hout⟩ := Option.map_eq_some_iff.mp h
  cases x with
  | goesOn s' => cases hout
  | ends e' =>
      cases hout
      by_cases hbudget : s.executed < n
      · exfalso
        cases hhalted : s.vm.cpu.halted with
        | true =>
            rw [plainTurn, if_neg (not_le.mpr hbudget), if_pos hhalted] at hx
            cases hx
            exact hcount hbudget rfl
        | false =>
            rcases plainTurn_eq (P := P) hbudget hhalted with ⟨stubs, _, _, heq⟩ | ⟨_, heq⟩
            · rw [heq, stubTurn_eq] at hx
              split at hx
              · exact orStop_ne_ends hspent.noStop (Option.some.inj hx)
              · cases hx
                exact hcount hbudget rfl
            · rw [heq, insnTurn] at hx
              obtain ⟨r, _, hr⟩ := Option.map_eq_some_iff.mp hx
              cases r with
              | error status =>
                  cases hr
                  exact hcount hbudget rfl
              | ok i => exact stepOnce_not_spent hdeclines i hspent hr
      · rw [plainTurn, if_pos (not_lt.mp hbudget)] at hx
        cases hx
        exact ⟨hspent.executed, rfl⟩

end Budget

/-! ### Going on -/

/-- The same machines but for the branch mark, which every instruction clears first. -/
def UnmarkedEq (vm vm' : VmState σ) : Prop :=
  vm.mapCpu Cpu.clearBranch = vm'.mapCpu Cpu.clearBranch

/-- The callback does not look at the branch mark. -/
def MarkBlind (f : VmState σ → VmState σ) : Prop :=
  ∀ vm vm', UnmarkedEq vm vm' → UnmarkedEq (f vm) (f vm')

/-- The run that goes on, and the one that was called again after `n` instructions and `d` stubs. -/
structure Resumed (n d : Nat) (s t : RunState σ) : Prop where
  vm : UnmarkedEq s.vm t.vm
  executed : s.executed = n + t.executed
  dispatched : s.dispatched = d + t.dispatched

/-- What they return: only the counts of the instructions differ. -/
structure ResumedEnd (n d : Nat) (e f : RunEnd σ) : Prop where
  result : e.result = { f.result with insnsExecuted := n + f.result.insnsExecuted }
  notified : e.notified = f.notified
  state : Resumed n d e.state f.state

inductive ResumedTurn (n d : Nat) : Turn σ → Turn σ → Prop
  | ends {e f : RunEnd σ} (h : ResumedEnd n d e f) : ResumedTurn n d (.ends e) (.ends f)
  | goesOn {s t : RunState σ} (h : Resumed n d s t) : ResumedTurn n d (.goesOn s) (.goesOn t)

section Resumed

variable {em : Emulator σ} {P : MemoryProvider σ} {n d m : Nat} {s t : RunState σ}

theorem UnmarkedEq.observe {vm vm' : VmState σ} (h : UnmarkedEq vm vm') {α : Type} (f : Cpu → α)
    (hf : ∀ c, f c.clearBranch = f c) : f vm.cpu = f vm'.cpu := by
  have hcpu : vm.cpu.clearBranch = vm'.cpu.clearBranch := congrArg VmState.cpu h
  rw [← hf vm.cpu, hcpu, hf]

theorem UnmarkedEq.world {vm vm' : VmState σ} (h : UnmarkedEq vm vm') : vm.world = vm'.world := by
  have hvm : vm.mapCpu Cpu.clearBranch = vm'.mapCpu Cpu.clearBranch := h
  have hworld := congrArg VmState.world hvm
  exact hworld

/-- States of one machine. -/
theorem Resumed.of_vm (hvm : s.vm = t.vm) (hexecuted : s.executed = n + t.executed)
    (hdispatched : s.dispatched = d + t.dispatched) : Resumed n d s t :=
  ⟨congrArg (VmState.mapCpu · Cpu.clearBranch) hvm, hexecuted, hdispatched⟩

theorem Resumed.resultWith (h : Resumed n d s t) (status : Status) :
    s.resultWith status =
      { t.resultWith status with insnsExecuted := n + (t.resultWith status).insnsExecuted } := by
  have hrip : s.vm.cpu.rip = t.vm.cpu.rip := h.vm.observe Cpu.rip fun _ => rfl
  have hrax : s.vm.cpu.r Reg.rax = t.vm.cpu.r Reg.rax :=
    h.vm.observe (Cpu.r · Reg.rax) fun _ => rfl
  rw [RunState.resultWith, RunState.resultWith, h.executed, hrip, hrax]

theorem Resumed.finish (h : Resumed n d s t) : ResumedEnd n d s.finish t.finish :=
  ⟨h.resultWith .ok, rfl, h⟩

theorem Resumed.orStop (h : Resumed n d s t) : ResumedTurn n d (em.orStop s) (em.orStop t) := by
  have hrip : s.vm.cpu.rip = t.vm.cpu.rip := h.vm.observe Cpu.rip fun _ => rfl
  rw [Emulator.orStop, Emulator.orStop, hrip]
  split
  · exact .ends h.finish
  · exact .goesOn h

theorem resumed_report (hvm : s.vm = t.vm) (h : Resumed n d s t) :
    ResumedEnd n d (em.report s) (em.report t) := by
  rw [report, report, hvm]
  split
  · exact ⟨h.resultWith _, rfl, .of_vm rfl h.executed h.dispatched⟩
  · exact h.finish

theorem resumed_haltTurn (hvm : s.vm = t.vm) (h : Resumed n d s t) :
    ResumedTurn n d (em.haltTurn s) (em.haltTurn t) := by
  by_cases hrecovers : ∃ cb, em.recovery = some cb ∧ t.vm.cpu.fault.isSet = true
  · obtain ⟨cb, hrecovery, hset⟩ := hrecovers
    have hset' : s.vm.cpu.fault.isSet = true := by rw [hvm, hset]
    rw [haltTurn_recovery hrecovery hset, haltTurn_recovery hrecovery hset', hvm]
    split
    · have hrecovered : Resumed n d (recovered s (cb t.vm.cpu.fault t.vm).2)
          (recovered t (cb t.vm.cpu.fault t.vm).2) := .of_vm rfl h.executed h.dispatched
      exact hrecovered.orStop
    · exact .ends (resumed_report rfl (.of_vm rfl h.executed h.dispatched))
  · have hnone (cb) (hcb : em.recovery = some cb) : t.vm.cpu.fault.isSet = false := by
      rw [← Bool.not_eq_true]
      exact fun hset => hrecovers ⟨cb, hcb, hset⟩
    have hnone' (cb) (hcb : em.recovery = some cb) : s.vm.cpu.fault.isSet = false := by
      rw [hvm, hnone cb hcb]
    rw [haltTurn_report hnone, haltTurn_report hnone']
    exact .ends (resumed_report hvm h)

/-- The handler starts from the same machine. -/
theorem Resumed.afterInsn (h : Resumed n d s t) (i : Insn) :
    (em.afterInsn i s).vm = (em.afterInsn i t).vm ∧
      Resumed n d (em.afterInsn i s) (em.afterInsn i t) := by
  have hcpu : s.vm.cpu.clearBranch = t.vm.cpu.clearBranch := congrArg VmState.cpu h.vm
  have hworld : s.vm.world = t.vm.world := h.vm.world
  have hvm : (em.afterInsn i s).vm = (em.afterInsn i t).vm := by
    simp only [Emulator.afterInsn, execute, atHandler, announce, RunState.act, hcpu, hworld]
  have hexecuted : (em.afterInsn i s).executed = n + (em.afterInsn i t).executed :=
    congrArg (· + 1) h.executed
  exact ⟨hvm, .of_vm hvm hexecuted h.dispatched⟩

theorem Resumed.stepOnce (h : Resumed n d s t) (i : Insn) :
    ResumedTurn n d (em.stepOnce i s) (em.stepOnce i t) := by
  have hcpu : s.vm.cpu.clearBranch = t.vm.cpu.clearBranch := congrArg VmState.cpu h.vm
  obtain ⟨hvm, hafter⟩ : (em.afterInsn i s).vm = (em.afterInsn i t).vm ∧
      Resumed n d (em.afterInsn i s) (em.afterInsn i t) := h.afterInsn i
  rw [Emulator.stepOnce, Emulator.stepOnce, hcpu, hvm]
  split
  · refine Resumed.orStop (.of_vm ?_ h.executed h.dispatched)
    simp only [breakpointHit, h.vm.world]
  · split
    · exact resumed_haltTurn hvm hafter
    · split
      · exact hafter.orStop
      · refine Resumed.orStop (.of_vm ?_ hafter.executed hafter.dispatched)
        simp only [advance, hvm]

theorem popRet_unmarked (at_ : Attached σ) {vm vm' : VmState σ} (h : UnmarkedEq vm vm') :
    (vm.popRet at_).1 = (vm'.popRet at_).1 ∧ UnmarkedEq (vm.popRet at_).2 (vm'.popRet at_).2 := by
  have hcpu : vm.cpu.clearBranch = vm'.cpu.clearBranch := congrArg VmState.cpu h
  have hworld := h.world
  have hrsp : vm.cpu.r Reg.rsp = vm'.cpu.r Reg.rsp :=
    h.observe (Cpu.r · Reg.rsp) fun _ => rfl
  have hupdate (g : Cpu → Cpu) (hg : ∀ c, (g c).clearBranch = g c.clearBranch) (w : World σ) :
      UnmarkedEq ⟨g vm.cpu, w⟩ ⟨g vm'.cpu, w⟩ := by
    have hsame : (g vm.cpu).clearBranch = (g vm'.cpu).clearBranch := by rw [hg, hg, hcpu]
    rw [UnmarkedEq, VmState.mapCpu, VmState.mapCpu, hsame]
  unfold VmState.popRet
  simp only [hrsp, hworld]
  split
  · have hfault := hupdate (fun c => c.setFault .providerFailure (vm'.cpu.r Reg.rsp)
      .providerFailure (some "iat stub: no read provider")) (fun _ => rfl) vm.world
    rw [VmState.setFault, VmState.setFault, VmState.mapCpu, VmState.mapCpu, ← hworld]
    exact ⟨rfl, hfault⟩
  · split
    · exact ⟨rfl, hupdate (fun c => c.setFault _ _ _ (some _)) (fun _ => rfl) _⟩
    · exact ⟨rfl, hupdate (fun c => (c.setR64 _ _).setRip _) (fun _ => rfl) _⟩

theorem dispatch_unmarked {stubs : IatStubs σ} (at_ : Attached σ) (rip : GuestAddr)
    (hblind : ∀ e fn, stubs.lookup e = some fn → MarkBlind (fn e.dll e.name)) {vm vm' : VmState σ}
    (h : UnmarkedEq vm vm') :
    (stubs.dispatch at_ rip vm).1 = (stubs.dispatch at_ rip vm').1 ∧
      UnmarkedEq (stubs.dispatch at_ rip vm).2 (stubs.dispatch at_ rip vm').2 := by
  have hcpu : vm.cpu.clearBranch = vm'.cpu.clearBranch := congrArg VmState.cpu h
  have hupdate (g : Cpu → Cpu) (hg : ∀ c, (g c).clearBranch = g c.clearBranch) :
      UnmarkedEq (vm.mapCpu g) (vm'.mapCpu g) := by
    have hsame : (g vm.cpu).clearBranch = (g vm'.cpu).clearBranch := by rw [hg, hg, hcpu]
    rw [UnmarkedEq, VmState.mapCpu, VmState.mapCpu, VmState.mapCpu, VmState.mapCpu, hsame, h.world]
  unfold IatStubs.dispatch
  split
  · exact ⟨rfl, h⟩
  · split
    · exact ⟨rfl, hupdate (fun c => c.setFault _ _ _ (some _)) fun _ => rfl⟩
    · rename_i e _
      cases hlookup : stubs.lookup e with
      | none => exact popRet_unmarked at_ (hupdate (fun c => c.setR64 Reg.rax 0) fun _ => rfl)
      | some fn => exact popRet_unmarked at_ (hblind e fn hlookup _ _ h)

/-- No stub looks at the branch mark. -/
def StubsMarkBlind (em : Emulator σ) : Prop :=
  ∀ stubs, em.iatStubs = some stubs → ∀ e fn, stubs.lookup e = some fn → MarkBlind (fn e.dll e.name)

theorem Resumed.stubTurn (hblind : em.StubsMarkBlind) {stubs : IatStubs σ}
    (hstubs : em.iatStubs = some stubs) (h : Resumed n d s t) :
    ResumedTurn n d (em.stubTurn stubs s) (em.stubTurn stubs t) := by
  have hrip : s.vm.cpu.rip = t.vm.cpu.rip := h.vm.observe Cpu.rip fun _ => rfl
  obtain ⟨hreturned, hvm⟩ := dispatch_unmarked em.attached t.vm.cpu.rip (hblind stubs hstubs) h.vm
  have hafter : Resumed n d (em.afterStub stubs s) (em.afterStub stubs t) := by
    rw [afterStub, afterStub, hrip]
    exact ⟨hvm, h.executed, congrArg (· + 1) h.dispatched⟩
  rw [stubTurn_eq, stubTurn_eq, hrip, hreturned]
  split
  · exact hafter.orStop
  · have hfault : (em.afterStub stubs s).vm.cpu.fault = (em.afterStub stubs t).vm.cpu.fault :=
      hafter.vm.observe Cpu.fault fun _ => rfl
    refine .ends ⟨?_, rfl, hafter⟩
    rw [hfault, hafter.resultWith]

theorem Resumed.turn (hblind : em.StubsMarkBlind) (h : Resumed n d s t) :
    Loops.Lockstep (Resumed n d) (ResumedEnd n d) (em.plainLoop P (n + m) s)
      (em.plainLoop P m t) := by
  have hlift {x y : Turn σ} (hxy : ResumedTurn n d x y) :
      Loops.Lockstep (Resumed n d) (ResumedEnd n d) (some x.outcome) (some y.outcome) := by
    cases hxy with
    | ends he => exact .ends he
    | goesOn hs => exact .goesOn hs
  have hcount := h.executed
  rw [plainLoop, plainLoop]
  by_cases hbudget : t.executed < m
  · have hbudget' : s.executed < n + m := by omega
    have hhalts : s.vm.cpu.halted = t.vm.cpu.halted := h.vm.observe Cpu.halted fun _ => rfl
    have hrip : s.vm.cpu.rip = t.vm.cpu.rip := h.vm.observe Cpu.rip fun _ => rfl
    have hmem : s.vm.world.mem = t.vm.world.mem := congrArg World.mem h.vm.world
    rw [plainTurn, plainTurn, if_neg (not_le.mpr hbudget), if_neg (not_le.mpr hbudget'), hhalts]
    have hinsn : Loops.Lockstep (Resumed n d) (ResumedEnd n d)
        ((em.insnTurn P s).map Turn.outcome) ((em.insnTurn P t).map Turn.outcome) := by
      rw [insnTurn, insnTurn, hmem, hrip]
      cases decodeOne (codeBytes P t.vm.world.mem) t.vm.cpu.rip prefixFuel with
      | none => exact .stuck
      | some r =>
          cases r with
          | error e =>
              refine .ends ⟨?_, rfl, h⟩
              rw [h.resultWith]
          | ok i => exact hlift (h.stepOnce i)
    split
    · exact .ends h.finish
    · cases hstubs : em.iatStubs with
      | none => exact hinsn
      | some stubs =>
          simp only [hrip]
          split
          · exact hlift (h.stubTurn hblind hstubs)
          · exact hinsn
  · rw [plainTurn, plainTurn, if_pos (not_lt.mp hbudget), if_pos (by omega)]
    exact .ends h.finish

/-- The plain interpreter called again after a run that has used up its budget. -/
theorem resumed_plainly {vm : VmState σ} {cache : BlockCache}
    {t₀ : RunState σ} (hreached : Loops.Reached (em.plainLoop P n) t₀ s) (hcount : s.executed = n)
    (hrunning : s.vm.cpu.halted = false) (hvm : vm = s.vm) :
    Resumed n s.dispatched s (enter vm cache vm.cpu.rip) ∧
      Loops.Reached (em.plainLoop P (n + m)) t₀ s := by
  subst hvm
  refine ⟨⟨?_, hcount, rfl⟩, reached_budget (Nat.le_add_right n m) hreached⟩
  have hcpu : (s.vm.cpu.unhalt.clearBranch.setRip s.vm.cpu.rip).clearBranch =
      s.vm.cpu.clearBranch := by
    rw [Cpu.unhalt, ← hrunning]
    rfl
  rw [UnmarkedEq, enter, VmState.mapCpu, VmState.mapCpu, VmState.mapCpu, hcpu]

end Resumed

/-! ### The text of a slice -/

section Text

variable {em : Emulator σ} {P : MemoryProvider σ} {n d m N : Nat} {s t t₀ : RunState σ}
  {image : CodeBytes} {code : GuestAddr → Prop}

theorem AtCode.budget_le (hle : n ≤ N) (h : AtCode em P n t₀ t) : AtCode em P N t₀ t :=
  ⟨reached_budget hle h.reached, h.budget.trans_le hle, h.running, h.noStub⟩

theorem StaysInText.budget_le (hle : n ≤ N) (h : StaysInText em P N image code t₀) :
    StaysInText em P n image code t₀ where
  shows t ht := h.shows t (reached_budget hle ht)
  here t hat := h.here t (hat.budget_le hle)
  harmless i t hexec := h.harmless i t ⟨hexec.toAtCode.budget_le hle, hexec.decoded⟩

/-- The run that was called again executes what the run that goes on does. -/
theorem AtCode.resumed (hblind : em.StubsMarkBlind)
    (hreached : Loops.Reached (em.plainLoop P (n + m)) t₀ s) (hstart : Resumed n d s t)
    {t' : RunState σ} (h : AtCode em P m t t') :
    ∃ s', AtCode em P (n + m) t₀ s' ∧ Resumed n d s' t' := by
  obtain ⟨s', hreached', hresumed⟩ :=
    Loops.reached_of_lockstep (fun s t h => h.turn hblind) hstart h.reached
  have hcount := hresumed.executed
  have hbudget := h.budget
  have hhalts : s'.vm.cpu.halted = t'.vm.cpu.halted := hresumed.vm.observe Cpu.halted fun _ => rfl
  have hrip : s'.vm.cpu.rip = t'.vm.cpu.rip := hresumed.vm.observe Cpu.rip fun _ => rfl
  have hrestart : Loops.Reached (em.plainLoop P (n + m)) t₀ s' := by
    obtain ⟨k, hk⟩ := hreached
    obtain ⟨l, hl⟩ := hreached'
    exact ⟨k + l, hk.trans hl⟩
  refine ⟨s', ⟨hrestart, by omega, hhalts.trans h.running, ?_⟩, hresumed⟩
  have hstub := h.noStub
  rw [AtStub] at hstub ⊢
  rwa [hrip]

theorem StaysInText.resumed (hblind : em.StubsMarkBlind)
    (hreached : Loops.Reached (em.plainLoop P (n + m)) t₀ s) (hstart : Resumed n d s t)
    (h : StaysInText em P (n + m) image code t₀) : StaysInText em P m image code t where
  shows t' ht := by
    obtain ⟨s', ⟨k, hk⟩, hresumed⟩ :=
      Loops.reached_of_lockstep (fun s t h => h.turn hblind) hstart ht
    obtain ⟨l, hl⟩ := hreached
    have hshows := h.shows s' ⟨l + k, hl.trans hk⟩
    rwa [hresumed.vm.world] at hshows
  here t' hat := by
    obtain ⟨s', hat', hresumed⟩ := hat.resumed hblind hreached hstart
    have hrip : s'.vm.cpu.rip = t'.vm.cpu.rip := hresumed.vm.observe Cpu.rip fun _ => rfl
    exact hrip ▸ h.here s' hat'
  harmless i t' hexec hfolded := by
    obtain ⟨s', hat', hresumed⟩ := hexec.toAtCode.resumed hblind hreached hstart
    have hrip : s'.vm.cpu.rip = t'.vm.cpu.rip := hresumed.vm.observe Cpu.rip fun _ => rfl
    have hsame : i.Harmless s'.vm.cpu = i.Harmless t'.vm.cpu :=
      hresumed.vm.observe i.Harmless fun _ => rfl
    rw [← hsame]
    refine h.harmless i s' ⟨hat', ?_⟩ hfolded
    rw [hresumed.vm.world, hrip]
    exact hexec.decoded

end Text

/-! ### Slices -/

/-- What the last of two slices returns, and what the run with the whole budget does. -/
structure SlicedEnd (n : Nat) (whole last : RunEnd σ) : Prop where
  result : whole.result = { last.result with insnsExecuted := n + last.result.insnsExecuted }
  notified : whole.notified = last.notified
  vm : (whole.state.vm.mapCpu Cpu.clearBranch).Like none Eq
    (last.state.vm.mapCpu Cpu.clearBranch)

theorem SlicedEnd.of_alike {n d : Nat} {whole last whole' last' : RunEnd σ}
    (h : ResumedEnd n d whole' last') (hwhole : whole.Alike whole') (hlast : last.Alike last') :
    SlicedEnd n whole last := by
  have hclear : Cpu.Keeps none Cpu.clearBranch := Cpu.keeps_flagFree fun _ _ => rfl
  have hsame : whole'.state.vm.mapCpu Cpu.clearBranch = last'.state.vm.mapCpu Cpu.clearBranch :=
    h.state.vm
  refine ⟨?_, ?_, ?_⟩
  · rw [hwhole.result, h.result, hlast.result]
  · rw [hwhole.notified, h.notified, hlast.notified]
  · have hmiddle := hwhole.state.vm.mapCpu hclear
    rw [hsame] at hmiddle
    have hback := hlast.state.vm.mapCpu hclear
    exact hmiddle.trans ⟨⟨hback.cpu.same.symm, fun l hl => absurd hl (Option.not_mem_none l)⟩,
      hback.world.symm⟩

theorem nopHlt_length : ([0x90, 0xF4] : List U8).length < 2 ^ 64 := by
  decide

/-- `NOP` at 0x1000 and `HLT` after it. -/
def nopHltMemory : FakeMemory where
  regions := [{ base := 0x1000, bytes := [0x90, 0xF4], length_lt := nopHlt_length }]
  disjoint := List.pairwise_singleton _ _

def nopHltStart : RunState FakeMemory :=
  enter ⟨{}, { mem := nopHltMemory }⟩ (fun _ => none) 0x1000

def nopHltCode (a : GuestAddr) : Prop := a = 0x1000 ∨ a = 0x1001

theorem text_nopHlt :
    ProgramText (codeBytes FakeMemory.provider nopHltMemory) nopHltCode where
  decodes a ha := by
    rcases ha with rfl | rfl
    · decide +kernel
    · decide +kernel
  ahead a i ha hd hplain := by
    rcases ha with rfl | rfl
    · have hlen : (decodeOne (codeBytes FakeMemory.provider nopHltMemory) 0x1000 prefixFuel).all
          (fun r => r.toOption.all fun i => i.len == 1) = true := by
        decide +kernel
      rw [hd] at hlen
      have hone : (i.len == 1) = true := hlen
      right
      rw [beq_iff_eq.mp hone]
      rfl
    · have hflag : (decodeOne (codeBytes FakeMemory.provider nopHltMemory) 0x1001 prefixFuel).all
          (fun r => r.toOption.all fun i => i.flags.controlFlow) = true := by
        decide +kernel
      rw [hd] at hflag
      have hbranch : i.flags.controlFlow = true := hflag
      rw [hplain] at hbranch
      cases hbranch
  outside a ha := by
    rcases ha with rfl | rfl
    · decide
    · decide

/-- The two states of the run. -/
theorem nopHlt_reaches {s : RunState FakeMemory}
    (h : Loops.Reached (plain.plainLoop FakeMemory.provider 2) nopHltStart s) :
    s = nopHltStart ∨
      ((plain.plainTurn FakeMemory.provider 2 nopHltStart).bind Turn.next) = some s := by
  have hsecond : (((plain.plainTurn FakeMemory.provider 2 nopHltStart).bind Turn.next).bind
      fun s => (plain.plainTurn FakeMemory.provider 2 s).bind Turn.next).isNone = true := by
    decide +kernel
  apply h.induct (.inl rfl)
  intro t t' _ ih hturn
  obtain ⟨x, hx, hout⟩ := Option.map_eq_some_iff.mp hturn
  cases x with
  | ends e => cases hout
  | goesOn s' =>
      cases hout
      rcases ih with rfl | hfirst
      · right
        rw [hx]
        rfl
      · rw [hfirst, Option.bind_some, hx] at hsecond
        cases hsecond

theorem staysInText_nopHlt : StaysInText plain FakeMemory.provider 2
    (codeBytes FakeMemory.provider nopHltMemory) nopHltCode nopHltStart := by
  have hnext : ((plain.plainTurn FakeMemory.provider 2 nopHltStart).bind Turn.next).all (fun s =>
      s.vm.cpu.rip == 0x1001 &&
        (decodeOne (codeBytes FakeMemory.provider s.vm.world.mem) 0x1000 prefixFuel ==
          decodeOne (codeBytes FakeMemory.provider nopHltMemory) 0x1000 prefixFuel) &&
        (decodeOne (codeBytes FakeMemory.provider s.vm.world.mem) 0x1001 prefixFuel ==
          decodeOne (codeBytes FakeMemory.provider nopHltMemory) 0x1001 prefixFuel)) = true := by
    decide +kernel
  have hplain (a : GuestAddr) (ha : nopHltCode a) :
      (decodeOne (codeBytes FakeMemory.provider nopHltMemory) a prefixFuel).all
        (fun r => r.toOption.all fun i => !i.isFolded) = true := by
    rcases ha with rfl | rfl
    · decide +kernel
    · decide +kernel
  have hstate {t : RunState FakeMemory}
      (h : Loops.Reached (plain.plainLoop FakeMemory.provider 2) nopHltStart t) :
      nopHltCode t.vm.cpu.rip ∧ Shows (codeBytes FakeMemory.provider nopHltMemory) nopHltCode
        (codeBytes FakeMemory.provider t.vm.world.mem) := by
    rcases nopHlt_reaches h with rfl | hsecond
    · exact ⟨.inl rfl, fun _ _ => rfl⟩
    · rw [hsecond, Option.all_some] at hnext
      simp only [Bool.and_eq_true, beq_iff_eq] at hnext
      refine ⟨.inr hnext.1.1, ?_⟩
      rintro a (rfl | rfl)
      · exact hnext.1.2
      · exact hnext.2
  refine ⟨fun t h => (hstate h).2, fun t hat => (hstate hat.reached).1, ?_⟩
  intro i t hexec hfolded
  obtain ⟨hcode, hshows⟩ := hstate hexec.reached
  have hnot := hplain _ hcode
  rw [← hshows _ hcode, hexec.decoded] at hnot
  have hflag : (!i.isFolded) = true := hnot
  rw [hfolded] at hflag
  cases hflag

end Emulator

end PicoCpu
