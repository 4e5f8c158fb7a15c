import PicoCpu.BlockReplays
import PicoCpu.CodeCache

/-!
The dispatcher refines the plain interpreter. As long as the cache holds the code that is in
memory, a turn of the dispatcher is a batch of plain steps, so the two loops end on the same
inputs and end alike. What keeps the cache current is left to `Upkeep`, an invariant of cache and
memory over the plain run.
-/

namespace PicoCpu

open Handlers

/-! ### Straight-line code -/

/-- The instructions at `cur`, one after the other; only the last may be control flow. -/
def Straight (mem : CodeBytes) : GuestAddr → List Insn → Prop
  | _, [] => True
  | cur, i :: rest =>
    decodeOne mem cur prefixFuel = some (.ok i) ∧ (rest ≠ [] → i.flags.controlFlow = false) ∧
      Straight mem (cur + BitVec.ofNat 64 i.len) rest

theorem straight_decodeRun {mem : CodeBytes} {n : Nat} {cur : GuestAddr} {insns : List Insn}
    {st : Option Status} (h : decodeRun mem n cur = some (insns, st)) : Straight mem cur insns := by
  induction n generalizing cur insns with
  | zero =>
      cases h
      trivial
  | succ n ih =>
      rw [decodeRun] at h
      cases hd : decodeOne mem cur prefixFuel with
      | none => rw [hd] at h; cases h
      | some r =>
          rw [hd] at h
          cases r with
          | error e =>
              cases h
              trivial
          | ok i =>
              simp only at h
              split at h
              · cases h
                exact ⟨hd, fun hne => absurd rfl hne, trivial⟩
              · rename_i hplain
                obtain ⟨⟨rest, st'⟩, hrest, hcons⟩ := Option.map_eq_some_iff.mp h
                cases hcons
                exact ⟨hd, fun _ => by simpa using hplain, ih hrest⟩

/-- The block is the code at `pc` after the peephole pass. -/
def Current (mem : CodeBytes) (pc : GuestAddr) (block : DecodedBlock) : Prop :=
  ∃ insns, insns ≠ [] ∧ block.insns = peepholeBlock insns ∧ Straight mem pc insns

theorem current_decodeBlock {mem : CodeBytes} {pc : GuestAddr} {n : Nat} {block : DecodedBlock}
    (h : decodeBlock mem pc (n + 1) = some (.ok block)) : Current mem pc block := by
  obtain ⟨insns, st, hrun, hempty, rfl⟩ := decodeBlockWith_eq_ok.mp h
  refine ⟨insns, ?_, rfl, straight_decodeRun hrun⟩
  rintro rfl
  rw [hempty rfl] at hrun
  exact decodeRun_ne_nil hrun rfl

/-- Before the first instruction no self-XOR is known. -/
theorem peepholeBlock_cons (i : Insn) (rest : List Insn) :
    peepholeBlock (i :: rest) = foldJccFrom i.makeNop ((i :: rest).map Insn.fold) := by
  have hkeep : foldJcc i.makeNop i.fold = i.fold := rfl
  rw [peepholeBlock, List.map_cons, foldOpaqueJcc, foldJccFrom, hkeep]

namespace Emulator

variable {σ : Type}

/-! ### What keeps the cache current -/

section Upkeep

variable (em : Emulator σ) (P : MemoryProvider σ) (maxInsns : Nat) (t₀ : RunState σ)

/-- The plain run from `t₀` comes to `t`, where an instruction is decoded. -/
structure AtCode (t : RunState σ) : Prop where
  reached : Loops.Reached (em.plainLoop P maxInsns) t₀ t
  budget : t.executed < maxInsns
  running : t.vm.cpu.halted = false
  noStub : ¬ em.AtStub t

/-- The instruction is the one at RIP. -/
structure Executes (i : Insn) (t : RunState σ) : Prop extends AtCode em P maxInsns t₀ t where
  decoded : decodeOne (codeBytes P t.vm.world.mem) t.vm.cpu.rip prefixFuel = some (.ok i)

/-- An invariant of the cache and the memory that keeps what is looked up current, over the plain
run from `t₀`. -/
structure Upkeep (Good : BlockCache → σ → Prop) : Prop where
  /-- A block that is not in the cache can be decoded. -/
  ends : ∀ t cache, AtCode em P maxInsns t₀ t → Good cache t.vm.world.mem →
    cache.lookup t.vm.cpu.rip = none →
      decodeBlock (codeBytes P t.vm.world.mem) t.vm.cpu.rip 1024 ≠ none
  current : ∀ t cache block, AtCode em P maxInsns t₀ t → Good cache t.vm.world.mem →
    cache.lookup t.vm.cpu.rip = some block →
      Current (codeBytes P t.vm.world.mem) t.vm.cpu.rip block
  insert : ∀ t cache block, AtCode em P maxInsns t₀ t → Good cache t.vm.world.mem →
    decodeBlock (codeBytes P t.vm.world.mem) t.vm.cpu.rip 1024 = some (.ok block) →
      Good (cache.insert t.vm.cpu.rip block) t.vm.world.mem
  execute : ∀ i t cache, Executes em P maxInsns t₀ i t → Good cache t.vm.world.mem →
    Good (em.cacheAfter i (t.vm.mapCpu Cpu.clearBranch) cache)
      (stepInsn em.fp em.attached i t.vm).world.mem
  /-- An instruction leaves the straight-line code that follows it alone. -/
  ahead : ∀ i t insns, Executes em P maxInsns t₀ i t → em.FallsThrough maxInsns i t →
    i.flags.controlFlow = false → insns ≠ [] →
    Straight (codeBytes P t.vm.world.mem) (nextRip i) insns →
      Straight (codeBytes P (stepInsn em.fp em.attached i t.vm).world.mem) (nextRip i) insns
  /-- No straight-line code runs into the stubs. -/
  outside : ∀ i t, Executes em P maxInsns t₀ i t → em.FallsThrough maxInsns i t →
    i.flags.controlFlow = false → ¬ em.AtStub (advance i (em.afterInsn i t))
  harmless : ∀ i t, Executes em P maxInsns t₀ i t → i.isFolded = true → i.Harmless t.vm.cpu
  recovery : ∀ cb, em.recovery = some cb → ∀ f vm cache, Good cache vm.world.mem →
    Good cache (cb f vm).2.world.mem
  faultHooks : ∀ h ∈ em.faultHooks, ∀ f vm cache, Good cache vm.world.mem →
    Good cache (h f vm).world.mem
  stubs : ∀ stubs, em.iatStubs = some stubs → ∀ rip vm cache, Good cache vm.world.mem →
    Good cache (stubs.dispatch em.attached rip vm).2.world.mem

end Upkeep

section Batches

variable {em : Emulator σ} {P : MemoryProvider σ} {maxInsns : Nat} {t₀ s t : RunState σ}
  {Good : BlockCache → σ → Prop}

/-- The cache of the state is kept. -/
def Kept (Good : BlockCache → σ → Prop) (s : RunState σ) : Prop := Good s.cache s.vm.world.mem

/-- The dispatcher is where the plain run is. -/
structure KeepsUp (em : Emulator σ) (P : MemoryProvider σ) (maxInsns : Nat) (t₀ : RunState σ)
    (Good : BlockCache → σ → Prop) (s t : RunState σ) : Prop where
  alike : s.Alike t
  kept : Kept Good s
  reached : Loops.Reached (em.plainLoop P maxInsns) t₀ t

/-- They end alike, and the cache is kept for the next run. -/
structure EndsAlike (Good : BlockCache → σ → Prop) (e f : RunEnd σ) : Prop where
  alike : e.Alike f
  kept : Kept Good e.state

theorem plainTurn_eq (hbudget : t.executed < maxInsns) (hrunning : t.vm.cpu.halted = false) :
    (∃ stubs, em.iatStubs = some stubs ∧ em.AtStub t ∧
      em.plainTurn P maxInsns t = some (em.stubTurn stubs t)) ∨
      (¬ em.AtStub t ∧ em.plainTurn P maxInsns t = em.insnTurn P t) := by
  rw [plainTurn, if_neg (not_le.mpr hbudget), if_neg (by simp [hrunning])]
  cases hstubs : em.iatStubs with
  | none => exact .inr ⟨fun hat => by simp [AtStub, hstubs] at hat, rfl⟩
  | some stubs =>
      by_cases hregion : IatStubs.inRegion t.vm.cpu.rip = true
      · exact .inl ⟨stubs, rfl, ⟨by simp [hstubs], hregion⟩, if_pos hregion⟩
      · exact .inr ⟨fun hat => hregion hat.2, if_neg hregion⟩

theorem AtCode.plainTurn (h : AtCode em P maxInsns t₀ t) :
    em.plainTurn P maxInsns t = em.insnTurn P t := by
  rcases plainTurn_eq h.budget h.running with ⟨_, _, hat, _⟩ | ⟨_, hturn⟩
  · exact absurd hat h.noStub
  · exact hturn

theorem Executes.plainLoop {i : Insn} (h : Executes em P maxInsns t₀ i t) :
    em.plainLoop P maxInsns t = some (em.stepOnce i t).outcome := by
  rw [Emulator.plainLoop, h.plainTurn, insnTurn, h.decoded]
  rfl

theorem stepOnce_of_fallsThrough {i : Insn} (h : em.FallsThrough maxInsns i t) :
    em.stepOnce i t = .goesOn (advance i (em.afterInsn i t)) := by
  simp [stepOnce, h.passes, h.notHalted, h.notBranched, orStop, h.notStopped]

/-! ### The invariant over a step -/

theorem kept_faultHooks {hooks : List (Fault → VmState σ → VmState σ)} {cache : BlockCache}
    (hhooks : ∀ h ∈ hooks, ∀ f vm cache, Good cache vm.world.mem → Good cache (h f vm).world.mem)
    {vm : VmState σ} (h : Good cache vm.world.mem) :
    Good cache (hooks.foldl (fun vm hook => hook vm.cpu.fault vm) vm).world.mem := by
  induction hooks generalizing vm with
  | nil => exact h
  | cons hook rest ih =>
      apply ih fun h hh => hhooks h (List.mem_cons_of_mem _ hh)
      exact hhooks hook List.mem_cons_self vm.cpu.fault vm cache h

theorem kept_report (hup : Upkeep em P maxInsns t₀ Good) (h : Kept Good s) :
    Kept Good (em.report s).state := by
  rw [report]
  split
  · exact kept_faultHooks hup.faultHooks h
  · exact h

theorem kept_orStop (h : Kept Good s) : Kept Good (em.orStop s).state := by
  rw [orStop]
  split
  · exact h
  · exact h

theorem kept_haltTurn (hup : Upkeep em P maxInsns t₀ Good) (h : Kept Good s) :
    Kept Good (em.haltTurn s).state := by
  by_cases hrecovers : ∃ cb, em.recovery = some cb ∧ s.vm.cpu.fault.isSet = true
  · obtain ⟨cb, hrecovery, hset⟩ := hrecovers
    have hafter := hup.recovery cb hrecovery s.vm.cpu.fault s.vm s.cache h
    rw [haltTurn_recovery hrecovery hset]
    split
    · exact kept_orStop hafter
    · exact kept_report hup hafter
  · have hnone (cb) (hcb : em.recovery = some cb) : s.vm.cpu.fault.isSet = false := by
      rw [← Bool.not_eq_true]
      exact fun hset => hrecovers ⟨cb, hcb, hset⟩
    rw [haltTurn_report hnone]
    exact kept_report hup h

theorem kept_stubTurn (hup : Upkeep em P maxInsns t₀ Good) {stubs : IatStubs σ}
    (hstubs : em.iatStubs = some stubs) (h : Kept Good s) :
    Kept Good (em.stubTurn stubs s).state := by
  have hafter : Kept Good (em.afterStub stubs s) := hup.stubs stubs hstubs _ s.vm s.cache h
  rw [stubTurn_eq]
  split
  · exact kept_orStop hafter
  · exact hafter

variable {prev i : Insn}

theorem KeepsUp.ready (hup : Upkeep em P maxInsns t₀ Good) (hexec : Executes em P maxInsns t₀ i t)
    (h : KeepsUp em P maxInsns t₀ Good s t) (hzero : prev.isXorSelf = true → ZeroPending s.vm.cpu) :
    Ready prev i s t := by
  have hacc := decodeOne_accepted hexec.decoded
  have hrip : i.rip = t.vm.cpu.rip := hacc.rip
  rw [← hrip] at hacc
  exact ⟨h.alike, hexec.running, hrip.symm, hacc, hup.harmless i t hexec, hzero⟩

theorem kept_afterInsn (hfair : em.Fair) (hup : Upkeep em P maxInsns t₀ Good)
    (hexec : Executes em P maxInsns t₀ i t) (h : KeepsUp em P maxInsns t₀ Good s t)
    (hready : Ready prev i s t)
    (hpasses : (t.vm.cpu.clearBranch.execBreakpointAt i.rip).1 = false) :
    Kept Good (em.afterInsn (foldJcc prev i.fold) s) := by
  obtain ⟨halike, hcache⟩ := hready.afterInsn hfair hpasses
  have hmem : s.vm.world.mem = t.vm.world.mem := congrArg World.mem h.alike.vm.world
  have hgood : Good s.cache t.vm.world.mem := hmem ▸ h.kept
  rw [Kept, hcache, halike.vm.world, vm_afterInsn hfair hready.rip hpasses]
  exact hup.execute i t s.cache hexec hgood

theorem kept_stepOnce (hfair : em.Fair) (hup : Upkeep em P maxInsns t₀ Good)
    (hexec : Executes em P maxInsns t₀ i t) (h : KeepsUp em P maxInsns t₀ Good s t)
    (hready : Ready prev i s t) : Kept Good (em.stepOnce (foldJcc prev i.fold) s).state := by
  rw [stepOnce, rip_folded, hready.passes]
  split
  · exact kept_orStop h.kept
  · rename_i hpasses
    have hafter := kept_afterInsn hfair hup hexec h hready (by simpa using hpasses)
    split
    · exact kept_haltTurn hup hafter
    · split
      · exact kept_orStop hafter
      · exact kept_orStop hafter

/-! ### The replay of a block -/

/-- What a turn comes to, caught up with by the plain loop. -/
def CaughtUp (em : Emulator σ) (P : MemoryProvider σ) (maxInsns : Nat) (t₀ : RunState σ)
    (Good : BlockCache → σ → Prop) (t : RunState σ) (x : Turn σ) : Prop :=
  Loops.CatchesUp (em.plainLoop P maxInsns) (KeepsUp em P maxInsns t₀ Good) (EndsAlike Good) t
    x.outcome

theorem Ready.fallsThrough (hfair : em.Fair) (h : Ready prev i s t)
    (hfalls : em.FallsThrough maxInsns (foldJcc prev i.fold) s) : em.FallsThrough maxInsns i t := by
  have hpasses : (t.vm.cpu.clearBranch.execBreakpointAt i.rip).1 = false := by
    rw [← h.passes, ← hfalls.passes, rip_folded]
  obtain ⟨hafter, _⟩ := h.afterInsn hfair hpasses
  refine ⟨⟨h.running, hpasses⟩, ?_, ?_, ?_, ?_⟩
  · rw [← hafter.vm.cpu.same.halted, hfalls.notHalted]
  · rw [← hafter.vm.cpu.same.branchTaken, hfalls.notBranched]
  · have hstop := hfalls.notStopped
    rw [advance, rip_folded, len_folded] at hstop
    exact hstop
  · rw [← hafter.executed]
    exact hfalls.budget

/-- One turn of the plain loop catches up with a step of the block. -/
theorem caughtUp_stepOnce (hfair : em.Fair) (hup : Upkeep em P maxInsns t₀ Good)
    (hexec : Executes em P maxInsns t₀ i t) (h : KeepsUp em P maxInsns t₀ Good s t)
    (hready : Ready prev i s t) :
    CaughtUp em P maxInsns t₀ Good t (em.stepOnce (foldJcc prev i.fold) s) := by
  have hkept := kept_stepOnce hfair hup hexec h hready
  have hturn := hexec.plainLoop
  have halike := hready.stepOnce hfair
  generalize em.stepOnce (foldJcc prev i.fold) s = x at hkept halike ⊢
  generalize em.stepOnce i t = y at hturn halike
  cases halike with
  | ends he => exact ⟨_, ⟨0, Loops.endsIn_zero hturn⟩, he, hkept⟩
  | goesOn hs => exact ⟨0, _, .one hturn, hs, hkept, h.reached.turn hturn⟩

/-- Where the replay goes on, the plain run comes to the next instruction. -/
theorem Executes.next (hup : Upkeep em P maxInsns t₀ Good)
    (hexec : Executes em P maxInsns t₀ i t) (hfalls : em.FallsThrough maxInsns i t)
    (hplain : i.flags.controlFlow = false) :
    AtCode em P maxInsns t₀ (advance i (em.afterInsn i t)) := by
  have hturn := hexec.plainLoop
  rw [stepOnce_of_fallsThrough hfalls] at hturn
  exact ⟨hexec.reached.turn hturn, hfalls.budget, hfalls.notHalted,
    hup.outside i t hexec hfalls hplain⟩

/-- The replay of straight-line code from `t`, by induction on what is left of the block. -/
theorem caughtUp_replayBlock (hfair : em.Fair) (hup : Upkeep em P maxInsns t₀ Good)
    {rest : List Insn} (hat : AtCode em P maxInsns t₀ t)
    (hcode : Straight (codeBytes P t.vm.world.mem) t.vm.cpu.rip (i :: rest))
    (h : KeepsUp em P maxInsns t₀ Good s t) (hzero : prev.isXorSelf = true → ZeroPending s.vm.cpu) :
    CaughtUp em P maxInsns t₀ Good t
      (em.ofExit (em.replayBlock maxInsns (foldJccFrom prev ((i :: rest).map Insn.fold)) s)) := by
  induction rest generalizing i prev s t with
  | nil =>
      have hexec : Executes em P maxInsns t₀ i t := ⟨hat, hcode.1⟩
      have hready := h.ready hup hexec hzero
      have hstep := caughtUp_stepOnce hfair hup hexec h hready
      rw [List.map_cons, List.map_nil, foldJccFrom, foldJccFrom]
      rcases ofExit_replayBlock em maxInsns (foldJcc prev i.fold) [] hready.running' with
        ⟨_, hreplay, honce⟩ | hexit
      · rw [hreplay]
        rw [honce] at hstep
        exact hstep
      · rw [hexit]
        exact hstep
  | cons j rest ih =>
      have hexec : Executes em P maxInsns t₀ i t := ⟨hat, hcode.1⟩
      have hready := h.ready hup hexec hzero
      have hstep := caughtUp_stepOnce hfair hup hexec h hready
      rw [List.map_cons, foldJccFrom]
      rcases ofExit_replayBlock em maxInsns (foldJcc prev i.fold)
          (foldJccFrom (foldJcc prev i.fold) ((j :: rest).map Insn.fold)) hready.running' with
        ⟨hfalls', hreplay, honce⟩ | hexit
      · -- the block goes on with `j`, and the plain run has come to it
        have hfalls := hready.fallsThrough hfair hfalls'
        have hplain : i.flags.controlFlow = false := hcode.2.1 (List.cons_ne_nil _ _)
        have hnext := hexec.next hup hfalls hplain
        obtain ⟨hafter, _⟩ := hready.afterInsn hfair hfalls.passes
        have hkept := kept_afterInsn hfair hup hexec h hready hfalls.passes
        have hahead := hcode.2.2
        rw [← hready.rip.symm] at hahead
        have hcode' := hup.ahead i t (j :: rest) hexec hfalls hplain (List.cons_ne_nil _ _) hahead
        rw [← vm_afterInsn hfair hready.rip hfalls.passes] at hcode'
        have halike : (advance (foldJcc prev i.fold) (em.afterInsn (foldJcc prev i.fold) s)).Alike
            (advance i (em.afterInsn i t)) := by
          have hadvance := alike_advance i hafter
          rw [advance, rip_folded, len_folded]
          exact hadvance
        have hpending : (foldJcc prev i.fold).isXorSelf = true →
            ZeroPending (advance (foldJcc prev i.fold)
              (em.afterInsn (foldJcc prev i.fold) s)).vm.cpu := by
          intro hxor
          have hrip : s.vm.cpu.rip = (foldJcc prev i.fold).rip := by
            rw [rip_folded, hready.alike.vm.cpu.same.rip, hready.rip]
          have hzero' : ZeroPending
              (stepInsn em.fp em.attached (foldJcc prev i.fold) s.vm).cpu :=
            zeroPending_folded hready.accepted hxor
          rw [← vm_afterInsn hfair hrip hfalls'.passes] at hzero'
          exact hzero'
        have hturn := hexec.plainLoop
        rw [stepOnce_of_fallsThrough hfalls] at hturn
        rw [hreplay]
        exact (ih hnext hcode' ⟨halike, hkept, hnext.reached⟩ hpending).turn hturn
      · rw [hexit]
        exact hstep

/-! ### Turns -/

/-- What is fetched is the code at RIP. -/
theorem KeepsUp.fetched (hfair : em.Fair) (hup : Upkeep em P maxInsns t₀ Good)
    (hat : AtCode em P maxInsns t₀ t) (h : KeepsUp em P maxInsns t₀ Good s t) :
    (∃ e, em.fetchBlock P s.vm.cpu.rip s = some (.error e, s) ∧
      decodeBlock (codeBytes P t.vm.world.mem) t.vm.cpu.rip 1024 = some (.error e)) ∨
    ∃ block s', em.fetchBlock P s.vm.cpu.rip s = some (.ok block, s') ∧ s'.vm = s.vm ∧
      Current (codeBytes P t.vm.world.mem) t.vm.cpu.rip block ∧
        KeepsUp em P maxInsns t₀ Good s' t := by
  have hmem : s.vm.world.mem = t.vm.world.mem := congrArg World.mem h.alike.vm.world
  have hgood : Good s.cache t.vm.world.mem := hmem ▸ h.kept
  rw [h.alike.vm.cpu.same.rip]
  unfold fetchBlock
  split
  · rename_i block hlookup
    exact .inr ⟨block, s, rfl, rfl, hup.current t s.cache block hat hgood hlookup, h⟩
  · rename_i hlookup
    obtain ⟨r, hr⟩ := Option.ne_none_iff_exists'.mp (hup.ends t s.cache hat hgood hlookup)
    rw [hmem, hr, Option.map_some]
    have hworld : ({ s.vm.world with
        mem := em.fetched t.vm.cpu.rip t.vm.world.mem } : World σ) = s.vm.world := by
      rw [hfair.fetched, ← hmem]
    simp only [hworld]
    cases r with
    | error e => exact .inl ⟨e, rfl, rfl⟩
    | ok block =>
        have hkept := hup.insert t s.cache block hat hgood hr
        rw [← hmem] at hkept
        refine .inr ⟨block, _, rfl, rfl, current_decodeBlock hr, ?_⟩
        exact ⟨⟨h.alike.vm, h.alike.executed, h.alike.dispatched⟩, hkept, h.reached⟩

theorem decodeOne_of_error {mem : CodeBytes} {pc : GuestAddr} {n : Nat} {e : Status}
    (h : decodeBlock mem pc (n + 1) = some (.error e)) :
    decodeOne mem pc prefixFuel = some (.error e) := by
  rw [decodeBlock, decodeBlockWith, Option.map_eq_some_iff] at h
  obtain ⟨⟨insns, st⟩, hrun, hblock⟩ := h
  rw [decodeRun] at hrun
  cases hd : decodeOne mem pc prefixFuel with
  | none => rw [hd] at hrun; cases hrun
  | some r =>
      rw [hd] at hrun
      cases r with
      | error e' =>
          cases hrun
          cases hblock
          rfl
      | ok i =>
          simp only at hrun
          split at hrun
          · cases hrun
            cases hblock
          · obtain ⟨⟨rest, st'⟩, _, hcons⟩ := Option.map_eq_some_iff.mp hrun
            cases hcons
            cases hblock

theorem KeepsUp.blockTurn (hfair : em.Fair) (hup : Upkeep em P maxInsns t₀ Good)
    (hat : AtCode em P maxInsns t₀ t) (h : KeepsUp em P maxInsns t₀ Good s t) :
    ∃ x, em.blockTurn P maxInsns s = some x ∧ CaughtUp em P maxInsns t₀ Good t x := by
  rcases h.fetched hfair hup hat with ⟨e, hfetch, herror⟩ | ⟨block, s', hfetch, hvm, hcurrent, h'⟩
  · refine ⟨em.afterFetch maxInsns s (.error e, s), by rw [blockTurn_eq, hfetch]; rfl, ?_⟩
    have hturn : em.plainLoop P maxInsns t = some (.inr
        { result := { t.resultWith e with finalRip := t.vm.cpu.rip }, state := t }) := by
      rw [Emulator.plainLoop, hat.plainTurn, insnTurn, decodeOne_of_error herror]
      rfl
    refine ⟨_, ⟨0, Loops.endsIn_zero hturn⟩, ⟨?_, rfl, h.alike⟩, h.kept⟩
    rw [h.alike.vm.cpu.same.rip, alike_resultWith h.alike]
  · refine ⟨em.afterFetch maxInsns s (.ok block, s'), by rw [blockTurn_eq, hfetch]; rfl, ?_⟩
    obtain ⟨insns, hne, hinsns, hcode⟩ := hcurrent
    have hfire : ((em.atBlock s block s').vm) = s'.vm := by
      simp [atBlock, RunState.act, fireBlock, hfair.blockHooks]
    have hblock : KeepsUp em P maxInsns t₀ Good (em.atBlock s block s') t := by
      refine ⟨⟨?_, h'.alike.executed, h'.alike.dispatched⟩, ?_, h'.reached⟩
      · rw [hfire]
        exact h'.alike.vm
      · rw [Kept, hfire]
        exact h'.kept
    cases insns with
    | nil => exact absurd rfl hne
    | cons i rest =>
        simp only [afterFetch, hinsns]
        rw [peepholeBlock_cons]
        apply caughtUp_replayBlock hfair hup hat hcode hblock
        exact fun hxor => absurd hxor Bool.false_ne_true

theorem loop_batches (hfair : em.Fair) (hup : Upkeep em P maxInsns t₀ Good) :
    Loops.Batches (em.loop P maxInsns) (em.plainLoop P maxInsns) (KeepsUp em P maxInsns t₀ Good)
      (EndsAlike Good) := by
  have hturn (s t : RunState σ) (h : KeepsUp em P maxInsns t₀ Good s t) :
      ∃ x, em.turn P maxInsns s = some x ∧ CaughtUp em P maxInsns t₀ Good t x := by
    have hfinish (hplain : em.plainTurn P maxInsns t = some (.ends t.finish)) :
        CaughtUp em P maxInsns t₀ Good t (.ends s.finish) := by
      have hloop : em.plainLoop P maxInsns t = some (.inr t.finish) := by
        rw [Emulator.plainLoop, hplain]
        rfl
      exact ⟨_, ⟨0, Loops.endsIn_zero hloop⟩, alike_finish h.alike, h.kept⟩
    by_cases hbudget : t.executed < maxInsns
    · have hbudget' : s.executed < maxInsns := h.alike.executed.trans_lt hbudget
      cases hhalted : t.vm.cpu.halted with
      | true =>
          have hhalted' := h.alike.vm.cpu.same.halted.trans hhalted
          refine ⟨.ends s.finish, ?_, hfinish ?_⟩
          · rw [turn, if_neg (not_le.mpr hbudget'), if_pos hhalted']
          · rw [plainTurn, if_neg (not_le.mpr hbudget), if_pos hhalted]
      | false =>
          have hhalted' := h.alike.vm.cpu.same.halted.trans hhalted
          have hregion : em.AtStub s ↔ em.AtStub t := by
            rw [AtStub, AtStub, h.alike.vm.cpu.same.rip]
          rcases turn_eq em P hbudget' hhalted' with ⟨stubs, hstubs, hat, heq⟩ | ⟨hat, heq⟩
          · rw [heq]
            refine ⟨_, rfl, ?_⟩
            have hkept := kept_stubTurn hup hstubs h.kept
            have halike := alike_stubTurn hfair hstubs h.alike
            have hloop : em.plainLoop P maxInsns t = some (em.stubTurn stubs t).outcome := by
              rcases plainTurn_eq (P := P) hbudget hhalted with
                ⟨stubs', hstubs', _, heq'⟩ | ⟨hnot, _⟩
              · rw [hstubs] at hstubs'
                cases hstubs'
                rw [Emulator.plainLoop, heq']
                rfl
              · exact absurd (hregion.mp hat) hnot
            generalize em.stubTurn stubs s = x at hkept halike ⊢
            generalize em.stubTurn stubs t = y at hloop halike
            cases halike with
            | ends he => exact ⟨_, ⟨0, Loops.endsIn_zero hloop⟩, he, hkept⟩
            | goesOn hs => exact ⟨0, _, .one hloop, hs, hkept, h.reached.turn hloop⟩
          · rw [heq]
            exact h.blockTurn hfair hup
              ⟨h.reached, hbudget, hhalted, fun hat' => hat (hregion.mpr hat')⟩
    · have hbudget' : maxInsns ≤ s.executed := h.alike.executed ▸ not_lt.mp hbudget
      refine ⟨.ends s.finish, ?_, hfinish ?_⟩
      · rw [turn, if_pos hbudget']
      · rw [plainTurn, if_pos (not_lt.mp hbudget)]
  constructor
  · intro s t h _
    obtain ⟨x, hx, _⟩ := hturn s t h
    rw [Emulator.loop, hx]
    exact Option.some_ne_none _
  · intro s t x h hx
    obtain ⟨x', hx', hcaught⟩ := hturn s t h
    rw [Emulator.loop, hx'] at hx
    cases hx
    exact hcaught

end Batches

end Emulator

end PicoCpu
