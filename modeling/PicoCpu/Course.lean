import PicoCpu.BoundedRuns

/-!
The course of a run. The replay of a block comes to one instruction after the other, and ends at
one of them in one of a few ways; a turn of the loop ends or goes on in one of a few ways. What
is to hold at every point of a run, or at its end, is shown by cases on these.
-/

namespace PicoCpu

namespace Emulator

variable {σ : Type}

/-! ### The points of a block -/

section Points

variable (em : Emulator σ)

/-- The state the handler of an instruction is called in. -/
def atHandler (i : Insn) (s : RunState σ) : RunState σ :=
  em.announce i
    { s with vm := { s.vm with cpu := (s.vm.cpu.clearBranch.execBreakpointAt i.rip).2 } }

def afterInsn (i : Insn) (s : RunState σ) : RunState σ :=
  em.execute i (em.atHandler i s)

/-- At `s` the handler of the instruction is called. -/
structure Calls (i : Insn) (s : RunState σ) : Prop where
  running : s.vm.cpu.halted = false
  passes : (s.vm.cpu.clearBranch.execBreakpointAt i.rip).1 = false

/-- The replay goes on with the next instruction of the block. -/
structure FallsThrough (maxInsns : Nat) (i : Insn) (s : RunState σ) : Prop
    extends Calls i s where
  notHalted : (em.afterInsn i s).vm.cpu.halted = false
  notBranched : (em.afterInsn i s).vm.cpu.branchTaken = false
  notStopped : em.isStop (advance i (em.afterInsn i s)).vm.cpu.rip = false
  budget : (em.afterInsn i s).executed < maxInsns

/-- The replay of `insns` from `s` comes to the head of its loop with `rest` left, in `s'`. -/
inductive Replays (maxInsns : Nat) (insns : List Insn) (s : RunState σ) :
    List Insn → RunState σ → Prop
  | start : Replays maxInsns insns s insns s
  | next {i : Insn} {rest : List Insn} {s' : RunState σ}
      (h : Replays maxInsns insns s (i :: rest) s') (hfalls : em.FallsThrough maxInsns i s') :
      Replays maxInsns insns s rest (advance i (em.afterInsn i s'))

/-- How the replay of a block ends, and at which of its points. -/
inductive Exits (maxInsns : Nat) (insns : List Insn) (s : RunState σ) : BlockExit σ → Prop
  | finished {s' : RunState σ} (h : em.Replays maxInsns insns s [] s') :
      Exits maxInsns insns s (.left false s')
  | halted {i : Insn} {rest : List Insn} {s' : RunState σ}
      (h : em.Replays maxInsns insns s (i :: rest) s') (hhalted : s'.vm.cpu.halted = true) :
      Exits maxInsns insns s (.left true s')
  | breakpoint {i : Insn} {rest : List Insn} {s' : RunState σ}
      (h : em.Replays maxInsns insns s (i :: rest) s') (hrunning : s'.vm.cpu.halted = false)
      (hhit : (s'.vm.cpu.clearBranch.execBreakpointAt i.rip).1 = true) :
      Exits maxInsns insns s
        (.left true (breakpointHit i (s'.vm.cpu.clearBranch.execBreakpointAt i.rip).2 s'))
  | handler {i : Insn} {rest : List Insn} {s' : RunState σ} {x : BlockExit σ}
      (h : em.Replays maxInsns insns s (i :: rest) s') (hcalls : Calls i s')
      (hhalted : (em.afterInsn i s').vm.cpu.halted = true)
      (hx : em.handlerHalted (em.afterInsn i s') = x) : Exits maxInsns insns s x
  | branched {i : Insn} {rest : List Insn} {s' : RunState σ}
      (h : em.Replays maxInsns insns s (i :: rest) s') (hcalls : Calls i s')
      (hrunning : (em.afterInsn i s').vm.cpu.halted = false) :
      Exits maxInsns insns s (.left true (em.afterInsn i s'))
  | stopped {i : Insn} {rest : List Insn} {s' : RunState σ}
      (h : em.Replays maxInsns insns s (i :: rest) s') (hcalls : Calls i s')
      (hrunning : (em.afterInsn i s').vm.cpu.halted = false) :
      Exits maxInsns insns s (.returned (advance i (em.afterInsn i s')).finish)
  | spent {i : Insn} {rest : List Insn} {s' : RunState σ}
      (h : em.Replays maxInsns insns s (i :: rest) s') (hcalls : Calls i s')
      (hrunning : (em.afterInsn i s').vm.cpu.halted = false) :
      Exits maxInsns insns s (.left true (advance i (em.afterInsn i s')))

variable {em}

/-- From any point of a block on, the replay ends so. -/
theorem Replays.exits {maxInsns : Nat} {insns rest : List Insn} {s s' : RunState σ}
    (h : em.Replays maxInsns insns s rest s') :
    em.Exits maxInsns insns s (em.replayBlock maxInsns rest s') := by
  induction rest generalizing s' with
  | nil => exact .finished h
  | cons i rest ih =>
      rw [replayBlock]
      split
      · exact .halted h ‹_›
      · rename_i hrunning
        have hrunning := Bool.not_eq_true _ ▸ hrunning
        split
        · rename_i c hhit
          have hexit := Exits.breakpoint h hrunning (congrArg Prod.fst hhit)
          rw [hhit] at hexit
          exact hexit
        · rename_i c hpasses
          have hcalls : Calls i s' := ⟨hrunning, congrArg Prod.fst hpasses⟩
          have hafter : em.execute i (em.announce i { s' with vm := { s'.vm with cpu := c } }) =
              em.afterInsn i s' := by
            rw [afterInsn, atHandler, hpasses]
          simp only [hafter]
          split
          · exact .handler h hcalls ‹_› rfl
          · rename_i hgoes
            have hgoes := Bool.not_eq_true _ ▸ hgoes
            split
            · exact .branched h hcalls hgoes
            · rename_i hbranch
              split
              · exact .stopped h hcalls hgoes
              · rename_i hstop
                split
                · exact .spent h hcalls hgoes
                · rename_i hleft
                  apply ih
                  apply h.next
                  exact ⟨hcalls, hgoes, Bool.not_eq_true _ ▸ hbranch,
                    Bool.not_eq_true _ ▸ hstop, not_le.mp hleft⟩

/-- What is left of a block is its end. -/
theorem Replays.suffix {maxInsns : Nat} {insns rest : List Insn} {s s' : RunState σ}
    (h : em.Replays maxInsns insns s rest s') : rest <:+ insns := by
  induction h with
  | start => exact List.suffix_refl _
  | next h hfalls ih => exact (List.suffix_cons _ _).trans ih

/-- The replay of a block ends at one of its points. -/
theorem exits_replayBlock (em : Emulator σ) (maxInsns : Nat) (insns : List Insn)
    (s : RunState σ) : em.Exits maxInsns insns s (em.replayBlock maxInsns insns s) :=
  Replays.exits .start

end Points

/-! ### The points of a run -/

section Turns

variable (em : Emulator σ) (P : MemoryProvider σ) (maxInsns : Nat)

/-- In the state `s` the loop fetches a block, which leaves `s'`. -/
structure Fetches (s : RunState σ) (r : Except Status DecodedBlock) (s' : RunState σ) : Prop where
  budget : s.executed < maxInsns
  running : s.vm.cpu.halted = false
  noStub : ¬ em.AtStub s
  fetched : em.fetchBlock P s.vm.cpu.rip s = some (r, s')

/-- The `Block` hooks have been called, and the replay begins. -/
def atBlock (s : RunState σ) (block : DecodedBlock) (s' : RunState σ) : RunState σ :=
  s'.act (em.fireBlock s.vm.cpu.rip block.byteSize)

/-- How a turn ends the run, or goes on. -/
inductive Turns (s : RunState σ) : Turn σ → Prop
  | spent (hspent : maxInsns ≤ s.executed) : Turns s (.ends s.finish)
  | halted (hhalted : s.vm.cpu.halted = true) : Turns s (.ends s.finish)
  | stub {stubs : IatStubs σ} {t : Turn σ} (hstubs : em.iatStubs = some stubs)
      (hat : em.AtStub s) (hbudget : s.executed < maxInsns) (hrunning : s.vm.cpu.halted = false)
      (ht : em.stubTurn stubs s = t) : Turns s t
  | undecoded {status : Status} {s' : RunState σ}
      (hfetches : em.Fetches P maxInsns s (.error status) s') :
      Turns s (.ends { result := { s.resultWith status with finalRip := s.vm.cpu.rip }
                       state := s' })
  | returned {block : DecodedBlock} {s' : RunState σ} {e : RunEnd σ}
      (hfetches : em.Fetches P maxInsns s (.ok block) s')
      (hexits : em.Exits maxInsns block.insns (em.atBlock s block s') (.returned e)) :
      Turns s (.ends e)
  | stopped {block : DecodedBlock} {s' s'' : RunState σ}
      (hfetches : em.Fetches P maxInsns s (.ok block) s')
      (hexits : em.Exits maxInsns block.insns (em.atBlock s block s') (.left true s''))
      (hstop : em.isStop s''.vm.cpu.rip = true) : Turns s (.ends s''.finish)
  | left {block : DecodedBlock} {s' s'' : RunState σ} {branchOrHalt : Bool}
      (hfetches : em.Fetches P maxInsns s (.ok block) s')
      (hexits : em.Exits maxInsns block.insns (em.atBlock s block s') (.left branchOrHalt s'')) :
      Turns s (.goesOn s'')

variable {em P maxInsns} {s : RunState σ}

theorem turns_of_blockTurn {t : Turn σ} (hbudget : s.executed < maxInsns)
    (hrunning : s.vm.cpu.halted = false) (hat : ¬ em.AtStub s)
    (h : em.blockTurn P maxInsns s = some t) : em.Turns P maxInsns s t := by
  obtain ⟨⟨r, s'⟩, hfetch, ht⟩ := Option.map_eq_some_iff.mp h
  have hfetches : em.Fetches P maxInsns s r s' := ⟨hbudget, hrunning, hat, hfetch⟩
  cases r with
  | error status =>
      cases ht
      exact .undecoded hfetches
  | ok block =>
      have hexits := exits_replayBlock em maxInsns block.insns (em.atBlock s block s')
      simp only at ht
      rw [atBlock] at hexits
      cases hexit : em.replayBlock maxInsns block.insns
          (s'.act (em.fireBlock s.vm.cpu.rip block.byteSize)) with
      | returned e =>
          rw [hexit] at ht hexits
          cases ht
          exact .returned hfetches hexits
      | left b s'' =>
          rw [hexit] at ht hexits
          simp only at ht
          split at ht
          · rename_i hstop
            rw [Bool.and_eq_true] at hstop
            cases ht
            rw [hstop.1] at hexits
            exact .stopped hfetches hexits hstop.2
          · cases ht
            exact .left hfetches hexits

theorem turns_of_turn {t : Turn σ} (h : em.turn P maxInsns s = some t) :
    em.Turns P maxInsns s t := by
  by_cases hbudget : s.executed < maxInsns
  · cases hhalted : s.vm.cpu.halted with
    | true =>
        rw [turn, if_neg (not_le.mpr hbudget), if_pos hhalted] at h
        cases h
        exact .halted hhalted
    | false =>
        rcases turn_eq em P hbudget hhalted with
          ⟨stubs, hstubs, hat, hturn⟩ | ⟨hat, hturn⟩
        · rw [hturn] at h
          cases h
          exact .stub hstubs hat hbudget hhalted rfl
        · rw [hturn] at h
          exact turns_of_blockTurn hbudget hhalted hat h
  · rw [turn, if_pos (not_lt.mp hbudget)] at h
    cases h
    exact .spent (not_lt.mp hbudget)

/-- A run ends in one of its turns. -/
theorem ends_of_turns {s₀ : RunState σ} {fuel : Nat} {e : RunEnd σ}
    (hreach : em.Reaches P maxInsns s₀ s) (h : em.turns P maxInsns fuel s = some e) :
    ∃ s', em.Reaches P maxInsns s₀ s' ∧ em.Turns P maxInsns s' (.ends e) := by
  induction fuel generalizing s with
  | zero => cases h
  | succ fuel ih =>
      rw [turns] at h
      cases hturn : em.turn P maxInsns s with
      | none =>
          rw [hturn] at h
          cases h
      | some t =>
          have hturns := turns_of_turn hturn
          rw [hturn] at h
          cases t with
          | ends e' =>
              cases h
              exact ⟨s, hreach, hturns⟩
          | goesOn s' => exact ih (hreach.turn hturn) h

end Turns

/-! ### What is fetched -/

section Fetched

variable {em : Emulator σ} {P : MemoryProvider σ} {maxInsns : Nat} {s s' s₀ : RunState σ}

/-- Fetching a block leaves the CPU and what is known of its latch alone. -/
theorem Fetches.keeps {r : Except Status DecodedBlock} (h : em.Fetches P maxInsns s r s') :
    s'.vm.cpu = s.vm.cpu ∧ s'.latched = s.latched := by
  have hfetched := h.fetched
  unfold fetchBlock at hfetched
  split at hfetched
  · cases hfetched
    exact ⟨rfl, rfl⟩
  · obtain ⟨r', _, hr⟩ := Option.map_eq_some_iff.mp hfetched
    cases r' with
    | error e =>
        cases hr
        exact ⟨rfl, rfl⟩
    | ok block =>
        cases hr
        exact ⟨rfl, rfl⟩

/-- The block has been decoded at the address of the turn. -/
theorem Fetches.decodes {block : DecodedBlock} (hcache : s.cache.Decoded)
    (h : em.Fetches P maxInsns s (.ok block) s') :
    ∃ mem, decodeBlock mem s.vm.cpu.rip 1024 = some (.ok block) := by
  have hfetched := h.fetched
  unfold fetchBlock at hfetched
  split at hfetched
  · rename_i b hlookup
    cases hfetched
    exact hcache _ _ hlookup
  · obtain ⟨r', hdecode, hr⟩ := Option.map_eq_some_iff.mp hfetched
    cases r' with
    | error e => cases hr
    | ok b =>
        cases hr
        exact ⟨_, hdecode⟩

theorem Reaches.decoded (hcache : s₀.cache.Decoded) (h : em.Reaches P maxInsns s₀ s) :
    s.cache.Decoded := by
  induction h with
  | start => exact hcache
  | turn h hturn ih => exact decoded_turn ih hturn

end Fetched

/-- The run from `s₀` comes to the instruction `i` of a block, in the state `s`. -/
def Comes (em : Emulator σ) (P : MemoryProvider σ) (maxInsns : Nat) (s₀ : RunState σ) (i : Insn)
    (s : RunState σ) : Prop :=
  ∃ head block s' rest, em.Reaches P maxInsns s₀ head ∧ em.Fetches P maxInsns head (.ok block) s' ∧
    em.Replays maxInsns block.insns (em.atBlock head block s') (i :: rest) s

/-! ### A run of one instruction -/

theorem hlt_length : ([0xF4] : List U8).length < 2 ^ 64 := by
  decide

/-- `HLT` at 0x1000. -/
def hltMemory : FakeMemory where
  regions := [{ base := 0x1000, bytes := [0xF4], length_lt := hlt_length }]
  disjoint := List.pairwise_singleton _ _

def plain : Emulator FakeMemory where
  fp := default
  attached := { memRead := some FakeMemory.provider, memWrite := none }

def hltStart : RunState FakeMemory := enter ⟨{}, { mem := hltMemory }⟩ (fun _ => none) 0x1000

theorem hlt_reaches {s : RunState FakeMemory}
    (h : plain.Reaches FakeMemory.provider 1 hltStart s) : s = hltStart := by
  have hends : ((plain.turn FakeMemory.provider 1 hltStart).bind Turn.next).isNone = true := by
    decide +kernel
  induction h with
  | start => rfl
  | turn h hturn ih =>
      rw [ih] at hturn
      rw [hturn] at hends
      cases hends

theorem hlt_fetches {r : Except Status DecodedBlock} {s' : RunState FakeMemory}
    (h : plain.Fetches FakeMemory.provider 1 hltStart r s') :
    ∃ block i, r = .ok block ∧ block.insns = [i] ∧ i.handler = .opHlt := by
  have hone : (decodeBlock (codeBytes FakeMemory.provider hltMemory) 0x1000 1024).any (fun r =>
      r.toOption.any fun block => block.insns.map Insn.handler == [.opHlt]) = true := by
    decide +kernel
  have hfetched := h.fetched
  unfold fetchBlock at hfetched
  split at hfetched
  · rename_i hlookup
    cases hlookup
  · obtain ⟨r', hdecode, hr⟩ := Option.map_eq_some_iff.mp hfetched
    have hdecode : decodeBlock (codeBytes FakeMemory.provider hltMemory) 0x1000 1024 = some r' :=
      hdecode
    rw [hdecode, Option.any_some] at hone
    cases r' with
    | error e => cases hone
    | ok block =>
        cases hr
        obtain ⟨i, hi, hhandler⟩ := List.map_eq_singleton_iff.mp (beq_iff_eq.mp hone)
        exact ⟨block, i, rfl, hi, hhandler⟩

/-- The one point of the run. -/
theorem hlt_comes {i : Insn} {s : RunState FakeMemory}
    (h : plain.Comes FakeMemory.provider 1 hltStart i s) :
    s.vm.cpu = hltStart.vm.cpu ∧ i.handler = .opHlt := by
  obtain ⟨head, block, s', rest, hreach, hfetches, hreplays⟩ := h
  obtain rfl := hlt_reaches hreach
  obtain ⟨_, i₀, hblock, hinsns, hhandler⟩ := hlt_fetches hfetches
  cases hblock
  have hcpu : (plain.atBlock hltStart block s').vm.cpu = hltStart.vm.cpu := hfetches.keeps.1
  rw [hinsns] at hreplays
  cases hreplays with
  | start => exact ⟨hcpu, hhandler⟩
  | next h hfalls =>
      have hle := h.suffix.length_le
      rw [List.length_cons, List.length_cons, List.length_singleton] at hle
      omega

end Emulator

end PicoCpu
