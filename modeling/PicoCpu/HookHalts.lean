import PicoCpu.PreciseFaults

/-!
A hook that calls `Cpu::halt`. The replay of a block looks at the halt flag once, before the
breakpoints and the `Code` and `Insn` hooks, and the operand helpers do not look at it at all:
only a `Block` hook stops a run before the instruction it was called for.
-/

namespace PicoCpu

open H Proc

/-! ### Operand accesses -/

namespace Attached

variable {σ : Type} (at_ : Attached σ)

/-- A `MemRead` hook that halts the CPU ends the operand access it was called for. -/
def AbortsReads : Prop :=
  ∀ (insn : Insn) (op : Operand) (size : Nat) (c : Cpu) (w : World σ),
    op.isMem = true → at_.memRead.isSome = true → c.halted = false →
      (c.dataBreakpointAt (ea c insn op) false size).1 = false →
      (runMemHooks at_.readHooks (ea c insn op) size 0 false c).halted = true →
        ((readOperand insn op size).run at_.env c w).value =
          (none, runMemHooks at_.readHooks (ea c insn op) size 0 false c) ∧
        ((readOperand insn op size).run at_.env c w).world = w

/-- A `MemWrite` hook that halts the CPU ends the operand access it was called for. -/
def AbortsWrites : Prop :=
  ∀ (insn : Insn) (op : Operand) (size : Nat) (value : U64) (c : Cpu) (w : World σ),
    op.isMem = true → at_.memWrite.isSome = true → c.halted = false →
      (c.dataBreakpointAt (ea c insn op) true size).1 = false →
      (runMemHooks at_.writeHooks (ea c insn op) size value true c).halted = true →
        ((writeOperand insn op size value).run at_.env c w).value =
          (none, runMemHooks at_.writeHooks (ea c insn op) size value true c) ∧
        ((writeOperand insn op size value).run at_.env c w).world = w

/-- The memory hooks leave the CPU running. -/
structure HooksRun : Prop where
  read : ∀ h ∈ at_.readHooks, ∀ (addr : GuestAddr) (size : Nat) (value : U64) (isWrite : Bool)
    (c : Cpu), c.halted = false → (h.callback addr size value isWrite c).halted = false
  write : ∀ h ∈ at_.writeHooks, ∀ (addr : GuestAddr) (size : Nat) (value : U64) (isWrite : Bool)
    (c : Cpu), c.halted = false → (h.callback addr size value isWrite c).halted = false

end Attached

theorem running_runMemHooks {hooks : List MemHook} {addr : GuestAddr} {size : Nat} {value : U64}
    {isWrite : Bool} (hhooks : ∀ h ∈ hooks, ∀ (addr : GuestAddr) (size : Nat) (value : U64)
      (isWrite : Bool) (c : Cpu), c.halted = false →
        (h.callback addr size value isWrite c).halted = false)
    {c : Cpu} (hc : c.halted = false) :
    (runMemHooks hooks addr size value isWrite c).halted = false := by
  unfold runMemHooks
  induction hooks generalizing c with
  | nil => exact hc
  | cons h rest ih =>
      rw [List.foldl_cons]
      apply ih
      · exact fun h' hh' => hhooks h' (List.mem_cons_of_mem _ hh')
      · split
        · exact hhooks h (List.mem_cons_self ..) _ _ _ _ _ hc
        · exact hc

namespace Emulator

variable {σ : Type} {em : Emulator σ} {P : MemoryProvider σ} {maxInsns : Nat}
  {s s' s₀ : RunState σ}

/-! ### What is to hold -/

/-- The run has ended as the state was. -/
structure Stands (e : RunEnd σ) (s : RunState σ) : Prop where
  vm : e.state.vm = s.vm
  finalRip : e.result.finalRip = s.vm.cpu.rip

/-- A hook that halts the CPU stops the run before the effect that it was called for: a `Block`
hook before the block, a `Code` or `Insn` hook before the handler, a memory hook before the
access. -/
structure HaltsBefore (em : Emulator σ) (P : MemoryProvider σ) (maxInsns : Nat)
    (s₀ : RunState σ) : Prop where
  block : ∀ head block s', em.Reaches P maxInsns s₀ head →
    em.Fetches P maxInsns head (.ok block) s' →
    (em.atBlock head block s').vm.cpu.halted = true → ∀ fuel e,
      em.turns P maxInsns fuel s₀ = some e →
        Stands e (em.atBlock head block s') ∧
          ((em.atBlock head block s').vm.cpu.rip = head.vm.cpu.rip →
            ∀ i ∈ block.insns.head?, e.result.finalRip = i.rip)
  insn : ∀ i s, em.Comes P maxInsns s₀ i s → Calls i s →
    (em.atHandler i s).vm.cpu.halted = true → ∀ fuel e,
      em.turns P maxInsns fuel s₀ = some e → Stands e (em.atHandler i s)
  reads : em.attached.AbortsReads
  writes : em.attached.AbortsWrites

/-- Only `Block` hooks halt the CPU. -/
structure OnlyBlocksHalt (em : Emulator σ) (P : MemoryProvider σ) (maxInsns : Nat)
    (s₀ : RunState σ) : Prop where
  insn : ∀ i s, em.Comes P maxInsns s₀ i s → Calls i s →
    (em.atHandler i s).vm.cpu.halted = false
  mem : em.attached.HooksRun

/-! ### A halted run -/

/-- A run goes on from the states it comes to. -/
theorem Reaches.turns {fuel : Nat} {e : RunEnd σ} (hreach : em.Reaches P maxInsns s₀ s)
    (h : em.turns P maxInsns fuel s₀ = some e) :
    ∃ fuel', em.turns P maxInsns fuel' s = some e := by
  induction hreach with
  | start => exact ⟨fuel, h⟩
  | turn hreach hturn ih =>
      obtain ⟨fuel', h'⟩ := ih
      cases fuel' with
      | zero => cases h'
      | succ n =>
          rw [Emulator.turns, hturn] at h'
          exact ⟨n, h'⟩

/-- A halted CPU stays as it is. -/
theorem stands_of_halted {fuel : Nat} {e : RunEnd σ} (hhalted : s.vm.cpu.halted = true)
    (h : em.turns P maxInsns fuel s = some e) : Stands e s := by
  cases fuel with
  | zero => cases h
  | succ n =>
      have hturn : em.turn P maxInsns s = some (.ends s.finish) := by
        rw [turn]
        split
        · rfl
        · rfl
      rw [turns, hturn] at h
      cases h
      exact ⟨rfl, rfl⟩

theorem replayBlock_of_halted (em : Emulator σ) (maxInsns : Nat)
    (hhalted : s.vm.cpu.halted = true) (insns : List Insn) :
    ∃ b, em.replayBlock maxInsns insns s = .left b s := by
  cases insns with
  | nil => exact ⟨false, rfl⟩
  | cons i rest => exact ⟨true, by rw [replayBlock, if_pos hhalted]⟩

/-- A `Block` hook that halts the CPU ends the run where it is. -/
theorem stands_of_blockHook {block : DecodedBlock} {fuel : Nat} {e : RunEnd σ}
    (hfetches : em.Fetches P maxInsns s (.ok block) s')
    (hhalted : (em.atBlock s block s').vm.cpu.halted = true)
    (h : em.turns P maxInsns fuel s = some e) : Stands e (em.atBlock s block s') := by
  cases fuel with
  | zero => cases h
  | succ n =>
      obtain ⟨b, hreplay⟩ := replayBlock_of_halted em maxInsns hhalted block.insns
      have hturn : em.turn P maxInsns s = some
          (if b && em.isStop (em.atBlock s block s').vm.cpu.rip then
            .ends (em.atBlock s block s').finish else .goesOn (em.atBlock s block s')) := by
        rcases turn_eq em P hfetches.budget hfetches.running with ⟨_, _, hat, _⟩ | ⟨_, hturn⟩
        · exact absurd hat hfetches.noStub
        · rw [hturn, blockTurn, hfetches.fetched, Option.map_some]
          simp only [show em.replayBlock maxInsns block.insns
            (s'.act (em.fireBlock s.vm.cpu.rip block.byteSize)) = _ from hreplay]
      rw [turns, hturn] at h
      split at h
      · rename_i heq
        split at heq
        · cases heq
        · cases heq
      · rename_i e' heq
        split at heq
        · cases heq
          cases h
          exact ⟨rfl, rfl⟩
        · cases heq
      · rename_i s'' heq
        split at heq
        · cases heq
        · cases heq
          exact stands_of_halted hhalted h

/-- A run in which only `Block` hooks halt the CPU is stopped by them before the block, at its
first instruction. -/
theorem hooks_halt_before (em : Emulator σ) (P : MemoryProvider σ) (maxInsns : Nat)
    (vm : VmState σ) (cache : BlockCache) (entry : GuestAddr) (hcache : cache.Decoded)
    (hhalts : em.OnlyBlocksHalt P maxInsns (enter vm cache entry)) :
    em.HaltsBefore P maxInsns (enter vm cache entry) := by
  constructor
  · intro head block s' hreach hfetches hhalted fuel e hturns
    obtain ⟨fuel', hturns'⟩ := hreach.turns hturns
    have hstands := stands_of_blockHook hfetches hhalted hturns'
    refine ⟨hstands, fun hrip i hi => ?_⟩
    obtain ⟨mem, hdecode⟩ := hfetches.decodes (hreach.decoded hcache)
    have hplaced := placed_decodeBlock hdecode
    obtain ⟨rest, hinsns⟩ := List.head?_eq_some_iff.mp hi
    rw [hinsns] at hplaced
    exact (hstands.finalRip.trans hrip).trans hplaced.1.symm
  · intro i s hcomes hcalls hhalted
    rw [hhalts.insn i s hcomes hcalls] at hhalted
    cases hhalted
  · intro insn op size c w _ _ hrunning _ hhalted
    rw [running_runMemHooks hhalts.mem.read hrunning] at hhalted
    cases hhalted
  · intro insn op size value c w _ _ hrunning _ hhalted
    rw [running_runMemHooks hhalts.mem.write hrunning] at hhalted
    cases hhalted

/-! ### Two runs -/

/-- Every `Block` hook is called on every block, and halts. -/
def haltsAtBlock : Emulator FakeMemory :=
  { plain with blockHooks := [⟨1, 0, fun _ _ vm => vm.mapCpu Cpu.halt⟩] }

/-- The replay of a block does not leave a point at which the CPU is halted. -/
theorem Replays.eq_of_halted {insns rest : List Insn} (hhalted : s.vm.cpu.halted = true)
    (h : em.Replays maxInsns insns s rest s') : s' = s := by
  induction h with
  | start => rfl
  | next h hfalls ih =>
      have hrunning := hfalls.running
      rw [ih, hhalted] at hrunning
      cases hrunning

theorem hooks_halt_before_block :
    haltsAtBlock.HaltsBefore FakeMemory.provider 1
      (enter ⟨{}, { mem := hltMemory }⟩ (fun _ => none) 0x1000) := by
  refine hooks_halt_before haltsAtBlock FakeMemory.provider 1 _ _ _ BlockCache.decoded_empty ?_
  refine ⟨?_, fun h hh => (nomatch hh), fun h hh => (nomatch hh)⟩
  intro i s hcomes hcalls
  obtain ⟨head, block, s', rest, _, _, hreplays⟩ := hcomes
  have hrunning := hcalls.running
  rw [hreplays.eq_of_halted rfl] at hrunning
  cases hrunning

/-- `MOV EAX, 1` and `HLT` at 0x1000. -/
def movMemory : FakeMemory where
  regions := [{ base := 0x1000, bytes := [0xB8, 1, 0, 0, 0, 0xF4], length_lt := by decide }]
  disjoint := List.pairwise_singleton _ _

/-- A `Code` hook that halts at every instruction. -/
def haltsAtCode : Emulator FakeMemory :=
  { plain with codeHooks := [⟨1, 0, fun _ _ vm => vm.mapCpu Cpu.halt⟩] }

def movStart : RunState FakeMemory := enter ⟨{}, { mem := movMemory }⟩ (fun _ => none) 0x1000

/-- The instruction is executed all the same. -/
theorem code_hook_halts_late :
    ¬ ∀ (em : Emulator FakeMemory) (P : MemoryProvider FakeMemory) (maxInsns : Nat)
      (vm : VmState FakeMemory) (cache : BlockCache) (entry : GuestAddr), cache.Decoded →
        em.HaltsBefore P maxInsns (enter vm cache entry) := by
  intro h
  have hbefore := h haltsAtCode FakeMemory.provider 1 ⟨{}, { mem := movMemory }⟩ (fun _ => none)
    0x1000 BlockCache.decoded_empty
  have hpoint : (haltsAtCode.fetchBlock FakeMemory.provider movStart.vm.cpu.rip movStart).any
      (fun r => r.1.toOption.any fun block => block.insns.head?.any fun i =>
        !(haltsAtCode.atBlock movStart block r.2).vm.cpu.halted &&
        !((haltsAtCode.atBlock movStart block r.2).vm.cpu.clearBranch.execBreakpointAt i.rip).1 &&
        (haltsAtCode.atHandler i (haltsAtCode.atBlock movStart block r.2)).vm.cpu.halted &&
        (haltsAtCode.atHandler i (haltsAtCode.atBlock movStart block r.2)).vm.cpu.r Reg.rax == 0) =
      true := by
    decide +kernel
  have hend : (haltsAtCode.turns FakeMemory.provider 1 1 movStart).any (fun e =>
      e.state.vm.cpu.r Reg.rax == 1) = true := by
    decide +kernel
  obtain ⟨⟨r, s'⟩, hfetch, hr⟩ := (Option.any_eq_true _ _).mp hpoint
  obtain ⟨block, hblock, hinsns⟩ := (Option.any_eq_true _ _).mp hr
  obtain ⟨i, hi, hchecks⟩ := (Option.any_eq_true _ _).mp hinsns
  obtain ⟨e, he, hrax⟩ := (Option.any_eq_true _ _).mp hend
  obtain ⟨rest, hcons⟩ := List.head?_eq_some_iff.mp hi
  simp only [Bool.and_eq_true, Bool.not_eq_true', beq_iff_eq] at hchecks
  obtain ⟨⟨⟨hrunning, hpasses⟩, hhalted⟩, hzero⟩ := hchecks
  cases r with
  | error status => cases hblock
  | ok b =>
      cases hblock
      have hfetches : haltsAtCode.Fetches FakeMemory.provider 1 movStart (.ok block) s' :=
        ⟨Nat.one_pos, rfl, fun hat => (nomatch hat.1), hfetch⟩
      have hreplays : haltsAtCode.Replays 1 block.insns (haltsAtCode.atBlock movStart block s')
          (i :: rest) (haltsAtCode.atBlock movStart block s') := by
        rw [hcons]
        exact .start
      have hstands := hbefore.insn i _ ⟨movStart, block, s', rest, .start, hfetches, hreplays⟩
        ⟨hrunning, hpasses⟩ hhalted 1 e he
      rw [beq_iff_eq, hstands.vm, hzero] at hrax
      exact absurd hrax (by decide)

end Emulator

end PicoCpu
