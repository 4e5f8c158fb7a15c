import PicoCpu.BlockDecoding
import PicoCpu.Course
import PicoCpu.Lib.Loops
import PicoCpu.Peephole
import PicoCpu.Transparency

/-!
The interpreter without its block cache and its peephole pass: every turn decodes one
instruction from the memory as it is and executes it. This is what the dispatcher is for. The
replay of a block is a sequence of such steps on the instructions of the block, and one step
comes to the same whether the instruction has gone through the pass or not.
-/

namespace PicoCpu

namespace Emulator

variable {σ : Type}

/-! ### The plain loop -/

section Stepping

variable (em : Emulator σ)

/-- The loop ends at a stop address. -/
def orStop (s : RunState σ) : Turn σ :=
  if em.isStop s.vm.cpu.rip then .ends s.finish else .goesOn s

/-- What a handler that has halted the CPU comes to. -/
def haltTurn (s : RunState σ) : Turn σ :=
  match em.handlerHalted s with
  | .returned e => .ends e
  | .left _ s' => em.orStop s'

/-- One instruction with all that the dispatcher does around it. -/
def stepOnce (i : Insn) (s : RunState σ) : Turn σ :=
  if (s.vm.cpu.clearBranch.execBreakpointAt i.rip).1 then
    em.orStop (breakpointHit i (s.vm.cpu.clearBranch.execBreakpointAt i.rip).2 s)
  else if (em.afterInsn i s).vm.cpu.halted then em.haltTurn (em.afterInsn i s)
  else if (em.afterInsn i s).vm.cpu.branchTaken then em.orStop (em.afterInsn i s)
  else em.orStop (advance i (em.afterInsn i s))

/-- Decode the instruction at RIP and execute it; `none` when the decoder does not end. -/
def insnTurn (P : MemoryProvider σ) (s : RunState σ) : Option (Turn σ) :=
  (decodeOne (codeBytes P s.vm.world.mem) s.vm.cpu.rip prefixFuel).map fun
    | .error e => .ends { result := { s.resultWith e with finalRip := s.vm.cpu.rip }, state := s }
    | .ok i => em.stepOnce i s

/-- A turn of the plain loop. -/
def plainTurn (P : MemoryProvider σ) (maxInsns : Nat) (s : RunState σ) : Option (Turn σ) :=
  if maxInsns ≤ s.executed then some (.ends s.finish)
  else if s.vm.cpu.halted then some (.ends s.finish)
  else
    match em.iatStubs with
    | some stubs =>
      if IatStubs.inRegion s.vm.cpu.rip then some (em.stubTurn stubs s) else em.insnTurn P s
    | none => em.insnTurn P s

/-- What a turn comes to. -/
def Turn.outcome : Turn σ → RunState σ ⊕ RunEnd σ
  | .ends e => .inr e
  | .goesOn s => .inl s

/-- The loop of the dispatcher. -/
def loop (P : MemoryProvider σ) (maxInsns : Nat) : Loops.Next (RunState σ) (RunEnd σ) :=
  fun s => (em.turn P maxInsns s).map Turn.outcome

def plainLoop (P : MemoryProvider σ) (maxInsns : Nat) : Loops.Next (RunState σ) (RunEnd σ) :=
  fun s => (em.plainTurn P maxInsns s).map Turn.outcome

/-- The plain interpreter, run from `entry` with a budget of `maxInsns`, ends so. -/
def RunsPlainly (P : MemoryProvider σ) (vm : VmState σ) (entry : GuestAddr) (maxInsns : U64)
    (e : RunEnd σ) : Prop :=
  Loops.Ends (em.plainLoop P maxInsns.toNat) (enter vm (fun _ => none) entry) e

variable {em}

theorem turns_eq_run (P : MemoryProvider σ) (maxInsns fuel : Nat) (s : RunState σ) :
    em.turns P maxInsns fuel s = Loops.run (em.loop P maxInsns) fuel s := by
  induction fuel generalizing s with
  | zero => rfl
  | succ fuel ih =>
      rw [turns, Loops.run, loop]
      cases em.turn P maxInsns s with
      | none => rfl
      | some t =>
          cases t with
          | ends e => rfl
          | goesOn s' => exact ih s'

theorem runs_iff {P : MemoryProvider σ} (hread : em.attached.memRead = some P) {vm : VmState σ}
    {cache : BlockCache} {entry : GuestAddr} {maxInsns : U64} {e : RunEnd σ} :
    em.Runs vm cache entry maxInsns e ↔
      Loops.Ends (em.loop P maxInsns.toNat) (enter vm cache entry) e := by
  rw [← Loops.exists_run_iff, Runs]
  simp only [runWithCpu, hread, turns_eq_run]

end Stepping

/-! ### A block as a sequence of steps -/

section Blocks

variable {em : Emulator σ} {i : Insn} {s : RunState σ}

/-- What the outer loop makes of the exit of a block. -/
def ofExit (em : Emulator σ) : BlockExit σ → Turn σ
  | .returned e => .ends e
  | .left branchOrHalt s =>
    if branchOrHalt && em.isStop s.vm.cpu.rip then .ends s.finish else .goesOn s

/-- What it makes of a fetch at the state `s`. -/
def afterFetch (em : Emulator σ) (maxInsns : Nat) (s : RunState σ) :
    Except Status DecodedBlock × RunState σ → Turn σ
  | (.error e, s') =>
    .ends { result := { s.resultWith e with finalRip := s.vm.cpu.rip }, state := s' }
  | (.ok block, s') => em.ofExit (em.replayBlock maxInsns block.insns (em.atBlock s block s'))

theorem blockTurn_eq (em : Emulator σ) (P : MemoryProvider σ) (maxInsns : Nat) (s : RunState σ) :
    em.blockTurn P maxInsns s =
      (em.fetchBlock P s.vm.cpu.rip s).map (em.afterFetch maxInsns s) := by
  rw [blockTurn]
  rfl

theorem ofExit_left_true (s : RunState σ) : em.ofExit (.left true s) = em.orStop s := by
  simp [ofExit, orStop]

theorem ofExit_handlerHalted (s : RunState σ) :
    em.ofExit (em.handlerHalted s) = em.haltTurn s := by
  unfold haltTurn handlerHalted
  cases em.recovery with
  | none => rfl
  | some cb =>
      simp only
      split
      · split
        · exact ofExit_left_true _
        · rfl
      · rfl

theorem afterInsn_of_passes {c : Cpu}
    (hc : s.vm.cpu.clearBranch.execBreakpointAt i.rip = (false, c)) :
    em.execute i (em.announce i { s with vm := { s.vm with cpu := c } }) = em.afterInsn i s := by
  rw [afterInsn, atHandler, hc]

/-- The replay of a block is a step on its first instruction, with which it may end. -/
theorem ofExit_replayBlock (em : Emulator σ) (maxInsns : Nat) (i : Insn) (rest : List Insn)
    {s : RunState σ} (hrunning : s.vm.cpu.halted = false) :
    (em.FallsThrough maxInsns i s ∧
      em.replayBlock maxInsns (i :: rest) s =
        em.replayBlock maxInsns rest (advance i (em.afterInsn i s)) ∧
      em.stepOnce i s = .goesOn (advance i (em.afterInsn i s))) ∨
    em.ofExit (em.replayBlock maxInsns (i :: rest) s) = em.stepOnce i s := by
  rw [replayBlock, stepOnce, if_neg (by simp [hrunning])]
  split
  · rename_i c hhit
    right
    rw [hhit, if_pos rfl, ofExit_left_true]
  · rename_i c hpasses
    have hpass : (s.vm.cpu.clearBranch.execBreakpointAt i.rip).1 = false :=
      congrArg Prod.fst hpasses
    simp only [afterInsn_of_passes hpasses]
    rw [hpasses]
    simp only [Bool.false_eq_true, if_false]
    split
    · exact .inr (ofExit_handlerHalted _)
    · rename_i hgoes
      split
      · exact .inr (ofExit_left_true _)
      · rename_i hbranch
        rw [orStop]
        split
        · exact .inr rfl
        · rename_i hstop
          split
          · right
            rw [ofExit_left_true, orStop, if_neg hstop]
          · rename_i hleft
            have hcalls : Calls i s := ⟨hrunning, hpass⟩
            refine .inl ⟨⟨hcalls, by simpa using hgoes, by simpa using hbranch,
              by simpa using hstop, not_le.mp hleft⟩, rfl, rfl⟩

end Blocks

end Emulator

end PicoCpu
