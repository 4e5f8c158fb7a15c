import PicoCpu.BlockCache
import PicoCpu.Execute

/-!
Replaying decoded instructions in order: the inner loop of the dispatcher without its hooks,
breakpoints, budget and stop addresses.
-/

namespace PicoCpu

open Handlers

/-- The CPU and what lives outside it. -/
structure VmState (σ : Type) where
  cpu : Cpu
  world : World σ

section Replay

variable {σ : Type} (fp : HostFp) (at_ : Attached σ)

/-- `cpu.clear_branch(); insn.handler(cpu, insn)`. -/
def stepInsn (i : Insn) (s : VmState σ) : VmState σ :=
  let out := (i.run fp).runOn at_ s.cpu.clearBranch s.world
  ⟨out.value.2, out.world⟩

/-- The handler halted the CPU or took a branch. -/
def VmState.stopped (s : VmState σ) : Bool := s.cpu.halted || s.cpu.branchTaken

/-- The straight-line advance past an instruction. -/
def VmState.advance (s : VmState σ) (i : Insn) : VmState σ :=
  { s with cpu := s.cpu.setRip (nextRip i) }

/-- Replay until the list ends, the CPU halts or a branch is taken. -/
def replay : List Insn → VmState σ → VmState σ
  | [], s => s
  | i :: rest, s =>
    if s.cpu.halted then s
    else if (stepInsn fp at_ i s).stopped then stepInsn fp at_ i s
    else replay rest ((stepInsn fp at_ i s).advance i)

end Replay

/-! ### Which lists `decode_block` makes -/

section DecodeRun

variable {mem : CodeBytes}

/-- One more instruction at most: it comes last, the instructions before it are the same. -/
theorem decodeRun_take {n : Nat} {pc : GuestAddr} {insns : List Insn} {st : Option Status}
    (h : decodeRun mem n pc = some (insns, st)) {k : Nat} (hk : k ≤ insns.length) :
    ∃ st', decodeRun mem k pc = some (insns.take k, st') := by
  induction n generalizing pc insns k with
  | zero =>
      cases h
      obtain rfl : k = 0 := Nat.le_zero.mp hk
      exact ⟨none, rfl⟩
  | succ n ih =>
      cases k with
      | zero => exact ⟨none, rfl⟩
      | succ k =>
          rw [decodeRun] at h ⊢
          cases hd : decodeOne mem pc prefixFuel with
          | none => rw [hd] at h; cases h
          | some r =>
              rw [hd] at h
              cases r with
              | error e =>
                  cases h
                  exact absurd hk (by simp)
              | ok i =>
                  simp only at h ⊢
                  split at h
                  · cases h
                    rw [if_pos ‹_›]
                    obtain rfl : k = 0 := by simpa using hk
                    exact ⟨none, rfl⟩
                  · rw [if_neg ‹_›]
                    obtain ⟨⟨rest, st'⟩, hrest, hcons⟩ := Option.map_eq_some_iff.mp h
                    cases hcons
                    have hk' : k ≤ rest.length := by simpa using hk
                    obtain ⟨st'', htake⟩ := ih hrest hk'
                    exact ⟨st'', by rw [htake]; rfl⟩

/-- A block is the collected instructions under the pass, unless the first decode failed. -/
theorem decodeBlockWith_eq_ok {pass : List Insn → List Insn} {pc : GuestAddr} {n : Nat}
    {block : DecodedBlock} :
    decodeBlockWith pass mem pc n = some (.ok block) ↔
      ∃ insns st, decodeRun mem n pc = some (insns, st) ∧ (insns = [] → st = none) ∧
        block = { pc, byteSize := (insns.map Insn.len).sum, insns := pass insns } := by
  rw [decodeBlockWith, Option.map_eq_some_iff]
  constructor
  · rintro ⟨⟨insns, st⟩, hrun, hblock⟩
    refine ⟨insns, st, hrun, ?_⟩
    cases insns with
    | nil =>
        cases st with
        | none => exact ⟨fun _ => rfl, (Except.ok.inj hblock).symm⟩
        | some e => cases hblock
    | cons i rest => exact ⟨(fun h => nomatch h), (Except.ok.inj hblock).symm⟩
  · rintro ⟨insns, st, hrun, hempty, rfl⟩
    refine ⟨(insns, st), hrun, ?_⟩
    cases insns with
    | nil => rw [hempty rfl]; rfl
    | cons i rest => rfl

/-- Everything the loop collects was decoded at its own address. -/
theorem mem_decodeRun {n : Nat} {pc : GuestAddr} {insns : List Insn} {st : Option Status}
    (h : decodeRun mem n pc = some (insns, st)) :
    ∀ i ∈ insns, ∃ rip, decodeOne mem rip prefixFuel = some (.ok i) := by
  induction n generalizing pc insns with
  | zero =>
      cases h
      exact fun i hi => absurd hi List.not_mem_nil
  | succ n ih =>
      rw [decodeRun] at h
      cases hd : decodeOne mem pc prefixFuel with
      | none => rw [hd] at h; cases h
      | some r =>
          rw [hd] at h
          cases r with
          | error e =>
              cases h
              exact fun i hi => absurd hi List.not_mem_nil
          | ok i =>
              simp only at h
              split at h
              · cases h
                intro j hj
                obtain rfl := List.mem_singleton.mp hj
                exact ⟨pc, hd⟩
              · obtain ⟨⟨rest, st'⟩, hrest, hcons⟩ := Option.map_eq_some_iff.mp h
                cases hcons
                intro j hj
                rcases List.mem_cons.mp hj with rfl | hj
                · exact ⟨pc, hd⟩
                · exact ih hrest j hj

end DecodeRun

end PicoCpu
