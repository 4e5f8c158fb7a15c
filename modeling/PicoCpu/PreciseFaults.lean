import PicoCpu.Course
import PicoCpu.Peephole
import PicoCpu.Faults
import PicoCpu.Memory.ShadowPages

/-!
Where a fault is reported. Without hooks the instruction pointer is the address of the
instruction when its handler is called, and a handler that latches a fault has not moved it,
unless it is a call through memory whose target cannot be read once the return address is pushed.
-/

namespace PicoCpu

open H Proc Handlers

/-! ### Handlers that do not branch -/

/-- The instruction pointer stays, and a fault that is latched on the way names it. -/
structure Cpu.Steady (c c' : Cpu) : Prop where
  rip : c'.rip = c.rip
  latch : (c'.fault = c.fault ∧ c'.halted = c.halted) ∨ (c'.Latched ∧ c'.fault.rip = c.rip)

/-- A fault that is latched names the instruction pointer, and has not moved it. -/
def Cpu.Precise (c c' : Cpu) : Prop :=
  (c'.fault = c.fault ∧ c'.halted = c.halted) ∨
    (c'.Latched ∧ c'.fault.rip = c.rip ∧ c'.rip = c.rip)

namespace Cpu.Steady

variable {c c' c'' : Cpu}

theorem refl (c : Cpu) : Steady c c := ⟨rfl, .inl ⟨rfl, rfl⟩⟩

theorem trans (h : Steady c c') (h' : Steady c' c'') : Steady c c'' := by
  refine ⟨h'.rip.trans h.rip, ?_⟩
  rcases h'.latch with ⟨hfault, hhalted⟩ | ⟨hlatched, hrip⟩
  · rcases h.latch with ⟨hfault', hhalted'⟩ | ⟨hlatched', hrip'⟩
    · exact .inl ⟨hfault.trans hfault', hhalted.trans hhalted'⟩
    · exact .inr ⟨hlatched'.of_control hfault hhalted, by rw [hfault, hrip']⟩
  · exact .inr ⟨hlatched, hrip.trans h.rip⟩

theorem of_control (h : c'.control = c.control) : Steady c c' :=
  ⟨congrArg Control.rip h, .inl ⟨congrArg Control.fault h, congrArg Control.halted h⟩⟩

theorem setFault (c : Cpu) {kind : FaultKind} (hkind : kind ≠ .none) (addr : GuestAddr)
    (reason : Status) (note : Option String) : Steady c (c.setFault kind addr reason note) :=
  ⟨rfl, .inr ⟨latched_setFault c hkind addr reason note, rfl⟩⟩

/-- Every handler that takes no branch follows it. -/
theorem follows {branches : Prop} (h : ¬ branches) : Follows branches Steady where
  refl := refl
  trans := trans
  quiet := of_control
  fault c _ hkind addr reason note := setFault c hkind addr reason note
  branch hbranch := absurd hbranch h

theorem precise (h : Steady c c') : Precise c c' :=
  h.latch.imp_right fun hlatched => ⟨hlatched.1, hlatched.2, h.rip⟩

end Cpu.Steady

theorem Cpu.precise_of_same {c c' : Cpu} (hfault : c'.fault = c.fault)
    (hhalted : c'.halted = c.halted) : Cpu.Precise c c' := .inl ⟨hfault, hhalted⟩

/-! ### Handlers that branch -/

theorem branches_cases {h : Handler} (hbranches : h.branches) :
    h = .opJmp ∨ h = .opJcc ∨ h = .opCall ∨ h = .opRet ∨ h = .opLoop ∨ h = .opJcxz := by
  unfold Handler.branches at hbranches
  split at hbranches
  · exact .inl rfl
  · exact .inr (.inl rfl)
  · exact .inr (.inr (.inl rfl))
  · exact .inr (.inr (.inr (.inl rfl)))
  · exact .inr (.inr (.inr (.inr (.inl rfl))))
  · exact .inr (.inr (.inr (.inr (.inr rfl))))
  · exact hbranches.elim

/-- Silent work does not touch the latch. -/
theorem Silent.keepsLatch {α : Type} {branches : Prop} {p : H α} (h : Silent branches p)
    (rely : machine.Rely) (c : Cpu) :
    p.Post rely c fun _ _ c' => c'.fault = c.fault ∧ c'.halted = c.halted := by
  induction h generalizing c with
  | ret a => exact ⟨rfl, rfl⟩
  | gets f => exact ⟨rfl, rfl⟩
  | modify hf =>
      have hcontrol := hf.control c
      exact ⟨congrArg Control.fault hcontrol, congrArg Control.halted hcontrol⟩
  | branch h target => exact ⟨rfl, rfl⟩
  | bind _ _ ihp ihf =>
      refine post_bind.mpr ((ihp c).mono ?_)
      rintro tr a c' ⟨hfault, hhalted⟩
      cases a with
      | none => exact ⟨hfault, hhalted⟩
      | some a =>
          refine (ihf a c').mono ?_
          rintro tr' b c'' ⟨hfault', hhalted'⟩
          exact ⟨hfault'.trans hfault, hhalted'.trans hhalted⟩

theorem silent_getsSynced {α : Type} (f : Cpu → α) : Silent True (H.getsSynced f) :=
  .bind (.modify .syncFlags) fun _ => .gets f

theorem silent_opJcc (insn : Insn) : Silent True (opJcc insn) :=
  .bind (silent_getsSynced _) fun _ => .ite (.branch trivial _) (.ret _)

theorem silent_opJcxz (insn : Insn) : Silent True (opJcxz insn) :=
  .bind (.gets _) fun _ => .ite (.branch trivial _) (.ret _)

theorem silent_opLoop (insn : Insn) : Silent True (opLoop insn) := by
  have hbranch (take : Bool) : Silent True
      (if take then Proc.modify fun c => c.takeBranch (nextRip insn + insn.dst.imm)
        else pure ()) :=
    .ite (.branch trivial _) (.ret _)
  refine .bind (.gets _) fun newRcx => .bind (.modify ⟨fun _ => rfl⟩) fun _ => ?_
  refine .ite (.bind (.ret false) hbranch) (.ite (.bind (.ret true) hbranch) ?_)
  exact .bind (silent_getsSynced _) hbranch

/-- The target of a jump or call: reading it moves nothing. -/
theorem branchTarget_steady (insn : Insn) (c : Cpu) :
    (branchTarget insn).Post (hooksFollow Cpu.Steady) c fun _ _ c' => c.Steady c' := by
  have hread : (do
      let v ← Proc.attempt (readOperand insn insn.dst 8)
      pure (v.getD 0) : H GuestAddr).Post (hooksFollow Cpu.Steady) c fun _ _ c' => c.Steady c' := by
    have hsound : Sound Cpu.Steady False (readOperand insn insn.dst 8) :=
      .readOperand (Cpu.Steady.follows id) insn insn.dst 8
    refine post_bind.mpr (post_attempt.mpr ((hsound.post c).mono ?_))
    rintro tr a c' ⟨hsteady, _⟩
    exact hsteady
  have hbad : (do
      Proc.modify fun c =>
        c.setFault .invalidOpcode c.rip .invalidInstruction (some "bad branch operand kind")
      pure (0 : GuestAddr) : H GuestAddr).Post (hooksFollow Cpu.Steady) c
        fun _ _ c' => c.Steady c' :=
    Cpu.Steady.setFault c FaultKind.noConfusion ..
  unfold branchTarget
  cases insn.dst.kind with
  | none => exact hbad
  | reg => exact .refl c
  | imm => exact hbad
  | rel => exact .refl c
  | xmm => exact hbad
  | mem => exact hread
  | ripRelMem => exact hread

/-- A jump is taken only when its target could be read. -/
theorem opJmp_precise (insn : Insn) (c : Cpu) :
    (opJmp insn).Post (hooksFollow Cpu.Steady) c fun _ _ c' => c.Precise c' := by
  refine post_bind.mpr ((branchTarget_steady insn c).mono ?_)
  intro tr a c' hsteady
  cases a with
  | none => exact hsteady.precise
  | some target =>
      refine post_gets_bind.mpr ?_
      cases hhalted : c'.halted with
      | true => exact hsteady.precise
      | false =>
          rcases hsteady.latch with ⟨hfault, hkept⟩ | ⟨hlatched, _⟩
          · exact .inl ⟨hfault, hkept⟩
          · rw [hlatched.2] at hhalted
            cases hhalted

/-- A return that cannot read its address stays where it is. -/
theorem opRet_precise (insn : Insn) (c : Cpu) :
    (opRet insn).Post (hooksFollow Cpu.Steady) c fun _ _ c' => c.Precise c' := by
  have hload : (load (c.r Reg.rsp) 8 kindFromStatus "RET pop").Post (hooksFollow Cpu.Steady) c
      fun _ a c' => c.Precise c' ∧ (a.isSome = true → c' = c) := by
    refine post_ask_bind.mpr fun r _ => ?_
    cases r with
    | ok buf => exact ⟨Cpu.precise_of_same rfl rfl, fun _ => rfl⟩
    | error s =>
        refine ⟨(Cpu.Steady.setFault c (kindFromStatus_ne_none s) ..).precise, fun hsome => ?_⟩
        cases hsome
  refine post_gets_bind.mpr (post_bind.mpr (post_ask_bind.mpr fun present _ => ?_))
  cases present with
  | false => exact (Cpu.Steady.setFault c FaultKind.noConfusion ..).precise
  | true =>
      simp only [Bool.not_true, Bool.false_eq_true, if_false, post_pure]
      refine post_bind.mpr (hload.mono ?_)
      rintro tr a c' ⟨hprecise, hsame⟩
      cases a with
      | none => exact hprecise
      | some buf =>
          rw [hsame rfl]
          exact Cpu.precise_of_same rfl rfl

section Call

variable {σ : Type} (at_ : Attached σ)

/-- The target of a call through memory can be read: no breakpoint watches it, and the
provider answers. -/
structure TargetReads (i : Insn) (c : Cpu) (w : World σ) : Prop where
  isMem : i.dst.isMem = true
  unwatched : (c.dataBreakpointAt (ea c i i.dst) false 8).1 = false
  answers : ∃ buf w', at_.env (.read (ea c i i.dst) 8) w = ((.ok buf : Except Status Buf), w')

/-- A call through memory that has pushed its return address can read its target. -/
def CallCompletes (i : Insn) (c : Cpu) (w : World σ) : Prop :=
  i.handler = .opCall → i.dst.kind ≠ .rel → i.dst.kind ≠ .reg → ∀ w',
    at_.env (.write (c.r Reg.rsp - 8) 8 (storeLE (nextRip i))) w =
      ((.ok () : Except Status Unit), w') →
      TargetReads at_ i (c.setR64 Reg.rsp (c.r Reg.rsp - 8)) w'

variable {at_} {i : Insn} {c : Cpu} {w : World σ}

theorem run_requireAttached (isWrite : Bool)
    (h : (if isWrite then at_.memWrite else at_.memRead).isSome = true) (addr : GuestAddr)
    (note : String) : (requireAttached isWrite addr note).run at_.env c w =
      ⟨(some (), c), w, [⟨MachineOp.attached isWrite, true⟩]⟩ := by
  rw [requireAttached, run_bind, run_attached, h]
  rfl

theorem run_checkDataBreakpoint {addr : GuestAddr} {isWrite : Bool} {size : Nat}
    (h : (c.dataBreakpointAt addr isWrite size).1 = false) (note : String) :
    (checkDataBreakpoint addr isWrite size note).run at_.env c w = ⟨(some (), c), w, []⟩ := by
  rw [checkDataBreakpoint, run_gets_bind, run_modify_bind, Cpu.dataBreakpointAt_miss h, h]
  rfl

theorem run_load_ok {addr : GuestAddr} {size : Nat} {buf : Buf} {w' : World σ}
    (h : at_.env (.read addr size) w = ((.ok buf : Except Status Buf), w'))
    (kind : Status → FaultKind) (note : String) :
    (load addr size kind note).run at_.env c w =
      ⟨(some buf, c), w', [⟨MachineOp.read addr size, .ok buf⟩]⟩ := by
  rw [load, run_bind, run_askRead, h]
  rfl

/-- The target is read, and the CPU is as before. -/
theorem run_readOperand_target (hhooks : at_.readHooks = []) (h : TargetReads at_ i c w) :
    ∃ v w' tr, (readOperand i i.dst 8).run at_.env c w = ⟨(some v, c), w', tr⟩ := by
  obtain ⟨buf, w', hread⟩ := h.answers
  have hhook : (fireMemHooks (ea c i i.dst) 8 0 false).run at_.env c w =
      ⟨(some (), c), w, [⟨MachineOp.memHooks (ea c i i.dst) 8 0 false, fun c => c⟩]⟩ := by
    have hnone : runMemHooks at_.readHooks (ea c i i.dst) 8 0 false = fun c => c := by
      rw [hhooks]
      rfl
    rw [← hnone]
    exact congrArg (fun d => (⟨(some (), d), w, _⟩ : Prog.Outcome machine _ _)) (congrFun hnone c)
  have hmem : ∃ v w' tr, (do
      let rip ← gets Cpu.rip
      requireAttached false rip "no read provider"
      let addr ← gets fun c => ea c i i.dst
      checkDataBreakpoint addr false 8 "DR data load breakpoint"
      fireMemHooks addr 8 0 false
      let buf ← load addr 8 pageFault "operand read"
      pure (loadLE buf 8) : H U64).run at_.env c w = ⟨(some v, c), w', tr⟩ := by
    refine ⟨loadLE buf 8, w', [⟨MachineOp.attached false, true⟩,
      ⟨MachineOp.memHooks (ea c i i.dst) 8 0 false, fun c => c⟩,
      ⟨MachineOp.read (ea c i i.dst) 8, .ok buf⟩], ?_⟩
    rw [run_gets_bind, run_bind, run_requireAttached false (Attached.memRead_isSome hread),
      andThen_some,
      run_gets_bind, run_bind, run_checkDataBreakpoint h.unwatched, andThen_some, run_bind, hhook,
      andThen_some, run_bind, run_load_ok hread, andThen_some, run_pure]
    rfl
  have hkind := h.isMem
  unfold readOperand
  cases hk : i.dst.kind with
  | none => rw [Operand.isMem, hk] at hkind; cases hkind
  | reg => rw [Operand.isMem, hk] at hkind; cases hkind
  | imm => rw [Operand.isMem, hk] at hkind; cases hkind
  | rel => rw [Operand.isMem, hk] at hkind; cases hkind
  | xmm => rw [Operand.isMem, hk] at hkind; cases hkind
  | mem => exact hmem
  | ripRelMem => exact hmem

theorem run_branchTarget (hhooks : at_.readHooks = []) (hrel : i.dst.kind = .rel ∨
    i.dst.kind = .reg ∨ TargetReads at_ i c w) :
    ∃ target w' tr, (branchTarget i).run at_.env c w = ⟨(some target, c), w', tr⟩ := by
  rcases hrel with hrel | hreg | hreads
  · rw [branchTarget, hrel]
    exact ⟨_, _, _, rfl⟩
  · rw [branchTarget, hreg]
    exact ⟨_, _, _, rfl⟩
  · obtain ⟨v, w', tr, hrun⟩ := run_readOperand_target hhooks hreads
    have hmem : (do
        let v ← Proc.attempt (readOperand i i.dst 8)
        pure (v.getD 0) : H GuestAddr).run at_.env c w = ⟨(some v, c), w', tr ++ []⟩ := by
      rw [run_bind, run_attempt, hrun]
      rfl
    have hkind := hreads.isMem
    unfold branchTarget
    cases hk : i.dst.kind with
    | none => rw [Operand.isMem, hk] at hkind; cases hkind
    | reg => rw [Operand.isMem, hk] at hkind; cases hkind
    | imm => rw [Operand.isMem, hk] at hkind; cases hkind
    | rel => rw [Operand.isMem, hk] at hkind; cases hkind
    | xmm => rw [Operand.isMem, hk] at hkind; cases hkind
    | mem => exact ⟨v, w', _, hmem⟩
    | ripRelMem => exact ⟨v, w', _, hmem⟩

/-- A call that completes, or fails before it has pushed. -/
theorem opCall_precise (hhooks : at_.readHooks = []) (hi : i.handler = .opCall)
    (hcall : CallCompletes at_ i c w) : c.Precise ((opCall i).run at_.env c w).value.2 := by
  rw [opCall, run_gets_bind]
  cases hpresent : at_.memWrite.isSome with
  | false =>
      have hraise : (requireAttached true (c.r Reg.rsp) "no write provider for CALL push").run
          at_.env c w = ⟨(none, c.setFault .providerFailure (c.r Reg.rsp) .providerFailure
            (some "no write provider for CALL push")), w, [⟨MachineOp.attached true, false⟩]⟩ := by
        rw [requireAttached, run_bind, run_attached, if_pos rfl, hpresent]
        rfl
      rw [run_bind, hraise, andThen_none]
      exact (Cpu.Steady.setFault c FaultKind.noConfusion ..).precise
  | true =>
      rw [run_bind, run_requireAttached true hpresent, andThen_some, run_bind]
      cases hwrite : at_.env (.write (c.r Reg.rsp - 8) 8 (storeLE (nextRip i))) w with
      | mk r w' =>
          cases r with
          | error s =>
              have hstore : (store (c.r Reg.rsp - 8) 8 (storeLE (nextRip i)) kindFromStatus
                  "CALL push").run at_.env c w = ⟨(none, c.setFault (kindFromStatus s)
                    (c.r Reg.rsp - 8) s (some "CALL push")), w',
                    [⟨MachineOp.write (c.r Reg.rsp - 8) 8 (storeLE (nextRip i)), .error s⟩]⟩ := by
                rw [store, run_bind, run_askWrite, hwrite]
                rfl
              rw [hstore, andThen_none]
              exact (Cpu.Steady.setFault c (kindFromStatus_ne_none s) ..).precise
          | ok u =>
              have hstore : (store (c.r Reg.rsp - 8) 8 (storeLE (nextRip i)) kindFromStatus
                  "CALL push").run at_.env c w = ⟨(some (), c), w',
                    [⟨MachineOp.write (c.r Reg.rsp - 8) 8 (storeLE (nextRip i)), .ok ()⟩]⟩ := by
                rw [store, run_bind, run_askWrite, hwrite]
                rfl
              rw [hstore, andThen_some, run_modify_bind]
              have htarget : i.dst.kind = .rel ∨ i.dst.kind = .reg ∨
                  TargetReads at_ i (c.setR64 Reg.rsp (c.r Reg.rsp - 8)) w' := by
                by_cases hrel : i.dst.kind = .rel
                · exact .inl hrel
                · by_cases hreg : i.dst.kind = .reg
                  · exact .inr (.inl hreg)
                  · exact .inr (.inr (hcall hi hrel hreg w' hwrite))
              obtain ⟨target, w'', tr, hrun⟩ := run_branchTarget hhooks htarget
              rw [run_bind, hrun, andThen_some, run_modify]
              exact Cpu.precise_of_same rfl rfl

/-- Every handler, with no memory hooks. -/
theorem precise_run (fp : HostFp) (hread : at_.readHooks = []) (hwrite : at_.writeHooks = [])
    (hcall : CallCompletes at_ i c w) : c.Precise ((i.run fp).runOn at_ c w).value.2 := by
  have hfollow : at_.HooksFollow Cpu.Steady := by
    constructor
    · rw [hread]
      exact fun _ h => (nomatch h)
    · rw [hwrite]
      exact fun _ h => (nomatch h)
  by_cases hbranches : i.handler.branches
  · have henv := (Cpu.Steady.follows not_false).env hfollow
    rcases branches_cases hbranches with hi | hi | hi | hi | hi | hi
    · rw [Insn.run, hi]
      exact Prog.All.exec (opJmp_precise i c) henv w
    · rw [Insn.run, hi]
      obtain ⟨hfault, hhalted⟩ := Prog.All.exec ((silent_opJcc i).keepsLatch _ c) henv w
      exact Cpu.precise_of_same hfault hhalted
    · rw [Insn.run, hi]
      exact opCall_precise hread hi hcall
    · rw [Insn.run, hi]
      exact Prog.All.exec (opRet_precise i c) henv w
    · rw [Insn.run, hi]
      obtain ⟨hfault, hhalted⟩ := Prog.All.exec ((silent_opLoop i).keepsLatch _ c) henv w
      exact Cpu.precise_of_same hfault hhalted
    · rw [Insn.run, hi]
      obtain ⟨hfault, hhalted⟩ := Prog.All.exec ((silent_opJcxz i).keepsLatch _ c) henv w
      exact Cpu.precise_of_same hfault hhalted
  · exact (Follows.runOn fp i (Cpu.Steady.follows hbranches) hfollow c w).precise

end Call

/-! ### Where the instructions of a block lie -/

/-- Each instruction lies where the one before it ends. -/
def Placed : GuestAddr → List Insn → Prop
  | _, [] => True
  | pc, i :: rest => i.rip = pc ∧ Placed (nextRip i) rest

theorem placed_map {f : Insn → Insn} (hrip : ∀ i, (f i).rip = i.rip)
    (hnext : ∀ i, nextRip (f i) = nextRip i) {pc : GuestAddr} {insns : List Insn}
    (h : Placed pc insns) : Placed pc (insns.map f) := by
  induction insns generalizing pc with
  | nil => exact trivial
  | cons i rest ih =>
      obtain ⟨hi, hrest⟩ := h
      refine ⟨(hrip i).trans hi, ?_⟩
      rw [hnext]
      exact ih hrest

theorem rip_fold (i : Insn) : i.fold.rip = i.rip := by
  unfold Insn.fold
  split <;> rfl

theorem rip_foldJcc (prev i : Insn) : (foldJcc prev i).rip = i.rip := by
  unfold foldJcc
  split <;> rfl

theorem nextRip_foldJcc (prev i : Insn) : nextRip (foldJcc prev i) = nextRip i := by
  unfold foldJcc
  split <;> rfl

theorem placed_foldJccFrom {prev : Insn} {pc : GuestAddr} {insns : List Insn}
    (h : Placed pc insns) : Placed pc (foldJccFrom prev insns) := by
  induction insns generalizing prev pc with
  | nil => exact trivial
  | cons i rest ih =>
      obtain ⟨hi, hrest⟩ := h
      refine ⟨(rip_foldJcc prev i).trans hi, ?_⟩
      rw [nextRip_foldJcc]
      exact ih hrest

theorem placed_peepholeBlock {pc : GuestAddr} {insns : List Insn} (h : Placed pc insns) :
    Placed pc (peepholeBlock insns) := by
  have hfolded := placed_map rip_fold nextRip_fold h
  unfold peepholeBlock
  cases hmap : insns.map Insn.fold with
  | nil => exact trivial
  | cons i rest =>
      rw [hmap] at hfolded
      exact ⟨hfolded.1, placed_foldJccFrom hfolded.2⟩

theorem placed_decodeRun {mem : CodeBytes} {n : Nat} {pc : GuestAddr} {insns : List Insn}
    {st : Option Status} (h : decodeRun mem n pc = some (insns, st)) : Placed pc insns := by
  induction n generalizing pc insns with
  | zero =>
      cases h
      exact trivial
  | succ n ih =>
      rw [decodeRun] at h
      cases hd : decodeOne mem pc prefixFuel with
      | none => rw [hd] at h; cases h
      | some r =>
          rw [hd] at h
          cases r with
          | error e =>
              cases h
              exact trivial
          | ok i =>
              have hrip := (decodeOne_accepted hd).rip
              simp only at h
              split at h
              · cases h
                exact ⟨hrip, trivial⟩
              · obtain ⟨⟨rest, st'⟩, hrest, hcons⟩ := Option.map_eq_some_iff.mp h
                cases hcons
                refine ⟨hrip, ?_⟩
                rw [nextRip, hrip]
                exact ih hrest

theorem placed_decodeBlock {mem : CodeBytes} {n : Nat} {pc : GuestAddr} {block : DecodedBlock}
    (h : decodeBlock mem pc n = some (.ok block)) : Placed pc block.insns := by
  obtain ⟨insns, st, hrun, _, rfl⟩ := decodeBlockWith_eq_ok.mp h
  exact placed_peepholeBlock (placed_decodeRun hrun)

/-! ### Along a run -/

namespace Emulator

variable {σ : Type} {em : Emulator σ} {P : MemoryProvider σ} {maxInsns : Nat}
  {s s' s₀ : RunState σ}

/-- No hooks are installed. -/
structure NoHooks (em : Emulator σ) : Prop where
  block : em.blockHooks = []
  code : em.codeHooks = []
  insn : em.insnHooks = []
  fault : em.faultHooks = []
  read : em.attached.readHooks = []
  write : em.attached.writeHooks = []

theorem Replays.placed {insns rest : List Insn} (hstart : Placed s.vm.cpu.rip insns)
    (h : em.Replays maxInsns insns s rest s') : Placed s'.vm.cpu.rip rest := by
  induction h with
  | start => exact hstart
  | next h hfalls ih => exact ih.2

/-- The instruction pointer is the address of the instruction. -/
theorem Comes.rip (hhooks : em.NoHooks) (hcache : s₀.cache.Decoded) {i : Insn}
    (h : em.Comes P maxInsns s₀ i s) : s.vm.cpu.rip = i.rip := by
  obtain ⟨head, block, s', rest, hreach, hfetches, hreplays⟩ := h
  obtain ⟨mem, hdecode⟩ := hfetches.decodes (hreach.decoded hcache)
  have hentered : (em.atBlock head block s').vm.cpu.rip = head.vm.cpu.rip := by
    rw [atBlock, RunState.act, fireBlock, hhooks.block, List.foldl_nil, hfetches.keeps.1]
  have hplaced := placed_decodeBlock hdecode
  rw [← hentered] at hplaced
  exact (hreplays.placed hplaced).1.symm

/-- What precedes the handler. -/
theorem atHandler_cpu (hhooks : em.NoHooks) {i : Insn} (hrip : s.vm.cpu.rip = i.rip) :
    (em.atHandler i s).vm.cpu.rip = i.rip ∧ (em.atHandler i s).vm.cpu.fault = s.vm.cpu.fault ∧
      (em.atHandler i s).vm.cpu.halted = s.vm.cpu.halted := by
  have hcontrol := (Cpu.Quiet.execBreakpointAt i.rip).control s.vm.cpu.clearBranch
  have hcode (vm : VmState σ) : em.fireCode i vm = vm := by
    rw [fireCode, hhooks.code, List.foldl_nil]
  have hinsn (vm : VmState σ) : em.fireInsn i vm = vm := by
    rw [fireInsn, hhooks.insn, List.foldl_nil]
  simp only [atHandler, announce, RunState.act, hcode, hinsn, fireTrace]
  refine ⟨?_, ?_, ?_⟩
  · split
    · rfl
    · exact (congrArg Control.rip hcontrol).trans hrip
  · split
    · exact congrArg Control.fault hcontrol
    · exact congrArg Control.fault hcontrol
  · split
    · exact congrArg Control.halted hcontrol
    · exact congrArg Control.halted hcontrol

/-- The handler has latched a fault, or halted the CPU. -/
def Faults (em : Emulator σ) (i : Insn) (s : RunState σ) : Prop :=
  (em.afterInsn i s).vm.cpu.fault ≠ s.vm.cpu.fault ∨ (em.afterInsn i s).vm.cpu.halted = true

/-- A fault is latched that names the instruction, and the instruction pointer is there. -/
structure FaultsAt (c : Cpu) (i : Insn) : Prop where
  latched : c.Latched
  faultRip : c.fault.rip = i.rip
  rip : c.rip = i.rip

theorem Faults.precise (hhooks : em.NoHooks) {i : Insn} (hrip : s.vm.cpu.rip = i.rip)
    (hcalls : Calls i s)
    (hcompletes : CallCompletes em.attached i (em.atHandler i s).vm.cpu (em.atHandler i s).vm.world)
    (hfaults : em.Faults i s) : FaultsAt (em.afterInsn i s).vm.cpu i := by
  obtain ⟨hat, hfault, hhalted⟩ := atHandler_cpu hhooks hrip
  have hprecise : (em.atHandler i s).vm.cpu.Precise (em.afterInsn i s).vm.cpu :=
    precise_run em.fp hhooks.read hhooks.write hcompletes
  rcases hprecise with ⟨hsame, hkept⟩ | ⟨hlatched, hfaultRip, hstays⟩
  · rcases hfaults with hnew | hstops
    · exact absurd (hsame.trans hfault) hnew
    · rw [hkept, hhalted, hcalls.running] at hstops
      cases hstops
  · exact ⟨hlatched, hfaultRip.trans hat, hstays.trans hat⟩

/-- A recovery callback that declines leaves the instruction pointer and the fault alone. -/
def DeclinesInPlace (em : Emulator σ) : Prop :=
  ∀ cb, em.recovery = some cb → ∀ (f : Fault) (vm : VmState σ), (cb f vm).1 = false →
    (cb f vm).2.cpu.rip = vm.cpu.rip ∧ (cb f vm).2.cpu.fault = vm.cpu.fault

/-- What is returned when a handler has halted. -/
theorem finalRip_handlerHalted {e : RunEnd σ} {rip : GuestAddr} (hrip : s.vm.cpu.rip = rip)
    (hdeclines : em.DeclinesInPlace) (h : em.handlerHalted s = .returned e) :
    e.result.finalRip = rip ∧ ∀ f ∈ e.notified, f = s.vm.cpu.fault := by
  have hreport {s : RunState σ} (hrip : s.vm.cpu.rip = rip) :
      (em.report s).result.finalRip = rip ∧ ∀ f ∈ (em.report s).notified, f = s.vm.cpu.fault := by
    rw [report]
    split
    · exact ⟨hrip, fun f hf => List.mem_singleton.mp hf⟩
    · refine ⟨hrip, fun f hf => ?_⟩
      cases hf
  unfold handlerHalted at h
  split at h
  · cases h
    exact hreport hrip
  · rename_i cb hcb
    split at h
    · split at h
      · cases h
      · rename_i vm hdeclined
        obtain ⟨hkept, hfault⟩ := hdeclines cb hcb s.vm.cpu.fault s.vm (by rw [hdeclined])
        rw [hdeclined] at hkept hfault
        cases h
        have hvm : vm.cpu.rip = rip := hkept.trans hrip
        refine ⟨(hreport (s := { s with vm }) hvm).1, fun f hf => ?_⟩
        exact ((hreport (s := { s with vm }) hvm).2 f hf).trans hfault
    · cases h
      exact hreport hrip

/-- The calls through memory that the run comes to can read their targets. -/
def CallsComplete (em : Emulator σ) (P : MemoryProvider σ) (maxInsns : Nat) (s₀ : RunState σ) :
    Prop :=
  ∀ i s, em.Comes P maxInsns s₀ i s → Calls i s →
    CallCompletes em.attached i (em.atHandler i s).vm.cpu (em.atHandler i s).vm.world

/-- A run ends with a fault notified only where a handler has latched it. -/
theorem finalRip_turns (hhooks : em.NoHooks) (hdeclines : em.DeclinesInPlace)
    (hcache : s₀.cache.Decoded) (hcompletes : em.CallsComplete P maxInsns s₀)
    (hreach : em.Reaches P maxInsns s₀ s) {e : RunEnd σ}
    (hturns : em.Turns P maxInsns s (.ends e)) {f : Fault} (hf : f ∈ e.notified) :
    e.result.finalRip = f.rip ∧ ∃ i s', em.Comes P maxInsns s₀ i s' ∧ f.rip = i.rip := by
  cases hturns with
  | spent hspent => cases hf
  | halted hhalted => cases hf
  | stub hstubs hat hbudget hrunning ht =>
      rw [stubTurn] at ht
      split at ht
      · split at ht
        · cases ht
          cases hf
        · cases ht
      · cases ht
        cases hf
  | undecoded hfetches => cases hf
  | returned hfetches hexits =>
      cases hexits with
      | handler hreplays hcalls hhalted hx =>
          have hcomes : em.Comes P maxInsns s₀ _ _ := ⟨s, _, _, _, hreach, hfetches, hreplays⟩
          have hat := Faults.precise hhooks (Comes.rip hhooks hcache hcomes) hcalls
            (hcompletes _ _ hcomes hcalls) (.inr hhalted)
          obtain ⟨hfinal, hnotified⟩ := finalRip_handlerHalted hat.rip hdeclines hx
          rw [hnotified f hf, hat.faultRip]
          exact ⟨hfinal, _, _, hcomes, rfl⟩
      | stopped h hcalls hrunning => cases hf
  | stopped hfetches hexits hstop => cases hf

/-- Without hooks, and when no call through memory loses its target, a handler that latches a
fault is left at its instruction, and so is the run that ends there. -/
theorem faults_precise (em : Emulator σ) (P : MemoryProvider σ) (vm : VmState σ)
    (cache : BlockCache) (entry : GuestAddr) (maxInsns : U64)
    (hread : em.attached.memRead = some P) (hcache : cache.Decoded) (hhooks : em.NoHooks)
    (hdeclines : em.DeclinesInPlace)
    (hcompletes : em.CallsComplete P maxInsns.toNat (enter vm cache entry)) :
    (∀ i s, em.Comes P maxInsns.toNat (enter vm cache entry) i s → Calls i s → em.Faults i s →
      FaultsAt (em.afterInsn i s).vm.cpu i) ∧
    ∀ e, em.Runs vm cache entry maxInsns e → ∀ f ∈ e.notified,
      e.result.finalRip = f.rip ∧
        ∃ i s, em.Comes P maxInsns.toNat (enter vm cache entry) i s ∧ f.rip = i.rip := by
  constructor
  · intro i s hcomes hcalls hfaults
    exact hfaults.precise hhooks (Comes.rip hhooks hcache hcomes) hcalls
      (hcompletes i s hcomes hcalls)
  · intro e hruns f hf
    obtain ⟨fuel, hrun⟩ := hruns
    rw [runWithCpu, hread] at hrun
    obtain ⟨s, hreach, hturns⟩ := ends_of_turns .start hrun
    exact finalRip_turns hhooks hdeclines hcache hcompletes hreach hturns hf

theorem faults_precise_hlt :
    (∀ i s, plain.Comes FakeMemory.provider 1 hltStart i s → Calls i s → plain.Faults i s →
      FaultsAt (plain.afterInsn i s).vm.cpu i) ∧
    ∀ e, plain.Runs ⟨{}, { mem := hltMemory }⟩ (fun _ => none) 0x1000 1 e → ∀ f ∈ e.notified,
      e.result.finalRip = f.rip ∧
        ∃ i s, plain.Comes FakeMemory.provider 1 hltStart i s ∧ f.rip = i.rip := by
  refine faults_precise plain FakeMemory.provider _ _ _ 1 rfl BlockCache.decoded_empty
    ⟨rfl, rfl, rfl, rfl, rfl, rfl⟩ ?_ ?_
  · intro cb hcb
    cases hcb
  · intro i s hcomes hcalls hcall
    rw [(hlt_comes hcomes).2] at hcall
    cases hcall

/-- `CALL [RAX]` at 0x1000, with a stack at 0x2000 and nothing at 0. -/
def callMemory : ShadowPages where
  pages := fun a => if a = 0x1000 then some fun i => if i = 0 then 0xFF else 0x10 else none
  privateRanges := [⟨0x2000, 0x1000⟩]

def shadowed : Emulator ShadowPages where
  fp := default
  attached := { memRead := some ShadowPages.provider, memWrite := some ShadowPages.provider }

/-- The target cannot be read, and the run ends at address 0. -/
theorem call_loses_rip :
    ¬ ∀ (em : Emulator ShadowPages) (vm : VmState ShadowPages) (cache : BlockCache)
      (entry : GuestAddr) (maxInsns : U64) (e : RunEnd ShadowPages), cache.Decoded → em.NoHooks →
        em.Runs vm cache entry maxInsns e → ∀ f ∈ e.notified, e.result.finalRip = f.rip := by
  intro h
  have hrun : (shadowed.runWithCpu 1 ⟨({} : Cpu).setR64 Reg.rsp 0x2100, { mem := callMemory }⟩
      (fun _ => none) 0x1000 1).any (fun e =>
        e.notified.any fun f => e.result.finalRip != f.rip) = true := by
    decide +kernel
  obtain ⟨e, he, hlost⟩ := (Option.any_eq_true _ _).mp hrun
  obtain ⟨f, hf, hne⟩ := List.any_eq_true.mp hlost
  rw [bne_iff_ne] at hne
  exact hne (h shadowed _ _ _ 1 e BlockCache.decoded_empty ⟨rfl, rfl, rfl, rfl, rfl, rfl⟩
    ⟨1, he⟩ f hf)

end Emulator

end PicoCpu
