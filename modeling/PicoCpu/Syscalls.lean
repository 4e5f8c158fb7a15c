import PicoCpu.RunResults
import PicoCpu.DoubleShifts

/-!
The canned system calls: the hook that `install_default_syscalls` adds, which addresses it is fired
for, and how the run ends at a SYSCALL after it.
-/

namespace PicoCpu

open H Proc Decode Emulator

/-! ### The canned dispatch -/

inductive SyscallEntry where
  | ntClose | ntAllocateVirtualMemory | ntFreeVirtualMemory | ntProtectVirtualMemory
  | ntQueryInformationProcess | ntTerminateThread
  deriving DecidableEq

/-- `g_syscall_numbers`. -/
abbrev SyscallNumbers := SyscallEntry → U32

def defaultSyscallNumbers : SyscallNumbers
  | .ntClose => 0x000F
  | .ntAllocateVirtualMemory => 0x0018
  | .ntFreeVirtualMemory => 0x001E
  | .ntProtectVirtualMemory => 0x0050
  | .ntQueryInformationProcess => 0x0019
  | .ntTerminateThread => 0x0024

def setSyscallNumber (numbers : SyscallNumbers) (which : SyscallEntry) (number : U32) :
    SyscallNumbers :=
  Function.update numbers which number

section Dispatch

variable {σ : Type}

/-- Every entry of the table answers `STATUS_SUCCESS` and halts. -/
def serviced (c : Cpu) : Cpu := (c.setR64 Reg.rax 0).halt

def cannedSyscallDispatch (numbers : SyscallNumbers) (i : Insn) (vm : VmState σ) : VmState σ :=
  if i.kind ≠ .syscall then vm
  else
    let sysno : U32 := (vm.cpu.r32 Reg.rax).setWidth 32
    if sysno = numbers .ntClose then vm.mapCpu serviced
    else if sysno = numbers .ntAllocateVirtualMemory then vm.mapCpu serviced
    else if sysno = numbers .ntFreeVirtualMemory ∨ sysno = numbers .ntProtectVirtualMemory then
      vm.mapCpu serviced
    else if sysno = numbers .ntQueryInformationProcess then vm.mapCpu serviced
    else if sysno = numbers .ntTerminateThread then vm.mapCpu serviced
    else vm

/-- The hook of `install_default_syscalls`, with the numbers as they are at the call. -/
def syscallHook (numbers : SyscallNumbers) : InsnHook σ where
  lo := 0
  hi := 0
  callback := cannedSyscallDispatch numbers
  filterOp := .syscall

def installDefaultSyscalls (numbers : SyscallNumbers) (em : Emulator σ) : Emulator σ :=
  { em with insnHooks := em.insnHooks ++ [syscallHook numbers] }

/-- The number in EAX is one of those in the table. -/
def Registered (numbers : SyscallNumbers) (c : Cpu) : Prop :=
  ∃ entry, (c.r32 Reg.rax).setWidth 32 = numbers entry

theorem cannedSyscallDispatch_registered {numbers : SyscallNumbers} {i : Insn} {vm : VmState σ}
    (hkind : i.kind = .syscall) (h : Registered numbers vm.cpu) :
    cannedSyscallDispatch numbers i vm = vm.mapCpu serviced := by
  obtain ⟨entry, hentry⟩ := h
  unfold cannedSyscallDispatch
  rw [if_neg (not_not_intro hkind)]
  dsimp only
  split_ifs with hclose hallocate hfree hquery hterminate
  · rfl
  · rfl
  · rfl
  · rfl
  · rfl
  · cases entry with
    | ntClose => exact absurd hentry hclose
    | ntAllocateVirtualMemory => exact absurd hentry hallocate
    | ntFreeVirtualMemory => exact absurd (.inl hentry) hfree
    | ntProtectVirtualMemory => exact absurd (.inr hentry) hfree
    | ntQueryInformationProcess => exact absurd hentry hquery
    | ntTerminateThread => exact absurd hentry hterminate

/-- The range of the hook is the address zero alone. -/
theorem fireInsn_installed (em : Emulator σ) {numbers : SyscallNumbers} {i : Insn}
    (hkind : i.kind = .syscall) (vm : VmState σ) :
    (installDefaultSyscalls numbers em).fireInsn i vm =
      if i.rip = 0 then cannedSyscallDispatch numbers i (em.fireInsn i vm)
      else em.fireInsn i vm := by
  have hrange : (syscallHook numbers : InsnHook σ).inRange i.rip = decide (i.rip = 0) := by
    have hlow : (0 : GuestAddr).ule i.rip = true := by
      rw [BitVec.ule, decide_eq_true_eq]
      exact Nat.zero_le _
    have hhigh : i.rip.ule (0 : GuestAddr) = decide (i.rip = 0) := by
      rw [BitVec.ule, decide_eq_decide, ← BitVec.toNat_inj]
      exact Nat.le_zero
    change ((0 : GuestAddr).ult 0 || ((0 : GuestAddr).ule i.rip && i.rip.ule 0)) = _
    rw [hlow, hhigh]
    rfl
  have hfilter : ((syscallHook numbers : InsnHook σ).filterOp == .invalid ||
      (syscallHook numbers : InsnHook σ).filterOp == i.kind) = true := by
    rw [hkind]
    rfl
  change (em.insnHooks ++ [syscallHook numbers]).foldl _ vm = _
  rw [List.foldl_append, List.foldl_cons, List.foldl_nil, hfilter, hrange, Bool.true_and]
  simp only [decide_eq_true_eq]
  rfl

/-- There it does what it is for. -/
theorem fireInsn_registered (em : Emulator σ) {numbers : SyscallNumbers} {i : Insn}
    (hkind : i.kind = .syscall) (hrip : i.rip = 0) {vm : VmState σ}
    (h : Registered numbers (em.fireInsn i vm).cpu) :
    (installDefaultSyscalls numbers em).fireInsn i vm = (em.fireInsn i vm).mapCpu serviced := by
  rw [fireInsn_installed em hkind, if_pos hrip, cannedSyscallDispatch_registered hkind h]

end Dispatch

/-! ### Decoding -/

/-- The bytes of a SYSCALL follow the prefixes. -/
structure SyscallAt (fetch : Fetch) (fuel : Nat) (px : Prefixes) (at_ : U8) : Prop where
  scan : scanPrefixes fetch fuel 0 {} = some (.ok (px, at_))
  legacy : px.isVex = false
  bytes : Parse.Holds fetch at_ [0x0F, 0x05]

theorem firstOf_syscall (px : Prefixes) (out : Insn) :
    Parse.firstOf .unsupportedOpcode
      ([Parse.when ((0x05 : U8) == 0x38) (decode0F38 px out),
        Parse.when ((0x05 : U8) == 0x3A) (decode0F3A px out)] ++
      (if px.rep || px.repne then sseScalar px 0x05 out else []) ++
      (if px.opsizePfx then ssePackedDouble px 0x05 out else []) ++
      (if px.noMandatory then ssePackedSingle px 0x05 out else []) ++
      (if px.opsizePfx then sse2Integer px 0x05 out else []) ++
      (if px.rep then sseRep px 0x05 out else []) ++
      generalTwoByte px 0x05 out) =
    pure { out with
      kind := .syscall, handler := .opSyscall
      flags := { out.flags with controlFlow := true } } := by
  have hmaps : Skips [Parse.when ((0x05 : U8) == 0x38) (decode0F38 px out),
      Parse.when ((0x05 : U8) == 0x3A) (decode0F3A px out)] := skips_of_replicate (n := 2) rfl
  have hscalar : Skips (sseScalar px 0x05 out) :=
    skips_of_replicate (n := 5) (by unfold sseScalar; cases px.repne <;> rfl)
  have hdouble : Skips (ssePackedDouble px 0x05 out) := skips_of_replicate (n := 3) rfl
  have hsingle : Skips (ssePackedSingle px 0x05 out) := skips_of_replicate (n := 5) rfl
  have hinteger : Skips (sse2Integer px 0x05 out) := skips_of_replicate (n := 8) rfl
  have hrep : Skips (sseRep px 0x05 out) := skips_of_replicate (n := 3) rfl
  rw [firstOf_append_of_skips (skips_append (skips_append (skips_append (skips_append
    (skips_append hmaps (skips_ite hscalar)) (skips_ite hdouble)) (skips_ite hsingle))
    (skips_ite hinteger)) (skips_ite hrep))]
  unfold generalTwoByte
  cases px.rep <;> rfl

theorem decodeTwoByte_syscall {fetch : Fetch} {p : U8} (px : Prefixes) (out : Insn)
    (h : fetch p = .ok 0x05) : (decodeTwoByte px out).run fetch p =
      .ok ({ out with
        kind := .syscall, handler := .opSyscall
        flags := { out.flags with controlFlow := true } }, p + 1) := by
  rw [decodeTwoByte, readByte, Parse.symbol_bind, Parse.run, h]
  dsimp only
  rw [firstOf_syscall, Parse.pure_eq, Parse.run]

theorem SyscallAt.decoded {fetch : Fetch} {fuel : Nat} {px : Prefixes} {at_ : U8}
    {rip : GuestAddr} {i : Insn} (h : SyscallAt fetch fuel px at_)
    (hdecode : decodeWithSource fetch rip fuel = some (.ok i)) :
    i.kind = .syscall ∧ i.handler = .opSyscall := by
  obtain ⟨hescape, hsecond, _⟩ := h.bytes
  rw [decodeWithSource, h.scan] at hdecode
  dsimp only at hdecode
  rw [decodeAfterPrefixes, h.legacy, if_neg Bool.false_ne_true, decodePrimary_escape _ _ hescape,
    decodeTwoByte_syscall _ _ hsecond] at hdecode
  cases hdecode
  exact ⟨rfl, rfl⟩

/-! ### The end of the run -/

section Run

variable {σ : Type} {em : Emulator σ} {i : Insn}

/-- The run ends at the instruction, halted with status Ok and no fault, and but for RAX, which is
zero, the registers are those before it. -/
structure EndsServiced (em : Emulator σ) (maxInsns : Nat) (i : Insn) (rest : List Insn)
    (s : RunState σ) (e : RunEnd σ) : Prop where
  returned : em.replayBlock maxInsns (i :: rest) s = .returned e
  status : e.result.status = .ok
  halted : e.state.vm.cpu.halted = true
  unfaulted : e.state.vm.cpu.fault.isSet = false
  registers : e.state.vm.cpu.gpr = Function.update s.vm.cpu.gpr Reg.rax 0

/-- The state in which the dispatcher looks whether the handler has halted the CPU. -/
def Emulator.afterHandler (em : Emulator σ) (i : Insn) (s : RunState σ) : RunState σ :=
  em.execute i (em.announce i
    { s with vm := { s.vm with cpu := (s.vm.cpu.clearBranch.execBreakpointAt i.rip).2 } })

/-- A recovery callback does all of it by itself: shown the fault it declines, and leaves the CPU
halted with nothing latched. -/
def ServicedByRecovery (em : Emulator σ) (i : Insn) (s : RunState σ) : Prop :=
  ∃ cb vm, em.recovery = some cb ∧
    cb (em.afterHandler i s).vm.cpu.fault (em.afterHandler i s).vm = (false, vm) ∧
    vm.cpu.halted = true ∧ vm.cpu.fault.isSet = false ∧
    vm.cpu.gpr = Function.update s.vm.cpu.gpr Reg.rax 0

/-- Away from the address zero the hook makes no difference. -/
theorem afterHandler_installed (em : Emulator σ) {numbers : SyscallNumbers}
    (hkind : i.kind = .syscall) (hrip : i.rip ≠ 0) (s : RunState σ) :
    (installDefaultSyscalls numbers em).afterHandler i s = em.afterHandler i s := by
  have hfire : (installDefaultSyscalls numbers em).fireInsn i = em.fireInsn i := by
    funext vm
    rw [fireInsn_installed em hkind, if_neg hrip]
  rw [afterHandler, announce, hfire]
  rfl

theorem callInsn_syscall (em : Emulator σ) (hhandler : i.handler = .opSyscall) (vm : VmState σ) :
    (em.callInsn i vm).cpu = vm.cpu.setFault .invalidOpcode vm.cpu.rip .ok
      (some "SYSCALL -- install an INSN hook with filter_op=Syscall to service") := by
  rw [callInsn, Insn.run, hhandler]
  rfl

/-- The handler latches a fault whatever a hook has done before it. -/
theorem afterHandler_syscall (em : Emulator σ) (hhandler : i.handler = .opSyscall)
    (s : RunState σ) : (em.afterHandler i s).vm.cpu.halted = true ∧
      (em.afterHandler i s).vm.cpu.fault.isSet = true := by
  have hcpu : (em.afterHandler i s).vm.cpu = _ := callInsn_syscall em hhandler _
  rw [hcpu]
  exact ⟨rfl, rfl⟩

theorem replayBlock_afterHandler {maxInsns : Nat} {rest : List Insn} {s : RunState σ}
    (hrun : s.vm.cpu.halted = false)
    (hbreak : (s.vm.cpu.clearBranch.execBreakpointAt i.rip).1 = false)
    (hhalted : (em.afterHandler i s).vm.cpu.halted = true) :
    em.replayBlock maxInsns (i :: rest) s = em.handlerHalted (em.afterHandler i s) := by
  rw [afterHandler] at hhalted
  rw [replayBlock, hrun, if_neg Bool.false_ne_true, afterHandler]
  generalize s.vm.cpu.clearBranch.execBreakpointAt i.rip = scan at hbreak hhalted ⊢
  obtain ⟨hit, c⟩ := scan
  cases hbreak
  dsimp only at hhalted ⊢
  rw [if_pos hhalted]

theorem report_status_ok_iff (s : RunState σ) :
    (em.report s).result.status = .ok ↔ s.vm.cpu.fault.isSet = false := by
  rw [report]
  split
  next hfault => exact iff_of_false (faultStatus_ne_ok _) (by rw [hfault]; exact Bool.noConfusion)
  next hclear => exact iff_of_true rfl (Bool.eq_false_iff.mpr hclear)

/-- Without a recovery callback the call is reported as a fault. -/
theorem not_endsServiced {maxInsns : Nat} {rest : List Insn} {s : RunState σ} {e : RunEnd σ}
    (hhandler : i.handler = .opSyscall) (hrecovery : em.recovery = none)
    (hrun : s.vm.cpu.halted = false)
    (hbreak : (s.vm.cpu.clearBranch.execBreakpointAt i.rip).1 = false) :
    ¬ EndsServiced em maxInsns i rest s e := by
  rintro ⟨hreturned, hstatus, -⟩
  obtain ⟨hhalted, hfault⟩ := afterHandler_syscall em hhandler s
  rw [replayBlock_afterHandler hrun hbreak hhalted, handlerHalted, hrecovery] at hreturned
  cases hreturned
  rw [report_status_ok_iff, hfault] at hstatus
  cases hstatus

/-- The canned hook never gets a SYSCALL serviced: the handler runs after it and faults, and only a
recovery callback that does the work itself makes up for that. -/
theorem syscall_serviced_iff {fetch : Fetch} {fuel : Nat} {px : Prefixes} {at_ : U8}
    {rip : GuestAddr} {numbers : SyscallNumbers} {maxInsns : Nat} {rest : List Insn}
    {s : RunState σ} (hsyscall : SyscallAt fetch fuel px at_)
    (hdecode : decodeWithSource fetch rip fuel = some (.ok i))
    (hrun : s.vm.cpu.halted = false)
    (hbreak : (s.vm.cpu.clearBranch.execBreakpointAt i.rip).1 = false) :
    (∃ e, EndsServiced (installDefaultSyscalls numbers em) maxInsns i rest s e) ↔
      ServicedByRecovery (installDefaultSyscalls numbers em) i s := by
  generalize installDefaultSyscalls numbers em = em
  have hhandler := (hsyscall.decoded hdecode).2
  obtain ⟨hhalted, hfault⟩ := afterHandler_syscall em hhandler s
  have hreplay : em.replayBlock maxInsns (i :: rest) s = em.handlerHalted (em.afterHandler i s) :=
    replayBlock_afterHandler hrun hbreak hhalted
  rw [handlerHalted] at hreplay
  constructor
  · rintro ⟨e, h⟩
    cases hrecovery : em.recovery with
    | none => exact absurd h (not_endsServiced hhandler hrecovery hrun hbreak)
    | some cb =>
        obtain ⟨hreturned, hstatus, hend, -, hregisters⟩ := h
        rw [hreplay, hrecovery] at hreturned
        simp only [hfault, if_true] at hreturned
        rcases hcb : cb (em.afterHandler i s).vm.cpu.fault (em.afterHandler i s).vm with
          ⟨_ | _, vm⟩
        · rw [hcb] at hreturned
          cases hreturned
          have hclear := (report_status_ok_iff _).mp hstatus
          rw [report, if_neg (Bool.eq_false_iff.mp hclear)] at hend hregisters
          exact ⟨cb, vm, hrecovery, hcb, hend, hclear, hregisters⟩
        · rw [hcb] at hreturned
          cases hreturned
  · rintro ⟨cb, vm, hrecovery, hcb, hend, hclear, hregisters⟩
    have hreport : em.report { em.afterHandler i s with vm } =
        RunState.finish { em.afterHandler i s with vm } := by
      rw [report, if_neg (Bool.eq_false_iff.mp hclear)]
    simp only [hrecovery, hfault, if_true, hcb, hreport] at hreplay
    exact ⟨_, hreplay, rfl, hend, hclear, hregisters⟩

end Run

/-! ### A call to NtClose -/

/-- SYSCALL at 1000. -/
def syscallInsn : Insn :=
  { rip := 0x1000, len := 2, kind := .syscall, handler := .opSyscall, cond := .none
    flags := { controlFlow := true } }

theorem syscallInsn_decoded :
    decodeWithSource (codeAt [0x0F, 0x05]) 0x1000 1 = some (.ok syscallInsn) := by
  rfl

def bareEmulator : Emulator Unit := { fp := default, attached := ⟨none, none, [], []⟩ }

/-- The number of NtClose is in EAX. -/
def closing : RunState Unit :=
  { vm := ⟨({} : Cpu).setR64 Reg.rax 0x0F, { mem := () }⟩, cache := fun _ => none }

/-- A registered number at a SYSCALL that is not at zero ends the run with a fault. -/
theorem ntClose_unserviced : Registered defaultSyscallNumbers closing.vm.cpu ∧
    ¬ ∃ e, EndsServiced (installDefaultSyscalls defaultSyscallNumbers bareEmulator) 100 syscallInsn
      [] closing e := by
  refine ⟨⟨.ntClose, rfl⟩, ?_⟩
  rintro ⟨e, h⟩
  exact not_endsServiced rfl rfl rfl rfl h

theorem syscall_serviced_iff_ntClose :
    (∃ e, EndsServiced (installDefaultSyscalls defaultSyscallNumbers bareEmulator) 100 syscallInsn
      [] closing e) ↔
    ServicedByRecovery (installDefaultSyscalls defaultSyscallNumbers bareEmulator) syscallInsn
      closing := by
  have hsyscall : SyscallAt (codeAt [0x0F, 0x05]) 1 {} 0 := ⟨rfl, rfl, rfl, rfl, trivial⟩
  exact syscall_serviced_iff hsyscall syscallInsn_decoded rfl rfl

end PicoCpu
