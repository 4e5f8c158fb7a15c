import PicoCpu.BlockCache
import PicoCpu.Faults

/-!
Which handlers let a failed memory access pass. Every handler but the x87 stores ends with a
fault latched when an access has failed, and of the x87 handlers only the popping compares go on
to change the register stack.
-/

namespace PicoCpu

open H Proc Handlers

/-! ### What is to hold -/

/-- The register stack, its top and the status word. -/
def Cpu.fpu (c : Cpu) : Nat × (Nat → U64) × U16 := (c.fpuTop, c.fpuSt, c.fpuSw)

def Handler.isX87 : Handler → Bool
  | .opFld | .opFst | .opFstp | .opFild | .opFistp | .opFadd | .opFsub | .opFmul | .opFdiv
  | .opFchs | .opFabs | .opFsqrt | .opFsin | .opFcos | .opF2xm1 | .opFrndint | .opFaddp | .opFsubp
  | .opFmulp | .opFdivp | .opFpatan | .opFyl2x | .opFxch | .opFscale | .opFcom | .opFcomp
  | .opFcompp | .opFninit | .opFnstsw | .opFnstcw | .opFldcw => true
  | _ => false

/-- Whatever is attached and whatever the CPU and the memory are: after a failed access a fault
is latched, and an x87 instruction has not touched the register stack. -/
structure Insn.ReportsFailures (fp : HostFp) (i : Insn) : Prop where
  latches : ∀ (σ : Type) (at_ : Attached σ) (c : Cpu) (w : World σ),
    SomeFailed ((i.run fp).runOn at_ c w).trace → ((i.run fp).runOn at_ c w).value.2.Latched
  keepsFpu : ∀ (σ : Type) (at_ : Attached σ) (c : Cpu) (w : World σ),
    SomeFailed ((i.run fp).runOn at_ c w).trace → i.handler.isX87 = true →
      ((i.run fp).runOn at_ c w).value.2.fpu = c.fpu

/-- The x87 stores drop the status of the write, and the popping compares go on after a source
that could not be read. -/
def Insn.forgets (i : Insn) : Prop :=
  (i.handler ∈ [.opFst, .opFstp, .opFcomp, .opFcompp] ∧ i.src.isMem = true ∧
      Within.IsFloatSize i.opSize) ∨
    (i.handler = .opFistp ∧ isIntSize i.opSize = true) ∨
    (i.handler = .opFnstsw ∧ i.dst.kind ≠ .reg) ∨ i.handler = .opFnstcw

theorem forgets_of_drops {i : Insn} (h : i.handler.drops i) : i.forgets := by
  unfold Handler.drops at h
  split at h
  · rename_i hfst
    exact .inl ⟨by rw [hfst]; decide, h⟩
  · rename_i hfstp
    exact .inl ⟨by rw [hfstp]; decide, h⟩
  · exact .inr (.inl ⟨‹_›, h⟩)
  · exact .inr (.inr (.inl ⟨‹_›, h⟩))
  · exact .inr (.inr (.inr ‹_›))
  · exact h.elim

/-! ### Reported failures -/

/-- Every answer is possible. -/
def anyAnswer : machine.Rely := hooksFollow fun _ _ => True

theorem follows_any (branches : Prop) : Follows branches fun _ _ => True :=
  ⟨fun _ => trivial, fun _ _ => trivial, fun _ => trivial, fun _ _ _ _ _ _ => trivial,
    fun _ _ _ => trivial⟩

theorem anyAnswer_env {σ : Type} (at_ : Attached σ) (o : MachineOp) (w : World σ) :
    anyAnswer o (at_.env o w).1 := by
  cases o with
  | memHooks addr size value isWrite => exact fun _ => trivial
  | attached isWrite => exact trivial
  | read addr size => exact trivial
  | write addr size data => exact trivial
  | nextTsc => exact trivial
  | nextRand => exact trivial

/-- What holds whatever is answered holds of a run. -/
theorem post_runOn {σ : Type} {p : H Unit} {c : Cpu}
    {Q : List machine.Event → Option Unit → Cpu → Prop} (h : p.Post anyAnswer c Q)
    (at_ : Attached σ) (w : World σ) :
    Q (p.runOn at_ c w).trace (p.runOn at_ c w).value.1 (p.runOn at_ c w).value.2 :=
  Prog.All.exec h (anyAnswer_env at_) w

theorem latches_of_not_drops (fp : HostFp) {i : Insn} (h : ¬ i.handler.drops i) {σ : Type}
    (at_ : Attached σ) (c : Cpu) (w : World σ)
    (hfailed : SomeFailed ((i.run fp).runOn at_ c w).trace) :
    ((i.run fp).runOn at_ c w).value.2.Latched := by
  have hends := (Within.callHandler fp i.handler i).sound (follows_any _) c
  exact ((post_runOn hends at_ w).2 hfailed).resolve_left h

/-! ### The register stack -/

/-- The program leaves the register stack alone; with `early`, where it returns early. -/
structure KeepsFpu (early : Bool) {α : Type} (p : H α) : Prop where
  post : ∀ c, p.Post anyAnswer c fun _ a c' => (early = true → a = none) → c'.fpu = c.fpu

namespace KeepsFpu

variable {α β : Type} {early : Bool}

theorem ret (a : α) : KeepsFpu early (pure a : H α) := ⟨fun _ _ => rfl⟩
theorem exit : KeepsFpu early (Proc.exit : H α) := ⟨fun _ _ => rfl⟩
theorem gets (f : Cpu → α) : KeepsFpu early (H.gets f) := ⟨fun _ _ => rfl⟩

/-- An update does not return early. -/
theorem modify (f : Cpu → Cpu) : KeepsFpu true (Proc.modify f) :=
  ⟨fun _ h => nomatch h rfl⟩

theorem update {f : Cpu → Cpu} (hf : ∀ c, (f c).fpu = c.fpu) : KeepsFpu early (Proc.modify f) :=
  ⟨fun c _ => hf c⟩

theorem bind {p : H α} {f : α → H β} (hp : KeepsFpu false p) (hf : ∀ a, KeepsFpu early (f a)) :
    KeepsFpu early (p >>= f) := by
  refine ⟨fun c => post_bind.mpr ((hp.post c).mono ?_)⟩
  intro tr a c' hc
  have hsame := hc Bool.noConfusion
  cases a with
  | none => exact fun _ => hsame
  | some a => exact ((hf a).post c').mono fun _ _ _ hc' hearly => (hc' hearly).trans hsame

theorem ite {c : Prop} [Decidable c] {p q : H α} (hp : KeepsFpu early p)
    (hq : KeepsFpu early q) : KeepsFpu early (if c then p else q) := by
  split
  · exact hp
  · exact hq

theorem raise (kind : FaultKind) (addr : GuestAddr) (reason : Status) (note : String) :
    KeepsFpu early (H.raise kind addr reason note : H α) :=
  bind (update fun _ => rfl) fun _ => exit

theorem raiseAtRip (kind : FaultKind) (reason : Status) (note : String) :
    KeepsFpu early (H.raiseAtRip kind reason note : H α) :=
  bind (gets Cpu.rip) fun rip => raise kind rip reason note

theorem ask {o : MachineOp} : KeepsFpu early (Proc.ask (S := machine) o : H (machine.Answer o)) :=
  ⟨fun _ _ _ _ => rfl⟩

theorem load (addr : GuestAddr) (size : Nat) (kind : Status → FaultKind) (note : String) :
    KeepsFpu early (H.load addr size kind note) := by
  refine bind ask fun r => ?_
  cases r with
  | ok buf => exact ret buf
  | error s => exact raise (kind s) addr s note

theorem tryStore (addr : GuestAddr) (size : Nat) (data : Buf) :
    KeepsFpu early (Handlers.tryStore addr size data) := by
  refine bind ask fun r => ?_
  cases r with
  | ok u => exact ret true
  | error s => exact ret false

theorem x87Addr (isWrite : Bool) (note : String) (insn : Insn) (op : Operand) :
    KeepsFpu early (Handlers.x87Addr isWrite note insn op) := by
  refine bind (gets Cpu.rip) fun rip => ?_
  refine bind ?_ fun _ => gets _
  exact bind ask fun present => ite (raise ..) (ret ())

section Float

variable (fp : HostFp) (insn : Insn)

theorem readMemF : KeepsFpu early (Handlers.readMemF fp insn) := by
  refine bind (x87Addr ..) fun addr => ?_
  refine ite ?_ (ite ?_ (ite ?_ (raiseAtRip ..)))
  · exact bind (load ..) fun b => ret _
  · exact bind (load ..) fun b => ret _
  · exact bind (load ..) fun b => ret _

theorem writeMemF (v : U64) : KeepsFpu early (Handlers.writeMemF fp insn v) := by
  refine bind (x87Addr ..) fun addr => ?_
  exact ite (tryStore ..) (ite (tryStore ..) (ite (tryStore ..) (raiseAtRip ..)))

theorem readMemI : KeepsFpu early (Handlers.readMemI insn) := by
  refine bind (x87Addr ..) fun addr => ?_
  exact bind (load ..) fun b => ite (ret _) (raiseAtRip ..)

theorem writeMemI (v : U64) : KeepsFpu early (Handlers.writeMemI insn v) :=
  bind (x87Addr ..) fun _ => ite (tryStore ..) (raiseAtRip ..)

theorem popIf (written : Bool) : KeepsFpu true (do
    if !written then Proc.exit
    Proc.modify Cpu.fpuPop : H Unit) :=
  ite (bind exit fun _ => modify _) (modify _)

theorem fpOperand : KeepsFpu early (Handlers.fpOperand fp insn) :=
  ite (readMemF fp insn) (gets _)

theorem fpOpWith (f : U64 → U64 → U64) : KeepsFpu true (Handlers.fpOpWith fp f insn) :=
  bind (fpOperand fp insn) fun _ => modify _

theorem opFcom : KeepsFpu true (Handlers.opFcom fp insn) :=
  bind (fpOperand fp insn) fun _ => modify _

theorem opFld : KeepsFpu true (Handlers.opFld fp insn) :=
  ite (bind (readMemF fp insn) fun _ => modify _) (modify _)

theorem opFild : KeepsFpu true (Handlers.opFild fp insn) :=
  bind (readMemI insn) fun _ => modify _

theorem opFst : KeepsFpu true (Handlers.opFst fp insn) :=
  ite (bind (gets _) fun _ => bind (writeMemF fp insn _) fun _ => ret _) (modify _)

theorem opFstp : KeepsFpu true (Handlers.opFstp fp insn) := by
  refine ite ?_ ?_
  · exact bind (gets _) fun v => bind (writeMemF fp insn v) fun written => popIf written
  · exact ⟨fun _ h => nomatch h rfl⟩

theorem opFistp : KeepsFpu true (Handlers.opFistp fp insn) :=
  bind (gets _) fun v => bind (writeMemI insn v) fun written => popIf written

theorem opFnstsw : KeepsFpu true (Handlers.opFnstsw insn) := by
  refine bind (gets _) fun sw => ite (modify _) ?_
  exact bind (x87Addr ..) fun addr => bind (tryStore ..) fun _ => ret _

theorem opFnstcw : KeepsFpu true (Handlers.opFnstcw insn) := by
  refine bind (gets Cpu.fpuCw) fun cw => ?_
  exact bind (x87Addr ..) fun addr => bind (tryStore ..) fun _ => ret _

theorem opFldcw : KeepsFpu true (Handlers.opFldcw insn) := by
  refine bind (x87Addr ..) fun addr => bind ask fun r => ?_
  cases r with
  | ok buf => exact modify _
  | error s => exact raiseAtRip ..

end Float

end KeepsFpu

/-- The popping compares go on after their source has failed. -/
def Handler.popsAnyway (h : Handler) : Bool := h == .opFcomp || h == .opFcompp

/-- Every other x87 handler returns early when an access has failed, and leaves the register
stack alone until then. -/
theorem x87_within (fp : HostFp) {h : Handler} (hx87 : h.isX87 = true)
    (hpops : h.popsAnyway = false) (insn : Insn) :
    Within (h.grade insn) (callHandler fp h insn) ∧ KeepsFpu true (callHandler fp h insn) := by
  cases h with
  | opFld => exact ⟨.opFld fp id, .opFld fp insn⟩
  | opFst => exact ⟨.opFst fp id And.intro, .opFst fp insn⟩
  | opFstp => exact ⟨.opFstp fp id And.intro, .opFstp fp insn⟩
  | opFild => exact ⟨.opFild fp trivial insn, .opFild fp insn⟩
  | opFistp => exact ⟨.opFistp fp trivial id, .opFistp fp insn⟩
  | opFadd | opFsub | opFmul | opFdiv => exact ⟨.fpOpWith fp id, .fpOpWith fp insn _⟩
  | opFcom => exact ⟨.opFcom fp id, .opFcom fp insn⟩
  | opFchs | opFabs | opFsqrt | opFsin | opFcos | opF2xm1 | opFrndint | opFaddp | opFsubp
  | opFmulp | opFdivp | opFpatan | opFyl2x | opFxch | opFscale | opFninit =>
      exact ⟨.update fun _ => rfl, .modify _⟩
  | opFnstsw => exact ⟨.opFnstsw id id, .opFnstsw insn⟩
  | opFnstcw => exact ⟨.opFnstcw trivial trivial insn, .opFnstcw insn⟩
  | opFldcw => exact ⟨.opFldcw trivial insn, .opFldcw insn⟩
  | opFcomp | opFcompp => cases hpops
  | _ => cases hx87

/-- No access of the program fails: it makes none. -/
structure NoFailure {α : Type} (p : H α) : Prop where
  post : ∀ c, p.Post anyAnswer c fun tr _ _ => ¬ SomeFailed tr

namespace NoFailure

variable {α β : Type}

theorem gets (f : Cpu → α) : NoFailure (H.gets f) := ⟨fun _ => not_someFailed_nil⟩

theorem modify (f : Cpu → Cpu) : NoFailure (Proc.modify f) := ⟨fun _ => not_someFailed_nil⟩

theorem raise (kind : FaultKind) (addr : GuestAddr) (reason : Status) (note : String) :
    NoFailure (H.raise kind addr reason note : H α) := ⟨fun _ => not_someFailed_nil⟩

theorem attached (isWrite : Bool) : NoFailure (H.attached isWrite) :=
  ⟨fun _ _ _ hfailed => someFailed_singleton.mp hfailed⟩

theorem bind {p : H α} {f : α → H β} (hp : NoFailure p) (hf : ∀ a, NoFailure (f a)) :
    NoFailure (p >>= f) := by
  refine ⟨fun c => post_bind.mpr ((hp.post c).mono ?_)⟩
  intro tr a c' htr
  cases a with
  | none => exact htr
  | some a =>
      refine ((hf a).post c').mono fun tr' _ _ htr' hfailed => ?_
      exact (someFailed_append.mp hfailed).elim htr htr'

theorem ite {c : Prop} [Decidable c] {p q : H α} (hp : c → NoFailure p)
    (hq : ¬ c → NoFailure q) : NoFailure (if c then p else q) := by
  split
  · exact hp ‹_›
  · exact hq ‹_›

/-- An x87 source that is a register, or whose size is none of the three, is not read. -/
theorem fpOperand (fp : HostFp) {insn : Insn}
    (h : ¬ (insn.src.isMem = true ∧ Within.IsFloatSize insn.opSize)) :
    NoFailure (Handlers.fpOperand fp insn) := by
  refine ite (fun hmem => ?_) fun _ => gets _
  refine bind (bind (gets Cpu.rip) fun rip => ?_) fun addr => ?_
  · refine bind ?_ fun _ => gets _
    exact bind (attached false) fun present => ite (fun _ => raise ..) fun _ =>
      ⟨fun _ => not_someFailed_nil⟩
  · refine ite (fun h4 => absurd ⟨hmem, .inl h4⟩ h) fun _ => ?_
    refine ite (fun h8 => absurd ⟨hmem, .inr (.inl h8)⟩ h) fun _ => ?_
    refine ite (fun h10 => absurd ⟨hmem, .inr (.inr h10)⟩ h) fun _ => ?_
    exact bind (gets Cpu.rip) fun rip => raise ..

/-- The popping compares, on such a source. -/
theorem callHandler (fp : HostFp) {h : Handler} (hpops : h.popsAnyway = true) {insn : Insn}
    (hsrc : ¬ (insn.src.isMem = true ∧ Within.IsFloatSize insn.opSize)) :
    NoFailure (PicoCpu.callHandler fp h insn) := by
  have hcom : NoFailure (Proc.attempt (opFcom fp insn)) :=
    ⟨fun c => post_attempt.mpr ((bind (fpOperand fp hsrc) fun _ => modify _).post c)⟩
  rw [Handler.popsAnyway, Bool.or_eq_true, beq_iff_eq, beq_iff_eq] at hpops
  rcases hpops with rfl | rfl
  · exact bind hcom fun _ => modify _
  · exact bind hcom fun _ => modify _

end NoFailure

theorem reportsFailures_of_not_forgets (fp : HostFp) {i : Insn} (h : ¬ i.forgets) :
    i.ReportsFailures fp := by
  have hdrops : ¬ i.handler.drops i := fun hdrops => h (forgets_of_drops hdrops)
  refine ⟨fun σ at_ c w => latches_of_not_drops fp hdrops at_ c w, ?_⟩
  intro σ at_ c w hfailed hx87
  cases hpops : i.handler.popsAnyway with
  | false =>
      obtain ⟨hwithin, hkeeps⟩ := x87_within fp hx87 hpops i
      have hboth := post_runOn
        (((hwithin.sound (follows_any _)).post c).and (hkeeps.post c)) at_ w
      rcases hboth.1.2 hfailed with hdropped | ⟨hnone, _⟩
      · exact absurd hdropped hdrops
      · exact hboth.2 fun _ => hnone
  | true =>
      have hsrc : ¬ (i.src.isMem = true ∧ Within.IsFloatSize i.opSize) := by
        intro hsrc
        rw [Handler.popsAnyway, Bool.or_eq_true, beq_iff_eq, beq_iff_eq] at hpops
        refine h (.inl ⟨?_, hsrc⟩)
        rcases hpops with hpops | hpops
        · rw [hpops]; decide
        · rw [hpops]; decide
      have hnone := (NoFailure.callHandler fp hpops hsrc).post c
      exact absurd hfailed (post_runOn hnone at_ w)

/-! ### A memory that fails -/

def brokenMemory : MemoryProvider Unit where
  read _ _ out s := (.error .unmappedRead, out, s)
  write _ _ _ s := (.error .unmappedWrite, s)

def broken : Attached Unit := { memRead := some brokenMemory, memWrite := some brokenMemory }

section Broken

variable (c : Cpu) (w : World Unit)

theorem run_x87Addr_broken (isWrite : Bool) (note : String) (insn : Insn) (op : Operand) :
    (x87Addr isWrite note insn op).run broken.env c w =
      ⟨(some (ea c insn op), c), w, [⟨MachineOp.attached isWrite, true⟩]⟩ := by
  cases isWrite with
  | false => rfl
  | true => rfl

theorem run_tryStore_broken (addr : GuestAddr) (size : Nat) (data : Buf) :
    (tryStore addr size data).run broken.env c w =
      ⟨(some false, c), w, [⟨MachineOp.write addr size data, .error .unmappedWrite⟩]⟩ := rfl

theorem run_load_broken (addr : GuestAddr) (size : Nat) (note : String) :
    (H.load addr size pageFault note).run broken.env c w =
      ⟨(none, c.setFault .pageFault addr .unmappedRead (some note)), w,
        [⟨MachineOp.read addr size, .error .unmappedRead⟩]⟩ := rfl

/-- The two events of an x87 store. -/
def storeTrace (addr : GuestAddr) (size : Nat) (data : Buf) : List machine.Event :=
  [⟨MachineOp.attached true, true⟩, ⟨MachineOp.write addr size data, .error .unmappedWrite⟩]

theorem someFailed_storeTrace (addr : GuestAddr) (size : Nat) (data : Buf) :
    SomeFailed (storeTrace addr size data) :=
  ⟨_, List.mem_cons_of_mem _ (List.mem_singleton_self _), trivial⟩

/-- The two events of an x87 load. -/
def loadTrace (addr : GuestAddr) (size : Nat) : List machine.Event :=
  [⟨MachineOp.attached false, true⟩, ⟨MachineOp.read addr size, .error .unmappedRead⟩]

theorem someFailed_loadTrace (addr : GuestAddr) (size : Nat) :
    SomeFailed (loadTrace addr size) :=
  ⟨_, List.mem_cons_of_mem _ (List.mem_singleton_self _), trivial⟩

/-- The store fails, and the CPU is as before. -/
theorem run_writeMemF_broken (fp : HostFp) {insn : Insn}
    (hsize : Within.IsFloatSize insn.opSize) (v : U64) :
    ∃ addr size data, (writeMemF fp insn v).run broken.env c w =
      ⟨(some false, c), w, storeTrace addr size data⟩ := by
  rw [writeMemF, run_bind, run_x87Addr_broken, andThen_some]
  rcases hsize with hsize | hsize | hsize
  · rw [if_pos hsize, run_tryStore_broken]
    exact ⟨_, _, _, rfl⟩
  · rw [if_neg (by omega), if_pos hsize, run_tryStore_broken]
    exact ⟨_, _, _, rfl⟩
  · rw [if_neg (by omega), if_neg (by omega), if_pos hsize, run_tryStore_broken]
    exact ⟨_, _, _, rfl⟩

/-- A failed store that the handler does not report. -/
def Unreported (p : H Unit) : Prop :=
  ∃ a addr size data, p.run broken.env c w = ⟨(a, c), w, storeTrace addr size data⟩

theorem unreported_opFst (fp : HostFp) {insn : Insn} (hmem : insn.src.isMem = true)
    (hsize : Within.IsFloatSize insn.opSize) : Unreported c w (opFst fp insn) := by
  obtain ⟨addr, size, data, hrun⟩ := run_writeMemF_broken c w fp hsize (c.st 0)
  refine ⟨some (), addr, size, data, ?_⟩
  rw [opFst, if_pos hmem]
  simp only [run_bind, run_gets, andThen_some, hrun, run_pure, List.append_nil, List.nil_append]

/-- A failed store skips the pop, and nothing else. -/
theorem run_popIf_false : (do
    if !false then Proc.exit
    Proc.modify Cpu.fpuPop : H Unit).run broken.env c w = ⟨(none, c), w, []⟩ := rfl

theorem unreported_opFstp (fp : HostFp) {insn : Insn} (hmem : insn.src.isMem = true)
    (hsize : Within.IsFloatSize insn.opSize) : Unreported c w (opFstp fp insn) := by
  obtain ⟨addr, size, data, hrun⟩ := run_writeMemF_broken c w fp hsize (c.st 0)
  refine ⟨none, addr, size, data, ?_⟩
  rw [opFstp, if_pos hmem]
  simp only [run_bind, run_gets, andThen_some, hrun, run_popIf_false, List.append_nil,
    List.nil_append]

theorem unreported_opFistp (fp : HostFp) {insn : Insn} (hsize : isIntSize insn.opSize = true) :
    Unreported c w (opFistp fp insn) := by
  refine ⟨none, ea c insn insn.src, insn.opSize, storeLE ((fp.f64 .current).toI64 (c.st 0)), ?_⟩
  rw [opFistp]
  simp only [writeMemI, run_bind, run_gets, run_x87Addr_broken, andThen_some, if_pos hsize,
    run_tryStore_broken, run_popIf_false, List.append_nil, List.nil_append]
  rfl

theorem unreported_opFnstsw {insn : Insn} (hdst : insn.dst.kind ≠ .reg) :
    Unreported c w (opFnstsw insn) := by
  refine ⟨some (), ea c insn insn.dst, 2, storeLE (c.fpuSwWord.setWidth 64), ?_⟩
  simp only [opFnstsw, run_bind, run_gets, run_x87Addr_broken, andThen_some, if_neg hdst,
    run_tryStore_broken, run_pure, List.append_nil, List.nil_append]
  rfl

theorem unreported_opFnstcw (insn : Insn) : Unreported c w (opFnstcw insn) := by
  refine ⟨some (), ea c insn insn.src, 2, storeLE (c.fpuCw.setWidth 64), ?_⟩
  simp only [opFnstcw, run_bind, run_gets, run_x87Addr_broken, andThen_some,
    run_tryStore_broken, run_pure, List.append_nil, List.nil_append]
  rfl

/-- The source of a compare cannot be read, which latches a fault. -/
theorem run_opFcom_broken (fp : HostFp) {insn : Insn} (hmem : insn.src.isMem = true)
    (hsize : Within.IsFloatSize insn.opSize) :
    ∃ size, (opFcom fp insn).run broken.env c w =
      ⟨(none, c.setFault .pageFault (ea c insn insn.src) .unmappedRead (some "x87 read")), w,
        loadTrace (ea c insn insn.src) size⟩ := by
  rw [opFcom, fpOperand, if_pos hmem]
  simp only [readMemF, run_bind, run_x87Addr_broken, andThen_some]
  rcases hsize with hsize | hsize | hsize
  · rw [if_pos hsize, run_bind, run_load_broken]
    exact ⟨4, rfl⟩
  · rw [if_neg (by omega), if_pos hsize, run_bind, run_load_broken]
    exact ⟨8, rfl⟩
  · rw [if_neg (by omega), if_neg (by omega), if_pos hsize, run_bind, run_load_broken]
    exact ⟨10, rfl⟩

/-- A popping compare goes on to pop. -/
theorem run_pops_broken (fp : HostFp) {insn : Insn} (hmem : insn.src.isMem = true)
    (hsize : Within.IsFloatSize insn.opSize) (pop : Cpu → Cpu) :
    ∃ d tr, (do
      let _ ← Proc.attempt (opFcom fp insn)
      Proc.modify pop : H Unit).run broken.env c w = ⟨(some (), pop d), w, tr⟩ ∧
        d.fpuTop = c.fpuTop ∧ SomeFailed tr := by
  obtain ⟨size, hrun⟩ := run_opFcom_broken c w fp hmem hsize
  refine ⟨c.setFault .pageFault (ea c insn insn.src) .unmappedRead (some "x87 read"),
    loadTrace (ea c insn insn.src) size, ?_, rfl, someFailed_loadTrace ..⟩
  rw [run_bind, run_attempt, hrun]
  rfl

end Broken

/-- With a memory that fails, each of them drops the failure or pops. -/
theorem not_reportsFailures_of_forgets (fp : HostFp) {i : Insn} (hforgets : i.forgets) :
    ¬ i.ReportsFailures fp := by
  intro h
  have hstores (hrun : Unreported {} { mem := () } (i.run fp)) : False := by
    obtain ⟨a, addr, size, data, hrun⟩ := hrun
    have hlatched := h.latches Unit broken {} { mem := () }
    have hout : (i.run fp).runOn broken {} { mem := () } =
        ⟨(a, {}), { mem := () }, storeTrace addr size data⟩ := hrun
    rw [hout] at hlatched
    exact absurd (hlatched (someFailed_storeTrace ..)).1 Bool.false_ne_true
  have hpops (hx87 : i.handler.isX87 = true) (pop : Cpu → Cpu)
      (hpop : ∀ d : Cpu, d.fpuTop = 0 → (pop d).fpuTop ≠ 0)
      (hrun : ∃ d tr, (i.run fp).runOn broken {} { mem := () } =
        ⟨(some (), pop d), { mem := () }, tr⟩ ∧ d.fpuTop = 0 ∧ SomeFailed tr) : False := by
    obtain ⟨d, tr, hrun, htop, hfailed⟩ := hrun
    have hkeeps := h.keepsFpu Unit broken {} { mem := () }
    rw [hrun] at hkeeps
    exact hpop d htop (congrArg Prod.fst (hkeeps hfailed hx87))
  rcases hforgets with ⟨hmem, hsrc, hsize⟩ | ⟨hhandler, hsize⟩ | ⟨hhandler, hdst⟩ | hhandler
  · simp only [List.mem_cons, List.not_mem_nil, or_false] at hmem
    rcases hmem with hhandler | hhandler | hhandler | hhandler
    · apply hstores
      rw [Insn.run, hhandler]
      exact unreported_opFst _ _ fp hsrc hsize
    · apply hstores
      rw [Insn.run, hhandler]
      exact unreported_opFstp _ _ fp hsrc hsize
    · apply hpops (by rw [hhandler]; rfl) Cpu.fpuPop
      · intro d hd
        rw [Cpu.fpuPop, hd]
        exact Nat.one_ne_zero
      · rw [Insn.run, hhandler]
        exact run_pops_broken _ _ fp hsrc hsize _
    · apply hpops (by rw [hhandler]; rfl) fun d => d.fpuPop.fpuPop
      · intro d hd
        rw [Cpu.fpuPop, Cpu.fpuPop, hd]
        exact Nat.succ_ne_zero 1
      · rw [Insn.run, hhandler]
        exact run_pops_broken _ _ fp hsrc hsize _
  · apply hstores
    rw [Insn.run, hhandler]
    exact unreported_opFistp _ _ fp hsize
  · apply hstores
    rw [Insn.run, hhandler]
    exact unreported_opFnstsw _ _ hdst
  · apply hstores
    rw [Insn.run, hhandler]
    exact unreported_opFnstcw _ _ i

/-- A memory failure is never dropped exactly by the instructions that are neither an x87 store
nor a popping compare of a memory operand. -/
theorem reportsFailures_iff (fp : HostFp) (i : Insn) : i.ReportsFailures fp ↔ ¬ i.forgets :=
  ⟨fun h hforgets => not_reportsFailures_of_forgets fp hforgets h,
    reportsFailures_of_not_forgets fp⟩

/-- `FSTP m64` with the address in `RAX`. -/
def fstpCode : CodeBytes := fun a => .ok (if a = 0 then 0xDD else 0x18)

theorem fstp_drops_failure :
    ¬ ∀ (fp : HostFp) (mem : CodeBytes) (rip : GuestAddr) (i : Insn),
      decodeOne mem rip prefixFuel = some (.ok i) → i.ReportsFailures fp := by
  intro h
  have hdecoded : ((decodeOne fstpCode 0 prefixFuel).bind Except.toOption).any (fun i =>
      i.handler == .opFstp && (i.src.isMem && i.opSize == 8)) = true := by
    decide +kernel
  obtain ⟨i, hi, hstore⟩ := (Option.any_eq_true _ _).mp hdecoded
  obtain ⟨r, hr, hok⟩ := Option.bind_eq_some_iff.mp hi
  simp only [Bool.and_eq_true, beq_iff_eq] at hstore
  have hforgets : i.forgets :=
    forgets_of_drops (by rw [hstore.1]; exact ⟨hstore.2.1, .inr (.inl hstore.2.2)⟩)
  cases r with
  | error e => cases hok
  | ok insn =>
      cases hok
      have hreports := h default fstpCode 0 i hr
      exact not_reportsFailures_of_forgets default hforgets hreports

end PicoCpu
