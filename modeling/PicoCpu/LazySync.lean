import PicoCpu.Transparency

/-!
Lazy synchronisation is transparent. A host that reads flags, synchronises, or takes and
restores a snapshot between instructions changes nothing that follows; and saving the flags,
on the stack or in AH, and loading them back leaves them as they were, pending or not.
-/

namespace PicoCpu

open Handlers Proc

/-! ### What the host does between instructions -/

/-- A read of a flag, of the direction flag, of the whole word or of a condition;
`force_sync_flags`; a snapshot restored at once. -/
inductive Probe where
  | flag (mask : U64)
  | df
  | rflags
  | condHolds (cc : Cc)
  | forceSyncFlags
  | snapshotRestore

/-- The CPU a probe leaves: every accessor but that of DF synchronises. -/
def Probe.run : Probe → Cpu → Cpu
  | .flag _, c => c.syncFlags
  | .df, c => c
  | .rflags, c => c.syncFlags
  | .condHolds _, c => c.syncFlags
  | .forceSyncFlags, c => c.syncFlags
  | .snapshotRestore, c => c.snapshot.2.restore c.snapshot.1

theorem Probe.run_eq (p : Probe) (c : Cpu) : p.run c = c ∨ p.run c = c.syncFlags := by
  cases p with
  | flag mask => exact .inr rfl
  | df => exact .inl rfl
  | rflags => exact .inr rfl
  | condHolds cc => exact .inr rfl
  | forceSyncFlags => exact .inr rfl
  | snapshotRestore =>
      have hoverrides : c.snapshot.2.cpuidOverrides = c.cpuidOverrides :=
        Cpu.overrides_syncFlags c
      exact .inr (Cpu.restore_snapshot_of_overrides hoverrides)

theorem Probe.same_run (p : Probe) (c : Cpu) : (p.run c).Same c := by
  rcases p.run_eq c with h | h
  · rw [h]
    exact Cpu.Same.refl c
  · rw [h]
    exact Cpu.same_syncFlags c

section Scripts

variable {σ : Type} (fp : HostFp) (at_ : Attached σ)

/-- One entry of a script: an instruction, or a probe. -/
def scriptStep (s : VmState σ) : Insn ⊕ Probe → VmState σ
  | .inl i => execute fp at_ s i
  | .inr p => { s with cpu := p.run s.cpu }

/-- Instructions with probes among them. -/
def runScript (script : List (Insn ⊕ Probe)) (s : VmState σ) : VmState σ :=
  script.foldl (scriptStep fp at_) s

/-- Nothing an instruction or the host can look at tells the two apart. -/
structure VmState.Indistinct (s s' : VmState σ) : Prop where
  flag : ∀ mask, s.cpu.flag mask = s'.cpu.flag mask
  df : s.cpu.df = s'.cpu.df
  rflags : s.cpu.rflags = s'.cpu.rflags
  condHolds : ∀ cc, s.cpu.condHolds cc = s'.cpu.condHolds cc
  /-- Every register, the fault, the halt and branch state. -/
  unflagged : s.cpu.unflagged = s'.cpu.unflagged
  world : s.world = s'.world

variable {fp at_} {s s' : VmState σ}

theorem VmState.Like.indistinct (h : s.Like none Eq s') : s.Indistinct s' where
  flag := h.cpu.same.flag
  df := h.cpu.same.df
  rflags := h.cpu.same.rflags
  condHolds := h.cpu.same.condHolds
  unflagged := (Cpu.same_iff.mp h.cpu.same).2
  world := h.world

/-- The run with the probes stays in step with the run without them. -/
theorem runScript_like (hhooks : at_.HooksKeep none) (script : List (Insn ⊕ Probe))
    (h : s.Like none Eq s') :
    (runScript fp at_ script s).Like none Eq
      (executeAll fp at_ (script.filterMap Sum.getLeft?) s') := by
  induction script generalizing s s' with
  | nil => exact h
  | cons entry script ih =>
      cases entry with
      | inl i => exact ih (h.execute fp hhooks.alike_eq fun _ => rfl)
      | inr p =>
          refine ih ⟨⟨(p.same_run s.cpu).trans h.cpu.same, ?_⟩, h.world⟩
          exact fun l hl => absurd hl (Option.not_mem_none l)

end Scripts

/-! ### Saving the flags and loading them back -/

namespace Cpu

theorem flag_eq_getLsbD (c : Cpu) (n : Nat) (hn : n < 64) :
    c.flag (1#64 <<< n) = c.syncFlags.rflags_.getLsbD n :=
  and_shl_bne_zero _ n hn

theorem df_eq_getLsbD (c : Cpu) : c.df = c.syncFlags.rflags_.getLsbD 10 := by
  rw [(same_syncFlags c).symm.df]
  exact and_shl_bne_zero _ 10 (by omega)

/-- The seven flags a program can save. -/
structure SavedFlags where
  cf : Bool
  pf : Bool
  af : Bool
  zf : Bool
  sf : Bool
  of : Bool
  df : Bool
  deriving DecidableEq

def savedFlags (c : Cpu) : SavedFlags :=
  { cf := c.cf, pf := c.pf, af := c.af, zf := c.zf, sf := c.sf, of := c.of, df := c.df }

/-- The same flags, off the word. -/
theorem savedFlags_eq (c : Cpu) :
    c.savedFlags =
      { cf := c.rflags.getLsbD 0, pf := c.rflags.getLsbD 2, af := c.rflags.getLsbD 4
        zf := c.rflags.getLsbD 6, sf := c.rflags.getLsbD 7, of := c.rflags.getLsbD 11
        df := c.rflags.getLsbD 10 } := by
  have hword (n : Nat) (hn : Rflags.alwaysOne.getLsbD n = false) :
      c.rflags.getLsbD n = c.syncFlags.rflags_.getLsbD n := by
    rw [rflags, BitVec.getLsbD_or, hn, Bool.or_false]
  rw [hword 0 rfl, hword 2 rfl, hword 4 rfl, hword 6 rfl, hword 7 rfl, hword 10 rfl, hword 11 rfl]
  simp only [savedFlags, SavedFlags.mk.injEq]
  exact ⟨c.flag_eq_getLsbD 0 (by omega), c.flag_eq_getLsbD 2 (by omega),
    c.flag_eq_getLsbD 4 (by omega), c.flag_eq_getLsbD 6 (by omega),
    c.flag_eq_getLsbD 7 (by omega), c.flag_eq_getLsbD 11 (by omega), c.df_eq_getLsbD⟩

end Cpu

/-- `LAHF` then `SAHF` on a flags word. AH passes through bits 8 to 15 of RAX. -/
theorem getLsbD_lahfSahf (w rax : U64) {n : Nat}
    (hn : n = 0 ∨ n = 2 ∨ n = 4 ∨ n = 6 ∨ n = 7 ∨ n = 10 ∨ n = 11) :
    let rax' := (rax &&& ~~~0xFF00#64) ||| (((w &&& 0xD7) ||| 0x02) <<< 8)
    ((w &&& ~~~0xFF#64) ||| ((((rax' >>> 8) &&& 0xFF) &&& 0xD5) ||| 0x02)).getLsbD n =
      w.getLsbD n := by
  intro rax'
  rcases hn with rfl | rfl | rfl | rfl | rfl | rfl | rfl
  all_goals
    simp [rax']

section RoundTrips

variable {σ : Type} {fp : HostFp} {at_ : Attached σ}

/-- A handler that neither halts nor branches, run as an instruction. -/
theorem execute_eq {s : VmState σ} {i : Insn} {c : Cpu} {w : World σ}
    (hhalted : s.cpu.halted = false) (hstep : stepInsn fp at_ i s = ⟨c, w⟩) (hc : c.halted = false)
    (hb : c.branchTaken = false) :
    execute fp at_ s i = ⟨c.setRip (nextRip i), w⟩ := by
  rw [execute, if_neg (by rw [hhalted]; exact Bool.false_ne_true), hstep, VmState.stopped, hc, hb]
  rfl

theorem executeAll_of_halted {s : VmState σ} (hhalted : s.cpu.halted = true) (insns : List Insn) :
    executeAll fp at_ insns s = s := by
  induction insns with
  | nil => rfl
  | cons i insns ih =>
      have hstep : execute fp at_ s i = s := if_pos hhalted
      rw [executeAll, List.foldl_cons, hstep]
      exact ih

/-- The CPU after LAHF. -/
def afterLahf (c : Cpu) : Cpu :=
  c.syncFlags.setR64 Reg.rax
    ((c.syncFlags.r Reg.rax &&& ~~~0xFF00#64) |||
      (((c.syncFlags.rflags &&& 0xD7) ||| 0x02) <<< 8))

/-- The word SAHF loads. -/
def sahfWord (c : Cpu) : U64 :=
  (c.syncFlags.rflags &&& ~~~0xFF#64) ||| ((((c.r Reg.rax >>> 8) &&& 0xFF) &&& 0xD5) ||| 0x02)

theorem getLsbD_sahfWord (c : Cpu) (rip : GuestAddr) {n : Nat}
    (hn : n = 0 ∨ n = 2 ∨ n = 4 ∨ n = 6 ∨ n = 7 ∨ n = 10 ∨ n = 11) :
    (sahfWord ((afterLahf c).setRip rip).clearBranch).getLsbD n = c.rflags.getLsbD n := by
  have hsynced : (((afterLahf c).setRip rip).clearBranch).syncFlags =
      ((afterLahf c).setRip rip).clearBranch :=
    Cpu.syncFlags_of_eflags (Cpu.ccOp_syncFlags c)
  have hrflags : (((afterLahf c).setRip rip).clearBranch).rflags = c.rflags := by
    rw [Cpu.rflags, hsynced]
    rfl
  have hidem : c.syncFlags.rflags = c.rflags := by
    rw [Cpu.rflags, Cpu.syncFlags_idem, Cpu.rflags]
  have hrax : (((afterLahf c).setRip rip).clearBranch).r Reg.rax =
      (c.syncFlags.r Reg.rax &&& ~~~0xFF00#64) ||| (((c.rflags &&& 0xD7) ||| 0x02) <<< 8) := by
    rw [← hidem]
    exact Cpu.r_setR c.syncFlags Reg.rax _
  rw [sahfWord, hsynced, hrflags, hrax]
  exact getLsbD_lahfSahf c.rflags (c.syncFlags.r Reg.rax) hn

theorem savedFlags_setRflags (c : Cpu) (rip : GuestAddr) {v w : U64}
    (h : ∀ n, n = 0 ∨ n = 2 ∨ n = 4 ∨ n = 6 ∨ n = 7 ∨ n = 10 ∨ n = 11 →
      v.getLsbD n = w.getLsbD n) :
    ((c.setRflags v).setRip rip).savedFlags =
      { cf := w.getLsbD 0, pf := w.getLsbD 2, af := w.getLsbD 4, zf := w.getLsbD 6
        sf := w.getLsbD 7, of := w.getLsbD 11, df := w.getLsbD 10 } := by
  have hsynced : ((c.setRflags v).setRip rip).syncFlags = (c.setRflags v).setRip rip :=
    Cpu.syncFlags_of_eflags rfl
  have hword (n : Nat) (hn : Rflags.alwaysOne.getLsbD n = false) :
      ((c.setRflags v).setRip rip).rflags.getLsbD n = v.getLsbD n := by
    rw [Cpu.rflags, BitVec.getLsbD_or, hn, Bool.or_false, hsynced]
    rfl
  rw [Cpu.savedFlags_eq, hword 0 rfl, hword 2 rfl, hword 4 rfl, hword 6 rfl, hword 7 rfl,
    hword 10 rfl, hword 11 rfl, h 0 (by omega), h 2 (by omega), h 4 (by omega), h 6 (by omega),
    h 7 (by omega), h 10 (by omega), h 11 (by omega)]

theorem rflags_clearBranch (c : Cpu) : c.clearBranch.rflags = c.rflags := by
  have hword : c.clearBranch.syncFlags.rflags_ = c.syncFlags.rflags_ :=
    Cpu.rflags_syncFlags_congr rfl
  rw [Cpu.rflags, hword, Cpu.rflags]

theorem afterLahf_control (c : Cpu) :
    (afterLahf c).halted = c.halted ∧ (afterLahf c).branchTaken = c.branchTaken := by
  have hsame := Cpu.same_syncFlags c
  exact ⟨hsame.halted, hsame.branchTaken⟩

/-- Through AH. -/
theorem savedFlags_lahf_sahf {lahf sahf : Insn} (hlahf : lahf.handler = .opLahf)
    (hsahf : sahf.handler = .opSahf) (s : VmState σ) :
    (executeAll fp at_ [lahf, sahf] s).cpu.savedFlags = s.cpu.savedFlags := by
  cases hhalted : s.cpu.halted with
  | true => rw [executeAll_of_halted hhalted]
  | false =>
      obtain ⟨hhalt, hbranch⟩ := afterLahf_control s.cpu.clearBranch
      have hsave : stepInsn fp at_ lahf s = ⟨afterLahf s.cpu.clearBranch, s.world⟩ := by
        rw [stepInsn, Insn.run, hlahf]
        rfl
      have hfirst := execute_eq hhalted hsave (hhalt.trans hhalted) hbranch
      have hload (c : Cpu) (w : World σ) : stepInsn fp at_ sahf ⟨c, w⟩ =
          ⟨c.clearBranch.syncFlags.setRflags (sahfWord c.clearBranch), w⟩ := by
        rw [stepInsn, Insn.run, hsahf]
        rfl
      have hsecond : executeAll fp at_ [lahf, sahf] s =
          execute fp at_ (execute fp at_ s lahf) sahf := rfl
      rw [hsecond, hfirst]
      have hmid := Cpu.same_syncFlags
        ((afterLahf s.cpu.clearBranch).setRip (nextRip lahf)).clearBranch
      rw [execute_eq (hhalt.trans hhalted) (hload _ _) (hmid.halted.trans (hhalt.trans hhalted))
        hmid.branchTaken]
      rw [savedFlags_setRflags _ _ fun n hn => getLsbD_sahfWord s.cpu.clearBranch _ hn,
        rflags_clearBranch, ← Cpu.savedFlags_eq]

/-! ### Through the stack -/

/-- Eight bytes below the stack pointer can be written, and are read back as written. -/
def StackAccessible (at_ : Attached σ) (s : VmState σ) : Prop :=
  let addr := s.cpu.r Reg.rsp - 8
  ∀ data : Buf, ∃ w, at_.env (.write addr 8 data) s.world = ((.ok () : Except Status Unit), w) ∧
    ∃ buf w', at_.env (.read addr 8) w = ((.ok buf : Except Status Buf), w') ∧
      ∀ i < 8, buf i = data i

theorem run_opPushf (i : Insn) {c : Cpu} {w w' : World σ}
    (h : at_.env (.write (c.syncFlags.r Reg.rsp - 8) 8 (storeLE c.syncFlags.rflags)) w =
      ((.ok () : Except Status Unit), w')) :
    ((opPushf i).run at_.env c w).value.2 =
        c.syncFlags.setR64 Reg.rsp (c.syncFlags.r Reg.rsp - 8) ∧
      ((opPushf i).run at_.env c w).world = w' := by
  have hpresent := Attached.memWrite_isSome h
  simp only [opPushf, H.getsSynced, requireAttached, H.store, run_bind, run_modify, andThen_some,
    run_gets, run_attached, hpresent, if_true, Bool.not_true, Bool.false_eq_true, if_false,
    run_pure, run_askWrite, h]
  exact ⟨trivial, trivial⟩

theorem run_opPopf (i : Insn) {c : Cpu} {w w' : World σ} {buf : Buf}
    (h : at_.env (.read (c.r Reg.rsp) 8) w = ((.ok buf : Except Status Buf), w')) :
    ((opPopf i).run at_.env c w).value.2 =
        (c.setRflags (loadLE buf 8)).setR64 Reg.rsp (c.r Reg.rsp + 8) ∧
      ((opPopf i).run at_.env c w).world = w' := by
  have hpresent := Attached.memRead_isSome h
  simp only [opPopf, requireAttached, H.load, run_bind, run_modify, andThen_some,
    run_gets, run_attached, hpresent, Bool.not_true, Bool.false_eq_true, if_false,
    run_pure, run_askRead, h]
  exact ⟨trivial, trivial⟩

theorem rflags_setRflags (c d : Cpu) (rsp : U64) (rip : GuestAddr) :
    (((d.setRflags c.rflags).setR64 Reg.rsp rsp).setRip rip).rflags = c.rflags := by
  have hsynced : (((d.setRflags c.rflags).setR64 Reg.rsp rsp).setRip rip).syncFlags =
      ((d.setRflags c.rflags).setR64 Reg.rsp rsp).setRip rip :=
    Cpu.syncFlags_of_eflags rfl
  rw [Cpu.rflags, hsynced]
  change c.rflags ||| Rflags.alwaysOne = c.rflags
  rw [Cpu.rflags, BitVec.or_assoc, BitVec.or_self]

/-- Through the stack. -/
theorem rflags_pushf_popf {pushf popf : Insn} (hpushf : pushf.handler = .opPushf)
    (hpopf : popf.handler = .opPopf) {s : VmState σ} (hstack : StackAccessible at_ s) :
    (executeAll fp at_ [pushf, popf] s).cpu.rflags = s.cpu.rflags := by
  cases hhalted : s.cpu.halted with
  | true => rw [executeAll_of_halted hhalted]
  | false =>
      have hsame := Cpu.same_syncFlags s.cpu.clearBranch
      have hrsp : s.cpu.clearBranch.syncFlags.r Reg.rsp = s.cpu.r Reg.rsp :=
        congrFun hsame.gpr Reg.rsp
      have hrflags : s.cpu.clearBranch.syncFlags.rflags = s.cpu.rflags :=
        hsame.rflags.trans (rflags_clearBranch s.cpu)
      obtain ⟨w, hwrite, buf, w', hread, hbuf⟩ :=
        hstack (storeLE s.cpu.clearBranch.syncFlags.rflags)
      rw [← hrsp] at hwrite hread
      obtain ⟨hsaved, hworld⟩ := run_opPushf pushf hwrite
      have hsave : stepInsn fp at_ pushf s =
          ⟨s.cpu.clearBranch.syncFlags.setR64 Reg.rsp
            (s.cpu.clearBranch.syncFlags.r Reg.rsp - 8), w⟩ := by
        rw [← hsaved, ← hworld, stepInsn, Insn.run, hpushf]
        rfl
      have hfirst := execute_eq hhalted hsave (hsame.halted.trans hhalted) hsame.branchTaken
      have hsecond : executeAll fp at_ [pushf, popf] s =
          execute fp at_ (execute fp at_ s pushf) popf := rfl
      have hpop (c : Cpu) (hc : c.clearBranch.r Reg.rsp =
          s.cpu.clearBranch.syncFlags.r Reg.rsp - 8) : stepInsn fp at_ popf ⟨c, w⟩ =
          ⟨(c.clearBranch.setRflags s.cpu.rflags).setR64 Reg.rsp (c.clearBranch.r Reg.rsp + 8),
            w'⟩ := by
        rw [← hc] at hread
        obtain ⟨hloaded, hworld'⟩ := run_opPopf popf hread
        rw [loadLE_of_stored hbuf, hrflags] at hloaded
        rw [← hloaded, ← hworld', stepInsn, Insn.run, hpopf]
        rfl
      have hrsp' : ((s.cpu.clearBranch.syncFlags.setR64 Reg.rsp
          (s.cpu.clearBranch.syncFlags.r Reg.rsp - 8)).setRip (nextRip pushf)).clearBranch.r
            Reg.rsp = s.cpu.clearBranch.syncFlags.r Reg.rsp - 8 :=
        Cpu.r_setR s.cpu.clearBranch.syncFlags Reg.rsp _
      rw [hsecond, hfirst, execute_eq (hsame.halted.trans hhalted) (hpop _ hrsp')
        (hsame.halted.trans hhalted) rfl]
      exact rflags_setRflags s.cpu _ _ _

variable (fp at_) in
/-- Probes among any instructions are invisible to all that follows, and the flags come back
from the stack and from AH as they were. -/
theorem lazy_sync_transparent (hhooks : at_.HooksKeep none) (s : VmState σ) :
    (∀ script : List (Insn ⊕ Probe),
      (runScript fp at_ script s).Indistinct
        (executeAll fp at_ (script.filterMap Sum.getLeft?) s)) ∧
    (∀ pushf popf : Insn, pushf.handler = .opPushf → popf.handler = .opPopf →
      StackAccessible at_ s →
      (executeAll fp at_ [pushf, popf] s).cpu.rflags = s.cpu.rflags) ∧
    ∀ lahf sahf : Insn, lahf.handler = .opLahf → sahf.handler = .opSahf →
      (executeAll fp at_ [lahf, sahf] s).cpu.savedFlags = s.cpu.savedFlags := by
  refine ⟨?_, ?_, ?_⟩
  · intro script
    have hstart : s.Like none Eq s :=
      ⟨⟨Cpu.Same.refl s.cpu, fun l hl => absurd hl (Option.not_mem_none l)⟩, rfl⟩
    exact (runScript_like hhooks script hstart).indistinct
  · intro pushf popf hpushf hpopf hstack
    exact rflags_pushf_popf hpushf hpopf hstack
  · intro lahf sahf hlahf hsahf
    exact savedFlags_lahf_sahf hlahf hsahf s

/-- A memory of all addresses. -/
def flatMemory : MemoryProvider (GuestAddr → U8) where
  read addr size out m :=
    (.ok (), fun i => if i < size then m (addr + BitVec.ofNat 64 i) else out i, m)
  write addr size data m :=
    (.ok (), fun a => if (a - addr).toNat < size then data (a - addr).toNat else m a)

/-- Flat memory, and a hook that counts the writes in R15. -/
def countingMachine : Attached (GuestAddr → U8) where
  memRead := some flatMemory
  memWrite := some flatMemory
  writeHooks := [⟨0, 0xFFFF, fun _ _ _ _ c => c.setR 15 (c.r 15 + 1)⟩]

theorem countingMachine_hooksKeep (L : Option (List CpuidLeaf)) :
    countingMachine.HooksKeep L := by
  intro h hh addr size value isWrite
  obtain rfl := List.mem_singleton.mp hh
  exact Cpu.keeps_flagFree fun _ _ => rfl

theorem countingMachine_stack (s : VmState (GuestAddr → U8)) :
    StackAccessible countingMachine s := by
  intro data
  refine ⟨_, rfl, _, _, rfl, ?_⟩
  intro i hi
  generalize s.cpu.r Reg.rsp - 8 = addr
  have hoffset : (addr + BitVec.ofNat 64 i - addr).toNat = i := by
    rw [BitVec.add_comm, BitVec.add_sub_cancel, BitVec.toNat_ofNat]
    omega
  simp only [hi, if_true, hoffset]

/-- A subtraction is pending and the stack is at 0x1000. -/
def pendingState : VmState (GuestAddr → U8) where
  cpu := ({ ({} : Cpu) with rip := 0x400000 }.setR Reg.rsp 0x1000).stashSub 4 1 0xFFFFFFFF
  world := { mem := fun _ => 0 }

theorem lazy_sync_transparent_pending :
    (runScript default countingMachine
        [.inr (.flag Rflags.cf), .inl { handler := .opPushf, len := 1 }, .inr .snapshotRestore,
          .inl { handler := .opLahf, len := 1 }] pendingState).Indistinct
      (executeAll default countingMachine
        [{ handler := .opPushf, len := 1 }, { handler := .opLahf, len := 1 }] pendingState) ∧
    (executeAll default countingMachine
        [{ handler := .opPushf, len := 1 }, { handler := .opPopf, len := 1 }]
          pendingState).cpu.rflags = pendingState.cpu.rflags ∧
    (executeAll default countingMachine
        [{ handler := .opLahf, len := 1 }, { handler := .opSahf, len := 1 }]
          pendingState).cpu.savedFlags = pendingState.cpu.savedFlags := by
  obtain ⟨hscript, hstack, hah⟩ := lazy_sync_transparent default countingMachine
    (countingMachine_hooksKeep none) pendingState
  exact ⟨hscript _, hstack _ _ rfl rfl (countingMachine_stack pendingState), hah _ _ rfl rfl⟩

end RoundTrips

end PicoCpu
