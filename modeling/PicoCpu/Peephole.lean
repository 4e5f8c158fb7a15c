import PicoCpu.Decoder.Accepted
import PicoCpu.Normal
import PicoCpu.Replay

/-!
When the peephole pass keeps the meaning of a block. A folded self-move, self-exchange or
self-LEA is a no-op unless it is a 32-bit one, which clears the upper half of its register,
or a LEA whose FS or GS base shows in the result. The fold of a `Jcc` after a self-XOR is
always right.
-/

namespace PicoCpu

open Handlers

/-! ### What the folded instructions do -/

/-- The segment base an address gets. -/
def Operand.segBase (op : Operand) (c : Cpu) : U64 :=
  match op.seg with
  | .fs => c.fsBase
  | .gs => c.gsBase
  | _ => 0

/-- Executing the instruction would change nothing but the instruction pointer: at 32 bits the
upper half of its register is clear already, and a LEA adds no segment base. -/
def Insn.Harmless (i : Insn) (c : Cpu) : Prop :=
  (i.opSize = 4 → c.r i.dst.reg >>> 32 = 0#64) ∧
    (i.kind = .lea → i.src.segBase c &&& maskFor i.opSize = 0#64)

instance (i : Insn) (c : Cpu) : Decidable (i.Harmless c) := by
  unfold Insn.Harmless; infer_instance

theorem isOpSize_of_mem {size : Nat} (h : size ∈ gprSizes) : IsOpSize size := by
  simpa [gprSizes, IsOpSize] using h

theorem wide_isOpSize {size : Nat} (h : size ∈ wideSizes) : IsOpSize size :=
  isOpSize_of_mem (List.mem_cons_of_mem _ h)

/-- At 32 bits, what lies outside the alias is the upper half. -/
theorem rest32_eq_zero_iff (x : U64) (reg : Nat) :
    x &&& ~~~aliasMask reg 4 = 0#64 ↔ x >>> 32 = 0#64 := by
  have hmask : aliasMask reg 4 = 0xFFFFFFFF#64 := by
    rw [aliasMask, aliasShift, if_neg (by rintro ⟨h, _⟩; exact absurd h (by decide))]
    rfl
  have hbit (i : Nat) (hi : i < 64) : (~~~0xFFFFFFFF#64).getLsbD i = decide (32 ≤ i) := by
    revert i
    decide
  rw [hmask, BitVec.eq_of_getLsbD_eq_iff, BitVec.eq_of_getLsbD_eq_iff]
  constructor
  · intro h i hi
    rw [BitVec.getLsbD_ushiftRight, BitVec.getLsbD_zero]
    by_cases hi' : 32 + i < 64
    · have hx := h (32 + i) hi'
      rw [BitVec.getLsbD_and, hbit _ hi', BitVec.getLsbD_zero] at hx
      simpa using hx
    · exact BitVec.getLsbD_of_ge _ _ (by omega)
  · intro h i hi
    rw [BitVec.getLsbD_and, hbit i hi, BitVec.getLsbD_zero]
    by_cases hi' : 32 ≤ i
    · have hx := h (i - 32) (by omega)
      rw [BitVec.getLsbD_ushiftRight, BitVec.getLsbD_zero, Nat.add_sub_cancel' hi'] at hx
      simp [hx]
    · simp [hi']

theorem aliasIndex_wide {reg size : Nat} (hsize : size ∈ wideSizes) : aliasIndex reg size = reg := by
  refine if_neg ?_
  rintro ⟨rfl, _⟩
  exact absurd hsize (by decide)

theorem aliasShift_wide {reg size : Nat} (hsize : size ∈ wideSizes) : aliasShift reg size = 0 := by
  refine if_neg ?_
  rintro ⟨rfl, _⟩
  exact absurd hsize (by decide)

theorem upperRest_iff {reg size : Nat} {c : Cpu} :
    (size = 4 → c.r (aliasIndex reg size) &&& ~~~aliasMask reg size = 0#64) ↔
      (size = 4 → c.r reg >>> 32 = 0#64) := by
  have hindex : aliasIndex reg 4 = reg := aliasIndex_wide (by decide)
  constructor
  · rintro h rfl
    have hrest := h rfl
    rwa [hindex, rest32_eq_zero_iff] at hrest
  · rintro h rfl
    rw [hindex, rest32_eq_zero_iff]
    exact h rfl

/-- Adding `b` shows in the low `size` bytes exactly when some of its own are set. -/
theorem masked_add_eq_self_iff {size : Nat} (hsize : IsOpSize size) (x b : U64) :
    (x + b) &&& maskFor size = x &&& maskFor size ↔ b &&& maskFor size = 0#64 := by
  rw [← BitVec.toNat_inj, ← BitVec.toNat_inj, toNat_and_maskFor size hsize,
    toNat_and_maskFor size hsize, toNat_and_maskFor size hsize, BitVec.toNat_add,
    BitVec.toNat_ofNat]
  rcases hsize with rfl | rfl | rfl | rfl <;> omega

/-- What a folded instruction would write, by kind: its register back, or the address. -/
def Insn.writeBack (i : Insn) (c : Cpu) : Cpu :=
  c.writeGpr i.dst.reg i.opSize
    (if i.kind = .lea then c.r i.dst.reg + i.src.segBase c else c.readGpr i.dst.reg i.opSize)

/-- A register operand is read without asking anything. -/
theorem readOperand_reg {i : Insn} {op : Operand} (hop : op.kind = .reg) (size : Nat) (c : Cpu) :
    readOperand i op size c = .ret (some (c.readGpr op.reg size), c) := by
  rw [readOperand, hop]
  rfl

theorem writeOperand_reg {i : Insn} {op : Operand} (hop : op.kind = .reg) {size : Nat}
    (hsize : IsOpSize size) (v : U64) (c : Cpu) :
    writeOperand i op size v c = .ret (some (), c.writeGpr op.reg size v) := by
  rw [writeOperand, hop]
  simp only [if_pos hsize]
  rfl

theorem bind_ret {α β : Type} {p : H α} {f : α → H β} {c d : Cpu} {a : α}
    (hp : p c = .ret (some a, d)) : (p >>= f) c = f a d := by
  change Proc.bind p f c = _
  rw [Proc.bind, hp]
  rfl

theorem writeGpr_twice (c : Cpu) (reg : Nat) {size : Nat} (hsize : IsOpSize size) (v : U64) :
    (c.writeGpr reg size v).writeGpr reg size v = c.writeGpr reg size v := by
  rw [Cpu.writeGpr_eq_self_iff _ reg hsize]
  constructor
  · rw [Cpu.writeGpr_eq c reg hsize, Cpu.r_setR, aliasRest, BitVec.eq_of_getLsbD_eq_iff]
    intro i hi
    simp only [BitVec.getLsbD_and, BitVec.getLsbD_or]
    split
    · cases (aliasMask reg size).getLsbD i <;> simp
    · simp only [BitVec.getLsbD_and, BitVec.getLsbD_not]
      cases (aliasMask reg size).getLsbD i <;> simp
  · rintro rfl
    rw [Cpu.rest_writeGpr c reg hsize]
    rfl

theorem sameRegs_iff {i : Insn} : i.sameRegs = true ↔
    i.dst.kind = .reg ∧ i.src.kind = .reg ∧ i.dst.reg = i.src.reg := by
  simp [Insn.sameRegs, and_assoc]

section Folded

variable {rip : GuestAddr} {i : Insn} (hacc : Accepted rip i)

include hacc

/-- The handler of a kind the pass asks for. -/
theorem handler_of_kind {kind : OpKind} {h : Handler} (hkind : i.kind = kind)
    (hbound : kind.boundTo = some h) : i.handler = h := by
  have hagree := hacc.kind
  rw [kindBound, hkind, hbound] at hagree
  exact (beq_iff_eq.mp hagree).symm

/-- An instruction whose forms have the sizes of general registers. -/
theorem size_of_regs (hforms : ∀ f ∈ i.handler.forms, f.sizes = gprSizes) :
    IsOpSize i.opSize := by
  obtain ⟨f, hf, hadmits⟩ := hacc.fits
  rw [Form.admits, hforms f hf, Bool.and_eq_true] at hadmits
  exact isOpSize_of_mem (by simpa [gprSizes] using hadmits.2)

theorem lea_facts (hlea : i.isSelfLea = true) :
    i.handler = .opLea ∧ i.dst.reg < 20 ∧ i.opSize ∈ wideSizes := by
  simp only [Insn.isSelfLea, Bool.and_eq_true, beq_iff_eq] at hlea
  obtain ⟨⟨⟨⟨⟨hkind, _⟩, _⟩, _⟩, _⟩, _⟩ := hlea
  have hhandler := handler_of_kind hacc hkind rfl
  obtain ⟨f, hf, hadmits⟩ := hacc.fits
  rw [hhandler] at hf
  obtain rfl := List.mem_singleton.mp hf
  simp only [Form.admits, OperandSlot.admits, Bool.and_eq_true, decide_eq_true_eq] at hadmits
  obtain ⟨⟨⟨_, hnamed⟩, _⟩, hwide⟩ := hadmits
  exact ⟨hhandler, hnamed, by simpa [wideSizes] using hwide⟩

theorem size_of_folded (hfolded : i.isFolded = true) :
    IsOpSize i.opSize ∧ (i.kind = .lea → i.opSize ∈ wideSizes) := by
  rw [Insn.isFolded, Bool.or_eq_true, Bool.or_eq_true] at hfolded
  rcases hfolded with (hmov | hxchg) | hlea
  · rw [Insn.isSelfMov, Bool.and_eq_true, beq_iff_eq] at hmov
    obtain ⟨hkind, hsame⟩ := hmov
    have hhandler := handler_of_kind hacc hkind rfl
    exact ⟨size_of_regs hacc (by rw [hhandler]; decide),
      fun h => absurd (hkind.symm.trans h) (by decide)⟩
  · rw [Insn.isSelfXchg, Bool.and_eq_true, beq_iff_eq] at hxchg
    obtain ⟨hkind, hsame⟩ := hxchg
    have hhandler := handler_of_kind hacc hkind rfl
    exact ⟨size_of_regs hacc (by rw [hhandler]; decide),
      fun h => absurd (hkind.symm.trans h) (by decide)⟩
  · obtain ⟨_, _, hwide⟩ := lea_facts hacc hlea
    exact ⟨wide_isOpSize hwide, fun _ => hwide⟩

/-- A folded instruction ends at once, having written its register back. -/
theorem run_folded (fp : HostFp) (hfolded : i.isFolded = true) (c : Cpu) :
    i.run fp c = .ret (some (), i.writeBack c) := by
  obtain ⟨hsize, _⟩ := size_of_folded hacc hfolded
  rw [Insn.isFolded, Bool.or_eq_true, Bool.or_eq_true] at hfolded
  rcases hfolded with (hmov | hxchg) | hlea
  · rw [Insn.isSelfMov, Bool.and_eq_true, beq_iff_eq] at hmov
    obtain ⟨hkind, hsame⟩ := hmov
    have hhandler := handler_of_kind hacc hkind rfl
    obtain ⟨hdst, hsrc, hreg⟩ := sameRegs_iff.mp hsame
    rw [Insn.run, hhandler]
    change opMov i c = _
    rw [opMov, bind_ret (readOperand_reg hsrc i.opSize c), writeOperand_reg hdst hsize,
      Insn.writeBack, hkind, if_neg (by decide), hreg]
  · rw [Insn.isSelfXchg, Bool.and_eq_true, beq_iff_eq] at hxchg
    obtain ⟨hkind, hsame⟩ := hxchg
    have hhandler := handler_of_kind hacc hkind rfl
    obtain ⟨hdst, hsrc, hreg⟩ := sameRegs_iff.mp hsame
    rw [Insn.run, hhandler]
    change opXchg i c = _
    rw [opXchg, bind_ret (readOperand_reg hdst i.opSize c),
      bind_ret (readOperand_reg hsrc i.opSize c), bind_ret (writeOperand_reg hdst hsize _ c),
      writeOperand_reg hsrc hsize, Insn.writeBack, hkind, if_neg (by decide), ← hreg,
      writeGpr_twice c _ hsize]
  · obtain ⟨hhandler, hnamed, _⟩ := lea_facts hacc hlea
    simp only [Insn.isSelfLea, Bool.and_eq_true, beq_iff_eq] at hlea
    obtain ⟨⟨⟨⟨⟨hkind, hdst⟩, hsrc⟩, hreg⟩, hindex⟩, himm⟩ := hlea
    have hea : ea c i i.src = c.r i.dst.reg + i.src.segBase c := by
      have hbase : i.src.reg ≠ Reg.none := by
        rw [hreg]
        exact fun h => absurd hnamed (by rw [h]; decide)
      have hkindSrc : ¬ i.src.kind = .ripRelMem := by rw [hsrc]; decide
      rw [ea, if_neg hkindSrc, if_pos hbase, hindex, himm, hreg]
      unfold Operand.segBase
      cases i.src.seg <;> simp
    rw [Insn.run, hhandler]
    change opLea i c = _
    have hmem : i.src.isMem = true := by rw [Operand.isMem, hsrc]; rfl
    rw [opLea, hmem]
    change (H.gets (fun c => ea c i i.src) >>= fun addr => writeOperand i i.dst i.opSize addr) c = _
    rw [bind_ret (c := c) (d := c) (a := ea c i i.src) rfl, writeOperand_reg hdst hsize, hea,
      Insn.writeBack, if_pos hkind]

/-- Writing back changes nothing exactly when the instruction is harmless. -/
theorem writeBack_eq_self_iff (hfolded : i.isFolded = true) (c : Cpu) :
    i.writeBack c = c ↔ i.Harmless c := by
  obtain ⟨hsize, hwide⟩ := size_of_folded hacc hfolded
  rw [Insn.writeBack, Insn.Harmless]
  by_cases hlea : i.kind = .lea
  · have hwide := hwide hlea
    have hmask : aliasMask i.dst.reg i.opSize = maskFor i.opSize := by
      rw [aliasMask, aliasShift_wide hwide, BitVec.shiftLeft_zero]
    rw [if_pos hlea, Cpu.writeGpr_eq_self_iff c _ hsize, upperRest_iff, and_comm,
      aliasIndex_wide hwide, aliasShift_wide hwide, BitVec.shiftLeft_zero, hmask,
      masked_add_eq_self_iff hsize]
    exact and_congr_right fun _ => ⟨fun h _ => h, fun h => h hlea⟩
  · rw [if_neg hlea, Cpu.writeGpr_readGpr_iff c _ hsize, upperRest_iff]
    exact ⟨fun h => ⟨h, fun h => absurd h hlea⟩, fun h => h.1⟩

end Folded

/-! ### Folding to no-ops -/

section Replay

variable {σ : Type} (fp : HostFp) (at_ : Attached σ)

/-- Every folded instruction that the replay reaches is harmless there. -/
def FoldsHarmless : List Insn → VmState σ → Prop
  | [], _ => True
  | i :: rest, s => s.cpu.halted = false →
    (i.isFolded = true → i.Harmless s.cpu) ∧
      ((stepInsn fp at_ i s).stopped = false →
        FoldsHarmless rest ((stepInsn fp at_ i s).advance i))

variable {fp at_}

theorem step_of_ret {i : Insn} {s : VmState σ} {c : Cpu}
    (h : i.run fp s.cpu.clearBranch = .ret (some (), c)) : stepInsn fp at_ i s = ⟨c, s.world⟩ := by
  rw [stepInsn, H.runOn, h]
  rfl

theorem step_makeNop (i : Insn) (s : VmState σ) :
    stepInsn fp at_ i.makeNop s = ⟨s.cpu.clearBranch, s.world⟩ :=
  step_of_ret rfl

/-- Folding a harmless instruction, or one that is not folded, keeps its step. -/
theorem step_fold {rip : GuestAddr} {i : Insn} (hacc : Accepted rip i) {s : VmState σ}
    (h : i.isFolded = true → i.Harmless s.cpu) :
    stepInsn fp at_ i.fold s = stepInsn fp at_ i s := by
  unfold Insn.fold
  split
  · rename_i hfolded
    have hself := (writeBack_eq_self_iff hacc hfolded s.cpu.clearBranch).mpr (h hfolded)
    rw [step_makeNop, step_of_ret (run_folded hacc fp hfolded _), hself]
  · rfl

theorem nextRip_fold (i : Insn) : nextRip i.fold = nextRip i := by
  unfold Insn.fold
  split <;> rfl

/-- Every instruction was accepted by the decoder. -/
def AllAccepted (insns : List Insn) : Prop := ∀ i ∈ insns, ∃ rip, Accepted rip i

theorem AllAccepted.tail {i : Insn} {rest : List Insn} (h : AllAccepted (i :: rest)) :
    AllAccepted rest := fun j hj => h j (List.mem_cons_of_mem _ hj)

theorem replay_map_fold {insns : List Insn} (hacc : AllAccepted insns) {s : VmState σ}
    (h : FoldsHarmless fp at_ insns s) :
    replay fp at_ (insns.map Insn.fold) s = replay fp at_ insns s := by
  induction insns generalizing s with
  | nil => rfl
  | cons i rest ih =>
      rw [List.map_cons, replay, replay]
      cases hhalted : s.cpu.halted with
      | true => rfl
      | false =>
          obtain ⟨hself, hrest⟩ := h hhalted
          obtain ⟨rip, hi⟩ := hacc i (List.mem_cons_self ..)
          rw [step_fold hi hself]
          cases hstop : (stepInsn fp at_ i s).stopped with
          | true => rfl
          | false =>
              simp only [Bool.false_eq_true, if_false]
              rw [VmState.advance, nextRip_fold]
              exact ih hacc.tail (hrest hstop)

/-- The first harmful fold shows at once: the replays of the list up to it end with
different registers. -/
theorem exists_gpr_ne {insns : List Insn} (hacc : AllAccepted insns) {s : VmState σ}
    (h : ¬ FoldsHarmless fp at_ insns s) :
    ∃ k ≤ insns.length, (replay fp at_ (insns.take k) s).cpu.gpr ≠
      (replay fp at_ ((insns.take k).map Insn.fold) s).cpu.gpr := by
  induction insns generalizing s with
  | nil => exact absurd trivial h
  | cons i rest ih =>
      rw [FoldsHarmless, Classical.not_imp] at h
      obtain ⟨hhalted, h⟩ := h
      obtain ⟨rip, hi⟩ := hacc i (List.mem_cons_self ..)
      by_cases hself : i.isFolded = true → i.Harmless s.cpu
      · have hrest : ¬ ((stepInsn fp at_ i s).stopped = false →
            FoldsHarmless fp at_ rest ((stepInsn fp at_ i s).advance i)) :=
          fun hrest => h ⟨hself, hrest⟩
        rw [Classical.not_imp] at hrest
        obtain ⟨hstop, hrest⟩ := hrest
        obtain ⟨k, hk, hne⟩ := ih hacc.tail hrest
        refine ⟨k + 1, Nat.succ_le_succ hk, ?_⟩
        rw [List.take_succ_cons, List.map_cons, replay, replay, hhalted, step_fold hi hself, hstop]
        simp only [Bool.false_eq_true, if_false]
        have hadvance : (stepInsn fp at_ i s).advance i.fold = (stepInsn fp at_ i s).advance i := by
          rw [VmState.advance, nextRip_fold]
          rfl
        rwa [hadvance]
      · rw [Classical.not_imp] at hself
        obtain ⟨hfolded, hharm⟩ := hself
        refine ⟨1, Nat.succ_le_succ (Nat.zero_le _), ?_⟩
        have hstep : stepInsn fp at_ i s = ⟨i.writeBack s.cpu.clearBranch, s.world⟩ :=
          step_of_ret (run_folded hi fp hfolded _)
        have hnop : stepInsn fp at_ i.fold s = ⟨s.cpu.clearBranch, s.world⟩ := by
          rw [Insn.fold, if_pos hfolded, step_makeNop]
        obtain ⟨hsize, _⟩ := size_of_folded hi hfolded
        have hgpr : (i.writeBack s.cpu.clearBranch).gpr ≠ s.cpu.gpr := by
          intro heq
          refine hharm ((writeBack_eq_self_iff hi hfolded s.cpu.clearBranch).mp ?_)
          rw [Insn.writeBack, Cpu.writeGpr_eq _ _ hsize] at heq ⊢
          rw [Cpu.setR_eq_self_iff]
          have hreg : (Cpu.setR _ _ _).r (aliasIndex i.dst.reg i.opSize) =
              s.cpu.clearBranch.r (aliasIndex i.dst.reg i.opSize) := congrFun heq _
          rwa [Cpu.r_setR] at hreg
        have hflags : (i.writeBack s.cpu.clearBranch).halted = false ∧
            (i.writeBack s.cpu.clearBranch).branchTaken = false := by
          rw [Insn.writeBack, Cpu.writeGpr_eq _ _ hsize]
          exact ⟨hhalted, rfl⟩
        have hclear : s.cpu.clearBranch.halted = false := hhalted
        simp only [List.take_succ_cons, List.take_zero, List.map_cons, List.map_nil, replay,
          hhalted, hstep, hnop, VmState.stopped, hflags.1, hflags.2, hclear,
          Bool.or_self, Bool.false_eq_true, if_false]
        exact hgpr

end Replay

/-! ### Folding a Jcc -/

/-- The pending operation is a logical one with result zero. -/
def ZeroPending (c : Cpu) : Prop := c.ccOp = .logic ∧ c.ccDst = 0#64

/-- After a self-XOR, ZF is set and CF, SF and OF are clear. -/
theorem condHolds_of_zeroPending {c : Cpu} (h : ZeroPending c) {cc : Cc}
    (hcc : cc.holdsAfterXorSelf = true) : c.condHolds cc = true := by
  have hbits : arithFlags c.syncFlags.rflags_ =
      { cf := false, pf := true, af := false, zf := true, sf := false, of := false } := by
    rw [arithFlags_syncFlags, Cpu.syncBits, h.1]
    simp only [computeLogic, h.2, arithFlags_applyZsp, arithFlags_alwaysOne, BitVec.zero_and]
    rfl
  obtain ⟨hcf, _, hzf, hsf, hof⟩ := c.flag_eq_arith
  rw [hbits] at hcf hzf hsf hof
  cases cc <;> simp_all [Cc.holdsAfterXorSelf, Cpu.condHolds]

/-- What the fold of a `Jcc` relies on, in an instruction the first loop has gone over. -/
structure JccFoldable (i : Insn) : Prop where
  jcc : i.kind = .jcc → i.handler = .opJcc ∧ i.dst.kind = .rel
  xor : i.isXorSelf = true → i.handler = .opXor ∧ i.sameRegs = true ∧ IsOpSize i.opSize

theorem jccFoldable_fold {rip : GuestAddr} {i : Insn} (hacc : Accepted rip i) :
    JccFoldable i.fold := by
  unfold Insn.fold
  split
  · exact ⟨(fun h => nomatch h), (fun h => nomatch h)⟩
  · constructor
    · intro hkind
      have hhandler := handler_of_kind hacc hkind rfl
      obtain ⟨f, hf, hadmits⟩ := hacc.fits
      rw [hhandler] at hf
      obtain rfl := List.mem_singleton.mp hf
      simp only [Form.admits, OperandSlot.admits, Bool.and_eq_true, beq_iff_eq] at hadmits
      exact ⟨hhandler, hadmits.1.1⟩
    · intro hxor
      rw [Insn.isXorSelf, Bool.and_eq_true, beq_iff_eq] at hxor
      have hhandler := handler_of_kind hacc hxor.1 rfl
      exact ⟨hhandler, hxor.2, size_of_regs hacc (by rw [hhandler]; decide)⟩

theorem run_xorSelf {i : Insn} (hi : JccFoldable i) (hxor : i.isXorSelf = true) (fp : HostFp)
    (c : Cpu) : ∃ c', i.run fp c = .ret (some (), c') ∧ ZeroPending c' := by
  obtain ⟨hhandler, hsame, hsize⟩ := hi.xor hxor
  obtain ⟨hdst, hsrc, hreg⟩ := sameRegs_iff.mp hsame
  have hzero (a : U64) (m : U64) : (a ^^^ a) &&& m = 0#64 := by
    rw [BitVec.xor_self, BitVec.zero_and]
  refine ⟨(c.writeGpr i.dst.reg i.opSize 0#64).stashLogic i.opSize 0#64, ?_, rfl, rfl⟩
  rw [Insn.run, hhandler]
  change opXor i c = _
  rw [opXor, binaryAlu, bind_ret (readOperand_reg hdst i.opSize c),
    bind_ret (readOperand_reg hsrc i.opSize c)]
  simp only [hreg, hzero]
  rw [bind_ret (writeOperand_reg hdst hsize _ c), hreg]
  rfl

section Replay

variable {σ : Type} {fp : HostFp} {at_ : Attached σ}

/-- Equal up to the lazy record of the flags. -/
def VmState.Same (s t : VmState σ) : Prop := s.cpu.Same t.cpu ∧ s.world = t.world

theorem VmState.Same.refl (s : VmState σ) : s.Same s := ⟨.refl _, rfl⟩

/-- The `JMP` that replaces a `Jcc` whose condition holds does what the `Jcc` does. -/
theorem step_foldJcc {prev i : Insn} (hi : JccFoldable i) {s : VmState σ}
    (hhalted : s.cpu.halted = false) (hzero : ZeroPending s.cpu)
    (hfold : (prev.isXorSelf && i.kind == .jcc && i.cond.holdsAfterXorSelf) = true) :
    (stepInsn fp at_ (foldJcc prev i) s).Same (stepInsn fp at_ i s) ∧
      (stepInsn fp at_ (foldJcc prev i) s).stopped = true ∧
      (stepInsn fp at_ i s).stopped = true := by
  have hparts := hfold
  simp only [Bool.and_eq_true, beq_iff_eq] at hparts
  obtain ⟨⟨_, hkind⟩, hcond⟩ := hparts
  obtain ⟨hhandler, hrel⟩ := hi.jcc hkind
  have htarget : branchTarget i = pure (nextRip i + i.dst.imm) := by rw [branchTarget, hrel]
  have hjmp : stepInsn fp at_ (foldJcc prev i) s =
      ⟨s.cpu.clearBranch.takeBranch (nextRip i + i.dst.imm), s.world⟩ := by
    refine step_of_ret ?_
    rw [foldJcc, if_pos hfold, Insn.run]
    change opJmp { i with kind := .jmp, handler := .opJmp, cond := .none } s.cpu.clearBranch = _
    have htarget' : branchTarget { i with kind := .jmp, handler := .opJmp, cond := .none } =
        pure (nextRip i + i.dst.imm) := htarget
    rw [opJmp, htarget', bind_ret rfl, bind_ret rfl]
    change (if (!s.cpu.halted) = true then _ else _ : H Unit) s.cpu.clearBranch = _
    rw [hhalted]
    rfl
  have hjcc : stepInsn fp at_ i s =
      ⟨s.cpu.clearBranch.syncFlags.takeBranch (nextRip i + i.dst.imm), s.world⟩ := by
    refine step_of_ret ?_
    rw [Insn.run, hhandler]
    change opJcc i s.cpu.clearBranch = _
    have hholds : s.cpu.clearBranch.syncFlags.condHolds i.cond = true := by
      rw [(Cpu.same_syncFlags _).condHolds]
      exact condHolds_of_zeroPending (c := s.cpu.clearBranch) hzero hcond
    rw [opJcc, bind_ret (a := true) (d := s.cpu.clearBranch.syncFlags) (by rw [← hholds]; rfl)]
    rfl
  rw [hjmp, hjcc]
  refine ⟨⟨?_, rfl⟩, ?_, ?_⟩
  · have hbranch : Cpu.FlagFree fun c => c.takeBranch (nextRip i + i.dst.imm) :=
      ⟨fun _ => rfl, fun _ => rfl⟩
    exact (Cpu.same_syncFlags s.cpu.clearBranch).symm.update hbranch
  · exact Bool.or_true _
  · exact Bool.or_true _

theorem zeroPending_of_step {i : Insn} (hi : JccFoldable i) {s : VmState σ}
    (hxor : i.isXorSelf = true) : ZeroPending ((stepInsn fp at_ i s).advance i).cpu := by
  obtain ⟨c', hrun, hzero⟩ := run_xorSelf hi hxor fp s.cpu.clearBranch
  rw [step_of_ret hrun]
  exact hzero

/-- A `Jcc` is the last instruction. -/
def JccLast : List Insn → Prop
  | [] => True
  | i :: rest => (i.kind = .jcc → rest = []) ∧ JccLast rest

/-- The loop over the pairs, from the instruction after `prev` on: if `prev` was a self-XOR,
its result is still pending. -/
theorem replay_foldJccFrom {prev : Insn} {rest : List Insn} (hlast : JccLast rest)
    (hfoldable : ∀ i ∈ rest, JccFoldable i) {s : VmState σ}
    (hprev : prev.isXorSelf = true → ZeroPending s.cpu) :
    (replay fp at_ (foldJccFrom prev rest) s).Same (replay fp at_ rest s) := by
  induction rest generalizing prev s with
  | nil => exact .refl s
  | cons i rest ih =>
      have hi := hfoldable i (List.mem_cons_self ..)
      rw [foldJccFrom, replay, replay]
      cases hhalted : s.cpu.halted with
      | true => exact .refl s
      | false =>
          simp only [Bool.false_eq_true, if_false]
          by_cases hfold : (prev.isXorSelf && i.kind == .jcc && i.cond.holdsAfterXorSelf) = true
          · have hxor : prev.isXorSelf = true := by
              simp only [Bool.and_eq_true] at hfold
              exact hfold.1.1
            obtain ⟨hsame, hstop, hstop'⟩ := step_foldJcc hi hhalted
              (hprev hxor) hfold
            rw [if_pos hstop, if_pos hstop']
            exact hsame
          · rw [foldJcc, if_neg hfold]
            cases hstop : (stepInsn fp at_ i s).stopped with
            | true => exact .refl _
            | false =>
                exact ih hlast.2 (fun j hj => hfoldable j (List.mem_cons_of_mem _ hj))
                  fun hxor => zeroPending_of_step hi hxor

theorem replay_foldOpaqueJcc {insns : List Insn} (hlast : JccLast insns)
    (hfoldable : ∀ i ∈ insns, JccFoldable i) (s : VmState σ) :
    (replay fp at_ (foldOpaqueJcc insns) s).Same (replay fp at_ insns s) := by
  cases insns with
  | nil => exact .refl s
  | cons i rest =>
      have hi := hfoldable i (List.mem_cons_self ..)
      rw [foldOpaqueJcc, replay, replay]
      cases s.cpu.halted with
      | true => exact .refl s
      | false =>
          cases hstop : (stepInsn fp at_ i s).stopped with
          | true => exact .refl _
          | false =>
              exact replay_foldJccFrom hlast.2
                (fun j hj => hfoldable j (List.mem_cons_of_mem _ hj))
                fun hxor => zeroPending_of_step hi hxor

/-! ### Blocks -/

theorem allAccepted_decodeRun {mem : CodeBytes} {n : Nat} {pc : GuestAddr} {insns : List Insn}
    {st : Option Status} (h : decodeRun mem n pc = some (insns, st)) : AllAccepted insns := by
  intro i hi
  obtain ⟨rip, hdecode⟩ := mem_decodeRun h i hi
  exact ⟨rip, decodeOne_accepted hdecode⟩

theorem jccLast_map_fold {insns : List Insn} (h : JccLast insns) :
    JccLast (insns.map Insn.fold) := by
  induction insns with
  | nil => trivial
  | cons i rest ih =>
      refine ⟨fun hkind => ?_, ih h.2⟩
      have hplain : i.kind = .jcc := by
        unfold Insn.fold at hkind
        split at hkind
        · exact nomatch hkind
        · exact hkind
      rw [h.1 hplain]
      rfl

theorem jccLast_decodeRun {mem : CodeBytes} {n : Nat} {pc : GuestAddr} {insns : List Insn}
    {st : Option Status} (h : decodeRun mem n pc = some (insns, st)) : JccLast insns := by
  induction n generalizing pc insns with
  | zero =>
      cases h
      trivial
  | succ n ih =>
      rw [decodeRun] at h
      cases hd : decodeOne mem pc prefixFuel with
      | none => rw [hd] at h; cases h
      | some r =>
          rw [hd] at h
          cases r with
          | error e =>
              cases h
              trivial
          | ok i =>
              simp only at h
              split at h
              · cases h
                exact ⟨fun _ => rfl, trivial⟩
              · rename_i hplain
                obtain ⟨⟨rest, st'⟩, hrest, hcons⟩ := Option.map_eq_some_iff.mp h
                cases hcons
                exact ⟨fun hkind => absurd ((decodeOne_accepted hd).branch hkind) hplain,
                  ih hrest⟩

/-- The architectural state: registers, flags, instruction pointer, fault, and the world. -/
structure ArchEq (s t : VmState σ) : Prop where
  gpr : s.cpu.gpr = t.cpu.gpr
  rflags : s.cpu.rflags = t.cpu.rflags
  rip : s.cpu.rip = t.cpu.rip
  fault : s.cpu.fault = t.cpu.fault
  world : s.world = t.world

theorem VmState.Same.archEq {s t : VmState σ} (h : s.Same t) : ArchEq s t :=
  ⟨h.1.gpr, h.1.rflags, h.1.rip, h.1.fault, h.2⟩

theorem replay_peepholeBlock {mem : CodeBytes} {n : Nat} {pc : GuestAddr} {insns : List Insn}
    {st : Option Status} (hrun : decodeRun mem n pc = some (insns, st)) (s : VmState σ) :
    (replay fp at_ (peepholeBlock insns) s).Same (replay fp at_ (insns.map Insn.fold) s) := by
  refine replay_foldOpaqueJcc (jccLast_map_fold (jccLast_decodeRun hrun)) ?_ s
  intro i hi
  obtain ⟨j, hj, rfl⟩ := List.mem_map.mp hi
  obtain ⟨rip, hacc⟩ := allAccepted_decodeRun hrun j hj
  exact jccFoldable_fold hacc

variable (fp at_)

/-- The blocks of at most `n` instructions at `pc`, with and without the pass, replay to the
same architectural state. -/
def PassAgrees (mem : CodeBytes) (pc : GuestAddr) (n : Nat) (s : VmState σ) : Prop :=
  ∀ plain folded, decodeBlockWith id mem pc n = some (.ok plain) →
    decodeBlock mem pc n = some (.ok folded) →
    ArchEq (replay fp at_ folded.insns s) (replay fp at_ plain.insns s)

/-- The pass keeps the meaning of every block at `pc` exactly when no block replays a folded
instruction that is not harmless in the state it is reached in. -/
theorem peephole_agrees_iff (mem : CodeBytes) (pc : GuestAddr) (s : VmState σ) :
    (∀ n, PassAgrees fp at_ mem pc n s) ↔
      ∀ n plain, decodeBlockWith id mem pc n = some (.ok plain) →
        FoldsHarmless fp at_ plain.insns s := by
  constructor
  · intro h n plain hplain
    obtain ⟨insns, st, hrun, _, rfl⟩ := decodeBlockWith_eq_ok.mp hplain
    by_contra hharm
    obtain ⟨k, hk, hne⟩ := exists_gpr_ne (allAccepted_decodeRun hrun) hharm
    obtain ⟨st', htake⟩ := decodeRun_take hrun hk
    have hempty : (id insns).take k = [] → st' = none := by
      intro hnil
      cases k with
      | zero =>
          cases htake
          rfl
      | succ k =>
          have hlen := congrArg List.length hnil
          simp only [List.length_take, List.length_nil, id_eq] at hlen
          omega
    have hagree := h k _ _ (decodeBlockWith_eq_ok.mpr ⟨_, st', htake, hempty, rfl⟩)
      (decodeBlockWith_eq_ok.mpr ⟨_, st', htake, hempty, rfl⟩)
    exact hne (hagree.gpr.symm.trans (replay_peepholeBlock htake s).1.gpr)
  · intro h n plain folded hplain hfolded
    have hharmless := h n plain hplain
    obtain ⟨insns, st, hrun, _, rfl⟩ := decodeBlockWith_eq_ok.mp hplain
    obtain ⟨insns', st', hrun', _, rfl⟩ := decodeBlockWith_eq_ok.mp hfolded
    rw [hrun] at hrun'
    cases hrun'
    have hsame : (replay fp at_ (peepholeBlock insns) s).Same _ := replay_peepholeBlock hrun s
    rw [replay_map_fold (allAccepted_decodeRun hrun) hharmless] at hsame
    exact hsame.archEq

end Replay

/-- `MOV EAX, EAX` clears the upper half of `RAX`; the no-op it is folded to does not. -/
theorem fold_drops_zero_extension :
    ¬ ∀ (fp : HostFp) (at_ : Attached Unit) (mem : CodeBytes) (pc : GuestAddr) (n : Nat)
        (s : VmState Unit), PassAgrees fp at_ mem pc n s := by
  intro h
  have hagree := h default ⟨none, none, [], []⟩
    (fun a => .ok (if a = 0 then 0x89 else 0xC0)) 0 1
    ⟨{ gpr := fun _ => 0x100000000 }, { mem := () }⟩ _ _ rfl rfl
  have hrax := congrFun hagree.gpr Reg.rax
  exact absurd hrax (by decide)

end PicoCpu
