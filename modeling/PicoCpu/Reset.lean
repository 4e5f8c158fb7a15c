import PicoCpu.LazySync

/-!
`Cpu::reset`. It clears the general registers, the instruction pointer, the flags word, the
segment bases and the control state. It forgets neither the operation whose flags are pending,
which writes the cleared word when it is next read, nor the other register files, nor a fault.
-/

namespace PicoCpu

namespace Cpu

def reset (c : Cpu) : Cpu :=
  { c with
    gpr := fun _ => 0
    rip := 0
    rflags_ := Rflags.alwaysOne
    fsBase := 0
    gsBase := 0
    halted := false
    branchTaken := false }

/-- A new CPU, with the CPUID answers the host has set on `c`: they are attached as the memory
and the hooks are, and no instruction changes them. -/
def fresh (c : Cpu) : Cpu := { cpuidOverrides := c.cpuidOverrides }

/-- No flag that the pending operation decides is set. A rotation decides CF, and OF when it
is by one; an overflow of a multiplication CF and OF alike; the others all six. -/
def PendingClear (c : Cpu) : Prop :=
  match c.ccOp with
  | .eflags => True
  | .rol | .ror =>
      c.ccSrc2.toNat % 256 ≠ 0 → c.cf = false ∧ (c.ccSrc2.toNat % 256 = 1 → c.of = false)
  | .mulOv => c.cf = false
  | .logic | .add | .adc | .sub | .sbb | .inc | .dec | .neg | .shl | .shr | .sar =>
      c.arith = arithFlags Rflags.alwaysOne

/-- What a reset leaves as it was is as a new CPU has it. -/
structure LeftAsNew (c : Cpu) : Prop where
  dr : c.dr = fun _ => 0
  zmm : c.zmm = fun _ _ => 0
  k : c.k = fun _ => 0
  fpuSt : c.fpuSt = fun _ => 0
  fpuCw : c.fpuCw = 0x037F
  fpuSw : c.fpuSw = 0
  fpuTop : c.fpuTop = 0
  fault : c.fault = {}
  pending : c.PendingClear

/-- From a reset CPU and from a new one, over the same memory and hooks, every run of
instructions is the same to all that reads flags, registers, fault and control state. The
empty run says so of the two CPUs themselves. -/
def FreshStart (c : Cpu) : Prop :=
  ∀ {σ : Type} (fp : HostFp) (at_ : Attached σ), at_.HooksKeep none →
    ∀ (world : World σ) (insns : List Insn),
      (executeAll fp at_ insns ⟨c.reset, world⟩).Indistinct
        (executeAll fp at_ insns ⟨c.fresh, world⟩)

/-! ### The flags word after a reset -/

/-- A read of a word whose reserved bit is set adds nothing to it. -/
theorem rflags_of_bit_one {c : Cpu} (h : c.rflags_.getLsbD 1 = true) :
    c.rflags = c.syncFlags.rflags_ := by
  refine or_alwaysOne_eq_self ?_
  by_cases hop : c.ccOp = .eflags
  · rwa [syncFlags_of_eflags hop]
  · exact getLsbD_one_syncFlags hop

theorem rflags_reset (c : Cpu) : c.reset.rflags = c.reset.syncFlags.rflags_ :=
  rflags_of_bit_one getLsbD_one_alwaysOne

theorem rflags_fresh (c : Cpu) : c.fresh.rflags = c.fresh.syncFlags.rflags_ :=
  rflags_of_bit_one getLsbD_one_alwaysOne

/-- The word reads as new when the pending operation computes no flag over it. -/
theorem rflags_reset_iff (c : Cpu) :
    c.reset.rflags = Rflags.alwaysOne ↔ c.reset.arith = arithFlags Rflags.alwaysOne := by
  have hone : Rflags.alwaysOne ||| Rflags.alwaysOne = Rflags.alwaysOne := BitVec.or_self
  have hiff := rflags_eq_iff c.reset.syncFlags.rflags_ Rflags.alwaysOne
  rw [hone, arithFlags_syncFlags, ← arith_eq] at hiff
  exact hiff.trans (and_iff_right (syncFlags_outside c.reset))

/-- A rotation over the cleared word shows the CF and, by one, the OF that it showed before. -/
theorem rotation_reset_iff {c : Cpu} {n : Nat} (cf of : Bool)
    (hbits : c.syncBits = if n = 0 then c.rflags_ ||| Rflags.alwaysOne
      else rotateWord c.rflags_ n cf of ||| Rflags.alwaysOne)
    (hreset : c.reset.syncBits = if n = 0 then Rflags.alwaysOne ||| Rflags.alwaysOne
      else rotateWord Rflags.alwaysOne n cf of ||| Rflags.alwaysOne) :
    c.reset.arith = arithFlags Rflags.alwaysOne ↔
      (n ≠ 0 → c.cf = false ∧ (n = 1 → c.of = false)) := by
  have hbefore := c.arith_eq
  rw [arith_eq, hreset]
  rw [hbits] at hbefore
  by_cases h0 : n = 0
  · rw [if_pos h0, arithFlags_or_alwaysOne]
    exact iff_of_true rfl fun h => absurd h0 h
  · rw [if_neg h0, arithFlags_or_alwaysOne, rotateWord] at hbefore ⊢
    have hcf : c.cf = cf := by
      have := congrArg ArithFlags.cf hbefore
      split at this <;> simpa [arith] using this
    rw [hcf, arithFlags_alwaysOne]
    by_cases h1 : n = 1
    · have hof : c.of = of := by
        have := congrArg ArithFlags.of hbefore
        rw [if_pos h1] at this
        simpa [arith] using this
      rw [hof]
      simp [h1]
    · simp [h0, h1]

/-- The flags a new word shows through the pending operation are those the operation decides. -/
theorem arith_reset_iff (c : Cpu) :
    c.reset.arith = arithFlags Rflags.alwaysOne ↔ c.PendingClear := by
  have hkept (h : c.reset.syncBits = c.syncBits) : c.reset.arith = c.arith := by
    rw [arith_eq, arith_eq, h]
  have hop : c.reset.ccOp = c.ccOp := rfl
  have hsrc2 : c.reset.ccSrc2 = c.ccSrc2 := rfl
  unfold PendingClear
  cases h : c.ccOp
  case eflags =>
    refine iff_of_true ?_ trivial
    rw [arith_eq, syncBits, hop, h]
    rfl
  case rol =>
    refine rotation_reset_iff (c.ccDst &&& 1 != 0)
      ((c.ccDst &&& signMask c.ccSize != 0) != (c.ccDst &&& 1 != 0)) ?_ ?_
    · rw [syncBits, h]
      rfl
    · rw [syncBits, hop, h]
      rfl
  case ror =>
    refine rotation_reset_iff (c.ccDst &&& signMask c.ccSize != 0)
      ((c.ccDst &&& signMask c.ccSize != 0) !=
        (c.ccDst &&& (signMask c.ccSize >>> 1) != 0)) ?_ ?_
    · rw [syncBits, h]
      rfl
    · rw [syncBits, hop, h]
      rfl
  case mulOv =>
    have hcf : c.cf = (c.ccSrc != 0) := by
      have := congrArg ArithFlags.cf c.arith_eq
      rw [syncBits, h] at this
      simpa [computeMulOv, arithFlags_or_alwaysOne, arith] using this
    have hword : arithFlags c.reset.syncBits =
        { arithFlags Rflags.alwaysOne with cf := c.ccSrc != 0, of := c.ccSrc != 0 } := by
      rw [syncBits, hop, h]
      simp only [computeMulOv, arithFlags_or_alwaysOne, arithFlags_withBit_cf,
        arithFlags_withBit_of]
      rfl
    rw [hcf, arith_eq, hword, arithFlags_alwaysOne]
    simp
  all_goals
    rw [hkept (by rw [syncBits, syncBits, hop, h]; rfl)]

/-! ### Everything else -/

theorem unflagged_reset_iff (c : Cpu) :
    c.reset.unflagged = c.fresh.unflagged ↔
      c.dr = (fun _ => 0) ∧ c.zmm = (fun _ _ => 0) ∧ c.k = (fun _ => 0) ∧
        c.fpuSt = (fun _ => 0) ∧ c.fpuCw = 0x037F ∧ c.fpuSw = 0 ∧ c.fpuTop = 0 ∧ c.fault = {} := by
  simp [reset, fresh, unflagged]

/-- Read for read, the reset CPU is the new one. -/
theorem same_reset_iff (c : Cpu) : c.reset.Same c.fresh ↔ c.LeftAsNew := by
  have hfresh : c.fresh.syncFlags.rflags_ = Rflags.alwaysOne := rfl
  rw [same_iff, hfresh, ← rflags_reset, rflags_reset_iff, arith_reset_iff, unflagged_reset_iff]
  constructor
  · rintro ⟨hpending, hdr, hzmm, hk, hst, hcw, hsw, htop, hfault⟩
    exact ⟨hdr, hzmm, hk, hst, hcw, hsw, htop, hfault, hpending⟩
  · intro h
    exact ⟨h.pending, h.dr, h.zmm, h.k, h.fpuSt, h.fpuCw, h.fpuSw, h.fpuTop, h.fault⟩

end Cpu

/-- Where no accessor tells the reset CPU from the new one, they are the same. -/
theorem VmState.Indistinct.same_reset {σ : Type} {c : Cpu} {w w' : World σ}
    (h : VmState.Indistinct ⟨c.reset, w⟩ ⟨c.fresh, w'⟩) : c.reset.Same c.fresh := by
  refine Cpu.same_iff.mpr ⟨?_, h.unflagged⟩
  have hrflags : c.reset.rflags = c.fresh.rflags := h.rflags
  rw [← Cpu.rflags_reset, hrflags, Cpu.rflags_fresh]

/-- A reset is a fresh start for the CPUs whose debug, vector, mask and x87 registers and
fault are as in a new one, with no set flag pending. -/
theorem Cpu.reset_fresh_iff (c : Cpu) : c.FreshStart ↔ c.LeftAsNew := by
  rw [← c.same_reset_iff]
  constructor
  · intro h
    have hempty := h default countingMachine (countingMachine_hooksKeep none)
      { mem := fun _ => 0 } []
    exact hempty.same_reset
  · intro hsame σ fp at_ hhooks world insns
    have hstart : VmState.Like none Eq ⟨c.reset, world⟩ ⟨c.fresh, world⟩ :=
      ⟨⟨hsame, fun l hl => absurd hl (Option.not_mem_none l)⟩, rfl⟩
    exact (hstart.executeAll fp hhooks.alike_eq fun _ _ _ => rfl).indistinct

/-- `xor eax, eax`. -/
def xorEax : Insn where
  kind := .xor
  handler := .opXor
  len := 2
  opSize := 4
  dst := { kind := .reg }
  src := { kind := .reg }

/-- One instruction from a new CPU, and a reset leaves ZF set. -/
theorem Cpu.reset_keeps_pending :
    ¬ ∀ {σ : Type} (fp : HostFp) (at_ : Attached σ) (world : World σ) (insns : List Insn),
      at_.HooksKeep none → (executeAll fp at_ insns ⟨{}, world⟩).cpu.FreshStart := by
  intro h
  have hhooks := countingMachine_hooksKeep none
  have hfresh :
      (executeAll default countingMachine [xorEax] ⟨{}, { mem := fun _ => 0 }⟩).cpu.FreshStart :=
    h default countingMachine { mem := fun _ => 0 } [xorEax] hhooks
  have hzf := (hfresh default countingMachine hhooks { mem := fun _ => 0 } []).flag Rflags.zf
  revert hzf
  decide

end PicoCpu
