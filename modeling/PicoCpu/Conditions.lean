import PicoCpu.OperandRuns
import PicoCpu.AluExact

/-!
CMP and SUB against the order of integers: the flags they stash decide the ten conditions of a
comparison, and with them Jcc and CMOVcc.
-/

namespace PicoCpu

open H Proc Handlers

/-- What a condition says of the operands of a comparison. Overflow, sign and parity say nothing
of their order. -/
def Cc.compares (size : Nat) (a b : U64) : Cc → Option Bool
  | .b => some (unsignedValue size a < unsignedValue size b)
  | .nb => some (unsignedValue size b ≤ unsignedValue size a)
  | .be => some (unsignedValue size a ≤ unsignedValue size b)
  | .nbe => some (unsignedValue size b < unsignedValue size a)
  | .z => some (unsignedValue size a = unsignedValue size b)
  | .nz => some (unsignedValue size a ≠ unsignedValue size b)
  | .l => some (signedValue size a < signedValue size b)
  | .nl => some (signedValue size b ≤ signedValue size a)
  | .le => some (signedValue size a ≤ signedValue size b)
  | .nle => some (signedValue size b < signedValue size a)
  | _ => Option.none

/-! ### The exact flags of a difference -/

/-- `a - b`. -/
def difference (a b : U64) : ExactSum := { minus := true, x := a, y := b }

section Difference

variable {size : Nat} (hsize : IsOpSize size) (a b : U64)
include hsize

omit hsize in
theorem difference_total (value : U64 → Int) :
    (difference a b).total value = value a - value b := by
  have hminus : (difference a b).total value = value a - value b - 0 := rfl
  rw [hminus, Int.sub_zero]

theorem difference_cf : ((difference a b).flags size).cf =
    decide (unsignedValue size a < unsignedValue size b) := by
  have ha := unsignedValue_bounds hsize a
  have hb := unsignedValue_bounds hsize b
  rw [two_mul_half hsize] at ha hb
  change (!decide (0 ≤ (difference a b).total _ ∧ (difference a b).total _ < 2 ^ (8 * size))) = _
  rw [difference_total, ← decide_not, decide_eq_decide]
  omega

theorem difference_zf : ((difference a b).flags size).zf =
    decide (unsignedValue size a = unsignedValue size b) := by
  have ha := unsignedValue_bounds hsize a
  have hb := unsignedValue_bounds hsize b
  have hvalue := toNat_result hsize (difference a b)
  rw [difference_total, ← two_mul_half hsize] at hvalue
  have hcases := emod_of_borrow (t := unsignedValue size a - unsignedValue size b)
    (n := 2 * 2 ^ (8 * size - 1)) (by omega) (by omega)
  rw [← hvalue] at hcases
  change decide ((difference a b).result size = 0) = _
  have hzero : (difference a b).result size = 0 ↔ ((difference a b).result size).toNat = 0 := by
    rw [← BitVec.toNat_inj]
    rfl
  rw [decide_eq_decide, hzero]
  omega

/-- The sign differs from the overflow when the difference of the signed values is negative. -/
theorem difference_sign : (((difference a b).flags size).sf != ((difference a b).flags size).of) =
    decide (signedValue size a < signedValue size b) := by
  have ha := unsignedValue_bounds hsize a
  have hb := unsignedValue_bounds hsize b
  have hvalue := unsignedValue_result hsize (difference a b)
  have hcases := emod_of_borrow (t := unsignedValue size a - unsignedValue size b)
    (n := 2 * 2 ^ (8 * size - 1)) (by omega) (by omega)
  rw [difference_total] at hvalue
  rw [← hvalue] at hcases
  have hsf : ((difference a b).flags size).sf =
      decide (2 ^ (8 * size - 1) ≤ unsignedValue size ((difference a b).result size)) := rfl
  have hof : ((difference a b).flags size).of =
      !decide (-2 ^ (8 * size - 1) ≤ (difference a b).total (signedValue size) ∧
        (difference a b).total (signedValue size) < 2 ^ (8 * size - 1)) := rfl
  rw [hsf, hof, difference_total, signedValue_eq_signedOf hsize,
    signedValue_eq_signedOf hsize, ← decide_not, Bool.eq_iff_iff]
  simp only [bne_iff_ne, ne_eq, decide_eq_decide, decide_eq_true_iff]
  unfold signedOf
  split <;> split <;> omega

end Difference

/-- With the flags of a difference, a condition holds when the operands compare so. -/
theorem condHolds_of_difference {size : Nat} (hsize : IsOpSize size) {a b : U64} {c : Cpu}
    (hflags : arithFlags c.syncBits = (difference a b).flags size) {cc : Cc} {v : Bool}
    (hcc : cc.compares size a b = some v) : c.condHolds cc = v := by
  rw [← c.arith_eq] at hflags
  have hcf := congrArg ArithFlags.cf hflags
  have hzf := congrArg ArithFlags.zf hflags
  have hsf := congrArg ArithFlags.sf hflags
  have hof := congrArg ArithFlags.of hflags
  rw [difference_cf hsize] at hcf
  rw [difference_zf hsize] at hzf
  change c.cf = _ at hcf
  change c.zf = _ at hzf
  change c.sf = _ at hsf
  change c.of = _ at hof
  have hsign : (c.sf != c.of) = decide (signedValue size a < signedValue size b) := by
    rw [hsf, hof, difference_sign hsize]
  have hsame : (c.sf == c.of) = !decide (signedValue size a < signedValue size b) := by
    rw [← hsign, bne, Bool.not_not]
  -- the unsigned and the signed values are equal together
  have hsigned : unsignedValue size a = unsignedValue size b ↔
      signedValue size a = signedValue size b := by
    have ha := unsignedValue_bounds hsize a
    have hb := unsignedValue_bounds hsize b
    rw [signedValue_eq_signedOf hsize, signedValue_eq_signedOf hsize]
    unfold signedOf
    split <;> split <;> omega
  cases cc with
  | b =>
      cases hcc
      exact hcf
  | nb =>
      cases hcc
      rw [Cpu.condHolds, hcf, ← decide_not, decide_eq_decide]
      omega
  | be =>
      cases hcc
      rw [Cpu.condHolds, hcf, hzf, ← Bool.decide_or, decide_eq_decide]
      omega
  | nbe =>
      cases hcc
      rw [Cpu.condHolds, hcf, hzf, ← decide_not, ← decide_not, ← Bool.decide_and, decide_eq_decide]
      omega
  | z =>
      cases hcc
      exact hzf
  | nz =>
      cases hcc
      rw [Cpu.condHolds, hzf, decide_not]
  | l =>
      cases hcc
      exact hsign
  | nl =>
      cases hcc
      rw [Cpu.condHolds, hsame, ← decide_not, decide_eq_decide]
      omega
  | le =>
      cases hcc
      rw [Cpu.condHolds, hsign, hzf, ← Bool.decide_or, decide_eq_decide, hsigned]
      omega
  | nle =>
      cases hcc
      rw [Cpu.condHolds, hsame, hzf, ← decide_not, ← decide_not, ← Bool.decide_and,
        decide_eq_decide, hsigned]
      omega
  | o | no | s | ns | p | np | none => cases hcc

/-! ### The handlers -/

section Handlers

variable {σ : Type}

/-- The state and the world decide the order of two operands: for `cond_holds`, and for the Jcc or
CMOVcc that comes next, wherever it is. -/
structure Decides (fp : HostFp) (at_ : Attached σ) (size : Nat) (a b : U64) (c : Cpu)
    (w : World σ) : Prop where
  holds {cc v} : cc.compares size a b = some v → c.condHolds cc = v
  jcc {insn : Insn} {v} (rip : GuestAddr) : insn.handler = .opJcc →
    insn.cond.compares size a b = some v →
    (insn.run fp).EndsIn at_ (c.setRip rip).clearBranch w (some ())
      (if v then (c.setRip rip).clearBranch.syncFlags.takeBranch (nextRip insn + insn.dst.imm)
        else (c.setRip rip).clearBranch.syncFlags) w
  cmov {insn : Insn} {v} (rip : GuestAddr) : insn.handler = .opCmov →
    insn.cond.compares size a b = some v →
    (insn.run fp).run at_.env (c.setRip rip).clearBranch w =
      (if v then opMov insn else pure ()).run at_.env (c.setRip rip).clearBranch.syncFlags w

variable {at_ : Attached σ} {c c₁ c₂ : Cpu} {w w₁ w₂ : World σ} {insn : Insn} {a b : U64}

/-- A read of a flag changes only how the flags are kept. -/
theorem condHolds_syncFlags (c : Cpu) (cc : Cc) : c.syncFlags.condHolds cc = c.condHolds cc :=
  (Cpu.same_syncFlags c).condHolds cc

theorem decides_of_flags (fp : HostFp) (at_ : Attached σ) (w : World σ) {size : Nat}
    (hsize : IsOpSize size) (hflags : arithFlags c.syncBits = (difference a b).flags size) :
    Decides fp at_ size a b c w := by
  have hnext (rip : GuestAddr) {cc : Cc} {v : Bool} (hcc : cc.compares size a b = some v) :
      (c.setRip rip).clearBranch.syncFlags.condHolds cc = v := by
    rw [condHolds_syncFlags]
    exact condHolds_of_difference (c := (c.setRip rip).clearBranch) hsize hflags hcc
  refine ⟨condHolds_of_difference hsize hflags, ?_, ?_⟩
  · intro insn v rip hop hcc
    rw [Insn.run, hop]
    apply (endsIn_getsSynced _).bind
    rw [hnext rip hcc]
    cases v with
    | true => exact endsIn_modify _
    | false => exact endsIn_pure _
  · intro insn v rip hop hcc
    rw [Insn.run, hop]
    change (opCmov insn).run _ _ _ = _
    rw [opCmov, getsSynced, bind_assoc, run_modify_bind, run_gets_bind, hnext rip hcc]
    cases v with
    | true => rfl
    | false => rfl

/-- After CMP or SUB of two values, the conditions say how they compare at the operand size. -/
theorem comparison_decides (fp : HostFp) (hsize : IsOpSize insn.opSize)
    (ha : (readOperand insn insn.dst insn.opSize).EndsIn at_ c w (some a) c₁ w₁)
    (hb : (readOperand insn insn.src insn.opSize).EndsIn at_ c₁ w₁ (some b) c₂ w₂) :
    (insn.handler = .opCmp → ∃ c₃, (insn.run fp).EndsIn at_ c w (some ()) c₃ w₂ ∧
      Decides fp at_ insn.opSize a b c₃ w₂) ∧
    (insn.handler = .opSub → ∀ c₃ w₃, (insn.run fp).EndsIn at_ c w (some ()) c₃ w₃ →
      Decides fp at_ insn.opSize a b c₃ w₃) ∧
    (insn.handler = .opSub → insn.dst.kind = .reg →
      ∃ c₃, (insn.run fp).EndsIn at_ c w (some ()) c₃ w₂) := by
  have hflags (c : Cpu) : arithFlags (c.stashSub insn.opSize b (subResult insn.opSize a b)).syncBits =
      (difference a b).flags insn.opSize := by
    have h := sbb_flags_exact hsize a b false
    rw [← subResult_eq, ← computeSub_eq] at h
    exact h
  refine ⟨fun hop => ?_, fun hop c₃ w₃ hends => ?_, fun hop hdst => ?_⟩
  · refine ⟨_, ?_, decides_of_flags fp at_ w₂ hsize (hflags c₂)⟩
    rw [Insn.run, hop]
    exact ha.bind (hb.bind (endsIn_modify _))
  · rw [Insn.run, hop] at hends
    have hwrite := hb.bind_iff.mp (ha.bind_iff.mp hends)
    obtain ⟨_, c₄, w₄, _, hstash⟩ := hwrite.of_bind
    obtain ⟨_, rfl, rfl⟩ := hstash.unique (endsIn_modify _)
    exact decides_of_flags fp at_ _ hsize (hflags c₄)
  · refine ⟨(c₂.writeGpr insn.dst.reg insn.opSize (subResult insn.opSize a b)).stashSub insn.opSize b
      (subResult insn.opSize a b), ?_⟩
    rw [Insn.run, hop]
    exact ha.bind (hb.bind ((writeOperand_of_reg hdst hsize _).bind (endsIn_modify _)))

end Handlers

/-- `cmp al, 1` or `sub al, 1`. -/
def compareAlOne (handler : Handler) : Insn :=
  { handler := handler, opSize := 1, dst := { kind := .reg, reg := Reg.rax }
    src := { kind := .imm, imm := 1 } }

/-- -128 is less than 1, but not below it: the difference overflows. -/
def leastByte : Cpu := ({} : Cpu).setR Reg.rax 0x80

theorem comparison_decides_least :
    (∃ c, ((compareAlOne .opCmp).run default).EndsIn AluOp.bare leastByte { mem := () } (some ()) c
        { mem := () } ∧
      c.condHolds .l = true ∧ c.condHolds .b = false) ∧
    ∃ c, ((compareAlOne .opSub).run default).EndsIn AluOp.bare leastByte { mem := () } (some ()) c
        { mem := () } ∧
      c.condHolds .nl = false ∧ c.condHolds .nbe = true := by
  have ha (handler : Handler) : (readOperand (compareAlOne handler) (compareAlOne handler).dst
      (compareAlOne handler).opSize).EndsIn AluOp.bare leastByte { mem := () } (some 0x80) leastByte
      { mem := () } := by
    have hal : leastByte.readGpr Reg.rax 1 = 0x80 := by decide
    rw [← hal]
    exact readOperand_of_reg rfl
  have hb (handler : Handler) : (readOperand (compareAlOne handler) (compareAlOne handler).src
      (compareAlOne handler).opSize).EndsIn AluOp.bare leastByte { mem := () } (some 1) leastByte
      { mem := () } := by
    have hone : (1 : U64) &&& maskFor 1 = 1 := by decide
    rw [← hone]
    exact readOperand_of_imm rfl
  obtain ⟨hcmp, _, _⟩ := comparison_decides default (by decide) (ha .opCmp) (hb .opCmp)
  obtain ⟨_, hsub, hends⟩ := comparison_decides default (by decide) (ha .opSub) (hb .opSub)
  constructor
  · obtain ⟨c, hends, hdecides⟩ := hcmp rfl
    exact ⟨c, hends, hdecides.holds (by decide), hdecides.holds (by decide)⟩
  · obtain ⟨c, hends⟩ := hends rfl rfl
    have hdecides := hsub rfl c _ hends
    exact ⟨c, hends, hdecides.holds (by decide), hdecides.holds (by decide)⟩

end PicoCpu
