import PicoCpu.Lib.BitSteps
import PicoCpu.OperandRuns
import PicoCpu.IntegerValues

/-!
Shifts and rotates against steps of one bit: the result after as many steps as the masked count, the
bit that went out last in CF, and the other flags.
-/

namespace PicoCpu

open H Proc Handlers BitSteps

inductive ShiftOp where
  | shl | shr | sar | rol | ror | rcl | rcr
  deriving DecidableEq

namespace ShiftOp

def handler : ShiftOp → Handler
  | shl => .opShl
  | shr => .opShr
  | sar => .opSar
  | rol => .opRol
  | ror => .opRor
  | rcl => .opRcl
  | rcr => .opRcr

/-- The handler itself. -/
def code : ShiftOp → Insn → H Unit
  | shl => opShl
  | shr => opShr
  | sar => opSar
  | rol => opRol
  | ror => opRor
  | rcl => opRcl
  | rcr => opRcr

theorem run_eq (fp : HostFp) (op : ShiftOp) (insn : Insn) :
    callHandler fp op.handler insn = op.code insn := by
  cases op <;> rfl

/-- One bit of it. -/
def step {w : Nat} : ShiftOp → Carried w → Carried w
  | shl => BitSteps.shl
  | shr => BitSteps.shr
  | sar => BitSteps.sar
  | rol => BitSteps.rol
  | ror => BitSteps.ror
  | rcl => BitSteps.rcl
  | rcr => BitSteps.rcr

/-- Rotates leave the flags of the result alone. -/
def isShift : ShiftOp → Bool
  | shl | shr | sar => true
  | rol | ror | rcl | rcr => false

/-- OF of a single step. -/
def overflow {w : Nat} (op : ShiftOp) (before after : Carried w) : Bool :=
  match op with
  | shl | rol | rcl => after.1.msb != after.2
  | shr => before.1.msb
  | sar => false
  | ror => after.1.msb != after.1.getMsbD 1
  | rcr => before.1.msb != before.2

end ShiftOp

/-! ### Results -/

section Results

variable {size : Nat} (hsize : IsOpSize size)
include hsize

theorem bits_pos : 0 < 8 * size := by rcases hsize with rfl | rfl | rfl | rfl <;> omega

theorem bits_le : 8 * size ≤ 64 := by rcases hsize with rfl | rfl | rfl | rfl <;> omega

/-- A masked word is determined by its low bytes. -/
theorem setWidth_of_masked {a : U64} (ha : a &&& maskFor size = a) :
    (a.setWidth (8 * size)).setWidth 64 = a := by
  apply BitVec.eq_of_getLsbD_eq
  intro i hi
  have hbit := congrArg (fun x : U64 => x.getLsbD i) ha
  simp only [getLsbD_and_maskFor size hsize] at hbit
  rw [BitVec.getLsbD_setWidth, BitVec.getLsbD_setWidth, decide_eq_true hi, Bool.true_and,
    Bool.and_comm]
  exact hbit

theorem setWidth_masked (v : BitVec (8 * size)) :
    v.setWidth 64 &&& maskFor size = v.setWidth 64 := by
  apply BitVec.eq_of_getLsbD_eq
  intro i hi
  rw [getLsbD_and_maskFor size hsize, BitVec.getLsbD_setWidth]
  by_cases hlt : i < 8 * size
  · simp [hlt]
  · rw [BitVec.getLsbD_of_ge _ _ (by omega)]
    simp

variable (v : BitVec (8 * size)) (n : Nat)

theorem shlResult_eq : shlResult size (v.setWidth 64) n = (v <<< n).setWidth 64 := by
  have hle := bits_le hsize
  apply BitVec.eq_of_getLsbD_eq
  intro i hi
  rw [shlResult]
  split
  · rw [BitVec.getLsbD_setWidth, BitVec.getLsbD_shiftLeft]
    grind
  · rw [getLsbD_and_maskFor size hsize, BitVec.getLsbD_setWidth, BitVec.getLsbD_shiftLeft,
      BitVec.getLsbD_shiftLeft, BitVec.getLsbD_setWidth]
    grind

theorem shrResult_eq : shrResult size (v.setWidth 64) n = (v >>> n).setWidth 64 := by
  have hle := bits_le hsize
  apply BitVec.eq_of_getLsbD_eq
  intro i hi
  rw [shrResult, setWidth_masked hsize]
  split
  · rw [BitVec.getLsbD_setWidth, BitVec.getLsbD_ushiftRight, BitVec.getLsbD_of_ge v _ (by omega)]
    grind
  · rw [BitVec.getLsbD_setWidth, BitVec.getLsbD_ushiftRight, BitVec.getLsbD_ushiftRight,
      BitVec.getLsbD_setWidth]
    grind

theorem sarResult_eq : sarResult size (v.setWidth 64) n = (v.sshiftRight n).setWidth 64 := by
  have hle := bits_le hsize
  have hpos := bits_pos hsize
  have hextend : signExtend (v.setWidth 64) size = v.signExtend 64 := by
    rw [signExtend_eq hsize, BitVec.setWidth_setWidth_of_le _ hle, BitVec.setWidth_eq]
  have hmsb : (v.signExtend 64).msb = v.msb := by
    rw [BitVec.msb_signExtend]
    grind
  apply BitVec.eq_of_getLsbD_eq
  intro i hi
  rw [sarResult, hextend, getLsbD_and_maskFor size hsize, BitVec.getLsbD_setWidth,
    BitVec.getLsbD_sshiftRight, hmsb]
  split
  · cases hv : v.msb with
    | true =>
        rw [if_pos rfl, BitVec.getLsbD_not]
        grind
    | false =>
        rw [if_neg Bool.false_ne_true]
        grind
  · rw [BitVec.getLsbD_sshiftRight, BitVec.getLsbD_signExtend, hmsb]
    grind

/-- The rotation amount by its mask. -/
theorem and_width_sub_one : n &&& (size * 8 - 1) = n % (8 * size) := by
  rcases hsize with rfl | rfl | rfl | rfl
  · exact Nat.and_two_pow_sub_one_eq_mod n 3
  · exact Nat.and_two_pow_sub_one_eq_mod n 4
  · exact Nat.and_two_pow_sub_one_eq_mod n 5
  · exact Nat.and_two_pow_sub_one_eq_mod n 6

theorem rolResult_eq : rolResult size (v.setWidth 64) n = (v.rotateLeft n).setWidth 64 := by
  have hle := bits_le hsize
  have hlt : n % (8 * size) < 8 * size := Nat.mod_lt _ (bits_pos hsize)
  rw [rolResult, setWidth_masked hsize, and_width_sub_one hsize, ← BitVec.rotateLeft_mod_eq_rotateLeft]
  generalize n % (8 * size) = m at hlt
  split
  · rename_i hzero
    rw [hzero, rotateLeft_zero]
  · apply BitVec.eq_of_getLsbD_eq
    intro i hi
    rw [getLsbD_and_maskFor size hsize, BitVec.getLsbD_setWidth, BitVec.rotateLeft_def,
      Nat.mod_eq_of_lt hlt]
    simp only [BitVec.getLsbD_or, BitVec.getLsbD_shiftLeft, BitVec.getLsbD_ushiftRight,
      BitVec.getLsbD_setWidth]
    grind

theorem rorResult_eq : rorResult size (v.setWidth 64) n = (v.rotateRight n).setWidth 64 := by
  have hle := bits_le hsize
  have hlt : n % (8 * size) < 8 * size := Nat.mod_lt _ (bits_pos hsize)
  rw [rorResult, setWidth_masked hsize, and_width_sub_one hsize,
    ← BitVec.rotateRight_mod_eq_rotateRight]
  generalize n % (8 * size) = m at hlt
  split
  · rename_i hzero
    rw [hzero, rotateRight_zero]
  · apply BitVec.eq_of_getLsbD_eq
    intro i hi
    rw [getLsbD_and_maskFor size hsize, BitVec.getLsbD_setWidth, BitVec.rotateRight_def,
      Nat.mod_eq_of_lt hlt]
    simp only [BitVec.getLsbD_or, BitVec.getLsbD_shiftLeft, BitVec.getLsbD_ushiftRight,
      BitVec.getLsbD_setWidth]
    grind

/-! ### Single bits -/

omit hsize in
theorem and_one_bne (x : U64) : (x &&& 1 != 0) = x.getLsbD 0 := and_shl_bne_zero x 0 (by decide)

omit hsize in
theorem bitAt_eq (x : U64) (n : Nat) : bitAt x n = x.getLsbD n := by
  rw [bitAt, and_one_bne, BitVec.getLsbD_ushiftRight, Nat.add_zero]

omit n in
theorem and_signMask_word : (v.setWidth 64 &&& signMask size != 0) = v.msb := by
  have hle := bits_le hsize
  have hpos := bits_pos hsize
  have hlt : 8 * size - 1 < 64 := by omega
  rw [and_signMask_bne hsize, BitVec.getLsbD_setWidth, BitVec.msb_eq_getLsbD_last,
    decide_eq_true hlt, Bool.true_and]

omit hsize in
theorem bitAt_word (hn : n < 64) : bitAt (v.setWidth 64) n = v.getLsbD n := by
  rw [bitAt_eq, BitVec.getLsbD_setWidth, decide_eq_true hn, Bool.true_and]

/-! ### Rotations through the carry -/

omit v n in
theorem rclLoop_eq (n : Nat) (s : Carried (8 * size)) :
    rclLoop size n (s.1.setWidth 64) s.2 =
      ((BitSteps.rcl^[n] s).1.setWidth 64, (BitSteps.rcl^[n] s).2) := by
  induction n generalizing s with
  | zero => rfl
  | succ n ih =>
      have hword : ((s.1.setWidth 64 <<< 1) ||| (if s.2 then 1 else 0)) &&& maskFor size =
          (BitSteps.rcl s).1.setWidth 64 := by
        have hle := bits_le hsize
        have hone : (1 : U64) = 1#64 <<< 0 := rfl
        apply BitVec.eq_of_getLsbD_eq
        intro i hi
        rw [getLsbD_and_maskFor size hsize, BitVec.getLsbD_or, BitVec.getLsbD_shiftLeft,
          BitVec.getLsbD_setWidth, BitVec.getLsbD_setWidth, BitSteps.rcl,
          BitVec.getLsbD_shiftConcat]
        cases s.2 with
        | true =>
            rw [if_pos rfl, hone, getLsbD_one_shiftLeft 0 i (by decide)]
            grind
        | false =>
            rw [if_neg Bool.false_ne_true]
            grind
      rw [rclLoop, hword, and_signMask_word hsize, Function.iterate_succ_apply]
      exact ih (BitSteps.rcl s)

omit v n in
theorem rcrLoop_eq (n : Nat) (s : Carried (8 * size)) :
    rcrLoop size n (s.1.setWidth 64) s.2 =
      ((BitSteps.rcr^[n] s).1.setWidth 64, (BitSteps.rcr^[n] s).2) := by
  induction n generalizing s with
  | zero => rfl
  | succ n ih =>
      have hword : ((s.1.setWidth 64 >>> 1) ||| (if s.2 then signMask size else 0)) =
          (BitSteps.rcr s).1.setWidth 64 := by
        have hle := bits_le hsize
        have hpos := bits_pos hsize
        apply BitVec.eq_of_getLsbD_eq
        intro i hi
        rw [BitVec.getLsbD_or, BitVec.getLsbD_ushiftRight, BitVec.getLsbD_setWidth,
          BitVec.getLsbD_setWidth, BitSteps.rcr, BitVec.getLsbD_setWidth,
          BitVec.getLsbD_ushiftRight, BitVec.getLsbD_cons]
        cases s.2 with
        | true =>
            rw [if_pos rfl, signMask_eq size hsize, getLsbD_one_shiftLeft _ i (by omega)]
            grind
        | false =>
            rw [if_neg Bool.false_ne_true]
            grind
      have hout : (s.1.setWidth 64 &&& 1 != 0) = s.1.getLsbD 0 := by
        rw [and_one_bne, BitVec.getLsbD_setWidth, decide_eq_true (by decide), Bool.true_and]
      rw [rcrLoop, hword, hout, Function.iterate_succ_apply]
      exact ih (BitSteps.rcr s)

end Results

/-! ### Flags -/

namespace ShiftOp

/-- The flags after `n` steps, over the flags of the state before. -/
structure Sets {w : Nat} (op : ShiftOp) (n : Nat) (before after : Carried w) (c c' : Cpu) : Prop where
  none : n = 0 → c'.arith = c.arith
  carry : n ≠ 0 → c'.cf = after.2
  overflow : n = 1 → c'.of = op.overflow before after
  result : op.isShift = true → n ≠ 0 →
    c'.zf = decide (after.1 = 0) ∧ c'.sf = after.1.msb ∧ c'.pf = evenParity (after.1.setWidth 64)
  kept : op.isShift = false → c'.zf = c.zf ∧ c'.sf = c.sf ∧ c'.pf = c.pf ∧ c'.af = c.af

end ShiftOp

theorem arithFlags_shiftWord (size : Nat) (r : U64) (n : Nat) (cf of : Bool) :
    arithFlags (shiftWord Rflags.alwaysOne size r n cf of) =
      { cf := cf, pf := parity8 ((r &&& maskFor size).setWidth 8), af := false
        zf := r &&& maskFor size == 0, sf := r &&& maskFor size &&& signMask size != 0
        of := if n = 1 then of else false } := by
  unfold shiftWord
  by_cases h1 : n = 1
  · simp [h1]
  · simp [h1]

theorem arithFlags_rotateWord (x : U64) (n : Nat) (cf of : Bool) :
    arithFlags (rotateWord x n cf of ||| Rflags.alwaysOne) =
      { arithFlags x with cf := cf, of := if n = 1 then of else (arithFlags x).of } := by
  rw [arithFlags_or_alwaysOne]
  unfold rotateWord
  by_cases h1 : n = 1
  · simp [h1]
  · simp [h1]

section Sets

variable {size : Nat} (hsize : IsOpSize size) {n : Nat} (hn : n < 64)
  {before after : Carried (8 * size)} {c c' : Cpu}
include hsize

/-- The flags of a result that a shift word leaves. -/
theorem sets_of_shiftWord {op : ShiftOp} {cf of : Bool} (hop : op.isShift = true) (h0 : n ≠ 0)
    (hflags : c'.arith = arithFlags
      (shiftWord Rflags.alwaysOne size (after.1.setWidth 64) n cf of))
    (hcf : cf = after.2) (hof : n = 1 → of = op.overflow before after) :
    op.Sets n before after c c' := by
  have hle := bits_le hsize
  rw [arithFlags_shiftWord, setWidth_masked hsize, and_signMask_word hsize] at hflags
  have hzero := word_beq_zero hle after.1
  refine ⟨fun h => absurd h h0, fun _ => ?_, fun h1 => ?_, fun _ _ => ⟨?_, ?_, ?_⟩, fun h => ?_⟩
  · exact (congrArg ArithFlags.cf hflags).trans hcf
  · have hbit := congrArg ArithFlags.of hflags
    simp only [if_pos h1] at hbit
    exact hbit.trans (hof h1)
  · exact (congrArg ArithFlags.zf hflags).trans hzero
  · exact congrArg ArithFlags.sf hflags
  · exact (congrArg ArithFlags.pf hflags).trans (parity8_eq _)
  · rw [hop] at h
    cases h

omit hsize in
theorem arith_of_rotateWord {cf of : Bool} {e : Cpu} (hkeep : e.arith = c.arith)
    (hbits : c'.syncBits = rotateWord e.syncFlags.rflags_ n cf of ||| Rflags.alwaysOne) :
    c'.arith = { c.arith with cf := cf, of := if n = 1 then of else c.of } := by
  rw [Cpu.arith_eq, hbits, arithFlags_rotateWord, arithFlags_syncFlags, ← Cpu.arith_eq, hkeep]
  rfl

omit hsize in
/-- A rotation writes CF, and OF for a single step. -/
theorem sets_of_rotated {op : ShiftOp} {cf of : Bool} (hop : op.isShift = false) (h0 : n ≠ 0)
    (hflags : c'.arith = { c.arith with cf := cf, of := if n = 1 then of else c.of })
    (hcf : cf = after.2) (hof : n = 1 → of = op.overflow before after) :
    op.Sets n before after c c' := by
  refine ⟨fun h => absurd h h0, fun _ => ?_, fun h1 => ?_, fun h => ?_, fun _ => ⟨?_, ?_, ?_, ?_⟩⟩
  · exact (congrArg ArithFlags.cf hflags).trans hcf
  · have hbit := congrArg ArithFlags.of hflags
    simp only [if_pos h1] at hbit
    exact hbit.trans (hof h1)
  · rw [hop] at h
    cases h
  · exact congrArg ArithFlags.zf hflags
  · exact congrArg ArithFlags.sf hflags
  · exact congrArg ArithFlags.pf hflags
  · exact congrArg ArithFlags.af hflags

omit hsize in
/-- Nothing to do, and nothing changed. -/
theorem sets_zero {w : Nat} {op : ShiftOp} {before after : Carried w} {c c' : Cpu}
    (hsame : c'.arith = c.arith) : op.Sets 0 before after c c' := by
  refine ⟨fun _ => hsame, fun h => absurd rfl h, fun h => absurd h (by decide),
    fun _ h => absurd rfl h, fun _ => ⟨?_, ?_, ?_, ?_⟩⟩
  · exact congrArg ArithFlags.zf hsame
  · exact congrArg ArithFlags.sf hsame
  · exact congrArg ArithFlags.pf hsame
  · exact congrArg ArithFlags.af hsame

end Sets

/-! ### The flags of the handlers -/

section Stashes

variable {size : Nat} (hsize : IsOpSize size) {n : Nat} (hn : n < 64)
  (s : Carried (8 * size)) {c e : Cpu} (hkeep : e.arith = c.arith)
include hsize hn hkeep

theorem shl_sets : ShiftOp.shl.Sets n s (BitSteps.shl^[n] s) c
    (e.stashShl size (s.1.setWidth 64) n ((BitSteps.shl^[n] s).1.setWidth 64)) := by
  by_cases h0 : n = 0
  · subst h0
    exact sets_zero hkeep
  · have hpos := bits_pos hsize
    have hcf : (if n ≤ size * 8 then bitAt (s.1.setWidth 64) (size * 8 - n) else false) =
        (BitSteps.shl^[n] s).2 := by
      rw [shl_iterate, bitAt_eq, BitVec.getLsbD_setWidth]
      have hle := bits_le hsize
      grind
    refine sets_of_shiftWord hsize rfl h0 ((Cpu.arith_eq _).trans (congrArg arithFlags
      (syncBits_stashShl e _ _ h0 hn))) hcf fun _ => ?_
    rw [and_signMask_word hsize, hcf]
    rfl

theorem shr_sets : ShiftOp.shr.Sets n s (BitSteps.shr^[n] s) c
    (e.stashShr size (s.1.setWidth 64) n ((BitSteps.shr^[n] s).1.setWidth 64)) := by
  by_cases h0 : n = 0
  · subst h0
    exact sets_zero hkeep
  · have hcf : (if n ≤ size * 8 then bitAt (s.1.setWidth 64) (n - 1) else false) =
        (BitSteps.shr^[n] s).2 := by
      rw [shr_iterate, bitAt_eq, BitVec.getLsbD_setWidth]
      have hle := bits_le hsize
      grind
    refine sets_of_shiftWord hsize rfl h0 ((Cpu.arith_eq _).trans (congrArg arithFlags
      (syncBits_stashShr e _ _ h0 hn))) hcf fun _ => ?_
    rw [and_signMask_word hsize]
    rfl

theorem sar_sets : ShiftOp.sar.Sets n s (BitSteps.sar^[n] s) c
    (e.stashSar size (s.1.setWidth 64) n ((BitSteps.sar^[n] s).1.setWidth 64)) := by
  by_cases h0 : n = 0
  · subst h0
    exact sets_zero hkeep
  · have hcf : (if n ≤ size * 8 then bitAt (s.1.setWidth 64) (n - 1)
        else s.1.setWidth 64 &&& signMask size != 0) = (BitSteps.sar^[n] s).2 := by
      rw [sar_iterate _ _ (bits_pos hsize), bitAt_eq, BitVec.getLsbD_setWidth,
        and_signMask_word hsize]
      have hle := bits_le hsize
      grind
    refine sets_of_shiftWord hsize rfl h0 ((Cpu.arith_eq _).trans (congrArg arithFlags
      (syncBits_stashSar e _ _ h0 hn))) hcf fun _ => rfl

theorem rol_sets : ShiftOp.rol.Sets n s (BitSteps.rol^[n] s) c
    (e.stashRol size (s.1.setWidth 64) n ((BitSteps.rol^[n] s).1.setWidth 64)) := by
  by_cases h0 : n = 0
  · subst h0
    rw [Cpu.stashRol, Cpu.stashRotate, if_pos ⟨Nat.zero_and _, rfl⟩]
    exact sets_zero hkeep
  · have hcf : ((BitSteps.rol^[n] s).1.setWidth 64 &&& 1 != 0) = (BitSteps.rol^[n] s).2 := by
      rw [and_one_bne, rol_iterate _ _ (bits_pos hsize), BitVec.getLsbD_setWidth, if_neg h0]
      rfl
    refine sets_of_rotated rfl h0 (arith_of_rotateWord hkeep (syncBits_stashRol e _ _ h0 hn)) hcf
      fun _ => ?_
    rw [and_signMask_word hsize, hcf]
    rfl

theorem ror_sets : ShiftOp.ror.Sets n s (BitSteps.ror^[n] s) c
    (e.stashRor size (s.1.setWidth 64) n ((BitSteps.ror^[n] s).1.setWidth 64)) := by
  by_cases h0 : n = 0
  · subst h0
    rw [Cpu.stashRor, Cpu.stashRotate, if_pos ⟨Nat.zero_and _, rfl⟩]
    exact sets_zero hkeep
  · have hcf : ((BitSteps.ror^[n] s).1.setWidth 64 &&& signMask size != 0) =
        (BitSteps.ror^[n] s).2 := by
      rw [and_signMask_word hsize, ror_iterate _ _ (bits_pos hsize), if_neg h0]
    have hnext : ((BitSteps.ror^[n] s).1.setWidth 64 &&& (signMask size >>> 1) != 0) =
        (BitSteps.ror^[n] s).1.getMsbD 1 := by
      have hnextMask : signMask size >>> 1 = 1#64 <<< (8 * size - 2) := by
        apply hsize.cases <;> decide
      have hpos := bits_pos hsize
      have hle := bits_le hsize
      have hlt : 8 * size - 2 < 64 := by omega
      have hone : 1 < 8 * size := by rcases hsize with rfl | rfl | rfl | rfl <;> omega
      rw [hnextMask, and_shl_bne_zero _ _ hlt, BitVec.getLsbD_setWidth, BitVec.getMsbD_eq_getLsbD,
        decide_eq_true hlt, decide_eq_true hone, Nat.sub_sub]
    refine sets_of_rotated rfl h0 (arith_of_rotateWord hkeep (syncBits_stashRor e _ _ h0 hn)) hcf
      fun _ => ?_
    rw [and_signMask_word hsize, hnext]
    rfl

end Stashes

/-! ### The handlers -/

section Handlers

variable {σ : Type} {at_ : Attached σ} {c c₁ c₂ : Cpu} {w w₁ w₂ : World σ} {insn : Insn} {a k : U64}

/-- The destination takes a value: it is written, or holds it already. -/
inductive Takes (at_ : Attached σ) (insn : Insn) (v v' : BitVec (8 * insn.opSize)) (c : Cpu)
    (w : World σ) : Cpu → World σ → Prop where
  | written {c' w'} : (writeOperand insn insn.dst insn.opSize (v'.setWidth 64)).EndsIn at_ c w
      (some ()) c' w' → Takes at_ insn v v' c w c' w'
  | same : v' = v → Takes at_ insn v v' c w c w

/-- The destination takes the value after `n` steps and the flags are those of the steps, unless a
hook of the write changes flags itself. -/
def ShiftOp.Ends (op : ShiftOp) (at_ : Attached σ) (insn : Insn) (n : Nat)
    (before : Carried (8 * insn.opSize)) (c : Cpu) (w : World σ) (c' : Cpu) (w' : World σ) : Prop :=
  ∃ d e, d.unflagged = c.unflagged ∧ Takes at_ insn before.1 (op.step^[n] before).1 d w e w' ∧
    c'.unflagged = e.unflagged ∧ (e.arith = d.arith → op.Sets n before (op.step^[n] before) c c')

theorem unflagged_stashShift (c : Cpu) (op : CcOp) (size : Nat) (a : U64) (n : Nat) (r : U64) :
    (c.stashShift op size a n r).unflagged = c.unflagged := by
  unfold Cpu.stashShift
  split
  · rfl
  · rfl

theorem unflagged_stashRotate (c : Cpu) (op : CcOp) (size : Nat) (a : U64) (n : Nat) (r : U64) :
    (c.stashRotate op size a n r).unflagged = c.unflagged := by
  unfold Cpu.stashRotate
  split
  · rfl
  · exact Cpu.unflagged_syncFlags c

theorem endsIn_readCount (hk : (readOperand insn insn.src 1).EndsIn at_ c w (some k) c₁ w₁) :
    (readCount insn).EndsIn at_ c w (some (maskedCount insn.opSize (k.setWidth 8))) c₁ w₁ :=
  hk.bind (endsIn_pure _)

/-- The handlers that write the result of a formula and stash. -/
theorem shiftAlu_ends (op : ShiftOp) (f : Nat → U64 → Nat → U64)
    (stash : Nat → U64 → Nat → U64 → Cpu → Cpu) {n : Nat} {before : Carried (8 * insn.opSize)}
    (hsize : IsOpSize insn.opSize)
    (ha : (readOperand insn insn.dst insn.opSize).EndsIn at_ c w (some a) c₁ w₁)
    (hk : (readCount insn).EndsIn at_ c₁ w₁ (some n) c₂ w₂)
    (hf : f insn.opSize a n = (op.step^[n] before).1.setWidth 64)
    (hrest : ∀ r e, (stash insn.opSize a n r e).unflagged = e.unflagged)
    (hstash : ∀ e, e.arith = c₂.arith → op.Sets n before (op.step^[n] before) c₂
      (stash insn.opSize a n ((op.step^[n] before).1.setWidth 64) e)) :
    (∀ c' w', (shiftAlu f stash insn).EndsIn at_ c w (some ()) c' w' →
      op.Ends at_ insn n before c₂ w₂ c' w') ∧
    (insn.dst.kind = .reg → ∃ c', (shiftAlu f stash insn).EndsIn at_ c w (some ()) c' w₂ ∧
      op.Sets n before (op.step^[n] before) c₂ c') := by
  constructor
  · intro c' w' hends
    have hwrite := hk.bind_iff.mp (ha.bind_iff.mp hends)
    dsimp only at hwrite
    rw [hf] at hwrite
    obtain ⟨_, e, w₃, htakes, hmodify⟩ := hwrite.of_bind
    obtain ⟨_, rfl, rfl⟩ := hmodify.unique (endsIn_modify _)
    exact ⟨c₂, e, rfl, .written htakes, hrest _ e, hstash e⟩
  · intro hreg
    refine ⟨_, ha.bind (hk.bind ((writeOperand_of_reg hreg hsize _).bind (endsIn_modify _))), ?_⟩
    rw [hf]
    exact hstash _ (Cpu.arith_writeGpr hsize _ _ _)

section PlainShifts

variable {n : Nat} (hsize : IsOpSize insn.opSize) (hn : n < 64)
  (ha : (readOperand insn insn.dst insn.opSize).EndsIn at_ c w (some a) c₁ w₁)
  (hk : (readCount insn).EndsIn at_ c₁ w₁ (some n) c₂ w₂)
  {before : Carried (8 * insn.opSize)} (hbefore : before.1.setWidth 64 = a)
include hsize hn ha hk hbefore

theorem opShl_ends :
    (∀ c' w', (opShl insn).EndsIn at_ c w (some ()) c' w' →
      ShiftOp.shl.Ends at_ insn n before c₂ w₂ c' w') ∧
    (insn.dst.kind = .reg → ∃ c', (opShl insn).EndsIn at_ c w (some ()) c' w₂ ∧
      ShiftOp.shl.Sets n before (ShiftOp.shl.step^[n] before) c₂ c') := by
  have hvalue : (ShiftOp.shl.step^[n] before).1 = _ := congrArg Prod.fst (shl_iterate n before)
  apply shiftAlu_ends .shl shlResult (fun size a n r c => c.stashShl size a n r) hsize ha hk
  · rw [← hbefore, shlResult_eq hsize, hvalue]
  · exact fun r e => unflagged_stashShift e _ _ _ _ _
  · intro e hkeep
    rw [← hbefore]
    exact shl_sets hsize hn before hkeep

theorem opShr_ends :
    (∀ c' w', (opShr insn).EndsIn at_ c w (some ()) c' w' →
      ShiftOp.shr.Ends at_ insn n before c₂ w₂ c' w') ∧
    (insn.dst.kind = .reg → ∃ c', (opShr insn).EndsIn at_ c w (some ()) c' w₂ ∧
      ShiftOp.shr.Sets n before (ShiftOp.shr.step^[n] before) c₂ c') := by
  have hvalue : (ShiftOp.shr.step^[n] before).1 = _ := congrArg Prod.fst (shr_iterate n before)
  apply shiftAlu_ends .shr shrResult (fun size a n r c => c.stashShr size a n r) hsize ha hk
  · rw [← hbefore, shrResult_eq hsize, hvalue]
  · exact fun r e => unflagged_stashShift e _ _ _ _ _
  · intro e hkeep
    rw [← hbefore]
    exact shr_sets hsize hn before hkeep

theorem opSar_ends :
    (∀ c' w', (opSar insn).EndsIn at_ c w (some ()) c' w' →
      ShiftOp.sar.Ends at_ insn n before c₂ w₂ c' w') ∧
    (insn.dst.kind = .reg → ∃ c', (opSar insn).EndsIn at_ c w (some ()) c' w₂ ∧
      ShiftOp.sar.Sets n before (ShiftOp.sar.step^[n] before) c₂ c') := by
  have hvalue : (ShiftOp.sar.step^[n] before).1 = _ :=
    congrArg Prod.fst (sar_iterate n before (bits_pos hsize))
  apply shiftAlu_ends .sar sarResult (fun size a n r c => c.stashSar size a n r) hsize ha hk
  · rw [← hbefore, sarResult_eq hsize, hvalue]
  · exact fun r e => unflagged_stashShift e _ _ _ _ _
  · intro e hkeep
    rw [← hbefore]
    exact sar_sets hsize hn before hkeep

theorem opRol_ends :
    (∀ c' w', (opRol insn).EndsIn at_ c w (some ()) c' w' →
      ShiftOp.rol.Ends at_ insn n before c₂ w₂ c' w') ∧
    (insn.dst.kind = .reg → ∃ c', (opRol insn).EndsIn at_ c w (some ()) c' w₂ ∧
      ShiftOp.rol.Sets n before (ShiftOp.rol.step^[n] before) c₂ c') := by
  have hvalue : (ShiftOp.rol.step^[n] before).1 = _ :=
    congrArg Prod.fst (rol_iterate n before (bits_pos hsize))
  apply shiftAlu_ends .rol rolResult (fun size a n r c => c.stashRol size a n r) hsize ha hk
  · rw [← hbefore, rolResult_eq hsize, hvalue]
  · exact fun r e => unflagged_stashRotate e _ _ _ _ _
  · intro e hkeep
    rw [← hbefore]
    exact rol_sets hsize hn before hkeep

theorem opRor_ends :
    (∀ c' w', (opRor insn).EndsIn at_ c w (some ()) c' w' →
      ShiftOp.ror.Ends at_ insn n before c₂ w₂ c' w') ∧
    (insn.dst.kind = .reg → ∃ c', (opRor insn).EndsIn at_ c w (some ()) c' w₂ ∧
      ShiftOp.ror.Sets n before (ShiftOp.ror.step^[n] before) c₂ c') := by
  have hvalue : (ShiftOp.ror.step^[n] before).1 = _ :=
    congrArg Prod.fst (ror_iterate n before (bits_pos hsize))
  apply shiftAlu_ends .ror rorResult (fun size a n r c => c.stashRor size a n r) hsize ha hk
  · rw [← hbefore, rorResult_eq hsize, hvalue]
  · exact fun r e => unflagged_stashRotate e _ _ _ _ _
  · intro e hkeep
    rw [← hbefore]
    exact ror_sets hsize hn before hkeep

end PlainShifts

/-- A rotation that comes round has done nothing. -/
theorem sets_round {w n : Nat} {op : ShiftOp} {before after : Carried w} {c : Cpu}
    (hop : op.isShift = false) (hround : after = before) (hcf : before.2 = c.cf) (h1 : n ≠ 1) :
    op.Sets n before after c c := by
  refine ⟨fun _ => rfl, fun _ => ?_, fun h => absurd h h1, fun h => ?_,
    fun _ => ⟨rfl, rfl, rfl, rfl⟩⟩
  · rw [hround, hcf]
  · rw [hop] at h
    cases h

/-- CF, and OF for a single step, written one after the other. -/
def writeCarry (n : Nat) (cf of : Bool) (c : Cpu) : Cpu :=
  if n = 1 then (c.setCf cf).setOf of else c.setCf cf

theorem arith_writeCarry (n : Nat) (cf of : Bool) (c : Cpu) :
    (writeCarry n cf of c).arith =
      { c.arith with cf := cf, of := if n = 1 then of else c.of } := by
  unfold writeCarry
  by_cases h1 : n = 1
  · rw [if_pos h1, if_pos h1, Cpu.arith_setOf, Cpu.arith_setCf]
  · rw [if_neg h1, if_neg h1, Cpu.arith_setCf]
    rfl

theorem unflagged_writeCarry (n : Nat) (cf of : Bool) (c : Cpu) :
    (writeCarry n cf of c).unflagged = c.unflagged := by
  unfold writeCarry
  by_cases h1 : n = 1
  · rw [if_pos h1]
    exact (Cpu.unflagged_syncFlags _).trans (Cpu.unflagged_syncFlags c)
  · rw [if_neg h1]
    exact Cpu.unflagged_syncFlags c

theorem cf_syncFlags (c : Cpu) : c.syncFlags.cf = c.cf :=
  congrArg ArithFlags.cf (Cpu.same_syncFlags c).arith

/-- A count that rotates all the way round, or not at all. -/
theorem not_one_of_round {size n : Nat} (hsize : IsOpSize size)
    (hnone : n = 0 ∨ carryRotateAmount size n = 0) : n ≠ 1 := by
  have hpos := bits_pos hsize
  rintro rfl
  rw [carryRotateAmount, Nat.mod_eq_of_lt (by omega)] at hnone
  omega

/-- A rotation through the carry ends as it is when it comes round, and else writes the result and
then the carry. -/
theorem carryRotate_ends {p : H Unit} {op : ShiftOp} {n : Nat} {before : Carried (8 * insn.opSize)}
    {d : Cpu} (finish : Cpu → Cpu) (hsize : IsOpSize insn.opSize) (hop : op.isShift = false)
    (hcf : before.2 = c₂.cf)
    (hround : op.step^[carryRotateAmount insn.opSize n] before = op.step^[n] before)
    (hnone : n = 0 ∨ carryRotateAmount insn.opSize n = 0 → p.EndsIn at_ c w (some ()) c₂ w₂)
    (hsome : ¬ (n = 0 ∨ carryRotateAmount insn.opSize n = 0) → ∀ c' w',
      p.EndsIn at_ c w (some ()) c' w' ↔ H.EndsIn (do
        writeOperand insn insn.dst insn.opSize ((op.step^[n] before).1.setWidth 64)
        Proc.modify finish) at_ d w₂ (some ()) c' w')
    (hd : d.unflagged = c₂.unflagged) (hrest : ∀ e, (finish e).unflagged = e.unflagged)
    (hsets : ∀ e, n ≠ 0 → e.arith = d.arith → op.Sets n before (op.step^[n] before) c₂ (finish e)) :
    (∀ c' w', p.EndsIn at_ c w (some ()) c' w' → op.Ends at_ insn n before c₂ w₂ c' w') ∧
    (insn.dst.kind = .reg → ∃ c', p.EndsIn at_ c w (some ()) c' w₂ ∧
      op.Sets n before (op.step^[n] before) c₂ c') := by
  by_cases hzero : n = 0 ∨ carryRotateAmount insn.opSize n = 0
  · have hends := hnone hzero
    have hsame : op.step^[n] before = before := by
      rcases hzero with h0 | hamount
      · rw [h0]
        rfl
      · rw [← hround, hamount]
        rfl
    have hkept : op.Sets n before (op.step^[n] before) c₂ c₂ :=
      sets_round hop hsame hcf (not_one_of_round hsize hzero)
    constructor
    · intro c' w' hends'
      obtain ⟨_, rfl, rfl⟩ := hends.unique hends'
      exact ⟨c₂, c₂, rfl, .same (congrArg Prod.fst hsame), rfl, fun _ => hkept⟩
    · exact fun _ => ⟨c₂, hends, hkept⟩
  · have hn : n ≠ 0 := (not_or.mp hzero).1
    constructor
    · intro c' w' hends
      obtain ⟨_, e, w₃, htakes, hmodify⟩ := ((hsome hzero c' w').mp hends).of_bind
      obtain ⟨_, rfl, rfl⟩ := hmodify.unique (endsIn_modify _)
      exact ⟨d, e, hd, .written htakes, hrest e, hsets e hn⟩
    · intro hreg
      refine ⟨_, (hsome hzero _ _).mpr ((writeOperand_of_reg hreg hsize _).bind (endsIn_modify _)),
        hsets _ hn (Cpu.arith_writeGpr hsize _ _ _)⟩

/-- RCL writes the flags after the result. -/
theorem writeCarry_eq {size n : Nat} (hsize : IsOpSize size) (s : Carried (8 * size)) : (do
    Proc.modify fun c => c.setCf s.2
    if n = 1 then
      Proc.modify fun c => c.setOf ((s.1.setWidth 64 &&& signMask size != 0) != s.2) : H Unit) =
    Proc.modify (writeCarry n s.2 (s.1.msb != s.2)) := by
  rw [and_signMask_word hsize]
  by_cases h1 : n = 1
  · have hboth : writeCarry n s.2 (s.1.msb != s.2) =
        fun c => (c.setCf s.2).setOf (s.1.msb != s.2) := funext fun _ => if_pos h1
    rw [if_pos h1, hboth]
    rfl
  · have hone : writeCarry n s.2 (s.1.msb != s.2) = fun c => c.setCf s.2 :=
      funext fun _ => if_neg h1
    rw [if_neg h1, hone]
    rfl

section CarryRotates

variable {n : Nat} (hsize : IsOpSize insn.opSize) (hmasked : a &&& maskFor insn.opSize = a)
  (ha : (readOperand insn insn.dst insn.opSize).EndsIn at_ c w (some a) c₁ w₁)
  (hk : (readCount insn).EndsIn at_ c₁ w₁ (some n) c₂ w₂)
  {before : Carried (8 * insn.opSize)} (hbefore : before = (a.setWidth (8 * insn.opSize), c₂.cf))
include hsize hmasked ha hk hbefore

theorem opRcl_ends :
    (∀ c' w', (opRcl insn).EndsIn at_ c w (some ()) c' w' →
      ShiftOp.rcl.Ends at_ insn n before c₂ w₂ c' w') ∧
    (insn.dst.kind = .reg → ∃ c', (opRcl insn).EndsIn at_ c w (some ()) c' w₂ ∧
      ShiftOp.rcl.Sets n before (ShiftOp.rcl.step^[n] before) c₂ c') := by
  have hround : BitSteps.rcl^[carryRotateAmount insn.opSize n] before = BitSteps.rcl^[n] before := by
    rw [carryRotateAmount, Nat.mul_comm insn.opSize]
    exact rcl_iterate_mod (bits_pos hsize) n before
  have hloop : rclLoop insn.opSize (carryRotateAmount insn.opSize n) (a &&& maskFor insn.opSize)
      c₂.syncFlags.cf = ((BitSteps.rcl^[n] before).1.setWidth 64, (BitSteps.rcl^[n] before).2) := by
    rw [← hround, ← rclLoop_eq hsize, hbefore, hmasked, cf_syncFlags,
      setWidth_of_masked hsize hmasked]
  refine carryRotate_ends (writeCarry n (BitSteps.rcl^[n] before).2
    ((BitSteps.rcl^[n] before).1.msb != (BitSteps.rcl^[n] before).2)) hsize rfl (by rw [hbefore])
    hround ?_ ?_ (Cpu.unflagged_syncFlags c₂) (unflagged_writeCarry n _ _) ?_
  · intro hzero
    apply ha.bind
    apply hk.bind
    dsimp only
    rw [if_pos hzero]
    exact endsIn_pure _
  · intro hzero c' w'
    rw [opRcl, ha.bind_iff, hk.bind_iff]
    dsimp only
    rw [if_neg hzero, (endsIn_getsSynced Cpu.cf).bind_iff, hloop]
    dsimp only
    rw [writeCarry_eq hsize]
    rfl
  · intro e hn hkeep
    rw [(Cpu.same_syncFlags c₂).arith] at hkeep
    have hof : e.of = c₂.of := congrArg ArithFlags.of hkeep
    refine sets_of_rotated rfl hn ?_ rfl fun _ => rfl
    rw [arith_writeCarry, hkeep, hof]
    rfl

theorem opRcr_ends :
    (∀ c' w', (opRcr insn).EndsIn at_ c w (some ()) c' w' →
      ShiftOp.rcr.Ends at_ insn n before c₂ w₂ c' w') ∧
    (insn.dst.kind = .reg → ∃ c', (opRcr insn).EndsIn at_ c w (some ()) c' w₂ ∧
      ShiftOp.rcr.Sets n before (ShiftOp.rcr.step^[n] before) c₂ c') := by
  have hround : BitSteps.rcr^[carryRotateAmount insn.opSize n] before = BitSteps.rcr^[n] before := by
    rw [carryRotateAmount, Nat.mul_comm insn.opSize]
    exact rcr_iterate_mod (bits_pos hsize) n before
  have hloop : rcrLoop insn.opSize (carryRotateAmount insn.opSize n) (a &&& maskFor insn.opSize)
      c₂.syncFlags.cf = ((BitSteps.rcr^[n] before).1.setWidth 64, (BitSteps.rcr^[n] before).2) := by
    rw [← hround, ← rcrLoop_eq hsize, hbefore, hmasked, cf_syncFlags,
      setWidth_of_masked hsize hmasked]
  have htop : (a &&& maskFor insn.opSize &&& signMask insn.opSize != 0) = before.1.msb := by
    rw [hmasked, ← and_signMask_word hsize, hbefore, setWidth_of_masked hsize hmasked]
  have hcf : c₂.syncFlags.cf = before.2 := by rw [cf_syncFlags, hbefore]
  refine carryRotate_ends (d := if n = 1 then c₂.syncFlags.setOf (before.1.msb != before.2)
    else c₂.syncFlags) (fun c => c.setCf (BitSteps.rcr^[n] before).2) hsize rfl (by rw [hbefore])
    hround ?_ ?_ ?_ (fun c => Cpu.unflagged_syncFlags c) ?_
  · intro hzero
    apply ha.bind
    apply hk.bind
    dsimp only
    rw [if_pos hzero]
    exact endsIn_pure _
  · intro hzero c' w'
    rw [opRcr, ha.bind_iff, hk.bind_iff]
    dsimp only
    rw [if_neg hzero, (endsIn_getsSynced Cpu.cf).bind_iff, htop, hloop, hcf]
    by_cases h1 : n = 1
    · rw [if_pos h1, if_pos h1, (endsIn_modify _).bind_iff]
      rfl
    · rw [if_neg h1, if_neg h1]
      rfl
  · split
    · exact (Cpu.unflagged_syncFlags _).trans (Cpu.unflagged_syncFlags c₂)
    · exact Cpu.unflagged_syncFlags c₂
  · intro e hn hkeep
    refine sets_of_rotated rfl hn ?_ rfl fun _ => rfl
    rw [Cpu.arith_setCf, hkeep]
    by_cases h1 : n = 1
    · rw [if_pos h1, if_pos h1, Cpu.arith_setOf, (Cpu.same_syncFlags c₂).arith]
      rfl
    · rw [if_neg h1, if_neg h1, (Cpu.same_syncFlags c₂).arith]
      rfl

end CarryRotates

/-- Every shift and rotate takes as many steps of one bit as its masked count: the destination takes
the value, CF the bit that went out last, and the other flags follow. RCL and RCR rotate the operand
with the carry on top. -/
theorem shift_steps (fp : HostFp) {op : ShiftOp} (hop : insn.handler = op.handler)
    (hsize : IsOpSize insn.opSize) (hdst : insn.dst.kind ≠ .rel)
    (ha : (readOperand insn insn.dst insn.opSize).EndsIn at_ c w (some a) c₁ w₁)
    (hk : (readOperand insn insn.src 1).EndsIn at_ c₁ w₁ (some k) c₂ w₂) {n : Nat}
    (hn : n = maskedCount insn.opSize (k.setWidth 8)) {before : Carried (8 * insn.opSize)}
    (hbefore : before = (a.setWidth (8 * insn.opSize), c₂.cf)) :
    (∀ c' w', (insn.run fp).EndsIn at_ c w (some ()) c' w' →
      op.Ends at_ insn n before c₂ w₂ c' w') ∧
    (insn.dst.kind = .reg → ∃ c', (insn.run fp).EndsIn at_ c w (some ()) c' w₂ ∧
      op.Sets n before (op.step^[n] before) c₂ c') ∧
    joined (BitSteps.rcl^[n] before) = (joined before).rotateLeft n ∧
    joined (BitSteps.rcr^[n] before) = (joined before).rotateRight n := by
  have hmasked := readOperand_masked hsize hdst ha
  have hword : before.1.setWidth 64 = a := by rw [hbefore, setWidth_of_masked hsize hmasked]
  have hlt : n < 64 := by
    rw [hn]
    exact maskedCount_lt _ _
  have hcount := endsIn_readCount hk
  rw [← hn] at hcount
  have hpos := bits_pos hsize
  rw [← and_assoc]
  refine ⟨?_, joined_rcl_iterate hpos n before, joined_rcr_iterate hpos n before⟩
  rw [Insn.run, hop, op.run_eq]
  cases op with
  | shl => exact opShl_ends hsize hlt ha hcount hword
  | shr => exact opShr_ends hsize hlt ha hcount hword
  | sar => exact opSar_ends hsize hlt ha hcount hword
  | rol => exact opRol_ends hsize hlt ha hcount hword
  | ror => exact opRor_ends hsize hlt ha hcount hword
  | rcl => exact opRcl_ends hsize hmasked ha hcount hbefore
  | rcr => exact opRcr_ends hsize hmasked ha hcount hbefore

end Handlers

/-- `rcl al, 10`: one step more than all the way round. -/
def rclAlTen : Insn :=
  { handler := .opRcl, opSize := 1, dst := { kind := .reg, reg := Reg.rax }
    src := { kind := .imm, imm := 10 } }

/-- AL is 0x80 and CF is clear. -/
def topBitInAl : Cpu := ({} : Cpu).setR Reg.rax 0x80

theorem shift_steps_rcl_ten :
    (∃ c, (rclAlTen.run default).EndsIn AluOp.bare topBitInAl { mem := () } (some ()) c
        { mem := () } ∧
      c.cf = true ∧ c.zf = topBitInAl.zf) ∧
    joined (w := 8) (BitSteps.rcl^[10] (0x80#8, false)) = 1#9 <<< 8 := by
  have hal : topBitInAl.readGpr Reg.rax 1 = 0x80 := by decide
  have ha : (readOperand rclAlTen rclAlTen.dst rclAlTen.opSize).EndsIn AluOp.bare topBitInAl
      { mem := () } (some 0x80) topBitInAl { mem := () } := by
    rw [← hal]
    exact readOperand_of_reg rfl
  have hten : (10 : U64) &&& maskFor 1 = 10 := by decide
  have hk : (readOperand rclAlTen rclAlTen.src 1).EndsIn AluOp.bare topBitInAl { mem := () } (some 10)
      topBitInAl { mem := () } := by
    rw [← hten]
    exact readOperand_of_imm rfl
  have hop : rclAlTen.handler = ShiftOp.rcl.handler := rfl
  have hbefore : ((0x80#8, false) : Carried (8 * rclAlTen.opSize)) =
      ((0x80 : U64).setWidth (8 * rclAlTen.opSize), topBitInAl.cf) := by decide
  obtain ⟨_, hreg, hjoined, _⟩ := shift_steps default hop (by decide) (by decide) ha hk
    (n := 10) (by decide) hbefore
  obtain ⟨c, hends, hsets⟩ := hreg rfl
  refine ⟨⟨c, hends, ?_, (hsets.kept rfl).1⟩, ?_⟩
  · rw [hsets.carry (by decide)]
    decide
  · have hvalue : (joined (w := 8) (0x80#8, false)).rotateLeft 10 = 1#9 <<< 8 := by decide
    exact hjoined.trans hvalue

end PicoCpu
