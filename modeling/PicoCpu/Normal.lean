import PicoCpu.FlagsEager
import PicoCpu.Registers

/-!
The architectural state. Two CPUs are the same when they differ at most in how their flags
are kept: stored, or pending in the lazy record. Every accessor of a flag reads the same of
both, and every update keeps them the same.
-/

namespace PicoCpu

namespace Cpu

/-- The CPU with its flags stored and nothing pending. -/
def normal (c : Cpu) : Cpu :=
  { c.syncFlags with ccSize := 4, ccDst := 0, ccSrc := 0, ccSrc2 := 0 }

/-- Equal up to the lazy record. -/
def Same (c d : Cpu) : Prop := c.normal = d.normal

theorem Same.refl (c : Cpu) : c.Same c := rfl
theorem Same.symm {c d : Cpu} (h : c.Same d) : d.Same c := Eq.symm h
theorem Same.trans {c d e : Cpu} (h : c.Same d) (h' : d.Same e) : c.Same e := Eq.trans h h'

theorem syncFlags_eq (c : Cpu) :
    c.syncFlags = { c with rflags_ := c.syncFlags.rflags_, ccOp := .eflags } := by
  unfold syncFlags
  split
  · rename_i h
    rw [← h]
  · rfl

@[simp] theorem ccOp_syncFlags (c : Cpu) : c.syncFlags.ccOp = .eflags := by
  rw [syncFlags_eq]

@[simp] theorem syncFlags_idem (c : Cpu) : c.syncFlags.syncFlags = c.syncFlags :=
  syncFlags_of_eflags (ccOp_syncFlags c)

/-- The architectural state, field by field. -/
theorem normal_eq (c : Cpu) :
    c.normal = { c with
      rflags_ := c.syncFlags.rflags_, ccOp := .eflags, ccSize := 4, ccDst := 0, ccSrc := 0
      ccSrc2 := 0 } := by
  rw [normal, syncFlags_eq]

/-- Everything but the flags. -/
def unflagged (c : Cpu) : Cpu :=
  { c with rflags_ := 0, ccOp := .eflags, ccSize := 4, ccDst := 0, ccSrc := 0, ccSrc2 := 0 }

/-- Sameness as agreement of the flags read and of everything else. -/
theorem same_iff {c d : Cpu} :
    c.Same d ↔ c.syncFlags.rflags_ = d.syncFlags.rflags_ ∧ c.unflagged = d.unflagged := by
  rw [Same, normal_eq, normal_eq]
  constructor
  · intro h
    have hflags := congrArg Cpu.rflags_ h
    have hrest := congrArg unflagged h
    exact ⟨hflags, hrest⟩
  · rintro ⟨hflags, hrest⟩
    have h := congrArg (fun x : Cpu => { x with rflags_ := d.syncFlags.rflags_ }) hrest
    rw [hflags]
    exact h

/-- What a synchronisation reads. -/
def flagFields (c : Cpu) : U64 × CcOp × Nat × U64 × U64 × U64 :=
  (c.rflags_, c.ccOp, c.ccSize, c.ccDst, c.ccSrc, c.ccSrc2)

theorem rflags_syncFlags_congr {c d : Cpu} (h : c.flagFields = d.flagFields) :
    c.syncFlags.rflags_ = d.syncFlags.rflags_ := by
  simp only [flagFields, Prod.mk.injEq] at h
  obtain ⟨hword, hop, hsize, hdst, hsrc, hsrc2⟩ := h
  have hbits : c.syncBits = d.syncBits := by
    unfold syncBits
    rw [hword, hop, hsize, hdst, hsrc, hsrc2]
  unfold syncFlags
  rw [hop, hbits, hword]
  split
  · exact hword
  · rfl

/-- An update that neither reads nor writes the flags. -/
structure FlagFree (g : Cpu → Cpu) : Prop where
  flags : ∀ c, (g c).flagFields = c.flagFields
  rest : ∀ c, (g c).unflagged = (g c.unflagged).unflagged

theorem Same.update {c d : Cpu} (h : c.Same d) {g : Cpu → Cpu} (hg : FlagFree g) :
    (g c).Same (g d) := by
  obtain ⟨hflags, hrest⟩ := same_iff.mp h
  refine same_iff.mpr ⟨?_, ?_⟩
  · rw [rflags_syncFlags_congr (hg.flags c), rflags_syncFlags_congr (hg.flags d), hflags]
  · rw [hg.rest c, hg.rest d, hrest]

theorem same_syncFlags (c : Cpu) : c.syncFlags.Same c := by
  rw [Same, normal, normal, syncFlags_idem]

section Observations

variable {c d : Cpu} (h : c.Same d)

include h

theorem Same.rflags_eq : c.syncFlags.rflags_ = d.syncFlags.rflags_ := (same_iff.mp h).1

/-- Whatever does not look at the flags. -/
theorem Same.observe {α : Type} (f : Cpu → α) (hf : ∀ c, f c.unflagged = f c) : f c = f d := by
  rw [← hf c, ← hf d, (same_iff.mp h).2]

theorem Same.gpr : c.gpr = d.gpr := h.observe Cpu.gpr fun _ => rfl
theorem Same.rip : c.rip = d.rip := h.observe Cpu.rip fun _ => rfl
theorem Same.fault : c.fault = d.fault := h.observe Cpu.fault fun _ => rfl
theorem Same.halted : c.halted = d.halted := h.observe Cpu.halted fun _ => rfl
theorem Same.branchTaken : c.branchTaken = d.branchTaken := h.observe Cpu.branchTaken fun _ => rfl

theorem Same.rflags : c.rflags = d.rflags := by
  rw [Cpu.rflags, Cpu.rflags, h.rflags_eq]

theorem Same.flag (mask : U64) : c.flag mask = d.flag mask := by
  rw [Cpu.flag, Cpu.flag, h.rflags_eq]

theorem Same.condHolds (cc : Cc) : c.condHolds cc = d.condHolds cc := by
  unfold Cpu.condHolds Cpu.cf Cpu.pf Cpu.zf Cpu.sf Cpu.of
  simp only [h.flag]

end Observations

/-! ### Flags as bits -/

theorem flag_eq_arith (c : Cpu) :
    c.cf = (arithFlags c.syncFlags.rflags_).cf ∧ c.pf = (arithFlags c.syncFlags.rflags_).pf ∧
      c.zf = (arithFlags c.syncFlags.rflags_).zf ∧ c.sf = (arithFlags c.syncFlags.rflags_).sf ∧
      c.of = (arithFlags c.syncFlags.rflags_).of :=
  ⟨and_shl_bne_zero _ 0 (by omega), and_shl_bne_zero _ 2 (by omega), and_shl_bne_zero _ 6 (by omega),
    and_shl_bne_zero _ 7 (by omega), and_shl_bne_zero _ 11 (by omega)⟩

/-- The six flags as they are read. -/
def arith (c : Cpu) : ArithFlags :=
  { cf := c.cf, pf := c.pf, af := c.af, zf := c.zf, sf := c.sf, of := c.of }

/-- They are read from the word that the pending operation makes. -/
theorem arith_eq (c : Cpu) : c.arith = arithFlags c.syncBits := by
  have haf : c.af = (arithFlags c.syncFlags.rflags_).af := and_shl_bne_zero _ 4 (by omega)
  obtain ⟨hcf, hpf, hzf, hsf, hof⟩ := c.flag_eq_arith
  rw [arith, hcf, hpf, haf, hzf, hsf, hof, arithFlags_syncFlags]

theorem arith_congr {c d : Cpu} (h : c.flagFields = d.flagFields) : c.arith = d.arith := by
  rw [arith_eq, arith_eq, ← arithFlags_syncFlags, ← arithFlags_syncFlags,
    rflags_syncFlags_congr h]

theorem Same.arith {c d : Cpu} (h : c.Same d) : c.arith = d.arith := by
  rw [arith_eq, arith_eq, ← arithFlags_syncFlags, ← arithFlags_syncFlags, h.rflags_eq]

theorem arith_writeGpr {size : Nat} (hsize : IsOpSize size) (c : Cpu) (reg : Nat) (v : U64) :
    (c.writeGpr reg size v).arith = c.arith := by
  rw [writeGpr_eq _ _ hsize]
  exact arith_congr rfl

theorem syncBits_setFlag (c : Cpu) (mask : U64) (v : Bool) :
    (c.setFlag mask v).syncBits = withBit c.syncFlags.rflags_ mask v := by
  have hop : (c.setFlag mask v).ccOp = .eflags := ccOp_syncFlags c
  rw [syncBits, hop]
  rfl

theorem arith_setCf (c : Cpu) (v : Bool) : (c.setCf v).arith = { c.arith with cf := v } := by
  rw [arith_eq, setCf, syncBits_setFlag, arithFlags_withBit_cf, arithFlags_syncFlags, arith_eq]

theorem arith_setOf (c : Cpu) (v : Bool) : (c.setOf v).arith = { c.arith with of := v } := by
  rw [arith_eq, setOf, syncBits_setFlag, arithFlags_withBit_of, arithFlags_syncFlags, arith_eq]

theorem unflagged_syncFlags (c : Cpu) : c.syncFlags.unflagged = c.unflagged := by
  rw [syncFlags_eq]
  rfl

end Cpu

/-! ### Flags words with bit 1 set -/

theorem or_alwaysOne_eq_self {x : U64} (h : x.getLsbD 1 = true) : x ||| Rflags.alwaysOne = x := by
  rw [BitVec.eq_of_getLsbD_eq_iff]
  intro i _
  rw [BitVec.getLsbD_or, Rflags.alwaysOne, getLsbD_one_shiftLeft 1 i (by omega)]
  by_cases hi : i = 1
  · rw [hi, h, Bool.true_or]
  · rw [decide_eq_false hi, Bool.or_false]

theorem word_eq_iff {x y : U64} (hx : x.getLsbD 1 = true) (hy : y.getLsbD 1 = true) :
    x = y ↔ x &&& ~~~Cpu.syncMask = y &&& ~~~Cpu.syncMask ∧ arithFlags x = arithFlags y := by
  have h := rflags_eq_iff x y
  rwa [or_alwaysOne_eq_self hx, or_alwaysOne_eq_self hy] at h

/-- A flag write keeps bit 1. -/
theorem getLsbD_one_withBit (bits mask : U64) (on : Bool)
    (hmask : mask ∈ [Rflags.cf, Rflags.pf, Rflags.af, Rflags.zf, Rflags.sf, Rflags.of]) :
    (withBit bits mask on).getLsbD 1 = bits.getLsbD 1 := by
  simp only [List.mem_cons, List.not_mem_nil, or_false] at hmask
  rcases hmask with rfl | rfl | rfl | rfl | rfl | rfl
  · exact getLsbD_withBit bits 0 1 on (by omega)
  · exact getLsbD_withBit bits 2 1 on (by omega)
  · exact getLsbD_withBit bits 4 1 on (by omega)
  · exact getLsbD_withBit bits 6 1 on (by omega)
  · exact getLsbD_withBit bits 7 1 on (by omega)
  · exact getLsbD_withBit bits 11 1 on (by omega)

theorem getLsbD_one_applyZsp (bits : U64) (size : Nat) (r : U64) :
    (applyZsp bits size r).getLsbD 1 = bits.getLsbD 1 := by
  rw [applyZsp_eq, getLsbD_one_withBit _ _ _ (by decide), getLsbD_one_withBit _ _ _ (by decide),
    getLsbD_one_withBit _ _ _ (by decide)]

theorem getLsbD_one_alwaysOne : Rflags.alwaysOne.getLsbD 1 = true := rfl

namespace Cpu

/-- Whatever is pending sets the bit that always reads as one. -/
theorem getLsbD_one_syncBits {c : Cpu} (h : c.ccOp ≠ .eflags) : c.syncBits.getLsbD 1 = true := by
  unfold syncBits
  cases hop : c.ccOp
  case eflags => exact absurd hop h
  all_goals
    simp only [computeLogic, computeAdd, computeAdc, computeSub, computeSbb, computeInc, computeDec,
      computeNeg, computeShl, computeShr, computeSar, computeRol, computeRor, computeMulOv]
    repeat' split
  all_goals
    simp (disch := decide) only [getLsbD_one_withBit, getLsbD_one_applyZsp, BitVec.getLsbD_or,
      getLsbD_one_alwaysOne, Bool.or_true]

theorem getLsbD_one_syncFlags {c : Cpu} (h : c.ccOp ≠ .eflags) :
    c.syncFlags.rflags_.getLsbD 1 = true := by
  have hmask : syncMask.getLsbD 1 = true := rfl
  rw [syncFlags, if_neg h]
  simp only [BitVec.getLsbD_or, BitVec.getLsbD_and, getLsbD_one_syncBits h, hmask, Bool.and_self,
    Bool.or_true]

end Cpu

end PicoCpu
