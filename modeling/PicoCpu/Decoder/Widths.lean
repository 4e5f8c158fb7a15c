import PicoCpu.Decoder.Decode

/-!
The widths in an instruction the decoder accepts. Every clause gives the instruction an operand
size of at most 64 bytes; what `src.scale` holds is a factor of the address or the size of a
source that is extended, and is at most 8.
-/

namespace PicoCpu

open Decode

/-- The sizes the handlers take from the instruction. -/
structure Insn.Narrow (i : Insn) : Prop where
  opSize : i.opSize ≤ 64
  scale : i.src.scale ≤ 8

section Sizes

variable (px : Prefixes)

theorem aluSize_le : px.aluSize ≤ 8 := by
  rw [Prefixes.aluSize]
  split
  · exact Nat.le_refl 8
  · split <;> decide

theorem vexSize_le : px.vexSize ≤ 64 := by
  rw [Prefixes.vexSize]
  split <;> decide

theorem evexVectorSize_le : px.evexVectorSize ≤ 64 := by
  rw [Prefixes.evexVectorSize]
  split
  · exact Nat.le_refl 64
  · split <;> decide

theorem gprSize_le (w : Bool) : (if w then 8 else 4) ≤ 8 := by
  cases w <;> decide

theorem sizeByBit_le (opc : U8) : sizeByBit px opc ≤ 8 := by
  rw [sizeByBit]
  split
  · exact aluSize_le px
  · decide

theorem x87Size_le (opc : U8) : x87Size opc ≤ 8 := by
  unfold x87Size
  split <;> decide

/-- A byte form, or the size of the operands. -/
theorem byteOr_le (c : Prop) [Decidable c] : (if c then 1 else px.aluSize) ≤ 8 := by
  split
  · decide
  · exact aluSize_le px

end Sizes

/-! ### Clauses -/

/-- Every instruction the clause decodes is narrow. -/
abbrev Narrows (p : Decode Insn) : Prop := Parse.Post p fun i _ => i.Narrow

section Rules

variable {α : Type}

theorem narrows_bind {p : Decode α} {f : α → Decode Insn} (R : α → Prop)
    (hp : Parse.Post p fun a _ => R a) (hf : ∀ a, R a → Narrows (f a)) : Narrows (p >>= f) :=
  Parse.post_bind hp fun a _ ha => hf a ha

/-- What is read before does not matter. -/
theorem narrows_after {p : Decode α} {f : α → Decode Insn} (hf : ∀ a, Narrows (f a)) :
    Narrows (p >>= f) :=
  narrows_bind (fun _ => True) (fun _ _ _ => trivial) fun a _ => hf a

theorem narrows_ret {i : Insn} (hsize : i.opSize ≤ 64) (hscale : i.src.scale ≤ 8) :
    Narrows (pure i) :=
  Parse.post_ret ⟨hsize, hscale⟩

theorem narrows_fail (s : Status) : Narrows (.fail s) := Parse.post_fail

/-- A switch on the opcode. -/
theorem narrows_firstOf {s : Status} {ps : List (Option (Decode Insn))}
    (h : Parse.Arms ps fun i _ => i.Narrow) : Narrows (Parse.firstOf s ps) := h.firstOf

theorem arm_narrows {c : Bool} {p : Decode Insn} (h : Narrows p) :
    Parse.Arm (Parse.when c p) fun i _ => i.Narrow :=
  Parse.arm_when fun _ => h

theorem row_narrows {table : OpTable} {op : U8} {p : OpKind → Handler → Decode Insn}
    (hp : ∀ kind handler, Narrows (p kind handler)) :
    Parse.Arm (tableRow table op p) fun i _ => i.Narrow := by
  intro q hq
  rw [tableRow] at hq
  split at hq
  · cases hq
    exact hp _ _
  · cases hq

theorem laneRow_narrows {table : LaneTable} {op : U8} {w : Bool}
    {p : OpKind → Handler → Nat → Nat → Decode Insn}
    (hp : ∀ kind handler dataLane indexLane, Narrows (p kind handler dataLane indexLane)) :
    Parse.Arm (laneRow table op w p) fun i _ => i.Narrow := by
  intro q hq
  rw [laneRow] at hq
  split at hq
  · cases hq
    exact hp _ _ _ _
  · cases hq

end Rules

/-! ### Operands -/

theorem scale_splitSib (b : U8) (mod : Nat) (rexX rexB : Bool) :
    (splitSib b mod rexX rexB).scale ≤ 8 := by
  have hfield : (b >>> 6).toNat ≤ 3 := by
    rw [BitVec.toNat_ushiftRight, Nat.shiftRight_eq_div_pow]
    omega
  exact Nat.pow_le_pow_right (by decide) hfield

/-- The factor of an address is at most 8. -/
theorem decodeRmOperand_scale (px : Prefixes) (m : ModRm) (size : Nat) :
    Parse.Post (decodeRmOperand px m size) fun op _ => op.scale ≤ 8 := by
  have hafter {α : Type} {p : Decode α} {f : α → Decode Operand}
      (hf : ∀ a, Parse.Post (f a) fun op _ => op.scale ≤ 8) :
      Parse.Post (p >>= f) fun op _ => op.scale ≤ 8 :=
    Parse.post_bind (Parse.post_yields p) fun a _ _ => hf a
  rw [decodeRmOperand]
  split
  · exact Parse.post_ret (Nat.zero_le 8)
  · simp only
    split
    · exact hafter fun _ => Parse.post_ret (Nat.zero_le 8)
    · split
      · apply hafter
        intro b
        have hfactor := scale_splitSib b m.mod px.rexX px.rexB
        split
        · exact hafter fun _ => Parse.post_ret hfactor
        · exact hafter fun _ => Parse.post_ret hfactor
      · exact hafter fun _ => Parse.post_ret (Nat.zero_le 8)

theorem decodeXmmOperand_scale (px : Prefixes) (m : ModRm) (size : Nat) :
    Parse.Post (decodeXmmOperand px m size) fun op _ => op.scale ≤ 8 := by
  rw [decodeXmmOperand]
  split
  · exact Parse.post_ret (Nat.zero_le 8)
  · exact decodeRmOperand_scale px m size

/-- A clause that reads the r/m operand. -/
theorem narrows_rm {px : Prefixes} {m : ModRm} {size : Nat} {f : Operand → Decode Insn}
    (hf : ∀ op : Operand, op.scale ≤ 8 → Narrows (f op)) :
    Narrows (decodeRmOperand px m size >>= f) :=
  narrows_bind _ (decodeRmOperand_scale px m size) hf

theorem narrows_xmm {px : Prefixes} {m : ModRm} {size : Nat} {f : Operand → Decode Insn}
    (hf : ∀ op : Operand, op.scale ≤ 8 → Narrows (f op)) :
    Narrows (decodeXmmOperand px m size >>= f) :=
  narrows_bind _ (decodeXmmOperand_scale px m size) hf

namespace Narrows

variable {px : Prefixes} {out : Insn}

/-! ### The two-byte maps -/

section TwoByte

variable {kind : OpKind} {handler : Handler}

theorem withImm8 {p : Decode Insn} (h : Narrows p) : Narrows (Decode.withImm8 p) :=
  narrows_bind _ h fun _ hi => narrows_after fun _ => narrows_ret hi.opSize hi.scale

theorem xmmRm : Narrows (decodeXmmRm px out kind handler) :=
  narrows_after fun _ => narrows_xmm fun _ hop => narrows_ret (by decide : 16 ≤ 64) hop

theorem xmmMr : Narrows (decodeXmmMr px out kind handler) :=
  narrows_after fun _ => narrows_xmm fun _ _ => narrows_ret (by decide : 16 ≤ 64) (Nat.zero_le 8)

theorem regRm {size : Nat} (hsize : size ≤ 8) : Narrows (decodeRegRm px out size kind handler) :=
  narrows_after fun _ => narrows_rm fun _ hop => narrows_ret (hsize.trans (by decide)) hop

theorem rmReg {size : Nat} (hsize : size ≤ 8) : Narrows (decodeRmReg px out size kind handler) :=
  narrows_after fun _ => narrows_rm fun _ _ =>
    narrows_ret (hsize.trans (by decide)) (Nat.zero_le 8)

theorem crc32 (op : U8) : Narrows (decodeCrc32 px op out) :=
  narrows_after fun _ => narrows_rm fun _ hop =>
    narrows_ret ((byteOr_le px _).trans (by decide)) hop

theorem movbe (op : U8) : Narrows (decodeMovbe px op out) := by
  rw [decodeMovbe]
  split
  · exact regRm (aluSize_le px)
  · exact rmReg (aluSize_le px)

theorem map38 : Narrows (decode0F38 px out) := by
  apply narrows_after
  intro op
  apply narrows_firstOf
  apply Parse.arms_cons (arm_narrows (crc32 op))
  apply Parse.arms_cons (arm_narrows (movbe op))
  apply Parse.arms_cons
  · exact Parse.arm_ite (fun _ => row_narrows fun _ _ => xmmRm) fun _ => Parse.arm_none
  · apply Parse.arms_cons
    · exact Parse.arm_ite (fun _ => row_narrows fun _ _ => xmmRm) fun _ => Parse.arm_none
    · exact Parse.arms_nil

theorem pextr {size : Nat} (hsize : size ≤ 8) : Narrows (decodePextr px out size kind handler) :=
  narrows_after fun _ => narrows_rm fun _ _ =>
    narrows_ret (hsize.trans (by decide)) (Nat.zero_le 8)

theorem pinsr {size : Nat} (hsize : size ≤ 8) : Narrows (decodePinsr px out size kind handler) :=
  narrows_after fun _ => narrows_rm fun _ hop => narrows_ret (hsize.trans (by decide)) hop

theorem map3A : Narrows (decode0F3A px out) := by
  apply narrows_after
  intro op
  apply narrows_firstOf
  apply Parse.arms_cons (arm_narrows (withImm8 xmmRm))
  apply Parse.arms_cons (arm_narrows (narrows_fail _))
  apply Parse.arms_cons (row_narrows fun _ _ => withImm8 xmmRm)
  apply Parse.arms_cons (arm_narrows (withImm8 (pextr (by decide))))
  apply Parse.arms_cons (arm_narrows (withImm8 (pextr (by decide))))
  apply Parse.arms_cons (arm_narrows (withImm8 (pextr (by decide))))
  apply Parse.arms_cons (arm_narrows (withImm8 (pextr (by decide))))
  apply Parse.arms_cons (arm_narrows (withImm8 (pinsr (by decide))))
  apply Parse.arms_cons (arm_narrows (withImm8 (pinsr (by decide))))
  apply Parse.arms_cons (arm_narrows (withImm8 (pinsr (by decide))))
  exact Parse.arms_nil

theorem cvtsi2 : Narrows (decodeCvtsi2 px out kind handler) :=
  narrows_after fun _ => narrows_rm fun _ hop =>
    narrows_ret ((gprSize_le px.rexW).trans (by decide)) hop

theorem cvtt2si (size : Nat) : Narrows (decodeCvtt2si px out size kind handler) :=
  narrows_after fun _ => narrows_xmm fun _ hop =>
    narrows_ret ((gprSize_le px.rexW).trans (by decide)) hop

theorem movmsk : Narrows (decodeMovmsk px out kind handler) :=
  narrows_after fun _ => narrows_ret (by decide : 4 ≤ 64) (Nat.zero_le 8)

theorem sseScalar (sec : U8) : Parse.Arms (Decode.sseScalar px sec out) fun i _ => i.Narrow := by
  unfold Decode.sseScalar
  split
  all_goals
    apply Parse.arms_cons (row_narrows fun _ _ => xmmRm)
    apply Parse.arms_cons (arm_narrows xmmMr)
    apply Parse.arms_cons (arm_narrows cvtsi2)
    apply Parse.arms_cons (arm_narrows (cvtt2si _))
    exact Parse.arms_cons (arm_narrows (withImm8 xmmRm)) Parse.arms_nil

theorem ssePackedDouble (sec : U8) :
    Parse.Arms (Decode.ssePackedDouble px sec out) fun i _ => i.Narrow := by
  apply Parse.arms_cons (row_narrows fun _ _ => xmmRm)
  apply Parse.arms_cons (arm_narrows xmmMr)
  exact Parse.arms_cons (arm_narrows xmmMr) Parse.arms_nil

theorem ssePackedSingle (sec : U8) :
    Parse.Arms (Decode.ssePackedSingle px sec out) fun i _ => i.Narrow := by
  apply Parse.arms_cons (row_narrows fun _ _ => xmmRm)
  apply Parse.arms_cons (arm_narrows xmmMr)
  apply Parse.arms_cons (arm_narrows xmmMr)
  apply Parse.arms_cons (arm_narrows (withImm8 xmmRm))
  exact Parse.arms_cons (arm_narrows movmsk) Parse.arms_nil

theorem movdToXmm : Narrows (decodeMovdToXmm px out) :=
  narrows_after fun _ => narrows_rm fun _ hop =>
    narrows_ret ((gprSize_le px.rexW).trans (by decide)) hop

theorem movdFromXmm : Narrows (decodeMovdFromXmm px out) :=
  narrows_after fun _ => narrows_rm fun _ _ =>
    narrows_ret ((gprSize_le px.rexW).trans (by decide)) (Nat.zero_le 8)

theorem sse2Integer (sec : U8) :
    Parse.Arms (Decode.sse2Integer px sec out) fun i _ => i.Narrow := by
  apply Parse.arms_cons (row_narrows fun _ _ => xmmRm)
  apply Parse.arms_cons (arm_narrows xmmMr)
  apply Parse.arms_cons (arm_narrows movdToXmm)
  apply Parse.arms_cons (arm_narrows movdFromXmm)
  apply Parse.arms_cons (arm_narrows (withImm8 xmmRm))
  apply Parse.arms_cons (arm_narrows movmsk)
  apply Parse.arms_cons (arm_narrows movmsk)
  exact Parse.arms_cons (arm_narrows (withImm8 xmmRm)) Parse.arms_nil

theorem movqXmm : Narrows (decodeMovqXmm px out) :=
  narrows_after fun _ => narrows_xmm fun _ hop => narrows_ret (by decide : 8 ≤ 64) hop

theorem sseRep (sec : U8) : Parse.Arms (Decode.sseRep px sec out) fun i _ => i.Narrow := by
  apply Parse.arms_cons (arm_narrows xmmRm)
  apply Parse.arms_cons (arm_narrows xmmMr)
  exact Parse.arms_cons (arm_narrows movqXmm) Parse.arms_nil

end TwoByte

/-! ### General-purpose instructions -/

section General

variable {kind : OpKind} {handler : Handler}

theorem group8 : Narrows (decodeGroup8 px out) := by
  apply narrows_after
  intro m
  apply narrows_rm
  intro dst _
  apply narrows_after
  intro imm
  have hsize := (aluSize_le px).trans (by decide : 8 ≤ 64)
  simp only
  split
  · exact narrows_ret hsize (Nat.zero_le 8)
  · exact narrows_ret hsize (Nat.zero_le 8)
  · exact narrows_ret hsize (Nat.zero_le 8)
  · exact narrows_ret hsize (Nat.zero_le 8)
  · exact narrows_fail _

theorem prefetch : Narrows (decodePrefetch px out) :=
  narrows_after fun _ => narrows_rm fun _ hop => narrows_ret (by decide : 1 ≤ 64) hop

theorem bswap (sec : U8) (hout : out.Narrow) : Narrows (decodeBswap px sec out) :=
  narrows_ret ((gprSize_le px.rexW).trans (by decide)) hout.scale

theorem extend {size : Nat} (hsize : size ≤ 8) :
    Narrows (decodeExtend px out size kind handler) :=
  narrows_after fun _ => narrows_rm fun _ _ =>
    narrows_ret ((aluSize_le px).trans (by decide)) hsize

variable (hout : out.Narrow)
include hout

theorem group15 : Narrows (decodeGroup15 px out) := by
  apply narrows_after
  intro m
  split
  · split
    · exact narrows_ret hout.opSize hout.scale
    · exact narrows_ret hout.opSize hout.scale
    · exact narrows_ret hout.opSize hout.scale
    · exact narrows_fail _
  · split
    · exact narrows_rm fun _ hop => narrows_ret (by decide : 1 ≤ 64) hop
    · exact narrows_fail _

theorem nopHint : Narrows (decodeNopHint px out) := by
  apply narrows_after
  intro m
  split
  · exact narrows_ret (by decide : 1 ≤ 64) hout.scale
  · exact narrows_rm fun _ hop => narrows_ret (by decide : 1 ≤ 64) hop

theorem rdrand : Narrows (decodeRdrand px out) := by
  apply narrows_after
  intro m
  split
  · exact narrows_rm fun _ _ => narrows_ret ((aluSize_le px).trans (by decide)) hout.scale
  · exact narrows_fail _

theorem rel {size : Nat} (hsize : size ≤ 8) (cond : Cc) :
    Narrows (decodeRel out size kind handler cond) :=
  narrows_after fun _ => narrows_ret (hsize.trans (by decide)) hout.scale

omit hout in
theorem doubleShift (byImm : Bool) : Narrows (decodeDoubleShift px out byImm kind handler) := by
  apply narrows_after
  intro m
  apply narrows_rm
  intro dst _
  have hsize := (aluSize_le px).trans (by decide : 8 ≤ 64)
  simp only
  split
  · exact narrows_after fun _ => narrows_ret hsize (Nat.zero_le 8)
  · exact narrows_ret hsize (Nat.zero_le 8)

theorem generalTwoByte (sec : U8) :
    Parse.Arms (Decode.generalTwoByte px sec out) fun i _ => i.Narrow := by
  have halu := aluSize_le px
  apply Parse.arms_cons
  · exact Parse.arm_ite (fun _ => row_narrows fun _ _ => regRm halu) fun _ => Parse.arm_none
  apply Parse.arms_cons
  · exact Parse.arm_ite (fun _ => Parse.arm_none) fun _ => row_narrows fun _ _ => regRm halu
  apply Parse.arms_cons (row_narrows fun _ _ => rmReg halu)
  apply Parse.arms_cons (arm_narrows group8)
  apply Parse.arms_cons (arm_narrows (regRm halu))
  apply Parse.arms_cons (arm_narrows (rel hout (by decide) _))
  apply Parse.arms_cons
  · exact arm_narrows (narrows_ret hout.opSize hout.scale)
  apply Parse.arms_cons (arm_narrows (narrows_fail _))
  apply Parse.arms_cons (arm_narrows prefetch)
  apply Parse.arms_cons (arm_narrows (group15 hout))
  apply Parse.arms_cons (arm_narrows (nopHint hout))
  apply Parse.arms_cons
  · exact arm_narrows (narrows_ret hout.opSize hout.scale)
  apply Parse.arms_cons
  · exact arm_narrows (narrows_ret hout.opSize hout.scale)
  apply Parse.arms_cons (arm_narrows (bswap sec hout))
  apply Parse.arms_cons (arm_narrows (rdrand hout))
  apply Parse.arms_cons (arm_narrows (doubleShift _))
  apply Parse.arms_cons (arm_narrows (doubleShift _))
  apply Parse.arms_cons (arm_narrows (doubleShift _))
  apply Parse.arms_cons (arm_narrows (doubleShift _))
  apply Parse.arms_cons (arm_narrows (regRm halu))
  apply Parse.arms_cons (arm_narrows (extend (by decide)))
  apply Parse.arms_cons (arm_narrows (extend (by decide)))
  apply Parse.arms_cons (arm_narrows (extend (by decide)))
  exact Parse.arms_cons (arm_narrows (extend (by decide))) Parse.arms_nil

theorem twoByte : Narrows (decodeTwoByte px out) := by
  apply narrows_after
  intro sec
  apply narrows_firstOf
  have hnil : Parse.Arms ([] : List (Option (Decode Insn))) fun i _ => i.Narrow := Parse.arms_nil
  apply Parse.arms_append _ (generalTwoByte hout sec)
  apply Parse.arms_append _ (Parse.arms_ite (fun _ => sseRep sec) fun _ => hnil)
  apply Parse.arms_append _ (Parse.arms_ite (fun _ => sse2Integer sec) fun _ => hnil)
  apply Parse.arms_append _ (Parse.arms_ite (fun _ => ssePackedSingle sec) fun _ => hnil)
  apply Parse.arms_append _ (Parse.arms_ite (fun _ => ssePackedDouble sec) fun _ => hnil)
  apply Parse.arms_append _ (Parse.arms_ite (fun _ => sseScalar sec) fun _ => hnil)
  apply Parse.arms_cons (arm_narrows map38)
  exact Parse.arms_cons (arm_narrows map3A) hnil

end General

/-! ### VEX and EVEX -/

section Vex

variable {kind : OpKind} {handler : Handler}

theorem vexOpRmv : Narrows (decodeVexOpRmv px out kind handler) :=
  narrows_after fun _ => narrows_xmm fun _ hop => narrows_ret (vexSize_le px) hop

theorem vexOpRm (regToRm : Bool) : Narrows (decodeVexOpRm px out kind handler regToRm) := by
  apply narrows_after
  intro m
  apply narrows_xmm
  intro op hop
  apply narrows_ret (vexSize_le px)
  cases regToRm
  · exact hop
  · exact Nat.zero_le 8

theorem vexGprRmv : Narrows (decodeVexGprRmv px out kind handler) :=
  narrows_after fun _ => narrows_rm fun _ hop =>
    narrows_ret ((gprSize_le px.vexW).trans (by decide)) hop

theorem vgather (dataLane indexLane : Nat) :
    Narrows (decodeVgather px out kind handler dataLane indexLane) := by
  apply narrows_after
  intro m
  split
  · exact narrows_fail _
  · exact narrows_rm fun _ hop => narrows_ret (vexSize_le px) hop

theorem vexMap2Sse66 (op : U8) : Narrows (decodeVexMap2Sse66 px op out) := by
  apply narrows_firstOf
  apply Parse.arms_cons (row_narrows fun _ _ => vexOpRmv)
  exact Parse.arms_cons (laneRow_narrows fun _ _ => vgather) Parse.arms_nil

theorem bls : Narrows (decodeBls px out) := by
  apply narrows_after
  intro m
  apply narrows_rm
  intro src hsrc
  have hsize := (gprSize_le px.vexW).trans (by decide : 8 ≤ 64)
  simp only
  split
  · exact narrows_ret hsize hsrc
  · exact narrows_ret hsize hsrc
  · exact narrows_ret hsize hsrc
  · exact narrows_fail _

theorem vexMap2Bmi : Narrows (decodeVexMap2Bmi px out) := by
  apply narrows_after
  intro op
  apply narrows_firstOf
  apply Parse.arms_cons (arm_narrows (vexMap2Sse66 op))
  apply Parse.arms_cons (arm_narrows vexGprRmv)
  apply Parse.arms_cons (arm_narrows vexGprRmv)
  apply Parse.arms_cons (arm_narrows vexGprRmv)
  apply Parse.arms_cons (arm_narrows vexGprRmv)
  apply Parse.arms_cons (arm_narrows vexGprRmv)
  apply Parse.arms_cons (arm_narrows vexGprRmv)
  apply Parse.arms_cons (arm_narrows vexGprRmv)
  apply Parse.arms_cons (arm_narrows vexGprRmv)
  apply Parse.arms_cons (arm_narrows vexGprRmv)
  exact Parse.arms_cons (arm_narrows bls) Parse.arms_nil

theorem rorx : Narrows (decodeRorx px out) :=
  narrows_after fun _ => narrows_rm fun _ hop => narrows_after fun _ =>
    narrows_ret ((gprSize_le px.vexW).trans (by decide)) hop

theorem vexMap3Rorx : Narrows (decodeVexMap3Rorx px out) := by
  apply narrows_after
  intro op
  apply narrows_firstOf
  apply Parse.arms_cons (arm_narrows (withImm8 vexOpRmv))
  exact Parse.arms_cons (arm_narrows rorx) Parse.arms_nil

theorem evexOpRmv : Narrows (decodeEvexOpRmv px out kind handler) :=
  narrows_after fun _ => narrows_xmm fun _ hop => narrows_ret (evexVectorSize_le px) hop

theorem evexOpRm (regToRm : Bool) : Narrows (decodeEvexOpRm px out kind handler regToRm) := by
  apply narrows_after
  intro m
  apply narrows_xmm
  intro op hop
  apply narrows_ret (evexVectorSize_le px)
  cases regToRm
  · exact hop
  · exact Nat.zero_le 8

theorem evexScatter (dataLane indexLane : Nat) :
    Narrows (decodeEvexScatter px out kind handler dataLane indexLane) := by
  apply narrows_after
  intro m
  split
  · exact narrows_fail _
  · exact narrows_rm fun _ hop => narrows_ret (evexVectorSize_le px) hop

theorem evexMap2 : Narrows (decodeEvexMap2 px out) := by
  apply narrows_after
  intro op
  apply narrows_firstOf
  apply Parse.arms_cons
  · exact Parse.arm_ite (fun _ => laneRow_narrows fun _ _ => evexScatter) fun _ => Parse.arm_none
  · exact Parse.arms_nil

theorem evexMove (op : U8) (row0 row1 : OpKind × Handler) :
    Parse.Arms (Decode.evexMove px op out row0 row1) fun i _ => i.Narrow := by
  apply Parse.arms_cons (arm_narrows (evexOpRm _))
  exact Parse.arms_cons (arm_narrows (evexOpRm _)) Parse.arms_nil

theorem evex : Narrows (decodeEvex px out) := by
  have hnil : Parse.Arms ([] : List (Option (Decode Insn))) fun i _ => i.Narrow := Parse.arms_nil
  rw [decodeEvex]
  split
  · exact evexMap2
  · split
    · exact narrows_fail _
    · apply narrows_after
      intro op
      apply narrows_firstOf
      apply Parse.arms_append _ (Parse.arms_ite (fun _ => evexMove op _ _) fun _ => hnil)
      apply Parse.arms_append
      · apply Parse.arms_ite _ fun _ => hnil
        intro _
        apply Parse.arms_append _ (Parse.arms_cons (arm_narrows (evexOpRm _)) hnil)
        apply Parse.arms_append _ (evexMove op _ _)
        apply Parse.arms_cons (row_narrows fun _ _ => evexOpRmv)
        exact Parse.arms_cons (row_narrows fun _ _ => evexOpRmv) hnil
      · apply Parse.arms_ite _ fun _ => hnil
        intro _
        apply Parse.arms_cons (row_narrows fun _ _ => evexOpRmv)
        exact Parse.arms_cons (arm_narrows (evexOpRm _)) hnil

theorem vex (hout : out.Narrow) : Narrows (decodeVex px out) := by
  rw [decodeVex]
  split
  · exact evex
  · split
    · exact vexMap2Bmi
    · split
      · exact vexMap3Rorx
      · split
        · exact narrows_fail _
        · apply narrows_after
          intro op
          apply narrows_firstOf
          apply Parse.arms_cons (arm_narrows (vexOpRm _))
          apply Parse.arms_cons (arm_narrows (vexOpRm _))
          apply Parse.arms_cons
          · exact Parse.arm_ite (fun _ => row_narrows fun _ _ => vexOpRmv) fun _ => Parse.arm_none
          apply Parse.arms_cons (arm_narrows (vexOpRm _))
          apply Parse.arms_cons (arm_narrows (vexOpRm _))
          apply Parse.arms_cons
          · exact arm_narrows (narrows_ret hout.opSize hout.scale)
          · exact Parse.arms_nil

end Vex

/-! ### The one-byte map -/

section Primary

theorem aluPrimary (family variant : Nat) : Narrows (decodeAluPrimary px family variant out) := by
  have halu := aluSize_le px
  rw [decodeAluPrimary]
  simp only
  split
  · exact rmReg (by decide)
  · exact rmReg halu
  · exact regRm (by decide)
  · exact regRm halu
  · apply narrows_after
    intro imm
    exact narrows_ret (by decide : 1 ≤ 64) (Nat.zero_le 8)
  · apply narrows_after
    intro imm
    exact narrows_ret (halu.trans (by decide)) (Nat.zero_le 8)
  · exact narrows_fail _

theorem group1 (opc : U8) : Narrows (decodeGroup1 px opc out) :=
  narrows_after fun _ => narrows_rm fun _ _ => narrows_after fun _ =>
    narrows_ret ((byteOr_le px _).trans (by decide)) (Nat.zero_le 8)

theorem group2 (opc : U8) : Narrows (decodeGroup2 px opc out) := by
  apply narrows_after
  intro m
  apply narrows_rm
  intro dst _
  have hsize := (byteOr_le px (opc = 0xC0 ∨ opc = 0xD0 ∨ opc = 0xD2)).trans (by decide : 8 ≤ 64)
  simp only
  split
  · apply narrows_after
    intro imm
    exact narrows_ret hsize (Nat.zero_le 8)
  · split
    · exact narrows_ret hsize (Nat.zero_le 8)
    · exact narrows_ret hsize (Nat.zero_le 8)

theorem pushImm (size : Nat) (hout : out.Narrow) : Narrows (decodePushImm out size) :=
  narrows_after fun _ => narrows_ret (by decide : 8 ≤ 64) hout.scale

theorem imul3 (opc : U8) : Narrows (decodeImul3 px opc out) :=
  narrows_after fun _ => narrows_rm fun _ hop => narrows_after fun _ =>
    narrows_ret ((aluSize_le px).trans (by decide)) hop

theorem lea : Narrows (decodeLea px out) := by
  apply narrows_after
  intro m
  split
  · exact narrows_fail _
  · exact narrows_rm fun _ hop => narrows_ret ((aluSize_le px).trans (by decide)) hop

theorem movImm (opc : U8) {size : Nat} (hsize : size ≤ 8) :
    Narrows (decodeMovImm px opc size out) :=
  narrows_after fun _ => narrows_ret (hsize.trans (by decide)) (Nat.zero_le 8)

theorem movRmImm (opc : U8) : Narrows (decodeMovRmImm px opc out) := by
  apply narrows_after
  intro m
  split
  · exact narrows_fail _
  · exact narrows_rm fun _ _ => narrows_after fun _ =>
      narrows_ret ((byteOr_le px _).trans (by decide)) (Nat.zero_le 8)

theorem testImm (opc : U8) : Narrows (decodeTestImm px opc out) :=
  narrows_after fun _ => narrows_ret ((byteOr_le px _).trans (by decide)) (Nat.zero_le 8)

variable (hout : out.Narrow)
include hout

theorem group3 (opc : U8) : Narrows (decodeGroup3 px opc out) := by
  apply narrows_after
  intro m
  apply narrows_rm
  intro rm hrm
  have hsize := (byteOr_le px (opc = 0xF6)).trans (by decide : 8 ≤ 64)
  simp only
  split
  · exact narrows_ret hsize hout.scale
  · exact narrows_ret hsize hout.scale
  · exact narrows_ret hsize hrm
  · exact narrows_ret hsize hrm
  · exact narrows_ret hsize hrm
  · exact narrows_ret hsize hrm
  · exact narrows_after fun _ => narrows_ret hsize (Nat.zero_le 8)

theorem group45 (opc : U8) : Narrows (decodeGroup45 px opc out) := by
  apply narrows_after
  intro m
  apply narrows_rm
  intro rm _
  have hsize := (byteOr_le px (opc = 0xFE)).trans (by decide : 8 ≤ 64)
  have hwide (kind : OpKind) (handler : Handler) (flags : InsnFlags) :
      Narrows (if opc = 0xFF then
          pure { out with opSize := 8, kind := kind, handler := handler, dst := rm, flags := flags }
        else .fail .unsupportedOpcode) := by
    split
    · exact narrows_ret (by decide : 8 ≤ 64) hout.scale
    · exact narrows_fail _
  simp only
  split
  · exact narrows_ret hsize hout.scale
  · exact narrows_ret hsize hout.scale
  · exact hwide _ _ _
  · exact hwide _ _ _
  · exact hwide _ _ _
  · exact narrows_fail _

omit hout in
theorem x87MemTable_le {opc : U8} {reg size : Nat} {kind : OpKind} {handler : Handler}
    (h : x87MemTable opc reg = some (size, kind, handler)) : size ≤ 10 := by
  unfold x87MemTable at h
  split at h
  all_goals
    try split at h
  all_goals
    cases h
    try decide

theorem x87 (opc : U8) : Narrows (decodeX87 px opc out) := by
  have hsize := (x87Size_le opc).trans (by decide : 8 ≤ 64)
  apply narrows_after
  intro mb
  simp only
  split
  · split
    · exact narrows_ret hsize hout.scale
    · split
      · exact narrows_ret hsize hout.scale
      · exact narrows_fail _
  · apply narrows_rm
    intro src hsrc
    split
    · rename_i hrow
      exact narrows_ret ((x87MemTable_le hrow).trans (by decide)) (Nat.zero_le 8)
    · rename_i hrow
      exact narrows_ret ((x87MemTable_le hrow).trans (by decide)) hsrc
    · exact narrows_fail _

theorem retImm : Narrows (decodeRetImm out) :=
  narrows_after fun _ => narrows_ret (by decide : 8 ≤ 64) hout.scale

theorem intN : Narrows (decodeIntN out) :=
  narrows_after fun _ => narrows_ret hout.opSize hout.scale

theorem onePrimary (opc : U8) :
    Parse.Arms (Decode.onePrimary px opc out) fun i _ => i.Narrow := by
  have halu := aluSize_le px
  have hbit := sizeByBit_le px opc
  unfold Decode.onePrimary
  refine Parse.arms_cons (arm_narrows (aluPrimary _ _)) ?_
  refine Parse.arms_cons (arm_narrows ?_) ?_
  · exact narrows_ret (by decide : 8 ≤ 64) hout.scale
  refine Parse.arms_cons (arm_narrows ?_) ?_
  · exact narrows_ret (by decide : 8 ≤ 64) hout.scale
  refine Parse.arms_cons (arm_narrows (pushImm 4 hout)) ?_
  refine Parse.arms_cons (arm_narrows (pushImm 1 hout)) ?_
  refine Parse.arms_cons (arm_narrows (extend (by decide))) ?_
  refine Parse.arms_cons (arm_narrows (imul3 opc)) ?_
  refine Parse.arms_cons (arm_narrows (rel hout (by decide) _)) ?_
  refine Parse.arms_cons (arm_narrows (group1 opc)) ?_
  refine Parse.arms_cons (arm_narrows (rmReg (by decide))) ?_
  refine Parse.arms_cons (arm_narrows (rmReg halu)) ?_
  refine Parse.arms_cons (arm_narrows (rmReg (by decide))) ?_
  refine Parse.arms_cons (arm_narrows (rmReg halu)) ?_
  refine Parse.arms_cons (arm_narrows (rmReg hbit)) ?_
  refine Parse.arms_cons (arm_narrows (regRm hbit)) ?_
  refine Parse.arms_cons (arm_narrows lea) ?_
  refine Parse.arms_cons (arm_narrows ?_) ?_
  · exact narrows_ret (by decide : 0 ≤ 64) hout.scale
  refine Parse.arms_cons (arm_narrows (movImm opc (by decide))) ?_
  refine Parse.arms_cons (arm_narrows (movImm opc halu)) ?_
  refine Parse.arms_cons (arm_narrows (group2 opc)) ?_
  refine Parse.arms_cons (arm_narrows (retImm hout)) ?_
  refine Parse.arms_cons (arm_narrows ?_) ?_
  · exact narrows_ret (by decide : 8 ≤ 64) hout.scale
  refine Parse.arms_cons (arm_narrows (movRmImm opc)) ?_
  refine Parse.arms_cons (arm_narrows (group2 opc)) ?_
  refine Parse.arms_cons (arm_narrows (x87 hout opc)) ?_
  refine Parse.arms_cons (arm_narrows ?_) ?_
  · exact narrows_ret (halu.trans (by decide)) hout.scale
  refine Parse.arms_cons (arm_narrows ?_) ?_
  · exact narrows_ret (halu.trans (by decide)) hout.scale
  refine Parse.arms_cons (arm_narrows (testImm opc)) ?_
  refine Parse.arms_cons (row_narrows ?_) ?_
  · exact fun _ _ => narrows_ret (hbit.trans (by decide)) hout.scale
  refine Parse.arms_cons (arm_narrows (rel hout (by decide) _)) ?_
  refine Parse.arms_cons (arm_narrows (rel hout (by decide) _)) ?_
  refine Parse.arms_cons (arm_narrows (rel hout (by decide) _)) ?_
  refine Parse.arms_cons (arm_narrows (rel hout (by decide) _)) ?_
  refine Parse.arms_cons (arm_narrows ?_) ?_
  · exact narrows_ret hout.opSize hout.scale
  refine Parse.arms_cons (arm_narrows ?_) ?_
  · exact narrows_ret (by decide : 8 ≤ 64) hout.scale
  refine Parse.arms_cons (arm_narrows ?_) ?_
  · exact narrows_ret (by decide : 8 ≤ 64) hout.scale
  refine Parse.arms_cons (arm_narrows ?_) ?_
  · exact narrows_ret hout.opSize hout.scale
  refine Parse.arms_cons (arm_narrows ?_) ?_
  · exact narrows_ret hout.opSize hout.scale
  refine Parse.arms_cons (arm_narrows ?_) ?_
  · exact narrows_ret hout.opSize hout.scale
  refine Parse.arms_cons (arm_narrows (intN hout)) ?_
  refine Parse.arms_cons (arm_narrows (rel hout (by decide) _)) ?_
  refine Parse.arms_cons (arm_narrows (rel hout (by decide) _)) ?_
  refine Parse.arms_cons (arm_narrows (rel hout (by decide) _)) ?_
  refine Parse.arms_cons (arm_narrows (group3 hout opc)) ?_
  refine Parse.arms_cons (arm_narrows (group45 hout opc)) ?_
  exact Parse.arms_cons (arm_narrows (twoByte hout)) Parse.arms_nil

theorem afterPrefixes : Narrows (decodeAfterPrefixes px out) := by
  rw [decodeAfterPrefixes]
  split
  · exact vex hout
  · apply narrows_after
    intro opc
    exact narrows_firstOf (onePrimary hout opc)

end Primary

end Narrows

/-- Every instruction the decoder accepts is narrow. -/
theorem decodeWithSource_narrow {fetch : Fetch} {rip : GuestAddr} {fuel : Nat} {i : Insn}
    (h : decodeWithSource fetch rip fuel = some (.ok i)) : i.Narrow := by
  rw [decodeWithSource] at h
  split at h
  · cases h
  · cases h
  · rename_i px c hscan
    split at h
    · cases h
    · rename_i out c' hrun
      obtain ⟨bs, hyields, _, _⟩ := Parse.run_eq_ok.mp hrun
      have hblank : (px.insn rip).Narrow := ⟨Nat.zero_le 64, Nat.zero_le 8⟩
      have hnarrow := Narrows.afterPrefixes hblank bs out hyields
      cases h
      exact ⟨hnarrow.opSize, hnarrow.scale⟩

theorem decodeOne_narrow {mem : CodeBytes} {rip : GuestAddr} {fuel : Nat} {i : Insn}
    (h : decodeOne mem rip fuel = some (.ok i)) : i.Narrow :=
  decodeWithSource_narrow h

end PicoCpu
