import PicoCpu.Decoder.Shape

/-!
Each clause of the decoder against the forms of `Shape`: first the clauses several opcodes
share, then the opcode maps.
-/

namespace PicoCpu

open Decode

theorem form_admits {f : Form} {i : Insn} (hdst : f.dst.admits i.dst = true)
    (hsrc : f.src.admits i.src = true) (hsize : f.sizes = [] ∨ i.opSize ∈ f.sizes) :
    f.admits i = true := by
  rw [Form.admits, hdst, hsrc]
  rcases hsize with hany | hmem
  · simp [hany]
  · simp [hmem]

/-- Every row of a table binds in form `f`. -/
theorem arm_rows {f : Form} {table : OpTable} {op : U8} {p : OpKind → Handler → Decode Insn}
    {Q : Insn → List U8 → Prop} (htable : table.all (fun r => rowOk f r.2.1 r.2.2) = true)
    (hp : ∀ kind handler, rowOk f kind handler = true → Parse.Post (p kind handler) Q) :
    Parse.Arm (tableRow table op p) Q := by
  intro q hq
  rw [tableRow] at hq
  cases hrow : table.lookup op.toNat with
  | none => rw [hrow] at hq; cases hq
  | some row =>
      obtain ⟨kind, handler⟩ := row
      rw [hrow] at hq
      cases hq
      obtain ⟨before, after, rfl, _⟩ := List.lookup_eq_some_iff.mp hrow
      have hmem : (op.toNat, kind, handler) ∈ before ++ (op.toNat, kind, handler) :: after :=
        List.mem_append_right _ (List.mem_cons_self ..)
      exact hp kind handler (List.all_eq_true.mp htable _ hmem)

section Shared

variable {px : Prefixes} {out : Insn} {kind : OpKind} {handler : Handler} {sizes : List Nat}

theorem keep (hkeeps : handler.keepsFields = true) (reg : Nat) (op : Operand) :
    op = handler.reuseFields 0 reg op := (reuseFields_of_keeps hkeeps 0 reg op).symm

theorem withImm8_clause {p : Decode Insn} (h : Parse.Post p (LegacyClause px out)) :
    Parse.Post (withImm8 p) (LegacyClause px out) := by
  refine Parse.post_bind h fun i bs hi => ?_
  refine Parse.post_bind (Parse.post_yields _) fun imm bs' _ => ?_
  obtain ⟨⟨hrip, hrep, ⟨f, hf, hadmits⟩, hkind, hbranch⟩, hmem, hvex⟩ := hi
  refine Parse.post_ret ⟨⟨hrip, hrep, ⟨f, hf, hadmits⟩, hkind, hbranch⟩, ?_, hvex⟩
  rcases hmem with hnone | ⟨mb, enc, tail, op, size, rfl, hop, henc, hslot⟩
  · exact Or.inl hnone
  · refine Or.inr ⟨mb, enc, tail ++ (bs' ++ []), op, size, ?_, hop, henc, hslot⟩
    simp

theorem decodeRegRm_clause {size : Nat} (hrow : rowOk ⟨.reg, .rm, sizes⟩ kind handler = true)
    (hsize : size ∈ sizes) :
    Parse.Post (decodeRegRm px out size kind handler) (LegacyClause px out) := by
  rw [decodeRegRm, readModrm_bind]
  refine Parse.post_next fun mb => ?_
  refine Parse.post_bind (decodeRmOperand_post px _ size) fun src enc hsrc => ?_
  refine Parse.post_ret ⟨shaped_of_row hrow rfl rfl rfl ⟨rfl, rfl⟩ ?_, ?_, rfl⟩
  · exact form_admits rfl hsrc.admits (Or.inr hsize)
  · exact memField_src hsrc 0 (keep (keeps_of_row hrow) ..) rfl

theorem decodeRmReg_clause {size : Nat} (hrow : rowOk ⟨.rm, .reg, sizes⟩ kind handler = true)
    (hsize : size ∈ sizes) :
    Parse.Post (decodeRmReg px out size kind handler) (LegacyClause px out) := by
  rw [decodeRmReg, readModrm_bind]
  refine Parse.post_next fun mb => ?_
  refine Parse.post_bind (decodeRmOperand_post px _ size) fun dst enc hdst => ?_
  refine Parse.post_ret ⟨shaped_of_row hrow rfl rfl rfl ⟨rfl, rfl⟩ ?_, ?_, rfl⟩
  · exact form_admits hdst.admits rfl (Or.inr hsize)
  · exact memField_dst hdst 0 (keep (keeps_of_row hrow) ..) rfl

theorem decodeXmmRm_clause (hrow : rowOk ⟨.xmm, .xmmRm, []⟩ kind handler = true) :
    Parse.Post (decodeXmmRm px out kind handler) (LegacyClause px out) := by
  rw [decodeXmmRm, readModrm_bind]
  refine Parse.post_next fun mb => ?_
  refine Parse.post_bind (decodeXmmOperand_post px _ 16) fun src enc hsrc => ?_
  refine Parse.post_ret ⟨shaped_of_row hrow rfl rfl rfl ⟨rfl, rfl⟩ ?_, ?_, rfl⟩
  · exact form_admits rfl hsrc.admits (Or.inl rfl)
  · exact memField_src hsrc 0 (keep (keeps_of_row hrow) ..) rfl

theorem decodeXmmMr_clause (hrow : rowOk ⟨.xmmRm, .xmm, []⟩ kind handler = true) :
    Parse.Post (decodeXmmMr px out kind handler) (LegacyClause px out) := by
  rw [decodeXmmMr, readModrm_bind]
  refine Parse.post_next fun mb => ?_
  refine Parse.post_bind (decodeXmmOperand_post px _ 16) fun dst enc hdst => ?_
  refine Parse.post_ret ⟨shaped_of_row hrow rfl rfl rfl ⟨rfl, rfl⟩ ?_, ?_, rfl⟩
  · exact form_admits hdst.admits rfl (Or.inl rfl)
  · exact memField_dst hdst 0 (keep (keeps_of_row hrow) ..) rfl

/-- An instruction without a ModRM operand. -/
theorem legacy_of_none {f : Form} {i : Insn} {bs : List U8} (hrow : rowOk f kind handler = true)
    (hkind : i.kind = kind) (hhandler : i.handler = handler) (hrip : i.rip = out.rip)
    (hflags : (i.flags.rep = out.flags.rep ∧ i.flags.repne = out.flags.repne) ∧
      i.flags.vex = out.flags.vex)
    (hadmits : f.admits i = true) (hdst : i.dst.isMem = false) (hsrc : i.src.isMem = false) :
    LegacyClause px out i bs :=
  ⟨shaped_of_row hrow hkind hhandler hrip hflags.1 hadmits, Or.inl ⟨hdst, hsrc⟩, hflags.2⟩

/-- A branch without a ModRM operand. -/
theorem legacy_of_branch {f : Form} {i : Insn} {bs : List U8} (hbind : bindOk f kind handler = true)
    (hkind : i.kind = kind) (hhandler : i.handler = handler) (hrip : i.rip = out.rip)
    (hflags : (i.flags.rep = out.flags.rep ∧ i.flags.repne = out.flags.repne) ∧
      i.flags.vex = out.flags.vex)
    (hadmits : f.admits i = true) (hdst : i.dst.isMem = false) (hsrc : i.src.isMem = false)
    (hflagged : i.flags.controlFlow = true) : LegacyClause px out i bs :=
  ⟨shaped_of_bind hbind hkind hhandler hrip hflags.1 hadmits fun _ => hflagged,
    Or.inl ⟨hdst, hsrc⟩, hflags.2⟩

end Shared

theorem aluSize_mem (px : Prefixes) : px.aluSize ∈ wideSizes := by
  rw [Prefixes.aluSize]
  split_ifs <;> decide

theorem aluSize_mem_gpr (px : Prefixes) : px.aluSize ∈ gprSizes :=
  List.mem_cons_of_mem _ (aluSize_mem px)

/-- The sizes of a clause that chooses between a byte and the default. -/
theorem ite_aluSize_mem (px : Prefixes) (c : Prop) [Decidable c] :
    (if c then 1 else px.aluSize) ∈ gprSizes := by
  split
  · decide
  · exact aluSize_mem_gpr px

theorem ite_eight_mem {sizes : List Nat} (h4 : 4 ∈ sizes) (h8 : 8 ∈ sizes) (c : Prop)
    [Decidable c] : (if c then 8 else 4) ∈ sizes := by
  split
  · exact h8
  · exact h4

/-! ### 0F 38 and 0F 3A -/

section ThreeByte

variable {px : Prefixes} {out : Insn} {kind : OpKind} {handler : Handler} {sizes : List Nat}

theorem decodeCrc32_clause (op : U8) :
    Parse.Post (decodeCrc32 px op out) (LegacyClause px out) := by
  rw [decodeCrc32, readModrm_bind]
  refine Parse.post_next fun mb => ?_
  refine Parse.post_bind (decodeRmOperand_post px _ _) fun src enc hsrc => ?_
  have hrow : rowOk ⟨.reg, .rm, gprSizes⟩ .crc32 .opCrc32 = true := rfl
  refine Parse.post_ret ⟨shaped_of_row hrow rfl rfl rfl ⟨rfl, rfl⟩ ?_, ?_, rfl⟩
  · exact form_admits rfl hsrc.admits (Or.inr (ite_aluSize_mem px _))
  · exact memField_src hsrc 0 rfl rfl

theorem decodeMovbe_clause (op : U8) :
    Parse.Post (decodeMovbe px op out) (LegacyClause px out) := by
  rw [decodeMovbe]
  split
  · exact decodeRegRm_clause rfl (aluSize_mem px)
  · exact decodeRmReg_clause rfl (aluSize_mem px)

theorem decode0F38_post :
    Parse.Post (decode0F38 px out) fun i bs => ∃ op rest, bs = op :: rest ∧
      LegacyClause px out i rest := by
  refine Parse.post_next fun op => ?_
  refine Parse.Post.mono (Q := LegacyClause px out) ?_ fun i bs h => ⟨op, bs, rfl, h⟩
  refine Parse.Arms.firstOf ?_
  refine Parse.arms_cons (Parse.arm_when fun _ => decodeCrc32_clause op) ?_
  refine Parse.arms_cons (Parse.arm_when fun _ => decodeMovbe_clause op) ?_
  refine Parse.arms_cons (Parse.arm_ite (fun _ => ?_) fun _ => Parse.arm_none) ?_
  · exact arm_rows rfl fun _ _ hrow => decodeXmmRm_clause hrow
  refine Parse.arms_cons (Parse.arm_ite (fun _ => ?_) fun _ => Parse.arm_none) Parse.arms_nil
  exact arm_rows rfl fun _ _ hrow => decodeXmmRm_clause hrow

theorem decodePextr_clause {size : Nat} (hrow : rowOk ⟨.rm, .xmm, sizes⟩ kind handler = true)
    (hsize : size ∈ sizes) :
    Parse.Post (decodePextr px out size kind handler) (LegacyClause px out) := by
  rw [decodePextr, readModrm_bind]
  refine Parse.post_next fun mb => ?_
  refine Parse.post_bind (decodeRmOperand_post px _ size) fun dst enc hdst => ?_
  refine Parse.post_ret ⟨shaped_of_row hrow rfl rfl rfl ⟨rfl, rfl⟩ ?_, ?_, rfl⟩
  · exact form_admits hdst.admits rfl (Or.inr hsize)
  · exact memField_dst hdst 0 (keep (keeps_of_row hrow) ..) rfl

theorem decodePinsr_clause {size : Nat} (hrow : rowOk ⟨.xmm, .rm, sizes⟩ kind handler = true)
    (hsize : size ∈ sizes) :
    Parse.Post (decodePinsr px out size kind handler) (LegacyClause px out) := by
  rw [decodePinsr, readModrm_bind]
  refine Parse.post_next fun mb => ?_
  refine Parse.post_bind (decodeRmOperand_post px _ size) fun src enc hsrc => ?_
  refine Parse.post_ret ⟨shaped_of_row hrow rfl rfl rfl ⟨rfl, rfl⟩ ?_, ?_, rfl⟩
  · exact form_admits rfl hsrc.admits (Or.inr hsize)
  · exact memField_src hsrc 0 (keep (keeps_of_row hrow) ..) rfl

theorem decode0F3A_post :
    Parse.Post (decode0F3A px out) fun i bs => ∃ op rest, bs = op :: rest ∧
      LegacyClause px out i rest := by
  refine Parse.post_next fun op => ?_
  refine Parse.Post.mono (Q := LegacyClause px out) ?_ fun i bs h => ⟨op, bs, rfl, h⟩
  refine Parse.Arms.firstOf ?_
  refine Parse.arms_cons (Parse.arm_when fun _ => withImm8_clause (decodeXmmRm_clause rfl)) ?_
  refine Parse.arms_cons (Parse.arm_when fun _ => Parse.post_fail) ?_
  refine Parse.arms_cons (arm_rows rfl fun _ _ hrow => withImm8_clause (decodeXmmRm_clause hrow)) ?_
  have hextr {c : Bool} {size : Nat} {kind : OpKind} {handler : Handler}
      (hrow : rowOk ⟨.rm, .xmm, [size]⟩ kind handler = true) :
      Parse.Arm (Parse.when c (withImm8 (decodePextr px out size kind handler)))
        (LegacyClause px out) :=
    Parse.arm_when fun _ => withImm8_clause (decodePextr_clause hrow (List.mem_singleton_self _))
  have hinsr {c : Bool} {size : Nat} {kind : OpKind} {handler : Handler}
      (hrow : rowOk ⟨.xmm, .rm, gprSizes⟩ kind handler = true) (hsize : size ∈ gprSizes) :
      Parse.Arm (Parse.when c (withImm8 (decodePinsr px out size kind handler)))
        (LegacyClause px out) :=
    Parse.arm_when fun _ => withImm8_clause (decodePinsr_clause hrow hsize)
  refine Parse.arms_cons (hextr rfl) ?_
  refine Parse.arms_cons (hextr rfl) ?_
  refine Parse.arms_cons (hextr rfl) ?_
  refine Parse.arms_cons (hextr rfl) ?_
  refine Parse.arms_cons (hinsr rfl (by decide)) ?_
  refine Parse.arms_cons (hinsr rfl (by decide)) ?_
  exact Parse.arms_cons (hinsr rfl (by decide)) Parse.arms_nil

end ThreeByte

/-! ### 0F: SSE -/

section Sse

variable {px : Prefixes} {out : Insn} {kind : OpKind} {handler : Handler}

theorem decodeCvtsi2_clause (hrow : rowOk ⟨.xmm, .rm, [4, 8]⟩ kind handler = true) :
    Parse.Post (decodeCvtsi2 px out kind handler) (LegacyClause px out) := by
  rw [decodeCvtsi2, readModrm_bind]
  refine Parse.post_next fun mb => ?_
  refine Parse.post_bind (decodeRmOperand_post px _ _) fun src enc hsrc => ?_
  refine Parse.post_ret ⟨shaped_of_row hrow rfl rfl rfl ⟨rfl, rfl⟩ ?_, ?_, rfl⟩
  · exact form_admits rfl hsrc.admits (Or.inr (ite_eight_mem (by decide) (by decide) _))
  · exact memField_src hsrc 0 (keep (keeps_of_row hrow) ..) rfl

theorem decodeCvtt2si_clause {srcSize : Nat}
    (hrow : rowOk ⟨.reg, .xmmRm, [4, 8]⟩ kind handler = true) :
    Parse.Post (decodeCvtt2si px out srcSize kind handler) (LegacyClause px out) := by
  rw [decodeCvtt2si, readModrm_bind]
  refine Parse.post_next fun mb => ?_
  refine Parse.post_bind (decodeXmmOperand_post px _ _) fun src enc hsrc => ?_
  refine Parse.post_ret ⟨shaped_of_row hrow rfl rfl rfl ⟨rfl, rfl⟩ ?_, ?_, rfl⟩
  · exact form_admits rfl hsrc.admits (Or.inr (ite_eight_mem (by decide) (by decide) _))
  · exact memField_src hsrc 0 (keep (keeps_of_row hrow) ..) rfl

theorem sseScalar_arms (sec : U8) : Parse.Arms (sseScalar px sec out) (LegacyClause px out) := by
  unfold sseScalar
  split
  · refine Parse.arms_cons (arm_rows rfl fun _ _ hrow => decodeXmmRm_clause hrow) ?_
    refine Parse.arms_cons (Parse.arm_when fun _ => decodeXmmMr_clause rfl) ?_
    refine Parse.arms_cons (Parse.arm_when fun _ => decodeCvtsi2_clause rfl) ?_
    refine Parse.arms_cons (Parse.arm_when fun _ => decodeCvtt2si_clause rfl) ?_
    exact Parse.arms_cons
      (Parse.arm_when fun _ => withImm8_clause (decodeXmmRm_clause rfl)) Parse.arms_nil
  · refine Parse.arms_cons (arm_rows rfl fun _ _ hrow => decodeXmmRm_clause hrow) ?_
    refine Parse.arms_cons (Parse.arm_when fun _ => decodeXmmMr_clause rfl) ?_
    refine Parse.arms_cons (Parse.arm_when fun _ => decodeCvtsi2_clause rfl) ?_
    refine Parse.arms_cons (Parse.arm_when fun _ => decodeCvtt2si_clause rfl) ?_
    exact Parse.arms_cons
      (Parse.arm_when fun _ => withImm8_clause (decodeXmmRm_clause rfl)) Parse.arms_nil

theorem ssePackedDouble_arms (sec : U8) :
    Parse.Arms (ssePackedDouble px sec out) (LegacyClause px out) := by
  refine Parse.arms_cons (arm_rows rfl fun _ _ hrow => decodeXmmRm_clause hrow) ?_
  refine Parse.arms_cons (Parse.arm_when fun _ => decodeXmmMr_clause rfl) ?_
  exact Parse.arms_cons (Parse.arm_when fun _ => decodeXmmMr_clause rfl) Parse.arms_nil

theorem decodeMovmsk_clause (hrow : rowOk ⟨.reg, .xmm, []⟩ kind handler = true) :
    Parse.Post (decodeMovmsk px out kind handler) (LegacyClause px out) := by
  rw [decodeMovmsk, readModrm_bind]
  refine Parse.post_next fun mb => Parse.post_ret ?_
  exact legacy_of_none hrow rfl rfl rfl ⟨⟨rfl, rfl⟩, rfl⟩ (form_admits rfl rfl (Or.inl rfl)) rfl rfl

theorem ssePackedSingle_arms (sec : U8) :
    Parse.Arms (ssePackedSingle px sec out) (LegacyClause px out) := by
  refine Parse.arms_cons (arm_rows rfl fun _ _ hrow => decodeXmmRm_clause hrow) ?_
  refine Parse.arms_cons (Parse.arm_when fun _ => decodeXmmMr_clause rfl) ?_
  refine Parse.arms_cons (Parse.arm_when fun _ => decodeXmmMr_clause rfl) ?_
  refine Parse.arms_cons (Parse.arm_when fun _ => withImm8_clause (decodeXmmRm_clause rfl)) ?_
  exact Parse.arms_cons (Parse.arm_when fun _ => decodeMovmsk_clause rfl) Parse.arms_nil

theorem decodeMovdToXmm_clause : Parse.Post (decodeMovdToXmm px out) (LegacyClause px out) := by
  rw [decodeMovdToXmm, readModrm_bind]
  refine Parse.post_next fun mb => ?_
  refine Parse.post_bind (decodeRmOperand_post px _ _) fun src enc hsrc => ?_
  have hrow : rowOk ⟨.xmm, .rm, [4, 8]⟩ (if px.rexW then .movq else .movd) .opMovdToXmm = true := by
    split <;> rfl
  refine Parse.post_ret ⟨shaped_of_row hrow rfl rfl rfl ⟨rfl, rfl⟩ ?_, ?_, rfl⟩
  · exact form_admits rfl hsrc.admits (Or.inr (ite_eight_mem (by decide) (by decide) _))
  · exact memField_src hsrc 0 rfl rfl

theorem decodeMovdFromXmm_clause :
    Parse.Post (decodeMovdFromXmm px out) (LegacyClause px out) := by
  rw [decodeMovdFromXmm, readModrm_bind]
  refine Parse.post_next fun mb => ?_
  refine Parse.post_bind (decodeRmOperand_post px _ _) fun dst enc hdst => ?_
  have hrow : rowOk ⟨.rm, .xmm, [4, 8]⟩ (if px.rexW then .movq else .movd) .opMovdFromXmm =
      true := by
    split <;> rfl
  refine Parse.post_ret ⟨shaped_of_row hrow rfl rfl rfl ⟨rfl, rfl⟩ ?_, ?_, rfl⟩
  · exact form_admits hdst.admits rfl (Or.inr (ite_eight_mem (by decide) (by decide) _))
  · exact memField_dst hdst 0 rfl rfl

theorem sse2Integer_arms (sec : U8) :
    Parse.Arms (sse2Integer px sec out) (LegacyClause px out) := by
  refine Parse.arms_cons (arm_rows rfl fun _ _ hrow => decodeXmmRm_clause hrow) ?_
  refine Parse.arms_cons (Parse.arm_when fun _ => decodeXmmMr_clause rfl) ?_
  refine Parse.arms_cons (Parse.arm_when fun _ => decodeMovdToXmm_clause) ?_
  refine Parse.arms_cons (Parse.arm_when fun _ => decodeMovdFromXmm_clause) ?_
  refine Parse.arms_cons (Parse.arm_when fun _ => withImm8_clause (decodeXmmRm_clause rfl)) ?_
  refine Parse.arms_cons (Parse.arm_when fun _ => decodeMovmsk_clause rfl) ?_
  refine Parse.arms_cons (Parse.arm_when fun _ => decodeMovmsk_clause rfl) ?_
  exact Parse.arms_cons
    (Parse.arm_when fun _ => withImm8_clause (decodeXmmRm_clause rfl)) Parse.arms_nil

theorem decodeMovqXmm_clause : Parse.Post (decodeMovqXmm px out) (LegacyClause px out) := by
  rw [decodeMovqXmm, readModrm_bind]
  refine Parse.post_next fun mb => ?_
  refine Parse.post_bind (decodeXmmOperand_post px _ _) fun src enc hsrc => ?_
  have hrow : rowOk ⟨.xmm, .xmmRm, [8]⟩ .movq .opMovdFromXmm = true := rfl
  refine Parse.post_ret ⟨shaped_of_row hrow rfl rfl rfl ⟨rfl, rfl⟩ ?_, ?_, rfl⟩
  · exact form_admits rfl hsrc.admits (Or.inr (List.mem_singleton_self _))
  · exact memField_src hsrc 0 rfl rfl

theorem sseRep_arms (sec : U8) : Parse.Arms (sseRep px sec out) (LegacyClause px out) := by
  refine Parse.arms_cons (Parse.arm_when fun _ => decodeXmmRm_clause rfl) ?_
  refine Parse.arms_cons (Parse.arm_when fun _ => decodeXmmMr_clause rfl) ?_
  exact Parse.arms_cons (Parse.arm_when fun _ => decodeMovqXmm_clause) Parse.arms_nil

end Sse

/-! ### 0F: general-purpose -/

section TwoByte

variable {px : Prefixes} {out : Insn} {kind : OpKind} {handler : Handler}

theorem decodeGroup8_clause : Parse.Post (decodeGroup8 px out) (LegacyClause px out) := by
  rw [decodeGroup8, readModrm_bind]
  refine Parse.post_next fun mb => ?_
  refine Parse.post_bind (decodeRmOperand_post px _ _) fun dst enc hdst => ?_
  refine Parse.post_bind (Parse.post_yields _) fun imm immBytes _ => ?_
  have hclause {kind : OpKind} {handler : Handler}
      (hrow : rowOk ⟨.rm, .imm, wideSizes⟩ kind handler = true) :
      Parse.Post (pure { out with
          opSize := px.aluSize, dst, src := makeImm imm, kind, handler } : Decode Insn)
        fun i tail => LegacyClause px out i (mb :: (enc ++ (immBytes ++ tail))) := by
    refine Parse.post_ret ⟨shaped_of_row hrow rfl rfl rfl ⟨rfl, rfl⟩ ?_, ?_, rfl⟩
    · exact form_admits hdst.admits rfl (Or.inr (aluSize_mem px))
    · exact memField_dst hdst 0 (keep (keeps_of_row hrow) ..) rfl
  split
  · exact hclause rfl
  · exact hclause rfl
  · exact hclause rfl
  · exact hclause rfl
  · exact Parse.post_fail

theorem decodePrefetch_clause (hout : Blank out) :
    Parse.Post (decodePrefetch px out) (LegacyClause px out) := by
  rw [decodePrefetch, readModrm_bind]
  refine Parse.post_next fun mb => ?_
  refine Parse.post_bind (decodeRmOperand_post px _ _) fun src enc hsrc => ?_
  refine Parse.post_ret ⟨shaped_of_row
    (show rowOk ⟨.none, .rm, []⟩ _ .opPrefetch = true by split <;> rfl) rfl rfl rfl
    ⟨rfl, rfl⟩ ?_, ?_, rfl⟩
  · exact form_admits hout.dst_admits hsrc.admits (Or.inl rfl)
  · exact memField_src hsrc 0 rfl hout.dst_isMem

theorem decodeGroup15_clause (hout : Blank out) :
    Parse.Post (decodeGroup15 px out) (LegacyClause px out) := by
  rw [decodeGroup15, readModrm_bind]
  refine Parse.post_next fun mb => ?_
  have hfence {kind : OpKind} (hrow : rowOk ⟨.none, .none, []⟩ kind .opFence = true) :
      Parse.Post (pure { out with kind, handler := .opFence } : Decode Insn)
        fun i tail => LegacyClause px out i (mb :: tail) :=
    Parse.post_ret (legacy_of_none hrow rfl rfl rfl ⟨⟨rfl, rfl⟩, rfl⟩
      (form_admits hout.dst_admits hout.src_admits (Or.inl rfl)) hout.dst_isMem hout.src_isMem)
  by_cases hmod : (splitModrm mb).mod = 3
  · rw [if_pos hmod]
    split
    · exact hfence rfl
    · exact hfence rfl
    · exact hfence rfl
    · exact Parse.post_fail
  · rw [if_neg hmod]
    split
    · refine Parse.post_bind (decodeRmOperand_mem hmod _) fun src enc hsrc => ?_
      have hrow : rowOk ⟨.none, .mem, []⟩ .clflush .opClflush = true := rfl
      refine Parse.post_ret ⟨shaped_of_row hrow rfl rfl rfl ⟨rfl, rfl⟩ ?_, ?_, rfl⟩
      · exact form_admits hout.dst_admits hsrc.admits (Or.inl rfl)
      · exact memField_src hsrc 0 rfl hout.dst_isMem
    · exact Parse.post_fail

theorem decodeNopHint_clause (hout : Blank out) :
    Parse.Post (decodeNopHint px out) (LegacyClause px out) := by
  rw [decodeNopHint, readModrm_bind]
  refine Parse.post_next fun mb => ?_
  split
  · have hrow : rowOk ⟨.none, .none, []⟩ .nop .opNop = true := rfl
    exact Parse.post_ret (legacy_of_none hrow rfl rfl rfl ⟨⟨rfl, rfl⟩, rfl⟩
      (form_admits hout.dst_admits hout.src_admits (Or.inl rfl)) hout.dst_isMem hout.src_isMem)
  · refine Parse.post_bind (decodeRmOperand_post px _ _) fun src enc hsrc => ?_
    have hrow : rowOk ⟨.none, .rm, []⟩ .nop .opNop = true := rfl
    refine Parse.post_ret ⟨shaped_of_row hrow rfl rfl rfl ⟨rfl, rfl⟩ ?_, ?_, rfl⟩
    · exact form_admits hout.dst_admits hsrc.admits (Or.inl rfl)
    · exact memField_src hsrc 0 rfl hout.dst_isMem

theorem decodeRdrand_clause (hout : Blank out) :
    Parse.Post (decodeRdrand px out) (LegacyClause px out) := by
  rw [decodeRdrand, readModrm_bind]
  refine Parse.post_next fun mb => ?_
  split
  · refine Parse.post_bind (decodeRmOperand_post px _ _) fun dst enc hdst => ?_
    have hrow : rowOk ⟨.rm, .none, wideSizes⟩
        (if (splitModrm mb).reg = 6 then .rdrand else .rdseed) .opRdrand = true := by
      split <;> rfl
    refine Parse.post_ret ⟨shaped_of_row hrow rfl rfl rfl ⟨rfl, rfl⟩ ?_, ?_, rfl⟩
    · exact form_admits hdst.admits hout.src_admits (Or.inr (aluSize_mem px))
    · exact memField_dst hdst 0 rfl hout.src_isMem
  · exact Parse.post_fail

/-- `handler` is the double shift in `dst.index` form. -/
theorem decodeDoubleShift_clause (byImm : Bool)
    (hkind : kindBound kind handler = true ∧ handler.isBranch = false)
    (hhandler : handler = .opShld ∨ handler = .opShrd) :
    Parse.Post (decodeDoubleShift px out byImm kind handler) (LegacyClause px out) := by
  rw [decodeDoubleShift, readModrm_bind]
  refine Parse.post_next fun mb => ?_
  refine Parse.post_bind (decodeRmOperand_post px _ _) fun dst enc hdst => ?_
  have hforms : handler.forms = [⟨.rm, .imm, wideSizes⟩, ⟨.rm, .reg, wideSizes⟩] := by
    rcases hhandler with rfl | rfl <;> rfl
  have hreuse : { dst with index := combineReg px.rexR (splitModrm mb).reg } =
      handler.reuseFields 0 (combineReg px.rexR (splitModrm mb).reg) dst := by
    rcases hhandler with rfl | rfl <;> rfl
  have hslot : OperandSlot.rm.admits
      { dst with index := combineReg px.rexR (splitModrm mb).reg } = true := hdst.admits
  have hshaped {src : Operand} {immExtra : U64}
      (hsrc : OperandSlot.imm.admits src = true ∨ OperandSlot.reg.admits src = true) :
      Shaped out { out with
        opSize := px.aluSize, kind, handler, src, immExtra
        dst := { dst with index := combineReg px.rexR (splitModrm mb).reg } } := by
    refine ⟨rfl, ⟨rfl, rfl⟩, ?_, hkind.1, fun h => absurd h (by rw [hkind.2]; decide)⟩
    rcases hsrc with himm | hreg
    · exact ⟨_, hforms ▸ List.mem_cons_self .., form_admits hslot himm (Or.inr (aluSize_mem px))⟩
    · exact ⟨_, hforms ▸ List.mem_cons_of_mem _ (List.mem_cons_self ..),
        form_admits hslot hreg (Or.inr (aluSize_mem px))⟩
  simp only
  split
  · refine Parse.post_bind (Parse.post_yields _) fun imm immBytes _ => ?_
    exact Parse.post_ret ⟨hshaped (Or.inl rfl), memField_dst hdst 0 hreuse rfl, rfl⟩
  · exact Parse.post_ret ⟨hshaped (Or.inr rfl), memField_dst hdst 0 hreuse rfl, rfl⟩

theorem decodeExtend_clause (srcSize : Nat)
    (hkind : kindBound kind handler = true ∧ handler.isBranch = false)
    (hhandler : handler = .opMovzx ∨ handler = .opMovsx ∨ handler = .opMovsxd) :
    Parse.Post (decodeExtend px out srcSize kind handler) (LegacyClause px out) := by
  rw [decodeExtend, readModrm_bind]
  refine Parse.post_next fun mb => ?_
  refine Parse.post_bind (decodeRmOperand_post px _ _) fun src enc hsrc => ?_
  have hforms : handler.forms = [⟨.reg, .rm, wideSizes⟩] := by
    rcases hhandler with rfl | rfl | rfl <;> rfl
  have hreuse : { src with scale := srcSize } =
      handler.reuseFields srcSize (combineReg px.rexR (splitModrm mb).reg) src := by
    rcases hhandler with rfl | rfl | rfl <;> rfl
  have hslot : OperandSlot.rm.admits { src with scale := srcSize } = true := hsrc.admits
  refine Parse.post_ret ⟨⟨rfl, ⟨rfl, rfl⟩, ?_, hkind.1, fun h => absurd h (by rw [hkind.2]; decide)⟩, ?_, rfl⟩
  · exact ⟨_, hforms ▸ List.mem_cons_self .., form_admits rfl hslot (Or.inr (aluSize_mem px))⟩
  · exact memField_src hsrc srcSize hreuse rfl

theorem decodeBswap_clause (hout : Blank out) (sec : U8) :
    Parse.Post (decodeBswap px sec out) (LegacyClause px out) := by
  have hrow : rowOk ⟨.reg, .none, [4, 8]⟩ .bswap .opBswap = true := rfl
  refine Parse.post_ret (legacy_of_none hrow rfl rfl rfl ⟨⟨rfl, rfl⟩, rfl⟩ ?_ rfl hout.src_isMem)
  exact form_admits rfl hout.src_admits (Or.inr (ite_eight_mem (by decide) (by decide) _))

/-- The clause of a branch; a `Jcc` is one. -/
theorem decodeRel_clause (hout : Blank out) (size : Nat) (cond : Cc)
    (hform : ⟨.rel, .none, []⟩ ∈ handler.forms) (hkind : kindBound kind handler = true) :
    Parse.Post (decodeRel out size kind handler cond) (LegacyClause px out) := by
  refine Parse.post_bind (Parse.post_yields _) fun disp bs _ => Parse.post_ret ?_
  refine ⟨⟨rfl, ⟨rfl, rfl⟩, ?_, hkind, fun _ => rfl⟩, Or.inl ⟨rfl, hout.src_isMem⟩, rfl⟩
  exact ⟨_, hform, form_admits rfl hout.src_admits (Or.inl rfl)⟩

theorem generalTwoByte_arms (hout : Blank out) (sec : U8) :
    Parse.Arms (generalTwoByte px sec out) (LegacyClause px out) := by
  have hsize := aluSize_mem px
  have hblank {kind : OpKind} {handler : Handler} {c : Bool} {flags : InsnFlags}
      (hrow : rowOk ⟨.none, .none, []⟩ kind handler = true)
      (hflags : (flags.rep = out.flags.rep ∧ flags.repne = out.flags.repne) ∧
        flags.vex = out.flags.vex) :
      Parse.Arm (Parse.when c (pure { out with kind, handler, flags } : Decode Insn))
        (LegacyClause px out) :=
    Parse.arm_when fun _ => Parse.post_ret (legacy_of_none hrow rfl rfl rfl hflags
      (form_admits hout.dst_admits hout.src_admits (Or.inl rfl)) hout.dst_isMem hout.src_isMem)
  refine Parse.arms_cons (Parse.arm_ite (fun _ => ?_) fun _ => Parse.arm_none) ?_
  · exact arm_rows (f := ⟨.reg, .rm, wideSizes⟩) rfl fun _ _ hrow => decodeRegRm_clause hrow hsize
  refine Parse.arms_cons (Parse.arm_ite (fun _ => Parse.arm_none) fun _ => ?_) ?_
  · exact arm_rows (f := ⟨.reg, .rm, wideSizes⟩) rfl fun _ _ hrow => decodeRegRm_clause hrow hsize
  refine Parse.arms_cons ?_ ?_
  · exact arm_rows (f := ⟨.rm, .reg, wideSizes⟩) rfl fun _ _ hrow => decodeRmReg_clause hrow hsize
  refine Parse.arms_cons (Parse.arm_when fun _ => decodeGroup8_clause) ?_
  refine Parse.arms_cons (Parse.arm_when fun _ => ?_) ?_
  · refine (decodeRegRm_clause rfl hsize).mono fun i bs h => ?_
    exact ⟨⟨h.rip, h.rep, h.fits, h.kind, h.branch⟩, h.mem, h.vex⟩
  refine Parse.arms_cons
    (Parse.arm_when fun _ => decodeRel_clause hout _ _ (List.mem_cons_self ..) rfl) ?_
  refine Parse.arms_cons (hblank rfl ⟨⟨rfl, rfl⟩, rfl⟩) ?_
  refine Parse.arms_cons (Parse.arm_when fun _ => Parse.post_fail) ?_
  refine Parse.arms_cons (Parse.arm_when fun _ => decodePrefetch_clause hout) ?_
  refine Parse.arms_cons (Parse.arm_when fun _ => decodeGroup15_clause hout) ?_
  refine Parse.arms_cons (Parse.arm_when fun _ => decodeNopHint_clause hout) ?_
  refine Parse.arms_cons (hblank rfl ⟨⟨rfl, rfl⟩, rfl⟩) ?_
  refine Parse.arms_cons (hblank rfl ⟨⟨rfl, rfl⟩, rfl⟩) ?_
  refine Parse.arms_cons (Parse.arm_when fun _ => decodeBswap_clause hout sec) ?_
  refine Parse.arms_cons (Parse.arm_when fun _ => decodeRdrand_clause hout) ?_
  have hshift {c byImm : Bool} {kind : OpKind} {handler : Handler}
      (hkind : kindBound kind handler = true ∧ handler.isBranch = false)
      (hhandler : handler = .opShld ∨ handler = .opShrd) :
      Parse.Arm (Parse.when c (decodeDoubleShift px out byImm kind handler))
        (LegacyClause px out) :=
    Parse.arm_when fun _ => decodeDoubleShift_clause byImm hkind hhandler
  refine Parse.arms_cons (hshift (by decide) (Or.inl rfl)) ?_
  refine Parse.arms_cons (hshift (by decide) (Or.inl rfl)) ?_
  refine Parse.arms_cons (hshift (by decide) (Or.inr rfl)) ?_
  refine Parse.arms_cons (hshift (by decide) (Or.inr rfl)) ?_
  refine Parse.arms_cons
    (Parse.arm_when fun _ => decodeRegRm_clause rfl hsize) ?_
  have hextend {c : Bool} {srcSize : Nat} {kind : OpKind} {handler : Handler}
      (hkind : kindBound kind handler = true ∧ handler.isBranch = false)
      (hhandler : handler = .opMovzx ∨ handler = .opMovsx ∨ handler = .opMovsxd) :
      Parse.Arm (Parse.when c (decodeExtend px out srcSize kind handler)) (LegacyClause px out) :=
    Parse.arm_when fun _ => decodeExtend_clause srcSize hkind hhandler
  refine Parse.arms_cons (hextend (by decide) (Or.inl rfl)) ?_
  refine Parse.arms_cons (hextend (by decide) (Or.inl rfl)) ?_
  refine Parse.arms_cons (hextend (by decide) (Or.inr (Or.inl rfl))) ?_
  exact Parse.arms_cons (hextend (by decide) (Or.inr (Or.inl rfl))) Parse.arms_nil

/-- The opcode bytes of the legacy maps: one byte, or the escape byte and one, or the escape
byte, a map byte and one. -/
inductive OpcodeForm : List U8 → Prop where
  | one {op : U8} (h : op ≠ 0x0F) : OpcodeForm [op]
  | two {op : U8} (h : op ≠ 0x38 ∧ op ≠ 0x3A) : OpcodeForm [0x0F, op]
  | three {map op : U8} (h : map = 0x38 ∨ map = 0x3A) : OpcodeForm [0x0F, map, op]

/-- A legacy instruction: opcode bytes, then what its clause read. -/
def LegacyDecoded (px : Prefixes) (out i : Insn) (bs : List U8) : Prop :=
  ∃ opcode rest, bs = opcode ++ rest ∧ OpcodeForm opcode ∧ LegacyClause px out i rest

theorem decodeTwoByte_post (hout : Blank out) :
    Parse.Post (decodeTwoByte px out) fun i bs => LegacyDecoded px out i (0x0F :: bs) := by
  refine Parse.post_next fun sec => ?_
  have hmap (p : Decode Insn) (hsec : sec = 0x38 ∨ sec = 0x3A)
      (h : Parse.Post p fun i bs => ∃ op rest, bs = op :: rest ∧ LegacyClause px out i rest) :
      Parse.Post p fun i bs => LegacyDecoded px out i (0x0F :: sec :: bs) := by
    refine h.mono ?_
    rintro i bs ⟨op, rest, rfl, hclause⟩
    exact ⟨[0x0F, sec, op], rest, rfl, .three hsec, hclause⟩
  have hrest : sec ≠ 0x38 ∧ sec ≠ 0x3A → ∀ {ps : List (Option (Decode Insn))},
      Parse.Arms ps (LegacyClause px out) →
      Parse.Arms ps fun i bs => LegacyDecoded px out i (0x0F :: sec :: bs) := by
    intro hsec ps h q hq
    exact (h q hq).mono fun i bs hclause => ⟨[0x0F, sec], bs, rfl, .two hsec, hclause⟩
  by_cases h38 : sec = 0x38
  · subst h38
    exact hmap _ (Or.inl rfl) decode0F38_post
  by_cases h3A : sec = 0x3A
  · subst h3A
    exact hmap _ (Or.inr rfl) decode0F3A_post
  refine Parse.Arms.firstOf ?_
  simp only [List.append_assoc]
  have hskip {p : Decode Insn} {c : Bool} (hc : c = false) {Q : Insn → List U8 → Prop} :
      Parse.Arm (Parse.when c p) Q := Parse.arm_when fun h => absurd h (by rw [hc]; decide)
  refine Parse.arms_append (Parse.arms_cons (hskip (by simpa using h38))
    (Parse.arms_cons (hskip (by simpa using h3A)) Parse.arms_nil)) ?_
  refine hrest ⟨h38, h3A⟩ ?_
  have hnil : Parse.Arms ([] : List (Option (Decode Insn))) (LegacyClause px out) :=
    Parse.arms_nil
  refine Parse.arms_append (Parse.arms_ite (fun _ => sseScalar_arms sec) fun _ => hnil) ?_
  refine Parse.arms_append (Parse.arms_ite (fun _ => ssePackedDouble_arms sec) fun _ => hnil) ?_
  refine Parse.arms_append (Parse.arms_ite (fun _ => ssePackedSingle_arms sec) fun _ => hnil) ?_
  refine Parse.arms_append (Parse.arms_ite (fun _ => sse2Integer_arms sec) fun _ => hnil) ?_
  refine Parse.arms_append (Parse.arms_ite (fun _ => sseRep_arms sec) fun _ => hnil) ?_
  exact generalTwoByte_arms hout sec

end TwoByte

end PicoCpu
