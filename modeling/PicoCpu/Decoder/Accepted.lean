import PicoCpu.Decoder.Clauses
import PicoCpu.Decoder.Bound

/-!
The one-byte map, the VEX and EVEX maps, and with them every instruction `decode_one`
accepts: its operands have one of the forms of its handler.
-/

namespace PicoCpu

open Decode

/-! ### Groups of the one-byte map -/

section Groups

variable {px : Prefixes} {out : Insn}

/-- Every ALU family member binds in form `f`. -/
theorem aluFamily_row {f : Form} (hf : ∀ h ∈ ([.opAdd, .opOr, .opAdc, .opSbb, .opAnd, .opSub, .opXor,
    .opCmp] : List Handler), f ∈ h.forms) (n : Nat) :
    rowOk f (aluFamily n).1 (aluFamily n).2 = true := by
  have hmem : (aluFamily n).2 ∈ ([.opAdd, .opOr, .opAdc, .opSbb, .opAnd, .opSub, .opXor, .opCmp] :
      List Handler) ∧ kindBound (aluFamily n).1 (aluFamily n).2 = true ∧
      (aluFamily n).2.keepsFields = true ∧ (aluFamily n).2.isBranch = false := by
    unfold aluFamily
    split <;> decide
  obtain ⟨hmem, hbound, hkeeps, hplain⟩ := hmem
  have hcontains : (aluFamily n).2.forms.contains f = true := by
    rw [List.contains_iff_mem]
    exact hf _ hmem
  rw [rowOk, bindOk, hcontains, hbound, hkeeps, hplain]
  rfl

theorem decodeAluPrimary_clause (family variant : Nat) :
    Parse.Post (decodeAluPrimary px family variant out) (LegacyClause px out) := by
  have hsize := aluSize_mem_gpr px
  have hregRm := aluFamily_row (f := ⟨.reg, .rm, gprSizes⟩) (by decide) family
  have hrmReg := aluFamily_row (f := ⟨.rm, .reg, gprSizes⟩) (by decide) family
  have hrmImm := aluFamily_row (f := ⟨.rm, .imm, gprSizes⟩) (by decide) family
  rw [decodeAluPrimary]
  simp only
  split
  · exact decodeRmReg_clause hrmReg (by decide)
  · exact decodeRmReg_clause hrmReg hsize
  · exact decodeRegRm_clause hregRm (by decide)
  · exact decodeRegRm_clause hregRm hsize
  · refine Parse.post_bind (Parse.post_yields _) fun imm bs _ => Parse.post_ret ?_
    exact legacy_of_none hrmImm rfl rfl rfl ⟨⟨rfl, rfl⟩, rfl⟩
      (form_admits rfl rfl (Or.inr (by simp [gprSizes]))) rfl rfl
  · refine Parse.post_bind (Parse.post_yields _) fun imm bs _ => Parse.post_ret ?_
    exact legacy_of_none hrmImm rfl rfl rfl ⟨⟨rfl, rfl⟩, rfl⟩
      (form_admits rfl rfl (Or.inr hsize)) rfl rfl
  · exact Parse.post_fail

theorem decodeGroup1_clause (opc : U8) :
    Parse.Post (decodeGroup1 px opc out) (LegacyClause px out) := by
  rw [decodeGroup1, readModrm_bind]
  refine Parse.post_next fun mb => ?_
  refine Parse.post_bind (decodeRmOperand_post px _ _) fun dst enc hdst => ?_
  refine Parse.post_bind (Parse.post_yields _) fun imm bs _ => ?_
  have hrow := aluFamily_row (f := ⟨.rm, .imm, gprSizes⟩) (by decide) (splitModrm mb).reg
  refine Parse.post_ret ⟨shaped_of_row hrow rfl rfl rfl ⟨rfl, rfl⟩ ?_, ?_, rfl⟩
  · exact form_admits hdst.admits rfl (Or.inr (ite_aluSize_mem px _))
  · exact memField_dst hdst 0 (keep (keeps_of_row hrow) ..) rfl

theorem shiftFamily_row (n : Nat) :
    rowOk ⟨.rm, .imm, gprSizes⟩ (shiftFamily n).1 (shiftFamily n).2 = true ∧
      rowOk ⟨.rm, .reg, gprSizes⟩ (shiftFamily n).1 (shiftFamily n).2 = true := by
  unfold shiftFamily
  split <;> decide

theorem decodeGroup2_clause (opc : U8) :
    Parse.Post (decodeGroup2 px opc out) (LegacyClause px out) := by
  rw [decodeGroup2, readModrm_bind]
  refine Parse.post_next fun mb => ?_
  refine Parse.post_bind (decodeRmOperand_post px _ _) fun dst enc hdst => ?_
  obtain ⟨himm, hreg⟩ := shiftFamily_row (splitModrm mb).reg
  have hsize := ite_aluSize_mem px (opc = 0xC0 ∨ opc = 0xD0 ∨ opc = 0xD2)
  have hclause {src : Operand} {tail : List U8}
      (hsrc : src.kind = .imm ∨ src.kind = .reg) :
      LegacyClause px out { out with
        opSize := if opc = 0xC0 ∨ opc = 0xD0 ∨ opc = 0xD2 then 1 else px.aluSize, dst, src
        kind := (shiftFamily (splitModrm mb).reg).1
        handler := (shiftFamily (splitModrm mb).reg).2 } (mb :: (enc ++ tail)) := by
    have hnot : src.isMem = false := by
      rcases hsrc with h | h <;> rw [Operand.isMem, h] <;> rfl
    refine ⟨?_, memField_dst hdst 0 (keep (keeps_of_row himm) ..) hnot, rfl⟩
    rcases hsrc with h | h
    · exact shaped_of_row himm rfl rfl rfl ⟨rfl, rfl⟩
        (form_admits hdst.admits (by simp [OperandSlot.admits, h]) (Or.inr hsize))
    · exact shaped_of_row hreg rfl rfl rfl ⟨rfl, rfl⟩
        (form_admits hdst.admits (by simp [OperandSlot.admits, h]) (Or.inr hsize))
  change Parse.Post (if _ then _ else _) _
  split
  · exact Parse.post_bind (Parse.post_yields _) fun imm bs _ =>
      Parse.post_ret (hclause (Or.inl rfl))
  · split
    · exact Parse.post_ret (hclause (Or.inl rfl))
    · exact Parse.post_ret (hclause (Or.inr rfl))

theorem decodeGroup3_clause (hout : Blank out) (opc : U8) :
    Parse.Post (decodeGroup3 px opc out) (LegacyClause px out) := by
  rw [decodeGroup3, readModrm_bind]
  refine Parse.post_next fun mb => ?_
  refine Parse.post_bind (decodeRmOperand_post px _ _) fun rm enc hrm => ?_
  have hsize := ite_aluSize_mem px (opc = 0xF6)
  have hdst {kind : OpKind} {handler : Handler}
      (hrow : rowOk ⟨.rm, .none, gprSizes⟩ kind handler = true) :
      Parse.Post (pure { out with
          opSize := if opc = 0xF6 then 1 else px.aluSize, kind, handler, dst := rm } : Decode Insn)
        fun i tail => LegacyClause px out i (mb :: (enc ++ tail)) := by
    refine Parse.post_ret ⟨shaped_of_row hrow rfl rfl rfl ⟨rfl, rfl⟩ ?_, ?_, rfl⟩
    · exact form_admits hrm.admits hout.src_admits (Or.inr hsize)
    · exact memField_dst hrm 0 (keep (keeps_of_row hrow) ..) hout.src_isMem
  have hsrc {kind : OpKind} {handler : Handler}
      (hrow : rowOk ⟨.none, .rm, gprSizes⟩ kind handler = true) :
      Parse.Post (pure { out with
          opSize := if opc = 0xF6 then 1 else px.aluSize, kind, handler, src := rm } : Decode Insn)
        fun i tail => LegacyClause px out i (mb :: (enc ++ tail)) := by
    refine Parse.post_ret ⟨shaped_of_row hrow rfl rfl rfl ⟨rfl, rfl⟩ ?_, ?_, rfl⟩
    · exact form_admits hout.dst_admits hrm.admits (Or.inr hsize)
    · exact memField_src hrm 0 (keep (keeps_of_row hrow) ..) hout.dst_isMem
  simp only
  split
  · exact hdst rfl
  · exact hdst rfl
  · exact hsrc rfl
  · exact hsrc rfl
  · exact hsrc rfl
  · exact hsrc rfl
  · refine Parse.post_bind (Parse.post_yields _) fun imm bs _ => ?_
    have hrow : rowOk ⟨.rm, .imm, gprSizes⟩ .test .opTest = true := rfl
    refine Parse.post_ret ⟨shaped_of_row hrow rfl rfl rfl ⟨rfl, rfl⟩ ?_, ?_, rfl⟩
    · exact form_admits hrm.admits rfl (Or.inr hsize)
    · exact memField_dst hrm 0 rfl rfl

theorem decodeGroup45_clause (hout : Blank out) (opc : U8) :
    Parse.Post (decodeGroup45 px opc out) (LegacyClause px out) := by
  rw [decodeGroup45, readModrm_bind]
  refine Parse.post_next fun mb => ?_
  refine Parse.post_bind (decodeRmOperand_post px _ _) fun rm enc hrm => ?_
  have hclause {f : Form} {kind : OpKind} {handler : Handler} {opSize : Nat} {flags : InsnFlags}
      (hbind : bindOk f kind handler = true) (hform : f.dst = .rm ∧ f.src = .none)
      (hsize : f.sizes = [] ∨ opSize ∈ f.sizes)
      (hflags : (flags.rep = out.flags.rep ∧ flags.repne = out.flags.repne) ∧
        flags.vex = out.flags.vex)
      (hbranch : handler.isBranch = true → flags.controlFlow = true) :
      Parse.Post (pure { out with opSize, kind, handler, dst := rm, flags } : Decode Insn)
        fun i tail => LegacyClause px out i (mb :: (enc ++ tail)) := by
    refine Parse.post_ret ⟨shaped_of_bind hbind rfl rfl rfl hflags.1 ?_ hbranch, ?_, hflags.2⟩
    · exact form_admits (hform.1 ▸ hrm.admits) (hform.2 ▸ hout.src_admits) hsize
    · exact memField_dst hrm 0 (keep (keeps_of_bind hbind) ..) hout.src_isMem
  have hsize := ite_aluSize_mem px (opc = 0xFE)
  have hwide {kind : OpKind} {handler : Handler} {flags : InsnFlags}
      (hbind : bindOk ⟨.rm, .none, [8]⟩ kind handler = true)
      (hflags : (flags.rep = out.flags.rep ∧ flags.repne = out.flags.repne) ∧
        flags.vex = out.flags.vex)
      (hbranch : handler.isBranch = true → flags.controlFlow = true) :
      Parse.Post (if opc = 0xFF then
          pure { out with opSize := 8, kind, handler, dst := rm, flags }
        else .fail .unsupportedOpcode : Decode Insn)
        fun i tail => LegacyClause px out i (mb :: (enc ++ tail)) := by
    split
    · exact hclause hbind ⟨rfl, rfl⟩ (Or.inr (List.mem_singleton_self _)) hflags hbranch
    · exact Parse.post_fail
  have hkept : (out.flags.rep = out.flags.rep ∧ out.flags.repne = out.flags.repne) ∧
      out.flags.vex = out.flags.vex := ⟨⟨rfl, rfl⟩, rfl⟩
  simp only
  split
  · exact hclause (f := ⟨.rm, .none, gprSizes⟩) rfl ⟨rfl, rfl⟩ (Or.inr hsize) hkept
      fun h => absurd h (by decide)
  · exact hclause (f := ⟨.rm, .none, gprSizes⟩) rfl ⟨rfl, rfl⟩ (Or.inr hsize) hkept
      fun h => absurd h (by decide)
  · exact hwide rfl ⟨⟨rfl, rfl⟩, rfl⟩ fun _ => rfl
  · exact hwide rfl ⟨⟨rfl, rfl⟩, rfl⟩ fun _ => rfl
  · exact hwide rfl hkept fun h => absurd h (by decide)
  · exact Parse.post_fail

/-! ### x87 -/

theorem x87RegTable_row {opc : U8} {m : ModRm} {mb : U8} {kind : OpKind} {handler : Handler}
    (h : x87RegTable opc m mb = some (kind, handler)) :
    rowOk ⟨.none, .none, []⟩ kind handler = true := by
  unfold x87RegTable at h
  repeat' split at h
  all_goals first
    | (obtain ⟨rfl, rfl⟩ := Prod.mk.inj (Option.some.inj h); rfl)
    | exact nomatch h

theorem x87MemTable_row {opc : U8} {reg size : Nat} {kind : OpKind} {handler : Handler}
    (h : x87MemTable opc reg = some (size, kind, handler)) :
    (kind = .fnstcw ∧ handler = .opFnstcw) ∨
      (kind ≠ .fnstcw ∧ rowOk ⟨.none, .mem, []⟩ kind handler = true) := by
  unfold x87MemTable at h
  repeat' split at h
  all_goals first
    | (obtain ⟨rfl, hrow⟩ := Prod.mk.inj (Option.some.inj h)
       obtain ⟨rfl, rfl⟩ := Prod.mk.inj hrow
       decide)
    | exact nomatch h

theorem decodeX87_clause (hout : Blank out) (opc : U8) :
    Parse.Post (decodeX87 px opc out) (LegacyClause px out) := by
  refine Parse.post_next fun mb => ?_
  change Parse.Post (if (splitModrm mb).mod = 3 then _ else _) _
  by_cases hmod : (splitModrm mb).mod = 3
  · rw [if_pos hmod]
    have hdst : OperandSlot.none.admits { out.dst with index := (splitModrm mb).rm } = true :=
      hout.dst_admits
    simp only
    split
    · rename_i kind handler htable
      exact Parse.post_ret (legacy_of_none (x87RegTable_row htable) rfl rfl rfl ⟨⟨rfl, rfl⟩, rfl⟩
        (form_admits hdst hout.src_admits (Or.inl rfl)) hout.dst_isMem hout.src_isMem)
    · split
      · have hrow : rowOk ⟨.reg, .none, []⟩ .fnstsw .opFnstsw = true := rfl
        exact Parse.post_ret (legacy_of_none hrow rfl rfl rfl ⟨⟨rfl, rfl⟩, rfl⟩
          (form_admits rfl hout.src_admits (Or.inl rfl)) rfl hout.src_isMem)
      · exact Parse.post_fail
  · rw [if_neg hmod]
    refine Parse.post_bind (decodeRmOperand_mem hmod _) fun op enc hop => ?_
    split
    · rename_i size handler htable
      have hhandler : handler = .opFnstcw := by
        rcases x87MemTable_row htable with ⟨_, h⟩ | ⟨h, _⟩
        · exact h
        · exact absurd rfl h
      subst hhandler
      have hrow : rowOk ⟨.mem, .none, []⟩ .fnstcw .opFnstcw = true := rfl
      refine Parse.post_ret ⟨shaped_of_row hrow rfl rfl rfl ⟨rfl, rfl⟩ ?_, ?_, rfl⟩
      · exact form_admits hop.admits rfl (Or.inl rfl)
      · exact memField_dst hop 0 rfl rfl
    · rename_i size kind handler hkind htable
      rcases x87MemTable_row htable with ⟨h, _⟩ | ⟨_, hrow⟩
      · exact absurd h hkind
      · refine Parse.post_ret ⟨shaped_of_row hrow rfl rfl rfl ⟨rfl, rfl⟩ ?_, ?_, rfl⟩
        · exact form_admits hout.dst_admits hop.admits (Or.inl rfl)
        · exact memField_src hop 0 (keep (keeps_of_row hrow) ..) hout.dst_isMem
    · exact Parse.post_fail

end Groups

/-! ### The one-byte map -/

section Primary

variable {px : Prefixes} {out : Insn}

theorem decodePushImm_clause (hout : Blank out) (size : Nat) :
    Parse.Post (decodePushImm out size) (LegacyClause px out) := by
  refine Parse.post_bind (Parse.post_yields _) fun imm bs _ => Parse.post_ret ?_
  have hrow : rowOk ⟨.imm, .none, [8]⟩ .push .opPush = true := rfl
  exact legacy_of_none hrow rfl rfl rfl ⟨⟨rfl, rfl⟩, rfl⟩
    (form_admits rfl hout.src_admits (Or.inr (List.mem_singleton_self _))) rfl hout.src_isMem

theorem decodeImul3_clause (opc : U8) :
    Parse.Post (decodeImul3 px opc out) (LegacyClause px out) := by
  rw [decodeImul3, readModrm_bind]
  refine Parse.post_next fun mb => ?_
  refine Parse.post_bind (decodeRmOperand_post px _ _) fun src enc hsrc => ?_
  refine Parse.post_bind (Parse.post_yields _) fun imm bs _ => ?_
  have hrow : rowOk ⟨.reg, .rm, wideSizes⟩ .imul3 .opImul = true := rfl
  refine Parse.post_ret ⟨shaped_of_row hrow rfl rfl rfl ⟨rfl, rfl⟩ ?_, ?_, rfl⟩
  · exact form_admits rfl hsrc.admits (Or.inr (aluSize_mem px))
  · exact memField_src hsrc 0 rfl rfl

theorem decodeLea_clause : Parse.Post (decodeLea px out) (LegacyClause px out) := by
  rw [decodeLea, readModrm_bind]
  refine Parse.post_next fun mb => ?_
  split
  · exact Parse.post_fail
  · refine Parse.post_bind (decodeRmOperand_mem ‹_› _) fun src enc hsrc => ?_
    have hrow : rowOk ⟨.named, .mem, wideSizes⟩ .lea .opLea = true := rfl
    refine Parse.post_ret ⟨shaped_of_row hrow rfl rfl rfl ⟨rfl, rfl⟩ ?_, ?_, rfl⟩
    · exact form_admits (regOperand_named px mb _) hsrc.admits (Or.inr (aluSize_mem px))
    · exact memField_src hsrc 0 rfl rfl

theorem decodeMovImm_clause (opc : U8) {size : Nat} (hsize : size ∈ gprSizes) :
    Parse.Post (decodeMovImm px opc size out) (LegacyClause px out) := by
  refine Parse.post_bind (Parse.post_yields _) fun imm bs _ => Parse.post_ret ?_
  have hrow : rowOk ⟨.rm, .imm, gprSizes⟩ .mov .opMov = true := rfl
  exact legacy_of_none hrow rfl rfl rfl ⟨⟨rfl, rfl⟩, rfl⟩ (form_admits rfl rfl (Or.inr hsize)) rfl rfl

theorem decodeMovRmImm_clause (opc : U8) :
    Parse.Post (decodeMovRmImm px opc out) (LegacyClause px out) := by
  rw [decodeMovRmImm, readModrm_bind]
  refine Parse.post_next fun mb => ?_
  split
  · exact Parse.post_fail
  · refine Parse.post_bind (decodeRmOperand_post px _ _) fun dst enc hdst => ?_
    refine Parse.post_bind (Parse.post_yields _) fun imm bs _ => ?_
    have hrow : rowOk ⟨.rm, .imm, gprSizes⟩ .mov .opMov = true := rfl
    refine Parse.post_ret ⟨shaped_of_row hrow rfl rfl rfl ⟨rfl, rfl⟩ ?_, ?_, rfl⟩
    · exact form_admits hdst.admits rfl (Or.inr (ite_aluSize_mem px _))
    · exact memField_dst hdst 0 rfl rfl

theorem decodeTestImm_clause (opc : U8) :
    Parse.Post (decodeTestImm px opc out) (LegacyClause px out) := by
  refine Parse.post_bind (Parse.post_yields _) fun imm bs _ => Parse.post_ret ?_
  have hrow : rowOk ⟨.rm, .imm, gprSizes⟩ .test .opTest = true := rfl
  exact legacy_of_none hrow rfl rfl rfl ⟨⟨rfl, rfl⟩, rfl⟩
    (form_admits rfl rfl (Or.inr (ite_aluSize_mem px _))) rfl rfl

theorem decodeRetImm_clause (hout : Blank out) :
    Parse.Post (decodeRetImm out) (LegacyClause px out) := by
  refine Parse.post_bind (Parse.post_yields _) fun imm bs _ => Parse.post_ret ?_
  have hbind : bindOk ⟨.imm, .none, []⟩ .ret .opRet = true := rfl
  exact legacy_of_branch hbind rfl rfl rfl ⟨⟨rfl, rfl⟩, rfl⟩
    (form_admits rfl hout.src_admits (Or.inl rfl)) rfl hout.src_isMem rfl

theorem decodeIntN_clause (hout : Blank out) :
    Parse.Post (decodeIntN out) (LegacyClause px out) := by
  refine Parse.post_bind (Parse.post_yields _) fun imm bs _ => Parse.post_ret ?_
  have hrow : rowOk ⟨.imm, .none, []⟩ .intN .opIntN = true := rfl
  exact legacy_of_none hrow rfl rfl rfl ⟨⟨rfl, rfl⟩, rfl⟩
    (form_admits rfl hout.src_admits (Or.inl rfl)) rfl hout.src_isMem

theorem onePrimary_arms (hout : Blank out) (opc : U8) :
    Parse.Arms (onePrimary px opc out) fun i bs => LegacyDecoded px out i (opc :: bs) := by
  have hbare {kind : OpKind} {handler : Handler} {opSize : Nat} {flags : InsnFlags}
      (hrow : rowOk ⟨.none, .none, []⟩ kind handler = true)
      (hflags : (flags.rep = out.flags.rep ∧ flags.repne = out.flags.repne) ∧
        flags.vex = out.flags.vex) :
      LegacyClause px out { out with opSize, kind, handler, flags } [] :=
    legacy_of_none hrow rfl rfl rfl hflags
      (form_admits hout.dst_admits hout.src_admits (Or.inl rfl)) hout.dst_isMem hout.src_isMem
  have hsized {kind : OpKind} {handler : Handler} {opSize : Nat} {sizes : List Nat}
      (hrow : rowOk ⟨.none, .none, sizes⟩ kind handler = true) (hsize : opSize ∈ sizes) :
      LegacyClause px out { out with opSize, kind, handler } [] :=
    legacy_of_none hrow rfl rfl rfl ⟨⟨rfl, rfl⟩, rfl⟩
      (form_admits hout.dst_admits hout.src_admits (Or.inr hsize)) hout.dst_isMem hout.src_isMem
  have hreg {kind : OpKind} {handler : Handler} {r : Nat}
      (hrow : rowOk ⟨.reg, .none, [8]⟩ kind handler = true) :
      LegacyClause px out { out with opSize := 8, kind, handler, dst := makeReg r } [] :=
    legacy_of_none hrow rfl rfl rfl ⟨⟨rfl, rfl⟩, rfl⟩
      (form_admits rfl hout.src_admits (Or.inr (List.mem_singleton_self _))) rfl hout.src_isMem
  have hret : LegacyClause px out { out with
      opSize := 8, kind := .ret, handler := .opRet
      flags := { out.flags with controlFlow := true } } [] := by
    have hbind : bindOk ⟨.none, .none, []⟩ .ret .opRet = true := rfl
    exact legacy_of_branch hbind rfl rfl rfl ⟨⟨rfl, rfl⟩, rfl⟩
      (form_admits hout.dst_admits hout.src_admits (Or.inl rfl)) hout.dst_isMem hout.src_isMem rfl
  have hbit : sizeByBit px opc ∈ gprSizes := by
    rw [sizeByBit]
    split
    · exact aluSize_mem_gpr px
    · decide
  by_cases hescape : opc = 0x0F
  · subst hescape
    have hskip {c : Bool} {p : Decode Insn} {Q : Insn → List U8 → Prop} (hc : c = false) :
        Parse.Arm (Parse.when c p) Q := Parse.arm_when fun h => absurd h (by rw [hc]; decide)
    have hstring : stringTable.lookup (0x0F : U8).toNat = none := rfl
    iterate 28 refine Parse.arms_cons (hskip rfl) ?_
    refine Parse.arms_cons (fun q hq => ?_) ?_
    · rw [tableRow, hstring] at hq
      cases hq
    iterate 16 refine Parse.arms_cons (hskip rfl) ?_
    exact Parse.arms_cons (Parse.arm_when fun _ => decodeTwoByte_post hout) Parse.arms_nil
  have hone : ∀ {ps : List (Option (Decode Insn))}, Parse.Arms ps (LegacyClause px out) →
      Parse.Arms ps fun i bs => LegacyDecoded px out i (opc :: bs) := by
    intro ps h q hq
    exact (h q hq).mono fun i bs hclause => ⟨[opc], bs, rfl, .one hescape, hclause⟩
  refine hone ?_
  have hsize := aluSize_mem_gpr px
  have hbyte : 1 ∈ gprSizes := by decide
  refine Parse.arms_cons (Parse.arm_when fun _ => decodeAluPrimary_clause _ _) ?_
  refine Parse.arms_cons (Parse.arm_when fun _ => Parse.post_ret (hreg rfl)) ?_
  refine Parse.arms_cons (Parse.arm_when fun _ => Parse.post_ret (hreg rfl)) ?_
  refine Parse.arms_cons (Parse.arm_when fun _ => decodePushImm_clause hout 4) ?_
  refine Parse.arms_cons (Parse.arm_when fun _ => decodePushImm_clause hout 1) ?_
  refine Parse.arms_cons (Parse.arm_when fun _ =>
    decodeExtend_clause 4 (by decide) (Or.inr (Or.inr rfl))) ?_
  refine Parse.arms_cons (Parse.arm_when fun _ => decodeImul3_clause opc) ?_
  refine Parse.arms_cons (Parse.arm_when fun _ =>
    decodeRel_clause hout _ _ (List.mem_cons_self ..) rfl) ?_
  refine Parse.arms_cons (Parse.arm_when fun _ => decodeGroup1_clause opc) ?_
  refine Parse.arms_cons (Parse.arm_when fun _ => decodeRmReg_clause rfl hbyte) ?_
  refine Parse.arms_cons (Parse.arm_when fun _ => decodeRmReg_clause rfl hsize) ?_
  refine Parse.arms_cons (Parse.arm_when fun _ => decodeRmReg_clause rfl hbyte) ?_
  refine Parse.arms_cons (Parse.arm_when fun _ => decodeRmReg_clause rfl hsize) ?_
  refine Parse.arms_cons (Parse.arm_when fun _ => decodeRmReg_clause rfl hbit) ?_
  refine Parse.arms_cons (Parse.arm_when fun _ => decodeRegRm_clause rfl hbit) ?_
  refine Parse.arms_cons (Parse.arm_when fun _ => decodeLea_clause) ?_
  refine Parse.arms_cons (Parse.arm_when fun _ => Parse.post_ret (hbare rfl ⟨⟨rfl, rfl⟩, rfl⟩)) ?_
  refine Parse.arms_cons (Parse.arm_when fun _ => decodeMovImm_clause opc hbyte) ?_
  refine Parse.arms_cons (Parse.arm_when fun _ => decodeMovImm_clause opc hsize) ?_
  refine Parse.arms_cons (Parse.arm_when fun _ => decodeGroup2_clause opc) ?_
  refine Parse.arms_cons (Parse.arm_when fun _ => decodeRetImm_clause hout) ?_
  refine Parse.arms_cons (Parse.arm_when fun _ => Parse.post_ret hret) ?_
  refine Parse.arms_cons (Parse.arm_when fun _ => decodeMovRmImm_clause opc) ?_
  refine Parse.arms_cons (Parse.arm_when fun _ => decodeGroup2_clause opc) ?_
  refine Parse.arms_cons (Parse.arm_when fun _ => decodeX87_clause hout opc) ?_
  refine Parse.arms_cons (Parse.arm_when fun _ =>
    Parse.post_ret (hsized rfl (aluSize_mem px))) ?_
  refine Parse.arms_cons (Parse.arm_when fun _ =>
    Parse.post_ret (hsized rfl (aluSize_mem px))) ?_
  refine Parse.arms_cons (Parse.arm_when fun _ => decodeTestImm_clause opc) ?_
  refine Parse.arms_cons (arm_rows (f := ⟨.none, .none, gprSizes⟩) rfl fun _ _ hrow =>
    Parse.post_ret (hsized hrow hbit)) ?_
  iterate 4
    refine Parse.arms_cons (Parse.arm_when fun _ =>
      decodeRel_clause hout _ _ (List.mem_cons_self ..) rfl) ?_
  iterate 6
    refine Parse.arms_cons (Parse.arm_when fun _ => Parse.post_ret (hbare rfl ⟨⟨rfl, rfl⟩, rfl⟩)) ?_
  refine Parse.arms_cons (Parse.arm_when fun _ => decodeIntN_clause hout) ?_
  iterate 3
    refine Parse.arms_cons (Parse.arm_when fun _ =>
      decodeRel_clause hout _ _ (List.mem_cons_self ..) rfl) ?_
  refine Parse.arms_cons (Parse.arm_when fun _ => decodeGroup3_clause hout opc) ?_
  refine Parse.arms_cons (Parse.arm_when fun _ => decodeGroup45_clause hout opc) ?_
  refine Parse.arms_cons (Parse.arm_when fun h => absurd h ?_) Parse.arms_nil
  simpa [← BitVec.toNat_inj] using hescape

theorem decodePrimary_post (hout : Blank out) :
    Parse.Post (decodePrimary px out) (LegacyDecoded px out) :=
  Parse.post_next fun opc => (onePrimary_arms hout opc).firstOf

end Primary

/-! ### VEX and EVEX -/

section Vex

variable {px : Prefixes} {out : Insn} {kind : OpKind} {handler : Handler}

/-- A clause of the VEX maps. -/
abbrev VexPost (out : Insn) (p : Decode Insn) : Prop := Parse.Post p fun i _ => Shaped out i

/-- The clauses past the maps' own opcode byte, which may be any alternative of a list. -/
abbrev VexArms (out : Insn) (ps : List (Option (Decode Insn))) : Prop :=
  Parse.Arms ps fun i _ => Shaped out i

theorem decodeVexOpRmv_clause (hrow : rowOk ⟨.xmm, .xmmRm, []⟩ kind handler = true) :
    VexPost out (decodeVexOpRmv px out kind handler) := by
  rw [VexPost, decodeVexOpRmv, readModrm_bind]
  refine Parse.post_next fun mb => ?_
  refine Parse.post_bind (decodeXmmOperand_post px _ _) fun src enc hsrc => Parse.post_ret ?_
  exact shaped_of_row hrow rfl rfl rfl ⟨rfl, rfl⟩ (form_admits rfl hsrc.admits (Or.inl rfl))

theorem decodeVexOpRm_clause {regToRm : Bool}
    (hload : rowOk ⟨.xmm, .xmmRm, []⟩ kind handler = true)
    (hstore : rowOk ⟨.xmmRm, .xmm, []⟩ kind handler = true) :
    VexPost out (decodeVexOpRm px out kind handler regToRm) := by
  rw [VexPost, decodeVexOpRm, readModrm_bind]
  refine Parse.post_next fun mb => ?_
  refine Parse.post_bind (decodeXmmOperand_post px _ _) fun rm enc hrm => Parse.post_ret ?_
  cases regToRm with
  | true =>
      exact shaped_of_row hstore rfl rfl rfl ⟨rfl, rfl⟩ (form_admits hrm.admits rfl (Or.inl rfl))
  | false =>
      exact shaped_of_row hload rfl rfl rfl ⟨rfl, rfl⟩ (form_admits rfl hrm.admits (Or.inl rfl))

theorem decodeVexGprRmv_clause (hrow : rowOk ⟨.reg, .rm, [4, 8]⟩ kind handler = true) :
    VexPost out (decodeVexGprRmv px out kind handler) := by
  rw [VexPost, decodeVexGprRmv, readModrm_bind]
  refine Parse.post_next fun mb => ?_
  refine Parse.post_bind (decodeRmOperand_post px _ _) fun src enc hsrc => Parse.post_ret ?_
  exact shaped_of_row hrow rfl rfl rfl ⟨rfl, rfl⟩
    (form_admits rfl hsrc.admits (Or.inr (ite_eight_mem (by decide) (by decide) _)))

theorem decodeVgather_clause {dataLane indexLane : Nat}
    (hrow : rowOk ⟨.xmm, .mem, []⟩ kind handler = true) :
    VexPost out (decodeVgather px out kind handler dataLane indexLane) := by
  rw [VexPost, decodeVgather, readModrm_bind]
  refine Parse.post_next fun mb => ?_
  split
  · exact Parse.post_fail
  · refine Parse.post_bind (decodeRmOperand_mem ‹_› _) fun src enc hsrc => Parse.post_ret ?_
    have hslot : OperandSlot.mem.admits { src with pad0 := 1 } = true := hsrc.admits
    exact shaped_of_row hrow rfl rfl rfl ⟨rfl, rfl⟩ (form_admits rfl hslot (Or.inl rfl))

/-- Every row of a gather or scatter table binds in form `f`. -/
theorem arm_lanes {f : Form} {table : LaneTable} {op : U8} {w : Bool}
    {p : OpKind → Handler → Nat → Nat → Decode Insn} {Q : Insn → List U8 → Prop}
    (htable : table.all (fun r => rowOk f r.2.1.1 r.2.1.2.1 && rowOk f r.2.2.1 r.2.2.2.1) = true)
    (hp : ∀ kind handler dataLane indexLane, rowOk f kind handler = true →
      Parse.Post (p kind handler dataLane indexLane) Q) :
    Parse.Arm (laneRow table op w p) Q := by
  intro q hq
  rw [laneRow] at hq
  cases hrow : table.lookup op.toNat with
  | none => rw [hrow] at hq; cases hq
  | some row =>
      obtain ⟨before, after, rfl, _⟩ := List.lookup_eq_some_iff.mp hrow
      have hmem : (op.toNat, row) ∈ before ++ (op.toNat, row) :: after :=
        List.mem_append_right _ (List.mem_cons_self ..)
      have hok := List.all_eq_true.mp htable _ hmem
      rw [Bool.and_eq_true] at hok
      rw [hrow] at hq
      cases w
      · cases hq
        exact hp _ _ _ _ hok.1
      · cases hq
        exact hp _ _ _ _ hok.2

theorem decodeVexMap2Sse66_clause (op : U8) : VexPost out (decodeVexMap2Sse66 px op out) := by
  refine Parse.Arms.firstOf ?_
  refine Parse.arms_cons (arm_rows rfl fun _ _ hrow => decodeVexOpRmv_clause hrow) ?_
  exact Parse.arms_cons (arm_lanes rfl fun _ _ _ _ hrow => decodeVgather_clause hrow)
    Parse.arms_nil

theorem decodeBls_clause : VexPost out (decodeBls px out) := by
  rw [VexPost, decodeBls, readModrm_bind]
  refine Parse.post_next fun mb => ?_
  refine Parse.post_bind (decodeRmOperand_post px _ _) fun src enc hsrc => ?_
  have hclause {kind : OpKind} {handler : Handler}
      (hrow : rowOk ⟨.reg, .rm, [4, 8]⟩ kind handler = true) :
      VexPost out (pure { markVex out with
        opSize := if px.vexW then 8 else 4, kind, handler, dst := makeReg px.vexVvvv, src }) :=
    Parse.post_ret (shaped_of_row hrow rfl rfl rfl ⟨rfl, rfl⟩
      (form_admits rfl hsrc.admits (Or.inr (ite_eight_mem (by decide) (by decide) _))))
  simp only
  split
  · exact hclause rfl
  · exact hclause rfl
  · exact hclause rfl
  · exact Parse.post_fail

theorem decodeVexMap2Bmi_clause : VexPost out (decodeVexMap2Bmi px out) := by
  refine Parse.post_next fun op => ?_
  refine Parse.Arms.firstOf ?_
  refine Parse.arms_cons (Parse.arm_when fun _ => decodeVexMap2Sse66_clause op) ?_
  iterate 9
    refine Parse.arms_cons (Parse.arm_when fun _ => decodeVexGprRmv_clause rfl) ?_
  exact Parse.arms_cons (Parse.arm_when fun _ => decodeBls_clause) Parse.arms_nil

theorem decodeRorx_clause : VexPost out (decodeRorx px out) := by
  rw [VexPost, decodeRorx, readModrm_bind]
  refine Parse.post_next fun mb => ?_
  refine Parse.post_bind (decodeRmOperand_post px _ _) fun src enc hsrc => ?_
  refine Parse.post_bind (Parse.post_yields _) fun imm bs _ => Parse.post_ret ?_
  have hrow : rowOk ⟨.reg, .rm, [4, 8]⟩ .rorx .opRorx = true := rfl
  exact shaped_of_row hrow rfl rfl rfl ⟨rfl, rfl⟩
    (form_admits rfl hsrc.admits (Or.inr (ite_eight_mem (by decide) (by decide) _)))

theorem decodeVexMap3Rorx_clause : VexPost out (decodeVexMap3Rorx px out) := by
  refine Parse.post_next fun op => ?_
  refine Parse.Arms.firstOf ?_
  refine Parse.arms_cons (Parse.arm_when fun _ => ?_) ?_
  · refine Parse.post_bind (decodeVexOpRmv_clause rfl) fun i bs hi => ?_
    refine Parse.post_bind (Parse.post_yields _) fun imm bs' _ => Parse.post_ret ?_
    obtain ⟨hrip, hrep, ⟨f, hf, hadmits⟩, hkind, hbranch⟩ := hi
    exact ⟨hrip, hrep, ⟨f, hf, hadmits⟩, hkind, hbranch⟩
  · exact Parse.arms_cons (Parse.arm_when fun _ => decodeRorx_clause) Parse.arms_nil

theorem decodeEvexOpRmv_clause (hrow : rowOk ⟨.xmm, .xmmRm, []⟩ kind handler = true) :
    VexPost out (decodeEvexOpRmv px out kind handler) := by
  rw [VexPost, decodeEvexOpRmv, readModrm_bind]
  refine Parse.post_next fun mb => ?_
  refine Parse.post_bind (decodeXmmOperand_post px _ _) fun src enc hsrc => Parse.post_ret ?_
  exact shaped_of_row hrow rfl rfl rfl ⟨rfl, rfl⟩ (form_admits rfl hsrc.admits (Or.inl rfl))

theorem decodeEvexOpRm_clause {regToRm : Bool}
    (hload : rowOk ⟨.xmm, .xmmRm, []⟩ kind handler = true)
    (hstore : regToRm = true → rowOk ⟨.xmmRm, .xmm, []⟩ kind handler = true) :
    VexPost out (decodeEvexOpRm px out kind handler regToRm) := by
  rw [VexPost, decodeEvexOpRm, readModrm_bind]
  refine Parse.post_next fun mb => ?_
  refine Parse.post_bind (decodeXmmOperand_post px _ _) fun rm enc hrm => Parse.post_ret ?_
  cases regToRm with
  | true =>
      exact shaped_of_row (hstore rfl) rfl rfl rfl ⟨rfl, rfl⟩
        (form_admits hrm.admits rfl (Or.inl rfl))
  | false =>
      exact shaped_of_row hload rfl rfl rfl ⟨rfl, rfl⟩ (form_admits rfl hrm.admits (Or.inl rfl))

theorem decodeEvexScatter_clause {dataLane indexLane : Nat}
    (hrow : rowOk ⟨.xmm, .mem, []⟩ kind handler = true) :
    VexPost out (decodeEvexScatter px out kind handler dataLane indexLane) := by
  rw [VexPost, decodeEvexScatter, readModrm_bind]
  refine Parse.post_next fun mb => ?_
  split
  · exact Parse.post_fail
  · refine Parse.post_bind (decodeRmOperand_mem ‹_› _) fun src enc hsrc => Parse.post_ret ?_
    have hslot : OperandSlot.mem.admits { src with pad0 := 1 } = true := hsrc.admits
    exact shaped_of_row hrow rfl rfl rfl ⟨rfl, rfl⟩ (form_admits rfl hslot (Or.inl rfl))

theorem decodeEvexMap2_clause : VexPost out (decodeEvexMap2 px out) := by
  refine Parse.post_next fun op => ?_
  refine Parse.Arms.firstOf ?_
  refine Parse.arms_cons (Parse.arm_ite (fun _ => ?_) fun _ => Parse.arm_none) Parse.arms_nil
  exact arm_lanes rfl fun _ _ _ _ hrow => decodeEvexScatter_clause hrow

theorem evexMove_arms {op : U8} {row0 row1 : OpKind × Handler}
    (hload : rowOk ⟨.xmm, .xmmRm, []⟩ row0.1 row0.2 = true ∧
      rowOk ⟨.xmm, .xmmRm, []⟩ row1.1 row1.2 = true)
    (hstore : rowOk ⟨.xmmRm, .xmm, []⟩ row0.1 row0.2 = true ∧
      rowOk ⟨.xmmRm, .xmm, []⟩ row1.1 row1.2 = true) :
    VexArms out (evexMove px op out row0 row1) := by
  have hpick (f : Form)
      (h : rowOk f row0.1 row0.2 = true ∧ rowOk f row1.1 row1.2 = true) :
      rowOk f (if px.vexW then row1 else row0).1 (if px.vexW then row1 else row0).2 = true := by
    split
    · exact h.2
    · exact h.1
  refine Parse.arms_cons (Parse.arm_when fun _ =>
    decodeEvexOpRm_clause (hpick _ hload) fun _ => hpick _ hstore) ?_
  exact Parse.arms_cons (Parse.arm_when fun _ =>
    decodeEvexOpRm_clause (hpick _ hload) fun _ => hpick _ hstore) Parse.arms_nil

theorem evexWTable_rows (w : Bool) :
    (evexWTable w).all (fun r => rowOk ⟨.xmm, .xmmRm, []⟩ r.2.1 r.2.2) = true := by
  cases w <;> rfl

theorem decodeEvex_clause : VexPost out (decodeEvex px out) := by
  rw [VexPost, decodeEvex]
  split
  · exact decodeEvexMap2_clause
  split
  · exact Parse.post_fail
  refine Parse.post_next fun op => ?_
  have hnil : VexArms out [] := Parse.arms_nil
  have hstore {c : Prop} : false = true → c := fun h => nomatch h
  refine Parse.Arms.firstOf ?_
  refine Parse.arms_append (Parse.arms_append ?_ ?_) ?_
  · refine Parse.arms_ite (fun _ => ?_) fun _ => hnil
    refine Parse.arms_append (Parse.arms_append ?_ ?_) ?_
    · refine Parse.arms_cons
        (arm_rows (evexWTable_rows _) fun _ _ hrow => decodeEvexOpRmv_clause hrow) ?_
      exact Parse.arms_cons (arm_rows rfl fun _ _ hrow => decodeEvexOpRmv_clause hrow)
        Parse.arms_nil
    · exact evexMove_arms ⟨rfl, rfl⟩ ⟨rfl, rfl⟩
    · exact Parse.arms_cons (Parse.arm_when fun _ => decodeEvexOpRm_clause rfl hstore)
        Parse.arms_nil
  · refine Parse.arms_ite (fun _ => ?_) fun _ => hnil
    refine Parse.arms_cons (arm_rows rfl fun _ _ hrow => decodeEvexOpRmv_clause hrow) ?_
    exact Parse.arms_cons (Parse.arm_when fun _ => decodeEvexOpRm_clause rfl hstore)
      Parse.arms_nil
  · refine Parse.arms_ite (fun _ => ?_) fun _ => hnil
    exact evexMove_arms ⟨rfl, rfl⟩ ⟨rfl, rfl⟩

theorem decodeVexMap1_clause (hout : Blank out) : VexPost out (decodeVexMap1 px out) := by
  refine Parse.post_next fun op => ?_
  refine Parse.Arms.firstOf ?_
  refine Parse.arms_cons (Parse.arm_when fun _ => decodeVexOpRm_clause rfl rfl) ?_
  refine Parse.arms_cons (Parse.arm_when fun _ => decodeVexOpRm_clause rfl rfl) ?_
  refine Parse.arms_cons (Parse.arm_ite (fun _ => ?_) fun _ => Parse.arm_none) ?_
  · exact arm_rows rfl fun _ _ hrow => decodeVexOpRmv_clause hrow
  refine Parse.arms_cons (Parse.arm_when fun _ => decodeVexOpRm_clause rfl rfl) ?_
  refine Parse.arms_cons (Parse.arm_when fun _ => decodeVexOpRm_clause rfl rfl) ?_
  refine Parse.arms_cons (Parse.arm_when fun _ => Parse.post_ret ?_) Parse.arms_nil
  have hrow : rowOk ⟨.none, .none, []⟩ (if px.vexL then .vzeroall else .vzeroupper)
      (if px.vexL then .opVzeroall else .opVzeroupper) = true := by
    cases px.vexL <;> rfl
  exact shaped_of_row hrow rfl rfl rfl ⟨rfl, rfl⟩
    (form_admits hout.dst_admits hout.src_admits (Or.inl rfl))

theorem decodeVex_clause (hout : Blank out) : VexPost out (decodeVex px out) := by
  rw [VexPost, decodeVex]
  split
  · exact decodeEvex_clause
  split
  · exact decodeVexMap2Bmi_clause
  split
  · exact decodeVexMap3Rorx_clause
  split
  · exact Parse.post_fail
  · exact decodeVexMap1_clause hout

end Vex

/-! ### Accepted instructions -/

theorem blank_insn (px : Prefixes) (rip : GuestAddr) : Blank (px.insn rip) := ⟨rfl, rfl⟩

theorem decodeAfterPrefixes_shaped (px : Prefixes) {out : Insn} (hout : Blank out) :
    Parse.Post (decodeAfterPrefixes px out) fun i _ => Shaped out i := by
  rw [decodeAfterPrefixes]
  split
  · exact decodeVex_clause hout
  · refine (decodePrimary_post hout).mono ?_
    rintro i bs ⟨opcode, rest, _, _, hclause⟩
    exact hclause.toShaped

/-- What holds of an instruction `decode_one` accepts. -/
structure Accepted (rip : GuestAddr) (i : Insn) : Prop where
  rip : i.rip = rip
  fits : i.Fits
  kind : kindBound i.kind i.handler = true
  branch : i.kind = .jcc → i.flags.controlFlow = true
  flagged : i.handler.isBranch = true → i.flags.controlFlow = true

/-- The legacy maps do not mark an instruction as VEX-encoded. -/
theorem decodeAfterPrefixes_unmarked {px : Prefixes} (h : px.isVex = false) (rip : GuestAddr) :
    Parse.Post (decodeAfterPrefixes px (px.insn rip)) fun i _ => i.flags.vex = false := by
  rw [decodeAfterPrefixes, h, if_neg Bool.false_ne_true]
  refine (decodePrimary_post (blank_insn px rip)).mono ?_
  rintro i bs ⟨opcode, rest, _, _, hclause⟩
  exact hclause.vex

theorem decodeWithSource_accepted {fetch : Fetch} {rip : GuestAddr} {fuel : Nat} {i : Insn}
    (h : decodeWithSource fetch rip fuel = some (.ok i)) : Accepted rip i := by
  rw [decodeWithSource] at h
  split at h
  · cases h
  · cases h
  · rename_i px c hscan
    split at h
    · cases h
    · rename_i out c' hrun
      obtain ⟨bs, hyields, _, _⟩ := Parse.run_eq_ok.mp hrun
      have hshaped := decodeAfterPrefixes_shaped px (blank_insn px rip) bs out hyields
      obtain ⟨hrip, _, ⟨f, hf, hadmits⟩, hkind, hbranch⟩ := hshaped
      have hjcc : out.kind = .jcc → out.flags.controlFlow = true := by
        intro hout
        rw [hout] at hkind
        have hhandler : Handler.opJcc = out.handler := eq_of_beq hkind
        exact hbranch (hhandler ▸ rfl)
      cases h
      exact ⟨hrip, ⟨f, hf, hadmits⟩, hkind, hjcc, hbranch⟩

theorem decodeOne_accepted {mem : CodeBytes} {rip : GuestAddr} {fuel : Nat} {i : Insn}
    (h : decodeOne mem rip fuel = some (.ok i)) : Accepted rip i :=
  decodeWithSource_accepted h

end PicoCpu
