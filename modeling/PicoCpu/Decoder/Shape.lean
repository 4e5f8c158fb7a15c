import PicoCpu.Decoder.Decode
import PicoCpu.Handlers.Operand

/-!
What the decoder promises about the operands of an instruction it accepts: which kinds of
operand stand in the two positions, for each handler, and how the memory operand of a
legacy instruction comes from its ModRM byte. The handlers rely on the former.
-/

namespace PicoCpu

open Decode

/-! ### Forms -/

/-- The operands a position may hold. A named register is one of the twenty codes of the
register fields. -/
inductive OperandSlot where
  | none | reg | named | rm | mem | imm | rel | xmm | xmmRm
  deriving DecidableEq

def OperandSlot.admits : OperandSlot → Operand → Bool
  | .none, op => op.kind == .none
  | .reg, op => op.kind == .reg
  | .named, op => op.kind == .reg && op.reg < 20
  | .rm, op => op.kind == .reg || op.isMem
  | .mem, op => op.isMem
  | .imm, op => op.kind == .imm
  | .rel, op => op.kind == .rel
  | .xmm, op => op.kind == .xmm
  | .xmmRm, op => op.kind == .xmm || op.isMem

/-- The operands of an instruction, and the operand sizes where they are restricted. -/
structure Form where
  dst : OperandSlot
  src : OperandSlot
  sizes : List Nat := []
  deriving DecidableEq

/-- The operand sizes of general-purpose instructions. -/
def gprSizes : List Nat := [1, 2, 4, 8]

/-- The sizes of instructions without a byte form. -/
def wideSizes : List Nat := [2, 4, 8]

/-- The forms in which the decoder binds a handler. -/
def Handler.forms : Handler → List Form
  | .nullptr | .opInvalid | .opPause => []
  | .opAdd | .opAdc | .opSub | .opSbb | .opAnd | .opOr | .opXor | .opCmp | .opMov =>
    [⟨.rm, .reg, gprSizes⟩, ⟨.reg, .rm, gprSizes⟩, ⟨.rm, .imm, gprSizes⟩]
  | .opTest => [⟨.rm, .reg, gprSizes⟩, ⟨.rm, .imm, gprSizes⟩]
  | .opXchg => [⟨.rm, .reg, gprSizes⟩]
  | .opInc | .opDec | .opNeg | .opNot => [⟨.rm, .none, gprSizes⟩]
  | .opMul | .opImul1 | .opDiv | .opIdiv => [⟨.none, .rm, gprSizes⟩]
  | .opShl | .opShr | .opSar | .opRol | .opRor | .opRcl | .opRcr =>
    [⟨.rm, .imm, gprSizes⟩, ⟨.rm, .reg, gprSizes⟩]
  | .opShld | .opShrd => [⟨.rm, .imm, wideSizes⟩, ⟨.rm, .reg, wideSizes⟩]
  | .opBt | .opBts | .opBtr | .opBtc => [⟨.rm, .reg, wideSizes⟩, ⟨.rm, .imm, wideSizes⟩]
  | .opImul | .opCmov | .opPopcnt | .opLzcnt | .opTzcnt | .opBsf | .opBsr | .opMovzx | .opMovsx
  | .opMovsxd => [⟨.reg, .rm, wideSizes⟩]
  | .opLea => [⟨.named, .mem, wideSizes⟩]
  | .opMovbe => [⟨.reg, .rm, wideSizes⟩, ⟨.rm, .reg, wideSizes⟩]
  | .opCrc32 => [⟨.reg, .rm, gprSizes⟩]
  | .opPush => [⟨.reg, .none, [8]⟩, ⟨.rm, .none, [8]⟩, ⟨.imm, .none, [8]⟩]
  | .opPop => [⟨.reg, .none, [8]⟩]
  | .opBswap => [⟨.reg, .none, [4, 8]⟩]
  | .opRdrand => [⟨.rm, .none, wideSizes⟩]
  | .opCwde | .opCdq => [⟨.none, .none, wideSizes⟩]
  | .opMovs | .opStos | .opLods | .opScas | .opCmps => [⟨.none, .none, gprSizes⟩]
  | .opJmp | .opCall => [⟨.rel, .none, []⟩, ⟨.rm, .none, [8]⟩]
  | .opJcc | .opLoop | .opJcxz => [⟨.rel, .none, []⟩]
  | .opRet => [⟨.none, .none, []⟩, ⟨.imm, .none, []⟩]
  | .opIntN => [⟨.imm, .none, []⟩]
  | .opNop | .opPrefetch => [⟨.none, .none, []⟩, ⟨.none, .rm, []⟩]
  | .opClflush => [⟨.none, .mem, []⟩]
  | .opPushf | .opPopf | .opLahf | .opSahf | .opInt3 | .opFence | .opCpuid | .opRdtsc | .opHlt
  | .opSyscall | .opVzeroupper | .opVzeroall => [⟨.none, .none, []⟩]
  | .opAndn | .opBextr | .opBlsi | .opBlsr | .opBlsmsk | .opBzhi | .opMulx | .opPdep | .opPext
  | .opRorx | .opSarx | .opShlx | .opShrx => [⟨.reg, .rm, [4, 8]⟩]
  | .opMovdToXmm | .opCvtsi2ss | .opCvtsi2sd => [⟨.xmm, .rm, [4, 8]⟩]
  | .opMovdFromXmm => [⟨.rm, .xmm, [4, 8]⟩, ⟨.xmm, .xmmRm, [8]⟩]
  | .opCvttss2si | .opCvttsd2si => [⟨.reg, .xmmRm, [4, 8]⟩]
  | .opMovmskps | .opMovmskpd => [⟨.reg, .xmm, []⟩]
  | .opPmovmskb => [⟨.reg, .xmm, []⟩, ⟨.xmm, .xmmRm, []⟩]
  | .opPextrb => [⟨.rm, .xmm, [1]⟩]
  | .opPextrw => [⟨.rm, .xmm, [2]⟩]
  | .opPextrd => [⟨.rm, .xmm, [4]⟩]
  | .opPextrq => [⟨.rm, .xmm, [8]⟩]
  | .opPinsrb | .opPinsrw | .opPinsrd | .opPinsrq => [⟨.xmm, .rm, gprSizes⟩]
  | .opFld | .opFst | .opFstp | .opFadd | .opFsub | .opFmul | .opFdiv | .opFcom =>
    [⟨.none, .none, []⟩, ⟨.none, .mem, []⟩]
  | .opFild | .opFistp | .opFldcw => [⟨.none, .mem, []⟩]
  | .opFnstcw => [⟨.mem, .none, []⟩]
  | .opFnstsw => [⟨.reg, .none, []⟩]
  | .opFchs | .opFabs | .opFsqrt | .opFaddp | .opFsubp | .opFmulp | .opFdivp | .opFxch | .opFcomp
  | .opFcompp | .opFninit | .opFsin | .opFcos | .opFpatan | .opFyl2x | .opF2xm1 | .opFscale
  | .opFrndint => [⟨.none, .none, []⟩]
  | .opVpgatherdd | .opVpgatherdq | .opVpgatherqd | .opVpgatherqq | .opVgatherdps | .opVgatherdpd
  | .opVgatherqps | .opVgatherqpd | .opVpscatterdd | .opVpscatterdq | .opVpscatterqd
  | .opVpscatterqq | .opVscatterdps | .opVscatterdpd | .opVscatterqps | .opVscatterqpd =>
    [⟨.xmm, .mem, []⟩]
  | .opMovss | .opMovsdFp | .opMovups | .opMovupd | .opMovdqa | .opMovdqu | .opVmovdqa
  | .opVmovdqu | .opVmovdqu32 | .opVmovdqu64 | .opVmovdqa32 | .opVmovdqa64 =>
    [⟨.xmm, .xmmRm, []⟩, ⟨.xmmRm, .xmm, []⟩]
  | _ => [⟨.xmm, .xmmRm, []⟩]

/-- The operands are those of the form. -/
def Form.admits (f : Form) (i : Insn) : Bool :=
  f.dst.admits i.dst && f.src.admits i.src && (f.sizes == [] || f.sizes.contains i.opSize)

/-- The instruction has one of the forms of its handler. -/
def Insn.Fits (i : Insn) : Prop := ∃ f ∈ i.handler.forms, f.admits i = true

/-! ### Kinds -/

/-- The handlers of the kinds that the peephole pass asks for. -/
def OpKind.boundTo : OpKind → Option Handler
  | .mov => some .opMov
  | .xchg => some .opXchg
  | .lea => some .opLea
  | .xor => some .opXor
  | .jcc => some .opJcc
  | _ => none

/-- Kind and handler agree. -/
def kindBound (kind : OpKind) (handler : Handler) : Bool :=
  kind.boundTo.all fun h => h == handler

/-! ### Clauses -/

/-- The handlers that can take a branch. -/
def Handler.isBranch : Handler → Bool
  | .opJmp | .opJcc | .opCall | .opRet | .opLoop | .opJcxz => true
  | _ => false

/-- What every clause of the decoder makes of the instruction it starts from. -/
structure Shaped (out i : Insn) : Prop where
  rip : i.rip = out.rip
  rep : i.flags.rep = out.flags.rep ∧ i.flags.repne = out.flags.repne
  fits : i.Fits
  kind : kindBound i.kind i.handler = true
  branch : i.handler.isBranch = true → i.flags.controlFlow = true

/-- The operand the decoder stores, after a handler's clause has put other data into the
operand's fields: the source size into `scale`, or the second register into `index`. -/
def Handler.reuseFields (h : Handler) (size reg : Nat) (op : Operand) : Operand :=
  match h with
  | .opMovzx | .opMovsx | .opMovsxd => { op with scale := size }
  | .opShld | .opShrd => { op with index := reg }
  | _ => op

/-- The handlers whose clauses keep the operand as ModRM encodes it. -/
def Handler.keepsFields (h : Handler) : Bool :=
  !([.opMovzx, .opMovsx, .opMovsxd, .opShld, .opShrd] : List Handler).contains h

theorem reuseFields_of_keeps {h : Handler} (hkeeps : h.keepsFields = true) (size reg : Nat)
    (op : Operand) : h.reuseFields size reg op = op := by
  unfold Handler.reuseFields
  split <;> first | rfl | exact absurd hkeeps (by decide)

/-- The memory operand, if there is one, is what the ModRM byte at the head of `bs` and the
bytes after it encode, up to the reused fields. -/
def MemField (px : Prefixes) (i : Insn) (bs : List U8) : Prop :=
  (i.dst.isMem = false ∧ i.src.isMem = false) ∨
    ∃ mb enc tail op size, bs = mb :: (enc ++ tail) ∧ op.isMem = true ∧
      (decodeRmOperand px (splitModrm mb) 1).Yields enc op ∧
      let op' := i.handler.reuseFields size (combineReg px.rexR (splitModrm mb).reg) op
      (i.dst = op' ∧ i.src.isMem = false) ∨ (i.src = op' ∧ i.dst.isMem = false)

/-- A clause of the legacy maps, past the opcode bytes. -/
structure LegacyClause (px : Prefixes) (out i : Insn) (bs : List U8) : Prop extends
    Shaped out i where
  mem : MemField px i bs
  vex : i.flags.vex = out.flags.vex

/-- The instruction a clause starts from has no operands yet. -/
structure Blank (out : Insn) : Prop where
  dst : out.dst = {}
  src : out.src = {}

namespace Blank

variable {out : Insn} (h : Blank out)

include h

theorem dst_admits : OperandSlot.none.admits out.dst = true := by rw [h.dst]; rfl
theorem src_admits : OperandSlot.none.admits out.src = true := by rw [h.src]; rfl
theorem dst_isMem : out.dst.isMem = false := by rw [h.dst]; rfl
theorem src_isMem : out.src.isMem = false := by rw [h.src]; rfl

end Blank

/-- A handler is bound in form `f`. -/
def bindOk (f : Form) (kind : OpKind) (handler : Handler) : Bool :=
  handler.forms.contains f && kindBound kind handler && handler.keepsFields

/-- A row of a table binds a handler in form `f`, and not one that branches. -/
def rowOk (f : Form) (kind : OpKind) (handler : Handler) : Bool :=
  bindOk f kind handler && !handler.isBranch

section Rows

variable {f : Form} {kind : OpKind} {handler : Handler} {out i : Insn} {px : Prefixes}

theorem shaped_of_bind (hbind : bindOk f kind handler = true) (hkind : i.kind = kind)
    (hhandler : i.handler = handler) (hrip : i.rip = out.rip)
    (hrep : i.flags.rep = out.flags.rep ∧ i.flags.repne = out.flags.repne)
    (hadmits : f.admits i = true)
    (hbranch : handler.isBranch = true → i.flags.controlFlow = true) : Shaped out i := by
  simp only [bindOk, Bool.and_eq_true, List.contains_iff_mem] at hbind
  obtain ⟨⟨hform, hbound⟩, _⟩ := hbind
  subst hkind hhandler
  exact ⟨hrip, hrep, ⟨f, hform, hadmits⟩, hbound, hbranch⟩

theorem keeps_of_bind (hbind : bindOk f kind handler = true) : handler.keepsFields = true := by
  simp only [bindOk, Bool.and_eq_true] at hbind
  exact hbind.2

theorem bind_of_row (hrow : rowOk f kind handler = true) :
    bindOk f kind handler = true ∧ handler.isBranch = false := by
  simpa only [rowOk, Bool.and_eq_true, Bool.not_eq_true'] using hrow

theorem shaped_of_row (hrow : rowOk f kind handler = true) (hkind : i.kind = kind)
    (hhandler : i.handler = handler) (hrip : i.rip = out.rip)
    (hrep : i.flags.rep = out.flags.rep ∧ i.flags.repne = out.flags.repne)
    (hadmits : f.admits i = true) : Shaped out i := by
  obtain ⟨hbind, hplain⟩ := bind_of_row hrow
  refine shaped_of_bind hbind hkind hhandler hrip hrep hadmits fun hbranch => ?_
  rw [hplain] at hbranch
  cases hbranch

theorem keeps_of_row (hrow : rowOk f kind handler = true) : handler.keepsFields = true :=
  keeps_of_bind (bind_of_row hrow).1

end Rows

/-! ### The r/m operand -/

/-- An operand of the r/m field: what `slot` admits, and where it is memory, what the bytes
after the ModRM byte encode. -/
structure RmOperand (slot : OperandSlot) (px : Prefixes) (m : ModRm) (op : Operand)
    (enc : List U8) : Prop where
  admits : slot.admits op = true
  encoded : op.isMem = true → (decodeRmOperand px m 1).Yields enc op

/-- The operand size only matters to a register. -/
theorem decodeRmOperand_size {px : Prefixes} {m : ModRm} (hmod : m.mod ≠ 3) (size : Nat) :
    decodeRmOperand px m size = decodeRmOperand px m 1 := by
  simp only [decodeRmOperand, if_neg hmod]

theorem decodeRmOperand_isMem {px : Prefixes} {m : ModRm} (hmod : m.mod ≠ 3) (size : Nat) :
    Parse.Post (decodeRmOperand px m size) fun op _ => op.isMem = true := by
  have hdisp (p : Decode U64) (f : U64 → Operand) (hf : ∀ d, (f d).isMem = true) :
      Parse.Post (p >>= fun d => pure (f d)) fun op _ => op.isMem = true :=
    Parse.post_bind (Parse.post_yields p) fun d _ _ => Parse.post_ret (hf d)
  rw [decodeRmOperand, if_neg hmod]
  by_cases hrip : m.mod = 0 ∧ m.rm = 5
  · rw [if_pos hrip]
    exact hdisp _ _ fun _ => rfl
  · rw [if_neg hrip]
    by_cases hsib : m.rm = 4
    · rw [if_pos hsib]
      refine Parse.post_next fun sibByte => ?_
      change Parse.Post (if _ then _ else _) _
      split
      · exact hdisp _ _ fun _ => rfl
      · exact hdisp _ _ fun _ => rfl
    · rw [if_neg hsib]
      exact hdisp _ _ fun _ => rfl

theorem decodeRmOperand_mem {px : Prefixes} {m : ModRm} (hmod : m.mod ≠ 3) (size : Nat) :
    Parse.Post (decodeRmOperand px m size) (RmOperand .mem px m) := by
  intro bs op hyields
  refine ⟨decodeRmOperand_isMem hmod size bs op hyields, fun _ => ?_⟩
  rwa [← decodeRmOperand_size hmod size]

theorem decodeRmOperand_post (px : Prefixes) (m : ModRm) (size : Nat) :
    Parse.Post (decodeRmOperand px m size) (RmOperand .rm px m) := by
  by_cases hmod : m.mod = 3
  · rw [decodeRmOperand, if_pos hmod]
    exact Parse.post_ret ⟨rfl, fun h => nomatch h⟩
  · refine (decodeRmOperand_mem hmod size).mono fun op enc h => ⟨?_, h.encoded⟩
    have hmem : op.isMem = true := h.admits
    simp only [OperandSlot.admits, hmem, Bool.or_true]

theorem decodeXmmOperand_post (px : Prefixes) (m : ModRm) (size : Nat) :
    Parse.Post (decodeXmmOperand px m size) (RmOperand .xmmRm px m) := by
  by_cases hmod : m.mod = 3
  · rw [decodeXmmOperand, if_pos hmod]
    exact Parse.post_ret ⟨rfl, fun h => nomatch h⟩
  · rw [decodeXmmOperand, if_neg hmod]
    refine (decodeRmOperand_mem hmod size).mono fun op enc h => ⟨?_, h.encoded⟩
    have hmem : op.isMem = true := h.admits
    simp only [OperandSlot.admits, hmem, Bool.or_true]

theorem decodeXmmOperand_isMem {px : Prefixes} {m : ModRm} (hmod : m.mod ≠ 3) (size : Nat) :
    Parse.Post (decodeXmmOperand px m size) fun op _ => op.isMem = true := by
  rw [decodeXmmOperand, if_neg hmod]
  exact decodeRmOperand_isMem hmod size

theorem regOperand_named (px : Prefixes) (mb : U8) (size : Nat) :
    OperandSlot.named.admits (regOperand px (splitModrm mb) size) = true := by
  have hcombine (ext : Bool) (r3 : Nat) : combineReg ext r3 < 20 := by
    have : r3 % 8 < 8 := Nat.mod_lt _ (by omega)
    rw [combineReg]
    split <;> omega
  have hreg : byteAwareReg px px.rexR (splitModrm mb).reg size < 20 := by
    rw [byteAwareReg]
    split
    · rename_i h
      simp only [Bool.and_eq_true, decide_eq_true_eq] at h
      omega
    · exact hcombine ..
  simp [OperandSlot.admits, regOperand, makeReg, hreg]

theorem readModrm_bind {α : Type} (f : ModRm → Decode α) :
    (readModrm >>= f) = Parse.next fun mb => f (splitModrm mb) := rfl

theorem isMem_reuseFields (h : Handler) (size reg : Nat) (op : Operand) :
    (h.reuseFields size reg op).isMem = op.isMem := by
  unfold Handler.reuseFields
  split <;> rfl

section MemField

variable {px : Prefixes} {i : Insn} {mb : U8} {op : Operand} {enc tail : List U8}
  {slot : OperandSlot}

theorem memField_src (hop : RmOperand slot px (splitModrm mb) op enc) (size : Nat)
    (hsrc : i.src = i.handler.reuseFields size (combineReg px.rexR (splitModrm mb).reg) op)
    (hdst : i.dst.isMem = false) : MemField px i (mb :: (enc ++ tail)) := by
  cases hmem : op.isMem with
  | true =>
      exact Or.inr ⟨mb, enc, tail, op, size, rfl, hmem, hop.encoded hmem, Or.inr ⟨hsrc, hdst⟩⟩
  | false => exact Or.inl ⟨hdst, by rw [hsrc, isMem_reuseFields, hmem]⟩

theorem memField_dst (hop : RmOperand slot px (splitModrm mb) op enc) (size : Nat)
    (hdst : i.dst = i.handler.reuseFields size (combineReg px.rexR (splitModrm mb).reg) op)
    (hsrc : i.src.isMem = false) : MemField px i (mb :: (enc ++ tail)) := by
  cases hmem : op.isMem with
  | true =>
      exact Or.inr ⟨mb, enc, tail, op, size, rfl, hmem, hop.encoded hmem, Or.inl ⟨hdst, hsrc⟩⟩
  | false => exact Or.inl ⟨by rw [hdst, isMem_reuseFields, hmem], hsrc⟩

end MemField

end PicoCpu
