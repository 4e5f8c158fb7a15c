import PicoCpu.DoubleShifts
import PicoCpu.Gathers
import PicoCpu.PackedOrders

/-!
The insertions and extractions of vector elements: what the strings of the map 66 0F 3A say, what the
decoder and the handlers make of them, and from which states the two agree.
-/

namespace PicoCpu

open H Proc Handlers Decode

/-! ### The strings -/

inductive ElementOp where
  | extract (size : Nat)
  | insert (size : Nat)
  | insertps
  deriving DecidableEq, Repr

def ElementOp.handler : ElementOp → Handler
  | .extract 1 => .opPextrb
  | .extract 2 => .opPextrw
  | .extract 4 => .opPextrd
  | .extract _ => .opPextrq
  | .insert 1 => .opPinsrb
  | .insert 4 => .opPinsrd
  | .insert _ => .opPinsrq
  | .insertps => .opInsertps

/-- The rows of the map. -/
def elementOp (op : U8) (rexW : Bool) : Option ElementOp :=
  match op.toNat with
  | 0x14 => some (.extract 1)
  | 0x15 => some (.extract 2)
  | 0x16 => some (.extract (if rexW then 8 else 4))
  | 0x20 => some (.insert 1)
  | 0x21 => some .insertps
  | 0x22 => some (.insert (if rexW then 8 else 4))
  | _ => none

/-- What a string says; `rm` is the operand that its mode and rm fields name at 64 bits. -/
structure ElementMove where
  op : ElementOp
  px : Prefixes
  m : ModRm
  rm : Operand
  imm : U8

namespace ElementMove

variable (e : ElementMove)

/-- The vector register. -/
def reg : Nat := combineReg e.px.rexR e.m.reg

/-- The register of a register form. -/
def rmReg : Nat := combineReg e.px.rexB e.m.rm

/-- The element selected. -/
def index (size : Nat) : Nat := e.imm.toNat % (16 / size)

/-- Without REX, codes 4 to 7 are taken for the high byte of another register. -/
def HighByte : Prop := e.px.hasRex = false ∧ 4 ≤ e.m.rm

instance : Decidable e.HighByte := inferInstanceAs (Decidable (_ ∧ _))

/-- The general operand as the decoder names it. -/
def named (size : Nat) : Operand :=
  if e.m.mod = 3 then makeReg (byteAwareReg e.px e.px.rexB e.m.rm size) else e.rm

/-- The vector operand. -/
def vectorNamed : Operand := if e.m.mod = 3 then makeXmm e.rmReg else e.rm

end ElementMove

/-- The bytes of an insertion or extraction follow the prefixes. -/
structure ElementMoveAt (fetch : Fetch) (fuel : Nat) (e : ElementMove) (at_ end_ op mb : U8) :
    Prop where
  scan : scanPrefixes fetch fuel 0 {} = some (.ok (e.px, at_))
  legacy : e.px.isVex = false
  mandatory : e.px.opsizePfx = true
  bytes : Parse.Holds fetch at_ [0x0F, 0x3A, op, mb]
  row : elementOp op e.px.rexW = some e.op
  modrm : e.m = splitModrm mb
  operand : (decodeRmOperand e.px e.m 8).run fetch (at_ + 1 + 1 + 1 + 1) = .ok (e.rm, end_)
  imm : fetch end_ = .ok e.imm

/-! ### Decoding -/

section Decoding

variable {fetch : Fetch} {e : ElementMove} {p end_ mb : U8} {out i : Insn} {rest : U8}

theorem run_decodeRm_named (hrm : (decodeRmOperand e.px e.m 8).run fetch p = .ok (e.rm, end_))
    (size : Nat) : (decodeRmOperand e.px e.m size).run fetch p = .ok (e.named size, end_) := by
  rw [ElementMove.named]
  split
  next hmod =>
    rw [decodeRmOperand, if_pos hmod] at hrm ⊢
    rw [← (Prod.mk.inj (Except.ok.inj hrm)).2]
    rfl
  next hmod =>
    rw [decodeRmOperand_size hmod size, ← decodeRmOperand_size hmod 8]
    exact hrm

theorem run_decodeXmm_named (hrm : (decodeRmOperand e.px e.m 8).run fetch p = .ok (e.rm, end_)) :
    (decodeXmmOperand e.px e.m 16).run fetch p = .ok (e.vectorNamed, end_) := by
  rw [decodeXmmOperand, ElementMove.vectorNamed]
  split
  next hmod =>
    rw [decodeRmOperand, if_pos hmod] at hrm
    rw [← (Prod.mk.inj (Except.ok.inj hrm)).2]
    rfl
  next hmod =>
    rw [decodeRmOperand_size hmod 16, ← decodeRmOperand_size hmod 8]
    exact hrm

/-- The bytes from the mode byte on. -/
structure ElementMove.Tail (e : ElementMove) (fetch : Fetch) (p end_ mb : U8) : Prop where
  mode : fetch p = .ok mb
  modrm : e.m = splitModrm mb
  operand : (decodeRmOperand e.px e.m 8).run fetch (p + 1) = .ok (e.rm, end_)
  imm : fetch end_ = .ok e.imm

theorem imm8_signExtend (x : U8) : ((x.signExtend 64) &&& 0xFF : U64).setWidth 8 = x := by
  have hmask : (0xFF : U64).setWidth 8 = BitVec.allOnes 8 := by decide
  rw [BitVec.setWidth_and, hmask, BitVec.and_allOnes, setWidth_signExtend]

theorem run_withImm8 {q : Decode Insn} (hq : q.run fetch p = .ok (out, end_))
    (himm : fetch end_ = .ok e.imm) :
    ∃ imm : U64, imm.setWidth 8 = e.imm ∧
      (withImm8 q).run fetch p = .ok ({ out with immExtra := imm }, end_ + 1) := by
  refine ⟨e.imm.signExtend 64 &&& 0xFF, imm8_signExtend e.imm, ?_⟩
  rw [withImm8, Parse.run_bind, hq]
  simp only [readImmSx, readByte, Parse.symbol_bind, Parse.pure_eq, Parse.next_bind, Parse.ret_bind,
    Parse.run, himm]

theorem run_decodePextr (h : e.Tail fetch p end_ mb) (size : Nat) (kind : OpKind)
    (handler : Handler) :
    (decodePextr e.px out size kind handler).run fetch p =
      .ok ({ out with opSize := size, kind, handler, dst := e.named size,
                      src := makeXmm e.reg }, end_) := by
  rw [decodePextr, readModrm_bind, Parse.run, h.mode]
  simp only [← h.modrm, Parse.run_bind, run_decodeRm_named h.operand size]
  rfl

theorem run_decodePinsr (h : e.Tail fetch p end_ mb) (size : Nat) (kind : OpKind)
    (handler : Handler) :
    (decodePinsr e.px out size kind handler).run fetch p =
      .ok ({ out with opSize := size, kind, handler, dst := makeXmm e.reg,
                      src := e.named size }, end_) := by
  rw [decodePinsr, readModrm_bind, Parse.run, h.mode]
  simp only [← h.modrm, Parse.run_bind, run_decodeRm_named h.operand size]
  rfl

theorem run_decodeXmmRm (h : e.Tail fetch p end_ mb) (kind : OpKind) (handler : Handler) :
    (decodeXmmRm e.px out kind handler).run fetch p =
      .ok ({ out with opSize := 16, kind, handler, dst := makeXmm e.reg,
                      src := e.vectorNamed }, end_) := by
  rw [decodeXmmRm, readModrm_bind, Parse.run, h.mode]
  simp only [← h.modrm, Parse.run_bind, run_decodeXmm_named h.operand]
  rfl

/-- The operands that the decoder stores. -/
def ElementMove.Operands (e : ElementMove) (i : Insn) : Prop :=
  match e.op with
  | .extract size =>
    IsOpSize size ∧ i.opSize = size ∧ i.dst = e.named size ∧ i.src = makeXmm e.reg
  | .insert size =>
    IsOpSize size ∧ size ≠ 2 ∧ i.dst = makeXmm e.reg ∧ i.src = e.named size
  | .insertps => i.dst = makeXmm e.reg ∧ i.src = e.vectorNamed

/-- What the decoder makes of the string. -/
structure DecodedMove (e : ElementMove) (i : Insn) : Prop where
  handler : i.handler = e.op.handler
  imm : imm8 i = e.imm
  operands : e.Operands i

theorem DecodedMove.of_run {q : Decode Insn} (hq : q.run fetch p = .ok (out, end_))
    (himm : fetch end_ = .ok e.imm) (hhandler : out.handler = e.op.handler)
    (hoperands : ∀ imm, e.Operands { out with immExtra := imm })
    (hrun : (withImm8 q).run fetch p = .ok (i, rest)) : DecodedMove e i := by
  obtain ⟨imm, hback, hq'⟩ := run_withImm8 hq himm
  rw [hq'] at hrun
  cases hrun
  exact ⟨hhandler, hback, hoperands imm⟩

/-- A row of the map behind a 66. -/
theorem decode0F3A_decoded (hmandatory : e.px.opsizePfx = true) {op : U8} (hop : fetch p = .ok op)
    (hrow : elementOp op e.px.rexW = some e.op) (htail : e.Tail fetch (p + 1) end_ mb)
    (hrun : (decode0F3A e.px out).run fetch p = .ok (i, rest)) : DecodedMove e i := by
  have hnone := Prefixes.noMandatory_of_opsizePfx hmandatory
  rw [decode0F3A, readByte, Parse.symbol_bind, Parse.run, hop] at hrun
  simp only [hmandatory, hnone, Bool.false_and, Bool.not_true] at hrun
  have hoperation {o : ElementOp} (ho : some o = some e.op) : e.op = o := (Option.some.inj ho).symm
  unfold elementOp at hrow
  split at hrow
  next hn =>
    obtain rfl := eq_ofNat_of_toNat hn
    have h := hoperation hrow
    exact .of_run (run_decodePextr htail 1 _ _) htail.imm (by rw [h]; rfl)
      (fun _ => by rw [ElementMove.Operands, h]; exact ⟨by decide, rfl, rfl, rfl⟩) hrun
  next hn =>
    obtain rfl := eq_ofNat_of_toNat hn
    have h := hoperation hrow
    exact .of_run (run_decodePextr htail 2 _ _) htail.imm (by rw [h]; rfl)
      (fun _ => by rw [ElementMove.Operands, h]; exact ⟨by decide, rfl, rfl, rfl⟩) hrun
  next hn =>
    obtain rfl := eq_ofNat_of_toNat hn
    have h := hoperation hrow
    cases hw : e.px.rexW with
    | true =>
        rw [hw] at hrun h
        exact .of_run (run_decodePextr htail 8 _ _) htail.imm (by rw [h]; rfl)
          (fun _ => by rw [ElementMove.Operands, h]; exact ⟨by decide, rfl, rfl, rfl⟩) hrun
    | false =>
        rw [hw] at hrun h
        exact .of_run (run_decodePextr htail 4 _ _) htail.imm (by rw [h]; rfl)
          (fun _ => by rw [ElementMove.Operands, h]; exact ⟨by decide, rfl, rfl, rfl⟩) hrun
  next hn =>
    obtain rfl := eq_ofNat_of_toNat hn
    have h := hoperation hrow
    exact .of_run (run_decodePinsr htail 1 _ _) htail.imm (by rw [h]; rfl)
      (fun _ => by rw [ElementMove.Operands, h]; exact ⟨by decide, by decide, rfl, rfl⟩) hrun
  next hn =>
    obtain rfl := eq_ofNat_of_toNat hn
    have h := hoperation hrow
    exact .of_run (run_decodeXmmRm htail _ _) htail.imm (by rw [h]; rfl)
      (fun _ => by rw [ElementMove.Operands, h]; exact ⟨rfl, rfl⟩) hrun
  next hn =>
    obtain rfl := eq_ofNat_of_toNat hn
    have h := hoperation hrow
    cases hw : e.px.rexW with
    | true =>
        rw [hw] at hrun h
        exact .of_run (run_decodePinsr htail 8 _ _) htail.imm (by rw [h]; rfl)
          (fun _ => by rw [ElementMove.Operands, h]; exact ⟨by decide, by decide, rfl, rfl⟩) hrun
    | false =>
        rw [hw] at hrun h
        exact .of_run (run_decodePinsr htail 4 _ _) htail.imm (by rw [h]; rfl)
          (fun _ => by rw [ElementMove.Operands, h]; exact ⟨by decide, by decide, rfl, rfl⟩) hrun
  next => cases hrow

theorem decodeTwoByte_0F3A (px : Prefixes) (out : Insn) (h : fetch p = .ok 0x3A) :
    (decodeTwoByte px out).run fetch p = (decode0F3A px out).run fetch (p + 1) := by
  rw [decodeTwoByte, readByte, Parse.symbol_bind, Parse.run, h]
  rfl

theorem ElementMoveAt.decoded {rip : GuestAddr} {fuel : Nat} {op : U8}
    (h : ElementMoveAt fetch fuel e p end_ op mb)
    (hdecode : decodeWithSource fetch rip fuel = some (.ok i)) : DecodedMove e i := by
  obtain ⟨hescape, hmap, hop, hmb, _⟩ := h.bytes
  rw [decodeWithSource, h.scan] at hdecode
  dsimp only at hdecode
  rw [decodeAfterPrefixes, h.legacy, if_neg Bool.false_ne_true, decodePrimary_escape _ _ hescape,
    decodeTwoByte_0F3A _ _ hmap] at hdecode
  split at hdecode
  · cases hdecode
  · rename_i out rest hrun
    have hmove := decode0F3A_decoded h.mandatory hop h.row ⟨hmb, h.modrm, h.operand, h.imm⟩ hrun
    cases hdecode
    exact ⟨hmove.handler, hmove.imm, hmove.operands⟩

end Decoding

/-! ### The law -/

namespace ElementMove

variable (e : ElementMove)

/-- The element selected, zero-extended. -/
def extracted (size : Nat) (c : Cpu) : U64 :=
  (c.element size e.reg (e.index size)).setWidth 64

/-- Between `c` and `c'` the vector register has received the low bytes of `v` at the element
selected; all else is as in `base`. -/
def Inserted (size : Nat) (v : U64) (c base c' : Cpu) : Prop :=
  (∃ b, c' = base.setZmmBytes e.reg 0 16 b) ∧
    ∀ l < 16 / size, c'.element size e.reg l =
      if l = e.index size then v.setWidth (8 * size) else c.element size e.reg l

/-- INSERTPS puts a doubleword at its place and then clears the elements of the zero mask. -/
def InsertedSingle (v : U32) (c c' : Cpu) : Prop :=
  (∃ b, c' = c.setZmmBytes e.reg 0 16 b) ∧
    ∀ l < 4, c'.element 4 e.reg l =
      if e.imm.getLsbD l then 0 else if l = (e.imm.toNat / 16) % 4 then v
      else c.element 4 e.reg l

/-- What an extraction does: all 64 bits of a register, or exactly the bytes of the element in
memory. -/
def Extracts (size : Nat) {σ : Type} (i : Insn) (at_ : Attached σ) (c c' : Cpu) (w w' : World σ) :
    Prop :=
  if e.m.mod = 3 then c' = c.setR e.rmReg (e.extracted size c) ∧ w' = w
  else (c.dataBreakpointAt (ea c i e.rm) true size).1 = false ∧
    at_.Writes (ea c i e.rm) size (e.extracted size c) w w' ∧
    c' = at_.hooked true (ea c i e.rm) size (e.extracted size c) c

/-- What an insertion does, from the register or from memory. -/
def Inserts (size : Nat) {σ : Type} (i : Insn) (at_ : Attached σ) (c c' : Cpu) (w w' : World σ) :
    Prop :=
  if e.m.mod = 3 then e.Inserted size (c.r e.rmReg) c c c' ∧ w' = w
  else ∃ v, (c.dataBreakpointAt (ea c i e.rm) false size).1 = false ∧
    at_.Reads (ea c i e.rm) size w v w' ∧
    e.Inserted size v c (at_.hooked false (ea c i e.rm) size 0 c) c'

end ElementMove

/-- The string does what it says. For INSERTPS from memory: wherever the doubleword at the address
can be read, it is the one inserted. -/
def MoveLaw (fp : HostFp) (e : ElementMove) (i : Insn) {σ : Type} (at_ : Attached σ) (c : Cpu)
    (w : World σ) : Prop :=
  match e.op with
  | .extract size => ∀ c' w', (i.run fp).EndsIn at_ c w (some ()) c' w' ↔
      e.Extracts size i at_ c c' w w'
  | .insert size => ∀ c' w', (i.run fp).EndsIn at_ c w (some ()) c' w' ↔
      e.Inserts size i at_ c c' w w'
  | .insertps =>
    if e.m.mod = 3 then
      ∃ c', (i.run fp).EndsIn at_ c w (some ()) c' w ∧
        e.InsertedSingle (c.element 4 e.rmReg (e.imm.toNat / 64)) c c'
    else ∀ v w₁, at_.Reads (ea c i e.rm) 4 w v w₁ →
      ∃ c' w', (i.run fp).EndsIn at_ c w (some ()) c' w' ∧ e.InsertedSingle (v.setWidth 32) c c'

/-- The states from which it does. -/
def ElementMove.Right (e : ElementMove) (i : Insn) {σ : Type} (at_ : Attached σ) (c : Cpu)
    (w : World σ) : Prop :=
  match e.op with
  | .extract size => e.m.mod = 3 → size < 4 →
      if size = 1 ∧ e.HighByte then
        (c.r (e.m.rm - 4) >>> 8).setWidth 8 = c.element 1 e.reg (e.index 1) ∧
          c.r e.rmReg = e.extracted 1 c
      else c.r e.rmReg >>> (8 * size) = 0#64
  | .insert size => e.m.mod = 3 → size = 1 → e.HighByte →
      (c.r (e.m.rm - 4) >>> 8).setWidth 8 = (c.r e.rmReg).setWidth 8
  | .insertps => e.m.mod ≠ 3 → ∀ v w₁, at_.Reads (ea c i e.rm) 4 w v w₁ →
      ∃ buf w₂, at_.env (.read (ea c i e.rm) 16) w = ((.ok buf : Except Status Buf), w₂) ∧
        (e.imm.getLsbD ((e.imm.toNat / 16) % 4) = true ∨
          Buf.element 4 buf (e.imm.toNat / 64) = Buf.element 4 buf 0)

/-! ### Registers -/

section Registers

theorem getLsbD_maskFor {size : Nat} (hsize : IsOpSize size) {k : Nat} (hk : k < 64) :
    (maskFor size).getLsbD k = decide (k < 8 * size) := by
  have hones := getLsbD_and_maskFor size hsize (BitVec.allOnes 64) k
  rwa [BitVec.allOnes_and, BitVec.getLsbD_allOnes, decide_eq_true hk, Bool.true_and] at hones

/-- A register's second byte. -/
theorem secondByte_eq_iff (x : U8) (g : U64) :
    (x.setWidth 64 <<< 8) &&& (maskFor 1 <<< 8) = g &&& (maskFor 1 <<< 8) ↔
      (g >>> 8).setWidth 8 = x := by
  have hmask {k : Nat} (hk : k < 64) : (maskFor 1 <<< 8).getLsbD k =
      (!decide (k < 8) && decide (k - 8 < 8)) := by
    rw [BitVec.getLsbD_shiftLeft, decide_eq_true hk, getLsbD_maskFor (by decide) (by omega),
      Bool.true_and]
  rw [BitVec.eq_of_getLsbD_eq_iff, BitVec.eq_of_getLsbD_eq_iff]
  constructor
  · intro h k hk
    have hbit := h (8 + k) (by omega)
    rw [BitVec.getLsbD_and, BitVec.getLsbD_and, hmask (by omega), BitVec.getLsbD_shiftLeft,
      BitVec.getLsbD_setWidth, Nat.add_sub_cancel_left, decide_eq_true hk,
      decide_eq_true (show 8 + k < 64 by omega), decide_eq_false (show ¬ 8 + k < 8 by omega),
      decide_eq_true (show k < 64 by omega)] at hbit
    rw [BitVec.getLsbD_setWidth, BitVec.getLsbD_ushiftRight, decide_eq_true hk, Bool.true_and]
    simpa using hbit.symm
  · intro h k hk
    rw [BitVec.getLsbD_and, BitVec.getLsbD_and, hmask hk]
    by_cases hin : ¬ k < 8 ∧ k - 8 < 8
    · have hbit := h (k - 8) hin.2
      rw [BitVec.getLsbD_setWidth, BitVec.getLsbD_ushiftRight, Nat.add_sub_cancel' (by omega),
        decide_eq_true hin.2, Bool.true_and] at hbit
      rw [BitVec.getLsbD_shiftLeft, BitVec.getLsbD_setWidth, hbit, decide_eq_true hk,
        decide_eq_false hin.1, decide_eq_true (show k - 8 < 64 by omega)]
      simp
    · have hout : (!decide (k < 8) && decide (k - 8 < 8)) = false := by
        simpa using hin
      rw [hout, Bool.and_false, Bool.and_false]

/-- Merging a number into a register's low bytes replaces the register when its other bytes are
zero. -/
theorem merge_low_iff {size : Nat} (hsize : IsOpSize size) {x v : U64} (hv : v &&& maskFor size = v) :
    (x &&& ~~~maskFor size) ||| (v &&& maskFor size) = v ↔ x >>> (8 * size) = 0#64 := by
  have hbit (k : Nat) : (v.getLsbD k && decide (k < 8 * size)) = v.getLsbD k := by
    rw [← getLsbD_and_maskFor size hsize, hv]
  have hmask (k : Nat) (hk : k < 64) : (~~~maskFor size).getLsbD k = !decide (k < 8 * size) := by
    rw [BitVec.getLsbD_not, decide_eq_true hk, getLsbD_maskFor hsize hk, Bool.true_and]
  have hsize8 : 8 * size ≤ 64 := by
    rcases hsize with rfl | rfl | rfl | rfl <;> decide
  rw [BitVec.eq_of_getLsbD_eq_iff, BitVec.eq_of_getLsbD_eq_iff]
  constructor
  · intro h k hk
    rw [BitVec.getLsbD_ushiftRight, BitVec.getLsbD_zero]
    by_cases hin : 8 * size + k < 64
    · have hk' := h (8 * size + k) hin
      have hv' := hbit (8 * size + k)
      have hout : decide (8 * size + k < 8 * size) = false := decide_eq_false (by omega)
      rw [BitVec.getLsbD_or, BitVec.getLsbD_and, hmask _ hin, hv, hout] at hk'
      rw [hout, Bool.and_false] at hv'
      rw [← hv', Bool.or_false, Bool.not_false, Bool.and_true] at hk'
      exact hk'
    · exact BitVec.getLsbD_of_ge _ _ (Nat.le_of_not_lt hin)
  · intro h k hk
    rw [hv, BitVec.getLsbD_or, BitVec.getLsbD_and, hmask k hk]
    by_cases hin : k < 8 * size
    · rw [decide_eq_true hin, Bool.not_true, Bool.and_false, Bool.false_or]
    · have hk' := h (k - 8 * size) (by omega)
      rw [BitVec.getLsbD_ushiftRight, BitVec.getLsbD_zero, Nat.add_sub_cancel' (by omega)] at hk'
      rw [hk', Bool.false_and, Bool.false_or]

end Registers

/-! ### Elements -/

section Elements

variable {size : Nat} (hsize : size ≤ 8)
include hsize

theorem element_splice (d s : Buf) (k l : Nat) :
    Buf.element size (splice d (size * k) size s) l =
      if l = k then Buf.element size s 0 else Buf.element size d l := by
  split
  next heq =>
    subst heq
    apply BitVec.eq_of_getLsbD_eq
    intro n hn
    have hbyte : n / 8 < size := by omega
    rw [getLsbD_element hsize hn, getLsbD_element hsize hn, Nat.mul_comm, splice_inside _ _ _ hbyte,
      Nat.mul_zero, Nat.zero_add]
  next hne =>
    apply element_congr hsize
    intro j hj
    rw [Nat.mul_comm size k, Nat.mul_comm size l, splice_other _ _ (Ne.symm hne) hj]

end Elements

/-! ### Insertion -/

section Insertion

variable {e : ElementMove} {size : Nat} {v v' : U64} {c base c' : Cpu}

/-- The insertion is one splice. -/
theorem ElementMove.inserted_iff (hsize : IsOpSize size) :
    e.Inserted size v c base c' ↔
      c' = base.setZmmBytes e.reg 0 16
        (splice (c.zmm e.reg) (size * e.index size) size (storeLE v)) := by
  obtain ⟨hpos, hle, hwhole⟩ : 0 < size ∧ size ≤ 8 ∧ size * (16 / size) = 16 := by
    rcases hsize with rfl | rfl | rfl | rfl <;> decide
  have hlow (b : Buf) {l : Nat} (hl : l < 16 / size) :
      (base.setZmmBytes e.reg 0 16 b).element size e.reg l = Buf.element size b l := by
    apply element_congr hle
    intro j hj
    apply Cpu.zmm_setZmmBytes_low
    have hend := Nat.mul_le_mul_left size (Nat.succ_le_of_lt hl)
    rw [hwhole, Nat.mul_succ] at hend
    omega
  constructor
  · rintro ⟨⟨b, rfl⟩, helements⟩
    apply Cpu.setZmmBytes_congr
    rw [← hwhole]
    refine (elements_eq_iff hpos hle _).mp fun l hl => ?_
    rw [← hlow b hl, helements l hl, element_splice hle, element_storeLE hle]
    rfl
  · rintro rfl
    refine ⟨⟨_, rfl⟩, fun l hl => ?_⟩
    rw [hlow _ hl, element_splice hle, element_storeLE hle]
    rfl

/-- Two insertions agree when their elements do. -/
theorem ElementMove.inserted_congr_iff (hsize : IsOpSize size) :
    (∀ c', e.Inserted size v c base c' ↔ e.Inserted size v' c base c') ↔
      v.setWidth (8 * size) = v'.setWidth (8 * size) := by
  constructor
  · intro h
    have hself : e.Inserted size v c base _ := (ElementMove.inserted_iff hsize).mpr rfl
    have hin : e.index size < 16 / size := by
      apply Nat.mod_lt
      rcases hsize with rfl | rfl | rfl | rfl <;> decide
    have hleft := hself.2 _ hin
    have hright := ((h _).mp hself).2 _ hin
    rw [if_pos rfl] at hleft hright
    exact hleft.symm.trans hright
  · intro h c'
    unfold ElementMove.Inserted
    rw [h]

end Insertion

/-! ### The handlers -/

section Handlers

variable {e : ElementMove} {i : Insn} {fp : HostFp} {size : Nat}

theorem toNat_and_low (x : U8) {k : Nat} (hk : k ≤ 8) :
    (x &&& BitVec.ofNat 8 (2 ^ k - 1)).toNat = x.toNat % 2 ^ k := by
  have hpow : 2 ^ k ≤ 2 ^ 8 := Nat.pow_le_pow_right Nat.two_pos hk
  have hpos := Nat.two_pow_pos k
  rw [BitVec.toNat_and, BitVec.toNat_ofNat, Nat.mod_eq_of_lt (by omega),
    Nat.and_two_pow_sub_one_eq_mod]

theorem run_extract (h : DecodedMove e i) (hop : e.op = .extract size) :
    i.run fp = (sse4Io.read i (makeXmm e.reg) 16 >>= fun s =>
      writeOperand i (e.named size) size ((Buf.element size s (e.index size)).setWidth 64)) := by
  obtain ⟨hhandler, himm, hoperands⟩ := h
  rw [ElementMove.Operands, hop] at hoperands
  obtain ⟨hsize, hopSize, hdst, hsrc⟩ := hoperands
  rw [hop] at hhandler
  rw [Insn.run, hhandler, ← hsrc, ← hdst, ElementMove.index, ← himm]
  rcases hsize with rfl | rfl | rfl | rfl
  · have hrun : opPextrb i = (sse4Io.read i i.src 16 >>= fun s => writeOperand i i.dst i.opSize
        ((s (imm8 i &&& BitVec.ofNat 8 (2 ^ 4 - 1)).toNat).setWidth 64)) := rfl
    refine hrun.trans (bind_congr fun s => ?_)
    rw [hopSize, toNat_and_low _ (by decide), element_one]
    rfl
  · have hrun : opPextrw i = (sse4Io.read i i.src 16 >>= fun s => writeOperand i i.dst i.opSize
        ((laneU16 s (imm8 i &&& BitVec.ofNat 8 (2 ^ 3 - 1)).toNat).setWidth 64)) := rfl
    refine hrun.trans (bind_congr fun s => ?_)
    rw [hopSize, toNat_and_low _ (by decide), element_two]
    rfl
  · have hrun : opPextrd i = (sse4Io.read i i.src 16 >>= fun s => writeOperand i i.dst 4
        ((laneU32 s (imm8 i &&& BitVec.ofNat 8 (2 ^ 2 - 1)).toNat).setWidth 64)) := rfl
    refine hrun.trans (bind_congr fun s => ?_)
    rw [toNat_and_low _ (by decide), element_four]
    rfl
  · have hrun : opPextrq i = (sse4Io.read i i.src 16 >>= fun s => writeOperand i i.dst 8
        (laneU64 s (imm8 i &&& BitVec.ofNat 8 (2 ^ 1 - 1)).toNat)) := rfl
    refine hrun.trans (bind_congr fun s => ?_)
    rw [toNat_and_low _ (by decide), element_eight, BitVec.setWidth_eq]
    rfl

theorem run_insert (h : DecodedMove e i) (hop : e.op = .insert size) :
    i.run fp = (sse4Io.read i (makeXmm e.reg) 16 >>= fun d =>
      readOperand i (e.named size) size >>= fun v =>
      sse4Io.write i (makeXmm e.reg) 16 (splice d (size * e.index size) size (storeLE v))) := by
  obtain ⟨hhandler, himm, hoperands⟩ := h
  rw [ElementMove.Operands, hop] at hoperands
  obtain ⟨hsize, hne, hdst, hsrc⟩ := hoperands
  rw [hop] at hhandler
  rw [Insn.run, hhandler, ← hsrc, ← hdst, ElementMove.index, ← himm]
  have hrun (size : Nat) (k : Nat) (hk : k ≤ 8) (hlanes : 2 ^ k = 16 / size) :
      insertElement size (BitVec.ofNat 8 (2 ^ k - 1)) i =
        (sse4Io.read i i.dst 16 >>= fun d => readOperand i i.src size >>= fun v =>
          sse4Io.write i i.dst 16
            (splice d (size * ((imm8 i).toNat % (16 / size))) size (storeLE v))) := by
    rw [← hlanes, ← toNat_and_low _ hk]
    rfl
  rcases hsize with rfl | rfl | rfl | rfl
  · exact hrun 1 4 (by decide) (by decide)
  · exact absurd rfl hne
  · exact hrun 4 2 (by decide) (by decide)
  · exact hrun 8 1 (by decide) (by decide)

theorem run_insertps (h : DecodedMove e i) (hop : e.op = .insertps) :
    i.run fp = xmmBinary sse4Io (fun insn => insertps (imm8 insn)) i := by
  rw [Insn.run, h.handler, hop]
  rfl

/-- The doublewords that the handler stores. -/
theorem element_insertps (imm : U8) (d s : Buf) {l : Nat} (hl : l < 4) :
    Buf.element 4 (insertps imm d s) l =
      if imm.getLsbD l then 0 else if l = (imm.toNat / 16) % 4 then Buf.element 4 s (imm.toNat / 64)
      else Buf.element 4 d l := by
  have hbit : bitAt (imm.setWidth 64) l = imm.getLsbD l := by
    rw [bitAt_eq, BitVec.getLsbD_setWidth, decide_eq_true (by omega), Bool.true_and]
  have hdst : ((imm >>> 4) &&& 3).toNat = (imm.toNat / 16) % 4 := by
    rw [show (3 : U8) = BitVec.ofNat 8 (2 ^ 2 - 1) from rfl, toNat_and_low _ (by decide),
      BitVec.toNat_ushiftRight, Nat.shiftRight_eq_div_pow]
    rfl
  have hsrc : (imm >>> 6).toNat = imm.toNat / 64 := by
    rw [BitVec.toNat_ushiftRight, Nat.shiftRight_eq_div_pow]
  refine (element_packU32 _ l).trans ?_
  rw [hbit, hdst, hsrc, element_four, element_four]

end Handlers

/-! ### Where they agree -/

section Agreement

variable {e : ElementMove} {i : Insn} {fp : HostFp} {size : Nat} {σ : Type} {at_ : Attached σ}
  {c c' : Cpu} {w w' : World σ}

/-- Two descriptions of the one end of a run. -/
theorem ends_law_iff {p : H Unit} {c₁ : Cpu} {w₁ : World σ}
    (hends : p.EndsIn at_ c w (some ()) c₁ w₁) {R : Cpu → Prop} :
    (∀ c' w', p.EndsIn at_ c w (some ()) c' w' ↔ R c' ∧ w' = w₁) ↔ ∀ c', R c' ↔ c' = c₁ := by
  constructor
  · intro h c'
    constructor
    · intro hR
      exact (((h c' w₁).mpr ⟨hR, rfl⟩).unique hends).2.1
    · rintro rfl
      exact ((h _ _).mp hends).1
  · intro h c' w'
    rw [h]
    constructor
    · intro hends'
      obtain ⟨_, hc, hw⟩ := hends'.unique hends
      exact ⟨hc, hw⟩
    · rintro ⟨rfl, rfl⟩
      exact hends

theorem eq_iff_eq_iff {α : Type} {a b : α} : (∀ x, x = a ↔ x = b) ↔ a = b := by
  constructor
  · exact fun h => (h a).mp rfl
  · rintro rfl x
    exact Iff.rfl

theorem named_of_register (hmod : e.m.mod = 3) (size : Nat) :
    (e.named size).kind = .reg ∧ (e.named size).reg = byteAwareReg e.px e.px.rexB e.m.rm size := by
  rw [ElementMove.named, if_pos hmod]
  exact ⟨rfl, rfl⟩

theorem named_of_memory (hmod : e.m.mod ≠ 3) (size : Nat) : e.named size = e.rm := by
  rw [ElementMove.named, if_neg hmod]

theorem byteAwareReg_high (hsize : size = 1) (hhigh : e.HighByte) (hrm : e.m.rm ≤ 7) :
    byteAwareReg e.px e.px.rexB e.m.rm size = 16 + (e.m.rm - 4) := by
  subst hsize
  rw [byteAwareReg, hhigh.1, decide_eq_true hhigh.2, decide_eq_true hrm]
  rfl

theorem byteAwareReg_low (h : ¬ (size = 1 ∧ e.HighByte)) :
    byteAwareReg e.px e.px.rexB e.m.rm size = e.rmReg := by
  rw [byteAwareReg, if_neg]
  · rfl
  · rw [Bool.and_eq_true, Bool.and_eq_true, Bool.and_eq_true, beq_iff_eq, Bool.not_eq_true',
      decide_eq_true_iff, decide_eq_true_iff]
    rintro ⟨⟨hsize, hrex⟩, hrm, _⟩
    exact h ⟨hsize, hrex, hrm⟩

theorem rmReg_lt (e : ElementMove) : e.rmReg < 16 := by
  have hmod := Nat.mod_lt e.m.rm (show 0 < 8 by decide)
  rw [ElementMove.rmReg, combineReg]
  split <;> omega

/-- The high bytes are those of registers below the one that the code names. -/
theorem rmReg_ne_high (hhigh : e.HighByte) (hrm : e.m.rm ≤ 7) : e.m.rm - 4 ≠ e.rmReg := by
  have hrm4 := hhigh.2
  rw [ElementMove.rmReg, combineReg, Nat.mod_eq_of_lt (by omega)]
  split <;> omega

theorem extracted_masked (hsize : IsOpSize size) (c : Cpu) :
    e.extracted size c &&& maskFor size = e.extracted size c := by
  apply BitVec.eq_of_getLsbD_eq
  intro k hk
  rw [getLsbD_and_maskFor size hsize, ElementMove.extracted, BitVec.getLsbD_setWidth]
  by_cases hin : k < 8 * size
  · rw [decide_eq_true hin, Bool.and_true]
  · rw [BitVec.getLsbD_of_ge _ _ (Nat.le_of_not_lt hin), Bool.and_false, Bool.false_and]

/-- The register written by the rules for its aliases is the zero-extended one. -/
theorem extracted_register_iff (hsize : IsOpSize size) (hrm : e.m.rm ≤ 7) :
    c.setR e.rmReg (e.extracted size c) =
        c.writeGpr (byteAwareReg e.px e.px.rexB e.m.rm size) size (e.extracted size c) ↔
      (size < 4 → if size = 1 ∧ e.HighByte then
          (c.r (e.m.rm - 4) >>> 8).setWidth 8 = c.element 1 e.reg (e.index 1) ∧
            c.r e.rmReg = e.extracted 1 c
        else c.r e.rmReg >>> (8 * size) = 0#64) := by
  have hmasked := extracted_masked (e := e) hsize c
  by_cases hhigh : size = 1 ∧ e.HighByte
  · obtain ⟨rfl, hhigh⟩ := hhigh
    have halias : isHighByte (16 + (e.m.rm - 4)) 1 := ⟨rfl, by omega, by omega⟩
    have hindex : aliasIndex (16 + (e.m.rm - 4)) 1 = e.m.rm - 4 := by
      rw [aliasIndex, if_pos halias, Nat.add_sub_cancel_left]
    have hself := secondByte_eq_iff (c.element 1 e.reg (e.index 1)) (c.r (e.m.rm - 4))
    rw [byteAwareReg_high rfl hhigh hrm, eq_comm, Cpu.writeGpr_eq c _ hsize, hindex,
      Cpu.setR_eq_setR_ne_iff c (rmReg_ne_high hhigh hrm), aliasRest, if_neg (by decide), merge_self,
      aliasMask, aliasShift, if_pos halias, ElementMove.extracted, hself, if_pos ⟨rfl, hhigh⟩]
    exact ⟨fun h _ => h, fun h => h (by decide)⟩
  · have hreg := rmReg_lt e
    have halias : ¬ isHighByte e.rmReg size := fun h => absurd h.2.1 (by omega)
    rw [byteAwareReg_low hhigh, if_neg hhigh, Cpu.writeGpr_eq c _ hsize, aliasIndex, if_neg halias,
      Cpu.setR_eq_setR_iff, aliasMask, aliasShift, if_neg halias, BitVec.shiftLeft_zero,
      BitVec.shiftLeft_zero, aliasRest, eq_comm]
    by_cases hfour : size = 4
    · subst hfour
      rw [if_pos rfl, BitVec.zero_or, hmasked]
      exact ⟨fun _ h => absurd h (by decide), fun _ => rfl⟩
    · rw [if_neg hfour, merge_low_iff hsize hmasked]
      constructor
      · exact fun h _ => h
      · intro h
        rcases hsize with rfl | rfl | rfl | rfl
        · exact h (by decide)
        · exact h (by decide)
        · exact absurd rfl hfour
        · exact BitVec.eq_of_toNat_eq (by
            rw [BitVec.toNat_ushiftRight, Nat.shiftRight_eq_div_pow, Nat.div_eq_of_lt (c.r _).isLt]
            rfl)

theorem extract_law_iff (h : DecodedMove e i) (hop : e.op = .extract size) (hrm : e.m.rm ≤ 7)
    (hmem : e.m.mod ≠ 3 → e.rm.isMem = true) :
    MoveLaw fp e i at_ c w ↔ e.Right i at_ c w := by
  have hsize : IsOpSize size := by
    have hoperands := h.operands
    rw [ElementMove.Operands, hop] at hoperands
    exact hoperands.1
  have hrun : ∀ c' w', (i.run fp).EndsIn at_ c w (some ()) c' w' ↔
      (writeOperand i (e.named size) size (e.extracted size c)).EndsIn at_ c w (some ()) c' w' := by
    intro c' w'
    rw [run_extract h hop, sse4Io.read_xmm i rfl, (endsIn_gets _).bind_iff]
    exact Iff.rfl
  rw [MoveLaw, ElementMove.Right, hop]
  simp only [hrun, ElementMove.Extracts]
  by_cases hmod : e.m.mod = 3
  · obtain ⟨hkind, hreg⟩ := named_of_register (e := e) hmod size
    have hends : (writeOperand i (e.named size) size (e.extracted size c)).EndsIn at_ c w (some ())
        _ w := writeOperand_of_reg hkind hsize (e.extracted size c)
    simp only [if_pos hmod]
    rw [ends_law_iff hends, eq_iff_eq_iff, hreg, extracted_register_iff hsize hrm]
    exact ⟨fun h _ => h, fun h => h hmod⟩
  · simp only [if_neg hmod, named_of_memory hmod size]
    exact ⟨fun _ hreg => absurd hreg hmod, fun _ c' w' => writeOperand_mem_iff (hmem hmod)⟩

/-- An insertion ends where the splice of what its operand reads as does. -/
theorem ends_insert_iff (h : DecodedMove e i) (hop : e.op = .insert size) (hsize : IsOpSize size) :
    (i.run fp).EndsIn at_ c w (some ()) c' w' ↔
      ∃ v c₁, (readOperand i (e.named size) size).EndsIn at_ c w (some v) c₁ w' ∧
        e.Inserted size v c c₁ c' := by
  have hwrite {v : U64} {c₁ : Cpu} {w₁ : World σ} :
      (sse4Io.write i (makeXmm e.reg) 16 (splice (c.zmm e.reg) (size * e.index size) size
        (storeLE v))).EndsIn at_ c₁ w₁ (some ()) c' w' ↔ e.Inserted size v c c₁ c' ∧ w' = w₁ := by
    rw [sse4Io.write_xmm i rfl, ElementMove.inserted_iff hsize]
    constructor
    · intro hends
      obtain ⟨_, hc, hw⟩ := hends.unique (endsIn_modify _)
      exact ⟨hc, hw⟩
    · rintro ⟨rfl, rfl⟩
      exact endsIn_modify _
  rw [run_insert h hop, sse4Io.read_xmm i rfl, (endsIn_gets _).bind_iff]
  constructor
  · intro hends
    obtain ⟨v, c₁, w₁, hread, hends⟩ := hends.of_bind
    obtain ⟨hinserted, rfl⟩ := hwrite.mp hends
    exact ⟨v, c₁, hread, hinserted⟩
  · rintro ⟨v, c₁, hread, hinserted⟩
    exact hread.bind_iff.mpr (hwrite.mpr ⟨hinserted, rfl⟩)

/-- What the register forms read, as far as it is inserted. -/
theorem setWidth_readGpr_iff (hsize : IsOpSize size) (hrm : e.m.rm ≤ 7) :
    (c.r e.rmReg).setWidth (8 * size) =
        (c.readGpr (byteAwareReg e.px e.px.rexB e.m.rm size) size).setWidth (8 * size) ↔
      (size = 1 → e.HighByte → (c.r (e.m.rm - 4) >>> 8).setWidth 8 = (c.r e.rmReg).setWidth 8) := by
  have hlow (x : U64) : (x &&& maskFor size).setWidth (8 * size) = x.setWidth (8 * size) := by
    apply BitVec.eq_of_getLsbD_eq
    intro k hk
    rw [BitVec.getLsbD_setWidth, BitVec.getLsbD_setWidth, getLsbD_and_maskFor size hsize,
      decide_eq_true hk, Bool.and_true]
  rw [Cpu.readGpr_eq, hlow]
  by_cases hhigh : size = 1 ∧ e.HighByte
  · obtain ⟨rfl, hhigh⟩ := hhigh
    have halias : isHighByte (16 + (e.m.rm - 4)) 1 := ⟨rfl, by omega, by omega⟩
    rw [byteAwareReg_high rfl hhigh hrm, aliasIndex, aliasShift, if_pos halias, if_pos halias,
      Nat.add_sub_cancel_left, eq_comm]
    exact ⟨fun h _ _ => h, fun h => h rfl hhigh⟩
  · have hreg := rmReg_lt e
    have halias : ¬ isHighByte e.rmReg size := fun h => absurd h.2.1 (by omega)
    rw [byteAwareReg_low hhigh, aliasIndex, aliasShift, if_neg halias, if_neg halias,
      BitVec.ushiftRight_zero]
    exact ⟨fun _ hone h => absurd ⟨hone, h⟩ hhigh, fun _ => rfl⟩

theorem insert_law_iff (h : DecodedMove e i) (hop : e.op = .insert size) (hrm : e.m.rm ≤ 7)
    (hmem : e.m.mod ≠ 3 → e.rm.isMem = true) :
    MoveLaw fp e i at_ c w ↔ e.Right i at_ c w := by
  have hsize : IsOpSize size := by
    have hoperands := h.operands
    rw [ElementMove.Operands, hop] at hoperands
    exact hoperands.1
  rw [MoveLaw, ElementMove.Right, hop]
  simp only [ends_insert_iff h hop hsize, ElementMove.Inserts]
  by_cases hmod : e.m.mod = 3
  · obtain ⟨hkind, hreg⟩ := named_of_register (e := e) hmod size
    have hread : (readOperand i (e.named size) size).EndsIn at_ c w
        (some (c.readGpr (e.named size).reg size)) c w := readOperand_of_reg hkind
    rw [hreg] at hread
    have hends (c' : Cpu) (w' : World σ) :
        (∃ v c₁, (readOperand i (e.named size) size).EndsIn at_ c w (some v) c₁ w' ∧
            e.Inserted size v c c₁ c') ↔
          e.Inserted size (c.readGpr (byteAwareReg e.px e.px.rexB e.m.rm size) size) c c c' ∧
            w' = w := by
      constructor
      · rintro ⟨v, c₁, hread', hinserted⟩
        obtain ⟨hv, rfl, rfl⟩ := hread'.unique hread
        obtain rfl := Option.some.inj hv
        exact ⟨hinserted, rfl⟩
      · rintro ⟨hinserted, rfl⟩
        exact ⟨_, c, hread, hinserted⟩
    simp only [if_pos hmod, hends]
    have hcongr (v v' : U64) : (∀ c', e.Inserted size v c c c' ↔ e.Inserted size v' c c c') ↔
        v.setWidth (8 * size) = v'.setWidth (8 * size) := ElementMove.inserted_congr_iff hsize
    rw [← setWidth_readGpr_iff hsize hrm, ← hcongr]
    constructor
    · intro hlaw _ c'
      have hlaw' := hlaw c' w
      simpa using hlaw'.symm
    · intro hcongr c' w'
      rw [hcongr hmod c']
  · simp only [if_neg hmod, named_of_memory hmod size, readOperand_mem_iff (hmem hmod)]
    refine ⟨fun _ hreg => absurd hreg hmod, fun _ c' w' => ?_⟩
    constructor
    · rintro ⟨v, _, ⟨hmiss, hread, rfl⟩, hinserted⟩
      exact ⟨v, hmiss, hread, hinserted⟩
    · rintro ⟨v, hmiss, hread, hinserted⟩
      exact ⟨v, _, ⟨hmiss, hread, rfl⟩, hinserted⟩

theorem insertedSingle_iff {v : U32} {b : Buf} :
    e.InsertedSingle v c (c.setZmmBytes e.reg 0 16 b) ↔
      ∀ l < 4, Buf.element 4 b l =
        if e.imm.getLsbD l then 0 else if l = (e.imm.toNat / 16) % 4 then v
        else c.element 4 e.reg l := by
  have hlow {l : Nat} (hl : l < 4) :
      (c.setZmmBytes e.reg 0 16 b).element 4 e.reg l = Buf.element 4 b l := by
    apply element_congr (by decide)
    intro j hj
    exact Cpu.zmm_setZmmBytes_low _ _ _ _ (by omega)
  constructor
  · intro h l hl
    rw [← hlow hl]
    exact h.2 l hl
  · intro h
    refine ⟨⟨b, rfl⟩, fun l hl => ?_⟩
    rw [hlow hl]
    exact h l hl

/-- What the handler stores is the insertion of `v` where `v` is the doubleword that it selects, or
the zero mask clears it. -/
theorem insertedSingle_insertps_iff {v : U32} {s : Buf} :
    e.InsertedSingle v c (c.setZmmBytes e.reg 0 16 (insertps e.imm (c.zmm e.reg) s)) ↔
      e.imm.getLsbD ((e.imm.toNat / 16) % 4) = true ∨
        Buf.element 4 s (e.imm.toNat / 64) = v := by
  have hlane : (e.imm.toNat / 16) % 4 < 4 := Nat.mod_lt _ (by decide)
  rw [insertedSingle_iff]
  constructor
  · intro h
    have hl := h _ hlane
    rw [element_insertps e.imm _ s hlane, if_pos rfl, if_pos rfl] at hl
    cases hzero : e.imm.getLsbD ((e.imm.toNat / 16) % 4) with
    | true => exact .inl rfl
    | false =>
        rw [hzero] at hl
        exact .inr hl
  · intro h l hl
    rw [element_insertps e.imm _ s hl]
    split
    next => rfl
    next hkept =>
      split
      next heq =>
        rcases h with hzero | hv
        · exact absurd (heq ▸ hzero) hkept
        · exact hv
      next => rfl

theorem ends_insertps_mem_iff (h : DecodedMove e i) (hop : e.op = .insertps) (hmod : e.m.mod ≠ 3)
    (hmem : e.rm.isMem = true) :
    (i.run fp).EndsIn at_ c w (some ()) c' w' ↔
      ∃ buf, at_.env (.read (ea c i e.rm) 16) w = ((.ok buf : Except Status Buf), w') ∧
        c' = c.setZmmBytes e.reg 0 16 (insertps e.imm (c.zmm e.reg) buf) := by
  have hoperands := h.operands
  rw [ElementMove.Operands, hop] at hoperands
  obtain ⟨hdst, hsrc⟩ := hoperands
  rw [ElementMove.vectorNamed, if_neg hmod] at hsrc
  have hkind : i.dst.kind = .xmm := by rw [hdst]; rfl
  have hends {buf : Buf} {w₁ : World σ}
      (hread : at_.env (.read (ea c i e.rm) 16) w = ((.ok buf : Except Status Buf), w₁)) :
      (i.run fp).EndsIn at_ c w (some ())
        (c.setZmmBytes e.reg 0 16 (insertps e.imm (c.zmm e.reg) buf)) w₁ := by
    have hvec : i.ReadsVec i.src 16 at_ c w buf w₁ := by
      rw [hsrc]
      exact .inr ⟨hmem, hread⟩
    have hstep := xmmBinary_ends hkind hvec sse4Io fun insn => insertps (imm8 insn)
    rw [← run_insertps h hop, h.imm, hdst] at hstep
    exact hstep
  constructor
  · intro hrun
    have hfirst := hrun
    rw [run_insertps h hop, xmmBinary, sse4Io.read_xmm i hkind, (endsIn_gets _).bind_iff, hsrc,
      sse4Io.read_mem hmem] at hfirst
    obtain ⟨buf, c₁, w₁, hread, _⟩ := hfirst.of_bind
    rw [(endsIn_gets _).bind_iff, requireAttached_bind_iff, (endsIn_gets _).bind_iff,
      ← bind_pure (load _ _ _ _), load_bind_iff] at hread
    obtain ⟨_, buf', w₂, hread, _⟩ := hread
    obtain ⟨_, hc, rfl⟩ := hrun.unique (hends hread)
    exact ⟨buf', hread, hc⟩
  · rintro ⟨buf, hread, rfl⟩
    exact hends hread

theorem insertps_law_iff {Inv : σ → Prop} {mem : σ → ByteMap} (hrep : at_.Represents Inv mem)
    (hinv : Inv w.mem) (h : DecodedMove e i) (hop : e.op = .insertps)
    (hmem : e.m.mod ≠ 3 → e.rm.isMem = true) :
    MoveLaw fp e i at_ c w ↔ e.Right i at_ c w := by
  rw [MoveLaw, ElementMove.Right, hop]
  dsimp only
  by_cases hmod : e.m.mod = 3
  · have hoperands := h.operands
    rw [ElementMove.Operands, hop] at hoperands
    obtain ⟨hdst, hsrc⟩ := hoperands
    rw [ElementMove.vectorNamed, if_pos hmod] at hsrc
    have hkind : i.dst.kind = .xmm := by rw [hdst]; rfl
    have hvec : i.ReadsVec i.src 16 at_ c w (c.zmm e.rmReg) w := by
      rw [hsrc]
      exact .inl ⟨rfl, rfl, rfl⟩
    have hstep := xmmBinary_ends hkind hvec sse4Io fun insn => insertps (imm8 insn)
    rw [← run_insertps h hop, h.imm, hdst] at hstep
    rw [if_pos hmod]
    exact ⟨fun _ hnot => absurd hmod hnot,
      fun _ => ⟨_, hstep, insertedSingle_insertps_iff.mpr (.inr rfl)⟩⟩
  · rw [if_neg hmod]
    have hsame {v : U64} {w₁ w₂ : World σ} {buf : Buf} (hread : at_.Reads (ea c i e.rm) 4 w v w₁)
        (hbuf : at_.env (.read (ea c i e.rm) 16) w = ((.ok buf : Except Status Buf), w₂)) :
        v.setWidth 32 = Buf.element 4 buf 0 := by
      have hv := (hread.numberAt hrep hinv (by decide)).1
      have hb := (at_.stored_of_ok hrep hinv (by decide) hbuf).1
      refine (element_storeLE (show 4 ≤ 8 by decide) v).symm.trans
        (element_congr (by decide) fun k hk => ?_)
      rw [Nat.mul_zero, Nat.zero_add]
      exact Option.some.inj ((hv k hk).symm.trans (hb k (by omega)))
    constructor
    · intro hlaw _ v w₁ hread
      obtain ⟨c', w', hends, hinserted⟩ := hlaw v w₁ hread
      obtain ⟨buf, hbuf, rfl⟩ := (ends_insertps_mem_iff h hop hmod (hmem hmod)).mp hends
      rw [insertedSingle_insertps_iff, hsame hread hbuf] at hinserted
      exact ⟨buf, w', hbuf, hinserted⟩
    · intro hright v w₁ hread
      obtain ⟨buf, w', hbuf, hinserted⟩ := hright hmod v w₁ hread
      refine ⟨_, w', (ends_insertps_mem_iff h hop hmod (hmem hmod)).mpr ⟨buf, hbuf, rfl⟩, ?_⟩
      rw [insertedSingle_insertps_iff, hsame hread hbuf]
      exact hinserted

/-- Extraction undoes insertion. -/
theorem extracted_of_inserted {e' : ElementMove} (hsize : IsOpSize size) (hreg : e'.reg = e.reg)
    (hindex : e'.index size = e.index size) {v : U64} {base : Cpu}
    (h : e.Inserted size v c base c') : e'.extracted size c' = v &&& maskFor size := by
  have hin : e.index size < 16 / size := by
    apply Nat.mod_lt
    rcases hsize with rfl | rfl | rfl | rfl <;> decide
  rw [ElementMove.extracted, hreg, hindex, h.2 _ hin, if_pos rfl]
  apply BitVec.eq_of_getLsbD_eq
  intro k hk
  rw [BitVec.getLsbD_setWidth, BitVec.getLsbD_setWidth, getLsbD_and_maskFor size hsize,
    decide_eq_true hk, Bool.true_and, Bool.and_comm]

end Agreement

/-- An accepted insertion or extraction does what its bytes say exactly from the states that are
right for its form; and in every case an element just inserted is what an extraction from the same
place takes. -/
theorem element_moves_iff (fp : HostFp) {fetch : Fetch} {rip : GuestAddr} {fuel : Nat}
    {e : ElementMove} {p end_ op mb : U8} {i : Insn}
    (hbytes : ElementMoveAt fetch fuel e p end_ op mb)
    (hdecode : decodeWithSource fetch rip fuel = some (.ok i)) {σ : Type} {at_ : Attached σ}
    {Inv : σ → Prop} {mem : σ → ByteMap} (hrep : at_.Represents Inv mem) (c : Cpu) {w : World σ}
    (hinv : Inv w.mem) :
    (MoveLaw fp e i at_ c w ↔ e.Right i at_ c w) ∧
    ∀ size, e.op = .insert size → ∀ e' : ElementMove, e'.reg = e.reg →
      e'.index size = e.index size → ∀ c' w', (i.run fp).EndsIn at_ c w (some ()) c' w' →
        ∃ v c₁, (readOperand i i.src size).EndsIn at_ c w (some v) c₁ w' ∧
          e'.extracted size c' = v := by
  have h := hbytes.decoded hdecode
  have hrm : e.m.rm ≤ 7 := by
    rw [hbytes.modrm]
    exact Nat.le_of_lt_succ (splitModrm_rm_lt mb)
  have hmem : e.m.mod ≠ 3 → e.rm.isMem = true := by
    intro hmod
    obtain ⟨bs, hyields, _⟩ := Parse.run_eq_ok.mp hbytes.operand
    exact decodeRmOperand_isMem hmod 8 bs e.rm hyields
  constructor
  · cases hop : e.op with
    | extract size => exact extract_law_iff h hop hrm hmem
    | insert size => exact insert_law_iff h hop hrm hmem
    | insertps => exact insertps_law_iff hrep hinv h hop hmem
  · intro size hop e' hreg hindex c' w' hends
    have hoperands := h.operands
    rw [ElementMove.Operands, hop] at hoperands
    obtain ⟨hsize, _, _, hsrc⟩ := hoperands
    obtain ⟨v, c₁, hread, hinserted⟩ := (ends_insert_iff h hop hsize).mp hends
    have hrel : (e.named size).kind ≠ .rel := by
      by_cases hmod : e.m.mod = 3
      · rw [(named_of_register hmod size).1]
        exact OperandKind.noConfusion
      · have hm := hmem hmod
        rw [named_of_memory hmod]
        intro hkind
        rw [Operand.isMem, hkind] at hm
        cases hm
    rw [hsrc]
    refine ⟨v, c₁, hread, ?_⟩
    rw [extracted_of_inserted hsize hreg hindex hinserted]
    exact readOperand_masked hsize hrel hread

/-! ### Two encodings -/

/-- `pextrb eax, xmm0, 0`. -/
def pextrbMove : ElementMove where
  op := .extract 1
  px := { opsizePfx := true }
  m := splitModrm 0xC0
  rm := makeReg Reg.rax
  imm := 0

def pextrbInsn : Insn :=
  { handler := .opPextrb, kind := .pextrb, opSize := 1, len := 6, cond := .none
    flags := { opsizePfx := true }, dst := makeReg Reg.rax, src := makeXmm 0 }

theorem pextrbMove_at : ElementMoveAt (codeAt [0x66, 0x0F, 0x3A, 0x14, 0xC0, 0x00]) 8 pextrbMove
    1 5 0x14 0xC0 where
  scan := rfl
  legacy := rfl
  mandatory := rfl
  bytes := ⟨rfl, rfl, rfl, rfl, trivial⟩
  row := rfl
  modrm := rfl
  operand := rfl
  imm := rfl

theorem pextrbInsn_decoded : decodeWithSource (codeAt [0x66, 0x0F, 0x3A, 0x14, 0xC0, 0x00]) 0 8 =
    some (.ok pextrbInsn) := rfl

theorem element_moves_iff_pextrb :
    MoveLaw default pextrbMove pextrbInsn flatMachine {} { mem := fun _ => 0 } ↔
      pextrbMove.Right pextrbInsn flatMachine {} { mem := fun _ => 0 } :=
  (element_moves_iff default pextrbMove_at pextrbInsn_decoded flatMachine_represents {} trivial).1

/-- Only the lowest byte of RAX is written. -/
theorem pextrb_keeps_upper :
    decodeWithSource (codeAt [0x66, 0x0F, 0x3A, 0x14, 0xC0, 0x00]) 0 8 = some (.ok pextrbInsn) ∧
    ¬ MoveLaw default pextrbMove pextrbInsn flatMachine (({} : Cpu).setR Reg.rax 0x100)
      { mem := fun _ => 0 } := by
  refine ⟨rfl, fun hlaw => ?_⟩
  have hright := (extract_law_iff (pextrbMove_at.decoded pextrbInsn_decoded) rfl (by decide)
    (fun hmod => absurd rfl hmod)).mp hlaw
  exact absurd (hright rfl (by decide)) (by decide)

end PicoCpu
