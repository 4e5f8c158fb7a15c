import PicoCpu.BitInstructions
import PicoCpu.ElementMoves
import PicoCpu.Lib.ElementStrings

/-!
The packed string compares with equal-any and equal-each aggregation: what the strings of the map
66 0F 3A say, what the handlers make of them, and on which contents and lengths the two agree.
-/

namespace PicoCpu

open H Proc Handlers Decode ElementStrings

/-! ### The strings -/

/-- What a string says: where the lengths come from, whether the result is an index or a mask, and the
operands; `rm` is the operand that the mode and rm fields name at 64 bits. -/
structure StringCompare where
  explicit : Bool
  index : Bool
  px : Prefixes
  m : ModRm
  rm : Operand
  imm : U8

/-- The rows of the map. -/
def stringCompare (op : U8) : Option (Bool × Bool) :=
  match op.toNat with
  | 0x60 => some (true, false)
  | 0x61 => some (true, true)
  | 0x62 => some (false, false)
  | 0x63 => some (false, true)
  | _ => none

namespace StringCompare

variable (s : StringCompare)

def handler : Handler :=
  if s.explicit then if s.index then .opPcmpestri else .opPcmpestrm
  else if s.index then .opPcmpistri else .opPcmpistrm

/-- The register of the first string. -/
def reg : Nat := combineReg s.px.rexR s.m.reg

/-- The same bytes as the decoding of element moves takes them. -/
def move : ElementMove := ⟨.insertps, s.px, s.m, s.rm, s.imm⟩

end StringCompare

/-- The bytes of a string compare follow the prefixes. -/
structure StringCompareAt (fetch : Fetch) (fuel : Nat) (s : StringCompare) (at_ end_ op mb : U8) :
    Prop where
  scan : scanPrefixes fetch fuel 0 {} = some (.ok (s.px, at_))
  legacy : s.px.isVex = false
  mandatory : s.px.opsizePfx = true
  bytes : Parse.Holds fetch at_ [0x0F, 0x3A, op, mb]
  row : stringCompare op = some (s.explicit, s.index)
  modrm : s.m = splitModrm mb
  operand : (decodeRmOperand s.px s.m 8).run fetch (at_ + 1 + 1 + 1 + 1) = .ok (s.rm, end_)
  imm : fetch end_ = .ok s.imm

/-! ### Decoding -/

/-- What the decoder makes of the string. -/
structure DecodedCompare (s : StringCompare) (i : Insn) : Prop where
  handler : i.handler = s.handler
  imm : imm8 i = s.imm
  dst : i.dst = makeXmm s.reg

section Decoding

variable {fetch : Fetch} {s : StringCompare} {p end_ mb op : U8} {out i : Insn} {rest : U8}

/-- A row of the map behind a 66. -/
theorem decode0F3A_compare (hmandatory : s.px.opsizePfx = true) (hop : fetch p = .ok op)
    (hrow : stringCompare op = some (s.explicit, s.index))
    (htail : s.move.Tail fetch (p + 1) end_ mb)
    (hrun : (decode0F3A s.px out).run fetch p = .ok (i, rest)) : DecodedCompare s i := by
  have hnone := Prefixes.noMandatory_of_opsizePfx hmandatory
  rw [decode0F3A, readByte, Parse.symbol_bind, Parse.run, hop] at hrun
  simp only [hmandatory, hnone, Bool.false_and, Bool.not_true] at hrun
  have hdecoded {kind : OpKind} {handler : Handler} (hhandler : handler = s.handler)
      (h : (withImm8 (decodeXmmRm s.px out kind handler)).run fetch (p + 1) = .ok (i, rest)) :
      DecodedCompare s i := by
    obtain ⟨imm, hback, hq⟩ :=
      run_withImm8 (e := s.move) (run_decodeXmmRm htail kind handler) htail.imm
    rw [show s.move.px = s.px from rfl, h] at hq
    cases hq
    exact ⟨hhandler, hback, rfl⟩
  unfold stringCompare at hrow
  split at hrow
  next hn =>
    obtain rfl := eq_ofNat_of_toNat hn
    obtain ⟨hexplicit, hindex⟩ := Prod.mk.inj (Option.some.inj hrow)
    exact hdecoded (by rw [StringCompare.handler, ← hexplicit, ← hindex]; rfl) hrun
  next hn =>
    obtain rfl := eq_ofNat_of_toNat hn
    obtain ⟨hexplicit, hindex⟩ := Prod.mk.inj (Option.some.inj hrow)
    exact hdecoded (by rw [StringCompare.handler, ← hexplicit, ← hindex]; rfl) hrun
  next hn =>
    obtain rfl := eq_ofNat_of_toNat hn
    obtain ⟨hexplicit, hindex⟩ := Prod.mk.inj (Option.some.inj hrow)
    exact hdecoded (by rw [StringCompare.handler, ← hexplicit, ← hindex]; rfl) hrun
  next hn =>
    obtain rfl := eq_ofNat_of_toNat hn
    obtain ⟨hexplicit, hindex⟩ := Prod.mk.inj (Option.some.inj hrow)
    exact hdecoded (by rw [StringCompare.handler, ← hexplicit, ← hindex]; rfl) hrun
  next => cases hrow

theorem StringCompareAt.decoded {rip : GuestAddr} {fuel : Nat}
    (h : StringCompareAt fetch fuel s p end_ op mb)
    (hdecode : decodeWithSource fetch rip fuel = some (.ok i)) : DecodedCompare s i := by
  obtain ⟨hescape, hmap, hop, hmb, _⟩ := h.bytes
  rw [decodeWithSource, h.scan] at hdecode
  dsimp only at hdecode
  rw [decodeAfterPrefixes, h.legacy, if_neg Bool.false_ne_true, decodePrimary_escape _ _ hescape,
    decodeTwoByte_0F3A _ _ hmap] at hdecode
  split at hdecode
  · cases hdecode
  · rename_i out rest hrun
    have hcompare := decode0F3A_compare h.mandatory hop h.row ⟨hmb, h.modrm, h.operand, h.imm⟩ hrun
    cases hdecode
    exact ⟨hcompare.handler, hcompare.imm, hcompare.dst⟩

end Decoding

/-! ### The law -/

namespace StringCompare

variable (s : StringCompare)

def word : Bool := s.imm.getLsbD 0

/-- The number of elements of a register. -/
def count : Nat := if s.word then 8 else 16

def aggregation : Aggregation := if s.imm.getLsbD 3 then .equalEach else .equalAny

def polarity : Polarity :=
  if s.imm.getLsbD 4 then if s.imm.getLsbD 5 then .maskedNegative else .negative else .positive

/-- The greatest index instead of the least, whole elements instead of bits. -/
def alternate : Bool := s.imm.getLsbD 6

def element (b : Buf) (j : Nat) : U16 := if s.word then laneU16 b j else (b j).setWidth 16

/-- A length register, whose sign does not count; REX.W takes all of it. -/
def signedLength (v : U64) : Int := if s.px.rexW then v.toInt else (v.setWidth 32).toInt

def explicitLength (v : U64) : Nat := min (s.signedLength v).natAbs s.count

/-- Up to the first null element. -/
def implicitLength (b : Buf) : Nat := leastIndex s.count fun j => s.element b j == 0

def firstLength (a : Buf) (c : Cpu) : Nat :=
  if s.explicit then s.explicitLength (c.r Reg.rax) else s.implicitLength a

def secondLength (b : Buf) (c : Cpu) : Nat :=
  if s.explicit then s.explicitLength (c.r Reg.rdx) else s.implicitLength b

/-- The elements selected. -/
def selected (a b : Buf) (c : Cpu) (j : Nat) : Bool :=
  selects (s.element a) (s.element b) (s.firstLength a c) (s.secondLength b c) s.aggregation
    s.polarity j

/-- The mask holds the selection, in its low bits or as whole elements. -/
def Masks (v : Buf) (sel : Nat → Bool) : Prop :=
  if s.alternate then ∀ j < 16, v j = if sel (if s.word then j / 2 else j) then 0xFF else 0
  else ∀ l < 128, (v (l / 8)).getLsbD (l % 8) = (decide (l < s.count) && sel l)

/-- The index is in ECX, or the mask in XMM0, and besides the flags nothing else has changed. -/
def Output (sel : Nat → Bool) (c c' : Cpu) : Prop :=
  if s.index then c'.unflagged = (c.setR Reg.rcx (BitVec.ofNat 64
    (if s.alternate then greatestIndex s.count sel else leastIndex s.count sel))).unflagged
  else ∃ v, c'.unflagged = (c.setZmmBytes 0 0 16 v).unflagged ∧ s.Masks v sel

end StringCompare

/-- What a string compare does with the strings `a` and `b`. -/
structure CompareLaw (s : StringCompare) (a b : Buf) (c c' : Cpu) : Prop where
  output : s.Output (s.selected a b c) c c'
  flags : c'.arith =
    { cf := (List.range s.count).any (s.selected a b c), pf := false, af := false
      zf := decide (s.secondLength b c < s.count), sf := decide (s.firstLength a c < s.count)
      of := s.selected a b c 0 }

/-! ### The exact condition -/

namespace StringCompare

variable (s : StringCompare)

/-- The low 32 bits of a length register, without a sign, stand for its length. -/
def LengthRight (v : U64) : Prop :=
  (0 ≤ s.signedLength v ∧ s.signedLength v < s.count) ∨
    (s.count ≤ (s.signedLength v).natAbs ∧ s.count ≤ (v.setWidth 32).toNat)

instance (v : U64) : Decidable (s.LengthRight v) := inferInstanceAs (Decidable (_ ∨ _))

/-- The elements that the result depends on: all in a mask; for an index the first element, and those
that no selected element precedes. -/
def Matters (sel : Nat → Bool) (j : Nat) : Prop :=
  s.index = true → j = 0 ∨
    if s.alternate then ∀ i < s.count, j < i → sel i = false else ∀ i < j, sel i = false

/-- The contents and lengths from which the compare is right. -/
structure Right (a b : Buf) (c : Cpu) : Prop where
  lengths : s.explicit = true → s.LengthRight (c.r Reg.rax) ∧ s.LengthRight (c.r Reg.rdx)
  elements : ∀ j < s.count, s.Matters (s.selected a b c) j →
    PlaceRight (s.element a) (s.element b) (s.firstLength a c) (s.secondLength b c) s.aggregation
      s.polarity j
  carry : s.word = true → s.polarity = .negative → ∃ j < s.count, s.selected a b c j = true

end StringCompare

/-! ### What the handlers do -/

namespace StringCompare

/-- The lengths as the handlers take them. -/
def takenFirst (s : StringCompare) (a : Buf) (c : Cpu) : Nat :=
  if s.explicit then (strCtrl s.imm).explicitLen (c.r32 Reg.rax) else (strCtrl s.imm).implicitLen a

def takenSecond (s : StringCompare) (b : Buf) (c : Cpu) : Nat :=
  if s.explicit then (strCtrl s.imm).explicitLen (c.r32 Reg.rdx) else (strCtrl s.imm).implicitLen b

/-- The mask as the handlers compute it. -/
def takenMask (s : StringCompare) (a b : Buf) (c : Cpu) : U16 :=
  (strCtrl s.imm).mask a b (s.takenFirst a c) (s.takenSecond b c)

/-- The registers written. -/
def written (s : StringCompare) (a b : Buf) (c : Cpu) : Cpu :=
  if s.index then c.setR64 Reg.rcx (BitVec.ofNat 64 ((strCtrl s.imm).index (s.takenMask a b c)))
  else c.setZmmBytes 0 0 16 ((strCtrl s.imm).expand (s.takenMask a b c))

def after (s : StringCompare) (a b : Buf) (c : Cpu) : Cpu :=
  strFlags (strCtrl s.imm) (s.takenMask a b c) (s.takenFirst a c) (s.takenSecond b c)
    (s.written a b c)

theorem callHandler_handler (fp : HostFp) (s : StringCompare) (i : Insn) :
    callHandler fp s.handler i = pcmpstrCore s.explicit s.index i := by
  unfold handler
  cases s.explicit <;> cases s.index <;> rfl

end StringCompare

section Handlers

variable {σ : Type} {at_ : Attached σ} {c : Cpu} {w w' : World σ} {s : StringCompare} {i : Insn}
  {b : Buf}

theorem DecodedCompare.ends (h : DecodedCompare s i) (fp : HostFp)
    (hread : i.ReadsVec i.src 16 at_ c w b w') :
    (i.run fp).EndsIn at_ c w (some ()) (s.after (c.zmm s.reg) b c) w' := by
  have hkind : i.dst.kind = .xmm := by
    rw [h.dst]
    rfl
  have hreg : i.dst.reg = s.reg := by
    rw [h.dst]
    rfl
  rw [Insn.run, h.handler, s.callHandler_handler, pcmpstrCore, sse4Io.read_xmm i hkind, hreg,
    (endsIn_gets _).bind_iff, (sse4Io.read_ends hread).bind_iff, h.imm]
  refine (endsIn_gets _).bind ?_
  rw [StringCompare.after, StringCompare.written, StringCompare.takenMask,
    StringCompare.takenFirst, StringCompare.takenSecond]
  cases s.explicit <;> cases s.index <;> exact (endsIn_modify _).bind (endsIn_modify _)

theorem arith_strFlags (k : StrCtrl) (m : U16) (lenA lenB : Nat) (c : Cpu) :
    (strFlags k m lenA lenB c).arith =
      { cf := m != 0, pf := false, af := false, zf := decide (lenB < k.lanes)
        sf := decide (lenA < k.lanes), of := m.getLsbD 0 } := by
  rw [strFlags, Cpu.arith_setAf, Cpu.arith_setPf, Cpu.arith_setOf, Cpu.arith_setSf, Cpu.arith_setZf,
    Cpu.arith_setCf]

theorem unflagged_strFlags (k : StrCtrl) (m : U16) (lenA lenB : Nat) (c : Cpu) :
    (strFlags k m lenA lenB c).unflagged = c.unflagged := by
  rw [strFlags, Cpu.setAf, Cpu.unflagged_setFlag, Cpu.setPf, Cpu.unflagged_setFlag, Cpu.setOf,
    Cpu.unflagged_setFlag, Cpu.setSf, Cpu.unflagged_setFlag, Cpu.setZf, Cpu.unflagged_setFlag,
    Cpu.setCf, Cpu.unflagged_setFlag, Cpu.unflagged_syncFlags]

end Handlers

/-! ### The control byte -/

namespace StringCompare

section Control

/-- The fields of the control byte that the two aggregations use. -/
theorem strCtrl_bits : ∀ imm : U8,
    (strCtrl imm).isWord = imm.getLsbD 0 ∧ (strCtrl imm).bit6 = imm.getLsbD 6 ∧
    (imm.getLsbD 2 = false → (strCtrl imm).aggMode ≠ 1) ∧
    ((strCtrl imm).polarity = 1 ↔ imm.getLsbD 4 = true ∧ imm.getLsbD 5 = false) := by
  decide +kernel

variable (s : StringCompare)

theorem isWord_strCtrl : (strCtrl s.imm).isWord = s.word := (strCtrl_bits s.imm).1

theorem bit6_strCtrl : (strCtrl s.imm).bit6 = s.alternate := (strCtrl_bits s.imm).2.1

theorem lanes_strCtrl : (strCtrl s.imm).lanes = s.count := by
  rw [StrCtrl.lanes, isWord_strCtrl, count]

theorem lane_strCtrl (b : Buf) (j : Nat) : (strCtrl s.imm).lane b j = s.element b j := by
  rw [StrCtrl.lane, isWord_strCtrl, element]

theorem polarity_strCtrl : (strCtrl s.imm).polarity = 1 ↔ s.polarity = .negative := by
  rw [(strCtrl_bits s.imm).2.2.2, polarity]
  cases s.imm.getLsbD 4 <;> cases s.imm.getLsbD 5 <;> decide

theorem count_cases : s.count = 8 ∨ s.count = 16 := by
  unfold count
  split
  · exact .inl rfl
  · exact .inr rfl

theorem count_bounds : 0 < s.count ∧ s.count ≤ 16 := by
  have hcount := count_cases s
  omega

/-! ### Lengths -/

theorem implicitLen_strCtrl (b : Buf) : (strCtrl s.imm).implicitLen b = s.implicitLength b := by
  simp only [StrCtrl.implicitLen, implicitLength, leastIndex, lanes_strCtrl,
    lane_strCtrl]

/-- A length read without its sign. -/
theorem explicitLen_low (v : U64) :
    (strCtrl s.imm).explicitLen (v &&& 0xFFFFFFFF) = min (v.setWidth 32).toNat s.count := by
  have hlow : (v &&& 0xFFFFFFFF).toNat = (v.setWidth 32).toNat := by
    rw [BitVec.toNat_and, BitVec.toNat_setWidth]
    exact Nat.and_two_pow_sub_one_eq_mod _ 32
  rw [StrCtrl.explicitLen, lanes_strCtrl, hlow]
  split <;> omega

/-- The flag of a length is right exactly where the length is. -/
theorem explicitLen_iff (v : U64) :
    (decide ((strCtrl s.imm).explicitLen (v &&& 0xFFFFFFFF) < s.count) =
      decide (s.explicitLength v < s.count)) ↔ s.LengthRight v := by
  have hv := v.isLt
  have hwidth : (v.setWidth 32).toNat = v.toNat % 2 ^ 32 := BitVec.toNat_setWidth 32 v
  have hcount := count_cases s
  rw [explicitLen_low, explicitLength, LengthRight, decide_eq_decide,
    signedLength]
  split
  · rw [BitVec.toInt_eq_toNat_cond, hwidth]
    split <;> omega
  · rw [BitVec.toInt_eq_toNat_cond, hwidth]
    split <;> omega

theorem explicitLen_of_right {v : U64} (h : s.LengthRight v) :
    (strCtrl s.imm).explicitLen (v &&& 0xFFFFFFFF) = s.explicitLength v := by
  have hv := v.isLt
  have hwidth : (v.setWidth 32).toNat = v.toNat % 2 ^ 32 := BitVec.toNat_setWidth 32 v
  have hcount := count_cases s
  rw [explicitLen_low, explicitLength]
  rw [LengthRight, signedLength, hwidth] at h
  rw [signedLength, hwidth]
  split at h
  next hw =>
    rw [if_pos hw]
    rw [BitVec.toInt_eq_toNat_cond] at h ⊢
    split at h <;> omega
  next hw =>
    rw [if_neg hw]
    rw [BitVec.toInt_eq_toNat_cond, hwidth] at h ⊢
    split at h <;> omega

end Control

/-! ### Masks -/

section Masks

theorem getLsbD_maskWhere (k : StrCtrl) (p : Nat → Bool) (j : Nat) :
    (k.maskWhere p).getLsbD j = (decide (j < k.lanes) && p j) := by
  have hlanes : k.lanes ≤ 16 := by
    unfold StrCtrl.lanes
    split <;> omega
  have hzero : (0 : U16).getLsbD j = false := BitVec.getLsbD_zero
  rw [StrCtrl.maskWhere, getLsbD_foldl_or p hlanes, hzero, Bool.false_or]

variable {s : StringCompare} (hmode : s.imm.getLsbD 2 = false) (a b : Buf) (m n : Nat)
include hmode

/-- Elements are compared place by place, and all sixteen bits negated or none. -/
theorem getLsbD_mask (j : Nat) : ((strCtrl s.imm).mask a b m n).getLsbD j =
    if s.polarity = .negative then decide (j < 16) && !(decide (j < s.count) &&
      samePlace (s.element a) (s.element b) m n j)
    else decide (j < s.count) && samePlace (s.element a) (s.element b) m n j := by
  have hbeq (x y : U16) : (x == y) = decide (x = y) := beq_eq_decide x y
  have haggregate : ((strCtrl s.imm).aggregate a b m n).getLsbD j =
      (decide (j < s.count) && samePlace (s.element a) (s.element b) m n j) := by
    rw [StrCtrl.aggregate, if_neg ((strCtrl_bits s.imm).2.2.1 hmode), getLsbD_maskWhere,
      lanes_strCtrl]
    simp only [lane_strCtrl, hbeq]
    rfl
  rw [StrCtrl.mask]
  by_cases hpolarity : s.polarity = .negative
  · rw [if_pos ((polarity_strCtrl s).mpr hpolarity), if_pos hpolarity, BitVec.getLsbD_not, haggregate]
  · rw [if_neg fun h => hpolarity ((polarity_strCtrl s).mp h), if_neg hpolarity, haggregate]

theorem getLsbD_mask_element {j : Nat} (hj : j < s.count) :
    ((strCtrl s.imm).mask a b m n).getLsbD j =
      placeSelects (s.element a) (s.element b) m n s.polarity j := by
  have h16 : j < 16 := hj.trans_le (count_bounds s).2
  rw [getLsbD_mask hmode, placeSelects, decide_eq_true hj, decide_eq_true h16, Bool.true_and,
    Bool.true_and]

/-- A negated mask of words has its upper half set. -/
theorem mask_ne_zero_iff : ((strCtrl s.imm).mask a b m n != 0) = true ↔
    (s.word = true ∧ s.polarity = .negative) ∨
      ∃ j < s.count, ((strCtrl s.imm).mask a b m n).getLsbD j = true := by
  have hnonzero : ((strCtrl s.imm).mask a b m n != 0) = true ↔
      ∃ j < 16, ((strCtrl s.imm).mask a b m n).getLsbD j = true := by
    have hclear (j : Nat) : (0 : U16).getLsbD j = false := BitVec.getLsbD_zero
    rw [bne_iff_ne, ne_eq, ← not_iff_not, not_not]
    constructor
    · rintro hzero ⟨j, _, hbit⟩
      rw [hzero, hclear] at hbit
      cases hbit
    · intro hnone
      apply BitVec.eq_of_getLsbD_eq
      intro j hj
      rw [hclear, Bool.eq_false_iff]
      exact fun hbit => hnone ⟨j, hj, hbit⟩
  have hcount := (count_bounds s).2
  rw [hnonzero]
  constructor
  · rintro ⟨j, hj, hbit⟩
    by_cases hlt : j < s.count
    · exact .inr ⟨j, hlt, hbit⟩
    · have hword : s.word = true := by
        by_contra hbyte
        rw [count, if_neg hbyte] at hlt
        exact hlt hj
      refine .inl ⟨hword, ?_⟩
      by_contra hpolarity
      rw [getLsbD_mask hmode, if_neg hpolarity, decide_eq_false hlt] at hbit
      cases hbit
  · rintro (⟨hword, hpolarity⟩ | ⟨j, hj, hbit⟩)
    · have hwords : s.count = 8 := if_pos hword
      refine ⟨8, by omega, ?_⟩
      rw [getLsbD_mask hmode, if_pos hpolarity, hwords]
      rfl
    · exact ⟨j, hj.trans_le hcount, hbit⟩

end Masks

/-! ### Results -/

section Results

variable {s : StringCompare} {c : Cpu} {v : U16} {sel : Nat → Bool}

/-- As whole elements. -/
theorem expand_elements_iff (halternate : s.alternate = true) :
    (∀ j < 16, (strCtrl s.imm).expand v j = if sel (if s.word then j / 2 else j) then 0xFF else 0) ↔
      ∀ j < s.count, v.getLsbD j = sel j := by
  have hones {p q : Bool} : (ones p : U8) = (if q then 0xFF else 0) ↔ p = q := by
    cases p <;> cases q <;> decide
  have hbyte {j : Nat} (hj : j < 16) :
      (strCtrl s.imm).expand v j = (if sel (if s.word then j / 2 else j) then 0xFF else 0) ↔
        v.getLsbD (if s.word then j / 2 else j) = sel (if s.word then j / 2 else j) := by
    rw [StrCtrl.expand, bit6_strCtrl, if_pos halternate, isWord_strCtrl, decide_eq_true hj,
      Bool.and_true]
    exact hones
  constructor
  · intro h j hj
    rw [count] at hj
    cases hword : s.word with
    | true =>
        rw [hword, if_pos rfl] at hj
        have hlane := (hbyte (j := 2 * j) (by omega)).mp (h (2 * j) (by omega))
        rw [hword, if_pos rfl, Nat.mul_div_cancel_left j Nat.two_pos] at hlane
        exact hlane
    | false =>
        rw [hword, if_neg Bool.false_ne_true] at hj
        have hlane := (hbyte hj).mp (h j hj)
        rw [hword, if_neg Bool.false_ne_true] at hlane
        exact hlane
  · intro h j hj
    rw [hbyte hj]
    apply h
    rw [count]
    cases s.word with
    | true =>
        rw [if_pos rfl, if_pos rfl]
        omega
    | false => exact hj

/-- In the low bits. -/
theorem expand_bits_iff (halternate : s.alternate = false) :
    (∀ l < 128, ((strCtrl s.imm).expand v (l / 8)).getLsbD (l % 8) =
      (decide (l < s.count) && sel l)) ↔ ∀ j < s.count, v.getLsbD j = sel j := by
  have hcount := count_cases s
  have hbit {l : Nat} : ((strCtrl s.imm).expand v (l / 8)).getLsbD (l % 8) =
      (decide (l < s.count) && v.getLsbD l) := by
    rw [StrCtrl.expand, bit6_strCtrl, halternate, if_neg Bool.false_ne_true, lanes_strCtrl]
    by_cases hl : l < s.count
    · have hsum : 8 * (l / 8) + l % 8 = l := Nat.div_add_mod l 8
      rw [if_pos (by omega), decide_eq_true hl, Bool.true_and, BitVec.getLsbD_setWidth,
        decide_eq_true (Nat.mod_lt l (by decide)), Bool.true_and, BitVec.getLsbD_ushiftRight, hsum]
    · rw [if_neg (by omega), decide_eq_false hl, Bool.false_and]
      exact BitVec.getLsbD_zero
  constructor
  · intro h j hj
    have hj' := h j (by omega)
    rw [hbit, decide_eq_true hj, Bool.true_and, Bool.true_and] at hj'
    exact hj'
  · intro h l _
    rw [hbit]
    by_cases hl : l < s.count
    · rw [h l hl]
    · rw [decide_eq_false hl, Bool.false_and, Bool.false_and]

theorem expand_masks_iff : s.Masks ((strCtrl s.imm).expand v) sel ↔
    ∀ j < s.count, v.getLsbD j = sel j := by
  rw [Masks]
  cases halternate : s.alternate with
  | true => exact expand_elements_iff halternate
  | false => exact expand_bits_iff halternate

theorem index_strCtrl : (strCtrl s.imm).index v =
    if s.alternate then greatestIndex s.count v.getLsbD else leastIndex s.count v.getLsbD := by
  rw [StrCtrl.index, bit6_strCtrl, lanes_strCtrl]
  cases s.alternate <;> rfl

end Results

/-! ### The agreement -/

section Agreement

variable {s : StringCompare} {a b : Buf} {c : Cpu}

/-- ZF and SF are right exactly where the lengths are. -/
theorem lengths_iff : (decide (s.takenSecond b c < s.count) = decide (s.secondLength b c < s.count) ∧
    decide (s.takenFirst a c < s.count) = decide (s.firstLength a c < s.count)) ↔
    (s.explicit = true → s.LengthRight (c.r Reg.rax) ∧ s.LengthRight (c.r Reg.rdx)) := by
  rw [takenSecond, takenFirst, secondLength,
    firstLength]
  cases s.explicit with
  | false => simp [implicitLen_strCtrl]
  | true =>
      have hrax := explicitLen_iff s (c.r Reg.rax)
      have hrdx := explicitLen_iff s (c.r Reg.rdx)
      simp only [if_true, forall_const]
      rw [← hrax, ← hrdx]
      exact and_comm

theorem lengths_of_right
    (h : s.explicit = true → s.LengthRight (c.r Reg.rax) ∧ s.LengthRight (c.r Reg.rdx)) :
    s.takenFirst a c = s.firstLength a c ∧ s.takenSecond b c = s.secondLength b c := by
  rw [takenSecond, takenFirst, secondLength,
    firstLength]
  cases hexplicit : s.explicit with
  | false => exact ⟨implicitLen_strCtrl s a, implicitLen_strCtrl s b⟩
  | true =>
      obtain ⟨hrax, hrdx⟩ := h hexplicit
      exact ⟨explicitLen_of_right s hrax, explicitLen_of_right s hrdx⟩

theorem unflagged_after : (s.after a b c).unflagged = (s.written a b c).unflagged := by
  rw [after, unflagged_strFlags]

theorem masks_congr {v v' : Buf} (h : ∀ j < 16, v j = v' j) (sel : Nat → Bool) :
    s.Masks v sel ↔ s.Masks v' sel := by
  unfold Masks
  split
  · exact forall₂_congr fun j hj => by rw [h j hj]
  · exact forall₂_congr fun l hl => by rw [h (l / 8) (by omega)]

theorem unflagged_setR64_iff {idx : Nat} {x y : U64} :
    (c.setR64 idx x).unflagged = (c.setR idx y).unflagged ↔ x = y := by
  constructor
  · intro h
    have hread := congrArg (fun d : Cpu => d.r idx) h
    change (c.setR idx x).r idx = (c.setR idx y).r idx at hread
    rw [Cpu.r_setR, Cpu.r_setR] at hread
    exact hread
  · rintro rfl
    rfl

theorem setR_index_iff {n n' : Nat} (hn : n ≤ 16) (hn' : n' ≤ 16) :
    (c.setR64 Reg.rcx (BitVec.ofNat 64 n)).unflagged =
      (c.setR Reg.rcx (BitVec.ofNat 64 n')).unflagged ↔ n = n' := by
  rw [unflagged_setR64_iff, ← BitVec.toNat_inj, BitVec.toNat_ofNat, BitVec.toNat_ofNat,
    Nat.mod_eq_of_lt (by omega), Nat.mod_eq_of_lt (by omega)]

theorem setZmm_masks_iff {v : Buf} {sel : Nat → Bool} :
    (∃ v', (c.setZmmBytes 0 0 16 v).unflagged = (c.setZmmBytes 0 0 16 v').unflagged ∧
      s.Masks v' sel) ↔ s.Masks v sel := by
  constructor
  · rintro ⟨v', hv, hmasks⟩
    refine (masks_congr (fun j hj => ?_) sel).mp hmasks
    have hzmm := congrArg (fun d : Cpu => d.zmm 0 j) hv
    change (c.setZmmBytes 0 0 16 v).zmm 0 j = (c.setZmmBytes 0 0 16 v').zmm 0 j at hzmm
    rw [Cpu.zmm_setZmmBytes_low _ _ _ _ hj, Cpu.zmm_setZmmBytes_low _ _ _ _ hj] at hzmm
    exact hzmm.symm
  · exact fun h => ⟨v, rfl, h⟩

/-! ### What the result depends on -/

theorem matters_of_mask (hindex : s.index = false) (sel : Nat → Bool) (j : Nat) :
    s.Matters sel j := by
  intro h
  rw [hindex] at h
  cases h

theorem matters_greatest_iff (hindex : s.index = true) (halternate : s.alternate = true)
    {sel : Nat → Bool} {j : Nat} :
    s.Matters sel j ↔ j = 0 ∨ ∀ i < s.count, j < i → sel i = false := by
  rw [Matters, hindex, halternate]
  exact ⟨fun h => h rfl, fun h _ => h⟩

theorem matters_least_iff (hindex : s.index = true) (halternate : s.alternate = false)
    {sel : Nat → Bool} {j : Nat} : s.Matters sel j ↔ j = 0 ∨ ∀ i < j, sel i = false := by
  rw [Matters, hindex, halternate]
  exact ⟨fun h => h rfl, fun h _ => h⟩

/-- An index is right with its first element where everything that precedes the first selected element
is; a mask where every element is. -/
theorem output_iff (sel : Nat → Bool) :
    s.Output sel c (s.after a b c) ∧ (s.takenMask a b c).getLsbD 0 = sel 0 ↔
      ∀ j < s.count, s.Matters sel j → (s.takenMask a b c).getLsbD j = sel j := by
  obtain ⟨hpos, hcount⟩ := count_bounds s
  rw [Output, unflagged_after, written]
  cases hindex : s.index with
  | true =>
      rw [if_pos rfl, if_pos rfl, index_strCtrl]
      cases halternate : s.alternate with
      | true =>
          rw [if_pos rfl, if_pos rfl, setR_index_iff ((greatestIndex_le _ _).trans hcount)
            ((greatestIndex_le _ _).trans hcount), greatestIndex_eq_iff]
          simp only [matters_greatest_iff hindex halternate]
          constructor
          · rintro ⟨h, hzero⟩ j hj (rfl | hlast)
            · exact hzero
            · exact h j hj hlast
          · exact fun h => ⟨fun j hj hlast => h j hj (.inr hlast), h 0 hpos (.inl rfl)⟩
      | false =>
          rw [if_neg Bool.false_ne_true, if_neg Bool.false_ne_true,
            setR_index_iff ((leastIndex_le _ _).trans hcount) ((leastIndex_le _ _).trans hcount),
            leastIndex_eq_iff]
          simp only [matters_least_iff hindex halternate]
          constructor
          · rintro ⟨h, hzero⟩ j hj (rfl | hfirst)
            · exact hzero
            · exact h j hj hfirst
          · exact fun h => ⟨fun j hj hfirst => h j hj (.inr hfirst), h 0 hpos (.inl rfl)⟩
  | false =>
      rw [if_neg Bool.false_ne_true, if_neg Bool.false_ne_true, setZmm_masks_iff, expand_masks_iff]
      constructor
      · exact fun h j hj _ => h.1 j hj
      · exact fun h => ⟨fun j hj => h j hj (matters_of_mask hindex sel j),
          h 0 hpos (matters_of_mask hindex sel 0)⟩

/-- Where the elements that matter are right, something is selected exactly where it should be. -/
theorem exists_iff {bits sel : Nat → Bool}
    (h : ∀ j < s.count, s.Matters sel j → bits j = sel j) :
    (∃ j < s.count, bits j = true) ↔ ∃ j < s.count, sel j = true := by
  have hnone {p : Nat → Bool} : (∃ j < s.count, p j = true) ↔ ¬ ∀ j < s.count, p j = false := by
    simp
  rw [hnone, hnone, not_iff_not]
  cases hindex : s.index with
  | true =>
      cases halternate : s.alternate with
      | true =>
          have hmatters (j : Nat) : s.Matters sel j ↔ j = 0 ∨ ∀ i < s.count, j < i → sel i = false :=
            matters_greatest_iff hindex halternate
          rw [← greatestIndex_eq_self_iff, ← greatestIndex_eq_self_iff,
            (greatestIndex_eq_iff s.count bits sel).mpr fun j hj hlast =>
              h j hj ((hmatters j).mpr (.inr hlast))]
      | false =>
          have hmatters (j : Nat) : s.Matters sel j ↔ j = 0 ∨ ∀ i < j, sel i = false :=
            matters_least_iff hindex halternate
          rw [← leastIndex_eq_self_iff, ← leastIndex_eq_self_iff,
            (leastIndex_eq_iff s.count bits sel).mpr fun j hj hfirst =>
              h j hj ((hmatters j).mpr (.inr hfirst))]
  | false => exact forall₂_congr fun j hj => by rw [h j hj (matters_of_mask hindex sel j)]

/-- CF is right but for a negated mask of words without a selected element. -/
theorem carry_iff (hmode : s.imm.getLsbD 2 = false) {sel : Nat → Bool}
    (h : ∀ j < s.count, s.Matters sel j → (s.takenMask a b c).getLsbD j = sel j) :
    (s.takenMask a b c != 0) = (List.range s.count).any sel ↔
      (s.word = true → s.polarity = .negative → ∃ j < s.count, sel j = true) := by
  have hany : (List.range s.count).any sel = true ↔ ∃ j < s.count, sel j = true := by simp
  have hexists := exists_iff h
  rw [Bool.eq_iff_iff, hany, takenMask, mask_ne_zero_iff hmode]
  rw [takenMask] at hexists
  rw [hexists]
  constructor
  · exact fun hiff hword hpolarity => hiff.mp (.inl ⟨hword, hpolarity⟩)
  · intro hcarry
    constructor
    · rintro (⟨hword, hpolarity⟩ | hsel)
      · exact hcarry hword hpolarity
      · exact hsel
    · exact .inr

/-- The handlers do what the string says exactly on the contents and lengths that are right. -/
theorem after_law_iff (hmode : s.imm.getLsbD 2 = false) :
    CompareLaw s a b c (s.after a b c) ↔ s.Right a b c := by
  have hflags : (s.after a b c).arith =
      { cf := s.takenMask a b c != 0, pf := false, af := false
        zf := decide (s.takenSecond b c < s.count), sf := decide (s.takenFirst a c < s.count)
        of := (s.takenMask a b c).getLsbD 0 } := by
    rw [after, arith_strFlags, lanes_strCtrl]
  -- With the right lengths an element is right where comparing by place suffices for it.
  have helement (hlengths : s.explicit = true →
      s.LengthRight (c.r Reg.rax) ∧ s.LengthRight (c.r Reg.rdx)) {j : Nat} (hj : j < s.count) :
      (s.takenMask a b c).getLsbD j = s.selected a b c j ↔
        PlaceRight (s.element a) (s.element b) (s.firstLength a c) (s.secondLength b c)
          s.aggregation s.polarity j := by
    obtain ⟨hfirst, hsecond⟩ := lengths_of_right (a := a) (b := b) hlengths
    rw [takenMask, getLsbD_mask_element hmode _ _ _ _ hj, hfirst, hsecond]
    exact placeSelects_eq_iff ..
  constructor
  · rintro ⟨houtput, hlaw⟩
    rw [hflags, ArithFlags.mk.injEq] at hlaw
    obtain ⟨hcf, _, _, hzf, hsf, hof⟩ := hlaw
    have hlengths := lengths_iff.mp ⟨hzf, hsf⟩
    have hmask := (output_iff _).mp ⟨houtput, hof⟩
    exact ⟨hlengths, fun j hj hmatters => (helement hlengths hj).mp (hmask j hj hmatters),
      (carry_iff hmode hmask).mp hcf⟩
  · rintro ⟨hlengths, helements, hcarry⟩
    have hmask : ∀ j < s.count, s.Matters (s.selected a b c) j →
        (s.takenMask a b c).getLsbD j = s.selected a b c j :=
      fun j hj hmatters => (helement hlengths hj).mpr (helements j hj hmatters)
    obtain ⟨houtput, hof⟩ := (output_iff _).mpr hmask
    obtain ⟨hzf, hsf⟩ := lengths_iff.mpr hlengths
    refine ⟨houtput, ?_⟩
    rw [hflags, (carry_iff hmode hmask).mpr hcarry, hzf, hsf, hof]

end Agreement

end StringCompare

/-- An accepted PCMPESTRI, PCMPESTRM, PCMPISTRI or PCMPISTRM with equal-any or equal-each aggregation
does what its bytes say exactly on the contents and lengths that are right. -/
theorem string_compare_iff (fp : HostFp) {fetch : Fetch} {rip : GuestAddr} {fuel : Nat}
    {s : StringCompare} {p end_ op mb : U8} {i : Insn}
    (hbytes : StringCompareAt fetch fuel s p end_ op mb)
    (hdecode : decodeWithSource fetch rip fuel = some (.ok i)) (hmode : s.imm.getLsbD 2 = false)
    {σ : Type} {at_ : Attached σ} {c : Cpu} {w w' : World σ} {b : Buf}
    (hread : i.ReadsVec i.src 16 at_ c w b w') :
    ∃ c', (i.run fp).EndsIn at_ c w (some ()) c' w' ∧
      (CompareLaw s (c.zmm s.reg) b c c' ↔ s.Right (c.zmm s.reg) b c) :=
  ⟨_, (hbytes.decoded hdecode).ends fp hread, StringCompare.after_law_iff hmode⟩

/-! ### Any element of "ab" in "b" -/

/-- `pcmpistri xmm0, xmm1, 0`. -/
def pcmpistriAny : StringCompare where
  explicit := false
  index := true
  px := { opsizePfx := true }
  m := splitModrm 0xC1
  rm := makeReg Reg.rcx
  imm := 0

def pcmpistriInsn : Insn :=
  { handler := .opPcmpistri, kind := .pcmpistri, opSize := 16, len := 6, cond := .none
    flags := { opsizePfx := true }, dst := makeXmm 0, src := makeXmm 1 }

theorem pcmpistriAny_at : StringCompareAt (codeAt [0x66, 0x0F, 0x3A, 0x63, 0xC1, 0x00]) 8
    pcmpistriAny 1 5 0x63 0xC1 where
  scan := rfl
  legacy := rfl
  mandatory := rfl
  bytes := ⟨rfl, rfl, rfl, rfl, trivial⟩
  row := rfl
  modrm := rfl
  operand := rfl
  imm := rfl

theorem pcmpistriInsn_decoded :
    decodeWithSource (codeAt [0x66, 0x0F, 0x3A, 0x63, 0xC1, 0x00]) 0 8 =
      some (.ok pcmpistriInsn) := rfl

/-- XMM0 holds "ab", XMM1 holds "b". -/
def abInB : Cpu :=
  { zmm := fun idx j => if idx = 0 then [0x61, 0x62].getD j 0 else [0x62].getD j 0 }

theorem pcmpistriInsn_reads : pcmpistriInsn.ReadsVec pcmpistriInsn.src 16
    (⟨none, none, [], []⟩ : Attached Unit) abInB { mem := () } (abInB.zmm 1) { mem := () } :=
  .inl ⟨rfl, rfl, rfl⟩

theorem string_compare_iff_pcmpistri :
    ∃ c', (pcmpistriInsn.run default).EndsIn (⟨none, none, [], []⟩ : Attached Unit) abInB
        { mem := () } (some ()) c' { mem := () } ∧
      (CompareLaw pcmpistriAny (abInB.zmm 0) (abInB.zmm 1) abInB c' ↔
        pcmpistriAny.Right (abInB.zmm 0) (abInB.zmm 1) abInB) :=
  string_compare_iff default pcmpistriAny_at pcmpistriInsn_decoded rfl pcmpistriInsn_reads

/-- The "b" occurs, but not at its own place. -/
theorem pcmpistri_any_by_place :
    decodeWithSource (codeAt [0x66, 0x0F, 0x3A, 0x63, 0xC1, 0x00]) 0 8 =
      some (.ok pcmpistriInsn) ∧
    ∃ c', (pcmpistriInsn.run default).EndsIn (⟨none, none, [], []⟩ : Attached Unit) abInB
        { mem := () } (some ()) c' { mem := () } ∧
      ¬ CompareLaw pcmpistriAny (abInB.zmm 0) (abInB.zmm 1) abInB c' := by
  refine ⟨pcmpistriInsn_decoded, _,
    (pcmpistriAny_at.decoded pcmpistriInsn_decoded).ends default pcmpistriInsn_reads, fun hlaw => ?_⟩
  obtain ⟨-, helements, -⟩ := (StringCompare.after_law_iff rfl).mp hlaw
  have hplace := helements 0 (by decide) fun _ => .inl rfl
  exact absurd (hplace (by decide) ⟨1, by decide, by decide⟩).2 (by decide)

end PicoCpu
