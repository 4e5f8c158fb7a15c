import PicoCpu.Decoder.EntryPoints
import PicoCpu.Decoder.VexMaps

/-!
The operands of EVEX-encoded instructions against their payload bytes: which register each of the
split, inverted fields names, how a short displacement is scaled, and the vector length.
-/

namespace PicoCpu

open Decode

/-! ### The payload -/

/-- What follows the legacy prefixes and the byte 62: three payload bytes, the opcode and the
ModRM byte. -/
structure EvexBytes where
  p1 : U8
  p2 : U8
  p3 : U8
  op : U8
  modrm : U8

/-- The length L'L selects; its last value is reserved. -/
def vectorLengthOf (p3 : U8) : Option Nat :=
  match ((p3 >>> 5) &&& 3).toNat with
  | 0 => some 16
  | 1 => some 32
  | 2 => some 64
  | _ => none

namespace EvexBytes

variable (e : EvexBytes)

def mod : Nat := (splitModrm e.modrm).mod
def reg : Nat := (splitModrm e.modrm).reg
def rm : Nat := (splitModrm e.modrm).rm

/-- The opcode map. -/
def map : Nat := (e.p1 &&& 7).toNat

/-- The value of an inverted bit at weight `w`. -/
def inverted (byte : U8) (n w : Nat) : Nat := if byte.getLsbD n then 0 else w

/-- R'R:reg. -/
def regField : Nat := inverted e.p1 4 16 + inverted e.p1 7 8 + e.reg

/-- V'vvvv, all five bits inverted. -/
def vvvvField : Nat := inverted e.p3 3 16 + (15 - ((e.p2 >>> 3) &&& 0xF).toNat)

/-- XB:rm. -/
def rmField : Nat := inverted e.p1 6 16 + inverted e.p1 5 8 + e.rm

/-- The bit `b`: broadcast, or on a register form the rounding control. -/
def b : Bool := e.p3.getLsbD 4

/-- With `b` on a register form the length is 512 bits. -/
def vectorLength : Option Nat :=
  if e.mod = 3 ∧ e.b = true then some 64 else vectorLengthOf e.p3

/-- A store: the r/m operand is the destination. -/
def isStore : Prop := e.map = 1 ∧ e.op = 0x7F

instance : Decidable e.isStore := inferInstanceAs (Decidable (_ ∧ _))

/-- The instructions without a first source: scatters, moves and square roots. -/
def hasTwoOperands : Prop := e.map = 2 ∨ e.op ∈ evexPairOpcodes

/-- The operand of the ModRM reg field, and that of the r/m field. -/
def regOperand (i : Insn) : Operand := if e.isStore then i.src else i.dst
def rmOperand (i : Insn) : Operand := if e.isStore then i.dst else i.src

/-- The offset past the ModRM byte at which an 8-bit displacement stands. -/
def dispOffset : Nat := if e.rm = 4 then 1 else 0

end EvexBytes

/-- The byte string holds these bytes after `p` legacy prefixes and the byte 62. -/
structure EvexAt (fetch : Fetch) (p : Nat) (e : EvexBytes) : Prop where
  prefixes : PrefixRun fetch p
  bytes : Parse.Holds fetch (BitVec.ofNat 8 p) [0x62, e.p1, e.p2, e.p3, e.op, e.modrm]

/-- The element of an instruction that broadcasts or scatters. -/
def Handler.element : Handler → Option Nat
  | .opVpxord | .opVpandd | .opVpord | .opVpadddEvex | .opVpsubdEvex | .opVaddpsEvex
  | .opVmulpsEvex | .opVsubpsEvex | .opVminpsEvex | .opVdivpsEvex | .opVmaxpsEvex | .opVsqrtpsEvex
  | .opVpscatterdd | .opVpscatterqd | .opVscatterdps | .opVscatterqps => some 4
  | .opVpxorq | .opVpandq | .opVporq | .opVpaddqEvex | .opVpsubqEvex | .opVaddpdEvex
  | .opVmulpdEvex | .opVsubpdEvex | .opVminpdEvex | .opVdivpdEvex | .opVmaxpdEvex | .opVsqrtpdEvex
  | .opVpscatterdq | .opVpscatterqq | .opVscatterdpd | .opVscatterqpd => some 8
  | _ => none

/-- The size of the memory operand: one element where the instruction scatters or broadcasts, else
the vector. -/
def EvexBytes.memorySize (e : EvexBytes) (i : Insn) : Nat :=
  if e.map = 2 ∨ e.b = true then i.handler.element.getD i.opSize else i.opSize

/-- The operands are the ones the payload names. -/
structure EvexLaw (fetch : Fetch) (p : Nat) (e : EvexBytes) (i : Insn) : Prop where
  reg : (e.regOperand i).reg = e.regField
  first : ¬ e.hasTwoOperands → i.dst.index = e.vvvvField
  rm : e.mod = 3 → (e.rmOperand i).reg = e.rmField
  displacement : e.mod = 1 → ∀ d, fetch (BitVec.ofNat 8 (p + 6 + e.dispOffset)) = .ok d →
    (e.rmOperand i).imm = BitVec.ofNat 64 (e.memorySize i) * d.signExtend 64
  length : ∀ n, e.vectorLength = some n → i.opSize = n

/-! ### What the decoder makes of the payload -/

/-- The prefixes after the payload. -/
def evexPrefixes (px : Prefixes) (p1 p2 p3 : U8) : Prefixes :=
  let px := applyVexPp
    { px with
      isVex := true
      isEvex := true
      vexR := p1 &&& 0x80 == 0
      vexX := p1 &&& 0x40 == 0
      vexB := p1 &&& 0x20 == 0
      evexR := p1 &&& 0x10 == 0
      vexMap := (p1 &&& 0x07).toNat
      vexW := p2 &&& 0x80 != 0
      vexVvvv := (~~~(p2 >>> 3) &&& 0x0F).toNat } (p2 &&& 0x3)
  let px := { px with
    evexZ := p3 &&& 0x80 != 0
    evexL2 := p3 &&& 0x40 != 0
    vexL := p3 &&& 0x20 != 0
    evexB := p3 &&& 0x10 != 0
    evexV := p3 &&& 0x08 == 0
    evexAaa := (p3 &&& 0x07).toNat }
  if px.evexV then px else { px with vexVvvv := px.vexVvvv ||| 0x10 }

theorem scanEvex_yields {px px' : Prefixes} {bs : List U8} (h : (scanEvex px).Yields bs px') :
    ∃ p1 p2 p3, bs = [p1, p2, p3] ∧ px' = evexPrefixes px p1 p2 p3 := by
  cases h with
  | next h =>
      cases h with
      | next h =>
          cases h with
          | next h =>
              cases h
              exact ⟨_, _, _, rfl, rfl⟩

/-- The fields of the payload, as the decoder reads them. -/
structure EvexRead (e : EvexBytes) (px : Prefixes) : Prop where
  isVex : px.isVex = true
  isEvex : px.isEvex = true
  map : px.vexMap = e.map
  r : px.vexR = !e.p1.getLsbD 7
  b : px.vexB = !e.p1.getLsbD 5
  r' : px.evexR = !e.p1.getLsbD 4
  l : px.vexL = e.p3.getLsbD 5
  l' : px.evexL2 = e.p3.getLsbD 6
  vvvv : px.vexVvvv =
    (15 - ((e.p2 >>> 3) &&& 0xF).toNat) + (if e.p3.getLsbD 3 then 16 else 0)

theorem masks (v : U8) : (v &&& 0x80 == 0) = !v.getLsbD 7 ∧ (v &&& 0x20 == 0) = !v.getLsbD 5 ∧
    (v &&& 0x10 == 0) = !v.getLsbD 4 ∧ (v &&& 0x20 != 0) = v.getLsbD 5 ∧
      (v &&& 0x40 != 0) = v.getLsbD 6 ∧ (v &&& 0x08 == 0) = !v.getLsbD 3 := by
  revert v
  decide +kernel

theorem vvvv_bits (v : U8) : (~~~(v >>> 3) &&& 0x0F).toNat = 15 - ((v >>> 3) &&& 0xF).toNat ∧
    (~~~(v >>> 3) &&& 0x0F).toNat ||| 0x10 = 15 - ((v >>> 3) &&& 0xF).toNat + 16 := by
  revert v
  decide +kernel

theorem applyVexPp_eq (px : Prefixes) (pp : U8) : ∃ opsizePfx rep repne,
    applyVexPp px pp = { px with opsizePfx, rep, repne } := by
  unfold applyVexPp
  split
  · exact ⟨_, _, _, rfl⟩
  · exact ⟨_, _, _, rfl⟩
  · exact ⟨_, _, _, rfl⟩
  · exact ⟨_, _, _, rfl⟩

theorem evexRead (px : Prefixes) (e : EvexBytes) :
    EvexRead e (evexPrefixes px e.p1 e.p2 e.p3) := by
  obtain ⟨hr, hb, hr', _, _, _⟩ := masks e.p1
  obtain ⟨_, _, _, hl, hl', hv⟩ := masks e.p3
  obtain ⟨hlow, hhigh⟩ := vvvv_bits e.p2
  unfold evexPrefixes
  obtain ⟨opsizePfx, rep, repne, happly⟩ := applyVexPp_eq
    { px with
      isVex := true
      isEvex := true
      vexR := e.p1 &&& 0x80 == 0
      vexX := e.p1 &&& 0x40 == 0
      vexB := e.p1 &&& 0x20 == 0
      evexR := e.p1 &&& 0x10 == 0
      vexMap := (e.p1 &&& 0x07).toNat
      vexW := e.p2 &&& 0x80 != 0
      vexVvvv := (~~~(e.p2 >>> 3) &&& 0x0F).toNat } (e.p2 &&& 0x3)
  simp only [happly, hv]
  cases hbit : e.p3.getLsbD 3 with
  | false => exact ⟨rfl, rfl, rfl, hr, hb, hr', hl, hl', by rw [hbit]; exact hlow⟩
  | true => exact ⟨rfl, rfl, rfl, hr, hb, hr', hl, hl', by rw [hbit]; exact hhigh⟩

theorem evexPrefixes_broadcast (px : Prefixes) (p1 p2 p3 : U8) :
    (evexPrefixes px p1 p2 p3).evexB = p3.getLsbD 4 := by
  have hbit : ∀ v : U8, (v &&& 0x10 != 0) = v.getLsbD 4 := by decide +kernel
  unfold evexPrefixes
  simp only
  split
  · exact hbit p3
  · exact hbit p3

/-- What a clause of the EVEX maps makes of the ModRM byte and the bytes `enc` after it. -/
structure EvexFields (px : Prefixes) (e : EvexBytes) (enc : List U8) (i : Insn) : Prop where
  size : i.opSize = px.evexVectorSize
  reg : (e.regOperand i).reg = evexReg px (splitModrm e.modrm)
  first : ¬ e.hasTwoOperands → i.dst.index = px.vexVvvv
  rm : ∃ op size, (decodeXmmOperand px (splitModrm e.modrm) size).Yields enc op ∧
    (e.rmOperand i).reg = op.reg ∧ (e.rmOperand i).imm = op.imm

section Clauses

variable {px : Prefixes} {out : Insn} {p1 p2 p3 : U8}

theorem evexFields_of_load {e : EvexBytes} (hstore : ¬ e.isStore) {op : Operand} {enc : List U8}
    {i : Insn} {size : Nat} (hyields : (decodeXmmOperand px (splitModrm e.modrm) size).Yields enc op)
    (hsize : i.opSize = px.evexVectorSize) (hreg : i.dst.reg = evexReg px (splitModrm e.modrm))
    (hfirst : ¬ e.hasTwoOperands → i.dst.index = px.vexVvvv)
    (hrm : i.src.reg = op.reg ∧ i.src.imm = op.imm) : EvexFields px e enc i := by
  refine ⟨hsize, ?_, hfirst, op, size, hyields, ?_⟩
  · rw [EvexBytes.regOperand, if_neg hstore]
    exact hreg
  · rw [EvexBytes.rmOperand, if_neg hstore]
    exact hrm

/-- The fields, with the opcode and the ModRM byte read. -/
def Reads (px : Prefixes) (p1 p2 p3 op : U8) (i : Insn) (bs : List U8) : Prop :=
  ∃ modrm enc, bs = modrm :: enc ∧ EvexFields px ⟨p1, p2, p3, op, modrm⟩ enc i

theorem reads_of_pair {kind : OpKind} {h : Handler} {op : U8} (hpair : op ∈ evexPairOpcodes)
    (hop : op ≠ 0x7F) :
    Parse.Post (decodeEvexOpRm px out kind h false) (Reads px p1 p2 p3 op) := by
  rw [decodeEvexOpRm, readModrm_bind]
  refine Parse.post_next fun mb => ?_
  refine Parse.post_bind (Parse.post_yields _) fun rm enc hrm => Parse.post_ret ?_
  refine ⟨mb, enc, by rw [List.append_nil], ?_⟩
  exact evexFields_of_load (fun hstore => hop hstore.2) hrm rfl rfl
    (fun htwo => absurd (.inr hpair) htwo) ⟨rfl, rfl⟩

theorem evexClauses_reads (hmap : px.vexMap = (p1 &&& 7).toNat) :
    EvexClauses px out (Reads px p1 p2 p3) where
  binop h1 op hop kind h _ := by
    rw [decodeEvexOpRmv, readModrm_bind]
    refine Parse.post_next fun mb => ?_
    refine Parse.post_bind (Parse.post_yields _) fun src enc hsrc => Parse.post_ret ?_
    refine ⟨mb, enc, by rw [List.append_nil], ?_⟩
    refine evexFields_of_load (fun hstore => hop ?_) hsrc rfl rfl (fun _ => rfl) ⟨rfl, rfl⟩
    have hop7F : op = 0x7F := hstore.2
    rw [hop7F]
    decide
  load h1 kind h _ := reads_of_pair (by decide) (by decide)
  store h1 kind h _ := by
    rw [decodeEvexOpRm, readModrm_bind]
    refine Parse.post_next fun mb => ?_
    refine Parse.post_bind (Parse.post_yields _) fun rm enc hrm => Parse.post_ret ?_
    refine ⟨mb, enc, by rw [List.append_nil], ?_⟩
    have hstore : (EvexBytes.mk p1 p2 p3 0x7F mb).isStore := ⟨hmap.symm.trans h1, rfl⟩
    have hpair : (0x7F : U8) ∈ evexPairOpcodes := by decide
    refine ⟨rfl, ?_, fun htwo => absurd (.inr hpair) htwo, rm, _, hrm, ?_⟩
    · rw [EvexBytes.regOperand, if_pos hstore]
      rfl
    · rw [EvexBytes.rmOperand, if_pos hstore]
      exact ⟨rfl, rfl⟩
  sqrt h1 kind h _ := reads_of_pair (by decide) (by decide)
  scatter h2 op kind h _ dataLane indexLane := by
    rw [decodeEvexScatter, readModrm_bind]
    refine Parse.post_next fun mb => ?_
    split
    · exact Parse.post_fail
    · rename_i hmod
      refine Parse.post_bind (Parse.post_yields _) fun src enc hsrc => Parse.post_ret ?_
      refine ⟨mb, enc, by rw [List.append_nil], ?_⟩
      have hmap2 : (p1 &&& 7).toNat = 2 := hmap.symm.trans h2
      have hyields : (decodeXmmOperand px (splitModrm mb) px.evexVectorSize).Yields enc src := by
        rw [decodeXmmOperand, if_neg hmod]
        exact hsrc
      refine evexFields_of_load (fun hstore => ?_) hyields rfl rfl
        (fun htwo => absurd (.inl hmap2) htwo) ⟨rfl, rfl⟩
      have hmap1 : (p1 &&& 7).toNat = 1 := hstore.1
      omega

end Clauses

/-- An accepted string with this payload went through the EVEX maps, from its opcode on. -/
theorem evexYields_of_decoded {fetch : Fetch} {rip : GuestAddr} {fuel p : Nat} {i : Insn}
    {e : EvexBytes} (hdecoded : decodeWithSource fetch rip fuel = some (.ok i))
    (hat : EvexAt fetch p e) :
    ∃ px base out bs len, EvexRead e px ∧ px.evexB = e.b ∧ (decodeEvex px base).Yields bs out ∧
      Parse.Holds fetch (BitVec.ofNat 8 (p + 4)) bs ∧ i = { out with len } := by
  obtain ⟨p', bs, hrun, b, out, hb, hyields, hholds, rfl⟩ := answers_of_decodes hdecoded
  obtain rfl := hrun.unique hat.prefixes
  obtain ⟨h62, h1, h2, h3, _⟩ := hat.bytes
  have same {x y : U8} {a : U8} (hx : fetch a = .ok x) (hy : fetch a = .ok y) : x = y :=
    Except.ok.inj (hx.symm.trans hy)
  obtain rfl := same hb h62
  rw [opcodeParser, if_neg (by decide), if_pos rfl, readByte, Parse.symbol_bind] at hyields
  cases hyields with
  | next hyields =>
      obtain ⟨payload, rest, px, rfl, hscan, hafter⟩ := Parse.yields_bind.mp hyields
      obtain ⟨p1, p2, p3, rfl, rfl⟩ := scanEvex_yields hscan
      have hbytes := hholds
      obtain ⟨_, h1', h2', h3', _⟩ := hholds
      obtain rfl := same h1' h1
      obtain rfl := same h2' h2
      obtain rfl := same h3' h3
      have hread := evexRead (recordPrefixes fetch p' 0 {}) e
      rw [decodeAfterPrefixes, if_pos hread.isVex, decodeVex, if_pos hread.isEvex] at hafter
      refine ⟨_, _, out, rest, _, hread, evexPrefixes_broadcast .., hafter, ?_, rfl⟩
      rw [BitVec.ofNat_add]
      exact ((Parse.holds_append [_, e.p1, e.p2, e.p3]).mp hbytes).2

/-- The opcode of a payload is the byte behind it. -/
theorem EvexAt.op_eq {fetch : Fetch} {p : Nat} {e : EvexBytes} (hat : EvexAt fetch p e)
    {op : U8} {bs : List U8} (hholds : Parse.Holds fetch (BitVec.ofNat 8 (p + 4)) (op :: bs)) :
    op = e.op ∧ Parse.Holds fetch (BitVec.ofNat 8 (p + 5)) bs := by
  obtain ⟨_, _, _, _, hop, _⟩ := hat.bytes
  have hoffset : BitVec.ofNat 8 p + 1 + 1 + 1 + 1 = BitVec.ofNat 8 (p + 4) := by
    rw [BitVec.ofNat_add]
    simp only [BitVec.add_assoc]
    rfl
  have hnext : BitVec.ofNat 8 (p + 4) + 1 = BitVec.ofNat 8 (p + 5) := by
    rw [BitVec.ofNat_add, BitVec.ofNat_add p 5, BitVec.add_assoc]
    rfl
  rw [hoffset] at hop
  exact ⟨Except.ok.inj (hholds.1.symm.trans hop), hnext ▸ hholds.2⟩

/-- It was decoded by the clause of its opcode. -/
theorem evexClause_of_decoded {fetch : Fetch} {rip : GuestAddr} {fuel p : Nat} {i : Insn}
    {e : EvexBytes} (hdecoded : decodeWithSource fetch rip fuel = some (.ok i))
    (hat : EvexAt fetch p e) {R : Prefixes → U8 → Insn → List U8 → Prop}
    (hclauses : ∀ px out, EvexRead e px → EvexClauses px out (R px)) :
    ∃ px out bs len, EvexRead e px ∧ px.evexB = e.b ∧ R px e.op out bs ∧
      Parse.Holds fetch (BitVec.ofNat 8 (p + 5)) bs ∧ i = { out with len } := by
  obtain ⟨px, base, out, bs, len, hread, hb, hyields, hholds, rfl⟩ :=
    evexYields_of_decoded hdecoded hat
  obtain ⟨op, rest, rfl, hclause⟩ := (hclauses px base hread).decodes _ _ hyields
  obtain ⟨rfl, hrest⟩ := hat.op_eq hholds
  exact ⟨px, out, rest, len, hread, hb, hclause, hrest, rfl⟩

/-- The ModRM byte of a payload is the one behind its opcode. -/
theorem EvexAt.modrm_eq {fetch : Fetch} {p : Nat} {e : EvexBytes} (hat : EvexAt fetch p e)
    {modrm : U8} {enc : List U8}
    (hholds : Parse.Holds fetch (BitVec.ofNat 8 (p + 5)) (modrm :: enc)) : modrm = e.modrm := by
  obtain ⟨_, _, _, _, _, hmodrm, _⟩ := hat.bytes
  have hoffset : BitVec.ofNat 8 p + 1 + 1 + 1 + 1 + 1 = BitVec.ofNat 8 (p + 5) := by
    rw [BitVec.ofNat_add]
    simp only [BitVec.add_assoc]
    rfl
  rw [hoffset] at hmodrm
  exact Except.ok.inj (hholds.1.symm.trans hmodrm)

/-- An accepted string with this payload: the fields, and the bytes behind the ModRM byte. -/
theorem evexFields_of_decoded {fetch : Fetch} {rip : GuestAddr} {fuel p : Nat} {i : Insn}
    {e : EvexBytes} (hdecoded : decodeWithSource fetch rip fuel = some (.ok i))
    (hat : EvexAt fetch p e) :
    ∃ px enc, EvexRead e px ∧ EvexFields px e enc i ∧
      Parse.Holds fetch (BitVec.ofNat 8 (p + 6)) enc := by
  obtain ⟨px, out, _, _, hread, _, ⟨modrm, enc, rfl, hfields⟩, hholds, rfl⟩ :=
    evexClause_of_decoded hdecoded hat (R := fun px => Reads px e.p1 e.p2 e.p3)
      fun _ _ hread => evexClauses_reads hread.map
  obtain rfl := hat.modrm_eq hholds
  refine ⟨px, enc, hread, ⟨hfields.size, hfields.reg, hfields.first, hfields.rm⟩, ?_⟩
  have hoffset : BitVec.ofNat 8 (p + 5) + 1 = BitVec.ofNat 8 (p + 6) := by
    rw [BitVec.ofNat_add, BitVec.ofNat_add p 6, BitVec.add_assoc]
    rfl
  rw [← hoffset]
  exact hholds.2

/-! ### The law -/

theorem readDisp_one {f : U64 → Operand} (hf : ∀ v, (f v).imm = v) {enc : List U8} {op : Operand}
    (h : (readDisp 1 >>= fun disp => pure (f disp)).Yields enc op) :
    ∃ d, enc = [d] ∧ op.imm = d.signExtend 64 := by
  cases h with
  | next h =>
      cases h
      exact ⟨_, rfl, hf _⟩

/-- An 8-bit displacement is taken as it is. -/
theorem displacement_yields {px : Prefixes} {m : ModRm} (hmod : m.mod = 1) {size : Nat}
    {enc : List U8} {op : Operand} (h : (decodeXmmOperand px m size).Yields enc op) :
    ∃ d, enc[if m.rm = 4 then 1 else 0]? = some d ∧ op.imm = d.signExtend 64 := by
  rw [decodeXmmOperand, if_neg (by omega), decodeRmOperand, if_neg (by omega)] at h
  simp only at h
  rw [if_neg (by omega)] at h
  by_cases hsib : m.rm = 4
  · rw [if_pos hsib] at h ⊢
    cases h with
    | next h =>
        rename_i sib rest
        have hdisp8 : (splitSib sib m.mod px.rexX px.rexB).needsDisp32Base = false := by
          rw [splitSib, hmod]
          exact Bool.and_false _
        have hshort : ¬ (splitSib sib m.mod px.rexX px.rexB).needsDisp32Base = true := by
          rw [hdisp8]
          exact Bool.false_ne_true
        change Parse.Yields (if _ then _ else _) _ _ at h
        rw [if_neg hshort, hmod] at h
        obtain ⟨d, rfl, himm⟩ := readDisp_one (fun _ => rfl) h
        exact ⟨d, rfl, himm⟩
  · rw [if_neg hsib] at h ⊢
    rw [hmod] at h
    obtain ⟨d, rfl, himm⟩ := readDisp_one (fun _ => rfl) h
    exact ⟨d, rfl, himm⟩

theorem register_yields {px : Prefixes} {m : ModRm} (hmod : m.mod = 3) {size : Nat}
    {enc : List U8} {op : Operand} (h : (decodeXmmOperand px m size).Yields enc op) :
    op.reg = combineReg px.rexB m.rm := by
  rw [decodeXmmOperand, if_pos hmod] at h
  cases h
  rfl

/-- A displacement that is scaled by one of the sizes of a memory operand changes unless it is
zero. -/
theorem scaled_eq_iff (d : U8) : ∀ n ∈ [4, 8, 16, 32, 64],
    (d.signExtend 64 = BitVec.ofNat 64 n * d.signExtend 64 ↔ d = 0) := by
  revert d
  decide +kernel

theorem element_mem (h : Handler) : h.element.getD 4 ∈ [4, 8] := by
  cases h with
  | _ => decide

/-- The conditions under which the operands come out right. -/
structure EvexBytes.Faithful (fetch : Fetch) (p : Nat) (e : EvexBytes) : Prop where
  twoOperands : e.hasTwoOperands
  lowRegister : e.mod = 3 → e.p1.getLsbD 6 = true
  noDisplacement : e.mod = 1 → fetch (BitVec.ofNat 8 (p + 6 + e.dispOffset)) = .ok 0
  fullLength : e.mod = 3 → e.b = true → e.p3.getLsbD 6 = true

section Law

variable {fetch : Fetch} {p : Nat} {e : EvexBytes} {px : Prefixes} {enc : List U8} {i : Insn}

theorem EvexRead.size (h : EvexRead e px) : px.evexVectorSize =
    if e.p3.getLsbD 6 then 64 else if e.p3.getLsbD 5 then 32 else 16 := by
  rw [Prefixes.evexVectorSize, h.l', h.l]

theorem memorySize_mem (hread : EvexRead e px) (hfields : EvexFields px e enc i) :
    e.memorySize i ∈ [4, 8, 16, 32, 64] := by
  have hsize : i.opSize ∈ [4, 8, 16, 32, 64] := by
    rw [hfields.size, hread.size]
    split_ifs <;> decide
  rw [EvexBytes.memorySize]
  split
  · have helement := element_mem i.handler
    cases helt : i.handler.element with
    | none => exact hsize
    | some n =>
        rw [helt] at helement
        exact List.mem_append_left [16, 32, 64] helement
  · exact hsize

/-- The register of the reg field is right. -/
theorem EvexFields.reg_eq (hread : EvexRead e px) (hfields : EvexFields px e enc i) :
    (e.regOperand i).reg = e.regField := by
  have hlow : (splitModrm e.modrm).reg < 8 := by
    have hfield : ∀ v : U8, (splitModrm v).reg < 8 := by decide +kernel
    exact hfield e.modrm
  have hext : px.rexR = !e.p1.getLsbD 7 := by rw [Prefixes.rexR, if_pos hread.isVex, hread.r]
  rw [hfields.reg, evexReg, combineReg, hread.r', hext, EvexBytes.regField, EvexBytes.inverted,
    EvexBytes.inverted, EvexBytes.reg, Nat.mod_eq_of_lt hlow]
  rw [← Nat.add_assoc]
  cases e.p1.getLsbD 4 <;> cases e.p1.getLsbD 7 <;> rfl

/-- The first source is always the register sixteen away from the one that is named. -/
theorem EvexFields.first_ne (hread : EvexRead e px) (hfields : EvexFields px e enc i)
    (htwo : ¬ e.hasTwoOperands) : i.dst.index ≠ e.vvvvField := by
  rw [hfields.first htwo, hread.vvvv, EvexBytes.vvvvField, EvexBytes.inverted]
  cases e.p3.getLsbD 3 with
  | false =>
      simp only [Bool.false_eq_true, if_false]
      omega
  | true =>
      simp only [if_true]
      omega

theorem EvexFields.rm_iff (hread : EvexRead e px) (hfields : EvexFields px e enc i)
    (hmod : e.mod = 3) : (e.rmOperand i).reg = e.rmField ↔ e.p1.getLsbD 6 = true := by
  have hlow : (splitModrm e.modrm).rm < 8 := by
    have hfield : ∀ v : U8, (splitModrm v).rm < 8 := by decide +kernel
    exact hfield e.modrm
  obtain ⟨op, size, hyields, hreg, _⟩ := hfields.rm
  have hext : px.rexB = !e.p1.getLsbD 5 := by rw [Prefixes.rexB, if_pos hread.isVex, hread.b]
  rw [hreg, register_yields hmod hyields, combineReg, hext, EvexBytes.rmField, EvexBytes.inverted,
    EvexBytes.inverted, EvexBytes.rm, Nat.mod_eq_of_lt hlow]
  cases e.p1.getLsbD 5 <;> cases e.p1.getLsbD 6 <;> simp

/-- The displacement byte, and what is made of it. -/
theorem EvexFields.displacement (hfields : EvexFields px e enc i)
    (hholds : Parse.Holds fetch (BitVec.ofNat 8 (p + 6)) enc) (hmod : e.mod = 1) :
    ∃ d, fetch (BitVec.ofNat 8 (p + 6 + e.dispOffset)) = .ok d ∧
      (e.rmOperand i).imm = d.signExtend 64 := by
  obtain ⟨op, size, hyields, _, himm⟩ := hfields.rm
  obtain ⟨d, hd, hop⟩ := displacement_yields hmod hyields
  obtain ⟨hlt, hget⟩ := List.getElem?_eq_some_iff.mp hd
  refine ⟨d, ?_, himm.trans hop⟩
  have hbyte := Parse.holds_iff.mp hholds _ hlt
  rw [← BitVec.ofNat_add, hget] at hbyte
  exact hbyte

theorem EvexFields.length_iff (hread : EvexRead e px) (hfields : EvexFields px e enc i) :
    (∀ n, e.vectorLength = some n → i.opSize = n) ↔
      (e.mod = 3 → e.b = true → e.p3.getLsbD 6 = true) := by
  rw [hfields.size, hread.size, EvexBytes.vectorLength]
  by_cases hrounding : e.mod = 3 ∧ e.b = true
  · have hfull : ∀ v : U8, (if v.getLsbD 6 then 64 else if v.getLsbD 5 then 32 else 16) = 64 ↔
        v.getLsbD 6 = true := by decide +kernel
    rw [if_pos hrounding]
    constructor
    · exact fun hlength _ _ => (hfull e.p3).mp (hlength 64 rfl)
    · intro hset n hn
      cases hn
      exact (hfull e.p3).mpr (hset hrounding.1 hrounding.2)
  · have hplain : ∀ v : U8, (vectorLengthOf v).all (fun n =>
        (if v.getLsbD 6 then 64 else if v.getLsbD 5 then 32 else 16) == n) = true := by
      decide +kernel
    rw [if_neg hrounding]
    refine iff_of_true (fun n hn => ?_) fun hmod hb => absurd ⟨hmod, hb⟩ hrounding
    have hlength := hplain e.p3
    rw [show vectorLengthOf e.p3 = some n from hn] at hlength
    exact eq_of_beq hlength

end Law

/-- An accepted EVEX instruction has the operands its payload names exactly where it has no first
source, a register r/m operand has bit X unused, an 8-bit displacement is zero, and a register form
with `b` has L' set. -/
theorem evexLaw_iff (fetch : Fetch) (rip : GuestAddr) (fuel p : Nat) (e : EvexBytes) (i : Insn)
    (hdecoded : decodeWithSource fetch rip fuel = some (.ok i)) (hat : EvexAt fetch p e) :
    EvexLaw fetch p e i ↔ e.Faithful fetch p := by
  obtain ⟨px, enc, hread, hfields, hholds⟩ := evexFields_of_decoded hdecoded hat
  have hscaled (d : U8) := scaled_eq_iff d _ (memorySize_mem hread hfields)
  constructor
  · intro hlaw
    refine ⟨?_, fun hmod => (hfields.rm_iff hread hmod).mp (hlaw.rm hmod), fun hmod => ?_,
      (hfields.length_iff hread).mp hlaw.length⟩
    · by_contra htwo
      exact hfields.first_ne hread htwo (hlaw.first htwo)
    · obtain ⟨d, hd, himm⟩ := hfields.displacement hholds hmod
      have hzero : d = 0 := (hscaled d).mp (himm.symm.trans (hlaw.displacement hmod d hd))
      rw [hd, hzero]
  · intro hfaithful
    refine ⟨hfields.reg_eq hread, fun htwo => absurd hfaithful.twoOperands htwo,
      fun hmod => (hfields.rm_iff hread hmod).mpr (hfaithful.lowRegister hmod), fun hmod d hd => ?_,
      (hfields.length_iff hread).mpr hfaithful.fullLength⟩
    obtain ⟨d', hd', himm⟩ := hfields.displacement hholds hmod
    obtain rfl : d' = d := Except.ok.inj (hd'.symm.trans hd)
    have hzero : d' = 0 := Except.ok.inj (hd'.symm.trans (hfaithful.noDisplacement hmod))
    rw [himm]
    exact (hscaled d').mpr hzero

/-- `vpxord zmm0, zmm1, zmm2` and `vmovdqu32 zmm0, zmm1`. -/
def vpxordBytes : List U8 := [0x62, 0xF1, 0x75, 0x48, 0xEF, 0xC2]
def vmovdqu32Bytes : List U8 := [0x62, 0xF1, 0x7E, 0x48, 0x6F, 0xC1]

theorem evexAt_bufFetch {p1 p2 p3 op modrm : U8} :
    EvexAt (bufFetch (bufOf [0x62, p1, p2, p3, op, modrm]) 6) 0 ⟨p1, p2, p3, op, modrm⟩ where
  prefixes := prefixRun_zero (b := 0x62) rfl (by decide)
  bytes := ⟨rfl, rfl, rfl, rfl, rfl, rfl, trivial⟩

theorem evexLaw_iff_vmovdqu32 :
    EvexLaw (bufFetch (bufOf vmovdqu32Bytes) 6) 0 ⟨0xF1, 0x7E, 0x48, 0x6F, 0xC1⟩
        { handler := .opVmovdqu32, kind := .vmovdqu32, opSize := 64, len := 6, cond := .none
          flags := { rep := true, vex := true }
          dst := { kind := .xmm, reg := 0 }, src := { kind := .xmm, reg := 1 } } ↔
      (EvexBytes.mk 0xF1 0x7E 0x48 0x6F 0xC1).Faithful (bufFetch (bufOf vmovdqu32Bytes) 6) 0 :=
  evexLaw_iff _ 0 1 0 _ _ rfl evexAt_bufFetch

/-- The first source of `vpxord zmm0, zmm1, zmm2` becomes register 17. -/
theorem not_evexLaw_vpxord :
    ¬ ∀ (fetch : Fetch) (rip : GuestAddr) (fuel p : Nat) (e : EvexBytes) (i : Insn),
      decodeWithSource fetch rip fuel = some (.ok i) → EvexAt fetch p e → EvexLaw fetch p e i := by
  intro hall
  have hlaw := hall (bufFetch (bufOf vpxordBytes) 6) 0 1 0 ⟨0xF1, 0x75, 0x48, 0xEF, 0xC2⟩
    { handler := .opVpxord, kind := .vpxord, opSize := 64, len := 6, cond := .none
      flags := { opsizePfx := true, vex := true }
      dst := { kind := .xmm, reg := 0, index := 17 }, src := { kind := .xmm, reg := 2 } }
    rfl evexAt_bufFetch
  have hthree : ¬ (EvexBytes.mk 0xF1 0x75 0x48 0xEF 0xC2).hasTwoOperands := by
    rintro (hmap | hpair)
    · revert hmap
      decide
    · revert hpair
      decide
  have hfirst : (17 : Nat) = 1 := hlaw.first hthree
  cases hfirst

end PicoCpu
