import PicoCpu.Decoder.EntryPoints
import PicoCpu.Decoder.VexMaps
import PicoCpu.Handlers.Gather

/-!
The VEX-encoded gathers against their bytes: the lane sizes that opcode and W select, and the index
register, which the decoder takes from the SIB byte as it takes a general register.
-/

namespace PicoCpu

open Decode Handlers

/-- What follows the legacy prefixes and the byte C4: two payload bytes, the opcode and the ModRM
byte. -/
structure VexBytes where
  p1 : U8
  p2 : U8
  op : U8
  modrm : U8

namespace VexBytes

variable (e : VexBytes)

def rm : Nat := (splitModrm e.modrm).rm

/-- The opcode map. -/
def map : Nat := (e.p1 &&& 0x1F).toNat

/-- The opcodes of the gathers. -/
def isGather : Prop := e.map = 2 ∧ e.op ∈ [0x90, 0x91, 0x92, 0x93]

/-- The register of SIB.index, with the inverted bit X for its fourth bit. -/
def indexRegister (sib : U8) : Nat :=
  ((sib >>> 3) &&& 7).toNat + (if e.p1.getLsbD 6 then 0 else 8)

end VexBytes

/-- The byte string holds these bytes after `p` legacy prefixes and the byte C4. -/
structure VexAt (fetch : Fetch) (p : Nat) (e : VexBytes) : Prop where
  prefixes : PrefixRun fetch p
  bytes : Parse.Holds fetch (BitVec.ofNat 8 p) [0xC4, e.p1, e.p2, e.op, e.modrm]

/-- What the second VEX map makes of a gather. -/
structure Insn.IsGather (i : Insn) : Prop where
  handler : i.handler ∈ gatherHandlers
  data : dataLane i = 4 ∨ dataLane i = 8
  index : indexLane i = 4 ∨ indexLane i = 8
  size : i.opSize = 16 ∨ i.opSize = 32

/-- The lane sizes of a row of the gather table. -/
def gatherRow (row : OpKind × Handler × Nat × Nat) : Bool :=
  gatherHandlers.contains row.2.1 &&
    [(4, 4), (8, 4), (4, 8), (8, 8)].contains (row.2.2.1, row.2.2.2)

/-- A gather with its memory operand, past the ModRM byte. -/
def GatherRead (px : Prefixes) (i : Insn) (bs : List U8) : Prop :=
  i.IsGather ∧ ∃ modrm enc op, bs = modrm :: enc ∧ (splitModrm modrm).mod ≠ 3 ∧
    (decodeRmOperand px (splitModrm modrm) px.vexSize).Yields enc op ∧ i.src.index = op.index

theorem decodeVgather_post (px : Prefixes) (base : Insn) {kind : OpKind} {h : Handler}
    {dataLane indexLane : Nat} (hok : gatherRow (kind, h, dataLane, indexLane) = true) :
    Parse.Post (decodeVgather px base kind h dataLane indexLane) (GatherRead px) := by
  rw [gatherRow, Bool.and_eq_true, List.contains_iff_mem, List.contains_iff_mem] at hok
  rw [decodeVgather, readModrm_bind]
  refine Parse.post_next fun mb => ?_
  split
  · exact Parse.post_fail
  · rename_i hmod
    refine Parse.post_bind (Parse.post_yields _) fun src bs hsrc => Parse.post_ret ?_
    obtain ⟨hdata, hindex⟩ := laneSizes_mem _ hok.2
    have hsize : px.vexSize = 16 ∨ px.vexSize = 32 := by
      rw [Prefixes.vexSize]
      split_ifs
      · exact .inr rfl
      · exact .inl rfl
    exact ⟨⟨hok.1, hdata, hindex, hsize⟩, mb, bs, src, by rw [List.append_nil], hmod, hsrc, rfl⟩

/-- Behind the opcodes of the gathers the second VEX map has gathers only. -/
theorem decodeVexMap2_gather (px : Prefixes) (base : Insn) :
    Parse.Post (decodeVexMap2Bmi px base) fun i bs => ∃ op rest, bs = op :: rest ∧
      (op ∈ [0x90, 0x91, 0x92, 0x93] → GatherRead px i rest) := by
  refine Parse.post_next fun op => ?_
  by_cases hgather : op ∈ [0x90, 0x91, 0x92, 0x93]
  · refine Parse.Post.mono (Q := GatherRead px) ?_ fun i bs hq => ⟨op, bs, rfl, fun _ => hq⟩
    have hother {code : U8} (hcode : code ∉ [0x90, 0x91, 0x92, 0x93]) {c : Bool}
        {q : Decode Insn} : Parse.Arm (Parse.when (op == code && c) q) (GatherRead px) := by
      refine Parse.arm_when fun hc => ?_
      obtain ⟨hop, _⟩ := Bool.and_eq_true_iff.mp hc
      exact absurd (eq_of_beq hop ▸ hgather) hcode
    refine Parse.Arms.firstOf ?_
    refine Parse.arms_cons (Parse.arm_when fun _ => ?_) ?_
    · refine Parse.Arms.firstOf (Parse.arms_cons ?_ (Parse.arms_cons ?_ Parse.arms_nil))
      · refine arm_of_row fun kind h hmem => ?_
        have htable : ∀ o ∈ ([0x90, 0x91, 0x92, 0x93] : List U8), ∀ row ∈ vexMap2SseTable,
            row.1 ≠ o.toNat := by decide
        exact absurd rfl (htable op hgather _ hmem)
      · exact arm_of_laneRows gatherRow rfl fun kind h dataLane indexLane hok =>
          decodeVgather_post px base hok
    iterate 9
      refine Parse.arms_cons (hother (by decide)) ?_
    refine Parse.arms_cons (Parse.arm_when fun hop => ?_) Parse.arms_nil
    have hnot : (0xF3 : U8) ∉ [0x90, 0x91, 0x92, 0x93] := by decide
    exact absurd (eq_of_beq hop ▸ hgather) hnot
  · intro bs i _
    exact ⟨op, bs, rfl, fun hop => absurd hop hgather⟩

/-! ### The payload -/

/-- The prefixes after the payload. -/
def vex3Prefixes (px : Prefixes) (p1 p2 : U8) : Prefixes :=
  applyVexPp
    { px with
      isVex := true
      vexR := p1 &&& 0x80 == 0
      vexX := p1 &&& 0x40 == 0
      vexB := p1 &&& 0x20 == 0
      vexMap := (p1 &&& 0x1F).toNat
      vexW := p2 &&& 0x80 != 0
      vexVvvv := (~~~(p2 >>> 3) &&& 0xF).toNat
      vexL := p2 &&& 0x04 != 0 } (p2 &&& 0x3)

theorem scanVex3_yields {px px' : Prefixes} {bs : List U8} (h : (scanVex3 px).Yields bs px') :
    ∃ p1 p2, bs = [p1, p2] ∧ px' = vex3Prefixes px p1 p2 := by
  cases h with
  | next h =>
      cases h with
      | next h =>
          cases h
          exact ⟨_, _, rfl, rfl⟩

/-- The fields of the payload that a gather is decoded by. -/
structure VexRead (e : VexBytes) (px : Prefixes) : Prop where
  isVex : px.isVex = true
  isEvex : px.isEvex = false
  map : px.vexMap = e.map
  x : px.rexX = !e.p1.getLsbD 6

theorem vexRead {px : Prefixes} (hevex : px.isEvex = false) (e : VexBytes) :
    VexRead e (vex3Prefixes px e.p1 e.p2) := by
  have hbit : ∀ v : U8, (v &&& 0x40 == 0) = !v.getLsbD 6 := by decide +kernel
  unfold vex3Prefixes applyVexPp
  split
  · exact ⟨rfl, hevex, rfl, hbit e.p1⟩
  · exact ⟨rfl, hevex, rfl, hbit e.p1⟩
  · exact ⟨rfl, hevex, rfl, hbit e.p1⟩
  · exact ⟨rfl, hevex, rfl, hbit e.p1⟩

/-- An accepted gather: its form, and the memory operand behind the ModRM byte. -/
theorem gather_of_decoded {fetch : Fetch} {rip : GuestAddr} {fuel p : Nat} {i : Insn}
    {e : VexBytes} (hdecoded : decodeWithSource fetch rip fuel = some (.ok i))
    (hat : VexAt fetch p e) (hgather : e.isGather) :
    i.IsGather ∧ ∃ px enc op, px.rexX = (!e.p1.getLsbD 6) ∧ (splitModrm e.modrm).mod ≠ 3 ∧
      (decodeRmOperand px (splitModrm e.modrm) px.vexSize).Yields enc op ∧
      i.src.index = op.index ∧ Parse.Holds fetch (BitVec.ofNat 8 (p + 5)) enc := by
  obtain ⟨p', bs, hrun, b, out, hb, hyields, hholds, rfl⟩ := answers_of_decodes hdecoded
  obtain rfl := hrun.unique hat.prefixes
  obtain ⟨hC4, h1, h2, hop, hmodrm, _⟩ := hat.bytes
  have same {x y : U8} {a : U8} (hx : fetch a = .ok x) (hy : fetch a = .ok y) : x = y :=
    Except.ok.inj (hx.symm.trans hy)
  obtain rfl := same hb hC4
  rw [opcodeParser, if_neg (by decide), if_neg (by decide), if_pos rfl, readByte,
    Parse.symbol_bind] at hyields
  cases hyields with
  | next hyields =>
      obtain ⟨payload, rest, px, rfl, hscan, hafter⟩ := Parse.yields_bind.mp hyields
      obtain ⟨p1, p2, rfl, rfl⟩ := scanVex3_yields hscan
      have hbytes := hholds
      obtain ⟨_, h1', h2', hrest⟩ := hholds
      obtain rfl := same h1' h1
      obtain rfl := same h2' h2
      have hread := vexRead (recordPrefixes_isEvex fetch p' 0 {} rfl) e
      have hnot : ¬ (vex3Prefixes (recordPrefixes fetch p' 0 {}) e.p1 e.p2).isEvex = true := by
        rw [hread.isEvex]
        exact Bool.false_ne_true
      rw [decodeAfterPrefixes, if_pos hread.isVex, decodeVex, if_neg hnot,
        if_pos (hread.map.trans hgather.1)] at hafter
      obtain ⟨op, tail, rfl, hclause⟩ := decodeVexMap2_gather _ _ _ _ hafter
      obtain ⟨hop', hmodrm'⟩ := hrest
      obtain rfl := same hop' hop
      obtain ⟨⟨hhandler, hdata, hindex, hsize⟩, modrm, enc, src, rfl, hmod, hsrc, hindex'⟩ :=
        hclause hgather.2
      obtain rfl := same hmodrm'.1 hmodrm
      refine ⟨⟨hhandler, hdata, hindex, hsize⟩, _, enc, src, hread.x, hmod, hsrc, hindex', ?_⟩
      rw [BitVec.ofNat_add]
      exact ((Parse.holds_append [_, e.p1, e.p2, e.op, e.modrm]).mp hbytes).2

/-! ### The index register -/

/-- The SIB byte names a vector register that the decoder takes for the index. -/
def VexBytes.HasIndex (e : VexBytes) (fetch : Fetch) (p : Nat) : Prop :=
  e.rm = 4 ∧ ∀ sib, fetch (BitVec.ofNat 8 (p + 5)) = .ok sib →
    ¬ (((sib >>> 3) &&& 7).toNat = 4 ∧ e.p1.getLsbD 6 = true)

/-- The index is the register that the SIB byte names. -/
def VexBytes.IndexNamed (e : VexBytes) (fetch : Fetch) (p : Nat) (i : Insn) : Prop :=
  e.rm = 4 ∧ ∃ sib, fetch (BitVec.ofNat 8 (p + 5)) = .ok sib ∧ i.src.index = e.indexRegister sib

/-- With a SIB byte the index is what is split off it. -/
theorem sib_yields {px : Prefixes} {m : ModRm} (hmod : m.mod ≠ 3) (hsib : m.rm = 4) {size : Nat}
    {enc : List U8} {op : Operand} (h : (decodeRmOperand px m size).Yields enc op) :
    ∃ sib rest, enc = sib :: rest ∧ op.index = (splitSib sib m.mod px.rexX px.rexB).index := by
  have hrip : ¬ (m.mod = 0 ∧ m.rm = 5) := by omega
  rw [decodeRmOperand, if_neg hmod, if_neg hrip, if_pos hsib] at h
  cases h with
  | next h =>
      rename_i sib rest
      refine ⟨sib, rest, rfl, ?_⟩
      change Parse.Yields (if _ then _ else _) _ _ at h
      split at h
      · obtain ⟨_, _, _, _, _, hop⟩ := Parse.yields_bind.mp h
        cases hop
        rfl
      · obtain ⟨_, _, _, _, _, hop⟩ := Parse.yields_bind.mp h
        cases hop
        rfl

/-- The index that is split off is the register of the SIB byte except for the field 4 without the
extension bit, which names no index of a general address. -/
theorem index_splitSib (sib p1 : U8) (mod : Nat) (rexB : Bool) :
    (splitSib sib mod (!p1.getLsbD 6) rexB).index =
        ((sib >>> 3) &&& 7).toNat + (if p1.getLsbD 6 then 0 else 8) ↔
      ¬ (((sib >>> 3) &&& 7).toNat = 4 ∧ p1.getLsbD 6 = true) := by
  have hfield : ∀ v : U8, ((v >>> 3) &&& 7).toNat < 8 := by decide +kernel
  have hlt := hfield sib
  simp only [splitSib, combineReg, Nat.mod_eq_of_lt hlt, Bool.not_not]
  generalize ((sib >>> 3) &&& 7).toNat = n at hlt ⊢
  cases p1.getLsbD 6 with
  | true =>
      by_cases hfour : n = 4
      · subst hfour
        decide
      · rw [beq_false_of_ne hfour, Bool.false_and, if_neg Bool.false_ne_true, if_pos rfl]
        exact iff_of_true (Nat.zero_add n) fun hand => hfour hand.1
  | false =>
      rw [Bool.and_false, if_neg Bool.false_ne_true]
      exact iff_of_true (Nat.add_comm 8 n) fun hand => Bool.false_ne_true hand.2

theorem indexNamed_iff {fetch : Fetch} {rip : GuestAddr} {fuel p : Nat} {i : Insn}
    {e : VexBytes} (hdecoded : decodeWithSource fetch rip fuel = some (.ok i))
    (hat : VexAt fetch p e) (hgather : e.isGather) :
    e.IndexNamed fetch p i ↔ e.HasIndex fetch p := by
  obtain ⟨_, px, enc, op, hx, hmod, hyields, hindex, hholds⟩ :=
    gather_of_decoded hdecoded hat hgather
  rw [VexBytes.IndexNamed, VexBytes.HasIndex]
  refine and_congr_right fun hrm => ?_
  obtain ⟨sib, rest, rfl, hop⟩ := sib_yields hmod hrm hyields
  have hsib : fetch (BitVec.ofNat 8 (p + 5)) = .ok sib := hholds.1
  have hvalue : i.src.index = e.indexRegister sib ↔
      ¬ (((sib >>> 3) &&& 7).toNat = 4 ∧ e.p1.getLsbD 6 = true) := by
    rw [hindex, hop, hx]
    exact index_splitSib ..
  constructor
  · rintro ⟨sib', hsib', hnamed⟩ s hs
    obtain rfl := Except.ok.inj (hsib.symm.trans hs)
    obtain rfl := Except.ok.inj (hsib.symm.trans hsib')
    exact hvalue.mp hnamed
  · intro hall
    exact ⟨sib, hsib, hvalue.mpr (hall sib hsib)⟩

end PicoCpu
