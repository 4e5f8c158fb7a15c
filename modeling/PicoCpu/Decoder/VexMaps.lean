import PicoCpu.Decoder.Accepted

/-!
The clauses the VEX and EVEX maps are made of, and the handlers that each kind of clause binds.
What holds of the instructions of every clause holds of what the maps decode.
-/

namespace PicoCpu

open Decode

/-! ### Handlers by clause -/

/-- The three-operand handlers of `avx.cpp`. -/
def avxHandlers : List Handler :=
  [.opVpxor, .opVpand, .opVpor, .opVpaddb, .opVpaddw, .opVpaddd, .opVpaddq, .opVpsubb, .opVpsubw,
   .opVpsubd, .opVpsubq]

/-- The three-operand handlers of `phase10.cpp`. -/
def phase10Handlers : List Handler :=
  [.opVpshufb, .opVpcmpgtq, .opVaesenc, .opVaesenclast, .opVaesdec, .opVaesdeclast,
   .opVpclmulqdq]

def vexMoveHandlers : List Handler := [.opVmovdqa, .opVmovdqu]

def gatherHandlers : List Handler :=
  [.opVpgatherdd, .opVpgatherdq, .opVpgatherqd, .opVpgatherqq, .opVgatherdps, .opVgatherdpd,
   .opVgatherqps, .opVgatherqpd]

/-- The VEX-encoded handlers of general-purpose registers. -/
def bmiHandlers : List Handler :=
  [.opAndn, .opBextr, .opShlx, .opSarx, .opShrx, .opBzhi, .opPext, .opPdep, .opMulx, .opBlsr,
   .opBlsmsk, .opBlsi, .opRorx]

def vzeroHandlers : List Handler := [.opVzeroupper, .opVzeroall]

/-- The EVEX-encoded three-operand handlers. -/
def evexBinopHandlers : List Handler :=
  [.opVpxorq, .opVpandq, .opVporq, .opVpxord, .opVpandd, .opVpord, .opVpaddbEvex, .opVpaddwEvex,
   .opVpadddEvex, .opVpaddqEvex, .opVpsubbEvex, .opVpsubwEvex, .opVpsubdEvex, .opVpsubqEvex,
   .opVaddpdEvex, .opVmulpdEvex, .opVsubpdEvex, .opVminpdEvex, .opVdivpdEvex, .opVmaxpdEvex,
   .opVaddpsEvex, .opVmulpsEvex, .opVsubpsEvex, .opVminpsEvex, .opVdivpsEvex, .opVmaxpsEvex]

def evexMoveHandlers : List Handler := [.opVmovdqa32, .opVmovdqa64, .opVmovdqu32, .opVmovdqu64]

def evexSqrtHandlers : List Handler := [.opVsqrtpdEvex, .opVsqrtpsEvex]

def scatterHandlers : List Handler :=
  [.opVpscatterdd, .opVpscatterdq, .opVpscatterqd, .opVpscatterqq, .opVscatterdps, .opVscatterdpd,
   .opVscatterqps, .opVscatterqpd]

section Maps

variable {px : Prefixes} {out : Insn} {Q : Insn → List U8 → Prop}

/-- The row of a table that is taken. -/
theorem arm_of_row {table : OpTable} {op : U8} {p : OpKind → Handler → Decode Insn}
    (hp : ∀ kind h, (op.toNat, kind, h) ∈ table → Parse.Post (p kind h) Q) :
    Parse.Arm (tableRow table op p) Q := by
  intro q hq
  rw [tableRow] at hq
  cases hrow : table.lookup op.toNat with
  | none => rw [hrow] at hq; cases hq
  | some row =>
      obtain ⟨kind, handler⟩ := row
      obtain ⟨before, after, rfl, _⟩ := List.lookup_eq_some_iff.mp hrow
      rw [hrow] at hq
      cases hq
      exact hp kind handler (List.mem_append_right _ (List.mem_cons_self ..))

/-- A table whose handlers are in the list. -/
theorem arm_of_mem (hs : List Handler) {table : OpTable} {op : U8}
    {p : OpKind → Handler → Decode Insn} (htable : table.all (fun r => hs.contains r.2.2) = true)
    (hp : ∀ kind, ∀ h ∈ hs, Parse.Post (p kind h) Q) : Parse.Arm (tableRow table op p) Q :=
  arm_of_row fun kind handler hmem =>
    hp kind handler (List.contains_iff_mem.mp (List.all_eq_true.mp htable _ hmem))

/-- Every row of a table of lane sizes is decoded. -/
theorem arm_of_laneRows (ok : OpKind × Handler × Nat × Nat → Bool) {table : LaneTable} {op : U8}
    {w : Bool} {p : OpKind → Handler → Nat → Nat → Decode Insn}
    (htable : table.all (fun r => ok r.2.1 && ok r.2.2) = true)
    (hp : ∀ kind h dataLane indexLane, ok (kind, h, dataLane, indexLane) = true →
      Parse.Post (p kind h dataLane indexLane) Q) :
    Parse.Arm (laneRow table op w p) Q := by
  intro q hq
  rw [laneRow] at hq
  cases hrow : table.lookup op.toNat with
  | none => rw [hrow] at hq; cases hq
  | some row =>
      obtain ⟨before, after, rfl, _⟩ := List.lookup_eq_some_iff.mp hrow
      have hmem : (op.toNat, row) ∈ before ++ (op.toNat, row) :: after :=
        List.mem_append_right _ (List.mem_cons_self ..)
      have hok := List.all_eq_true.mp htable _ hmem
      rw [Bool.and_eq_true] at hok
      rw [hrow] at hq
      cases w with
      | false =>
          cases hq
          exact hp _ _ _ _ hok.1
      | true =>
          cases hq
          exact hp _ _ _ _ hok.2

theorem arm_lanes_of_mem {hs : List Handler} {table : LaneTable} {op : U8} {w : Bool}
    {p : OpKind → Handler → Nat → Nat → Decode Insn}
    (htable : table.all (fun r => hs.contains r.2.1.2.1 && hs.contains r.2.2.2.1) = true)
    (hp : ∀ kind, ∀ h ∈ hs, ∀ dataLane indexLane, Parse.Post (p kind h dataLane indexLane) Q) :
    Parse.Arm (laneRow table op w p) Q :=
  arm_of_laneRows (fun row => hs.contains row.2.1) htable fun kind h dataLane indexLane hok =>
    hp kind h (List.contains_iff_mem.mp hok) dataLane indexLane

/-- The lane sizes that an instruction of the tables carries. -/
theorem laneSizes_mem : ∀ row ∈ [(4, 4), (8, 4), (4, 8), (8, 8)],
    (((laneSizes row.1 row.2 &&& 0xFF).toNat = 4 ∨ (laneSizes row.1 row.2 &&& 0xFF).toNat = 8) ∧
      (((laneSizes row.1 row.2 >>> 8) &&& 0xFF).toNat = 4 ∨
        ((laneSizes row.1 row.2 >>> 8) &&& 0xFF).toNat = 8)) := by decide

/-- The clauses of the VEX maps. -/
structure VexClauses (px : Prefixes) (out : Insn) (Q : Insn → List U8 → Prop) : Prop where
  binop : ∀ kind, ∀ h ∈ avxHandlers ++ phase10Handlers,
    Parse.Post (decodeVexOpRmv px out kind h) Q
  binopImm : ∀ kind, ∀ h ∈ phase10Handlers,
    Parse.Post (withImm8 (decodeVexOpRmv px out kind h)) Q
  move : ∀ kind, ∀ h ∈ vexMoveHandlers, ∀ regToRm,
    Parse.Post (decodeVexOpRm px out kind h regToRm) Q
  gather : ∀ kind, ∀ h ∈ gatherHandlers, ∀ dataLane indexLane,
    Parse.Post (decodeVgather px out kind h dataLane indexLane) Q
  bmi : ∀ i bs, i.handler ∈ bmiHandlers → Q i bs
  vzero : ∀ kind, ∀ h ∈ vzeroHandlers, Q { out with kind, handler := h } []

namespace VexClauses

variable (h : VexClauses px out Q)

include h

theorem map2Sse66 (op : U8) : Parse.Post (decodeVexMap2Sse66 px op out) Q := by
  refine Parse.Arms.firstOf (Parse.arms_cons ?_ (Parse.arms_cons ?_ Parse.arms_nil))
  · refine arm_of_mem phase10Handlers rfl fun kind handler hmem => ?_
    exact h.binop kind handler (List.mem_append_right _ hmem)
  · exact arm_lanes_of_mem rfl h.gather

theorem gprRmv (kind : OpKind) {handler : Handler} (hmem : handler ∈ bmiHandlers) :
    Parse.Post (decodeVexGprRmv px out kind handler) Q := by
  rw [decodeVexGprRmv, readModrm_bind]
  refine Parse.post_next fun mb => ?_
  refine Parse.post_bind (Parse.post_yields _) fun src bs _ => Parse.post_ret ?_
  exact h.bmi _ _ hmem

theorem bls : Parse.Post (decodeBls px out) Q := by
  rw [decodeBls, readModrm_bind]
  refine Parse.post_next fun mb => ?_
  refine Parse.post_bind (Parse.post_yields _) fun src bs _ => ?_
  have hbmi {i : Insn} (hmem : bmiHandlers.contains i.handler = true) :
      Parse.Post (pure i : Decode Insn) fun i bs' => Q i (mb :: (bs ++ bs')) :=
    Parse.post_ret (h.bmi _ _ (List.contains_iff_mem.mp hmem))
  simp only
  split
  · exact hbmi rfl
  · exact hbmi rfl
  · exact hbmi rfl
  · exact Parse.post_fail

theorem rorx : Parse.Post (decodeRorx px out) Q := by
  rw [decodeRorx, readModrm_bind]
  refine Parse.post_next fun mb => ?_
  refine Parse.post_bind (Parse.post_yields _) fun src bs _ => ?_
  refine Parse.post_bind (Parse.post_yields _) fun imm bs' _ => Parse.post_ret ?_
  exact h.bmi _ _ (List.contains_iff_mem.mp rfl)

theorem map2 : Parse.Post (decodeVexMap2Bmi px out) fun i bs => ∃ op rest, bs = op :: rest ∧
    Q i rest := by
  refine Parse.post_next fun op => ?_
  refine Parse.Post.mono (Q := Q) ?_ fun i bs hq => ⟨op, bs, rfl, hq⟩
  have hgpr {c : Bool} {kind : OpKind} {handler : Handler} (hmem : handler ∈ bmiHandlers) :
      Parse.Arm (Parse.when c (decodeVexGprRmv px out kind handler)) Q :=
    Parse.arm_when fun _ => h.gprRmv kind hmem
  refine Parse.Arms.firstOf ?_
  refine Parse.arms_cons (Parse.arm_when fun _ => h.map2Sse66 op) ?_
  iterate 9
    refine Parse.arms_cons (hgpr (by decide)) ?_
  exact Parse.arms_cons (Parse.arm_when fun _ => h.bls) Parse.arms_nil

theorem map3 : Parse.Post (decodeVexMap3Rorx px out) fun i bs => ∃ op rest, bs = op :: rest ∧
    Q i rest := by
  refine Parse.post_next fun op => ?_
  refine Parse.Post.mono (Q := Q) ?_ fun i bs hq => ⟨op, bs, rfl, hq⟩
  refine Parse.Arms.firstOf ?_
  refine Parse.arms_cons (Parse.arm_when fun _ => h.binopImm _ _ (by decide)) ?_
  exact Parse.arms_cons (Parse.arm_when fun _ => h.rorx) Parse.arms_nil

theorem map1 : Parse.Post (decodeVexMap1 px out) fun i bs => ∃ op rest, bs = op :: rest ∧
    Q i rest := by
  refine Parse.post_next fun op => ?_
  refine Parse.Post.mono (Q := Q) ?_ fun i bs hq => ⟨op, bs, rfl, hq⟩
  have hmove {c : Bool} {kind : OpKind} {handler : Handler} {regToRm : Bool}
      (hmem : handler ∈ vexMoveHandlers) :
      Parse.Arm (Parse.when c (decodeVexOpRm px out kind handler regToRm)) Q :=
    Parse.arm_when fun _ => h.move kind handler hmem regToRm
  refine Parse.Arms.firstOf ?_
  refine Parse.arms_cons (hmove (by decide)) ?_
  refine Parse.arms_cons (hmove (by decide)) ?_
  refine Parse.arms_cons (Parse.arm_ite (fun _ => ?_) fun _ => Parse.arm_none) ?_
  · refine arm_of_mem avxHandlers rfl fun kind handler hmem => ?_
    exact h.binop kind handler (List.mem_append_left _ hmem)
  refine Parse.arms_cons (hmove (by decide)) ?_
  refine Parse.arms_cons (hmove (by decide)) ?_
  refine Parse.arms_cons (Parse.arm_when fun _ => Parse.post_ret ?_) Parse.arms_nil
  refine h.vzero _ _ ?_
  split
  · decide
  · decide

/-- What the VEX maps decode comes from one of their clauses, past the opcode byte. -/
theorem decodes (hvex : px.isEvex = false) :
    Parse.Post (decodeVex px out) fun i bs => ∃ op rest, bs = op :: rest ∧ Q i rest := by
  rw [decodeVex, hvex, if_neg Bool.false_ne_true]
  split
  · exact h.map2
  · split
    · exact h.map3
    · split
      · exact Parse.post_fail
      · exact h.map1

end VexClauses

/-- The opcodes of the first EVEX map that have two operands: a square root, a load and a store. -/
def evexPairOpcodes : List U8 := [0x51, 0x6F, 0x7F]

/-- The clauses of the EVEX maps, each with the opcodes it is taken for. -/
structure EvexClauses (px : Prefixes) (out : Insn) (Q : U8 → Insn → List U8 → Prop) : Prop where
  binop : px.vexMap = 1 → ∀ op ∉ evexPairOpcodes, ∀ kind, ∀ h ∈ evexBinopHandlers,
    Parse.Post (decodeEvexOpRmv px out kind h) (Q op)
  load : px.vexMap = 1 → ∀ kind, ∀ h ∈ evexMoveHandlers,
    Parse.Post (decodeEvexOpRm px out kind h false) (Q 0x6F)
  store : px.vexMap = 1 → ∀ kind, ∀ h ∈ evexMoveHandlers,
    Parse.Post (decodeEvexOpRm px out kind h true) (Q 0x7F)
  sqrt : px.vexMap = 1 → ∀ kind, ∀ h ∈ evexSqrtHandlers,
    Parse.Post (decodeEvexOpRm px out kind h false) (Q 0x51)
  scatter : px.vexMap = 2 → ∀ op kind, ∀ h ∈ scatterHandlers, ∀ dataLane indexLane,
    Parse.Post (decodeEvexScatter px out kind h dataLane indexLane) (Q op)

namespace EvexClauses

variable {R : U8 → Insn → List U8 → Prop} (h : EvexClauses px out R)

include h

theorem binops (hmap : px.vexMap = 1) {op : U8} {table : OpTable}
    (htable : table.all (fun r => evexBinopHandlers.contains r.2.2 &&
      evexPairOpcodes.all fun o => o.toNat != r.1) = true) :
    Parse.Arm (tableRow table op (decodeEvexOpRmv px out)) (R op) := by
  refine arm_of_row fun kind handler hmem => ?_
  have hrow := List.all_eq_true.mp htable _ hmem
  rw [Bool.and_eq_true, List.contains_iff_mem] at hrow
  refine h.binop hmap op (fun hpair => ?_) kind handler hrow.1
  exact absurd rfl (bne_iff_ne.mp (List.all_eq_true.mp hrow.2 op hpair))

theorem moves (hmap : px.vexMap = 1) {op : U8} {row0 row1 : OpKind × Handler}
    (hrows : row0.2 ∈ evexMoveHandlers ∧ row1.2 ∈ evexMoveHandlers) :
    Parse.Arms (evexMove px op out row0 row1) (R op) := by
  have hmem : (if px.vexW then row1 else row0).2 ∈ evexMoveHandlers := by
    split
    · exact hrows.2
    · exact hrows.1
  refine Parse.arms_cons (Parse.arm_when fun hop => ?_) ?_
  · rw [eq_of_beq hop]
    exact h.load hmap _ _ hmem
  · refine Parse.arms_cons (Parse.arm_when fun hop => ?_) Parse.arms_nil
    rw [eq_of_beq hop]
    exact h.store hmap _ _ hmem

theorem sqrts (hmap : px.vexMap = 1) {op : U8} {kind : OpKind} {handler : Handler}
    (hmem : handler ∈ evexSqrtHandlers) :
    Parse.Arms [Parse.when (op == 0x51) (decodeEvexOpRm px out kind handler false)] (R op) := by
  refine Parse.arms_cons (Parse.arm_when fun hop => ?_) Parse.arms_nil
  rw [eq_of_beq hop]
  exact h.sqrt hmap kind handler hmem

/-- What the EVEX maps decode comes from one of their clauses, past the opcode byte. -/
theorem decodes : Parse.Post (decodeEvex px out) fun i bs => ∃ op rest, bs = op :: rest ∧
    R op i rest := by
  rw [decodeEvex]
  split
  · refine Parse.post_next fun op => ?_
    refine Parse.Post.mono (Q := R op) ?_ fun i bs hq => ⟨op, bs, rfl, hq⟩
    refine Parse.Arms.firstOf (Parse.arms_cons ?_ Parse.arms_nil)
    exact Parse.arm_ite (fun _ => arm_lanes_of_mem rfl (h.scatter ‹_› op)) fun _ => Parse.arm_none
  split
  · exact Parse.post_fail
  have hmap : px.vexMap = 1 := by omega
  refine Parse.post_next fun op => ?_
  refine Parse.Post.mono (Q := R op) ?_ fun i bs hq => ⟨op, bs, rfl, hq⟩
  have hnil : Parse.Arms ([] : List (Option (Decode Insn))) (R op) := Parse.arms_nil
  have hwide (w : Bool) : (evexWTable w).all (fun r => evexBinopHandlers.contains r.2.2 &&
      evexPairOpcodes.all fun o => o.toNat != r.1) = true := by
    cases w with
    | false => decide
    | true => decide
  refine Parse.Arms.firstOf (Parse.arms_append (Parse.arms_append ?_ ?_) ?_)
  · refine Parse.arms_ite (fun _ => ?_) fun _ => hnil
    refine Parse.arms_append (Parse.arms_append ?_ ?_) ?_
    · refine Parse.arms_cons (h.binops hmap (hwide _)) ?_
      exact Parse.arms_cons (h.binops hmap (by decide)) Parse.arms_nil
    · exact h.moves hmap ⟨by decide, by decide⟩
    · exact h.sqrts hmap (by decide)
  · refine Parse.arms_ite (fun _ => ?_) fun _ => hnil
    refine Parse.arms_cons (h.binops hmap (by decide)) ?_
    exact h.sqrts hmap (by decide)
  · refine Parse.arms_ite (fun _ => ?_) fun _ => hnil
    exact h.moves hmap ⟨by decide, by decide⟩

end EvexClauses

end Maps

/-! ### Instructions and their prefixes -/

/-- The source holds an instruction that is accepted, behind these prefixes. -/
structure DecodedBehind (fetch : Fetch) (rip : GuestAddr) (fuel : Nat) (px : Prefixes)
    (i : Insn) : Prop where
  prefixes : ∃ c, scanPrefixes fetch fuel 0 {} = some (.ok (px, c))
  accepted : decodeWithSource fetch rip fuel = some (.ok i)

/-- The bytes past the prefixes, which what is decoded yields up to its length. -/
theorem DecodedBehind.yields {fetch : Fetch} {rip : GuestAddr} {fuel : Nat} {px : Prefixes}
    {i : Insn} (h : DecodedBehind fetch rip fuel px i) :
    ∃ c out bs, scanPrefixes fetch fuel 0 {} = some (.ok (px, c)) ∧
      (decodeAfterPrefixes px (px.insn rip)).Yields bs out ∧ Parse.Holds fetch c bs ∧
        ∃ len, i = { out with len } := by
  obtain ⟨⟨c, hscan⟩, haccepted⟩ := h
  rw [decodeWithSource, hscan] at haccepted
  cases hrun : (decodeAfterPrefixes px (px.insn rip)).run fetch c with
  | error s =>
      simp only [hrun] at haccepted
      cases haccepted
  | ok r =>
      obtain ⟨out, c'⟩ := r
      simp only [hrun, Option.some.injEq, Except.ok.injEq] at haccepted
      obtain ⟨bs, hyields, hholds, _⟩ := Parse.run_eq_ok.mp hrun
      exact ⟨c, out, bs, hscan, hyields, hholds, c'.toNat, haccepted.symm⟩

end PicoCpu
