import PicoCpu.EvexStores
import PicoCpu.MemoryReads

/-!
The embedded broadcast of EVEX instructions. The drivers of the floating-point instructions read one
element and repeat it; those of the integer instructions do not look at the broadcast bit.
-/

namespace PicoCpu

open H Proc Handlers Decode

/-! ### The law -/

/-- The floating-point instructions with their element size. -/
def evexFloat : List (Handler × Nat) :=
  [(.opVaddpsEvex, 4), (.opVaddpdEvex, 8), (.opVsubpsEvex, 4), (.opVsubpdEvex, 8),
   (.opVmulpsEvex, 4), (.opVmulpdEvex, 8), (.opVdivpsEvex, 4), (.opVdivpdEvex, 8),
   (.opVminpsEvex, 4), (.opVminpdEvex, 8), (.opVmaxpsEvex, 4), (.opVmaxpdEvex, 8),
   (.opVsqrtpsEvex, 4), (.opVsqrtpdEvex, 8)]

/-- The element size of an instruction of the first EVEX map. -/
def Handler.laneSize (h : Handler) : Nat :=
  ((evexMasked.map (fun row => (row.1, row.2.1)) ++ evexFloat).lookup h).getD 0

/-- The element of the result is made of the elements of the sources. -/
def Lanewise (size : Nat) (F : Buf → Buf → Buf) : Prop :=
  ∀ a a' b b' e, Buf.element size a e = Buf.element size a' e →
    Buf.element size b e = Buf.element size b' e →
      Buf.element size (F a b) e = Buf.element size (F a' b') e

namespace Insn

/-- The instruction with a register for its second source, and without broadcast. -/
def onRegister (i : Insn) (r : Nat) : Insn :=
  { i with src := { kind := .xmm, reg := r }, pad := i.pad &&& ~~~0x10#16 }

/-- The CPU after the instruction on the second source `src`. -/
def withSource (i : Insn) (F : Buf → Buf → Buf) (src : Buf) (c : Cpu) : Cpu :=
  (c.setZmmBytes i.dst.reg 0 i.opSize (maskLanes i.handler.laneSize i (maskBits i c)
    (F (c.zmm i.dst.index) src) (c.zmm i.dst.reg))).zeroZmmUpper i.dst.reg i.opSize

end Insn

/-- The operation of an instruction, as its register form shows it: it acts on elements. -/
structure IsOperation (fp : HostFp) (i : Insn) (F : Buf → Buf → Buf) : Prop where
  lanewise : Lanewise i.handler.laneSize F
  register : ∀ r, ((i.onRegister r).run fp).Updates fun c =>
    (i.onRegister r).withSource F (c.zmm r) c

/-- An instruction with the operation `F` whose memory source is one element, for all lanes: it
reads that element and nothing else, and where the read succeeds it completes. -/
structure BroadcastLaw (fp : HostFp) (i : Insn) (F : Buf → Buf → Buf) {σ : Type} (at_ : Attached σ)
    (c : Cpu) (w : World σ) : Prop where
  reads : at_.memRead.isSome = true →
    readsOf ((i.run fp).runOn at_ c w).trace = [(ea c i i.src, i.handler.laneSize)]
  result : ∀ buf w', at_.env (.read (ea c i i.src) i.handler.laneSize) w =
      ((.ok buf : Except Status Buf), w') →
    ((i.run fp).runOn at_ c w).value =
        (some (), i.withSource F (fun k => buf (k % i.handler.laneSize)) c) ∧
      ((i.run fp).runOn at_ c w).world = w'

/-! ### The decoder -/

/-- What the first EVEX map makes of an instruction with a memory source. -/
structure MemorySource (px : Prefixes) (i : Insn) : Prop where
  handler : i.handler ∈ evexWriters
  broadcast : isBroadcast i = px.evexB
  size : i.opSize = px.evexVectorSize

theorem isBroadcast_eq (i : Insn) : isBroadcast i = i.pad.getLsbD 4 := by
  have hbit : (0x10 : U16) = BitVec.twoPow 16 4 := rfl
  rw [isBroadcast, hbit, SetBits.and_twoPow_bne_zero _ (by decide)]

theorem evexPad_broadcast (px : Prefixes) : (evexPad px true).getLsbD 4 = px.evexB := by
  have hlow : ((7 : U16)).getLsbD 4 = false := by decide
  rw [evexPad, BitVec.getLsbD_or, BitVec.getLsbD_or, BitVec.getLsbD_and, hlow, Bool.and_false,
    Bool.false_or, Bool.true_and]
  cases px.evexZ <;> cases px.evexB <;> decide

theorem evexClauses_memory (px : Prefixes) (base : Insn) : EvexClauses px base fun _ i _ =>
    px.vexMap = 1 → i.src.isMem = true → MemorySource px i where
  binop _ op _ kind h hh := by
    rw [decodeEvexOpRmv, readModrm_bind]
    refine Parse.post_next fun mb => ?_
    refine Parse.post_bind (Parse.post_yields _) fun src bs hsrc => Parse.post_ret ?_
    intro _ hmem
    have hnot : ¬ ((splitModrm mb).mod = 3 ∧ px.evexB = true) := by
      rintro ⟨hmod, _⟩
      rw [decodeXmmOperand, if_pos hmod] at hsrc
      cases hsrc
      cases hmem
    refine ⟨List.mem_append_left _ (List.mem_append_left _ hh), ?_, rfl⟩
    rw [isBroadcast_eq]
    simp only [if_neg hnot]
    rw [BitVec.getLsbD_or, evexPad_broadcast]
    exact Bool.or_false _
  load _ kind h hh := by
    rw [decodeEvexOpRm, readModrm_bind]
    refine Parse.post_next fun mb => ?_
    refine Parse.post_bind (Parse.post_yields _) fun rm bs _ => Parse.post_ret ?_
    intro _ _
    refine ⟨List.mem_append_left _ (List.mem_append_right _ hh), ?_, rfl⟩
    rw [isBroadcast_eq]
    exact evexPad_broadcast px
  store _ kind h hh := by
    rw [decodeEvexOpRm, readModrm_bind]
    refine Parse.post_next fun mb => ?_
    refine Parse.post_bind (Parse.post_yields _) fun rm bs _ => Parse.post_ret fun _ hmem => ?_
    cases hmem
  sqrt _ kind h hh := by
    rw [decodeEvexOpRm, readModrm_bind]
    refine Parse.post_next fun mb => ?_
    refine Parse.post_bind (Parse.post_yields _) fun rm bs _ => Parse.post_ret ?_
    intro _ _
    refine ⟨List.mem_append_right _ hh, ?_, rfl⟩
    rw [isBroadcast_eq]
    exact evexPad_broadcast px
  scatter h2 op kind h hh dataLane indexLane := by
    intro i bs _ h1
    omega

theorem memorySource_of_decoded {fetch : Fetch} {rip : GuestAddr} {fuel p : Nat} {i : Insn}
    {e : EvexBytes} (hdecoded : decodeWithSource fetch rip fuel = some (.ok i))
    (hat : EvexAt fetch p e) (hmap : e.map = 1) (hb : e.b = true) (hmem : i.src.isMem = true) :
    i.handler ∈ evexWriters ∧ isBroadcast i = true ∧ 16 ≤ i.opSize := by
  obtain ⟨px, out, bs, _, hread, hbroadcast, hclause, _, rfl⟩ :=
    evexClause_of_decoded hdecoded hat fun px out _ => evexClauses_memory px out
  obtain ⟨hhandler, hpad, hsize⟩ := hclause (hread.map.trans hmap) hmem
  refine ⟨hhandler, hpad.trans (hbroadcast.trans hb), ?_⟩
  change 16 ≤ out.opSize
  rw [hsize, Prefixes.evexVectorSize]
  split_ifs <;> decide

/-! ### The two drivers -/

theorem laneSize_float : ∀ h ∈ evexFloat.map Prod.fst, (h, h.laneSize) ∈ evexFloat := by
  decide +kernel

theorem laneSize_masked : ∀ h ∈ evexWriters, h ∈ evexFloat.map Prod.fst ∨
    ∃ row ∈ evexMasked, row.1 = h ∧ row.2.1 = h.laneSize := by
  decide +kernel

theorem lanewise_map32 (f : U32 → U32 → U32) : Lanewise 4 (map32 f) := by
  intro a a' b b' e ha hb
  rw [element_map32, element_map32, ha, hb]

theorem lanewise_map64 (f : U64 → U64 → U64) : Lanewise 8 (map64 f) := by
  intro a a' b b' e ha hb
  rw [element_map64, element_map64, ha, hb]

theorem lanewise_packU32 (f : U32 → U32) :
    Lanewise 4 fun _ b => packU32 fun e => f (laneU32 b e) := by
  intro a a' b b' e _ hb
  have hpack (v : Buf) : Buf.element 4 (packU32 fun e => f (laneU32 v e)) e = f (laneU32 v e) :=
    element_packU32 _ e
  rw [hpack, hpack, ← element_four, ← element_four, hb]

theorem lanewise_packU64 (f : U64 → U64) :
    Lanewise 8 fun _ b => packU64 fun e => f (laneU64 b e) := by
  intro a a' b b' e _ hb
  have hpack (v : Buf) : Buf.element 8 (packU64 fun e => f (laneU64 v e)) e = f (laneU64 v e) :=
    element_packU64 _ e
  rw [hpack, hpack, ← element_eight, ← element_eight, hb]

/-- Every row of the table is an operation of the floating-point driver that acts on elements. -/
theorem float_code {h : Handler} {size : Nat} (fp : HostFp) (hrow : (h, size) ∈ evexFloat) :
    ∃ f, callHandler fp h = fpBinop size f ∧ Lanewise size (f .current) := by
  simp only [evexFloat, List.mem_cons, Prod.mk.injEq, List.not_mem_nil, or_false] at hrow
  rcases hrow with ⟨rfl, rfl⟩ | ⟨rfl, rfl⟩ | ⟨rfl, rfl⟩ | ⟨rfl, rfl⟩ | ⟨rfl, rfl⟩ | ⟨rfl, rfl⟩ |
    ⟨rfl, rfl⟩ | ⟨rfl, rfl⟩ | ⟨rfl, rfl⟩ | ⟨rfl, rfl⟩ | ⟨rfl, rfl⟩ | ⟨rfl, rfl⟩ | ⟨rfl, rfl⟩ |
    ⟨rfl, rfl⟩
  · exact ⟨fun rc => map32 (fp.f32 rc).add, rfl, lanewise_map32 _⟩
  · exact ⟨fun rc => map64 (fp.f64 rc).add, rfl, lanewise_map64 _⟩
  · exact ⟨fun rc => map32 (fp.f32 rc).sub, rfl, lanewise_map32 _⟩
  · exact ⟨fun rc => map64 (fp.f64 rc).sub, rfl, lanewise_map64 _⟩
  · exact ⟨fun rc => map32 (fp.f32 rc).mul, rfl, lanewise_map32 _⟩
  · exact ⟨fun rc => map64 (fp.f64 rc).mul, rfl, lanewise_map64 _⟩
  · exact ⟨fun rc => map32 (fp.f32 rc).div, rfl, lanewise_map32 _⟩
  · exact ⟨fun rc => map64 (fp.f64 rc).div, rfl, lanewise_map64 _⟩
  · exact ⟨fun _ => map32 (evexMin32 fp), rfl, lanewise_map32 _⟩
  · exact ⟨fun _ => map64 (evexMin64 fp), rfl, lanewise_map64 _⟩
  · exact ⟨fun _ => map32 (evexMax32 fp), rfl, lanewise_map32 _⟩
  · exact ⟨fun _ => map64 (evexMax64 fp), rfl, lanewise_map64 _⟩
  · exact ⟨fun _ _ b => packU32 fun e => (fp.f32 .current).sqrt (laneU32 b e), rfl,
      lanewise_packU32 _⟩
  · exact ⟨fun _ _ b => packU64 fun e => (fp.f64 .current).sqrt (laneU64 b e), rfl,
      lanewise_packU64 _⟩

/-! ### The memory source -/

section Source

variable {σ : Type} {at_ : Attached σ} {c : Cpu} {w : World σ}
  {i : Insn} {size : Nat} (hattached : at_.memRead.isSome = true)
  (hmem : i.src.isMem = true)
include hattached hmem

/-- The read of the integer driver has the vector length. -/
theorem evexIo_reads : ∃ r c' w',
    (evexIo.read i i.src i.opSize).EndsReading at_ c w [(ea c i i.src, i.opSize)] r c' w' := by
  have hload : ∃ r c' w', H.EndsReading (do
      let rip ← gets Cpu.rip
      requireAttached false rip evexIo.readNote
      let addr ← gets fun c => ea c i i.src
      load addr i.opSize pageFault evexIo.readNote) at_ c w [(ea c i i.src, i.opSize)] r c' w' := by
    rcases hread : at_.env (.read (ea c i i.src) i.opSize) w with ⟨s | buf, w'⟩
    · exact ⟨_, _, _, (endsReading_gets _).bind <| (endsReading_attached hattached).bind <|
        (endsReading_gets _).bind <| endsReading_load_fails hread⟩
    · exact ⟨_, _, _, (endsReading_gets _).bind <| (endsReading_attached hattached).bind <|
        (endsReading_gets _).bind <| endsReading_load hread⟩
  unfold VecIo.read
  cases hkind : i.src.kind with
  | none | reg | imm | rel | xmm =>
      rw [Operand.isMem, hkind] at hmem
      cases hmem
  | mem => exact hload
  | ripRelMem => exact hload

variable (hb : isBroadcast i = true)
include hb

/-- The read of the floating-point driver has the size of one element. -/
theorem readVecOrBroadcast_eq (c : Cpu) (w : World σ) :
    (∀ buf w', at_.env (.read (ea c i i.src) size) w = ((.ok buf : Except Status Buf), w') →
      (readVecOrBroadcast size i i.src).EndsReading at_ c w [(ea c i i.src, size)]
        (some fun k => buf (k % size)) c w') ∧
    (∀ s w', at_.env (.read (ea c i i.src) size) w = ((.error s : Except Status Buf), w') →
      (readVecOrBroadcast size i i.src).EndsReading at_ c w [(ea c i i.src, size)] none
        (c.setFault .pageFault (ea c i i.src) s (some "evex bcast read")) w') := by
  have hnot : ¬ i.src.kind = .xmm := by
    intro hkind
    rw [Operand.isMem, hkind] at hmem
    cases hmem
  rw [readVecOrBroadcast, if_neg hnot]
  simp only [if_pos hb]
  constructor
  · intro buf w' hread
    exact (endsReading_gets _).bind <| (endsReading_attached hattached).bind <|
      (endsReading_gets _).bind <| (endsReading_load hread).bind <| endsReading_pure _
  · intro s w' hread
    exact (endsReading_gets _).bind <| (endsReading_attached hattached).bind <|
      (endsReading_gets _).bind <| (endsReading_load_fails hread).stop

end Source

/-! ### The instructions -/

section Instructions

variable {fp : HostFp} {i : Insn}

theorem onRegister_plain (i : Insn) (r : Nat) : isBroadcast (i.onRegister r) = false := by
  have hbit : (~~~0x10#16).getLsbD 4 = false := by decide
  rw [isBroadcast_eq, Insn.onRegister, BitVec.getLsbD_and, hbit, Bool.and_false]

/-- The operation of the integer driver. -/
theorem isOperation_masked {f : Buf → Buf → Buf}
    (hcode : callHandler fp i.handler = maskedBinop i.handler.laneSize f)
    (hf : Lanewise i.handler.laneSize f) : IsOperation fp i f := by
  refine ⟨hf, fun r => ⟨?_⟩⟩
  have hrun : (i.onRegister r).run fp = maskedBinop i.handler.laneSize f (i.onRegister r) :=
    congrFun hcode _
  rw [hrun, maskedBinop, VecIo.read_xmm _ (i.onRegister r) rfl]
  rfl

/-- The operation of the floating-point driver. -/
theorem isOperation_float {f : HostRounding → Buf → Buf → Buf}
    (hcode : callHandler fp i.handler = fpBinop i.handler.laneSize f)
    (hf : Lanewise i.handler.laneSize (f .current)) : IsOperation fp i (f .current) := by
  refine ⟨hf, fun r => ⟨?_⟩⟩
  have hrun : (i.onRegister r).run fp = fpBinop i.handler.laneSize f (i.onRegister r) :=
    congrFun hcode _
  have hplain : ¬ ((i.onRegister r).src.kind = .xmm ∧ isBroadcast (i.onRegister r) = true) := by
    rw [onRegister_plain]
    exact fun hand => Bool.false_ne_true hand.2
  have hkind : (i.onRegister r).src.kind = .xmm := rfl
  rw [hrun, fpBinop, readVecOrBroadcast, if_pos hkind, fpRounding, if_neg hplain]
  rfl

variable {σ : Type} {at_ : Attached σ} {c : Cpu} {w : World σ} (hmem : i.src.isMem = true)
include hmem

theorem fpRounding_mem : fpRounding i = .current := by
  have hnot : ¬ (i.src.kind = .xmm ∧ isBroadcast i = true) := by
    rintro ⟨hkind, _⟩
    rw [Operand.isMem, hkind] at hmem
    cases hmem
  rw [fpRounding, if_neg hnot]

/-- The floating-point driver obeys the law. -/
theorem broadcast_float (hb : isBroadcast i = true) {f : HostRounding → Buf → Buf → Buf}
    (hcode : callHandler fp i.handler = fpBinop i.handler.laneSize f) :
    BroadcastLaw fp i (f .current) at_ c w := by
  have hrun : i.run fp = fpBinop i.handler.laneSize f i := congrFun hcode i
  have hdone {buf : Buf} {w' : World σ}
      (hread : at_.env (.read (ea c i i.src) i.handler.laneSize) w =
        ((.ok buf : Except Status Buf), w')) :
      (i.run fp).EndsReading at_ c w [(ea c i i.src, i.handler.laneSize)] (some ())
        (i.withSource (f .current) (fun k => buf (k % i.handler.laneSize)) c) w' := by
    have hsource :=
      (readVecOrBroadcast_eq (Attached.memRead_isSome hread) hmem hb c w).1 buf w' hread
    rw [hrun, fpBinop, fpRounding_mem hmem]
    exact (endsReading_gets _).bind <| (endsReading_gets _).bind <| hsource.bind <|
      (endsReading_gets _).bind <| endsReading_modify _
  constructor
  · intro hattached
    rcases hread : at_.env (.read (ea c i i.src) i.handler.laneSize) w with ⟨s | buf, w'⟩
    · have hsource := (readVecOrBroadcast_eq hattached hmem hb c w).2 s w' hread
      rw [hrun, fpBinop]
      exact ((endsReading_gets _).bind <| (endsReading_gets _).bind hsource.stop).runOn.2.2
    · exact (hdone hread).runOn.2.2
  · intro buf w' hread
    obtain ⟨hvalue, hworld, _⟩ := (hdone hread).runOn
    exact ⟨hvalue, hworld⟩

/-- The integer driver obeys it only where no memory is attached. -/
theorem broadcast_masked {f : Buf → Buf → Buf}
    (hcode : callHandler fp i.handler = maskedBinop i.handler.laneSize f)
    (hsize : i.handler.laneSize < i.opSize) {F : Buf → Buf → Buf} :
    BroadcastLaw fp i F at_ c w ↔ at_.memRead.isSome = false := by
  have hrun : i.run fp = maskedBinop i.handler.laneSize f i := congrFun hcode i
  constructor
  · intro hlaw
    by_contra hnot
    have hattached : at_.memRead.isSome = true := Bool.not_eq_false _ |>.mp hnot
    have hreads : readsOf ((i.run fp).runOn at_ c w).trace = [(ea c i i.src, i.opSize)] := by
      obtain ⟨r, c', w', hsource⟩ := evexIo_reads (c := c) (w := w) hattached hmem
      rw [hrun, maskedBinop]
      cases r with
      | none =>
          exact ((endsReading_gets _).bind <| (endsReading_gets _).bind hsource.stop).runOn.2.2
      | some buf =>
          exact ((endsReading_gets _).bind <| (endsReading_gets _).bind <| hsource.bind <|
            (endsReading_gets _).bind <| endsReading_modify _).runOn.2.2
    have hone := hreads.symm.trans (hlaw.reads hattached)
    have hlength : i.opSize = i.handler.laneSize := by
      simp only [List.cons.injEq, Prod.mk.injEq, and_true, true_and] at hone
      exact hone
    omega
  · intro hnone
    constructor
    · intro hattached
      rw [hnone] at hattached
      cases hattached
    · intro buf w' hread
      have hattached := Attached.memRead_isSome hread
      rw [hnone] at hattached
      cases hattached

end Instructions

/-- An accepted instruction with EVEX.b and a memory source reads one element for all lanes exactly
where it is a floating-point instruction, or no memory is attached to be read. -/
theorem evex_broadcast_iff (fp : HostFp) {fetch : Fetch} {rip : GuestAddr} {fuel p : Nat}
    {e : EvexBytes} {i : Insn} (hdecoded : decodeWithSource fetch rip fuel = some (.ok i))
    (hat : EvexAt fetch p e) (hmap : e.map = 1) (hb : e.b = true) (hmem : i.src.isMem = true) :
    ∃ F, IsOperation fp i F ∧ ∀ (σ : Type) (at_ : Attached σ) (c : Cpu) (w : World σ),
      BroadcastLaw fp i F at_ c w ↔
        i.handler ∈ evexFloat.map Prod.fst ∨ at_.memRead.isSome = false := by
  obtain ⟨hhandler, hbroadcast, hwidth⟩ := memorySource_of_decoded hdecoded hat hmap hb hmem
  by_cases hfloat : i.handler ∈ evexFloat.map Prod.fst
  · obtain ⟨f, hcode, hlanes⟩ := float_code fp (laneSize_float _ hfloat)
    refine ⟨f .current, isOperation_float hcode hlanes, fun σ at_ c w => ?_⟩
    exact iff_of_true (broadcast_float hmem hbroadcast hcode) (.inl hfloat)
  · obtain ⟨row, hrow, hhandler', hsize⟩ := (laneSize_masked _ hhandler).resolve_left hfloat
    have hmasked : (i.handler, i.handler.laneSize, row.2.2) ∈ evexMasked := by
      rw [← hsize, ← hhandler']
      exact hrow
    obtain ⟨f, hf, hcode⟩ := masked_code fp hmasked
    have hlanes : Lanewise i.handler.laneSize f := by
      intro a a' b b' e ha hb
      rw [hf, hf, ha, hb]
    have hshort := masked_size hmasked
    refine ⟨f, isOperation_masked hcode hlanes, fun σ at_ c w => ?_⟩
    rw [broadcast_masked hmem hcode (by omega)]
    exact ⟨.inr, fun h => h.resolve_left hfloat⟩

/-- `vaddps zmm0, zmm1, dword [rax] {1to16}` and `vpaddd` with the same operands. -/
def vaddpsBroadcast : List U8 := [0x62, 0xF1, 0x74, 0x58, 0x58, 0x00]
def vpadddBroadcast : List U8 := [0x62, 0xF1, 0x75, 0x58, 0xFE, 0x00]

/-- What they decode to. -/
def broadcastFrom (handler : Handler) (kind : OpKind) (flags : InsnFlags) : Insn :=
  { handler, kind, opSize := 64, len := 6, cond := .none, flags, pad := 0x10
    dst := { kind := .xmm, reg := 0, index := 17 }
    src := { kind := .mem, reg := 0, index := Reg.none } }

def vpadddFromRax : Insn :=
  broadcastFrom .opVpadddEvex .vpadddEvex { opsizePfx := true, vex := true }

theorem vpadddFromRax_decoded :
    decodeWithSource (bufFetch (bufOf vpadddBroadcast) 6) 0 1 = some (.ok vpadddFromRax) := rfl

theorem evex_broadcast_iff_vaddps :
    ∃ F, IsOperation default (broadcastFrom .opVaddpsEvex .vaddpsEvex { vex := true }) F ∧
      ∀ (σ : Type) (at_ : Attached σ) (c : Cpu) (w : World σ),
        BroadcastLaw default (broadcastFrom .opVaddpsEvex .vaddpsEvex { vex := true }) F at_ c w ↔
          (broadcastFrom .opVaddpsEvex .vaddpsEvex { vex := true }).handler ∈
              evexFloat.map Prod.fst ∨ at_.memRead.isSome = false := by
  have hdecoded : decodeWithSource (bufFetch (bufOf vaddpsBroadcast) 6) 0 1 =
      some (.ok (broadcastFrom .opVaddpsEvex .vaddpsEvex { vex := true })) := rfl
  exact evex_broadcast_iff default hdecoded evexAt_bufFetch (by decide) (by decide) rfl

/-- `vpaddd` reads the whole vector. -/
theorem not_broadcastLaw_vpaddd :
    ¬ ∀ (fp : HostFp) (fetch : Fetch) (rip : GuestAddr) (fuel p : Nat) (e : EvexBytes) (i : Insn),
      decodeWithSource fetch rip fuel = some (.ok i) → EvexAt fetch p e → e.map = 1 →
        e.b = true → i.src.isMem = true → (i.handler.laneSize = 4 ∨ i.handler.laneSize = 8) →
          ∃ F, IsOperation fp i F ∧ ∀ (σ : Type) (at_ : Attached σ) (c : Cpu) (w : World σ),
            BroadcastLaw fp i F at_ c w := by
  intro hall
  have hfour : vpadddFromRax.handler.laneSize = 4 := by decide +kernel
  obtain ⟨F, _, hlaw⟩ := hall default _ _ _ _ _ _ vpadddFromRax_decoded evexAt_bufFetch (by decide)
    (by decide) rfl (.inl hfour)
  have hone := (hlaw Unit zeroed {} { mem := () }).reads rfl
  have hwhole : readsOf ((vpadddFromRax.run default).runOn zeroed {} { mem := () }).trace =
      [(ea {} vpadddFromRax vpadddFromRax.src, 64)] := rfl
  rw [hwhole, hfour] at hone
  have hsize : (64 : Nat) = 4 := (Prod.mk.inj (List.cons.inj hone).1).2
  omega

end PicoCpu
