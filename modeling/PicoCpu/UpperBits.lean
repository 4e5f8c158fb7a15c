import PicoCpu.SseFrame
import PicoCpu.VexHalves

/-!
What vector instructions leave above their vector length. The writes of the 256-bit forms of
`avx.cpp` and `gather.cpp` stop at byte 32 and clear nothing, and VZEROALL does not reach the
bytes above either.
-/

namespace PicoCpu

open H Proc Handlers Decode

/-! ### The law -/

/-- The vector length that the prefix selects. -/
def Prefixes.vectorLength (px : Prefixes) : Nat :=
  if px.isEvex then px.evexVectorSize else px.vexSize

/-- The EVEX-encoded handlers that write a vector register. -/
def evexWriters : List Handler := evexBinopHandlers ++ evexMoveHandlers ++ evexSqrtHandlers

/-- The vector registers that a VEX- or EVEX-encoded instruction writes; a gather also clears its
mask. -/
def Insn.writes (i : Insn) : List Nat :=
  if i.handler ∈ gatherHandlers then [i.dst.reg, i.dst.index]
  else if i.handler ∈ evexWriters then [i.dst.reg]
  else if i.handler ∈ avxHandlers ++ phase10Handlers ++ vexMoveHandlers ∧ i.dst.kind = .xmm then
    [i.dst.reg]
  else []

/-- The bytes of the register from `n` on are zero. -/
def ClearFrom (n reg : Nat) (c : Cpu) : Prop := ∀ k, n ≤ k → k < 64 → c.zmm reg k = 0

/-- What an instruction decoded behind these prefixes does to the bytes above its vector length,
in every run. -/
structure UpperLaw (fp : HostFp) (px : Prefixes) (i : Insn) : Prop where
  cleared : px.isVex = true → ∀ (σ : Type) (at_ : Attached σ) (c : Cpu) (w : World σ),
    ((i.run fp).runOn at_ c w).value.1 = some () → ∀ r ∈ i.writes,
      ClearFrom px.vectorLength r ((i.run fp).runOn at_ c w).value.2
  zeroUpper : i.handler = .opVzeroupper → ∀ (σ : Type) (at_ : Attached σ) (c : Cpu) (w : World σ),
    ∀ r < 16, ClearFrom 16 r ((i.run fp).runOn at_ c w).value.2
  zeroAll : i.handler = .opVzeroall → ∀ (σ : Type) (at_ : Attached σ) (c : Cpu) (w : World σ),
    ∀ r < 16, ClearFrom 0 r ((i.run fp).runOn at_ c w).value.2
  kept : px.isVex = false → i.handler.isSse = true → ∀ (σ : Type) (at_ : Attached σ),
    at_.HooksFollow (SameFrom 16) → ∀ (c : Cpu) (w : World σ),
      SameFrom 16 c ((i.run fp).runOn at_ c w).value.2

/-- The instructions that leave old bytes above their vector length: VZEROALL, and with VEX.256
what `avx.cpp` and `gather.cpp` write to a register. -/
def Insn.leavesOld (px : Prefixes) (i : Insn) : Prop :=
  i.handler = .opVzeroall ∨
    (px.isVex = true ∧ px.isEvex = false ∧ px.vexL = true) ∧
      (i.handler ∈ avxHandlers ∨ i.handler ∈ gatherHandlers ∨
        i.handler ∈ vexMoveHandlers ∧ i.dst.kind = .xmm)

/-! ### Cleared bytes -/

namespace ClearFrom

variable {n reg : Nat} {c : Cpu}

theorem mono {m : Nat} (h : ClearFrom m reg c) (hmn : m ≤ n) : ClearFrom n reg c :=
  fun k hk hk64 => h k (hmn.trans hk) hk64

theorem of_zeroYmmUpper (c : Cpu) (reg : Nat) : ClearFrom 16 reg (c.zeroYmmUpper reg) :=
  fun _ hk hk64 => zmm_zeroYmmUpper_high c reg hk hk64

theorem of_zeroZmmUpper (c : Cpu) (reg width : Nat) :
    ClearFrom width reg (c.zeroZmmUpper reg width) := by
  intro k hk hk64
  have hrange : width ≤ k ∧ k < width + (64 - width) := by omega
  rw [Cpu.zeroZmmUpper, Cpu.zmm_setZmmBytes, if_pos hrange]

theorem zeroYmmUpper (h : ClearFrom 16 reg c) (r : Nat) : ClearFrom 16 reg (c.zeroYmmUpper r) := by
  by_cases hr : reg = r
  · subst hr
    exact of_zeroYmmUpper c reg
  · intro k hk hk64
    rw [Cpu.zeroYmmUpper, Cpu.zmm_setZmmBytes_of_ne c hr]
    exact h k hk hk64

/-- A write of sixteen bytes by a gather. -/
theorem of_setVec (reg : Nat) (v : Buf) (c : Cpu) : ClearFrom 16 reg (setVec reg 16 v c) := by
  rw [setVec, if_pos rfl]
  exact of_zeroYmmUpper _ reg

theorem setVec (h : ClearFrom 16 reg c) (r : Nat) (v : Buf) :
    ClearFrom 16 reg (setVec r 16 v c) := by
  by_cases hr : reg = r
  · subst hr
    exact of_setVec reg v c
  · rw [Handlers.setVec, if_pos rfl]
    intro k hk hk64
    rw [Cpu.zeroYmmUpper, Cpu.zmm_setZmmBytes_of_ne _ hr, Cpu.zmm_setZmmBytes_of_ne c hr]
    exact h k hk hk64

theorem foldl_zeroYmmUpper {regs : List Nat} (h : reg ∈ regs ∨ ClearFrom 16 reg c) :
    ClearFrom 16 reg (regs.foldl (fun c r => c.zeroYmmUpper r) c) := by
  induction regs generalizing c with
  | nil => exact h.resolve_left (List.not_mem_nil)
  | cons r rest ih =>
      rw [List.foldl_cons]
      apply ih
      rcases h with hmem | hclear
      · rcases List.mem_cons.mp hmem with rfl | hrest
        · exact .inr (of_zeroYmmUpper c reg)
        · exact .inl hrest
      · exact .inr (hclear.zeroYmmUpper r)

end ClearFrom

/-! ### Handlers that clear -/

/-- Where the program does not return early, it ends in a CPU that satisfies `P`. -/
structure Leaves (P : Cpu → Prop) {α : Type} (p : H α) : Prop where
  post : ∀ c, p.Post anyAnswer c fun _ a c' => a.isSome = true → P c'

namespace Leaves

variable {α β : Type} {P : Cpu → Prop}

theorem modify {f : Cpu → Cpu} (hf : ∀ c, P (f c)) : Leaves P (Proc.modify f) :=
  ⟨fun c _ => hf c⟩

/-- What comes before the last step does not matter. -/
theorem bind {p : H α} {f : α → H β} (hf : ∀ a, Leaves P (f a)) : Leaves P (p >>= f) := by
  refine ⟨fun c => post_bind.mpr (Post.of_forall fun tr a c' => ?_)⟩
  cases a with
  | none => exact fun hnone => Bool.noConfusion hnone
  | some a => exact (hf a).post c'

theorem mono {Q : Cpu → Prop} {p : H α} (h : Leaves P p) (hPQ : ∀ c, P c → Q c) : Leaves Q p :=
  ⟨fun c => (h.post c).mono fun _ _ _ hc hsome => hPQ _ (hc hsome)⟩

theorem runOn {p : H Unit} (h : Leaves P p) {σ : Type} (at_ : Attached σ) (c : Cpu) (w : World σ)
    (hdone : (p.runOn at_ c w).value.1 = some ()) : P (p.runOn at_ c w).value.2 := by
  apply post_runOn (h.post c) at_ w
  rw [hdone]
  rfl

section Handlers

variable {insn : Insn}

theorem writeVec (hdst : insn.dst.kind = .xmm) (hwidth : insn.opSize = 16) (v : Buf) :
    Leaves (ClearFrom 16 insn.dst.reg) (writeVec insn v) := by
  apply bind
  intro _
  rw [if_pos ⟨hdst, hwidth⟩]
  exact modify fun c => ClearFrom.of_zeroYmmUpper c _

theorem vexBinop (hdst : insn.dst.kind = .xmm) (hwidth : insn.opSize = 16)
    (f : Buf → Buf → Buf) : Leaves (ClearFrom 16 insn.dst.reg) (vexBinop f insn) := by
  apply bind
  intro a
  apply bind
  intro b
  exact writeVec hdst hwidth _

theorem opVmovdqa (hdst : insn.dst.kind = .xmm) (hwidth : insn.opSize = 16) :
    Leaves (ClearFrom 16 insn.dst.reg) (opVmovdqa insn) := by
  apply bind
  intro v
  exact writeVec hdst hwidth v

theorem vexBinopXmm (hdst : insn.dst.kind = .xmm) (hvex : insn.flags.vex = true)
    (f : Insn → Buf → Buf → Buf) :
    Leaves (ClearFrom 16 insn.dst.reg) (vexBinopXmm f insn) := by
  apply bind
  intro a
  apply bind
  intro b
  apply bind
  intro _
  rw [if_pos ⟨hdst, hvex⟩]
  exact modify fun c => ClearFrom.of_zeroYmmUpper c _

/-- The mask is written last, and may be the destination. -/
theorem doGather (hwidth : insn.opSize = 16) {r : Nat} (hr : r ∈ [insn.dst.reg, insn.dst.index]) :
    Leaves (ClearFrom 16 r) (doGather insn) := by
  have hwrites (dst mask : Buf) : Leaves (ClearFrom 16 r) (do
      Proc.modify (setVec insn.dst.reg insn.opSize dst)
      Proc.modify (setVec insn.dst.index insn.opSize mask) : H Unit) := by
    refine ⟨fun c _ => ?_⟩
    change ClearFrom 16 r (setVec insn.dst.index insn.opSize mask
      (setVec insn.dst.reg insn.opSize dst c))
    rw [hwidth]
    rcases List.mem_cons.mp hr with rfl | hr
    · exact (ClearFrom.of_setVec _ dst c).setVec _ mask
    · rw [List.mem_singleton.mp hr]
      exact ClearFrom.of_setVec _ mask _
  iterate 7
    apply bind
    intro _
  exact hwrites _ _

theorem writeZmm (insn : Insn) (v : Buf) :
    Leaves (ClearFrom insn.opSize insn.dst.reg) (writeZmm insn v) :=
  modify fun _ => ClearFrom.of_zeroZmmUpper _ _ _

theorem maskedBinop (size : Nat) (f : Buf → Buf → Buf) (insn : Insn) :
    Leaves (ClearFrom insn.opSize insn.dst.reg) (maskedBinop size f insn) := by
  iterate 4
    apply bind
    intro _
  exact writeZmm insn _

theorem maskedMove (size : Nat) (insn : Insn) :
    Leaves (ClearFrom insn.opSize insn.dst.reg) (maskedMove size insn) := by
  iterate 3
    apply bind
    intro _
  exact writeZmm insn _

theorem fpBinop (size : Nat) (f : HostRounding → Buf → Buf → Buf) (insn : Insn) :
    Leaves (ClearFrom insn.opSize insn.dst.reg) (fpBinop size f insn) := by
  iterate 4
    apply bind
    intro _
  exact writeZmm insn _

theorem fpUnop (size : Nat) (f : Buf → Buf) (insn : Insn) :
    Leaves (ClearFrom insn.opSize insn.dst.reg) (fpUnop size f insn) := by
  iterate 3
    apply bind
    intro _
  exact writeZmm insn _

end Handlers

end Leaves

theorem leaves_evexWriters (fp : HostFp) {h : Handler} (hh : h ∈ evexWriters) (insn : Insn) :
    Leaves (ClearFrom insn.opSize insn.dst.reg) (callHandler fp h insn) := by
  rw [evexWriters, List.mem_append, List.mem_append] at hh
  delta PicoCpu.callHandler
  rcases hh with (hbinop | hmove) | hsqrt
  · simp only [evexBinopHandlers, List.mem_cons, List.not_mem_nil, or_false] at hbinop
    rcases hbinop with rfl | rfl | rfl | rfl | rfl | rfl | rfl | rfl | rfl | rfl | rfl | rfl | rfl |
      rfl | rfl | rfl | rfl | rfl | rfl | rfl | rfl | rfl | rfl | rfl | rfl | rfl
    iterate 14
      · apply Leaves.maskedBinop
    iterate 12
      · apply Leaves.fpBinop
  · simp only [evexMoveHandlers, List.mem_cons, List.not_mem_nil, or_false] at hmove
    rcases hmove with rfl | rfl | rfl | rfl
    iterate 4
      · apply Leaves.maskedMove
  · simp only [evexSqrtHandlers, List.mem_cons, List.not_mem_nil, or_false] at hsqrt
    rcases hsqrt with rfl | rfl
    · apply Leaves.fpUnop
    · apply Leaves.fpUnop

theorem gatherHandlers_eq (fp : HostFp) {h : Handler} (hh : h ∈ gatherHandlers) :
    callHandler fp h = doGather := by
  simp only [gatherHandlers, List.mem_cons, List.not_mem_nil, or_false] at hh
  rcases hh with rfl | rfl | rfl | rfl | rfl | rfl | rfl | rfl
  iterate 8
    · rfl

theorem vexMoveHandlers_eq (fp : HostFp) {h : Handler} (hh : h ∈ vexMoveHandlers) :
    callHandler fp h = opVmovdqa := by
  simp only [vexMoveHandlers, List.mem_cons, List.not_mem_nil, or_false] at hh
  rcases hh with rfl | rfl
  · rfl
  · rfl

/-! ### Handlers that leave old bytes -/

/-- Memory is attached and its reads succeed. -/
def obliging : machine.Rely
  | .attached _, present => present = true
  | .read _ _, r => ∃ buf, r = (.ok buf : Except Status Buf)
  | .memHooks _ _ _ _, _ => True
  | .write _ _ _, _ => True
  | .nextTsc, _ => True
  | .nextRand, _ => True

/-- The program ends, and with the bytes it started with from the 32nd on. -/
structure LeavesOld {α : Type} (p : H α) : Prop where
  post : ∀ c, p.Post obliging c fun _ a c' => a.isSome = true ∧ SameFrom 32 c c'

namespace LeavesOld

variable {α β : Type}

theorem ret (a : α) : LeavesOld (pure a : H α) := ⟨fun c => ⟨rfl, SameFrom.refl c⟩⟩

theorem gets (f : Cpu → α) : LeavesOld (H.gets f) := ⟨fun c => ⟨rfl, SameFrom.refl c⟩⟩

theorem modify {f : Cpu → Cpu} (hf : ∀ c, SameFrom 32 c (f c)) : LeavesOld (Proc.modify f) :=
  ⟨fun c => ⟨rfl, hf c⟩⟩

theorem bind {p : H α} {f : α → H β} (hp : LeavesOld p) (hf : ∀ a, LeavesOld (f a)) :
    LeavesOld (p >>= f) := by
  refine ⟨fun c => post_bind.mpr ((hp.post c).mono ?_)⟩
  rintro tr a c' ⟨hsome, hc⟩
  cases a with
  | none => cases hsome
  | some a =>
      apply ((hf a).post c').mono
      rintro tr' b c'' ⟨hsome', hc'⟩
      exact ⟨hsome', hc.trans hc'⟩

theorem requireAttached (addr : GuestAddr) (note : String) :
    LeavesOld (PicoCpu.requireAttached false addr note) := by
  refine ⟨fun c => post_ask_bind.mpr fun present hpresent => ?_⟩
  have htrue : present = true := hpresent
  subst htrue
  exact ⟨rfl, SameFrom.refl c⟩

theorem load (addr : GuestAddr) (size : Nat) (kind : Status → FaultKind) (note : String) :
    LeavesOld (H.load addr size kind note) := by
  refine ⟨fun c => post_ask_bind.mpr ?_⟩
  rintro r ⟨buf, rfl⟩
  exact ⟨rfl, SameFrom.refl c⟩

section Handlers

variable {insn : Insn}

theorem vecRead (io : VecIo) {op : Operand} (hop : op.kind = .xmm ∨ op.isMem = true) (size : Nat) :
    LeavesOld (io.read insn op size) := by
  have hmem : LeavesOld (do
      let rip ← H.gets Cpu.rip
      PicoCpu.requireAttached false rip io.readNote
      let addr ← H.gets fun c => ea c insn op
      H.load addr size pageFault io.readNote : H Buf) := by
    apply bind (gets _)
    intro rip
    apply bind (requireAttached ..)
    intro _
    apply bind (gets _)
    intro addr
    exact load ..
  unfold VecIo.read
  cases hkind : op.kind with
  | xmm => exact gets _
  | mem => exact hmem
  | ripRelMem => exact hmem
  | none | reg | imm | rel => simp [Operand.isMem, hkind] at hop

variable (hdst : insn.dst.kind = .xmm) (hwidth : insn.opSize = 32)

theorem setVec (reg : Nat) (v : Buf) (c : Cpu) : SameFrom 32 c (setVec reg 32 v c) :=
  SameFrom.setZmmBytes c reg (Nat.le_refl 32) v

include hwidth

/-- A gather reads the memory of the lanes whose mask bit is set. -/
theorem doGather : LeavesOld (doGather insn) := by
  have hlanes (base : GuestAddr) (idxVec : Buf) (n lane : Nat) (dst mask : Buf) :
      LeavesOld (gatherLanes insn base idxVec n lane dst mask) := by
    induction n generalizing lane dst mask with
    | zero => exact ret _
    | succ n ih =>
        rw [gatherLanes]
        split
        · apply bind (load ..)
          intro buf
          exact ih ..
        · exact ih ..
  apply bind (gets _)
  intro rip
  apply bind (requireAttached ..)
  intro _
  apply bind (gets _)
  intro idxVec
  apply bind (gets _)
  intro mask
  apply bind (gets _)
  intro dst
  apply bind (gets _)
  intro base
  apply bind (hlanes ..)
  rintro ⟨dst', mask'⟩
  rw [hwidth]
  exact bind (modify (setVec _ dst')) fun _ => modify (setVec _ mask')

include hdst

theorem writeVec (v : Buf) : LeavesOld (writeVec insn v) := by
  have hnarrow : ¬ (insn.dst.kind = .xmm ∧ insn.opSize = 16) := fun hand => by omega
  unfold Handlers.writeVec
  rw [if_neg hnarrow, VecIo.write_xmm _ insn hdst, hwidth]
  apply bind (modify fun c => SameFrom.setZmmBytes c _ (Nat.le_refl 32) v)
  intro _
  exact ret ()

variable (hsrc : insn.src.kind = .xmm ∨ insn.src.isMem = true)

include hsrc

theorem vexBinop (f : Buf → Buf → Buf) : LeavesOld (vexBinop f insn) := by
  apply bind (gets _)
  intro a
  apply bind (vecRead vexIo hsrc _)
  intro b
  exact writeVec hdst hwidth _

theorem opVmovdqa : LeavesOld (opVmovdqa insn) := by
  apply bind (vecRead vexIo hsrc _)
  intro v
  exact writeVec hdst hwidth v

end Handlers

end LeavesOld

/-! ### Decoded instructions -/

/-- A clause of the EVEX maps binds an EVEX handler and sizes the instruction by EVEX.L'L. -/
def EvexSized (px : Prefixes) (i : Insn) : Prop :=
  i.handler ∈ evexWriters ++ scatterHandlers ∧ i.flags.vex = true ∧ i.opSize = px.evexVectorSize

theorem sized_decodeEvexOpRm (px : Prefixes) (out : Insn) (kind : OpKind) {h : Handler}
    (hh : h ∈ evexWriters) (regToRm : Bool) :
    Parse.Post (decodeEvexOpRm px out kind h regToRm) fun i _ => EvexSized px i := by
  rw [decodeEvexOpRm, readModrm_bind]
  refine Parse.post_next fun mb => ?_
  refine Parse.post_bind (Parse.post_yields _) fun rm bs _ => Parse.post_ret ?_
  exact ⟨List.mem_append_left _ hh, rfl, rfl⟩

theorem evexClauses_sized (px : Prefixes) (out : Insn) :
    EvexClauses px out fun _ i _ => EvexSized px i where
  binop _ op _ kind h hh := by
    rw [decodeEvexOpRmv, readModrm_bind]
    refine Parse.post_next fun mb => ?_
    refine Parse.post_bind (Parse.post_yields _) fun src bs _ => Parse.post_ret ?_
    exact ⟨List.mem_append_left _ (List.mem_append_left _ (List.mem_append_left _ hh)), rfl, rfl⟩
  load _ kind h hh :=
    sized_decodeEvexOpRm px out kind
      (List.mem_append_left _ (List.mem_append_right _ hh)) false
  store _ kind h hh :=
    sized_decodeEvexOpRm px out kind
      (List.mem_append_left _ (List.mem_append_right _ hh)) true
  sqrt _ kind h hh := sized_decodeEvexOpRm px out kind (List.mem_append_right _ hh) false
  scatter _ op kind h hh dataLane indexLane := by
    rw [decodeEvexScatter, readModrm_bind]
    refine Parse.post_next fun mb => ?_
    split
    · exact Parse.post_fail
    · refine Parse.post_bind (Parse.post_yields _) fun src bs _ => Parse.post_ret ?_
      exact ⟨List.mem_append_right _ hh, rfl, rfl⟩

section Decoded

variable {fetch : Fetch} {rip : GuestAddr} {fuel : Nat} {px : Prefixes} {i : Insn}
  (h : DecodedBehind fetch rip fuel px i)

include h

theorem DecodedBehind.evexSized (hisVex : px.isVex = true) (hisEvex : px.isEvex = true) :
    EvexSized px i := by
  obtain ⟨c, out, bs, _, hyields, _, len, rfl⟩ := h.yields
  rw [decodeAfterPrefixes, if_pos hisVex, decodeVex, if_pos hisEvex] at hyields
  obtain ⟨op, rest, _, hout⟩ := (evexClauses_sized px (px.insn rip)).decodes bs out hyields
  exact hout

theorem DecodedBehind.vexSized (hisVex : px.isVex = true) (hisEvex : px.isEvex = false) :
    VexSized px i := by
  obtain ⟨c, out, bs, _, hyields, _, len, rfl⟩ := h.yields
  rw [decodeAfterPrefixes, if_pos hisVex] at hyields
  obtain ⟨op, rest, _, hout⟩ := (vexClauses_sized px (px.insn rip)).decodes hisEvex bs out hyields
  exact hout

theorem DecodedBehind.unmarked (hisVex : px.isVex = false) : i.flags.vex = false := by
  obtain ⟨c, out, bs, _, hyields, _, len, rfl⟩ := h.yields
  exact decodeAfterPrefixes_unmarked hisVex rip bs out hyields

/-- A handler of the VEX maps is not behind an EVEX prefix. -/
theorem DecodedBehind.isEvex_eq (hisVex : px.isVex = true)
    (hh : i.handler ∈ gatherHandlers ++ (avxHandlers ++ phase10Handlers ++ vexMoveHandlers)) :
    px.isEvex = false := by
  have hdisjoint : ∀ g ∈ gatherHandlers ++ (avxHandlers ++ phase10Handlers ++ vexMoveHandlers),
      g ∉ evexWriters ++ scatterHandlers := by decide
  cases hisEvex : px.isEvex with
  | false => rfl
  | true => exact absurd (h.evexSized hisVex hisEvex).1 (hdisjoint _ hh)

/-- What the maps decode has the vector length for its size. -/
theorem DecodedBehind.sized (hisVex : px.isVex = true) (hbmi : i.handler ∉ bmiHandlers)
    (hvzero : i.handler ∉ vzeroHandlers) :
    i.flags.vex = true ∧ i.opSize = px.vectorLength := by
  unfold Prefixes.vectorLength
  cases hisEvex : px.isEvex with
  | true => exact (h.evexSized hisVex hisEvex).2
  | false => exact h.vexSized hisVex hisEvex hbmi hvzero

/-- The operands of the VEX handlers of vector registers. -/
theorem DecodedBehind.operands (hh : i.handler ∈ avxHandlers ++ phase10Handlers) :
    i.dst.kind = .xmm ∧ (i.src.kind = .xmm ∨ i.src.isMem = true) := by
  obtain ⟨f, hf, hadmits⟩ := (decodeWithSource_accepted h.accepted).fits
  have hforms : ∀ g ∈ avxHandlers ++ phase10Handlers, g.forms = [⟨.xmm, .xmmRm, []⟩] := by decide
  rw [hforms i.handler hh, List.mem_singleton] at hf
  subst hf
  simp only [Form.admits, OperandSlot.admits, Bool.and_eq_true, Bool.or_eq_true,
    beq_iff_eq] at hadmits
  exact hadmits.1

theorem DecodedBehind.moveOperands (hh : i.handler ∈ vexMoveHandlers) :
    i.src.kind = .xmm ∨ i.src.isMem = true := by
  obtain ⟨f, hf, hadmits⟩ := (decodeWithSource_accepted h.accepted).fits
  have hforms : ∀ g ∈ vexMoveHandlers,
      g.forms = [⟨.xmm, .xmmRm, []⟩, ⟨.xmmRm, .xmm, []⟩] := by decide
  rw [hforms i.handler hh, List.mem_cons, List.mem_singleton] at hf
  rcases hf with rfl | rfl
  · simp only [Form.admits, OperandSlot.admits, Bool.and_eq_true, Bool.or_eq_true,
      beq_iff_eq] at hadmits
    exact hadmits.1.2
  · simp only [Form.admits, OperandSlot.admits, Bool.and_eq_true, beq_iff_eq] at hadmits
    exact .inl hadmits.1.2

/-- Where no old bytes are left, a write of `avx.cpp` or `gather.cpp` has sixteen bytes. -/
theorem DecodedBehind.narrow (hisVex : px.isVex = true) (hold : ¬ i.leavesOld px)
    (hhandler : i.handler ∈ avxHandlers ∨ i.handler ∈ gatherHandlers ∨
      i.handler ∈ vexMoveHandlers ∧ i.dst.kind = .xmm) :
    i.opSize = 16 ∧ px.vectorLength = 16 := by
  have hmem : i.handler ∈
      gatherHandlers ++ (avxHandlers ++ phase10Handlers ++ vexMoveHandlers) := by
    simp only [List.mem_append]
    rcases hhandler with havx | hgather | ⟨hmove, _⟩
    · exact .inr (.inl (.inl havx))
    · exact .inl hgather
    · exact .inr (.inr hmove)
  have hplain : ∀ g ∈ gatherHandlers ++ (avxHandlers ++ phase10Handlers ++ vexMoveHandlers),
      g ∉ bmiHandlers ∧ g ∉ vzeroHandlers := by decide
  have hisEvex := h.isEvex_eq hisVex hmem
  have hshort : px.vexL = false := by
    cases hlong : px.vexL with
    | false => rfl
    | true => exact absurd (.inr ⟨⟨hisVex, hisEvex, hlong⟩, hhandler⟩) hold
  have hlength : px.vectorLength = 16 := by
    rw [Prefixes.vectorLength, hisEvex, if_neg Bool.false_ne_true, Prefixes.vexSize, hshort,
      if_neg Bool.false_ne_true]
  obtain ⟨hbmi, hvzero⟩ := hplain _ hmem
  exact ⟨(h.sized hisVex hbmi hvzero).2.trans hlength, hlength⟩

/-- What is written to a register is cleared above the vector length. -/
theorem DecodedBehind.leaves (fp : HostFp) (hisVex : px.isVex = true) (hold : ¬ i.leavesOld px)
    {r : Nat} (hr : r ∈ i.writes) : Leaves (ClearFrom px.vectorLength r) (i.run fp) := by
  unfold Insn.writes at hr
  split at hr
  · rename_i hgather
    obtain ⟨hwidth, hlength⟩ := h.narrow hisVex hold (.inr (.inl hgather))
    rw [Insn.run, gatherHandlers_eq fp hgather, hlength]
    exact Leaves.doGather hwidth hr
  split at hr
  · rename_i hevex
    have hplain : ∀ g ∈ evexWriters, g ∉ bmiHandlers ∧ g ∉ vzeroHandlers := by decide
    obtain ⟨hbmi, hvzero⟩ := hplain _ hevex
    rw [List.mem_singleton.mp hr, ← (h.sized hisVex hbmi hvzero).2]
    exact leaves_evexWriters fp hevex i
  split at hr
  · rename_i hvector
    obtain ⟨hmem, hdst⟩ := hvector
    rw [List.mem_singleton.mp hr]
    simp only [List.mem_append] at hmem
    rcases hmem with (havx | hphase10) | hmove
    · obtain ⟨hwidth, hlength⟩ := h.narrow hisVex hold (.inl havx)
      obtain ⟨f, _, heq⟩ := avxHandlers_eq fp havx
      rw [Insn.run, heq, hlength]
      exact Leaves.vexBinop hdst hwidth f
    · have hplain : ∀ g ∈ phase10Handlers, g ∉ bmiHandlers ∧ g ∉ vzeroHandlers := by decide
      obtain ⟨hbmi, hvzero⟩ := hplain _ hphase10
      have hlength : 16 ≤ px.vectorLength := by
        simp only [Prefixes.vectorLength, Prefixes.evexVectorSize, Prefixes.vexSize]
        split_ifs <;> decide
      obtain ⟨f, heq⟩ := phase10Handlers_eq fp hphase10
      rw [Insn.run, heq]
      exact (Leaves.vexBinopXmm hdst (h.sized hisVex hbmi hvzero).1 f).mono fun _ hc =>
        hc.mono hlength
    · obtain ⟨hwidth, hlength⟩ := h.narrow hisVex hold (.inr (.inr ⟨hmove, hdst⟩))
      rw [Insn.run, vexMoveHandlers_eq fp hmove, hlength]
      exact Leaves.opVmovdqa hdst hwidth
  · cases hr

/-- A 256-bit write of `avx.cpp` or `gather.cpp` ends with the old bytes above. -/
theorem DecodedBehind.leavesOld (fp : HostFp)
    (hlong : px.isVex = true ∧ px.isEvex = false ∧ px.vexL = true)
    (hhandler : i.handler ∈ avxHandlers ∨ i.handler ∈ gatherHandlers ∨
      i.handler ∈ vexMoveHandlers ∧ i.dst.kind = .xmm) :
    LeavesOld (i.run fp) ∧ i.dst.reg ∈ i.writes ∧ px.vectorLength = 32 := by
  obtain ⟨hisVex, hisEvex, hlong⟩ := hlong
  have hlength : px.vectorLength = 32 := by
    rw [Prefixes.vectorLength, hisEvex, if_neg Bool.false_ne_true, Prefixes.vexSize, if_pos hlong]
  have hwidth (hbmi : i.handler ∉ bmiHandlers) (hvzero : i.handler ∉ vzeroHandlers) :
      i.opSize = 32 := (h.sized hisVex hbmi hvzero).2.trans hlength
  have hplain : ∀ g ∈ avxHandlers ++ gatherHandlers ++ vexMoveHandlers,
      g ∉ bmiHandlers ∧ g ∉ vzeroHandlers := by decide
  have hvector : ∀ g ∈ avxHandlers ++ vexMoveHandlers,
      g ∉ gatherHandlers ∧ g ∉ evexWriters := by decide
  rcases hhandler with havx | hgather | ⟨hmove, hdst⟩
  · obtain ⟨hdst, hsrc⟩ := h.operands (List.mem_append_left _ havx)
    obtain ⟨hbmi, hvzero⟩ := hplain _ (List.mem_append_left _ (List.mem_append_left _ havx))
    obtain ⟨hgather, hevex⟩ := hvector _ (List.mem_append_left _ havx)
    obtain ⟨f, _, heq⟩ := avxHandlers_eq fp havx
    refine ⟨?_, ?_, hlength⟩
    · rw [Insn.run, heq]
      exact LeavesOld.vexBinop hdst (hwidth hbmi hvzero) hsrc f
    · rw [Insn.writes, if_neg hgather, if_neg hevex,
        if_pos ⟨List.mem_append_left _ (List.mem_append_left _ havx), hdst⟩]
      exact List.mem_singleton_self _
  · obtain ⟨hbmi, hvzero⟩ := hplain _ (List.mem_append_left _ (List.mem_append_right _ hgather))
    refine ⟨?_, ?_, hlength⟩
    · rw [Insn.run, gatherHandlers_eq fp hgather]
      exact LeavesOld.doGather (hwidth hbmi hvzero)
    · rw [Insn.writes, if_pos hgather]
      exact List.mem_cons_self ..
  · obtain ⟨hbmi, hvzero⟩ := hplain _ (List.mem_append_right _ hmove)
    obtain ⟨hgather, hevex⟩ := hvector _ (List.mem_append_right _ hmove)
    refine ⟨?_, ?_, hlength⟩
    · rw [Insn.run, vexMoveHandlers_eq fp hmove]
      exact LeavesOld.opVmovdqa hdst (hwidth hbmi hvzero) (h.moveOperands hmove)
    · rw [Insn.writes, if_neg hgather, if_neg hevex, if_pos ⟨List.mem_append_right _ hmove, hdst⟩]
      exact List.mem_singleton_self _

end Decoded

/-! ### The law holds of all the others -/

/-- Memory that holds zeros. -/
def zeroMemory : MemoryProvider Unit where
  read _ _ _ s := (.ok (), fun _ => 0, s)
  write _ _ _ s := (.ok (), s)

def zeroed : Attached Unit := { memRead := some zeroMemory, memWrite := some zeroMemory }

theorem obliging_env (o : MachineOp) (w : World Unit) : obliging o (zeroed.env o w).1 := by
  cases o with
  | attached isWrite =>
      cases isWrite with
      | false => rfl
      | true => rfl
  | read addr size => exact ⟨_, rfl⟩
  | memHooks addr size value isWrite => exact trivial
  | write addr size data => exact trivial
  | nextTsc => exact trivial
  | nextRand => exact trivial

/-- A CPU whose vector registers are all ones. -/
def fullCpu : Cpu := { zmm := fun _ _ => 1 }

theorem fullCpu_ne_zero (r k : Nat) : fullCpu.zmm r k ≠ 0 := by
  have hone : fullCpu.zmm r k = 1 := rfl
  rw [hone]
  decide

theorem zmm_opVzeroall (c : Cpu) {r k : Nat} (hk : 32 ≤ k) (regs : List Nat) :
    (regs.foldl (fun c i => c.setZmmBytes i 0 32 fun _ => 0) c).zmm r k = c.zmm r k := by
  induction regs generalizing c with
  | nil => rfl
  | cons i rest ih =>
      rw [List.foldl_cons, ih]
      exact SameFrom.setZmmBytes c i (Nat.le_refl 32) _ r k hk

/-- VZEROALL leaves the bytes from the 32nd on. -/
theorem not_upperLaw_vzeroall (fp : HostFp) (px : Prefixes) {i : Insn}
    (hzero : i.handler = .opVzeroall) : ¬ UpperLaw fp px i := by
  intro hlaw
  have hclear := hlaw.zeroAll hzero Unit zeroed fullCpu { mem := () } 0 (by decide) 32 (by decide)
    (by decide)
  rw [Insn.run, hzero] at hclear
  have hold := zmm_opVzeroall fullCpu (r := 0) (Nat.le_refl 32) (List.range 16)
  exact fullCpu_ne_zero _ _ (hold.symm.trans hclear)

/-- The law of the upper bytes holds of a decoded instruction exactly when it is not one of those
that leave old bytes. -/
theorem upperLaw_iff (fp : HostFp) (fetch : Fetch) (rip : GuestAddr) (fuel : Nat) (px : Prefixes)
    (i : Insn) (h : DecodedBehind fetch rip fuel px i) :
    UpperLaw fp px i ↔ ¬ i.leavesOld px := by
  constructor
  · rintro hlaw (hzero | ⟨hlong, hhandler⟩)
    · exact not_upperLaw_vzeroall fp px hzero hlaw
    · obtain ⟨hold, hwrites, hlength⟩ := h.leavesOld fp hlong hhandler
      obtain ⟨hdone, hsame⟩ := Prog.All.exec (hold.post fullCpu) obliging_env { mem := () }
      have hclear := hlaw.cleared hlong.1 Unit zeroed fullCpu { mem := () }
        (Option.isSome_iff_exists.mp hdone).choose_spec i.dst.reg hwrites 32 hlength.le (by decide)
      exact fullCpu_ne_zero _ _ ((hsame i.dst.reg 32 (Nat.le_refl 32)).symm.trans hclear)
  · intro hold
    constructor
    · intro hisVex σ at_ c w hdone r hr
      exact (h.leaves fp hisVex hold hr).runOn at_ c w hdone
    · intro hzero σ at_ c w r hr
      rw [Insn.run, hzero]
      exact ClearFrom.foldl_zeroYmmUpper (.inl (List.mem_range.mpr hr))
    · exact fun hzero => absurd (.inl hzero) hold
    · intro hisVex hsse σ at_ hhooks c w
      exact (keepsUpper_sse fp hsse i (h.unmarked hisVex)).runOn hhooks c w

/-- `vpshufb ymm0, ymm1, ymm2` clears its upper bytes. -/
theorem upperLaw_iff_vpshufb :
    UpperLaw default vpshufbPrefixes (ymm012 .opVpshufb .vpshufb 5) ↔
      ¬ (ymm012 .opVpshufb .vpshufb 5).leavesOld vpshufbPrefixes :=
  upperLaw_iff default _ 0 1 vpshufbPrefixes _ decodedBehind_vpshufb

theorem decodedBehind_vpxor : DecodedBehind (bufFetch (bufOf vpxor256) 4) 0 1 vpxorPrefixes
    (ymm012 .opVpxor .vpxor 4) :=
  ⟨⟨2, rfl⟩, rfl⟩

/-- `vpxor ymm0, ymm1, ymm2` does not. -/
theorem not_upperLaw_vpxor :
    ¬ ∀ (fp : HostFp) (fetch : Fetch) (rip : GuestAddr) (fuel : Nat) (px : Prefixes) (i : Insn),
      DecodedBehind fetch rip fuel px i → UpperLaw fp px i := by
  intro hall
  have hlaw := hall default _ 0 1 _ _ decodedBehind_vpxor
  have hrun := hlaw.cleared rfl Unit zeroed fullCpu { mem := () } rfl 0 (List.mem_singleton_self _)
    32 (Nat.le_refl 32) (by decide)
  exact absurd hrun (by decide)

end PicoCpu
