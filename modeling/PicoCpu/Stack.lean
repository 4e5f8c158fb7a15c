import PicoCpu.MemoryAccess
import PicoCpu.Decoder.Shape

/-!
PUSH, POP, CALL and RET against the order in which an instruction reads its operand and moves RSP.
POP moves RSP after it has written its register, and CALL pushes before it reads its target, so each
differs from its reference where RSP, or the slot below it, is also the operand.
-/

namespace PicoCpu

open H Proc Handlers Granule

/-! ### Reference -/

/-- The four stack instructions. -/
def stackHandlers : List Handler := [.opPush, .opPop, .opCall, .opRet]

/-- The value of an operand in a state of the CPU and the memory. -/
def Operand.Denotes (i : Insn) (op : Operand) (size : Nat) (c : Cpu) (m : ByteMap) (v : U64) :
    Prop :=
  match op.kind with
  | .reg => v = c.readGpr op.reg size
  | .imm => v = op.imm &&& maskFor size
  | .mem | .ripRelMem => NumberAt m (ea c i op) size v
  | _ => False

/-- The target of a call. -/
def Insn.Targets (i : Insn) (c : Cpu) (m : ByteMap) (target : GuestAddr) : Prop :=
  match i.dst.kind with
  | .rel => target = nextRip i + i.dst.imm
  | .reg => target = c.r i.dst.reg
  | _ => NumberAt m (ea c i i.dst) 8 target

/-- The bytes a return releases above its address. -/
def Insn.released (i : Insn) : U64 := if i.dst.kind = .imm then i.dst.imm &&& 0xFFFF else 0

/-- RSP and the slot that a push of `size` bytes fills. -/
def Cpu.slot (c : Cpu) (size : Nat) : GuestAddr := c.r Reg.rsp - BitVec.ofNat 64 size

/-- What the instruction does to the registers and the memory: every operand is read in the state
before it. A call whose target cannot be read there would fault. -/
def StackReference (i : Insn) (c : Cpu) (m : ByteMap) (c' : Cpu) (m' : ByteMap) : Prop :=
  match i.handler with
  | .opPush => ∃ v, i.dst.Denotes i i.opSize c m v ∧
      c'.gpr = (c.setR64 Reg.rsp (c.slot i.opSize)).gpr ∧
      Written m m' (c.slot i.opSize) i.opSize (storeLE v)
  | .opPop => ∃ v, NumberAt m (c.r Reg.rsp) i.opSize v ∧
      c'.gpr = ((c.setR64 Reg.rsp (c.r Reg.rsp + BitVec.ofNat 64 i.opSize)).writeGpr
        i.dst.reg i.opSize v).gpr ∧ m' = m
  | .opCall => ∀ target, i.Targets c m target → c'.gpr = (c.setR64 Reg.rsp (c.slot 8)).gpr ∧
      Written m m' (c.slot 8) 8 (storeLE (nextRip i)) ∧ c'.rip = target ∧ c'.branchTaken = true
  | .opRet => ∃ v, NumberAt m (c.r Reg.rsp) 8 v ∧
      c'.gpr = (c.setR64 Reg.rsp (c.r Reg.rsp + 8 + i.released)).gpr ∧ m' = m ∧
      c'.rip = v ∧ c'.branchTaken = true
  | _ => True

/-- What a hook that only looks on keeps. -/
structure Cpu.Undisturbed (c d : Cpu) : Prop extends c.SameRegisters d where
  halted : d.halted = c.halted

/-- On every memory, with hooks that only look on, an execution that does not fault is the
reference's. -/
def StackExact (fp : HostFp) (i : Insn) (c : Cpu) : Prop :=
  ∀ (σ : Type) (at_ : Attached σ) (Inv : σ → Prop) (mem : σ → ByteMap) (w w' : World σ)
    (r : Option Unit) (c' : Cpu), at_.Represents Inv mem → at_.HooksFollow Cpu.Undisturbed →
    Inv w.mem → (i.run fp).EndsIn at_ c w r c' w' → c'.halted = false →
    StackReference i c (mem w.mem) c' (mem w'.mem)

/-- The CPU with the return address pushed. -/
def Cpu.pushed (c : Cpu) : Cpu := c.setR64 Reg.rsp (c.slot 8)

/-- The target of a call that RSP and the slot are no part of; a breakpoint on it would fault. -/
def TargetSafe (i : Insn) (c : Cpu) : Prop :=
  match i.dst.kind with
  | .rel => True
  | .reg => i.dst.reg ≠ Reg.rsp
  | _ => (c.pushed.dataBreakpointAt (ea c.pushed i i.dst) false 8).1 = false →
      ea c.pushed i i.dst = ea c i i.dst ∧ Apart (ea c i i.dst) 8 (c.slot 8) 8

/-- Where the order of the handler makes no difference. -/
def StackSafe (i : Insn) (c : Cpu) : Prop :=
  match i.handler with
  | .opPop => i.dst.reg ≠ Reg.rsp
  | .opCall => TargetSafe i c
  | _ => True

/-! ### Giving up -/

/-- A program that gives up has halted the CPU. -/
structure H.StopsHalted {α : Type} (p : H α) : Prop where
  halted : ∀ (σ : Type) (at_ : Attached σ) (c c' : Cpu) (w w' : World σ),
    p.EndsIn at_ c w none c' w' → c'.halted = true

section Stops

variable {α β : Type} {p : H α} {f : α → H β}

theorem H.StopsHalted.bind (hp : p.StopsHalted) (hf : ∀ a, (f a).StopsHalted) :
    (p >>= f).StopsHalted := by
  refine ⟨fun σ at_ c c' w w' hends => ?_⟩
  obtain ⟨tr, h⟩ := hends
  rw [run_bind] at h
  rcases hrun : p.run at_.env c w with ⟨⟨_ | a, c₁⟩, w₁, tr₁⟩
  · rw [hrun, andThen_none] at h
    cases h
    exact hp.halted _ _ _ _ _ _ ⟨_, hrun⟩
  · rw [hrun, andThen_some] at h
    rcases hrest : (f a).run at_.env c₁ w₁ with ⟨⟨r, c₂⟩, w₂, tr₂⟩
    rw [hrest] at h
    cases h
    exact (hf a).halted _ _ _ _ _ _ ⟨_, hrest⟩

/-- A program that never gives up. -/
theorem stopsHalted_of_some (h : ∀ (σ : Type) (at_ : Attached σ) (c : Cpu) (w : World σ),
    ∃ a c' w', p.EndsIn at_ c w (some a) c' w') : p.StopsHalted := by
  refine ⟨fun σ at_ c c' w w' hends => ?_⟩
  obtain ⟨a, c₁, w₁, hsome⟩ := h σ at_ c w
  cases (hends.unique hsome).1

theorem stops_pure (a : α) : (pure a : H α).StopsHalted :=
  stopsHalted_of_some fun _ _ _ _ => ⟨_, _, _, endsIn_pure a⟩

theorem stops_gets (g : Cpu → α) : (gets g).StopsHalted :=
  stopsHalted_of_some fun _ _ _ _ => ⟨_, _, _, endsIn_gets g⟩

theorem stops_modify (g : Cpu → Cpu) : H.StopsHalted (Proc.modify g) :=
  stopsHalted_of_some fun _ _ _ _ => ⟨_, _, _, endsIn_modify g⟩

theorem stops_attempt (p : H α) : H.StopsHalted (Proc.attempt p) := by
  refine stopsHalted_of_some fun _ at_ c w => ?_
  rcases hrun : p.run at_.env c w with ⟨⟨r, c'⟩, w', tr⟩
  exact ⟨r, c', w', tr, by rw [run_attempt, hrun]⟩

theorem stops_raise (kind : FaultKind) (addr : GuestAddr) (s : Status) (note : String) :
    (raise kind addr s note : H α).StopsHalted := by
  refine ⟨fun σ at_ c c' w w' hends => ?_⟩
  obtain ⟨tr, h⟩ := hends
  rw [run_raise] at h
  cases h
  rfl

theorem stops_requireAttached (isWrite : Bool) (addr : GuestAddr) (note : String) :
    (requireAttached isWrite addr note).StopsHalted := by
  refine H.StopsHalted.bind
    (stopsHalted_of_some fun _ _ _ _ => ⟨_, _, _, _, run_attached ..⟩) fun present => ?_
  split
  · exact stops_raise ..
  · exact stops_pure _

theorem stops_load (addr : GuestAddr) (size : Nat) (kind : Status → FaultKind) (note : String) :
    (load addr size kind note).StopsHalted := by
  refine H.StopsHalted.bind
    (stopsHalted_of_some fun _ _ _ _ => ⟨_, _, _, _, run_askRead ..⟩) fun answer => ?_
  split
  · exact stops_pure _
  · exact stops_raise ..

theorem stops_store (addr : GuestAddr) (size : Nat) (data : Buf) (kind : Status → FaultKind)
    (note : String) : (store addr size data kind note).StopsHalted := by
  refine H.StopsHalted.bind
    (stopsHalted_of_some fun _ _ _ _ => ⟨_, _, _, _, run_askWrite ..⟩) fun answer => ?_
  split
  · exact stops_pure _
  · exact stops_raise ..

theorem stops_checkDataBreakpoint (addr : GuestAddr) (isWrite : Bool) (size : Nat) (note : String) :
    (checkDataBreakpoint addr isWrite size note).StopsHalted := by
  refine (stops_gets _).bind fun hit => (stops_modify _).bind fun _ => ?_
  split
  · exact stops_raise ..
  · exact stops_pure _

theorem stops_fireMemHooks (addr : GuestAddr) (size : Nat) (value : U64) (isWrite : Bool) :
    (fireMemHooks addr size value isWrite).StopsHalted :=
  stopsHalted_of_some fun _ _ _ _ => ⟨_, _, _, endsIn_fireMemHooks⟩

theorem stops_readOperand (insn : Insn) {op : Operand} (hop : op.kind ≠ .xmm) (size : Nat) :
    (readOperand insn op size).StopsHalted := by
  have hmem : H.StopsHalted (do
      let rip ← gets Cpu.rip
      requireAttached false rip "no read provider"
      let addr ← gets fun c => ea c insn op
      checkDataBreakpoint addr false size "DR data load breakpoint"
      fireMemHooks addr size 0 false
      let buf ← load addr size pageFault "operand read"
      pure (loadLE buf size)) := by
    refine (stops_gets _).bind fun rip => (stops_requireAttached ..).bind fun _ => ?_
    refine (stops_gets _).bind fun addr => (stops_checkDataBreakpoint ..).bind fun _ => ?_
    exact (stops_fireMemHooks ..).bind fun _ => (stops_load ..).bind fun _ => stops_pure _
  unfold readOperand
  cases hkind : op.kind with
  | none => exact stops_pure _
  | reg => exact stops_gets _
  | imm => exact stops_pure _
  | rel => exact stops_pure _
  | xmm => exact absurd hkind hop
  | mem => exact hmem
  | ripRelMem => exact hmem

theorem stops_readMemBytes (missing note : String) (addr : GuestAddr) (size : Nat) :
    (readMemBytes missing note addr size).StopsHalted :=
  (stops_requireAttached ..).bind fun _ => (stops_load ..).bind fun _ => stops_pure _

theorem stops_writeMemBytes (missing note : String) (addr : GuestAddr) (size : Nat) (v : U64) :
    (writeMemBytes missing note addr size v).StopsHalted :=
  (stops_requireAttached ..).bind fun _ => stops_store ..

theorem stops_branchTarget (i : Insn) : (branchTarget i).StopsHalted := by
  have hbad : H.StopsHalted (do
      Proc.modify fun c =>
        c.setFault .invalidOpcode c.rip .invalidInstruction (some "bad branch operand kind")
      pure (0 : GuestAddr)) := (stops_modify _).bind fun _ => stops_pure _
  have hmem : H.StopsHalted (do
      let v ← Proc.attempt (readOperand i i.dst 8)
      pure (v.getD 0)) := (stops_attempt _).bind fun _ => stops_pure _
  unfold branchTarget
  cases i.dst.kind with
  | rel => exact stops_pure _
  | reg => exact stops_gets _
  | mem => exact hmem
  | ripRelMem => exact hmem
  | none => exact hbad
  | imm => exact hbad
  | xmm => exact hbad

theorem stops_opPop (i : Insn) : (opPop i).StopsHalted :=
  (stops_gets _).bind fun _ => (stops_readMemBytes ..).bind fun _ =>
    (stops_attempt _).bind fun _ => stops_modify _

theorem stops_opCall (i : Insn) : (opCall i).StopsHalted :=
  (stops_gets _).bind fun _ => (stops_requireAttached ..).bind fun _ =>
    (stops_store ..).bind fun _ => (stops_modify _).bind fun _ =>
      (stops_branchTarget i).bind fun _ => stops_modify _

end Stops

/-! ### Executions that do not fault -/

section Runs

variable {σ : Type} {at_ : Attached σ} {Inv : σ → Prop} {mem : σ → ByteMap} {c c' c₁ : Cpu}
  {w w' w₁ : World σ} {i : Insn} {v : U64}

/-- A program that leaves the CPU running has come to its end. -/
theorem H.StopsHalted.ends {p : H Unit} {r : Option Unit} (h : p.StopsHalted)
    (hends : p.EndsIn at_ c w r c' w') (hrun : c'.halted = false) :
    p.EndsIn at_ c w (some ()) c' w' := by
  cases r with
  | some u => exact hends
  | none =>
      rw [h.halted σ at_ c c' w w' hends] at hrun
      cases hrun

theorem Attached.HooksFollow.sameRegisters (h : at_.HooksFollow Cpu.Undisturbed) :
    at_.HooksFollow Cpu.SameRegisters := h.mono fun _ _ h => h.toSameRegisters

section Represented

variable (hrep : at_.Represents Inv mem) (hhooks : at_.HooksFollow Cpu.SameRegisters)
  (hinv : Inv w.mem)
include hrep hhooks hinv

/-- What an operand read delivers is the operand's value before it. -/
theorem denotes_of_read {op : Operand} {size : Nat} (hsize : size ≤ 8)
    (hop : op.kind = .reg ∨ op.kind = .imm ∨ op.isMem = true)
    (h : (readOperand i op size).EndsIn at_ c w (some v) c₁ w₁) :
    op.Denotes i size c (mem w.mem) v ∧ c.SameRegisters c₁ ∧ mem w₁.mem = mem w.mem ∧
      Inv w₁.mem := by
  rcases hop with hreg | himm | hmem
  · obtain ⟨hv, rfl, rfl⟩ := h.unique (readOperand_of_reg hreg)
    refine ⟨?_, .refl _, rfl, hinv⟩
    rw [Operand.Denotes, hreg]
    exact Option.some.inj hv
  · obtain ⟨hv, rfl, rfl⟩ := h.unique (readOperand_of_imm himm)
    refine ⟨?_, .refl _, rfl, hinv⟩
    rw [Operand.Denotes, himm]
    exact Option.some.inj hv
  · obtain ⟨_, hreads, rfl⟩ := (readOperand_mem_iff hmem).mp h
    obtain ⟨hnumber, hmem₁, hinv₁⟩ := hreads.numberAt hrep hinv hsize
    refine ⟨?_, hhooks.hooked .., hmem₁, hinv₁⟩
    unfold Operand.Denotes
    unfold Operand.isMem at hmem
    cases hkind : op.kind with
    | mem => exact hnumber
    | ripRelMem => exact hnumber
    | none | reg | imm | rel | xmm =>
        rw [hkind] at hmem
        cases hmem

theorem push_reference (hsize : i.opSize ≤ 8)
    (hop : i.dst.kind = .reg ∨ i.dst.kind = .imm ∨ i.dst.isMem = true)
    (h : (opPush i).EndsIn at_ c w (some ()) c' w') :
    ∃ v, i.dst.Denotes i i.opSize c (mem w.mem) v ∧
      c'.gpr = (c.setR64 Reg.rsp (c.slot i.opSize)).gpr ∧
      Written (mem w.mem) (mem w'.mem) (c.slot i.opSize) i.opSize (storeLE v) := by
  rw [opPush] at h
  obtain ⟨v, c₁, w₁, hread, h⟩ := h.of_bind
  obtain ⟨hvalue, hsame, hmem₁, hinv₁⟩ := denotes_of_read hrep hhooks hinv hsize hop hread
  rw [(endsIn_gets _).bind_iff] at h
  obtain ⟨_, c₂, w₂, hwrite, h⟩ := h.of_bind
  obtain ⟨hwrites, rfl⟩ := writeMemBytes_iff.mp hwrite
  obtain ⟨_, rfl, rfl⟩ := h.unique (endsIn_modify _)
  have hslot : c₂.r Reg.rsp - BitVec.ofNat 64 i.opSize = c.slot i.opSize := by
    rw [hsame.r]
    rfl
  rw [hslot] at hwrites
  obtain ⟨hwritten, _⟩ := hwrites.written hrep hinv₁ hsize
  rw [hmem₁] at hwritten
  refine ⟨v, hvalue, ?_, hwritten⟩
  rw [hslot, Cpu.setR64, Cpu.setR64, Cpu.setR, Cpu.setR]
  dsimp only
  rw [hsame.gpr]

omit hhooks in
theorem pop_ends (hsize : IsOpSize i.opSize) (hop : i.dst.kind = .reg)
    (h : (opPop i).EndsIn at_ c w (some ()) c' w') :
    ∃ v, NumberAt (mem w.mem) (c.r Reg.rsp) i.opSize v ∧
      c' = (c.writeGpr i.dst.reg i.opSize v).setR64 Reg.rsp
        (c.r Reg.rsp + BitVec.ofNat 64 i.opSize) ∧ mem w'.mem = mem w.mem := by
  rw [opPop, (endsIn_gets _).bind_iff] at h
  obtain ⟨v, c₁, w₁, hread, h⟩ := h.of_bind
  obtain ⟨hreads, rfl⟩ := readMemBytes_iff.mp hread
  have hle : i.opSize ≤ 8 := by
    rcases hsize with hsize | hsize | hsize | hsize <;> omega
  obtain ⟨hnumber, hmem₁, _⟩ := hreads.numberAt hrep hinv hle
  rw [(endsIn_attempt (writeOperand_of_reg hop hsize v)).bind_iff] at h
  obtain ⟨_, rfl, rfl⟩ := h.unique (endsIn_modify _)
  exact ⟨v, hnumber, rfl, hmem₁⟩

omit hhooks in
theorem ret_reference (h : (opRet i).EndsIn at_ c w (some ()) c' w') :
    ∃ v, NumberAt (mem w.mem) (c.r Reg.rsp) 8 v ∧
      c'.gpr = (c.setR64 Reg.rsp (c.r Reg.rsp + 8 + i.released)).gpr ∧
      mem w'.mem = mem w.mem ∧ c'.rip = v ∧ c'.branchTaken = true := by
  rw [opRet, (endsIn_gets _).bind_iff, requireAttached_bind_iff, load_bind_iff] at h
  obtain ⟨_, buf, w₁, hread, h⟩ := h
  rw [(endsIn_modify _).bind_iff] at h
  obtain ⟨_, rfl, rfl⟩ := h.unique (endsIn_modify _)
  have hreads : at_.Reads (c.r Reg.rsp) 8 w (loadLE buf 8) w' := ⟨buf, hread, rfl⟩
  obtain ⟨hnumber, hmem₁, _⟩ := hreads.numberAt hrep hinv (Nat.le_refl 8)
  exact ⟨_, hnumber, rfl, hmem₁, rfl, rfl⟩

/-- What a call does: the push first, and the target read after it. -/
theorem call_ends (hop : i.dst.kind = .rel ∨ i.dst.kind = .reg ∨ i.dst.isMem = true)
    (h : (opCall i).EndsIn at_ c w (some ()) c' w') (hrun : c'.halted = false) :
    ∃ target m, Written (mem w.mem) m (c.slot 8) 8 (storeLE (nextRip i)) ∧ mem w'.mem = m ∧
      i.Targets c.pushed m target ∧ c'.gpr = c.pushed.gpr ∧ c'.rip = target ∧
      c'.branchTaken = true ∧
      (i.dst.isMem = true →
        (c.pushed.dataBreakpointAt (ea c.pushed i i.dst) false 8).1 = false) := by
  rw [opCall, (endsIn_gets _).bind_iff, requireAttached_bind_iff] at h
  obtain ⟨_, h⟩ := h
  obtain ⟨_, c₁, w₁, hstore, h⟩ := h.of_bind
  obtain ⟨hwrite, rfl⟩ := store_iff.mp hstore
  have hwrites : at_.Writes (c₁.slot 8) 8 (nextRip i) w w₁ := hwrite
  obtain ⟨hwritten, hinv₁⟩ := hwrites.written hrep hinv (Nat.le_refl 8)
  rw [(endsIn_modify _).bind_iff] at h
  have hpushed : c₁.setR64 Reg.rsp (c₁.r Reg.rsp - 8) = c₁.pushed := rfl
  rw [hpushed] at h
  obtain ⟨target, c₂, w₂, htarget, h⟩ := h.of_bind
  obtain ⟨_, rfl, rfl⟩ := h.unique (endsIn_modify _)
  unfold branchTarget at htarget
  unfold Insn.Targets
  have hmemory (hmem : i.dst.isMem = true) (htarget : H.EndsIn (do
      let v ← Proc.attempt (readOperand i i.dst 8)
      pure (v.getD 0)) at_ c₁.pushed w₁ (some target) c₂ w') :
      NumberAt (mem w₁.mem) (ea c₁.pushed i i.dst) 8 target ∧ c₂.gpr = c₁.pushed.gpr ∧
        mem w'.mem = mem w₁.mem ∧
        (c₁.pushed.dataBreakpointAt (ea c₁.pushed i i.dst) false 8).1 = false := by
    obtain ⟨v, c₃, w₃, hattempt, hpure⟩ := htarget.of_bind
    obtain ⟨hv, rfl, rfl⟩ := hpure.unique (endsIn_pure _)
    have hread := hattempt.of_attempt
    cases v with
    | none =>
        have hnotxmm : i.dst.kind ≠ .xmm := by
          intro hxmm
          rw [Operand.isMem, hxmm] at hmem
          cases hmem
        rw [Cpu.takeBranch, (stops_readOperand i hnotxmm 8).halted _ _ _ _ _ _ hread] at hrun
        cases hrun
    | some v =>
        obtain ⟨hmiss, hreads, rfl⟩ := (readOperand_mem_iff hmem).mp hread
        obtain ⟨hnumber, hmem₂, _⟩ := hreads.numberAt hrep hinv₁ (Nat.le_refl 8)
        rw [Option.some.inj hv]
        exact ⟨hnumber, (hhooks.hooked ..).gpr, hmem₂, hmiss⟩
  cases hkind : i.dst.kind with
  | rel =>
      rw [hkind] at htarget
      obtain ⟨hv, rfl, rfl⟩ := htarget.unique (endsIn_pure _)
      refine ⟨target, _, hwritten, rfl, Option.some.inj hv, rfl, rfl, rfl, ?_⟩
      rw [Operand.isMem, hkind]
      intro h
      cases h
  | reg =>
      rw [hkind] at htarget
      obtain ⟨hv, rfl, rfl⟩ := htarget.unique (endsIn_gets _)
      refine ⟨target, _, hwritten, rfl, Option.some.inj hv, rfl, rfl, rfl, ?_⟩
      rw [Operand.isMem, hkind]
      intro h
      cases h
  | mem =>
      rw [hkind] at htarget
      obtain ⟨hnumber, hgpr, hmem₂, hmiss⟩ := hmemory (by rw [Operand.isMem, hkind]; rfl) htarget
      exact ⟨target, _, hwritten, hmem₂, hnumber, hgpr, rfl, rfl, fun _ => hmiss⟩
  | ripRelMem =>
      rw [hkind] at htarget
      obtain ⟨hnumber, hgpr, hmem₂, hmiss⟩ := hmemory (by rw [Operand.isMem, hkind]; rfl) htarget
      exact ⟨target, _, hwritten, hmem₂, hnumber, hgpr, rfl, rfl, fun _ => hmiss⟩
  | none | imm | xmm =>
      rw [Operand.isMem, hkind] at hop
      rcases hop with h | h | h <;> cases h

end Represented

end Runs

/-! ### Forms -/

section Forms

variable {i : Insn} (hfits : i.Fits)
include hfits

theorem push_form (h : i.handler = .opPush) :
    i.opSize = 8 ∧ (i.dst.kind = .reg ∨ i.dst.kind = .imm ∨ i.dst.isMem = true) := by
  obtain ⟨f, hf, hadmits⟩ := hfits
  rw [h] at hf
  have hforms : f ∈ [⟨.reg, .none, [8]⟩, ⟨.rm, .none, [8]⟩, (⟨.imm, .none, [8]⟩ : Form)] := hf
  simp only [List.mem_cons, List.not_mem_nil, or_false] at hforms
  rw [Form.admits, Bool.and_eq_true, Bool.and_eq_true] at hadmits
  rcases hforms with rfl | rfl | rfl
  · exact ⟨by simpa using hadmits.2, Or.inl (eq_of_beq hadmits.1.1)⟩
  · have hrm := hadmits.1.1
    rw [OperandSlot.admits, Bool.or_eq_true] at hrm
    exact ⟨by simpa using hadmits.2, (hrm.imp_left eq_of_beq).imp_right Or.inr⟩
  · exact ⟨by simpa using hadmits.2, Or.inr (Or.inl (eq_of_beq hadmits.1.1))⟩

theorem pop_form (h : i.handler = .opPop) : i.opSize = 8 ∧ i.dst.kind = .reg := by
  obtain ⟨f, hf, hadmits⟩ := hfits
  rw [h] at hf
  obtain rfl : f = ⟨.reg, .none, [8]⟩ := List.mem_singleton.mp hf
  rw [Form.admits, Bool.and_eq_true, Bool.and_eq_true] at hadmits
  exact ⟨by simpa using hadmits.2, eq_of_beq hadmits.1.1⟩

theorem call_form (h : i.handler = .opCall) :
    i.dst.kind = .rel ∨ i.dst.kind = .reg ∨ i.dst.isMem = true := by
  obtain ⟨f, hf, hadmits⟩ := hfits
  rw [h] at hf
  have hforms : f ∈ [⟨.rel, .none, []⟩, (⟨.rm, .none, [8]⟩ : Form)] := hf
  simp only [List.mem_cons, List.not_mem_nil, or_false] at hforms
  rw [Form.admits, Bool.and_eq_true, Bool.and_eq_true] at hadmits
  rcases hforms with rfl | rfl
  · exact Or.inl (eq_of_beq hadmits.1.1)
  · have hrm := hadmits.1.1
    rw [OperandSlot.admits, Bool.or_eq_true] at hrm
    exact Or.inr (hrm.imp_left eq_of_beq)

end Forms

/-! ### Where the order makes no difference -/

section Safe

variable (fp : HostFp) {i : Insn} (hfits : i.Fits) {c : Cpu}
include hfits

theorem push_exact (h : i.handler = .opPush) : StackExact fp i c := by
  intro σ at_ Inv mem w w' r c' hrep hhooks hinv hends hrun
  obtain ⟨hsize, hop⟩ := push_form hfits h
  rw [Insn.run, h] at hends
  have hends' : (opPush i).EndsIn at_ c w r c' w' := hends
  have hnotxmm : i.dst.kind ≠ .xmm := by
    intro hxmm
    rw [Operand.isMem, hxmm] at hop
    rcases hop with h | h | h <;> cases h
  have hstops : (opPush i).StopsHalted :=
    (stops_readOperand i hnotxmm _).bind fun _ => (stops_gets _).bind fun _ =>
      (stops_writeMemBytes ..).bind fun _ => stops_modify _
  rw [StackReference, h]
  exact push_reference hrep hhooks.sameRegisters hinv (by omega) hop (hstops.ends hends' hrun)

omit hfits in
theorem ret_exact (h : i.handler = .opRet) : StackExact fp i c := by
  intro σ at_ Inv mem w w' r c' hrep hhooks hinv hends hrun
  rw [Insn.run, h] at hends
  have hends' : (opRet i).EndsIn at_ c w r c' w' := hends
  have hstops : (opRet i).StopsHalted :=
    (stops_gets _).bind fun _ => (stops_requireAttached ..).bind fun _ =>
      (stops_load ..).bind fun _ => (stops_modify _).bind fun _ => stops_modify _
  rw [StackReference, h]
  exact ret_reference hrep hinv (hstops.ends hends' hrun)

/-- A pop into another register than RSP. -/
theorem pop_exact (h : i.handler = .opPop) (hsafe : i.dst.reg ≠ Reg.rsp) : StackExact fp i c := by
  intro σ at_ Inv mem w w' r c' hrep hhooks hinv hends hrun
  obtain ⟨hsize, hop⟩ := pop_form hfits h
  rw [Insn.run, h] at hends
  have hends' : (opPop i).EndsIn at_ c w r c' w' := hends
  have hopSize : IsOpSize i.opSize := Or.inr (Or.inr (Or.inr hsize))
  obtain ⟨v, hnumber, rfl, hmem⟩ :=
    pop_ends hrep hinv hopSize hop ((stops_opPop i).ends hends' hrun)
  rw [StackReference, h]
  refine ⟨v, hnumber, ?_, hmem⟩
  rw [hsize]
  exact Function.update_comm hsafe _ _ _

theorem call_exact (h : i.handler = .opCall) (hsafe : TargetSafe i c) : StackExact fp i c := by
  intro σ at_ Inv mem w w' r c' hrep hhooks hinv hends hrun
  have hop := call_form hfits h
  rw [Insn.run, h] at hends
  have hends' : (opCall i).EndsIn at_ c w r c' w' := hends
  obtain ⟨target, m, hwritten, hmem, htarget, hgpr, hrip, hbranch, hmiss⟩ :=
    call_ends hrep hhooks.sameRegisters hinv hop ((stops_opCall i).ends hends' hrun) hrun
  rw [StackReference, h]
  intro target' htarget'
  refine ⟨hgpr, hmem.symm ▸ hwritten, hrip.trans ?_, hbranch⟩
  have hmemory (hkind : i.dst.isMem = true)
      (hsafe : (c.pushed.dataBreakpointAt (ea c.pushed i i.dst) false 8).1 = false →
        ea c.pushed i i.dst = ea c i i.dst ∧ Apart (ea c i i.dst) 8 (c.slot 8) 8)
      (htarget : NumberAt m (ea c.pushed i i.dst) 8 target)
      (htarget' : NumberAt (mem w.mem) (ea c i i.dst) 8 target') : target = target' := by
    obtain ⟨hea, hapart⟩ := hsafe (hmiss hkind)
    rw [hea] at htarget
    exact htarget.unique (htarget'.written_apart hwritten hapart)
  unfold Insn.Targets at htarget htarget'
  unfold TargetSafe at hsafe
  cases hkind : i.dst.kind with
  | rel =>
      rw [hkind] at htarget htarget'
      exact htarget.trans htarget'.symm
  | reg =>
      rw [hkind] at htarget htarget' hsafe
      rw [htarget, htarget']
      exact Function.update_of_ne hsafe _ _
  | mem =>
      rw [hkind] at htarget htarget' hsafe
      exact hmemory (by rw [Operand.isMem, hkind]; rfl) hsafe htarget htarget'
  | ripRelMem =>
      rw [hkind] at htarget htarget' hsafe
      exact hmemory (by rw [Operand.isMem, hkind]; rfl) hsafe htarget htarget'
  | none | imm | xmm =>
      rw [Operand.isMem, hkind] at hop
      rcases hop with h | h | h <;> cases h

end Safe

/-! ### Where it does -/

section Unsafe

variable (fp : HostFp) {i : Insn} {c : Cpu} (hrunning : c.halted = false)

/-- Memory with the same byte at every address. -/
def filledWith (b : U8) : World (GuestAddr → U8) := { mem := fun _ => b }

theorem numberAt_flatWord (w : World (GuestAddr → U8)) (addr : GuestAddr) :
    NumberAt (flatBytes w.mem) addr 8 ((flatWord w addr 8).setWidth 64) :=
  ((flatMachine_reads w addr 8).numberAt flatMachine_represents trivial (Nat.le_refl 8)).1

theorem flatStore_mem (w : World (GuestAddr → U8)) (addr : GuestAddr) (v : U64) (a : GuestAddr) :
    (flatStore w addr 8 v).mem a =
      if InRange addr 8 a then storeLE v (a - addr).toNat else w.mem a := rfl

include hrunning

/-- A pop into RSP is exact on no CPU that runs. -/
theorem not_pop_exact (hfits : i.Fits) (h : i.handler = .opPop) (hrsp : i.dst.reg = Reg.rsp) :
    ¬ StackExact fp i c := by
  intro hexact
  obtain ⟨hsize, hop⟩ := pop_form hfits h
  -- Popped is a number that is not the address above it.
  let w := filledWith (~~~ storeLE (c.r Reg.rsp + 8) 0)
  let v : U64 := (flatWord w (c.r Reg.rsp) 8).setWidth 64
  have hends : (opPop i).EndsIn flatMachine c w (some ())
      ((c.writeGpr i.dst.reg i.opSize v).setR64 Reg.rsp (c.r Reg.rsp + BitVec.ofNat 64 i.opSize))
      w := by
    have hread : (stackRead (c.r Reg.rsp) i.opSize).EndsIn flatMachine c w (some v) c w := by
      rw [hsize]
      exact readMemBytes_iff.mpr ⟨flatMachine_reads w _ _, rfl⟩
    have hopSize : IsOpSize i.opSize := Or.inr (Or.inr (Or.inr hsize))
    rw [opPop, (endsIn_gets _).bind_iff, hread.bind_iff,
      (endsIn_attempt (writeOperand_of_reg hop hopSize v)).bind_iff]
    exact endsIn_modify _
  have hpop : i.run fp = opPop i := by
    rw [Insn.run, h]
    rfl
  rw [← hpop] at hends
  have hreference := hexact _ _ _ _ w w _ _ flatMachine_represents (flatMachine_hooksFollow _)
    trivial hends (by rw [hsize]; exact hrunning)
  rw [StackReference, h] at hreference
  obtain ⟨v', hnumber, hgpr, _⟩ := hreference
  rw [hsize] at hnumber hgpr
  have hrsp' := congrFun hgpr Reg.rsp
  rw [hrsp] at hrsp'
  have hpopped : c.r Reg.rsp + 8 = v' := by
    have hleft (d : Cpu) (x : U64) : (d.setR64 Reg.rsp x).gpr Reg.rsp = x := d.r_setR Reg.rsp x
    exact (hleft _ _).symm.trans (hrsp'.trans (hleft _ _))
  have hbyte := hnumber 0 (by omega)
  rw [← hpopped] at hbyte
  have hnot : ~~~ storeLE (c.r Reg.rsp + 8) 0 = storeLE (c.r Reg.rsp + 8) 0 := Option.some.inj hbyte
  have hbit := congrArg (fun b : U8 => b.getLsbD 0) hnot
  simp at hbit

omit hrunning in
/-- A call with its target read from the memory after the push. -/
theorem call_flat (w : World (GuestAddr → U8)) {target : GuestAddr}
    (htarget : (branchTarget i).EndsIn flatMachine c.pushed (flatStore w (c.slot 8) 8 (nextRip i))
      (some target) c.pushed (flatStore w (c.slot 8) 8 (nextRip i))) :
    (opCall i).EndsIn flatMachine c w (some ()) (c.pushed.takeBranch target)
      (flatStore w (c.slot 8) 8 (nextRip i)) := by
  have hpush : (store (c.r Reg.rsp - 8) 8 (storeLE (nextRip i)) kindFromStatus "CALL push").EndsIn
      flatMachine c w (some ()) c (flatStore w (c.slot 8) 8 (nextRip i)) :=
    store_iff.mpr ⟨flatMachine_writes w _ _ _, rfl⟩
  rw [opCall, (endsIn_gets _).bind_iff, requireAttached_bind_iff]
  refine ⟨rfl, ?_⟩
  rw [hpush.bind_iff, (endsIn_modify _).bind_iff]
  have hpushed : c.setR64 Reg.rsp (c.r Reg.rsp - 8) = c.pushed := rfl
  rw [hpushed, htarget.bind_iff]
  exact endsIn_modify _

/-- On an exact call, the target is the same before the push and after it. -/
theorem target_of_exact (hexact : StackExact fp i c) (h : i.handler = .opCall)
    (w : World (GuestAddr → U8)) {target target' : GuestAddr}
    (htarget : (branchTarget i).EndsIn flatMachine c.pushed (flatStore w (c.slot 8) 8 (nextRip i))
      (some target) c.pushed (flatStore w (c.slot 8) 8 (nextRip i)))
    (htarget' : i.Targets c (flatBytes w.mem) target') : target = target' := by
  have hrun : (i.run fp).EndsIn flatMachine c w (some ()) (c.pushed.takeBranch target)
      (flatStore w (c.slot 8) 8 (nextRip i)) := by
    rw [Insn.run, h]
    exact call_flat w htarget
  have hreference := hexact _ _ _ _ w _ _ _ flatMachine_represents (flatMachine_hooksFollow _)
    trivial hrun hrunning
  rw [StackReference, h] at hreference
  exact (hreference target' htarget').2.2.1

omit hrunning in
/-- Whatever the memory, its bytes at one address after the push are those at another before it:
the addresses are one, and the slot is elsewhere. -/
theorem apart_of_flatStore {a b slot : GuestAddr} (v : U64)
    (h : ∀ w : World (GuestAddr → U8), ∀ k < 8,
      (flatStore w slot 8 v).mem (b + BitVec.ofNat 64 k) = w.mem (a + BitVec.ofNat 64 k)) :
    b = a ∧ Apart a 8 slot 8 := by
  have hapart : Apart b 8 slot 8 := by
    intro k hk hin
    have hbyte := h (filledWith (~~~ storeLE v (b + BitVec.ofNat 64 k - slot).toNat)) k hk
    rw [flatStore_mem, if_pos hin] at hbyte
    have hbit := congrArg (fun x : U8 => x.getLsbD 0) hbyte
    simp [filledWith] at hbit
  have hsame : b = a := by
    by_contra hne
    have hbyte := h { mem := fun x => if x = a then 1 else 0 } 0 (by omega)
    have hzero (x : GuestAddr) : x + BitVec.ofNat 64 0 = x := BitVec.add_zero x
    have hout := hapart 0 (by omega)
    rw [hzero] at hout
    rw [hzero, hzero, flatStore_mem, if_neg hout] at hbyte
    simp [hne] at hbyte
  rw [hsame] at hapart
  exact ⟨hsame, hapart⟩

theorem targetSafe_of_exact (hexact : StackExact fp i c) (hfits : i.Fits)
    (h : i.handler = .opCall) : TargetSafe i c := by
  have hop := call_form hfits h
  have hmemory (hmem : i.dst.isMem = true)
      (hbranch : branchTarget i = do
        let v ← Proc.attempt (readOperand i i.dst 8)
        pure (v.getD 0))
      (htargets : ∀ m v, i.Targets c m v ↔ NumberAt m (ea c i i.dst) 8 v)
      (hmiss : (c.pushed.dataBreakpointAt (ea c.pushed i i.dst) false 8).1 = false) :
      ea c.pushed i i.dst = ea c i i.dst ∧ Apart (ea c i i.dst) 8 (c.slot 8) 8 := by
    refine apart_of_flatStore (nextRip i) fun w k hk => ?_
    have hread := (readOperand_mem_iff hmem).mpr ⟨hmiss,
      flatMachine_reads (flatStore w (c.slot 8) 8 (nextRip i)) (ea c.pushed i i.dst) 8,
      (flatMachine_hooked ..).symm⟩
    have htarget : (branchTarget i).EndsIn flatMachine c.pushed
        (flatStore w (c.slot 8) 8 (nextRip i)) (some ((flatWord (flatStore w (c.slot 8) 8
          (nextRip i)) (ea c.pushed i i.dst) 8).setWidth 64)) c.pushed
        (flatStore w (c.slot 8) 8 (nextRip i)) := by
      rw [hbranch, (endsIn_attempt hread).bind_iff]
      exact endsIn_pure _
    have hsame := target_of_exact fp hrunning hexact h w htarget
      ((htargets _ _).mpr (numberAt_flatWord w _))
    have hnew := numberAt_flatWord (flatStore w (c.slot 8) 8 (nextRip i)) (ea c.pushed i i.dst) k hk
    have hold := numberAt_flatWord w (ea c i i.dst) k hk
    rw [← hsame] at hold
    exact Option.some.inj (hnew.trans hold.symm)
  unfold TargetSafe
  cases hkind : i.dst.kind with
  | rel => exact trivial
  | reg =>
      intro hrsp
      have htarget : (branchTarget i).EndsIn flatMachine c.pushed
          (flatStore (filledWith 0) (c.slot 8) 8 (nextRip i)) (some (c.pushed.r i.dst.reg)) c.pushed
          (flatStore (filledWith 0) (c.slot 8) 8 (nextRip i)) := by
        unfold branchTarget
        rw [hkind]
        exact endsIn_gets _
      have hold : i.Targets c (flatBytes (filledWith 0).mem) (c.r i.dst.reg) := by
        unfold Insn.Targets
        rw [hkind]
      have hsame := target_of_exact fp hrunning hexact h _ htarget hold
      have hpushed : c.pushed.r Reg.rsp = c.r Reg.rsp - 8 := c.r_setR Reg.rsp _
      rw [hrsp, hpushed] at hsame
      bv_omega
  | mem =>
      refine hmemory (by rw [Operand.isMem, hkind]; rfl) ?_ fun m v => ?_
      · unfold branchTarget
        rw [hkind]
      · unfold Insn.Targets
        rw [hkind]
  | ripRelMem =>
      refine hmemory (by rw [Operand.isMem, hkind]; rfl) ?_ fun m v => ?_
      · unfold branchTarget
        rw [hkind]
      · unfold Insn.Targets
        rw [hkind]
  | none | imm | xmm =>
      rw [Operand.isMem, hkind] at hop
      rcases hop with h | h | h <;> cases h

end Unsafe

/-! ### Calls and returns -/

/-- Whatever follows a call, a return with the same RSP and the same bytes in the slot comes back
behind the call, with the released bytes off the stack. -/
def CallReturns (fp : HostFp) (call : Insn) (c : Cpu) : Prop :=
  ∀ (σ : Type) (at_ : Attached σ) (Inv : σ → Prop) (mem : σ → ByteMap) (w w₁ : World σ)
    (r : Option Unit) (c₁ : Cpu), at_.Represents Inv mem → at_.HooksFollow Cpu.Undisturbed →
    Inv w.mem → (call.run fp).EndsIn at_ c w r c₁ w₁ → c₁.halted = false →
    ∀ (ret : Insn) (c₂ c₃ : Cpu) (w₂ w₃ : World σ) (r' : Option Unit), ret.handler = .opRet →
    c₂.r Reg.rsp = c₁.r Reg.rsp → Inv w₂.mem →
    (∀ k < 8, mem w₂.mem (c₁.r Reg.rsp + BitVec.ofNat 64 k) =
      mem w₁.mem (c₁.r Reg.rsp + BitVec.ofNat 64 k)) →
    (ret.run fp).EndsIn at_ c₂ w₂ r' c₃ w₃ → c₃.halted = false →
    c₃.rip = nextRip call ∧ c₃.branchTaken = true ∧ c₃.r Reg.rsp = c.r Reg.rsp + ret.released

section Claim

variable (fp : HostFp) {i : Insn} (hfits : i.Fits)
include hfits

omit hfits in
/-- A halted CPU stays halted. -/
theorem halted_of_run {σ : Type} {at_ : Attached σ} {c c' : Cpu} {w w' : World σ}
    {r : Option Unit} (hhooks : at_.HooksFollow Cpu.Undisturbed) (hhalted : c.halted = true)
    (hends : (i.run fp).EndsIn at_ c w r c' w') : c'.halted = true := by
  let R : Cpu → Cpu → Prop := fun c d => c.halted = true → d.halted = true
  have hfollows : Follows i.handler.branches R :=
    { refl := fun _ h => h
      trans := fun h h' hhalted => h' (h hhalted)
      quiet := fun hcontrol hhalted => (congrArg Control.halted hcontrol).trans hhalted
      fault := fun _ _ _ _ _ _ _ => rfl
      branch := fun _ _ _ hhalted => hhalted }
  have hkeep := hfollows.runOn fp i (hhooks.mono fun _ _ h hhalted => h.halted.trans hhalted) c w
  rw [hends.runOn.1] at hkeep
  exact hkeep hhalted

theorem call_returns (h : i.handler = .opCall) (c : Cpu) : CallReturns fp i c := by
  intro σ at_ Inv mem w w₁ r c₁ hrep hhooks hinv hcall hrun ret c₂ c₃ w₂ w₃ r' hret hrsp hinv₂ hslot
    hreturn hrun'
  rw [Insn.run, h] at hcall
  have hcall' : (opCall i).EndsIn at_ c w r c₁ w₁ := hcall
  obtain ⟨target, m, hwritten, hmem, _, hgpr, _⟩ := call_ends hrep hhooks.sameRegisters hinv
    (call_form hfits h) ((stops_opCall i).ends hcall' hrun) hrun
  have hrsp₁ : c₁.r Reg.rsp = c.slot 8 := (congrFun hgpr Reg.rsp).trans (c.r_setR Reg.rsp _)
  have hreference := ret_exact fp hret σ at_ Inv mem w₂ w₃ r' c₃ hrep hhooks hinv₂ hreturn hrun'
  rw [StackReference, hret] at hreference
  obtain ⟨v, hnumber, hgpr₃, _, hrip, hbranch⟩ := hreference
  rw [hrsp, hrsp₁] at hnumber
  have hpushed : NumberAt (mem w₂.mem) (c.slot 8) 8 (nextRip i) := by
    intro k hk
    have hkept := hslot k hk
    rw [hrsp₁] at hkept
    rw [hkept, hmem]
    exact NumberAt.of_written (Nat.le_refl 8) hwritten k hk
  refine ⟨hrip.trans (hnumber.unique hpushed), hbranch, ?_⟩
  have hrsp₃ : c₃.r Reg.rsp = c₂.r Reg.rsp + 8 + ret.released :=
    (congrFun hgpr₃ Reg.rsp).trans (c₂.r_setR Reg.rsp _)
  have hback : c.slot 8 + 8 = c.r Reg.rsp := BitVec.sub_add_cancel ..
  rw [hrsp₃, hrsp, hrsp₁, hback]

/-- PUSH and RET are the reference's on every CPU; POP exactly into registers other than RSP, and
CALL exactly where RSP and the slot below it are no part of its target. Calls and returns match. -/
theorem stack_discipline (hstack : i.handler ∈ stackHandlers) (c : Cpu) :
    (StackExact fp i c ↔ (c.halted = false → StackSafe i c)) ∧
      (i.handler = .opCall → CallReturns fp i c) := by
  refine ⟨⟨fun hexact hrunning => ?_, fun hsafe => ?_⟩, fun h => call_returns fp hfits h c⟩
  · unfold StackSafe
    simp only [stackHandlers, List.mem_cons, List.not_mem_nil, or_false] at hstack
    rcases hstack with h | h | h | h
    · rw [h]
      exact trivial
    · rw [h]
      exact fun hrsp => not_pop_exact fp hrunning hfits h hrsp hexact
    · rw [h]
      exact targetSafe_of_exact fp hrunning hexact hfits h
    · rw [h]
      exact trivial
  · intro σ at_ Inv mem w w' r c' hrep hhooks hinv hends hrun
    have hrunning : c.halted = false := by
      cases hhalted : c.halted with
      | false => rfl
      | true =>
          rw [halted_of_run fp hhooks hhalted hends] at hrun
          cases hrun
    have hsafe' := hsafe hrunning
    unfold StackSafe at hsafe'
    simp only [stackHandlers, List.mem_cons, List.not_mem_nil, or_false] at hstack
    rcases hstack with h | h | h | h
    · exact push_exact fp hfits h σ at_ Inv mem w w' r c' hrep hhooks hinv hends hrun
    · rw [h] at hsafe'
      exact pop_exact fp hfits h hsafe' σ at_ Inv mem w w' r c' hrep hhooks hinv hends hrun
    · rw [h] at hsafe'
      exact call_exact fp hfits h hsafe' σ at_ Inv mem w w' r c' hrep hhooks hinv hends hrun
    · exact ret_exact fp h σ at_ Inv mem w w' r c' hrep hhooks hinv hends hrun

end Claim

/-- `pop reg`. -/
def popInto (reg : Nat) : Insn :=
  { handler := .opPop, kind := .pop, opSize := 8, dst := { kind := .reg, reg } }

theorem popInto_fits (reg : Nat) : (popInto reg).Fits := ⟨_, List.mem_cons_self .., rfl⟩

theorem stack_discipline_rax : StackExact default (popInto Reg.rax) {} ∧
    ¬ StackExact default (popInto Reg.rsp) {} := by
  obtain ⟨hrax, _⟩ := stack_discipline default (popInto_fits Reg.rax) (by decide) {}
  obtain ⟨hrsp, _⟩ := stack_discipline default (popInto_fits Reg.rsp) (by decide) {}
  have hne : Reg.rax ≠ Reg.rsp := by decide
  exact ⟨hrax.mpr fun _ => hne, fun hexact => hrsp.mp hexact rfl rfl⟩

/-- `pop rsp` leaves the address above the popped value. -/
theorem pop_rsp_overwritten : ¬ ∀ (fp : HostFp) (i : Insn) (c : Cpu), i.Fits →
    i.handler ∈ stackHandlers → StackExact fp i c := fun hclaim =>
  not_pop_exact default rfl (popInto_fits Reg.rsp) rfl rfl
    (hclaim default (popInto Reg.rsp) {} (popInto_fits _) (by decide))

end PicoCpu
