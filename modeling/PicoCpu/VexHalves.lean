import PicoCpu.Decoder.VexMaps
import PicoCpu.VexForms
import PicoCpu.Decoder.EntryPoints
import PicoCpu.DroppedFailures

/-!
The 256-bit VEX forms. Those of `avx.cpp` treat both halves of the registers alike; those of
`phase10.cpp` read and write sixteen bytes whatever the vector length.
-/

namespace PicoCpu

open H Proc Handlers Decode

/-! ### Lanes and halves -/

theorem map8_drop (f : U8 → U8 → U8) (a b : Buf) (k j : Nat) :
    map8 f a b (16 * k + j) = map8 f (a.drop (16 * k)) (b.drop (16 * k)) j := rfl

theorem laneU16_drop (a : Buf) (k j : Nat) :
    laneU16 a (8 * k + j) = laneU16 (a.drop (16 * k)) j := by
  have h : 2 * (8 * k + j) = 16 * k + 2 * j := by omega
  rw [laneU16, laneU16, h]
  rfl

theorem laneU32_drop (a : Buf) (k j : Nat) :
    laneU32 a (4 * k + j) = laneU32 (a.drop (16 * k)) j := by
  have h : 4 * (4 * k + j) = 16 * k + 4 * j := by omega
  rw [laneU32, laneU32, h]
  rfl

theorem laneU64_drop (a : Buf) (k j : Nat) :
    laneU64 a (2 * k + j) = laneU64 (a.drop (16 * k)) j := by
  have hlow : 2 * (2 * k + j) = 4 * k + 2 * j := by omega
  have hhigh : 2 * (2 * k + j) + 1 = 4 * k + (2 * j + 1) := by omega
  rw [laneU64, laneU64, hhigh, hlow, laneU32_drop, laneU32_drop]

theorem map16_drop (f : U16 → U16 → U16) (a b : Buf) (k j : Nat) :
    map16 f a b (16 * k + j) = map16 f (a.drop (16 * k)) (b.drop (16 * k)) j := by
  have hlane : (16 * k + j) / 2 = 8 * k + j / 2 := by omega
  have hbyte : (16 * k + j) % 2 = j % 2 := by omega
  simp only [map16, packU16, hlane, hbyte, laneU16_drop]

theorem map32_drop (f : U32 → U32 → U32) (a b : Buf) (k j : Nat) :
    map32 f a b (16 * k + j) = map32 f (a.drop (16 * k)) (b.drop (16 * k)) j := by
  have hlane : (16 * k + j) / 4 = 4 * k + j / 4 := by omega
  have hbyte : (16 * k + j) % 4 = j % 4 := by omega
  simp only [map32, packU32, hlane, hbyte, laneU32_drop]

theorem map64_drop (f : U64 → U64 → U64) (a b : Buf) (k j : Nat) :
    map64 f a b (16 * k + j) = map64 f (a.drop (16 * k)) (b.drop (16 * k)) j := by
  have hlane : (16 * k + j) / 8 = 2 * k + j / 8 := by omega
  have hbyte : (16 * k + j) % 8 = j % 8 := by omega
  simp only [map64, packU64, hlane, hbyte, laneU64_drop]

/-! ### The claim on an instruction -/

/-- `op xmm0, xmm1, xmm2` with VEX.128. -/
def vexRegisters (imm : U64) : Insn :=
  { opSize := 16, immExtra := imm, flags := { vex := true }
    dst := { kind := .xmm, reg := 0, index := 1 }, src := { kind := .xmm, reg := 2 } }

/-- What the VEX.128 form makes of two operands. -/
def vex128 (fp : HostFp) (h : Handler) (imm : U64) (a b : Buf) : Buf :=
  ((callHandler fp h (vexRegisters imm)).runOn (σ := Unit) ⟨none, none, [], []⟩
    { zmm := fun r => if r = 1 then a else b } { mem := () }).value.2.zmm 0

/-- A VEX.256 instruction with three operands, as the decoder builds it. -/
structure Insn.Vex256 (i : Insn) : Prop where
  handler : i.handler ∈ avxHandlers ∨ i.handler ∈ phase10Handlers
  width : i.opSize = 32
  vex : i.flags.vex = true
  dst : i.dst.kind = .xmm
  src : i.src.kind = .xmm ∨ i.src.isMem = true

/-- Both halves of the destination are what the VEX.128 form makes of the halves of the sources,
and a source in memory is read as 32 bytes. -/
structure CoversHalves (fp : HostFp) (i : Insn) : Prop where
  registers : i.src.kind = .xmm → ∀ (σ : Type) (at_ : Attached σ) (c : Cpu) (w : World σ),
    ∀ k < 2, ∀ j < 16, ((i.run fp).runOn at_ c w).value.2.zmm i.dst.reg (16 * k + j) =
      vex128 fp i.handler i.immExtra (Buf.drop (c.zmm i.dst.index) (16 * k))
        (Buf.drop (c.zmm i.src.reg) (16 * k)) j
  reads : i.src.isMem = true → ∀ (σ : Type) (at_ : Attached σ) (c : Cpu) (w : World σ),
    ∀ e ∈ ((i.run fp).runOn at_ c w).trace, ∀ addr size, e.1 = .read addr size → size = 32
  memory : i.src.isMem = true → ∀ (σ : Type) (at_ : Attached σ) (c : Cpu) (w : World σ),
    ((i.run fp).runOn at_ c w).value.1 = some () → ∃ (addr : GuestAddr) (buf : Buf),
      (⟨.read addr 32, (.ok buf : Except Status Buf)⟩ : machine.Event) ∈
          ((i.run fp).runOn at_ c w).trace ∧
        ∀ k < 2, ∀ j < 16, ((i.run fp).runOn at_ c w).value.2.zmm i.dst.reg (16 * k + j) =
          vex128 fp i.handler i.immExtra (Buf.drop (c.zmm i.dst.index) (16 * k))
            (buf.drop (16 * k)) j

/-! ### The handlers of `avx.cpp` -/

/-- An operation on lanes that do not cross the middle of 32 bytes. -/
def ByHalves (f : Buf → Buf → Buf) : Prop :=
  ∀ (a b : Buf) (k j : Nat), f a b (16 * k + j) = f (a.drop (16 * k)) (b.drop (16 * k)) j

theorem avxHandlers_eq (fp : HostFp) {h : Handler} (hh : h ∈ avxHandlers) :
    ∃ f, ByHalves f ∧ callHandler fp h = vexBinop f := by
  simp only [avxHandlers, List.mem_cons, List.not_mem_nil, or_false] at hh
  rcases hh with rfl | rfl | rfl | rfl | rfl | rfl | rfl | rfl | rfl | rfl | rfl
  · exact ⟨_, map8_drop fun a b => a ^^^ b, rfl⟩
  · exact ⟨_, map8_drop fun a b => a &&& b, rfl⟩
  · exact ⟨_, map8_drop fun a b => a ||| b, rfl⟩
  · exact ⟨_, map8_drop fun a b => a + b, rfl⟩
  · exact ⟨_, map16_drop fun a b => a + b, rfl⟩
  · exact ⟨_, map32_drop fun a b => a + b, rfl⟩
  · exact ⟨_, map64_drop fun a b => a + b, rfl⟩
  · exact ⟨_, map8_drop fun a b => a - b, rfl⟩
  · exact ⟨_, map16_drop fun a b => a - b, rfl⟩
  · exact ⟨_, map32_drop fun a b => a - b, rfl⟩
  · exact ⟨_, map64_drop fun a b => a - b, rfl⟩

theorem vexRegisters_onRegisters (imm : U64) : (vexRegisters imm).OnRegisters 0 2 :=
  ⟨⟨rfl, rfl⟩, ⟨rfl, rfl⟩⟩

theorem vex128_vexBinop {fp : HostFp} {h : Handler} {f : Buf → Buf → Buf}
    (heq : callHandler fp h = vexBinop f) (imm : U64) (a b : Buf) {j : Nat} (hj : j < 16) :
    vex128 fp h imm a b j = f a b j := by
  rw [vex128, heq, ((vexRegisters_onRegisters imm).vexBinop f).runOn]
  simp only [vexRegisters, if_true]
  rw [zmm_zeroYmmUpper_low _ _ hj, Cpu.zmm_setZmmBytes_low _ _ _ _ hj]
  rfl

theorem vex128_vexBinopXmm {fp : HostFp} {h : Handler} {f : Insn → Buf → Buf → Buf}
    (heq : callHandler fp h = vexBinopXmm f) (imm : U64) (a b : Buf) {j : Nat} (hj : j < 16) :
    vex128 fp h imm a b j = f (vexRegisters imm) a b j := by
  rw [vex128, heq, ((vexRegisters_onRegisters imm).vexBinopXmm f rfl).runOn]
  rw [zmm_zeroYmmUpper_low _ _ hj, Cpu.zmm_setZmmBytes_low _ _ _ _ hj]
  rfl

/-- Every read of the trace has the size. -/
def ReadsOf (size : Nat) (tr : List machine.Event) : Prop :=
  ∀ e ∈ tr, ∀ addr n, e.1 = MachineOp.read addr n → n = size

theorem ReadsOf.nil (size : Nat) : ReadsOf size [] := fun _ he => nomatch he

theorem ReadsOf.append {size : Nat} {tr tr' : List machine.Event} (h : ReadsOf size tr)
    (h' : ReadsOf size tr') : ReadsOf size (tr ++ tr') :=
  fun e he => (List.mem_append.mp he).elim (h e) (h' e)

/-- A vector operand in memory: the reads have the size, and what is returned has been read. -/
theorem VecIo.post_read_mem (io : VecIo) (insn : Insn) {op : Operand} (hop : op.isMem = true)
    (size : Nat) (c : Cpu) :
    (io.read insn op size).Post anyAnswer c fun tr b c' => ReadsOf size tr ∧
      ∀ buf, b = some buf → c' = c ∧ ∃ addr,
        (⟨.read addr size, (.ok buf : Except Status Buf)⟩ : machine.Event) ∈ tr := by
  have hmem : (do
      let rip ← H.gets Cpu.rip
      requireAttached false rip io.readNote
      let addr ← H.gets fun c => ea c insn op
      load addr size pageFault io.readNote : H Buf).Post anyAnswer c fun tr b c' => ReadsOf size tr ∧
        ∀ buf, b = some buf → c' = c ∧ ∃ addr,
          (⟨.read addr size, (.ok buf : Except Status Buf)⟩ : machine.Event) ∈ tr := by
    refine post_gets_bind.mpr (post_bind.mpr (post_ask_bind.mpr fun present _ => ?_))
    cases present with
    | false =>
        refine ⟨fun e he addr n hread => ?_, fun _ hnone => (nomatch hnone)⟩
        rw [List.mem_singleton.mp he] at hread
        cases hread
    | true =>
        rw [Bool.not_true, if_neg Bool.false_ne_true]
        refine post_pure.mpr (post_gets_bind.mpr (post_ask_bind.mpr fun r _ => ?_))
        have hsize : ReadsOf size
            [⟨MachineOp.attached false, true⟩, ⟨MachineOp.read (ea c insn op) size, r⟩] := by
          intro e he addr n hread
          rcases List.mem_cons.mp he with rfl | he
          · cases hread
          · rw [List.mem_singleton.mp he] at hread
            cases hread
            rfl
        cases r with
        | error s => exact ⟨hsize, fun _ hnone => (nomatch hnone)⟩
        | ok buf =>
            refine ⟨hsize, fun buf' hsome => ⟨rfl, ea c insn op, ?_⟩⟩
            cases hsome
            exact List.mem_cons_of_mem _ (List.mem_singleton_self _)
  unfold VecIo.read
  cases hkind : op.kind with
  | mem => exact hmem
  | ripRelMem => exact hmem
  | none | reg | imm | rel | xmm => rw [Operand.isMem, hkind] at hop; cases hop

/-- A handler of three operands: an update from the first source and what is read of the second. -/
structure Binop (p : H Unit) (insn : Insn) (size : Nat) (g : Buf → Buf → Cpu → Cpu) : Prop where
  eq : ∃ io : VecIo, p = (do
    let a ← gets fun c => c.zmm insn.dst.index
    let b ← io.read insn insn.src size
    Proc.modify (g a b))

section Vex256

variable {fp : HostFp} {i : Insn}

theorem Binop.runOn_register {p : H Unit} {size : Nat} {g : Buf → Buf → Cpu → Cpu}
    (hp : Binop p i size g) (hsrc : i.src.kind = .xmm) {σ : Type} (at_ : Attached σ) (c : Cpu)
    (w : World σ) :
    p.runOn at_ c w = ⟨(some (), g (c.zmm i.dst.index) (c.zmm i.src.reg) c), w, []⟩ := by
  obtain ⟨io, rfl⟩ := hp
  rw [io.read_xmm i hsrc]
  rfl

theorem Binop.post_memory {p : H Unit} {size : Nat} {g : Buf → Buf → Cpu → Cpu}
    (hp : Binop p i size g) (hsrc : i.src.isMem = true) (c : Cpu) :
    p.Post anyAnswer c fun tr r c' => ReadsOf size tr ∧ (r = some () → ∃ addr buf,
      (⟨.read addr size, (.ok buf : Except Status Buf)⟩ : machine.Event) ∈ tr ∧
        c' = g (c.zmm i.dst.index) buf c) := by
  obtain ⟨io, rfl⟩ := hp
  refine post_gets_bind.mpr (post_bind.mpr ((io.post_read_mem i hsrc size c).mono ?_))
  rintro tr b c' ⟨hreads, hread⟩
  cases b with
  | none => exact ⟨hreads, fun hnone => (nomatch hnone)⟩
  | some buf =>
      obtain ⟨rfl, addr, hmem⟩ := hread buf rfl
      refine ⟨hreads.append (.nil size), fun _ => ⟨addr, buf, ?_, rfl⟩⟩
      exact List.mem_append_left _ hmem

/-- Where the memory fails, the read has been tried. -/
theorem Binop.reads_broken {p : H Unit} {size : Nat} {g : Buf → Buf → Cpu → Cpu}
    (hp : Binop p i size g) (hsrc : i.src.isMem = true) (c : Cpu) (w : World Unit) :
    ∃ e ∈ (p.runOn broken c w).trace, ∃ addr, e.1 = MachineOp.read addr size := by
  obtain ⟨io, rfl⟩ := hp
  have htrace : (do
      let a ← gets fun c => c.zmm i.dst.index
      let b ← io.read i i.src size
      Proc.modify (g a b) : H Unit).runOn broken c w =
        ⟨(none, c.setFault .pageFault (ea c i i.src) .unmappedRead (some io.readNote)), w,
          loadTrace (ea c i i.src) size⟩ := by
    unfold VecIo.read
    cases hkind : i.src.kind with
    | mem => rfl
    | ripRelMem => rfl
    | none | reg | imm | rel | xmm => rw [Operand.isMem, hkind] at hsrc; cases hsrc
  rw [htrace]
  exact ⟨_, List.mem_cons_of_mem _ (List.mem_singleton_self _), ea c i i.src, rfl⟩

theorem binop_vexBinop (h : i.Vex256) (f : Buf → Buf → Buf) :
    Binop (vexBinop f i) i 32 fun a b c => c.setZmmBytes i.dst.reg 0 32 (f a b) := by
  refine ⟨vexIo, ?_⟩
  unfold vexBinop writeVec
  have hnarrow : ¬ (i.dst.kind = .xmm ∧ (32 : Nat) = 16) := fun hand => by omega
  simp only [h.width, if_neg hnarrow, VecIo.write_xmm _ i h.dst]
  rfl

theorem binop_vexBinopXmm (h : i.Vex256) (f : Insn → Buf → Buf → Buf) :
    Binop (vexBinopXmm f i) i 16 fun a b c =>
      (c.setZmmBytes i.dst.reg 0 16 (f i a b)).zeroYmmUpper i.dst.reg := by
  refine ⟨sse4Io, ?_⟩
  unfold vexBinopXmm write16To
  simp only [VecIo.write_xmm _ i h.dst, h.dst, h.vex, and_self, if_true]
  rfl

theorem covers_of_avx (h : i.Vex256) (hh : i.handler ∈ avxHandlers) : CoversHalves fp i := by
  obtain ⟨f, hf, heq⟩ := avxHandlers_eq fp hh
  have hbinop : Binop (i.run fp) i 32 fun a b c => c.setZmmBytes i.dst.reg 0 32 (f a b) := by
    rw [Insn.run, heq]
    exact binop_vexBinop h f
  have hhalf (c : Cpu) (a b : Buf) {k j : Nat} (hk : k < 2) (hj : j < 16) :
      (c.setZmmBytes i.dst.reg 0 32 (f a b)).zmm i.dst.reg (16 * k + j) =
        vex128 fp i.handler i.immExtra (a.drop (16 * k)) (b.drop (16 * k)) j := by
    have hbound : 16 * k + j < 32 := by omega
    rw [Cpu.zmm_setZmmBytes_low _ _ _ _ hbound, vex128_vexBinop heq _ _ _ hj, hf]
  constructor
  · intro hsrc σ at_ c w k hk j hj
    rw [hbinop.runOn_register hsrc]
    exact hhalf _ _ _ hk hj
  · intro hsrc σ at_ c w
    exact (post_runOn (hbinop.post_memory hsrc c) at_ w).1
  · intro hsrc σ at_ c w hdone
    obtain ⟨addr, buf, hread, hend⟩ := (post_runOn (hbinop.post_memory hsrc c) at_ w).2 hdone
    refine ⟨addr, buf, hread, fun k hk j hj => ?_⟩
    rw [hend]
    exact hhalf _ _ _ hk hj

/-! ### The handlers of `phase10.cpp` -/

theorem phase10Handlers_eq (fp : HostFp) {h : Handler} (hh : h ∈ phase10Handlers) :
    ∃ f, callHandler fp h = vexBinopXmm f := by
  simp only [phase10Handlers, List.mem_cons, List.not_mem_nil, or_false] at hh
  rcases hh with rfl | rfl | rfl | rfl | rfl | rfl | rfl
  · exact ⟨_, rfl⟩
  · exact ⟨_, rfl⟩
  · exact ⟨_, rfl⟩
  · exact ⟨_, rfl⟩
  · exact ⟨_, rfl⟩
  · exact ⟨_, rfl⟩
  · exact ⟨_, rfl⟩

/-- The low byte of the product of halves whose bytes are all one. -/
theorem clmulSelected_one (imm : U8) : clmulSelected imm (fun _ => 1) (fun _ => 1) 0 = 1 := by
  have hlane (p : Prop) [Decidable p] :
      laneU64 (fun _ => 1) (if p then 1 else 0) = 0x0101010101010101 := by
    split
    · decide
    · decide
  rw [clmulSelected, hlane, hlane]
  decide +kernel

/-- On bytes that are all one each of the operations yields something, VPCMPGTQ excepted. -/
theorem vex128_one_ne_zero (fp : HostFp) {h : Handler} (hh : h ∈ phase10Handlers)
    (hne : h ≠ .opVpcmpgtq) (imm : U64) :
    vex128 fp h imm (fun _ => 1) (fun _ => 1) 0 ≠ 0 := by
  have hj : 0 < 16 := by decide
  simp only [phase10Handlers, List.mem_cons, List.not_mem_nil, or_false] at hh
  rcases hh with rfl | rfl | rfl | rfl | rfl | rfl | rfl
  · rw [vex128_vexBinopXmm (f := fun _ => shuffleBytes) rfl _ _ _ hj]
    decide
  · exact absurd rfl hne
  · rw [vex128_vexBinopXmm (f := fun _ s k =>
      Phase10.xorKey (Phase10.mixColumns (Phase10.subBytes (Phase10.shiftRows s))) k) rfl _ _ _ hj]
    decide
  · rw [vex128_vexBinopXmm (f := fun _ s k =>
      Phase10.xorKey (Phase10.subBytes (Phase10.shiftRows s)) k) rfl _ _ _ hj]
    decide
  · rw [vex128_vexBinopXmm (f := fun _ s k => Phase10.xorKey
      (Phase10.invMixColumns (Phase10.invSubBytes (Phase10.invShiftRows s))) k) rfl _ _ _ hj]
    decide
  · rw [vex128_vexBinopXmm (f := fun _ s k =>
      Phase10.xorKey (Phase10.invSubBytes (Phase10.invShiftRows s)) k) rfl _ _ _ hj]
    decide
  · rw [vex128_vexBinopXmm (f := fun insn => clmulSelected (imm8 insn)) rfl _ _ _ hj,
      clmulSelected_one]
    decide

theorem vex128_opVpcmpgtq (fp : HostFp) (imm : U64) (a b : Buf) {j : Nat} (hj : j < 16) :
    vex128 fp .opVpcmpgtq imm a b j = map64 (fun a b => ones (b.slt a)) a b j :=
  vex128_vexBinopXmm (f := fun _ => map64 fun a b => ones (b.slt a)) rfl imm a b hj

/-- Nothing is greater than itself. -/
theorem greater_self (a : Buf) (j : Nat) : map64 (fun a b => ones (b.slt a)) a a j = 0 := by
  have hslt (v : U64) : v.slt v = false := by simp [BitVec.slt]
  have hzero : (ones false : U64) = 0#64 := rfl
  rw [map64, packU64, hslt, hzero, BitVec.zero_ushiftRight]
  rfl

/-- The instructions of `phase10.cpp` that compute nothing but zero. -/
def Insn.comparesSelf (i : Insn) : Prop :=
  i.handler = .opVpcmpgtq ∧ i.src.kind = .xmm ∧ i.src.reg = i.dst.index

/-- The CPU whose first source is all ones, and the second too unless the instruction compares. -/
theorem exists_high_ne_zero (fp : HostFp) (hh : i.handler ∈ phase10Handlers)
    (hself : ¬ (i.handler = .opVpcmpgtq ∧ i.src.reg = i.dst.index)) :
    ∃ c : Cpu, vex128 fp i.handler i.immExtra (Buf.drop (c.zmm i.dst.index) 16)
      (Buf.drop (c.zmm i.src.reg) 16) 0 ≠ 0 := by
  by_cases hcmp : i.handler = .opVpcmpgtq
  · refine ⟨{ zmm := fun r => if r = i.dst.index then fun _ => 1 else fun _ => 0 }, ?_⟩
    have hne : i.src.reg ≠ i.dst.index := fun heq => hself ⟨hcmp, heq⟩
    rw [hcmp, vex128_opVpcmpgtq _ _ _ _ (by decide)]
    simp only [if_true, if_neg hne]
    decide
  · exact ⟨{ zmm := fun _ _ => 1 }, vex128_one_ne_zero fp hh hcmp i.immExtra⟩

theorem zmm_zeroYmmUpper_high (c : Cpu) (reg : Nat) {j : Nat} (h : 16 ≤ j) (hj : j < 64) :
    (c.zeroYmmUpper reg).zmm reg j = 0 := by
  rw [Cpu.zeroYmmUpper, Cpu.zmm_setZmmBytes, if_pos ⟨h, by omega⟩]

/-- The sixteen bytes that are read and the high half that is cleared. -/
theorem not_covers_of_phase10 (h : i.Vex256) (hh : i.handler ∈ phase10Handlers)
    (hself : ¬ i.comparesSelf) : ¬ CoversHalves fp i := by
  intro hcovers
  obtain ⟨f, heq⟩ := phase10Handlers_eq fp hh
  have hbinop : Binop (i.run fp) i 16 fun a b c =>
      (c.setZmmBytes i.dst.reg 0 16 (f i a b)).zeroYmmUpper i.dst.reg := by
    rw [Insn.run, heq]
    exact binop_vexBinopXmm h f
  rcases h.src with hsrc | hsrc
  · obtain ⟨c, hc⟩ := exists_high_ne_zero fp hh fun hand => hself ⟨hand.1, hsrc, hand.2⟩
    have hhigh := hcovers.registers hsrc Unit broken c { mem := () } 1 (by decide) 0 (by decide)
    rw [hbinop.runOn_register hsrc, zmm_zeroYmmUpper_high _ _ (by decide) (by decide)] at hhigh
    exact hc hhigh.symm
  · obtain ⟨e, he, addr, hread⟩ := hbinop.reads_broken hsrc {} { mem := () }
    have hsize := hcovers.reads hsrc Unit broken {} { mem := () } e he addr 16 hread
    cases hsize

theorem covers_of_comparesSelf (h : i.Vex256) (hself : i.comparesSelf) : CoversHalves fp i := by
  obtain ⟨hcmp, hsrc, hreg⟩ := hself
  have hbinop : Binop (i.run fp) i 16 fun a b c => (c.setZmmBytes i.dst.reg 0 16
      (map64 (fun a b => ones (b.slt a)) a b)).zeroYmmUpper i.dst.reg := by
    rw [Insn.run, hcmp]
    exact binop_vexBinopXmm h fun _ => map64 fun a b => ones (b.slt a)
  have hmem : i.src.isMem ≠ true := by
    rw [Operand.isMem, hsrc]
    decide
  refine ⟨?_, fun hsrc' => absurd hsrc' hmem, fun hsrc' => absurd hsrc' hmem⟩
  intro _ σ at_ c w k hk j hj
  rw [hbinop.runOn_register hsrc, hcmp, vex128_opVpcmpgtq _ _ _ _ hj, hreg, greater_self]
  rcases (by omega : k = 0 ∨ k = 1) with rfl | rfl
  · rw [Nat.mul_zero, Nat.zero_add, zmm_zeroYmmUpper_low _ _ hj,
      Cpu.zmm_setZmmBytes_low _ _ _ _ hj, greater_self]
  · exact zmm_zeroYmmUpper_high _ _ (by omega) (by omega)

end Vex256

/-! ### Decoded instructions -/

/-- A clause of the VEX maps that binds a vector handler marks the instruction and sizes it by
VEX.L. -/
def VexSized (px : Prefixes) (i : Insn) : Prop :=
  i.handler ∉ bmiHandlers → i.handler ∉ vzeroHandlers →
    i.flags.vex = true ∧ i.opSize = px.vexSize

theorem sized_decodeVexOpRmv (px : Prefixes) (out : Insn) (kind : OpKind) (h : Handler) :
    Parse.Post (decodeVexOpRmv px out kind h) fun i _ => VexSized px i := by
  rw [decodeVexOpRmv, readModrm_bind]
  refine Parse.post_next fun mb => ?_
  refine Parse.post_bind (Parse.post_yields _) fun src bs _ => Parse.post_ret ?_
  exact fun _ _ => ⟨rfl, rfl⟩

theorem vexClauses_sized (px : Prefixes) (out : Insn) :
    VexClauses px out fun i _ => VexSized px i where
  binop kind h _ := sized_decodeVexOpRmv px out kind h
  binopImm kind h _ :=
    Parse.post_bind (sized_decodeVexOpRmv px out kind h) fun i bs hi =>
      Parse.post_bind (Parse.post_yields _) fun imm bs _ => Parse.post_ret hi
  move kind h _ regToRm := by
    rw [decodeVexOpRm, readModrm_bind]
    refine Parse.post_next fun mb => ?_
    refine Parse.post_bind (Parse.post_yields _) fun rm bs _ => Parse.post_ret ?_
    exact fun _ _ => ⟨rfl, rfl⟩
  gather kind h _ dataLane indexLane := by
    rw [decodeVgather, readModrm_bind]
    refine Parse.post_next fun mb => ?_
    split
    · exact Parse.post_fail
    · refine Parse.post_bind (Parse.post_yields _) fun src bs _ => Parse.post_ret ?_
      exact fun _ _ => ⟨rfl, rfl⟩
  bmi i bs hmem := fun hbmi _ => absurd hmem hbmi
  vzero kind h hmem := fun _ hvzero => absurd hmem hvzero

/-- What the decoder makes of a three-operand instruction behind a VEX prefix with L set. -/
theorem DecodedBehind.vex256 {fetch : Fetch} {rip : GuestAddr} {fuel : Nat} {px : Prefixes}
    {i : Insn} (h : DecodedBehind fetch rip fuel px i)
    (hvex : px.isVex = true ∧ px.isEvex = false ∧ px.vexL = true)
    (hhandler : i.handler ∈ avxHandlers ∨ i.handler ∈ phase10Handlers) : i.Vex256 := by
  obtain ⟨hisVex, hisEvex, hlong⟩ := hvex
  obtain ⟨f, hf, hadmits⟩ := (decodeWithSource_accepted h.accepted).fits
  have hlists : ∀ g ∈ avxHandlers ++ phase10Handlers,
      g.forms = [⟨.xmm, .xmmRm, []⟩] ∧ g ∉ bmiHandlers ∧ g ∉ vzeroHandlers := by decide
  obtain ⟨hforms, hbmi, hvzero⟩ := hlists i.handler (List.mem_append.mpr hhandler)
  have hsized : i.flags.vex = true ∧ i.opSize = px.vexSize := by
    obtain ⟨c, out, bs, _, hyields, _, len, rfl⟩ := h.yields
    rw [decodeAfterPrefixes, if_pos hisVex] at hyields
    obtain ⟨op, rest, _, hout⟩ := (vexClauses_sized px (px.insn rip)).decodes hisEvex bs out hyields
    exact hout hbmi hvzero
  rw [hforms, List.mem_singleton] at hf
  subst hf
  simp only [Form.admits, OperandSlot.admits, Bool.and_eq_true, Bool.or_eq_true,
    beq_iff_eq] at hadmits
  refine ⟨hhandler, ?_, hsized.1, hadmits.1.1, hadmits.1.2⟩
  rw [hsized.2, Prefixes.vexSize, if_pos hlong]

/-- A 256-bit instruction covers both halves exactly where its handler is one of `avx.cpp`, or
where it compares a register with itself. -/
theorem covers_iff (fp : HostFp) (fetch : Fetch) (rip : GuestAddr) (fuel : Nat) (px : Prefixes)
    (i : Insn) (h : DecodedBehind fetch rip fuel px i)
    (hvex : px.isVex = true ∧ px.isEvex = false ∧ px.vexL = true)
    (hhandler : i.handler ∈ avxHandlers ∨ i.handler ∈ phase10Handlers) :
    CoversHalves fp i ↔ i.handler ∈ avxHandlers ∨ i.comparesSelf := by
  have h256 := h.vex256 hvex hhandler
  constructor
  · intro hcovers
    rcases hhandler with hh | hh
    · exact .inl hh
    · by_cases hself : i.comparesSelf
      · exact .inr hself
      · exact absurd hcovers (not_covers_of_phase10 h256 hh hself)
  · rintro (hh | hself)
    · exact covers_of_avx h256 hh
    · exact covers_of_comparesSelf h256 hself

/-- `vpshufb ymm0, ymm1, ymm2` and `vpxor ymm0, ymm1, ymm2`. -/
def vpshufb256 : List U8 := [0xC4, 0xE2, 0x75, 0x00, 0xC2]
def vpxor256 : List U8 := [0xC5, 0xF5, 0xEF, 0xC2]

def vpshufbPrefixes : Prefixes :=
  { isVex := true, vexL := true, vexVvvv := 1, vexMap := 2, opsizePfx := true }
def vpxorPrefixes : Prefixes :=
  { isVex := true, vexL := true, vexVvvv := 1, vexMap := 1, opsizePfx := true }

/-- The three-operand instruction that the two byte strings decode to. -/
def ymm012 (handler : Handler) (kind : OpKind) (len : Nat) : Insn :=
  { handler, kind, opSize := 32, len, cond := .none, flags := { vex := true, opsizePfx := true }
    dst := { kind := .xmm, reg := 0, index := 1 }, src := { kind := .xmm, reg := 2 } }

theorem decodedBehind_vpshufb : DecodedBehind (bufFetch (bufOf vpshufb256) 5) 0 1 vpshufbPrefixes
    (ymm012 .opVpshufb .vpshufb 5) :=
  ⟨⟨3, rfl⟩, rfl⟩

theorem covers_iff_vpxor :
    CoversHalves default (ymm012 .opVpxor .vpxor 4) ↔
      (ymm012 .opVpxor .vpxor 4).handler ∈ avxHandlers ∨ (ymm012 .opVpxor .vpxor 4).comparesSelf :=
  covers_iff default (bufFetch (bufOf vpxor256) 4) 0 1 vpxorPrefixes _ ⟨⟨2, rfl⟩, rfl⟩
    ⟨rfl, rfl, rfl⟩ (.inl (by decide))

/-- VPSHUFB clears the high half. -/
theorem not_covers_vpshufb :
    ¬ ∀ (fp : HostFp) (fetch : Fetch) (rip : GuestAddr) (fuel : Nat) (px : Prefixes) (i : Insn),
      DecodedBehind fetch rip fuel px i →
      px.isVex = true ∧ px.isEvex = false ∧ px.vexL = true →
      i.handler ∈ avxHandlers ∨ i.handler ∈ phase10Handlers → CoversHalves fp i := by
  intro hall
  have hphase10 : (ymm012 .opVpshufb .vpshufb 5).handler ∈ phase10Handlers := by decide
  have hcovers := hall default _ 0 1 _ _ decodedBehind_vpshufb ⟨rfl, rfl, rfl⟩ (.inr hphase10)
  have h256 := decodedBehind_vpshufb.vex256 ⟨rfl, rfl, rfl⟩ (.inr hphase10)
  refine not_covers_of_phase10 h256 hphase10 ?_ hcovers
  exact fun hself => Handler.noConfusion hself.1

end PicoCpu
