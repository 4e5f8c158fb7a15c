import PicoCpu.EvexMasking
import PicoCpu.MemoryAccess
import PicoCpu.Decoder.Evex

/-!
The EVEX moves with a memory destination. The decoder puts the memory operand in `dst`, and the
write of the move goes to the vector register that has the number of its base.
-/

namespace PicoCpu

open H Proc Handlers Decode

/-! ### The law -/

/-- The element size of a masked move. -/
def Handler.moveElement (h : Handler) : Nat :=
  if h = .opVmovdqu32 ∨ h = .opVmovdqa32 then 4 else 8

namespace Insn

/-- Byte `k` of the source belongs to an element that is stored. -/
def Stores (i : Insn) (c : Cpu) (k : Nat) : Prop :=
  k < i.opSize ∧ i.Selects c (k / i.handler.moveElement)

/-- Where byte `k` is stored. -/
def storeAddr (i : Insn) (c : Cpu) (k : Nat) : GuestAddr := ea c i i.dst + BitVec.ofNat 64 k

end Insn

section Law

variable {σ : Type}

/-- The memory takes byte `b` at `addr`. -/
def Attached.Takes (at_ : Attached σ) (w : World σ) (addr : GuestAddr) (b : U8) : Prop :=
  ∃ w', at_.env (.write addr 1 fun _ => b) w = ((.ok () : Except Status Unit), w')

/-- The memory takes every byte that is stored. -/
def Insn.Writable (i : Insn) (at_ : Attached σ) (c : Cpu) (w : World σ) : Prop :=
  ∀ k, i.Stores c k → at_.Takes w (i.storeAddr c k) (c.zmm i.src.reg k)

/-- A masked store of vector register `reg`, from `c` and `w` to `c'` and `w'`. -/
structure EvexStoreLaw (i : Insn) (reg : Nat) (at_ : Attached σ) (mem : σ → ByteMap) (c : Cpu)
    (w : World σ) (c' : Cpu) (w' : World σ) : Prop where
  stored : i.Writable at_ c w → ∀ k, i.Stores c k →
    mem w'.mem (i.storeAddr c k) = some (c.zmm reg k)
  fault : ¬ i.Writable at_ c w → c.halted = false → c'.halted = true
  others : ∀ a, (∀ k, i.Stores c k → a ≠ i.storeAddr c k) → mem w'.mem a = mem w.mem a
  registers : ∀ r, c'.zmm r = c.zmm r

/-- The memory already holds what is stored, and the vector register with the number of the base
already holds what a move to it would leave. -/
structure StoreRedundant (i : Insn) (at_ : Attached σ) (mem : σ → ByteMap) (c : Cpu)
    (w : World σ) : Prop where
  writable : c.halted = false → i.Writable at_ c w
  stored : i.Writable at_ c w → ∀ k, i.Stores c k →
    mem w.mem (i.storeAddr c k) = some (c.zmm i.src.reg k)
  moved : ∀ k, i.Stores c k → c.zmm i.dst.reg k = c.zmm i.src.reg k
  zeroed : i.zeroing = true → ∀ k < i.opSize, ¬ i.Stores c k → c.zmm i.dst.reg k = 0
  upper : ∀ k, i.opSize ≤ k → k < 64 → c.zmm i.dst.reg k = 0

end Law

/-! ### The decoder -/

/-- What the opcode 7F of the first EVEX map makes. -/
structure StoreForm (px : Prefixes) (modrm : U8) (out : Insn) : Prop where
  handler : out.handler ∈ evexMoveHandlers
  src : out.src.kind = .xmm
  dst : (splitModrm modrm).mod ≠ 3 → out.dst.isMem = true
  size : out.opSize = px.evexVectorSize

theorem evexClauses_store (px : Prefixes) (out : Insn) : EvexClauses px out fun op i bs =>
    px.vexMap = 1 → op = 0x7F → ∃ modrm enc, bs = modrm :: enc ∧ StoreForm px modrm i where
  binop _ op hop kind h hh := by
    intro i bs _ _ hstore
    have hpair : (0x7F : U8) ∈ evexPairOpcodes := by decide
    exact absurd (hstore ▸ hpair) hop
  load _ kind h hh := by
    intro i bs _ _ hstore
    exact absurd hstore (by decide)
  store _ kind h hh := by
    rw [decodeEvexOpRm, readModrm_bind]
    refine Parse.post_next fun mb => ?_
    refine Parse.post_bind (Parse.post_yields _) fun rm enc hrm => Parse.post_ret ?_
    exact fun _ _ => ⟨mb, _, rfl, hh, rfl, fun hmod => decodeXmmOperand_isMem hmod _ _ _ hrm, rfl⟩
  sqrt _ kind h hh := by
    intro i bs _ _ hstore
    exact absurd hstore (by decide)
  scatter h2 op kind h hh dataLane indexLane := by
    intro i bs _ h1
    omega

/-- A store with a memory destination. -/
theorem storeForm_of_decoded {fetch : Fetch} {rip : GuestAddr} {fuel p : Nat} {i : Insn}
    {e : EvexBytes} (hdecoded : decodeWithSource fetch rip fuel = some (.ok i))
    (hat : EvexAt fetch p e) (hstore : e.isStore) :
    ∃ px, EvexRead e px ∧ StoreForm px e.modrm i ∧ i.src.reg = e.regField := by
  obtain ⟨px, out, bs, _, hread, _, hclause, hholds, rfl⟩ :=
    evexClause_of_decoded hdecoded hat fun px out _ => evexClauses_store px out
  obtain ⟨modrm, enc, rfl, hform⟩ := hclause (hread.map.trans hstore.1) hstore.2
  obtain rfl := hat.modrm_eq hholds
  obtain ⟨px', enc', hread', hfields, _⟩ := evexFields_of_decoded hdecoded hat
  have hreg := hfields.reg_eq hread'
  rw [EvexBytes.regOperand, if_pos hstore] at hreg
  exact ⟨px, hread, ⟨hform.handler, hform.src, hform.dst, hform.size⟩, hreg⟩

/-! ### The run -/

section Run

variable {i : Insn}

/-- The move writes the vector register numbered by `dst`, whatever `dst` is. -/
theorem evexMove_updates (fp : HostFp) (hh : i.handler ∈ evexMoveHandlers)
    (hsrc : i.src.kind = .xmm) :
    (i.run fp).Updates (maskedResult i.handler.moveElement (fun _ b => b) i) := by
  have move (hrun : i.run fp = maskedMove i.handler.moveElement i) :
      (i.run fp).Updates (maskedResult i.handler.moveElement (fun _ b => b) i) := by
    constructor
    rw [hrun, maskedMove, VecIo.read_xmm _ i hsrc]
    rfl
  simp only [evexMoveHandlers, List.mem_cons, List.not_mem_nil, or_false] at hh
  rcases hh with hop | hop | hop | hop
  · exact move (by rw [Insn.run, hop]; rfl)
  · exact move (by rw [Insn.run, hop]; rfl)
  · exact move (by rw [Insn.run, hop]; rfl)
  · exact move (by rw [Insn.run, hop]; rfl)

variable {σ : Type} {at_ : Attached σ} {mem : σ → ByteMap} {c : Cpu} {w : World σ}
  (hwidth : i.opSize ≤ 64)
include hwidth

/-- The bytes of the register that the move writes. -/
theorem zmm_moved (k : Nat) :
    (maskedResult i.handler.moveElement (fun _ b => b) i c).zmm i.dst.reg k =
      if k < i.opSize then
        if i.Selects c (k / i.handler.moveElement) then c.zmm i.src.reg k
        else if i.zeroing then 0 else c.zmm i.dst.reg k
      else if k < 64 then 0 else c.zmm i.dst.reg k := by
  by_cases hlow : k < i.opSize
  · rw [if_pos hlow, zmm_maskedResult c hlow hwidth]
  · rw [if_neg hlow, maskedResult, Cpu.zeroZmmUpper, Cpu.zmm_setZmmBytes, Cpu.zmm_setZmmBytes]
    by_cases hin : k < 64
    · rw [if_pos hin, if_pos (by omega)]
    · rw [if_neg hin, if_neg (by omega), if_neg (by omega)]

/-- The store is a store exactly where it is redundant. -/
theorem storeLaw_iff :
    EvexStoreLaw i i.src.reg at_ mem c w
        (maskedResult i.handler.moveElement (fun _ b => b) i c) w ↔
      StoreRedundant i at_ mem c w := by
  constructor
  · intro hlaw
    have hkept (k : Nat) := congrFun (hlaw.registers i.dst.reg) k
    refine ⟨fun hrun => ?_, hlaw.stored, fun k hk => ?_, fun hzero k hk hnot => ?_,
      fun k hk hin => ?_⟩
    · by_contra hnot
      have hhalted : c.halted = true := hlaw.fault hnot hrun
      rw [hrun] at hhalted
      cases hhalted
    · have hbyte := hkept k
      rw [zmm_moved hwidth, if_pos hk.1, if_pos hk.2] at hbyte
      exact hbyte.symm
    · have hbyte := hkept k
      rw [zmm_moved hwidth, if_pos hk, if_neg fun hselects => hnot ⟨hk, hselects⟩,
        if_pos hzero] at hbyte
      exact hbyte.symm
    · have hbyte := hkept k
      rw [zmm_moved hwidth, if_neg (Nat.not_lt.mpr hk), if_pos hin] at hbyte
      exact hbyte.symm
  · intro h
    refine ⟨h.stored, fun hnot hrun => absurd (h.writable hrun) hnot, fun _ _ => rfl, fun r => ?_⟩
    by_cases hr : r = i.dst.reg
    · subst hr
      funext k
      rw [zmm_moved hwidth]
      by_cases hlow : k < i.opSize
      · rw [if_pos hlow]
        by_cases hselects : i.Selects c (k / i.handler.moveElement)
        · rw [if_pos hselects, h.moved k ⟨hlow, hselects⟩]
        · rw [if_neg hselects]
          cases hzero : i.zeroing with
          | true => rw [if_pos rfl, h.zeroed hzero k hlow fun hk => hselects hk.2]
          | false => rw [if_neg Bool.false_ne_true]
      · rw [if_neg hlow]
        by_cases hin : k < 64
        · rw [if_pos hin, h.upper k (Nat.not_lt.mp hlow) hin]
        · rw [if_neg hin]
    · rw [maskedResult, Cpu.zeroZmmUpper, Cpu.zmm_setZmmBytes_of_ne _ hr,
        Cpu.zmm_setZmmBytes_of_ne _ hr]

end Run

/-- An accepted store with a memory destination obeys the law of stores exactly where it has nothing
to do: the memory already holds the bytes it stores, and the vector register with the number of the
base already holds the masked result. -/
theorem evex_store_iff (fp : HostFp) {fetch : Fetch} {rip : GuestAddr} {fuel p : Nat}
    {e : EvexBytes} {i : Insn} (hdecoded : decodeWithSource fetch rip fuel = some (.ok i))
    (hat : EvexAt fetch p e) (hstore : e.isStore) (hmem : e.mod ≠ 3) {σ : Type} (at_ : Attached σ)
    (mem : σ → ByteMap) (c : Cpu) (w : World σ) :
    i.dst.isMem = true ∧
      (EvexStoreLaw i e.regField at_ mem c w ((i.run fp).runOn at_ c w).value.2
          ((i.run fp).runOn at_ c w).world ↔
        StoreRedundant i at_ mem c w) := by
  obtain ⟨px, hread, hform, hreg⟩ := storeForm_of_decoded hdecoded hat hstore
  have hwidth : i.opSize ≤ 64 := by
    rw [hform.size, hread.size]
    split_ifs <;> decide
  refine ⟨hform.dst hmem, ?_⟩
  rw [(evexMove_updates fp hform.handler hform.src).runOn at_ c w, ← hreg]
  exact storeLaw_iff hwidth

/-- `vmovdqu32 [rax], zmm1`. -/
def vmovdqu32Store : List U8 := [0x62, 0xF1, 0x7E, 0x48, 0x7F, 0x08]

def storeZmm1 : Insn :=
  { handler := .opVmovdqu32, kind := .vmovdqu32, opSize := 64, len := 6, cond := .none
    flags := { rep := true, vex := true }
    dst := { kind := .mem, reg := 0, index := Reg.none }, src := { kind := .xmm, reg := 1 } }

theorem storeZmm1_decoded :
    decodeWithSource (bufFetch (bufOf vmovdqu32Store) 6) 0 1 = some (.ok storeZmm1) := rfl

/-- Flat memory takes every byte. -/
theorem storeZmm1_writable (c : Cpu) (w : World (GuestAddr → U8)) :
    storeZmm1.Writable flatMachine c w := fun _ _ => ⟨_, rfl⟩

/-- With zeros in the registers and in the memory there is nothing to store. -/
theorem evex_store_iff_zeros :
    EvexStoreLaw storeZmm1 1 flatMachine flatBytes {} { mem := fun _ => 0 }
      ((storeZmm1.run default).runOn flatMachine {} { mem := fun _ => 0 }).value.2
      ((storeZmm1.run default).runOn flatMachine {} { mem := fun _ => 0 }).world := by
  refine (evex_store_iff default storeZmm1_decoded evexAt_bufFetch (by decide) (by decide)
    flatMachine flatBytes {} { mem := fun _ => 0 }).2.mpr ?_
  exact ⟨fun _ => storeZmm1_writable _ _, fun _ _ _ => rfl, fun _ _ => rfl, fun _ _ _ _ => rfl,
    fun _ _ _ => rfl⟩

/-- Ones in `zmm1`. -/
def onesInZmm1 : Cpu := { zmm := fun r _ => if r = 1 then 1 else 0 }

/-- Flat memory keeps its zeros. -/
theorem not_evexStoreLaw_vmovdqu32 :
    ¬ ∀ (fp : HostFp) (fetch : Fetch) (rip : GuestAddr) (fuel p : Nat) (e : EvexBytes) (i : Insn),
      decodeWithSource fetch rip fuel = some (.ok i) → EvexAt fetch p e → e.isStore → e.mod ≠ 3 →
        ∀ (σ : Type) (at_ : Attached σ) (mem : σ → ByteMap) (c : Cpu) (w : World σ),
          EvexStoreLaw i e.regField at_ mem c w ((i.run fp).runOn at_ c w).value.2
            ((i.run fp).runOn at_ c w).world := by
  intro hall
  have hlaw := hall default _ _ _ _ _ _ storeZmm1_decoded evexAt_bufFetch (by decide) (by decide)
    _ flatMachine flatBytes onesInZmm1 { mem := fun _ => 0 }
  rw [(evexMove_updates default (by decide) rfl).runOn] at hlaw
  have hbyte := hlaw.stored (storeZmm1_writable _ _) 0 ⟨by decide, .inl rfl⟩
  have hzero : (0 : U8) = 1 := Option.some.inj hbyte
  exact absurd hzero (by decide)

end PicoCpu
