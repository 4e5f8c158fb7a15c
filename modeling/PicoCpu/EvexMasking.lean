import PicoCpu.Sha
import PicoCpu.Shifts
import PicoCpu.UpperBits
import PicoCpu.Lib.SetBits

/-!
The masking law of the EVEX integer instructions and masked moves on registers: an element of the
destination is the result when its mask bit is set or there is no mask, else zero or the element as
it was.
-/

namespace PicoCpu

open H Proc Handlers

/-! ### Elements of a buffer -/

/-- Element `e` of a vector of elements of `size` bytes. -/
def Buf.element (size : Nat) (v : Buf) (e : Nat) : BitVec (8 * size) :=
  (loadLE (v.drop (size * e)) size).setWidth (8 * size)

section Elements

variable {size : Nat} (hsize : size ≤ 8) {e : Nat} {v u : Buf}
include hsize

theorem getLsbD_element {n : Nat} (hn : n < 8 * size) :
    (v.element size e).getLsbD n = (v (size * e + n / 8)).getLsbD (n % 8) := by
  rw [Buf.element, BitVec.getLsbD_setWidth, getLsbD_loadLE _ _ _ (by omega), decide_eq_true hn,
    Bool.true_and, Bool.true_and]
  rfl

/-- An element depends on its bytes. -/
theorem element_congr (h : ∀ j < size, v (size * e + j) = u (size * e + j)) :
    v.element size e = u.element size e := by
  apply BitVec.eq_of_getLsbD_eq
  intro n hn
  have hbyte : n / 8 < size := by omega
  rw [getLsbD_element hsize hn, getLsbD_element hsize hn, h _ hbyte]

theorem element_zero : Buf.element size (fun _ => 0) e = 0 := by
  apply BitVec.eq_of_getLsbD_eq
  intro n hn
  rw [getLsbD_element hsize hn]
  exact (BitVec.getLsbD_zero).trans BitVec.getLsbD_zero.symm

theorem element_storeLE (v : U64) : Buf.element size (storeLE v) 0 = v.setWidth (8 * size) := by
  apply BitVec.eq_of_getLsbD_eq
  intro n hn
  have hmod : n % 8 < 8 := Nat.mod_lt _ (by decide)
  rw [getLsbD_element hsize hn, Nat.mul_zero, Nat.zero_add, storeLE, BitVec.getLsbD_setWidth,
    BitVec.getLsbD_ushiftRight, Nat.div_add_mod, BitVec.getLsbD_setWidth, decide_eq_true hn,
    decide_eq_true hmod]

/-- A bitwise operation on bytes is that operation on elements. -/
theorem element_map8 {b : Bool → Bool → Bool} {f : U8 → U8 → U8}
    {g : BitVec (8 * size) → BitVec (8 * size) → BitVec (8 * size)}
    (hf : ∀ x y n, n < 8 → (f x y).getLsbD n = b (x.getLsbD n) (y.getLsbD n))
    (hg : ∀ x y n, n < 8 * size → (g x y).getLsbD n = b (x.getLsbD n) (y.getLsbD n)) :
    (map8 f v u).element size e = g (v.element size e) (u.element size e) := by
  apply BitVec.eq_of_getLsbD_eq
  intro n hn
  rw [getLsbD_element hsize hn, hg _ _ _ hn, getLsbD_element hsize hn, getLsbD_element hsize hn]
  exact hf _ _ _ (Nat.mod_lt _ (by decide))

end Elements

/-- The element a packed number is cut into. -/
theorem element_packed (size : Nat) (hsize : size ≤ 8) {f : Nat → BitVec (8 * size)} {v : Buf}
    (hv : ∀ j, v j = (f (j / size) >>> (8 * (j % size))).setWidth 8) (e : Nat) :
    v.element size e = f e := by
  apply BitVec.eq_of_getLsbD_eq
  intro n hn
  have hbyte : n / 8 < size := by omega
  have hlane : (size * e + n / 8) / size = e := by
    rw [Nat.mul_add_div (by omega), Nat.div_eq_of_lt hbyte, Nat.add_zero]
  have hoffset : (size * e + n / 8) % size = n / 8 := by
    rw [Nat.mul_add_mod, Nat.mod_eq_of_lt hbyte]
  have hbit : n % 8 < 8 := by omega
  rw [getLsbD_element hsize hn, hv, hlane, hoffset, BitVec.getLsbD_setWidth,
    BitVec.getLsbD_ushiftRight, Nat.div_add_mod, decide_eq_true hbit, Bool.true_and]

theorem element_packU16 (f : Nat → U16) (e : Nat) : Buf.element 2 (packU16 f) e = f e :=
  element_packed 2 (by decide) (fun _ => rfl) e

theorem element_packU32 (f : Nat → U32) (e : Nat) : Buf.element 4 (packU32 f) e = f e :=
  element_packed 4 (by decide) (fun _ => rfl) e

theorem element_packU64 (f : Nat → U64) (e : Nat) : Buf.element 8 (packU64 f) e = f e :=
  element_packed 8 (by decide) (fun _ => rfl) e

/-- An element from its halves. -/
theorem getLsbD_element_halves (size : Nat) (hsize : 2 * size ≤ 8) (v : Buf) (e : Nat) {n : Nat}
    (hn : n < 8 * (2 * size)) :
    (v.element (2 * size) e).getLsbD n =
      (v.element size (2 * e + 1) ++ v.element size (2 * e)).getLsbD n := by
  have hhalf : size ≤ 8 := by omega
  rw [getLsbD_element hsize hn, BitVec.getLsbD_append]
  by_cases hlow : n < 8 * size
  · have hbyte : 2 * size * e + n / 8 = size * (2 * e) + n / 8 := by ring
    rw [if_pos hlow, getLsbD_element hhalf hlow, hbyte]
  · have hbyte : 2 * size * e + n / 8 = size * (2 * e + 1) + (n - 8 * size) / 8 := by
      have hdiv : n / 8 = size + (n - 8 * size) / 8 := by omega
      rw [hdiv]
      ring
    have hbit : n % 8 = (n - 8 * size) % 8 := by omega
    rw [if_neg hlow, getLsbD_element hhalf (by omega), hbyte, hbit]

/-! ### Elements as lanes -/

section Lanes

variable (v u : Buf) (e : Nat)

theorem element_one : v.element 1 e = v e := by
  apply BitVec.eq_of_getLsbD_eq
  intro n hn
  have hbyte : 1 * e + n / 8 = e := by omega
  have hbit : n % 8 = n := by omega
  rw [getLsbD_element (by decide) hn, hbyte, hbit]

theorem element_two : v.element 2 e = laneU16 v e := by
  apply BitVec.eq_of_getLsbD_eq
  intro n hn
  rw [getLsbD_element_halves 1 (by decide) v e hn, element_one, element_one]
  rfl

theorem element_four : v.element 4 e = laneU32 v e := by
  have hlane : laneU32 v e = laneU16 v (2 * e + 1) ++ laneU16 v (2 * e) := by
    have hhigh : 2 * (2 * e + 1) = 4 * e + 2 := by omega
    have hlow : 2 * (2 * e) = 4 * e := by omega
    rw [laneU16, laneU16, hhigh, hlow, laneU32, BitVec.append_assoc]
    rfl
  apply BitVec.eq_of_getLsbD_eq
  intro n hn
  rw [getLsbD_element_halves 2 (by decide) v e hn, element_two, element_two, hlane]

theorem element_eight : v.element 8 e = laneU64 v e := by
  apply BitVec.eq_of_getLsbD_eq
  intro n hn
  rw [getLsbD_element_halves 4 (by decide) v e hn, element_four, element_four]
  rfl

theorem element_map16 (f : U16 → U16 → U16) :
    (map16 f v u).element 2 e = f (v.element 2 e) (u.element 2 e) := by
  rw [element_two v, element_two u]
  exact element_packU16 _ e

theorem element_map32 (f : U32 → U32 → U32) :
    (map32 f v u).element 4 e = f (v.element 4 e) (u.element 4 e) := by
  rw [element_four v, element_four u]
  exact element_packU32 _ e

theorem element_map64 (f : U64 → U64 → U64) :
    (map64 f v u).element 8 e = f (v.element 8 e) (u.element 8 e) := by
  rw [element_eight v, element_eight u]
  exact element_packU64 _ e

end Lanes

/-! ### The law -/

/-- The operation on elements. -/
inductive EvexOp where
  | xor | and | or | add | sub | move
  deriving DecidableEq, Repr

/-- The result from the elements of the two sources; a move has only the second. -/
def EvexOp.value {n : Nat} (op : EvexOp) (a b : BitVec n) : BitVec n :=
  match op with
  | .xor => a ^^^ b
  | .and => a &&& b
  | .or => a ||| b
  | .add => a + b
  | .sub => a - b
  | .move => b

/-- The integer instructions and masked moves with their element size and operation. -/
def evexMasked : List (Handler × Nat × EvexOp) :=
  [(.opVpxord, 4, .xor), (.opVpxorq, 8, .xor), (.opVpandd, 4, .and), (.opVpandq, 8, .and),
   (.opVpord, 4, .or), (.opVporq, 8, .or),
   (.opVpaddbEvex, 1, .add), (.opVpaddwEvex, 2, .add), (.opVpadddEvex, 4, .add),
   (.opVpaddqEvex, 8, .add), (.opVpsubbEvex, 1, .sub), (.opVpsubwEvex, 2, .sub),
   (.opVpsubdEvex, 4, .sub), (.opVpsubqEvex, 8, .sub),
   (.opVmovdqu32, 4, .move), (.opVmovdqu64, 8, .move), (.opVmovdqa32, 4, .move),
   (.opVmovdqa64, 8, .move)]

/-- Element `e` of a vector register. -/
def Cpu.element (c : Cpu) (size reg e : Nat) : BitVec (8 * size) :=
  Buf.element size (c.zmm reg) e

namespace Insn

/-- EVEX.aaa: the number of the opmask register. -/
def maskSelector (i : Insn) : Nat := (i.pad.extractLsb' 0 3).toNat

/-- EVEX.z. -/
def zeroing (i : Insn) : Bool := i.pad.getLsbD 3

/-- Element `e` takes the result: there is no mask, or its bit is set. -/
def Selects (i : Insn) (c : Cpu) (e : Nat) : Prop :=
  i.maskSelector = 0 ∨ (c.k i.maskSelector).getLsbD e = true

instance (i : Insn) (c : Cpu) (e : Nat) : Decidable (i.Selects c e) :=
  inferInstanceAs (Decidable (_ ∨ _))

/-- The element of the destination after the instruction. -/
def maskedElement (i : Insn) (size : Nat) (op : EvexOp) (c : Cpu) (e : Nat) :
    BitVec (8 * size) :=
  if i.Selects c e then
    op.value (c.element size i.dst.index e) (c.element size i.src.reg e)
  else if i.zeroing then 0
  else c.element size i.dst.reg e

end Insn

/-- From `c` to `c'`: the elements of the destination follow the mask, its bytes beyond the vector
length are zero, and nothing else has changed. -/
structure MaskingLaw (i : Insn) (size : Nat) (op : EvexOp) (c c' : Cpu) : Prop where
  elements : ∀ e < i.opSize / size,
    c'.element size i.dst.reg e = i.maskedElement size op c e
  upper : ∀ b, i.opSize ≤ b → b < 64 → c'.zmm i.dst.reg b = 0
  others : ∀ r, r ≠ i.dst.reg → c'.zmm r = c.zmm r
  rest : { c' with zmm := c.zmm } = c

section Law

variable {i : Insn}

theorem opmask_eq : opmask i = i.maskSelector := by
  have h (pad : U16) : (pad &&& 7).toNat = (pad.extractLsb' 0 3).toNat := by
    rw [BitVec.toNat_and, BitVec.extractLsb'_toNat]
    exact Nat.and_two_pow_sub_one_eq_mod pad.toNat 3
  exact h i.pad

theorem isZeroing_eq : isZeroing i = i.zeroing := by
  have hbit : (8 : U16) = BitVec.twoPow 16 3 := rfl
  rw [isZeroing, Insn.zeroing, hbit, SetBits.and_twoPow_bne_zero _ (by decide)]

/-- The bits of the mask against the selection. -/
theorem selects_iff (c : Cpu) {e : Nat} (he : e < 64) :
    bitAt (maskBits i c) e = true ↔ i.Selects c e := by
  have hlt : i.maskSelector % 8 = i.maskSelector := Nat.mod_eq_of_lt (BitVec.isLt _)
  rw [bitAt_eq, maskBits, opmask_eq, Insn.Selects]
  by_cases hnone : i.maskSelector = 0
  · rw [if_pos hnone, BitVec.getLsbD_not, decide_eq_true he, BitVec.getLsbD_zero]
    exact ⟨fun _ => .inl hnone, fun _ => rfl⟩
  · rw [if_neg hnone, Cpu.kreg, hlt]
    exact ⟨.inr, fun h => h.resolve_left hnone⟩

/-- A buffer operation that acts on elements. -/
def Elementwise (size : Nat) (op : EvexOp) (f : Buf → Buf → Buf) : Prop :=
  ∀ a b e, Buf.element size (f a b) e = op.value (a.element size e) (b.element size e)

/-- The result of a masked instruction on registers. -/
def maskedResult (size : Nat) (f : Buf → Buf → Buf) (i : Insn) (c : Cpu) : Cpu :=
  (c.setZmmBytes i.dst.reg 0 i.opSize (maskLanes size i (maskBits i c)
    (f (c.zmm i.dst.index) (c.zmm i.src.reg)) (c.zmm i.dst.reg))).zeroZmmUpper i.dst.reg i.opSize

/-- A byte of the destination below the vector length. -/
theorem zmm_maskedResult {size : Nat} {f : Buf → Buf → Buf} (c : Cpu) {b : Nat}
    (hb : b < i.opSize) (hwidth : i.opSize ≤ 64) :
    (maskedResult size f i c).zmm i.dst.reg b =
      if i.Selects c (b / size) then f (c.zmm i.dst.index) (c.zmm i.src.reg) b
      else if i.zeroing then 0 else c.zmm i.dst.reg b := by
  have hlane : b / size < 64 := (Nat.div_le_self ..).trans_lt (by omega)
  rw [maskedResult, Cpu.zeroZmmUpper, Cpu.zmm_setZmmBytes_below _ _ _ _ _ hb,
    Cpu.zmm_setZmmBytes_low _ _ _ _ hb, maskLanes, isZeroing_eq]
  simp only [selects_iff c hlane]

/-- Byte by byte the mask acts on elements. -/
theorem masking_of_elementwise {size : Nat} {op : EvexOp} {f : Buf → Buf → Buf}
    (hsize : size ≤ 8) (hwidth : i.opSize ≤ 64) (hf : Elementwise size op f) (c : Cpu) :
    MaskingLaw i size op c (maskedResult size f i c) where
  elements := by
    intro e he
    have hbyte (j : Nat) (hj : j < size) : (maskedResult size f i c).zmm i.dst.reg (size * e + j) =
        if i.Selects c e then f (c.zmm i.dst.index) (c.zmm i.src.reg) (size * e + j)
        else if i.zeroing then 0 else c.zmm i.dst.reg (size * e + j) := by
      have hin : size * e + j < i.opSize := by
        have hend : size * (e + 1) ≤ i.opSize :=
          (Nat.mul_le_mul_left size he).trans (Nat.mul_div_le ..)
        rw [Nat.mul_succ] at hend
        omega
      have hlane : (size * e + j) / size = e := by
        rw [Nat.mul_add_div (by omega), Nat.div_eq_of_lt hj, Nat.add_zero]
      rw [zmm_maskedResult c hin hwidth, hlane]
    rw [Insn.maskedElement, Cpu.element]
    by_cases hselects : i.Selects c e
    · rw [if_pos hselects, Cpu.element, Cpu.element, ← hf]
      apply element_congr hsize
      intro j hj
      rw [hbyte j hj, if_pos hselects]
    · rw [if_neg hselects]
      cases hzero : i.zeroing with
      | true =>
          rw [if_pos rfl, ← element_zero hsize]
          apply element_congr hsize
          intro j hj
          rw [hbyte j hj, if_neg hselects, hzero, if_pos rfl]
      | false =>
          rw [if_neg Bool.false_ne_true, Cpu.element]
          apply element_congr hsize
          intro j hj
          rw [hbyte j hj, if_neg hselects, hzero, if_neg Bool.false_ne_true]
  upper := ClearFrom.of_zeroZmmUpper _ _ _
  others := by
    intro r hr
    rw [maskedResult, Cpu.zeroZmmUpper, Cpu.zmm_setZmmBytes_of_ne _ hr,
      Cpu.zmm_setZmmBytes_of_ne _ hr]
  rest := rfl

end Law

/-! ### The instructions -/

section Instructions

variable {i : Insn} {size : Nat} {op : EvexOp}

/-- The instruction is the update of its masked result, for a buffer operation that acts on
elements. -/
def MaskedForm (fp : HostFp) (i : Insn) (size : Nat) (op : EvexOp) : Prop :=
  ∃ f, Elementwise size op f ∧ (i.run fp).Updates (maskedResult size f i)

theorem maskedForm_of_binop (hsrc : i.src.kind = .xmm) (fp : HostFp) {f : Buf → Buf → Buf}
    (hf : Elementwise size op f) (hrun : i.run fp = maskedBinop size f i) :
    MaskedForm fp i size op := by
  refine ⟨f, hf, ⟨?_⟩⟩
  rw [hrun, maskedBinop, VecIo.read_xmm _ i hsrc]
  rfl

end Instructions

section Rows

variable {size : Nat}

theorem elementwise_xor (hsize : size ≤ 8) :
    Elementwise size .xor (map8 fun a b => a ^^^ b) :=
  fun _ _ _ => element_map8 hsize (b := Bool.xor) (fun _ _ _ _ => BitVec.getLsbD_xor)
    fun _ _ _ _ => BitVec.getLsbD_xor

theorem elementwise_and (hsize : size ≤ 8) :
    Elementwise size .and (map8 fun a b => a &&& b) :=
  fun _ _ _ => element_map8 hsize (b := Bool.and) (fun _ _ _ _ => BitVec.getLsbD_and)
    fun _ _ _ _ => BitVec.getLsbD_and

theorem elementwise_or (hsize : size ≤ 8) :
    Elementwise size .or (map8 fun a b => a ||| b) :=
  fun _ _ _ => element_map8 hsize (b := Bool.or) (fun _ _ _ _ => BitVec.getLsbD_or)
    fun _ _ _ _ => BitVec.getLsbD_or

/-- Bytes are elements of size one. -/
theorem elementwise_bytes {op : EvexOp} {f : U8 → U8 → U8} (hf : ∀ x y, f x y = op.value x y) :
    Elementwise 1 op (map8 f) := by
  intro a b e
  rw [element_one, element_one, element_one]
  exact hf _ _

end Rows

/-- Every row of the table is a masked operation that acts on elements; a move takes the elements of
its source. -/
theorem masked_code {h : Handler} {size : Nat} {op : EvexOp} (fp : HostFp)
    (hrow : (h, size, op) ∈ evexMasked) :
    ∃ f, Elementwise size op f ∧ callHandler fp h = maskedBinop size f := by
  simp only [evexMasked, List.mem_cons, Prod.mk.injEq, List.not_mem_nil, or_false] at hrow
  rcases hrow with ⟨rfl, rfl, rfl⟩ | ⟨rfl, rfl, rfl⟩ | ⟨rfl, rfl, rfl⟩ | ⟨rfl, rfl, rfl⟩ |
    ⟨rfl, rfl, rfl⟩ | ⟨rfl, rfl, rfl⟩ | ⟨rfl, rfl, rfl⟩ | ⟨rfl, rfl, rfl⟩ | ⟨rfl, rfl, rfl⟩ |
    ⟨rfl, rfl, rfl⟩ | ⟨rfl, rfl, rfl⟩ | ⟨rfl, rfl, rfl⟩ | ⟨rfl, rfl, rfl⟩ | ⟨rfl, rfl, rfl⟩ |
    ⟨rfl, rfl, rfl⟩ | ⟨rfl, rfl, rfl⟩ | ⟨rfl, rfl, rfl⟩ | ⟨rfl, rfl, rfl⟩
  · exact ⟨_, elementwise_xor (by decide), rfl⟩
  · exact ⟨_, elementwise_xor (by decide), rfl⟩
  · exact ⟨_, elementwise_and (by decide), rfl⟩
  · exact ⟨_, elementwise_and (by decide), rfl⟩
  · exact ⟨_, elementwise_or (by decide), rfl⟩
  · exact ⟨_, elementwise_or (by decide), rfl⟩
  · exact ⟨_, elementwise_bytes fun _ _ => rfl, rfl⟩
  · exact ⟨_, fun a b e => element_map16 a b e _, rfl⟩
  · exact ⟨_, fun a b e => element_map32 a b e _, rfl⟩
  · exact ⟨_, fun a b e => element_map64 a b e _, rfl⟩
  · exact ⟨_, elementwise_bytes fun _ _ => rfl, rfl⟩
  · exact ⟨_, fun a b e => element_map16 a b e _, rfl⟩
  · exact ⟨_, fun a b e => element_map32 a b e _, rfl⟩
  · exact ⟨_, fun a b e => element_map64 a b e _, rfl⟩
  · exact ⟨fun _ b => b, fun _ _ _ => rfl, rfl⟩
  · exact ⟨fun _ b => b, fun _ _ _ => rfl, rfl⟩
  · exact ⟨fun _ b => b, fun _ _ _ => rfl, rfl⟩
  · exact ⟨fun _ b => b, fun _ _ _ => rfl, rfl⟩

theorem masked_form {i : Insn} {size : Nat} {op : EvexOp} (fp : HostFp)
    (hrow : (i.handler, size, op) ∈ evexMasked) (hsrc : i.src.kind = .xmm) :
    MaskedForm fp i size op := by
  obtain ⟨f, hf, hcode⟩ := masked_code fp hrow
  exact maskedForm_of_binop hsrc fp hf (congrFun hcode i)

theorem masked_size {h : Handler} {size : Nat} {op : EvexOp} (hrow : (h, size, op) ∈ evexMasked) :
    size ≤ 8 := by
  have hall : ∀ row ∈ evexMasked, row.2.1 ≤ 8 := by decide
  exact hall _ hrow

/-- A masked instruction whose source is a register, which may be the destination: it completes,
asks nothing of memory and obeys the law, whatever the mask and the registers hold. -/
theorem evex_masking (fp : HostFp) {i : Insn} {size : Nat} {op : EvexOp}
    (hrow : (i.handler, size, op) ∈ evexMasked) (hsrc : i.src.kind = .xmm)
    (hwidth : i.opSize = 16 ∨ i.opSize = 32 ∨ i.opSize = 64) {σ : Type} (at_ : Attached σ) (c : Cpu)
    (w : World σ) :
    ∃ c', (i.run fp).runOn at_ c w = ⟨(some (), c'), w, []⟩ ∧ MaskingLaw i size op c c' := by
  obtain ⟨f, hf, hupdates⟩ := masked_form fp hrow hsrc
  have hle : i.opSize ≤ 64 := by omega
  exact ⟨_, hupdates.runOn at_ c w, masking_of_elementwise (masked_size hrow) hle hf c⟩

/-- `vpaddd xmm1 {k2}, xmm1, xmm1`. -/
def maskedAdd : Insn :=
  { handler := .opVpadddEvex, opSize := 16, pad := 2
    dst := { kind := .xmm, reg := 1, index := 1 }, src := { kind := .xmm, reg := 1 } }

/-- Threes in every byte of the registers, and a mask for the even elements. -/
def evenElements : Cpu := { k := fun _ => 5, zmm := fun _ _ => 3 }

theorem evex_masking_vpaddd : ∃ c',
    (maskedAdd.run default).runOn (σ := Unit) ⟨none, none, [], []⟩ evenElements { mem := () } =
      ⟨(some (), c'), { mem := () }, []⟩ ∧
    c'.element 4 1 0 = 0x06060606 ∧ c'.element 4 1 1 = 0x03030303 ∧ c'.zmm 1 16 = 0 ∧
    c'.zmm 0 = evenElements.zmm 0 := by
  have hrow : (maskedAdd.handler, 4, EvexOp.add) ∈ evexMasked := by decide
  obtain ⟨c', hrun, hlaw⟩ := evex_masking default hrow rfl (.inl rfl)
    (⟨none, none, [], []⟩ : Attached Unit) evenElements { mem := () }
  exact ⟨c', hrun, (hlaw.elements 0 (by decide)).trans (by decide),
    (hlaw.elements 1 (by decide)).trans (by decide), hlaw.upper 16 (by decide) (by decide),
    hlaw.others 0 (by decide)⟩

end PicoCpu
