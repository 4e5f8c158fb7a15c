import PicoCpu.EvexMasking
import PicoCpu.VectorRuns
import PicoCpu.Lib.BinaryPoly

/-!
Carry-less multiplication and CRC32 against polynomials over GF(2).
-/

namespace PicoCpu

open H Proc Handlers BinaryPoly Polynomial

/-! ### Carry-less products -/

/-- The loop keeps the two halves of the product. -/
theorem clmul64_eq (a b : U64) :
    clmul64 a b = (List.range 64).foldl (clmulStep a b) (0, 0) := by
  apply List.foldl_ext
  intro r i hi
  have hlt : i < 64 := List.mem_range.mp hi
  rw [clmulStep, bitAt_eq]
  cases a.getLsbD i with
  | false => rfl
  | true =>
      by_cases hpos : 0 < i
      · simp only [if_pos hpos]
      · obtain rfl : i = 0 := by omega
        have hout : b >>> 64 = 0#64 := BitVec.ushiftRight_eq_zero (Nat.le_refl 64)
        simp only [if_neg hpos, Nat.sub_zero, hout, BitVec.xor_zero, if_true]

/-- Sixteen bytes of a 128-bit number. -/
def Buf.ofU128 (p : BitVec 128) : Buf := fun j => (p >>> (8 * j)).setWidth 8

/-- The half of a vector that a bit selects. -/
def Buf.half (v : Buf) (high : Bool) : U64 := v.element 8 (if high then 1 else 0)

/-- The bit of the immediate byte that a test reads. -/
theorem imm8_test (i : Insn) {k : Nat} (hk : k < 8) :
    (imm8 i &&& BitVec.twoPow 8 k != 0) = i.immExtra.getLsbD k := by
  rw [SetBits.and_twoPow_bne_zero _ hk, imm8, BitVec.getLsbD_setWidth, decide_eq_true hk,
    Bool.true_and]

theorem ofU128_append (hi lo : U64) {j : Nat} (hj : j < 16) :
    Buf.ofU128 (hi ++ lo) j = packU64 (fun k => if k = 0 then lo else hi) j := by
  apply BitVec.eq_of_getLsbD_eq
  intro n hn
  rw [Buf.ofU128, packU64, BitVec.getLsbD_setWidth, BitVec.getLsbD_setWidth,
    BitVec.getLsbD_ushiftRight, BitVec.getLsbD_ushiftRight, BitVec.getLsbD_append]
  by_cases hlow : j < 8
  · have hbit : 8 * j + n < 64 := by omega
    have hlane : j / 8 = 0 := by omega
    have hbyte : j % 8 = j := by omega
    rw [if_pos hbit, if_pos hlane, hbyte]
  · have hbit : ¬ 8 * j + n < 64 := by omega
    have hlane : ¬ j / 8 = 0 := by omega
    have hindex : 8 * (j % 8) + n = 8 * j + n - 64 := by omega
    rw [if_neg hbit, if_neg hlane, hindex]

/-- The instruction's result is the 128-bit product of the selected halves. -/
theorem clmulSelected_poly (i : Insn) (a b : Buf) :
    ∃ p : BitVec 128,
      poly p = poly (a.half (i.immExtra.getLsbD 0)) * poly (b.half (i.immExtra.getLsbD 4)) ∧
      ∀ j < 16, clmulSelected (imm8 i) a b j = Buf.ofU128 p j := by
  have hone : (0x1 : U8) = BitVec.twoPow 8 0 := rfl
  have hsixteen : (0x10 : U8) = BitVec.twoPow 8 4 := rfl
  have hselected : clmulSelected (imm8 i) a b = packU64 fun k =>
      if k = 0 then (clmul64 (a.half (i.immExtra.getLsbD 0)) (b.half (i.immExtra.getLsbD 4))).1
      else (clmul64 (a.half (i.immExtra.getLsbD 0)) (b.half (i.immExtra.getLsbD 4))).2 := by
    rw [clmulSelected, hone, hsixteen, imm8_test i (by decide), imm8_test i (by decide),
      ← element_eight, ← element_eight]
    rfl
  refine ⟨_, poly_clmul (a.half (i.immExtra.getLsbD 0)) (b.half (i.immExtra.getLsbD 4)), ?_⟩
  intro j hj
  rw [hselected, ← clmul64_eq]
  exact (ofU128_append _ _ hj).symm

/-! ### The reflected register -/

/-- The word whose bits are the lower coefficients of the Castagnoli polynomial, from the constant
term up. -/
def castagnoliLow : U32 := 0x1EDC6F41

/-- The Castagnoli polynomial, `0x11EDC6F41`. -/
noncomputable def castagnoli : (ZMod 2)[X] := X ^ 32 + poly castagnoliLow

/-- The constant of the loop is that word reflected. -/
theorem divisor_eq : divisor (0x82F63B78 : U32) = castagnoli := by
  have hbits : ∀ k : Fin 32, (0x82F63B78 : U32).getMsbD k = castagnoliLow.getLsbD k := by decide
  have hreverse : (0x82F63B78 : U32).reverse = castagnoliLow := by
    apply BitVec.eq_of_getLsbD_eq
    intro k hk
    rw [BitVec.getLsbD_reverse]
    exact hbits ⟨k, hk⟩
  rw [divisor, reflected, hreverse, castagnoli]

theorem crcBit_eq : crcBit = divideStep (0x82F63B78 : U32) := by
  have hone : (1 : U32) = BitVec.twoPow 32 0 := rfl
  funext crc
  rw [crcBit, divideStep, hone, SetBits.and_twoPow_bne_zero _ (by decide)]

/-- A byte is added to the register and the eight steps multiply by `X ^ 8`. -/
theorem reflected_crcByte (crc : U32) (b : U8) :
    reflected (crcByte crc b) =
      (X ^ 8 * (reflected crc + X ^ 24 * reflected b)) %ₘ castagnoli := by
  have hbyte : reflected (b.setWidth 32) = X ^ 24 * reflected b :=
    reflected_setWidth b (by decide)
  rw [crcByte, crcBit_eq, reflected_iterate_divideStep, divisor_eq, reflected_xor, hbyte]

/-! ### The instructions -/

/-- The register after the bytes of a source, one after the other. -/
def crcBytes (size : Nat) (crc : U32) (v : U64) : U32 :=
  (List.range size).foldl (fun crc k => crc32 1 crc ((v >>> (8 * k)) &&& 0xFF)) crc

theorem crc32_one (crc : U32) (v : U64) : crc32 1 crc v = crcByte crc (v.setWidth 8) := by
  have hshift : v >>> (8 * 0) = v := BitVec.ushiftRight_zero v
  rw [crc32, List.range_one, List.foldl_cons, List.foldl_nil, hshift]

/-- A wider source is its bytes in increasing order. -/
theorem crc32_eq_crcBytes (size : Nat) (crc : U32) (v : U64) :
    crc32 size crc v = crcBytes size crc v := by
  rw [crc32, crcBytes]
  apply List.foldl_ext
  intro crc k _
  have hbyte : ((v >>> (8 * k)) &&& 0xFF).setWidth 8 = (v >>> (8 * k)).setWidth 8 := by
    apply BitVec.eq_of_getLsbD_eq
    intro n hn
    have hmask : ∀ n < 8, (0xFF : U64).getLsbD n = true := by decide
    rw [BitVec.getLsbD_setWidth, BitVec.getLsbD_setWidth, BitVec.getLsbD_and, hmask n hn,
      Bool.and_true]
  rw [crc32_one, hbyte]

/-- The low half of a register as the loop takes it. -/
theorem r32_setWidth (c : Cpu) (reg : Nat) : (c.r32 reg).setWidth 32 = (c.r reg).setWidth 32 := by
  have hlow : c.r32 reg = c.r reg &&& maskFor 4 := rfl
  apply BitVec.eq_of_getLsbD_eq
  intro n hn
  have hbit : n < 8 * 4 := hn
  rw [hlow, BitVec.getLsbD_setWidth, BitVec.getLsbD_setWidth, getLsbD_and_maskFor 4 (by decide),
    decide_eq_true hbit, Bool.and_true]

/-- PCLMULQDQ and its VEX.128 form write the product of the selected halves as polynomials over
GF(2). CRC32 adds the bytes of its source to the register in increasing order, each multiplying it
by `X ^ 8` modulo the Castagnoli polynomial, in reflected bit order. -/
theorem carryless_crc_exact (fp : HostFp) (i : Insn) {σ : Type} (at_ : Attached σ) (c : Cpu)
    (w w' : World σ) :
    (∀ b, i.handler = .opPclmulqdq → i.dst.kind = .xmm → i.ReadsVec i.src 16 at_ c w b w' →
      ∃ p : BitVec 128,
        poly p = poly (Buf.half (c.zmm i.dst.reg) (i.immExtra.getLsbD 0)) *
          poly (b.half (i.immExtra.getLsbD 4)) ∧
        (i.run fp).EndsIn at_ c w (some ())
          (c.setZmmBytes i.dst.reg 0 16 (Buf.ofU128 p)) w') ∧
    (∀ b, i.handler = .opVpclmulqdq → i.dst.kind = .xmm → i.flags.vex = true →
      i.ReadsVec i.src 16 at_ c w b w' →
      ∃ p : BitVec 128,
        poly p = poly (Buf.half (c.zmm i.dst.index) (i.immExtra.getLsbD 0)) *
          poly (b.half (i.immExtra.getLsbD 4)) ∧
        (i.run fp).EndsIn at_ c w (some ())
          ((c.setZmmBytes i.dst.reg 0 16 (Buf.ofU128 p)).zeroYmmUpper i.dst.reg) w') ∧
    (∀ v c₁, i.handler = .opCrc32 →
      (readOperand i i.src i.opSize).EndsIn at_ c w (some v) c₁ w' →
      (i.run fp).EndsIn at_ c w (some ())
        (c₁.setR32 i.dst.reg
          ((crcBytes i.opSize ((c₁.r i.dst.reg).setWidth 32) v).setWidth 64)) w') ∧
    ∀ (crc : U32) (v : U64), reflected (crc32 1 crc v) =
      (X ^ 8 * (reflected crc + X ^ 24 * reflected (v.setWidth 8))) %ₘ castagnoli := by
  refine ⟨fun b hop hdst hread => ?_, fun b hop hdst hvex hread => ?_, fun v c₁ hop hread => ?_,
    fun crc v => ?_⟩
  · have hrun : i.run fp = opPclmulqdq i := by
      rw [Insn.run, hop]
      rfl
    obtain ⟨p, hp, hbytes⟩ := clmulSelected_poly i (c.zmm i.dst.reg) b
    refine ⟨p, hp, ?_⟩
    rw [hrun, ← c.setZmmBytes_congr i.dst.reg 16 hbytes]
    exact xmmBinary_ends hdst hread sse4Io fun insn => clmulSelected (imm8 insn)
  · have hrun : i.run fp = opVpclmulqdq i := by
      rw [Insn.run, hop]
      rfl
    obtain ⟨p, hp, hbytes⟩ := clmulSelected_poly i (c.zmm i.dst.index) b
    refine ⟨p, hp, ?_⟩
    rw [hrun, ← c.setZmmBytes_congr i.dst.reg 16 hbytes]
    exact vexBinopXmm_ends hdst hread (fun insn => clmulSelected (imm8 insn)) hvex
  · have hrun : i.run fp = opCrc32 i := by
      rw [Insn.run, hop]
      rfl
    rw [hrun, opCrc32, hread.bind_iff, ← crc32_eq_crcBytes, ← r32_setWidth]
    exact endsIn_modify _
  · rw [crc32_one]
    exact reflected_crcByte crc _

/-- `pclmulqdq xmm0, xmm1, 0`. -/
def pclmulRegisters : Insn :=
  { handler := .opPclmulqdq, opSize := 16, dst := { kind := .xmm, reg := 0 }
    src := { kind := .xmm, reg := 1 } }

/-- `crc32 eax, cx`. -/
def crc32Registers : Insn :=
  { handler := .opCrc32, opSize := 2, dst := { kind := .reg, reg := Reg.rax }
    src := { kind := .reg, reg := Reg.rcx } }

/-- Threes in every vector register, and two digits in CX. -/
def crcOperands : Cpu := ({ zmm := fun _ _ => 3 } : Cpu).setR Reg.rcx 0x3231

theorem carryless_crc_exact_registers :
    (∃ p : BitVec 128,
      poly p = poly (0x0303030303030303 : U64) * poly (0x0303030303030303 : U64) ∧
      (pclmulRegisters.run default).EndsIn (⟨none, none, [], []⟩ : Attached Unit) crcOperands
        { mem := () } (some ()) (crcOperands.setZmmBytes 0 0 16 (Buf.ofU128 p)) { mem := () }) ∧
    (crc32Registers.run default).EndsIn (⟨none, none, [], []⟩ : Attached Unit) crcOperands
      { mem := () } (some ()) (crcOperands.setR32 Reg.rax 0x8234b3b2) { mem := () } := by
  constructor
  · obtain ⟨p, hp, hends⟩ := (carryless_crc_exact default pclmulRegisters
      (⟨none, none, [], []⟩ : Attached Unit) crcOperands { mem := () } { mem := () }).1
        (fun _ => 3) rfl rfl (.inl ⟨rfl, rfl, rfl⟩)
    have hhalf : Buf.half (fun _ => 3) false = 0x0303030303030303 := by decide
    have hfirst : Buf.half (crcOperands.zmm pclmulRegisters.dst.reg)
        (pclmulRegisters.immExtra.getLsbD 0) = 0x0303030303030303 := hhalf
    have hsecond : Buf.half (fun _ => 3) (pclmulRegisters.immExtra.getLsbD 4) =
        0x0303030303030303 := hhalf
    rw [hfirst, hsecond] at hp
    exact ⟨p, hp, hends⟩
  · have hvalue : crcBytes 2 0 0x3231 = 0x8234b3b2 := by decide +kernel
    have hends := (carryless_crc_exact default crc32Registers
      (⟨none, none, [], []⟩ : Attached Unit) crcOperands { mem := () } { mem := () }).2.2.1
        0x3231 crcOperands rfl (readOperand_of_reg rfl)
    have hregister : (crcOperands.r crc32Registers.dst.reg).setWidth 32 = (0 : U32) := rfl
    have hsize : crc32Registers.opSize = 2 := rfl
    rw [hregister, hsize, hvalue] at hends
    exact hends

end PicoCpu
