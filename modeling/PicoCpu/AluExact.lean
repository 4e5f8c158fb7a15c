import PicoCpu.FlagsEager
import PicoCpu.Normal
import PicoCpu.Execute

/-!
Integer arithmetic over the unbounded integers: the result and the six flags of an addition or
subtraction, from the operands' unsigned and signed values, and the lazy flag records compared
with them.
-/

namespace PicoCpu

open H

/-- `x + y + carry`, or `x - y - carry`. -/
structure ExactSum where
  minus : Bool := false
  x : U64
  y : U64
  carry : Bool := false

namespace ExactSum

/-- The sum over the integers, of operands read as `value` says. -/
def total (e : ExactSum) (value : U64 → Int) : Int :=
  if e.minus then value e.x - value e.y - e.carry.toNat
  else value e.x + value e.y + e.carry.toNat

end ExactSum

/-- The low `size` bytes as an unsigned number. -/
def unsignedValue (size : Nat) (v : U64) : Int := (v.setWidth (8 * size)).toNat

/-- The low `size` bytes as a signed number. -/
def signedValue (size : Nat) (v : U64) : Int := (v.setWidth (8 * size)).toInt

/-- The low four bits. -/
def nibbleValue (v : U64) : Int := (v.setWidth 4).toNat

/-- Even parity of the low byte. -/
def evenParity (v : U64) : Bool := ((List.range 8).countP v.getLsbD) % 2 == 0

namespace ExactSum

variable (size : Nat) (e : ExactSum)

/-- The exact result, modulo `2 ^ (8 size)`. -/
def result : U64 := BitVec.ofInt 64 (e.total (unsignedValue size) % 2 ^ (8 * size))

/-- CF and AF are the carry or borrow out of the top bit and out of bit 3, OF is signed
overflow; ZF, SF and PF are those of the result. -/
def flags : ArithFlags where
  cf := !decide (0 ≤ e.total (unsignedValue size) ∧ e.total (unsignedValue size) < 2 ^ (8 * size))
  pf := evenParity (e.result size)
  af := !decide (0 ≤ e.total nibbleValue ∧ e.total nibbleValue < 16)
  zf := decide (e.result size = 0)
  sf := decide (2 ^ (8 * size - 1) ≤ unsignedValue size (e.result size))
  of := !decide (-2 ^ (8 * size - 1) ≤ e.total (signedValue size) ∧
    e.total (signedValue size) < 2 ^ (8 * size - 1))

end ExactSum

/-! ### Reading single bits as inequalities -/

theorem parity8_eq (v : U64) : parity8 (v.setWidth 8) = evenParity v := by
  have hbyte : ∀ b : U8, parity8 b = (((List.range 8).countP b.getLsbD) % 2 == 0) := by
    decide +kernel
  have hcount : (List.range 8).countP (v.setWidth 8).getLsbD = (List.range 8).countP v.getLsbD := by
    refine List.countP_congr fun i hi => ?_
    rw [BitVec.getLsbD_setWidth]
    simp [List.mem_range.mp hi]
  rw [hbyte, hcount, evenParity]

theorem and_signMask_bne {size : Nat} (hsize : IsOpSize size) (x : U64) :
    (x &&& signMask size != 0) = x.getLsbD (8 * size - 1) := by
  rw [signMask_eq size hsize]
  exact and_shl_bne_zero x _ (by rcases hsize with rfl | rfl | rfl | rfl <;> omega)

theorem and_bit4_bne (x : U64) : (x &&& 0x10 != 0) = x.getLsbD 4 := and_shl_bne_zero x 4 (by omega)

theorem getLsbD_eq_decide (x : U64) (n : Nat) : x.getLsbD n = decide (x.toNat / 2 ^ n % 2 = 1) := by
  rw [← BitVec.testBit_toNat, Nat.testBit_eq_decide_div_mod_eq]

theorem unsignedValue_eq (size : Nat) (v : U64) :
    unsignedValue size v = ((v.toNat % 2 ^ (8 * size) : Nat) : Int) := by
  rw [unsignedValue, BitVec.toNat_setWidth]

theorem nibbleValue_eq (v : U64) : nibbleValue v = ((v.toNat % 16 : Nat) : Int) := by
  rw [nibbleValue, BitVec.toNat_setWidth]

theorem signedValue_eq (size : Nat) (v : U64) :
    signedValue size v =
      if 2 * (v.toNat % 2 ^ (8 * size)) < 2 ^ (8 * size) then
        ((v.toNat % 2 ^ (8 * size) : Nat) : Int)
      else ((v.toNat % 2 ^ (8 * size) : Nat) : Int) - 2 ^ (8 * size) := by
  rw [signedValue, BitVec.toInt_eq_toNat_cond, BitVec.toNat_setWidth]
  rfl

section Results

variable {size : Nat} (hsize : IsOpSize size)
include hsize

theorem toNat_result (e : ExactSum) :
    ((e.result size).toNat : Int) = e.total (unsignedValue size) % 2 ^ (8 * size) := by
  have hlow : 0 ≤ e.total (unsignedValue size) % 2 ^ (8 * size) := by
    rcases hsize with rfl | rfl | rfl | rfl <;> omega
  have hhigh : e.total (unsignedValue size) % 2 ^ (8 * size) < 2 ^ 64 := by
    rcases hsize with rfl | rfl | rfl | rfl <;> omega
  rw [ExactSum.result, BitVec.toNat_ofInt]
  omega

theorem adcResult_exact (a b : U64) (cin : Bool) :
    adcResult size a b cin = ({ x := a, y := b, carry := cin } : ExactSum).result size := by
  apply BitVec.eq_of_toNat_eq
  have h := toNat_result hsize { x := a, y := b, carry := cin }
  have hcin : (if cin then 1 else 0 : U64).toNat = cin.toNat := by cases cin <;> rfl
  simp only [ExactSum.total, unsignedValue_eq] at h
  rw [adcResult, toNat_and_maskFor size hsize, BitVec.toNat_add, BitVec.toNat_add, hcin]
  rcases hsize with rfl | rfl | rfl | rfl <;> simp at h ⊢ <;> omega

theorem sbbResult_exact (a b : U64) (bin : Bool) :
    sbbResult size a b bin =
      ({ minus := true, x := a, y := b, carry := bin } : ExactSum).result size := by
  apply BitVec.eq_of_toNat_eq
  have h := toNat_result hsize { minus := true, x := a, y := b, carry := bin }
  have hbin : (if bin then 1 else 0 : U64).toNat = bin.toNat := by cases bin <;> rfl
  simp only [ExactSum.total, unsignedValue_eq] at h
  rw [sbbResult, toNat_and_maskFor size hsize, BitVec.toNat_sub, BitVec.toNat_sub, hbin]
  rcases hsize with rfl | rfl | rfl | rfl <;> simp at h ⊢ <;> omega

end Results

/-! ### Carries, borrows and signed overflow as bit tests -/

theorem emod_of_carry {t n : Int} (hlow : 0 ≤ t) (hhigh : t < 2 * n) :
    t % n = t ∧ t < n ∨ t % n = t - n ∧ n ≤ t := by
  rcases lt_or_ge t n with h | h
  · exact Or.inl ⟨Int.emod_eq_of_lt hlow h, h⟩
  · refine Or.inr ⟨?_, h⟩
    rw [← Int.sub_emod_right, Int.emod_eq_of_lt (by omega) (by omega)]

theorem emod_of_borrow {t n : Int} (hlow : -n ≤ t) (hhigh : t < n) :
    t % n = t ∧ 0 ≤ t ∨ t % n = t + n ∧ t < 0 := by
  rcases le_or_gt 0 t with h | h
  · exact Or.inl ⟨Int.emod_eq_of_lt h hhigh, h⟩
  · refine Or.inr ⟨?_, h⟩
    rw [← Int.add_emod_right, Int.emod_eq_of_lt (by omega) (by omega)]

/-- The signed reading of `u < 2 m`. -/
def signedOf (m u : Int) : Int := if u < m then u else u - 2 * m

section Overflow

variable {m u v c r : Int} (hu : 0 ≤ u ∧ u < 2 * m) (hv : 0 ≤ v ∧ v < 2 * m) (hc : c = 0 ∨ c = 1)
include hu hv hc

/-- A signed sum overflows exactly when both operands differ in sign from the result. -/
theorem add_overflow_iff (hr : r = (u + v + c) % (2 * m)) :
    ((decide (m ≤ u) ^^ decide (m ≤ r)) && (decide (m ≤ v) ^^ decide (m ≤ r))) =
      !decide (-m ≤ signedOf m u + signedOf m v + c ∧ signedOf m u + signedOf m v + c < m) := by
  have hcases := emod_of_carry (t := u + v + c) (n := 2 * m) (by omega) (by omega)
  rw [← hr] at hcases
  unfold signedOf
  rw [Bool.eq_iff_iff]
  simp only [Bool.and_eq_true, Bool.xor_iff_ne, ne_eq, decide_eq_decide, Bool.not_eq_true',
    decide_eq_false_iff_not]
  split <;> split <;> omega

/-- A signed difference overflows exactly when the operands differ in sign and the result
differs in sign from the first. -/
theorem sub_overflow_iff (hr : r = (u - v - c) % (2 * m)) :
    ((decide (m ≤ u) ^^ decide (m ≤ v)) && (decide (m ≤ u) ^^ decide (m ≤ r))) =
      !decide (-m ≤ signedOf m u - signedOf m v - c ∧ signedOf m u - signedOf m v - c < m) := by
  have hcases := emod_of_borrow (t := u - v - c) (n := 2 * m) (by omega) (by omega)
  rw [← hr] at hcases
  unfold signedOf
  rw [Bool.eq_iff_iff]
  simp only [Bool.and_eq_true, Bool.xor_iff_ne, ne_eq, decide_eq_decide, Bool.not_eq_true',
    decide_eq_false_iff_not]
  split <;> split <;> omega

end Overflow

section Bits

variable {size : Nat} (hsize : IsOpSize size) (x y : U64)
include hsize

/-- The sign bit of the low `size` bytes. -/
theorem topBit_eq :
    (x &&& maskFor size).getLsbD (8 * size - 1) =
      decide (2 ^ (8 * size - 1) ≤ unsignedValue size x) := by
  rw [getLsbD_eq_decide, toNat_and_maskFor size hsize, decide_eq_decide, unsignedValue_eq]
  rcases hsize with rfl | rfl | rfl | rfl <;> norm_num <;> omega

theorem bit4_masked : (x &&& maskFor size).getLsbD 4 = x.getLsbD 4 := by
  have hin : 4 < 8 * size := by rcases hsize with rfl | rfl | rfl | rfl <;> omega
  rw [getLsbD_and_maskFor size hsize, decide_eq_true hin, Bool.and_true]

theorem ult_masked :
    (x &&& maskFor size).ult (y &&& maskFor size) =
      decide (unsignedValue size x < unsignedValue size y) := by
  rw [BitVec.ult, toNat_and_maskFor size hsize, toNat_and_maskFor size hsize, unsignedValue_eq,
    unsignedValue_eq, decide_eq_decide, Nat.cast_lt]

theorem ule_masked :
    (x &&& maskFor size).ule (y &&& maskFor size) =
      decide (unsignedValue size x ≤ unsignedValue size y) := by
  rw [BitVec.ule, toNat_and_maskFor size hsize, toNat_and_maskFor size hsize, unsignedValue_eq,
    unsignedValue_eq, decide_eq_decide, Nat.cast_le]

theorem unsignedValue_bounds :
    0 ≤ unsignedValue size x ∧ unsignedValue size x < 2 * 2 ^ (8 * size - 1) := by
  rw [unsignedValue_eq]
  rcases hsize with rfl | rfl | rfl | rfl <;> norm_num <;> omega

theorem signedValue_eq_signedOf :
    signedValue size x = signedOf (2 ^ (8 * size - 1)) (unsignedValue size x) := by
  rw [signedValue_eq, signedOf, unsignedValue_eq]
  rcases hsize with rfl | rfl | rfl | rfl <;> norm_num <;> split <;> split <;> omega

omit x y in
theorem two_mul_half : (2 : Int) * 2 ^ (8 * size - 1) = 2 ^ (8 * size) := by
  rcases hsize with rfl | rfl | rfl | rfl <;> norm_num

omit x y in
theorem unsignedValue_result (e : ExactSum) :
    unsignedValue size (e.result size) =
      e.total (unsignedValue size) % (2 * 2 ^ (8 * size - 1)) := by
  have h := toNat_result hsize e
  rw [two_mul_half hsize, unsignedValue_eq, Int.natCast_emod, h, Nat.cast_pow]
  exact Int.emod_emod_of_dvd _ (dvd_refl _)

end Bits

theorem xor_parity (p q r : Nat) :
    (decide (p % 2 = 1) ^^ decide (q % 2 = 1) ^^ decide (r % 2 = 1)) =
      decide ((p + q + r) % 2 = 1) := by
  have hsum : (p + q + r) % 2 = (p % 2 + q % 2 + r % 2) % 2 := by omega
  rw [hsum]
  rcases Nat.mod_two_eq_zero_or_one p with hp | hp <;>
    rcases Nat.mod_two_eq_zero_or_one q with hq | hq <;>
      rcases Nat.mod_two_eq_zero_or_one r with hr | hr <;>
        rw [hp, hq, hr] <;> rfl

section Flags

variable {size : Nat} (hsize : IsOpSize size)
include hsize

/-- ZF, SF and PF as `applyZsp` finds them in a result. -/
theorem zsp_exact (e : ExactSum) (bits r : U64) (hr : r &&& maskFor size = e.result size) :
    arithFlags (applyZsp bits size r) =
      { arithFlags bits with
        zf := (e.flags size).zf, sf := (e.flags size).sf, pf := (e.flags size).pf } := by
  rw [arithFlags_applyZsp, hr, and_signMask_bne hsize, parity8_eq, ← hr, ← and_maskFor_idem,
    topBit_eq hsize, and_maskFor_idem, hr]
  rfl

/-- The xor of the fourth bits is the carry or borrow out of bit 3. -/
theorem adc_nibble (a b : U64) (cin : Bool) :
    (a.getLsbD 4 ^^ b.getLsbD 4 ^^ (adcResult size a b cin).getLsbD 4) =
      (({ x := a, y := b, carry := cin } : ExactSum).flags size).af := by
  have hcin : (if cin then 1 else 0 : U64).toNat = cin.toNat := by cases cin <;> rfl
  have hc : cin.toNat ≤ 1 := cin.toNat_le
  rw [adcResult, bit4_masked hsize, getLsbD_eq_decide, getLsbD_eq_decide, getLsbD_eq_decide,
    xor_parity, BitVec.toNat_add, BitVec.toNat_add, hcin]
  simp only [ExactSum.flags, ExactSum.total, nibbleValue_eq, Bool.false_eq_true, if_false,
    ← decide_not, decide_eq_decide]
  omega

theorem adc_flags_exact (a b : U64) (cin : Bool) :
    arithFlags (computeAdc size b (adcResult size a b cin) cin) =
      ({ x := a, y := b, carry := cin } : ExactSum).flags size := by
  have hresult := adcResult_exact hsize a b cin
  have hmasked : adcResult size a b cin &&& maskFor size =
      ({ x := a, y := b, carry := cin } : ExactSum).result size := by
    rw [← hresult, adcResult, and_maskFor_idem]
  have hvalue := unsignedValue_result hsize { x := a, y := b, carry := cin }
  rw [← hresult] at hvalue
  have ha := unsignedValue_bounds hsize a
  have hb := unsignedValue_bounds hsize b
  have hc : (cin.toNat : Int) = 0 ∨ (cin.toNat : Int) = 1 := by cases cin <;> simp
  have hoverflow := add_overflow_iff ha hb hc hvalue
  rw [← signedValue_eq_signedOf hsize, ← signedValue_eq_signedOf hsize] at hoverflow
  have hcarry : (if cin then
        (adcResult size a b cin &&& maskFor size).ule (b &&& maskFor size)
      else (adcResult size a b cin &&& maskFor size).ult (b &&& maskFor size)) =
      (({ x := a, y := b, carry := cin } : ExactSum).flags size).cf := by
    rw [ule_masked hsize, ult_masked hsize]
    simp only [ExactSum.flags, ← two_mul_half hsize]
    simp only [ExactSum.total, Bool.false_eq_true, if_false] at hvalue ⊢
    have hwrap := emod_of_carry (t := unsignedValue size a + unsignedValue size b + cin.toNat)
      (n := 2 * 2 ^ (8 * size - 1)) (by omega) (by omega)
    rw [← hvalue] at hwrap
    cases cin <;>
      simp only [Bool.toNat_true, Bool.toNat_false, if_true, if_false, ← decide_not,
        decide_eq_decide, Bool.false_eq_true] at hwrap ⊢ <;> omega
  simp only [computeAdc, recover_adc hsize, applyZsp_masked, arithFlags_withBit_af,
    arithFlags_withBit_of, arithFlags_withBit_cf, zsp_exact hsize _ _ _ hmasked,
    and_signMask_bne hsize, and_bit4_bne, BitVec.getLsbD_and, BitVec.getLsbD_xor,
    bit4_masked hsize, topBit_eq hsize, hcarry, hoverflow, adc_nibble hsize]
  rfl
/-- The same for a borrow. -/
theorem sbb_nibble (a b : U64) (bin : Bool) :
    (a.getLsbD 4 ^^ b.getLsbD 4 ^^ (sbbResult size a b bin).getLsbD 4) =
      (({ minus := true, x := a, y := b, carry := bin } : ExactSum).flags size).af := by
  have hbin : (if bin then 1 else 0 : U64).toNat = bin.toNat := by cases bin <;> rfl
  have hc : bin.toNat ≤ 1 := bin.toNat_le
  rw [sbbResult, bit4_masked hsize, getLsbD_eq_decide, getLsbD_eq_decide, getLsbD_eq_decide,
    xor_parity, BitVec.toNat_sub, BitVec.toNat_sub, hbin]
  simp only [ExactSum.flags, ExactSum.total, nibbleValue_eq, if_true, ← decide_not,
    decide_eq_decide]
  omega

theorem sbb_flags_exact (a b : U64) (bin : Bool) :
    arithFlags (computeSbb size b (sbbResult size a b bin) bin) =
      ({ minus := true, x := a, y := b, carry := bin } : ExactSum).flags size := by
  have hresult := sbbResult_exact hsize a b bin
  have hmasked : sbbResult size a b bin &&& maskFor size =
      ({ minus := true, x := a, y := b, carry := bin } : ExactSum).result size := by
    rw [← hresult, sbbResult, and_maskFor_idem]
  have hvalue := unsignedValue_result hsize { minus := true, x := a, y := b, carry := bin }
  rw [← hresult] at hvalue
  have ha := unsignedValue_bounds hsize a
  have hb := unsignedValue_bounds hsize b
  have hc : (bin.toNat : Int) = 0 ∨ (bin.toNat : Int) = 1 := by cases bin <;> simp
  have hoverflow := sub_overflow_iff ha hb hc hvalue
  rw [← signedValue_eq_signedOf hsize, ← signedValue_eq_signedOf hsize] at hoverflow
  have hborrow : (if bin then (a &&& maskFor size).ule (b &&& maskFor size)
      else (a &&& maskFor size).ult (b &&& maskFor size)) =
      (({ minus := true, x := a, y := b, carry := bin } : ExactSum).flags size).cf := by
    rw [ule_masked hsize, ult_masked hsize]
    simp only [ExactSum.flags, ExactSum.total, if_true, ← two_mul_half hsize]
    cases bin <;>
      simp only [Bool.toNat_true, Bool.toNat_false, if_true, if_false, ← decide_not,
        decide_eq_decide, Bool.false_eq_true] <;> omega
  simp only [computeSbb, recover_sbb hsize, applyZsp_masked, arithFlags_withBit_af,
    arithFlags_withBit_of, arithFlags_withBit_cf, zsp_exact hsize _ _ _ hmasked,
    and_signMask_bne hsize, and_bit4_bne, BitVec.getLsbD_and, BitVec.getLsbD_xor,
    bit4_masked hsize, topBit_eq hsize, hborrow, hoverflow, sbb_nibble hsize]
  rfl

end Flags

/-! ### The operations without a carry in -/

theorem computeAdd_eq (size : Nat) (ccSrc ccDst : U64) :
    computeAdd size ccSrc ccDst = computeAdc size ccSrc ccDst false := by
  simp only [computeAdd, computeAdc, Bool.false_eq_true, if_false]
  rw [show (0 : U64) = 0#64 from rfl, BitVec.sub_zero]

theorem computeSub_eq (size : Nat) (ccSrc ccDst : U64) :
    computeSub size ccSrc ccDst = computeSbb size ccSrc ccDst false := by
  simp only [computeSub, computeSbb, Bool.false_eq_true, if_false]
  rw [show (0 : U64) = 0#64 from rfl, BitVec.add_zero]

theorem addResult_eq (size : Nat) (a b : U64) : addResult size a b = adcResult size a b false := by
  rw [addResult, adcResult, if_neg Bool.false_ne_true, show (0 : U64) = 0#64 from rfl,
    BitVec.add_zero]

theorem subResult_eq (size : Nat) (a b : U64) : subResult size a b = sbbResult size a b false := by
  rw [subResult, sbbResult, if_neg Bool.false_ne_true, show (0 : U64) = 0#64 from rfl,
    BitVec.sub_zero]

theorem incResult_eq (size : Nat) (a : U64) : incResult size a = adcResult size a 1 false := by
  rw [incResult, ← addResult_eq, addResult]

theorem decResult_eq (size : Nat) (a : U64) : decResult size a = sbbResult size a 1 false := by
  rw [decResult, ← subResult_eq, subResult]

theorem negResult_eq (size : Nat) (a : U64) : negResult size a = sbbResult size 0 a false := by
  rw [negResult, ← subResult_eq, subResult, show (0 : U64) = 0#64 from rfl, BitVec.zero_sub,
    BitVec.neg_eq_not_add]
  rfl

section Steps

variable {size : Nat} (hsize : IsOpSize size)
include hsize

/-- Comparing a masked word with a constant below the mask. -/
theorem masked_beq {x y : U64} (hy : y &&& maskFor size = y) :
    (x &&& maskFor size == y) = decide (unsignedValue size x = unsignedValue size y) := by
  rw [unsignedValue_eq, unsignedValue_eq, Bool.eq_iff_iff, beq_iff_eq, decide_eq_true_iff,
    Nat.cast_inj]
  constructor
  · intro h
    rw [← h, toNat_and_maskFor size hsize, Nat.mod_mod]
  · intro h
    rw [← hy]
    exact and_maskFor_eq_of_mod_eq size hsize h

omit hsize in
theorem half_ge (hsize : IsOpSize size) : (128 : Int) ≤ 2 ^ (8 * size - 1) := by
  rcases hsize with rfl | rfl | rfl | rfl <;> decide

theorem unsignedValue_one : unsignedValue size 1 = 1 := by
  rcases hsize with rfl | rfl | rfl | rfl <;> rfl

theorem unsignedValue_signMask : unsignedValue size (signMask size) = 2 ^ (8 * size - 1) := by
  rcases hsize with rfl | rfl | rfl | rfl <;> rfl

theorem unsignedValue_signMask_sub_one :
    unsignedValue size (signMask size - 1) = 2 ^ (8 * size - 1) - 1 := by
  rcases hsize with rfl | rfl | rfl | rfl <;> rfl

theorem inc_flags_exact (a : U64) (cf : Bool) :
    arithFlags (computeInc size cf (incResult size a)) =
      { ({ x := a, y := 1 } : ExactSum).flags size with cf } := by
  have hresult : incResult size a = ({ x := a, y := 1 } : ExactSum).result size := by
    rw [incResult_eq, adcResult_exact hsize]
  have hmasked : incResult size a &&& maskFor size =
      ({ x := a, y := 1 } : ExactSum).result size := by
    rw [← hresult, incResult, and_maskFor_idem]
  have hvalue := unsignedValue_result hsize { x := a, y := 1 }
  rw [← hresult] at hvalue
  have hnibble := adc_nibble hsize a 1 false
  rw [← incResult_eq, show (1 : U64).getLsbD 4 = false from rfl, Bool.xor_false] at hnibble
  have ha := unsignedValue_bounds hsize a
  have hhalf := half_ge hsize
  have hlow : (signMask size - 1) &&& maskFor size = signMask size - 1 := by
    rcases hsize with rfl | rfl | rfl | rfl <;> rfl
  have hoverflow : ((a &&& maskFor size == signMask size - 1) &&
      decide (2 ^ (8 * size - 1) ≤ unsignedValue size (incResult size a))) =
      (({ x := a, y := 1 } : ExactSum).flags size).of := by
    simp only [ExactSum.total, Bool.false_eq_true, if_false, unsignedValue_one hsize,
      Bool.toNat_false, Nat.cast_zero, Int.add_zero] at hvalue
    have hwrap := emod_of_carry (t := unsignedValue size a + 1) (n := 2 * 2 ^ (8 * size - 1))
      (by omega) (by omega)
    rw [← hvalue] at hwrap
    rw [masked_beq hsize hlow, unsignedValue_signMask_sub_one hsize]
    simp only [ExactSum.flags, ExactSum.total, Bool.false_eq_true, if_false,
      signedValue_eq_signedOf hsize, unsignedValue_one hsize, Bool.toNat_false, Nat.cast_zero,
      Int.add_zero, ← decide_not, ← Bool.decide_and, decide_eq_decide, signedOf]
    split <;> split <;> omega
  simp only [computeInc, recover_inc hsize, applyZsp_masked, arithFlags_withBit_af,
    arithFlags_withBit_of, arithFlags_withBit_cf, zsp_exact hsize _ _ _ hmasked,
    and_signMask_bne hsize, and_bit4_bne, BitVec.getLsbD_xor, bit4_masked hsize, topBit_eq hsize,
    hoverflow, hnibble]

theorem dec_flags_exact (a : U64) (cf : Bool) :
    arithFlags (computeDec size cf (decResult size a)) =
      { ({ minus := true, x := a, y := 1 } : ExactSum).flags size with cf } := by
  have hresult : decResult size a = ({ minus := true, x := a, y := 1 } : ExactSum).result size := by
    rw [decResult_eq, sbbResult_exact hsize]
  have hmasked : decResult size a &&& maskFor size =
      ({ minus := true, x := a, y := 1 } : ExactSum).result size := by
    rw [← hresult, decResult, and_maskFor_idem]
  have hvalue := unsignedValue_result hsize { minus := true, x := a, y := 1 }
  rw [← hresult] at hvalue
  have hnibble := sbb_nibble hsize a 1 false
  rw [← decResult_eq, show (1 : U64).getLsbD 4 = false from rfl, Bool.xor_false] at hnibble
  have ha := unsignedValue_bounds hsize a
  have hhalf := half_ge hsize
  have hlow : signMask size &&& maskFor size = signMask size := by
    rcases hsize with rfl | rfl | rfl | rfl <;> rfl
  have hoverflow : ((a &&& maskFor size == signMask size) &&
      !decide (2 ^ (8 * size - 1) ≤ unsignedValue size (decResult size a))) =
      (({ minus := true, x := a, y := 1 } : ExactSum).flags size).of := by
    simp only [ExactSum.total, if_true, unsignedValue_one hsize,
      Bool.toNat_false, Nat.cast_zero, Int.sub_zero] at hvalue
    have hwrap := emod_of_borrow (t := unsignedValue size a - 1) (n := 2 * 2 ^ (8 * size - 1))
      (by omega) (by omega)
    rw [← hvalue] at hwrap
    rw [masked_beq hsize hlow, unsignedValue_signMask hsize]
    simp only [ExactSum.flags, ExactSum.total, if_true,
      signedValue_eq_signedOf hsize, unsignedValue_one hsize, Bool.toNat_false, Nat.cast_zero,
      Int.sub_zero, ← decide_not, ← Bool.decide_and, decide_eq_decide, signedOf]
    split <;> split <;> omega
  have hsign : (decResult size a &&& maskFor size &&& signMask size == 0) =
      !decide (2 ^ (8 * size - 1) ≤ unsignedValue size (decResult size a)) := by
    rw [← topBit_eq hsize, ← and_signMask_bne hsize, bne, Bool.not_not]
  simp only [computeDec, recover_dec hsize, applyZsp_masked, arithFlags_withBit_af,
    arithFlags_withBit_of, arithFlags_withBit_cf, zsp_exact hsize _ _ _ hmasked,
    and_bit4_bne, BitVec.getLsbD_xor, bit4_masked hsize, hsign, hoverflow, hnibble]

/-- `NEG` gets five flags right; its AF is the or of bit 4 of the operand and of the result. -/
theorem neg_flags (a : U64) :
    arithFlags (computeNeg size a (negResult size a)) =
      { ({ minus := true, x := 0, y := a } : ExactSum).flags size with
        af := a.getLsbD 4 || (negResult size a).getLsbD 4 } := by
  have hresult : negResult size a = ({ minus := true, x := 0, y := a } : ExactSum).result size := by
    rw [negResult_eq, sbbResult_exact hsize]
  have hmasked : negResult size a &&& maskFor size =
      ({ minus := true, x := 0, y := a } : ExactSum).result size := by
    rw [← hresult, negResult, and_maskFor_idem]
  have ha := unsignedValue_bounds hsize a
  have hhalf := half_ge hsize
  have hlow : signMask size &&& maskFor size = signMask size := by
    rcases hsize with rfl | rfl | rfl | rfl <;> rfl
  have hzero : unsignedValue size 0 = 0 := by
    rcases hsize with rfl | rfl | rfl | rfl <;> rfl
  have hborrow : (a &&& maskFor size != 0) =
      (({ minus := true, x := 0, y := a } : ExactSum).flags size).cf := by
    rw [bne, show (0 : U64) = 0#64 from rfl, masked_beq hsize BitVec.zero_and,
      show (0#64 : U64) = (0 : U64) from rfl, hzero]
    simp only [ExactSum.flags, ExactSum.total, if_true, hzero, Bool.toNat_false, Nat.cast_zero,
      ← two_mul_half hsize, ← decide_not, decide_eq_decide]
    omega
  have hoverflow : (a &&& maskFor size == signMask size) =
      (({ minus := true, x := 0, y := a } : ExactSum).flags size).of := by
    rw [masked_beq hsize hlow, unsignedValue_signMask hsize]
    simp only [ExactSum.flags, ExactSum.total, if_true, signedValue_eq_signedOf hsize, hzero,
      Bool.toNat_false, Nat.cast_zero, ← decide_not, decide_eq_decide, signedOf]
    split <;> split <;> omega
  simp only [computeNeg, applyZsp_masked, arithFlags_withBit_af, arithFlags_withBit_of,
    arithFlags_withBit_cf, zsp_exact hsize _ _ _ hmasked, and_bit4_bne, BitVec.getLsbD_or,
    bit4_masked hsize, hborrow, hoverflow]

/-- The borrow out of bit 3 of `0 - a` against the source's AF. -/
theorem neg_af_iff (a : U64) :
    (a.getLsbD 4 || (negResult size a).getLsbD 4) =
        (({ minus := true, x := 0, y := a } : ExactSum).flags size).af ↔
      ¬ (a &&& 0xF = 0 ∧ a.getLsbD 4 = true) := by
  have hzero : nibbleValue 0 = 0 := rfl
  have hlow : a &&& 0xF = 0 ↔ a.toNat % 16 = 0 := by
    rw [← BitVec.toNat_inj, BitVec.toNat_and]
    change a.toNat &&& (2 ^ 4 - 1) = 0 ↔ _
    rw [Nat.and_two_pow_sub_one_eq_mod]
  rw [negResult_eq, sbbResult, bit4_masked hsize, if_neg Bool.false_ne_true, getLsbD_eq_decide,
    getLsbD_eq_decide, hlow, decide_eq_true_iff]
  simp only [ExactSum.flags, ExactSum.total, if_true, hzero, nibbleValue_eq, Bool.toNat_false,
    Nat.cast_zero, ← decide_not, ← Bool.decide_or, decide_eq_decide, BitVec.toNat_sub]
  have hA := a.isLt
  omega

end Steps

/-! ### The handlers -/

/-- The six flags as bits of a flags word. -/
def ArithFlags.bits (f : ArithFlags) : U64 :=
  (if f.cf then Rflags.cf else 0) ||| (if f.pf then Rflags.pf else 0) |||
    (if f.af then Rflags.af else 0) ||| (if f.zf then Rflags.zf else 0) |||
    (if f.sf then Rflags.sf else 0) ||| (if f.of then Rflags.of else 0)

/-- Overwrite the six flags, and keep every other bit of the flags word. -/
def Cpu.setArith (c : Cpu) (f : ArithFlags) : Cpu :=
  { c with
    rflags_ := (c.rflags_ &&& ~~~Cpu.syncMask) ||| f.bits ||| Rflags.alwaysOne
    ccOp := .eflags }

inductive AluOp where
  | add | adc | sub | sbb | cmp | inc | dec | neg
  deriving DecidableEq

namespace AluOp

def handler : AluOp → Handler
  | add => .opAdd
  | adc => .opAdc
  | sub => .opSub
  | sbb => .opSbb
  | cmp => .opCmp
  | inc => .opInc
  | dec => .opDec
  | neg => .opNeg

/-- What the operation means on a destination `a`, a source `b` and an incoming carry. -/
def sum : AluOp → U64 → U64 → Bool → ExactSum
  | add, a, b, _ => { x := a, y := b }
  | adc, a, b, cin => { x := a, y := b, carry := cin }
  | sub, a, b, _ | cmp, a, b, _ => { minus := true, x := a, y := b }
  | sbb, a, b, bin => { minus := true, x := a, y := b, carry := bin }
  | inc, a, _, _ => { x := a, y := 1 }
  | dec, a, _, _ => { minus := true, x := a, y := 1 }
  | neg, a, _, _ => { minus := true, x := 0, y := a }

/-- The flags after it, over the flags before it: `INC` and `DEC` keep CF. -/
def flagsAfter (op : AluOp) (size : Nat) (a b : U64) (cin : Bool) (c : Cpu) : ArithFlags :=
  if op = inc ∨ op = dec then { (op.sum a b cin).flags size with cf := c.cf }
  else (op.sum a b cin).flags size

/-- Everything but the flags: read the operands, and CF where it comes in, and store the
result. -/
def perform (op : AluOp) (value : U64 → U64 → Bool → U64) (insn : Insn) :
    H (U64 × U64 × Bool) := do
  let a ← readOperand insn insn.dst insn.opSize
  let b ← if op = inc ∨ op = dec ∨ op = neg then pure 0 else readOperand insn insn.src insn.opSize
  let cin ← if op = adc ∨ op = sbb then getsSynced Cpu.cf else pure false
  if op ≠ cmp then writeOperand insn insn.dst insn.opSize (value a b cin)
  pure (a, b, cin)

/-- The operation by the book: the exact result modulo `2 ^ (8 opSize)`, and the exact flags. -/
def exactly (op : AluOp) (insn : Insn) : H Unit := do
  let (a, b, cin) ← op.perform (fun a b cin => (op.sum a b cin).result insn.opSize) insn
  Proc.modify fun c => c.setArith (op.flagsAfter insn.opSize a b cin c)

/-- The result its handler computes. -/
def value : AluOp → Nat → U64 → U64 → Bool → U64
  | add, size, a, b, _ => addResult size a b
  | adc, size, a, b, cin => adcResult size a b cin
  | sub, size, a, b, _ | cmp, size, a, b, _ => subResult size a b
  | sbb, size, a, b, bin => sbbResult size a b bin
  | inc, size, a, _, _ => incResult size a
  | dec, size, a, _, _ => decResult size a
  | neg, size, a, _, _ => negResult size a

/-- The flags its handler stashes. -/
def stash : AluOp → Nat → U64 → U64 → Bool → Cpu → Cpu
  | add, size, a, b, _, c => c.stashAdd size b (addResult size a b)
  | adc, size, a, b, cin, c => c.stashAdc size b cin (adcResult size a b cin)
  | sub, size, a, b, _, c | cmp, size, a, b, _, c => c.stashSub size b (subResult size a b)
  | sbb, size, a, b, bin, c => c.stashSbb size b bin (sbbResult size a b bin)
  | inc, size, a, _, _, c => c.stashInc size (incResult size a)
  | dec, size, a, _, _, c => c.stashDec size (decResult size a)
  | neg, size, a, _, _, c => c.stashNeg size a (negResult size a)

/-- The handler itself. -/
def code : AluOp → Insn → H Unit
  | add => Handlers.opAdd
  | adc => Handlers.opAdc
  | sub => Handlers.opSub
  | sbb => Handlers.opSbb
  | cmp => Handlers.opCmp
  | inc => Handlers.opInc
  | dec => Handlers.opDec
  | neg => Handlers.opNeg

theorem run_eq (fp : HostFp) (op : AluOp) (insn : Insn) :
    callHandler fp op.handler insn = op.perform (op.value insn.opSize) insn >>= fun r =>
      Proc.modify (op.stash insn.opSize r.1 r.2.1 r.2.2) := by
  have hcode : callHandler fp op.handler insn = op.code insn := by cases op <;> rfl
  rw [hcode]
  cases op <;>
  · simp only [code, perform, value, Handlers.opAdd, Handlers.opAdc, Handlers.opSub,
      Handlers.opSbb, Handlers.opCmp, Handlers.opInc, Handlers.opDec, Handlers.opNeg,
      Handlers.binaryAlu, Handlers.carryAlu, Handlers.unaryAlu,
      Handlers.compareAlu, bind_assoc, pure_bind, reduceCtorEq, or_false, or_self, or_true,
      if_true, if_false, ne_eq, not_true, not_false_iff]
    rfl

theorem value_exact {size : Nat} (hsize : IsOpSize size) (op : AluOp) (a b : U64) (cin : Bool) :
    op.value size a b cin = (op.sum a b cin).result size := by
  cases op with
  | add => exact (addResult_eq size a b).trans (adcResult_exact hsize a b false)
  | adc => exact adcResult_exact hsize a b cin
  | sub => exact (subResult_eq size a b).trans (sbbResult_exact hsize a b false)
  | sbb => exact sbbResult_exact hsize a b cin
  | cmp => exact (subResult_eq size a b).trans (sbbResult_exact hsize a b false)
  | inc => exact (incResult_eq size a).trans (adcResult_exact hsize a 1 false)
  | dec => exact (decResult_eq size a).trans (sbbResult_exact hsize a 1 false)
  | neg => exact (negResult_eq size a).trans (sbbResult_exact hsize 0 a false)

/-- `NEG` sets AF wrongly on an operand whose low nibble is zero and whose bit 4 is set. -/
def Misses (op : AluOp) (a : U64) : Prop := op = neg ∧ a &&& 0xF = 0 ∧ a.getLsbD 4 = true

theorem cf_toNat_bne (c : Cpu) : ((if c.cf then 1 else 0 : U64) != 0) = c.cf := by
  cases c.cf <;> rfl

/-- The flags a stash leaves to be read are the exact ones, but for that AF. -/
theorem not_misses {op : AluOp} {a : U64} (hop : op ≠ .neg) : ¬ op.Misses a := fun h => hop h.1

theorem syncBits_stash_iff {size : Nat} (hsize : IsOpSize size) (op : AluOp) (a b : U64)
    (cin : Bool) (c : Cpu) :
    arithFlags (op.stash size a b cin c).syncBits = op.flagsAfter size a b cin c ↔
      ¬ op.Misses a := by
  have hcin : ((if cin then 1 else 0 : U64) != 0) = cin := by cases cin <;> rfl
  cases op with
  | add =>
      refine iff_of_true ?_ (not_misses (by decide))
      have h := adc_flags_exact hsize a b false
      rw [← addResult_eq, ← computeAdd_eq] at h
      exact h
  | adc =>
      refine iff_of_true ?_ (not_misses (by decide))
      have h := adc_flags_exact hsize a b cin
      simp only [stash, Cpu.stashAdc, Cpu.stash, Cpu.syncBits, hcin, h]
      rfl
  | sub =>
      refine iff_of_true ?_ (not_misses (by decide))
      have h := sbb_flags_exact hsize a b false
      rw [← subResult_eq, ← computeSub_eq] at h
      exact h
  | sbb =>
      refine iff_of_true ?_ (not_misses (by decide))
      have h := sbb_flags_exact hsize a b cin
      simp only [stash, Cpu.stashSbb, Cpu.stash, Cpu.syncBits, hcin, h]
      rfl
  | cmp =>
      refine iff_of_true ?_ (not_misses (by decide))
      have h := sbb_flags_exact hsize a b false
      rw [← subResult_eq, ← computeSub_eq] at h
      exact h
  | inc =>
      refine iff_of_true ?_ (not_misses (by decide))
      have h := inc_flags_exact hsize a c.cf
      simp only [stash, Cpu.stashInc, Cpu.stash, Cpu.syncBits, cf_toNat_bne, h]
      rfl
  | dec =>
      refine iff_of_true ?_ (not_misses (by decide))
      have h := dec_flags_exact hsize a c.cf
      simp only [stash, Cpu.stashDec, Cpu.stash, Cpu.syncBits, cf_toNat_bne, h]
      rfl
  | neg =>
      have h : arithFlags (AluOp.stash neg size a b cin c).syncBits = _ := neg_flags hsize a
      rw [h]
      have haf := neg_af_iff hsize a
      simp only [flagsAfter, reduceCtorEq, or_self, if_false, sum, Misses, true_and]
      rw [← haf]
      constructor
      · intro hflags
        exact congrArg ArithFlags.af hflags
      · intro hflag
        rw [hflag]

end AluOp

/-! ### Writes of the six flags -/

namespace Cpu

theorem bits_inside (f : ArithFlags) : f.bits &&& ~~~Cpu.syncMask = 0 := by
  rcases f with ⟨cf, pf, af, zf, sf, of⟩
  cases cf <;> cases pf <;> cases af <;> cases zf <;> cases sf <;> cases of <;> rfl

theorem arithFlags_bits (f : ArithFlags) : arithFlags f.bits = f := by
  rcases f with ⟨cf, pf, af, zf, sf, of⟩
  cases cf <;> cases pf <;> cases af <;> cases zf <;> cases sf <;> cases of <;> rfl

theorem setArith_word (c : Cpu) (f : ArithFlags) :
    (c.setArith f).rflags_ &&& ~~~Cpu.syncMask = c.rflags_ &&& ~~~Cpu.syncMask ∧
      arithFlags (c.setArith f).rflags_ = f ∧ (c.setArith f).rflags_.getLsbD 1 = true := by
  have hone : Rflags.alwaysOne &&& ~~~Cpu.syncMask = 0 := by decide
  have hclear : arithFlags (c.rflags_ &&& ~~~Cpu.syncMask ||| f.bits) = arithFlags f.bits := by
    have hbit (i : Nat) (hi : Cpu.syncMask.getLsbD i = true) :
        (c.rflags_ &&& ~~~Cpu.syncMask ||| f.bits).getLsbD i = f.bits.getLsbD i := by
      rw [BitVec.getLsbD_or, BitVec.getLsbD_and, BitVec.getLsbD_not, hi]
      simp
    simp only [arithFlags, hbit 0 (by decide), hbit 2 (by decide), hbit 4 (by decide),
      hbit 6 (by decide), hbit 7 (by decide), hbit 11 (by decide)]
  refine ⟨?_, ?_, ?_⟩
  · have hmask := bits_inside f
    rw [setArith, BitVec.eq_of_getLsbD_eq_iff]
    intro i hi
    have hmaskI := congrArg (fun x => x.getLsbD i) hmask
    have honeI := congrArg (fun x => x.getLsbD i) hone
    simp only [BitVec.getLsbD_and, BitVec.getLsbD_or, BitVec.getLsbD_not, hi, decide_true,
      Bool.true_and] at hmaskI honeI ⊢
    cases hs : Cpu.syncMask.getLsbD i
    · simp only [hs, Bool.not_false, Bool.and_true] at hmaskI honeI ⊢
      rw [hmaskI, honeI]
      simp
    · simp
  · rw [setArith, arithFlags_or_alwaysOne, hclear, arithFlags_bits]
  · rw [setArith, BitVec.getLsbD_or, show Rflags.alwaysOne.getLsbD 1 = true from rfl, Bool.or_true]

/-- A pending operation that gives exactly the flags `f` is a write of them. -/
theorem same_setArith_iff {c d : Cpu} (f : ArithFlags) (hrest : d.unflagged = c.unflagged)
    (hword : d.rflags_ &&& ~~~Cpu.syncMask = c.rflags_ &&& ~~~Cpu.syncMask)
    (hpending : d.ccOp ≠ .eflags) :
    d.Same (c.setArith f) ↔ arithFlags d.syncBits = f := by
  obtain ⟨hout, hflags, hset⟩ := setArith_word c f
  have hsync : (c.setArith f).syncFlags = c.setArith f := syncFlags_of_eflags rfl
  have hunflagged : d.unflagged = (c.setArith f).unflagged := hrest
  rw [same_iff, hsync, word_eq_iff (getLsbD_one_syncFlags hpending) hset, syncFlags_outside, hword, hout, arithFlags_syncFlags,
    hflags]
  exact ⟨fun h => h.1.2, fun h => ⟨⟨rfl, h⟩, hunflagged⟩⟩

end Cpu

namespace AluOp

/-- What a stash changes: the flag record, and through a synchronisation the six flags. -/
theorem stash_frame (op : AluOp) (size : Nat) (a b : U64) (cin : Bool) (c : Cpu) :
    (op.stash size a b cin c).unflagged = c.unflagged ∧
      (op.stash size a b cin c).rflags_ &&& ~~~Cpu.syncMask = c.rflags_ &&& ~~~Cpu.syncMask ∧
      (op.stash size a b cin c).ccOp ≠ .eflags := by
  have hsynced := Cpu.unflagged_syncFlags c
  cases op with
  | inc => exact ⟨hsynced, syncFlags_outside c, CcOp.noConfusion⟩
  | dec => exact ⟨hsynced, syncFlags_outside c, CcOp.noConfusion⟩
  | _ => exact ⟨rfl, rfl, CcOp.noConfusion⟩

theorem same_stash_iff {size : Nat} (hsize : IsOpSize size) (op : AluOp) (a b : U64)
    (cin : Bool) (c : Cpu) :
    (op.stash size a b cin c).Same (c.setArith (op.flagsAfter size a b cin c)) ↔
      ¬ op.Misses a := by
  obtain ⟨hrest, hword, hpending⟩ := op.stash_frame size a b cin c
  rw [Cpu.same_setArith_iff _ hrest hword hpending, syncBits_stash_iff hsize]

end AluOp

/-! ### Runs -/

section Runs

variable {σ : Type}

/-- Two runs end alike: the same operations on the environment with the same answers, the same
world, and CPUs that are the same architecturally. -/
structure SameOutcome {α : Type} (x y : Prog.Outcome machine (Option α × Cpu) (World σ)) : Prop where
  value : x.value.1 = y.value.1
  cpu : x.value.2.Same y.value.2
  world : x.world = y.world
  trace : x.trace = y.trace

/-- A run that ends in an update of the CPU. -/
theorem exec_modify {α : Type} (env : machine.Env (World σ)) (p : H α) (f : α → Cpu → Cpu)
    (c : Cpu) (w : World σ) :
    ((p >>= fun a => Proc.modify (f a)) c).exec env w =
      { (p c).exec env w with
        value := (((p c).exec env w).value.1.map fun _ => (),
          match ((p c).exec env w).value.1 with
          | none => ((p c).exec env w).value.2
          | some a => f a ((p c).exec env w).value.2) } := by
  change (Proc.bind p _ c).exec env w = _
  rw [Proc.bind, Prog.exec_bind]
  generalize (p c).exec env w = out
  rcases out with ⟨⟨a, c'⟩, w', tr⟩
  cases a with
  | none => simp [Prog.exec]
  | some a => simp [Proc.modify, Prog.exec]

theorem sameOutcome_modify_iff {α : Type} (env : machine.Env (World σ)) (p : H α)
    (f g : α → Cpu → Cpu) (c : Cpu) (w : World σ) :
    SameOutcome (((p >>= fun a => Proc.modify (f a)) c).exec env w)
        (((p >>= fun a => Proc.modify (g a)) c).exec env w) ↔
      ∀ a, ((p c).exec env w).value.1 = some a →
        (f a ((p c).exec env w).value.2).Same (g a ((p c).exec env w).value.2) := by
  rw [exec_modify, exec_modify]
  generalize (p c).exec env w = out
  rcases out with ⟨⟨a, c'⟩, w', tr⟩
  constructor
  · intro h a' ha
    cases ha
    exact h.cpu
  · intro h
    refine ⟨rfl, ?_, rfl, rfl⟩
    cases a with
    | none => exact Cpu.Same.refl c'
    | some a => exact h a rfl

end Runs

namespace AluOp

variable {σ : Type}

/-- The operands and the incoming carry of a run that reads them and stores its result, so
that it gets to the flags. -/
def operands (op : AluOp) (insn : Insn) (at_ : Attached σ) (c : Cpu) (w : World σ) :
    Option (U64 × U64 × Bool) :=
  ((op.perform (fun a b cin => (op.sum a b cin).result insn.opSize) insn c).exec
    at_.env w).value.1

/-- Every run of an integer ALU handler is the run by the book, but for a `NEG` that gets to
its flags with an operand whose low nibble is zero and whose bit 4 is set. -/
theorem exact_iff (fp : HostFp) (op : AluOp) (insn : Insn) (hsize : IsOpSize insn.opSize)
    (at_ : Attached σ) (c : Cpu) (w : World σ) :
    SameOutcome (H.runOn (callHandler fp op.handler insn) at_ c w)
        (H.runOn (op.exactly insn) at_ c w) ↔
      ∀ a b cin, op.operands insn at_ c w = some (a, b, cin) → ¬ op.Misses a := by
  have hvalue : op.value insn.opSize = fun a b cin => (op.sum a b cin).result insn.opSize := by
    funext a b cin
    exact value_exact hsize op a b cin
  rw [run_eq, hvalue]
  refine (sameOutcome_modify_iff at_.env _
    (fun r : U64 × U64 × Bool => op.stash insn.opSize r.1 r.2.1 r.2.2)
    (fun r c => c.setArith (op.flagsAfter insn.opSize r.1 r.2.1 r.2.2 c)) c w).trans ?_
  simp only [same_stash_iff hsize]
  constructor
  · intro h a b cin hrun
    exact h (a, b, cin) hrun
  · rintro h ⟨a, b, cin⟩ hrun
    exact h a b cin hrun

/-- No memory attached. -/
def bare : Attached Unit := { memRead := none, memWrite := none }

/-- `NEG EAX`. -/
def negEax : Insn :=
  { handler := .opNeg, kind := .neg, opSize := 4, len := 2, dst := { kind := .reg, reg := Reg.rax } }

/-- With `EAX = 0x10` it sets AF, and `0 - 0x10` borrows nothing out of bit 3. -/
theorem neg_sets_af :
    ¬ ∀ (op : AluOp) (insn : Insn) (c : Cpu), IsOpSize insn.opSize →
      SameOutcome ((callHandler default op.handler insn).runOn bare c { mem := () })
        ((op.exactly insn).runOn bare c { mem := () }) := by
  intro h
  have hrun := h .neg negEax { gpr := fun _ => 0x10 } (by decide)
  have haf := hrun.cpu.flag Rflags.af
  exact absurd haf (by decide)

theorem exact_iff_neg_one :
    SameOutcome
      ((callHandler default AluOp.neg.handler negEax).runOn bare { gpr := fun _ => 1 } { mem := () })
      ((AluOp.neg.exactly negEax).runOn bare { gpr := fun _ => 1 } { mem := () }) := by
  refine (exact_iff default .neg negEax (by decide) _ _ _).mpr ?_
  intro a b cin hrun
  obtain rfl : a = 1 := by
    have h : some (1#64, 0#64, false) = some (a, b, cin) := hrun
    injection h with h
    injection h with h
    exact h.symm
  exact fun h => absurd h.2.1 (by decide)

end AluOp

end PicoCpu
