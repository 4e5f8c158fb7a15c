import PicoCpu.DepositExtract
import PicoCpu.IntegerValues
import PicoCpu.Lib.ShiftCounts

/-!
The BMI instructions on one bit field: their results bit by bit on the operands' width, the flags
they define, and the host shifts their handlers make.
-/

namespace PicoCpu

open H Proc Handlers SetBits ShiftCounts

inductive FieldOp where
  | andn | bextr | blsi | blsr | blsmsk | bzhi | rorx | sarx | shlx | shrx
  deriving DecidableEq, Repr

namespace FieldOp

def handler : FieldOp → Handler
  | andn => .opAndn
  | bextr => .opBextr
  | blsi => .opBlsi
  | blsr => .opBlsr
  | blsmsk => .opBlsmsk
  | bzhi => .opBzhi
  | rorx => .opRorx
  | sarx => .opSarx
  | shlx => .opShlx
  | shrx => .opShrx

/-! ### Definitions of the results -/

/-- Bit `j` of the result from the r/m operand, the second operand and the immediate. -/
def bit (op : FieldOp) (imm : Nat) {n : Nat} (s v : BitVec n) (j : Nat) : Bool :=
  match op with
  | andn => !v.getLsbD j && s.getLsbD j
  | bextr => decide (j < v.toNat / 256 % 256) && s.getLsbD (v.toNat % 256 + j)
  | blsi => s.getLsbD j && decide (∀ k < j, s.getLsbD k = false)
  | blsr => s.getLsbD j && !decide (∀ k < j, s.getLsbD k = false)
  | blsmsk => decide (∀ k < j, s.getLsbD k = false)
  | bzhi => decide (j < v.toNat % 256) && s.getLsbD j
  | rorx => s.getLsbD ((j + imm) % n)
  | sarx => if j + v.toNat % n < n then s.getLsbD (j + v.toNat % n) else s.msb
  | shlx => decide (v.toNat % n ≤ j) && s.getLsbD (j - v.toNat % n)
  | shrx => s.getLsbD (j + v.toNat % n)

/-! ### The handlers' formulas -/

def value (op : FieldOp) (size : Nat) (imm src vvvv : U64) : U64 :=
  match op with
  | andn => ~~~vvvv &&& src &&& maskFor size
  | bextr => Handlers.bextr (size * 8) src vvvv
  | blsi => src &&& (0 - src)
  | blsr => src &&& (src - 1)
  | blsmsk => (src ^^^ (src - 1)) &&& maskFor size
  | bzhi =>
    if size * 8 ≤ bzhiIndex vvvv then src &&& maskFor size
    else src &&& ((1#64 <<< bzhiIndex vvvv) - 1)
  | rorx =>
    let n := (imm &&& BitVec.ofNat 64 (size * 8 - 1)).toNat
    ((src >>> n) ||| (src <<< (size * 8 - n))) &&& maskFor size
  | sarx => (signExtend src size).sshiftRight (maskedCount size (vvvv.setWidth 8)) &&& maskFor size
  | shlx => (src <<< maskedCount size (vvvv.setWidth 8)) &&& maskFor size
  | shrx => (src &&& maskFor size) >>> maskedCount size (vvvv.setWidth 8)

end FieldOp

/-! ### Bits -/

section Words

variable {n : Nat} (v : BitVec n)

theorem getLsbD_word {j : Nat} (hj : j < 64) : (v.setWidth 64).getLsbD j = v.getLsbD j := by
  rw [BitVec.getLsbD_setWidth, decide_eq_true hj, Bool.true_and]

theorem toNat_word (hn : n ≤ 64) : (v.setWidth 64).toNat = v.toNat := by
  rw [BitVec.toNat_setWidth]
  exact Nat.mod_eq_of_lt (v.isLt.trans_le (Nat.pow_le_pow_right (by decide) hn))

/-- The lowest bits as a number. -/
theorem and_byte_toNat (x : U64) : (x &&& 0xFF).toNat = x.toNat % 256 := by
  rw [BitVec.toNat_and]
  exact Nat.and_two_pow_sub_one_eq_mod x.toNat 8

/-- A mask of `k` low bits. -/
theorem getLsbD_lowMask {k : Nat} (hk : k < 64) (j : Nat) :
    ((1#64 <<< k) - 1).getLsbD j = decide (j < k) :=
  IsLowest.getLsbD_twoPow_sub_one hk j

/-- The lowest set bit of an operand is that of the word. -/
theorem lowest_word (hn : n ≤ 64) {p : Nat} (h : IsLowest v p) : IsLowest (v.setWidth 64) p := by
  have hlt := h.lt
  refine ⟨?_, fun j hj => ?_⟩
  · rw [getLsbD_word v (by omega)]
    exact h.set
  · rw [getLsbD_word v (by omega)]
    exact h.below j hj

/-- Where the lowest set bit is, the bits up to it are those with nothing set below. -/
theorem decide_below_eq {p : Nat} (h : IsLowest v p) (j : Nat) :
    decide (∀ k < j, v.getLsbD k = false) = decide (j ≤ p) := by
  rw [decide_eq_decide]
  constructor
  · intro hbelow
    by_contra hgt
    have hset := hbelow p (by omega)
    rw [h.set] at hset
    cases hset
  · intro hle k hk
    exact h.below k (by omega)

/-- A zero operand has nothing set below any bit. -/
theorem decide_below_zero (j : Nat) :
    decide (∀ k < j, (0 : BitVec n).getLsbD k = false) = true :=
  decide_eq_true fun _ _ => BitVec.getLsbD_zero

/-- Nothing is set past the width. -/
theorem getLsbD_past {j : Nat} (hj : ¬ j < n) : v.getLsbD j = false :=
  BitVec.getLsbD_of_ge v j (Nat.not_lt.mp hj)

end Words

/-! ### The formulas bit by bit -/

namespace FieldOp

section Bits

variable {size : Nat} (hsize : IsOpSize size) (s v : BitVec (8 * size)) {j : Nat} (hj : j < 64)
include hsize hj

theorem andn_bit (imm : U64) : (andn.value size imm (s.setWidth 64) (v.setWidth 64)).getLsbD j =
    (decide (j < 8 * size) && andn.bit imm.toNat s v j) := by
  rw [value, getLsbD_and_maskFor size hsize, BitVec.getLsbD_and, BitVec.getLsbD_not,
    decide_eq_true hj, getLsbD_word _ hj, getLsbD_word _ hj, Bool.true_and, Bool.and_comm]
  rfl

theorem bextr_bit (imm : U64) : (bextr.value size imm (s.setWidth 64) (v.setWidth 64)).getLsbD j =
    (decide (j < 8 * size) && bextr.bit imm.toNat s v j) := by
  have hle := bits_le hsize
  have hstart : (v.setWidth 64 &&& 0xFF).toNat = v.toNat % 256 := by
    rw [and_byte_toNat, toNat_word v hle]
  have hlen : (v.setWidth 64 >>> 8 &&& 0xFF).toNat = v.toNat / 256 % 256 := by
    rw [and_byte_toNat, BitVec.toNat_ushiftRight, toNat_word v hle, Nat.shiftRight_eq_div_pow]
  rw [value, Handlers.bextr, hstart, hlen, bit]
  generalize v.toNat % 256 = start
  generalize v.toNat / 256 % 256 = len
  dsimp only
  by_cases hin : start < size * 8
  · have hmask (eff : Nat) : (if 64 ≤ eff then ~~~0#64 else (1#64 <<< eff) - 1).getLsbD j =
        decide (j < eff) := by
      split
      next hwide =>
        rw [BitVec.getLsbD_not, BitVec.getLsbD_zero, decide_eq_true hj,
          decide_eq_true (hj.trans_le hwide)]
        rfl
      next hnarrow => exact getLsbD_lowMask (by omega) j
    rw [if_pos hin, BitVec.getLsbD_and, hmask, BitVec.getLsbD_ushiftRight]
    by_cases hbit : start + j < 8 * size
    · rw [getLsbD_word s (by omega), decide_eq_true (show j < 8 * size by omega), Bool.true_and,
        Bool.and_comm]
      congr 1
      rw [decide_eq_decide]
      split <;> omega
    · have hnone : (s.setWidth 64).getLsbD (start + j) = false := by
        rw [BitVec.getLsbD_setWidth, getLsbD_past s hbit, Bool.and_false]
      rw [hnone, getLsbD_past s hbit, Bool.false_and, Bool.and_false, Bool.and_false]
  · rw [if_neg hin, getLsbD_past s (by omega), Bool.and_false, Bool.and_false]
    exact BitVec.getLsbD_zero

omit hj in
theorem blsi_bit (imm : U64) : (blsi.value size imm (s.setWidth 64) (v.setWidth 64)).getLsbD j =
    (decide (j < 8 * size) && blsi.bit imm.toNat s v j) := by
  have hle := bits_le hsize
  rw [value, bit]
  by_cases hzero : s = 0
  · have hnone : (0 : BitVec (8 * size)).getLsbD j = false := BitVec.getLsbD_zero
    have hword : (0 : BitVec (8 * size)).setWidth 64 = 0#64 := BitVec.setWidth_zero ..
    rw [hzero, hnone, Bool.false_and, Bool.and_false, hword, BitVec.getLsbD_and,
      BitVec.getLsbD_zero, Bool.false_and]
  · obtain ⟨p, hp⟩ := exists_isLowest hzero
    have hlt := hp.lt
    rw [(lowest_word s hle hp).and_neg, BitVec.getLsbD_twoPow, decide_below_eq s hp,
      decide_eq_true (show p < 64 by omega), Bool.true_and]
    by_cases heq : p = j
    · rw [← heq, hp.set, decide_eq_true hlt, decide_eq_true rfl, decide_eq_true (Nat.le_refl p)]
      rfl
    · rw [decide_eq_false heq]
      by_cases hbelow : j < p
      · rw [hp.below j hbelow, Bool.false_and, Bool.and_false]
      · rw [decide_eq_false (by omega : ¬ j ≤ p), Bool.and_false, Bool.and_false]

theorem blsr_bit (imm : U64) : (blsr.value size imm (s.setWidth 64) (v.setWidth 64)).getLsbD j =
    (decide (j < 8 * size) && blsr.bit imm.toNat s v j) := by
  have hle := bits_le hsize
  rw [value, bit]
  by_cases hzero : s = 0
  · have hnone : (0 : BitVec (8 * size)).getLsbD j = false := BitVec.getLsbD_zero
    have hword : (0 : BitVec (8 * size)).setWidth 64 = 0#64 := BitVec.setWidth_zero ..
    rw [hzero, hnone, Bool.false_and, Bool.and_false, hword, BitVec.getLsbD_and,
      BitVec.getLsbD_zero, Bool.false_and]
  · obtain ⟨p, hp⟩ := exists_isLowest hzero
    rw [(lowest_word s hle hp).getLsbD_clear, getLsbD_word s hj, decide_below_eq s hp]
    by_cases hin : j < 8 * size
    · rw [decide_eq_true hin, Bool.true_and]
      by_cases hbelow : j < p
      · rw [hp.below j hbelow, Bool.false_and, Bool.false_and]
      · congr 1
        rw [← decide_not, decide_eq_decide]
        omega
    · rw [getLsbD_past s hin, Bool.false_and, Bool.false_and, Bool.and_false]

theorem blsmsk_bit (imm : U64) : (blsmsk.value size imm (s.setWidth 64) (v.setWidth 64)).getLsbD j =
    (decide (j < 8 * size) && blsmsk.bit imm.toNat s v j) := by
  have hle := bits_le hsize
  rw [value, bit, getLsbD_and_maskFor size hsize, Bool.and_comm]
  congr 1
  by_cases hzero : s = 0
  · have hones : (0 : U64) ^^^ (0 - 1) = BitVec.allOnes 64 := by decide
    have hword : (0 : BitVec (8 * size)).setWidth 64 = (0 : U64) := BitVec.setWidth_zero ..
    rw [hzero, decide_below_zero, hword, hones, BitVec.getLsbD_allOnes, decide_eq_true hj]
  · obtain ⟨p, hp⟩ := exists_isLowest hzero
    rw [(lowest_word s hle hp).getLsbD_upTo, decide_below_eq s hp]

theorem bzhi_bit (imm : U64) : (bzhi.value size imm (s.setWidth 64) (v.setWidth 64)).getLsbD j =
    (decide (j < 8 * size) && bzhi.bit imm.toNat s v j) := by
  have hle := bits_le hsize
  have hindex : bzhiIndex (v.setWidth 64) = v.toNat % 256 := by
    rw [bzhiIndex, and_byte_toNat, toNat_word v hle]
  rw [value, bit, hindex]
  generalize v.toNat % 256 = index
  split
  next hwide =>
    rw [getLsbD_and_maskFor size hsize, getLsbD_word s hj, Bool.and_comm]
    by_cases hin : j < 8 * size
    · rw [decide_eq_true (show j < index by omega), Bool.true_and]
    · rw [decide_eq_false hin, Bool.false_and, Bool.false_and]
  next hnarrow =>
    rw [BitVec.getLsbD_and, getLsbD_lowMask (by omega), getLsbD_word s hj, Bool.and_comm]
    by_cases hin : j < 8 * size
    · rw [decide_eq_true hin, Bool.true_and]
    · rw [getLsbD_past s hin, Bool.and_false, Bool.and_false]

end Bits

/-! ### Rotations and shifts -/

section Counts

variable {size : Nat} (hsize : size = 4 ∨ size = 8) (s v : BitVec (8 * size)) (imm : U64)
include hsize

theorem isOpSize_of_wide : IsOpSize size := by
  rcases hsize with rfl | rfl <;> decide

/-- The rotation count. -/
theorem rorxCount_eq :
    (imm &&& BitVec.ofNat 64 (size * 8 - 1)).toNat = imm.toNat % (8 * size) := by
  rcases hsize with rfl | rfl
  · rw [BitVec.toNat_and]
    exact Nat.and_two_pow_sub_one_eq_mod imm.toNat 5
  · rw [BitVec.toNat_and]
    exact Nat.and_two_pow_sub_one_eq_mod imm.toNat 6

/-- The shift count. -/
theorem shiftxCount_eq :
    maskedCount size ((v.setWidth 64).setWidth 8) = v.toNat % (8 * size) := by
  have hbyte : ((v.setWidth 64).setWidth 8).toNat = v.toNat % 256 := by
    rw [BitVec.toNat_setWidth, toNat_word v (bits_le (isOpSize_of_wide hsize))]
  rw [maskedCount, hbyte]
  rcases hsize with rfl | rfl
  · rw [shiftCountMask, if_neg (by decide)]
    exact (Nat.and_two_pow_sub_one_eq_mod _ 5).trans (Nat.mod_mod_of_dvd _ (by decide))
  · rw [shiftCountMask, if_pos rfl]
    exact (Nat.and_two_pow_sub_one_eq_mod _ 6).trans (Nat.mod_mod_of_dvd _ (by decide))

theorem rorx_bit {j : Nat} (hj : j < 64) :
    (rorx.value size imm (s.setWidth 64) (v.setWidth 64)).getLsbD j =
      (decide (j < 8 * size) && rorx.bit imm.toNat s v j) := by
  have hop := isOpSize_of_wide hsize
  have hle := bits_le hop
  have hmod : (j + imm.toNat) % (8 * size) = (j + imm.toNat % (8 * size)) % (8 * size) :=
    (Nat.add_mod_mod ..).symm
  have hlt : imm.toNat % (8 * size) < 8 * size := Nat.mod_lt _ (bits_pos hop)
  rw [value, bit, rorxCount_eq hsize, hmod]
  generalize imm.toNat % (8 * size) = k at hlt
  rw [getLsbD_and_maskFor size hop, Bool.and_comm]
  by_cases hin : j < 8 * size
  · rw [decide_eq_true hin, Bool.true_and, Bool.true_and, BitVec.getLsbD_or,
      BitVec.getLsbD_ushiftRight, BitVec.getLsbD_shiftLeft, decide_eq_true hj, Bool.true_and,
      Nat.add_comm j k]
    by_cases hround : k + j < 8 * size
    · rw [Nat.mod_eq_of_lt hround, getLsbD_word s (by omega),
        decide_eq_true (show j < size * 8 - k by omega), Bool.not_true, Bool.false_and,
        Bool.or_false]
    · have hwrap : (k + j) % (8 * size) = j - (size * 8 - k) := by
        rw [Nat.mod_eq_sub_mod (by omega), Nat.mod_eq_of_lt (by omega)]
        omega
      rw [BitVec.getLsbD_setWidth, getLsbD_past s hround, Bool.and_false, Bool.false_or,
        decide_eq_false (show ¬ j < size * 8 - k by omega), Bool.not_false, Bool.true_and,
        getLsbD_word s (by omega), hwrap]
  · rw [decide_eq_false hin, Bool.false_and, Bool.false_and]

theorem shlx_bit {j : Nat} (hj : j < 64) :
    (shlx.value size imm (s.setWidth 64) (v.setWidth 64)).getLsbD j =
      (decide (j < 8 * size) && shlx.bit imm.toNat s v j) := by
  have hop := isOpSize_of_wide hsize
  rw [value, bit, shiftxCount_eq hsize, getLsbD_and_maskFor size hop, Bool.and_comm]
  congr 1
  rw [BitVec.getLsbD_shiftLeft, decide_eq_true hj, Bool.true_and, getLsbD_word s (by omega),
    ← decide_not]
  congr 1
  rw [decide_eq_decide]
  omega

theorem shrx_bit (j : Nat) :
    (shrx.value size imm (s.setWidth 64) (v.setWidth 64)).getLsbD j =
      (decide (j < 8 * size) && shrx.bit imm.toNat s v j) := by
  have hop := isOpSize_of_wide hsize
  have hle := bits_le hop
  rw [value, bit, shiftxCount_eq hsize, setWidth_masked hop, BitVec.getLsbD_ushiftRight,
    Nat.add_comm]
  by_cases hin : j + v.toNat % (8 * size) < 8 * size
  · rw [getLsbD_word s (by omega), decide_eq_true (show j < 8 * size by omega), Bool.true_and]
  · rw [BitVec.getLsbD_setWidth, getLsbD_past s hin, Bool.and_false, Bool.and_false]

theorem sarx_bit (j : Nat) :
    (sarx.value size imm (s.setWidth 64) (v.setWidth 64)).getLsbD j =
      (decide (j < 8 * size) && sarx.bit imm.toNat s v j) := by
  have hop := isOpSize_of_wide hsize
  have hle := bits_le hop
  have hlt : v.toNat % (8 * size) < 8 * size := Nat.mod_lt _ (bits_pos hop)
  have hextend : signExtend (s.setWidth 64) size = s.signExtend 64 := by
    rw [signExtend_eq hop, BitVec.setWidth_setWidth_of_le _ hle, BitVec.setWidth_eq]
  rw [value, bit, shiftxCount_eq hsize, hextend, getLsbD_and_maskFor size hop, Bool.and_comm]
  by_cases hin : j < 8 * size
  · have hwhole := setWidth_sshiftRight_signExtend s (v.toNat % (8 * size)) hle
    have hbit := congrArg (fun x : BitVec (8 * size) => x.getLsbD j) hwhole
    simp only [BitVec.getLsbD_setWidth, decide_eq_true hin, Bool.true_and] at hbit
    rw [decide_eq_true hin, Bool.true_and, Bool.true_and, hbit, BitVec.getLsbD_sshiftRight,
      decide_eq_false (show ¬ 8 * size ≤ j by omega), Bool.not_false, Bool.true_and, Nat.add_comm]
  · rw [decide_eq_false hin, Bool.false_and, Bool.false_and]

/-- Every formula has the bits of its definition, and none past the width. -/
theorem value_bit (op : FieldOp) {j : Nat} (hj : j < 64) :
    (op.value size imm (s.setWidth 64) (v.setWidth 64)).getLsbD j =
      (decide (j < 8 * size) && op.bit imm.toNat s v j) := by
  have hop := isOpSize_of_wide hsize
  cases op with
  | andn => exact andn_bit hop s v hj imm
  | bextr => exact bextr_bit hop s v hj imm
  | blsi => exact blsi_bit hop s v imm
  | blsr => exact blsr_bit hop s v hj imm
  | blsmsk => exact blsmsk_bit hop s v hj imm
  | bzhi => exact bzhi_bit hop s v hj imm
  | rorx => exact rorx_bit hsize s v imm hj
  | sarx => exact sarx_bit hsize s v imm j
  | shlx => exact shlx_bit hsize s v imm hj
  | shrx => exact shrx_bit hsize s v imm j

end Counts

end FieldOp

end PicoCpu
