import Mathlib.Data.Nat.Bitwise
import Mathlib.Tactic.Ring

/-!
Machine words of the emulator core. The fixed-width integers of `types.h` are
bit vectors, so wraparound is theirs; sizes, lengths and register indices, which
the source keeps in a `u8`, are natural numbers wherever nothing wraps.
-/

namespace PicoCpu

abbrev U8 := BitVec 8
abbrev U16 := BitVec 16
abbrev U32 := BitVec 32
abbrev U64 := BitVec 64
abbrev GuestAddr := U64

/-- A C buffer: the bytes a provider fills or consumes, indexed from the start. -/
abbrev Buf := Nat → U8

/-- All-ones for an access of `size` bytes, zero for any other width. -/
def maskFor (size : Nat) : U64 :=
  match size with
  | 1 => 0xFF#64
  | 2 => 0xFFFF#64
  | 4 => 0xFFFFFFFF#64
  | 8 => 0xFFFFFFFFFFFFFFFF#64
  | _ => 0#64

def signBitPos (size : Nat) : Nat := (size * 8 + 255) % 256

def signMask (size : Nat) : U64 := 1#64 <<< signBitPos size

/-- The four operand widths an integer instruction can have. -/
def IsOpSize (size : Nat) : Prop := size = 1 ∨ size = 2 ∨ size = 4 ∨ size = 8

instance (size : Nat) : Decidable (IsOpSize size) := by
  unfold IsOpSize; infer_instance

theorem IsOpSize.cases {motive : Nat → Prop} {size : Nat} (hsize : IsOpSize size)
    (one : motive 1) (two : motive 2) (four : motive 4) (eight : motive 8) : motive size := by
  rcases hsize with rfl | rfl | rfl | rfl
  · exact one
  · exact two
  · exact four
  · exact eight

theorem maskFor_eq (size : Nat) (hsize : IsOpSize size) :
    maskFor size = BitVec.ofNat 64 (2 ^ (8 * size) - 1) := by
  apply hsize.cases <;> decide

theorem signMask_eq (size : Nat) (hsize : IsOpSize size) :
    signMask size = 1#64 <<< (8 * size - 1) := by
  apply hsize.cases <;> decide

/-- Masking keeps exactly the low `size` bytes. -/
theorem getLsbD_and_maskFor (size : Nat) (hsize : IsOpSize size) (x : U64) (i : Nat) :
    (x &&& maskFor size).getLsbD i = (x.getLsbD i && decide (i < 8 * size)) := by
  rw [maskFor_eq size hsize, BitVec.getLsbD_and, BitVec.getLsbD_ofNat, Nat.testBit_two_pow_sub_one]
  by_cases hi : i < 64
  · simp [hi]
  · rw [BitVec.getLsbD_of_ge x i (by omega)]
    rfl

theorem toNat_and_maskFor (size : Nat) (hsize : IsOpSize size) (x : U64) :
    (x &&& maskFor size).toNat = x.toNat % 2 ^ (8 * size) := by
  have hmask : (maskFor size).toNat = 2 ^ (8 * size) - 1 := by
    apply hsize.cases <;> decide
  rw [BitVec.toNat_and, hmask, Nat.and_two_pow_sub_one_eq_mod]

theorem toNat_lt_of_masked (size : Nat) (hsize : IsOpSize size) (x : U64) :
    (x &&& maskFor size).toNat < 2 ^ (8 * size) := by
  rw [toNat_and_maskFor size hsize]
  exact Nat.mod_lt _ (Nat.two_pow_pos _)

/-- Two words agree on their low `size` bytes when they agree modulo `2 ^ (8 size)`. -/
theorem and_maskFor_eq_of_mod_eq (size : Nat) (hsize : IsOpSize size) {x y : U64}
    (h : x.toNat % 2 ^ (8 * size) = y.toNat % 2 ^ (8 * size)) :
    x &&& maskFor size = y &&& maskFor size := by
  apply BitVec.eq_of_toNat_eq
  rw [toNat_and_maskFor size hsize, toNat_and_maskFor size hsize, h]

/-! Masking commutes with addition and subtraction, so an operand may be masked or not
before the sum is. -/

theorem masked_add_left (size : Nat) (hsize : IsOpSize size) (x y : U64) :
    ((x &&& maskFor size) + y) &&& maskFor size = (x + y) &&& maskFor size := by
  apply and_maskFor_eq_of_mod_eq size hsize
  rw [BitVec.toNat_add, BitVec.toNat_add, toNat_and_maskFor size hsize]
  rcases hsize with rfl | rfl | rfl | rfl <;> omega

theorem masked_sub_left (size : Nat) (hsize : IsOpSize size) (x y : U64) :
    ((x &&& maskFor size) - y) &&& maskFor size = (x - y) &&& maskFor size := by
  apply and_maskFor_eq_of_mod_eq size hsize
  rw [BitVec.toNat_sub, BitVec.toNat_sub, toNat_and_maskFor size hsize]
  rcases hsize with rfl | rfl | rfl | rfl <;> omega

theorem masked_add_right (size : Nat) (hsize : IsOpSize size) (x y : U64) :
    (x + (y &&& maskFor size)) &&& maskFor size = (x + y) &&& maskFor size := by
  rw [BitVec.add_comm, masked_add_left size hsize, BitVec.add_comm]

theorem masked_sub_right (size : Nat) (hsize : IsOpSize size) (x y : U64) :
    (x - (y &&& maskFor size)) &&& maskFor size = (x - y) &&& maskFor size := by
  apply and_maskFor_eq_of_mod_eq size hsize
  rw [BitVec.toNat_sub, BitVec.toNat_sub, toNat_and_maskFor size hsize]
  rcases hsize with rfl | rfl | rfl | rfl <;> omega

theorem and_maskFor_idem (size : Nat) (x : U64) :
    x &&& maskFor size &&& maskFor size = x &&& maskFor size := by
  rw [BitVec.and_assoc, BitVec.and_self]

/-- The low `size` bytes of a buffer, little-endian. -/
def loadLE (buf : Buf) : Nat → U64
  | 0 => 0#64
  | size + 1 => loadLE buf size ||| ((buf size).setWidth 64 <<< (8 * size))

/-- The buffer a store of `value` fills: byte `i` is bits `8 i .. 8 i + 7`. -/
def storeLE (value : U64) : Buf := fun i => (value >>> (8 * i)).setWidth 8

theorem getLsbD_loadLE (buf : Buf) (size i : Nat) (hi : i < 64) :
    (loadLE buf size).getLsbD i = (decide (i < 8 * size) && (buf (i / 8)).getLsbD (i % 8)) := by
  induction size with
  | zero => simp [loadLE]
  | succ size ih =>
      rw [loadLE, BitVec.getLsbD_or, ih, BitVec.getLsbD_shiftLeft, BitVec.getLsbD_setWidth]
      rcases Nat.lt_trichotomy (i / 8) size with hlt | heq | hgt
      · have hbelow : i < 8 * size := by omega
        have habove : i < 8 * (size + 1) := by omega
        simp [hbelow, habove]
      · subst heq
        have hnot : ¬ i < 8 * (i / 8) := by omega
        have habove : i < 8 * (i / 8 + 1) := by omega
        have hoffset : i - 8 * (i / 8) = i % 8 := by omega
        have hsmall : i % 8 < 64 := by omega
        simp [hnot, habove, hoffset, hsmall, hi]
      · have hnot : ¬ i < 8 * (size + 1) := by omega
        have hhigh : 8 ≤ i - 8 * size := by omega
        have hnot' : ¬ i < 8 * size := by omega
        simp [hnot, hnot', BitVec.getLsbD_of_ge _ _ hhigh]

/-- Eight bytes stored and loaded again. -/
theorem loadLE_of_stored {buf : Buf} {v : U64} (h : ∀ i < 8, buf i = storeLE v i) :
    loadLE buf 8 = v := by
  apply BitVec.eq_of_getLsbD_eq
  intro i hi
  have hbyte : i / 8 < 8 := by omega
  have hsmall : i % 8 < 8 := Nat.mod_lt _ (by omega)
  have hsum : 8 * (i / 8) + i % 8 = i := Nat.div_add_mod i 8
  rw [getLsbD_loadLE _ _ _ hi, h _ hbyte, storeLE, BitVec.getLsbD_setWidth,
    BitVec.getLsbD_ushiftRight, hsum]
  simp [hsmall, hi]

/-- Sign-extension of the low `size` bytes to 64 bits. -/
def signExtend (v : U64) (size : Nat) : U64 :=
  if v &&& signMask size ≠ 0 then (v &&& maskFor size) ||| ~~~(maskFor size)
  else v &&& maskFor size

end PicoCpu
