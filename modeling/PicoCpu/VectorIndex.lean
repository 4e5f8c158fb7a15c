import PicoCpu.EvexMasking

/-!
The addresses of gathers and scatters: a base, an element of the index vector register scaled, and a
displacement. The handlers work on copies of the index vector that end somewhere.
-/

namespace PicoCpu

open Handlers

namespace Insn

/-- The index of a lane. -/
def laneIndex (i : Insn) (c : Cpu) (lane : Nat) : U64 :=
  (c.element (indexLane i) i.src.index lane).signExtend 64

/-- The address of a lane. -/
def vsibAddr (i : Insn) (c : Cpu) (lane : Nat) : GuestAddr :=
  vsibBase i c + i.laneIndex c lane *
      (if i.src.scale ≠ 0 then BitVec.ofNat 64 i.src.scale else 1) + i.src.imm

end Insn

section Lanes

variable {i : Insn} {lane n : Nat}

theorem element_zeroAbove {size : Nat} (hsize : size ≤ 8) (hin : (lane + 1) * size ≤ n) (v : Buf) :
    Buf.element size (doGather.zeroAbove n v) lane = Buf.element size v lane := by
  apply element_congr hsize
  intro j hj
  have hbyte : size * lane + j < n := by
    rw [Nat.succ_mul, Nat.mul_comm] at hin
    omega
  exact if_pos hbyte

/-- An element is the first one of what starts with it. -/
theorem element_drop (size : Nat) (v : Buf) (lane : Nat) :
    Buf.element size (v.drop (lane * size)) 0 = Buf.element size v lane := by
  have hdrop : (v.drop (lane * size)).drop (size * 0) = v.drop (size * lane) := by
    funext j
    rw [Buf.drop, Buf.drop, Buf.drop, Nat.mul_zero, Nat.zero_add, Nat.mul_comm]
  rw [Buf.element, hdrop, Buf.element]

variable (hindex : indexLane i = 4 ∨ indexLane i = 8)
include hindex

/-- The index that the handlers assemble is an element of the vector. -/
theorem indexAt_eq_element (v : Buf) :
    indexAt i v lane = (Buf.element (indexLane i) v lane).signExtend 64 := by
  rw [indexAt]
  rcases hindex with hfour | height
  · rw [if_pos hfour, ← element_four, hfour, element_drop 4]
  · have hnot : ¬ indexLane i = 4 := by omega
    rw [if_neg hnot, ← element_eight, height, element_drop 8]
    exact (BitVec.signExtend_eq _).symm

/-- An element inside the copy is that of the register. -/
theorem laneAddr_zeroAbove (hin : (lane + 1) * indexLane i ≤ n) (c : Cpu) :
    laneAddr i (vsibBase i c) (doGather.zeroAbove n (c.zmm i.src.index)) lane =
      i.vsibAddr c lane := by
  have hsize : indexLane i ≤ 8 := by omega
  rw [laneAddr, indexAt_eq_element hindex, element_zeroAbove hsize hin]
  rfl

end Lanes

end PicoCpu
