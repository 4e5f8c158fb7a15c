import PicoCpu.Handlers.Operand

/-!
The aliases of a general-purpose register. Every read and write of an operand-sized alias is
one masked access to the 64-bit register that holds it; a 32-bit write clears the rest of
that register, the narrower ones keep it.
-/

namespace PicoCpu

/-- Whether the code names `AH`, `CH`, `DH` or `BH`. -/
def isHighByte (reg size : Nat) : Prop := size = 1 ∧ 16 ≤ reg ∧ reg < 20

instance (reg size : Nat) : Decidable (isHighByte reg size) := by
  unfold isHighByte; infer_instance

/-- The 64-bit register that holds an alias. -/
def aliasIndex (reg size : Nat) : Nat := if isHighByte reg size then reg - 16 else reg

/-- Where the alias starts in it. -/
def aliasShift (reg size : Nat) : Nat := if isHighByte reg size then 8 else 0

/-- The bits of the alias. -/
def aliasMask (reg size : Nat) : U64 := maskFor size <<< aliasShift reg size

/-- What a write of an alias leaves outside it. -/
def aliasRest (size : Nat) (rest : U64) : U64 := if size = 4 then 0#64 else rest

theorem merge_self {x y m : U64} : (x &&& ~~~m) ||| (y &&& m) = x ↔ y &&& m = x &&& m := by
  constructor
  · intro h
    rw [← h, BitVec.eq_of_getLsbD_eq_iff]
    intro i _
    simp only [BitVec.getLsbD_and, BitVec.getLsbD_or, BitVec.getLsbD_not]
    cases m.getLsbD i <;> simp
  · intro h
    rw [h, BitVec.eq_of_getLsbD_eq_iff]
    intro i hi
    simp only [BitVec.getLsbD_and, BitVec.getLsbD_or, BitVec.getLsbD_not, hi, decide_true,
      Bool.true_and]
    cases m.getLsbD i <;> simp

theorem merge_rest (x y m : U64) : ((x &&& ~~~m) ||| (y &&& m)) &&& ~~~m = x &&& ~~~m := by
  rw [BitVec.eq_of_getLsbD_eq_iff]
  intro i hi
  simp only [BitVec.getLsbD_and, BitVec.getLsbD_or, BitVec.getLsbD_not, hi, decide_true,
    Bool.true_and]
  cases m.getLsbD i <;> simp

theorem masked_rest (y m : U64) : (y &&& m) &&& ~~~m = 0#64 := by
  rw [BitVec.and_assoc, BitVec.and_not_self]
  exact BitVec.and_zero

namespace Cpu

theorem setR_self (c : Cpu) (idx : Nat) : c.setR idx (c.r idx) = c := by
  rw [setR, r, Function.update_eq_self]

@[simp] theorem r_setR (c : Cpu) (idx : Nat) (v : U64) : (c.setR idx v).r idx = v :=
  Function.update_self ..

theorem r_setR_ne (c : Cpu) {idx idx' : Nat} (v : U64) (h : idx' ≠ idx) :
    (c.setR idx v).r idx' = c.r idx' := Function.update_of_ne h ..

theorem setR_eq_self_iff {c : Cpu} {idx : Nat} {v : U64} : c.setR idx v = c ↔ v = c.r idx := by
  constructor
  · intro h
    have hgpr : (c.setR idx v).r idx = c.r idx := by rw [h]
    rwa [r_setR] at hgpr
  · rintro rfl
    exact c.setR_self idx

theorem setR_eq_setR_iff {c : Cpu} {reg : Nat} {v v' : U64} :
    c.setR reg v = c.setR reg v' ↔ v = v' := by
  constructor
  · intro h
    have hreg := congrArg (fun c : Cpu => c.r reg) h
    rwa [r_setR, r_setR] at hreg
  · rintro rfl
    rfl

theorem setR_eq_setR_ne_iff (c : Cpu) {reg reg' : Nat} (hne : reg ≠ reg') {v v' : U64} :
    c.setR reg v = c.setR reg' v' ↔ v = c.r reg ∧ c.r reg' = v' := by
  constructor
  · intro h
    have hreg := congrArg (fun c : Cpu => c.r reg) h
    have hreg' := congrArg (fun c : Cpu => c.r reg') h
    rw [r_setR, r_setR_ne _ _ hne] at hreg
    rw [r_setR, r_setR_ne _ _ hne.symm] at hreg'
    exact ⟨hreg, hreg'⟩
  · rintro ⟨rfl, rfl⟩
    rw [setR_self, setR_self]

/-- A read of an alias. -/
theorem readGpr_eq (c : Cpu) (reg : Nat) {size : Nat} :
    c.readGpr reg size =
      (c.r (aliasIndex reg size) >>> aliasShift reg size) &&& maskFor size := by
  unfold readGpr
  by_cases hhigh : isHighByte reg size
  · obtain ⟨rfl, hlo, hhi⟩ := hhigh
    rw [if_pos ⟨rfl, hlo, hhi⟩, r8, if_pos ⟨hlo, hhi⟩, aliasIndex, aliasShift,
      if_pos ⟨rfl, hlo, hhi⟩, if_pos ⟨rfl, hlo, hhi⟩]
    rfl
  · have hlow : ¬ (size = 1 ∧ 16 ≤ reg ∧ reg < 20) := hhigh
    rw [if_neg hlow, aliasIndex, aliasShift, if_neg hhigh, if_neg hhigh, BitVec.ushiftRight_zero]

/-- A write of an alias. -/
theorem writeGpr_eq (c : Cpu) (reg : Nat) {size : Nat} (hsize : IsOpSize size) (v : U64) :
    c.writeGpr reg size v =
      c.setR (aliasIndex reg size)
        (aliasRest size (c.r (aliasIndex reg size) &&& ~~~aliasMask reg size) |||
          ((v <<< aliasShift reg size) &&& aliasMask reg size)) := by
  have hbyte : ((v &&& 0xFF) <<< 8) = (v <<< 8) &&& 0xFF00#64 := by
    rw [BitVec.shiftLeft_and_distrib]
    rfl
  by_cases hhigh : isHighByte reg size
  · obtain ⟨rfl, hlo, hhi⟩ := hhigh
    have h : isHighByte reg 1 := ⟨rfl, hlo, hhi⟩
    simp only [aliasMask, aliasIndex, aliasShift, if_pos h, aliasRest]
    change c.setR8 reg v = _
    rw [setR8, if_pos ⟨hlo, hhi⟩, hbyte]
    rfl
  · simp only [aliasMask, aliasIndex, aliasShift, if_neg hhigh, BitVec.shiftLeft_zero, aliasRest]
    rcases hsize with rfl | rfl | rfl | rfl
    · have hlow : ¬ (16 ≤ reg ∧ reg < 20) := fun h => hhigh ⟨rfl, h⟩
      change c.setR8 reg v = _
      rw [setR8, if_neg hlow]
      rfl
    · rfl
    · change c.setR32 reg v = _
      rw [setR32, if_pos rfl, BitVec.zero_or]
      rfl
    · change c.setR64 reg v = _
      rw [setR64, if_neg (by decide), show (maskFor 8) = BitVec.allOnes 64 from rfl,
        BitVec.not_allOnes, BitVec.and_zero, BitVec.zero_or, BitVec.and_allOnes]

theorem gpr_writeGpr_ne (c : Cpu) {reg size idx : Nat} (hsize : IsOpSize size) (v : U64)
    (h : idx ≠ aliasIndex reg size) : (c.writeGpr reg size v).r idx = c.r idx := by
  rw [writeGpr_eq c reg hsize, r_setR_ne c _ h]

/-- Outside the alias a write keeps the register, or clears it at 32 bits. -/
theorem rest_writeGpr (c : Cpu) (reg : Nat) {size : Nat} (hsize : IsOpSize size) (v : U64) :
    (c.writeGpr reg size v).r (aliasIndex reg size) &&& ~~~aliasMask reg size =
      aliasRest size (c.r (aliasIndex reg size) &&& ~~~aliasMask reg size) := by
  rw [writeGpr_eq c reg hsize, r_setR]
  unfold aliasRest
  split
  · rw [BitVec.zero_or, masked_rest]
  · exact merge_rest ..

/-- Writing `v` changes nothing exactly when the alias holds it already and, at 32 bits, the
upper half is clear. -/
theorem writeGpr_eq_self_iff (c : Cpu) (reg : Nat) {size : Nat} (hsize : IsOpSize size) (v : U64) :
    c.writeGpr reg size v = c ↔
      (v <<< aliasShift reg size) &&& aliasMask reg size =
          c.r (aliasIndex reg size) &&& aliasMask reg size ∧
        (size = 4 → c.r (aliasIndex reg size) &&& ~~~aliasMask reg size = 0#64) := by
  rw [writeGpr_eq c reg hsize, setR_eq_self_iff, aliasRest]
  by_cases h4 : size = 4
  · rw [if_pos h4, BitVec.zero_or]
    constructor
    · intro h
      rw [← h]
      refine ⟨?_, fun _ => masked_rest ..⟩
      rw [BitVec.and_assoc, BitVec.and_self]
    · rintro ⟨hpart, hrest⟩
      have hmerge := (merge_self (x := c.r (aliasIndex reg size)) (m := aliasMask reg size)).mpr
        hpart
      rwa [hrest h4, BitVec.zero_or] at hmerge
  · rw [if_neg h4, merge_self]
    exact ⟨fun h => ⟨h, fun h => absurd h h4⟩, fun h => h.1⟩

theorem shift_and_alias (x : U64) (reg : Nat) {size : Nat} :
    (((x >>> aliasShift reg size) &&& maskFor size) <<< aliasShift reg size) &&&
      aliasMask reg size = x &&& aliasMask reg size := by
  rw [BitVec.shiftLeft_and_distrib, aliasMask, BitVec.and_assoc, BitVec.and_self,
    BitVec.eq_of_getLsbD_eq_iff]
  intro i hi
  simp only [BitVec.getLsbD_and, BitVec.getLsbD_shiftLeft, BitVec.getLsbD_ushiftRight, hi,
    decide_true, Bool.true_and]
  by_cases hs : i < aliasShift reg size
  · simp [hs]
  · simp only [hs, decide_false, Bool.not_false, Bool.true_and]
    rw [Nat.add_sub_cancel' (by omega)]

/-- Writing an alias back to itself changes nothing, but that 32 bits clear the upper half. -/
theorem writeGpr_readGpr_iff (c : Cpu) (reg : Nat) {size : Nat} (hsize : IsOpSize size) :
    c.writeGpr reg size (c.readGpr reg size) = c ↔
      (size = 4 → c.r (aliasIndex reg size) &&& ~~~aliasMask reg size = 0#64) := by
  rw [writeGpr_eq_self_iff c reg hsize, readGpr_eq, shift_and_alias]
  exact ⟨fun h => h.2, fun h => ⟨rfl, h⟩⟩

end Cpu

end PicoCpu
