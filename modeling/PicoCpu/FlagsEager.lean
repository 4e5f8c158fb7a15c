import PicoCpu.Flags
import PicoCpu.Alu

/-!
The eager flag helpers and their agreement with the lazy path. The unit tests
compare the two on sampled operands and expect the same flags word; here the
comparison is made for every operation, width, operand, count and prior word.
-/

namespace PicoCpu

namespace Cpu

/-- Store a finished flags word; bit 1 is forced to one. -/
def commitEager (c : Cpu) (bits : U64) : Cpu :=
  { c with rflags_ := bits ||| Rflags.alwaysOne, ccOp := .eflags }

def setFlagsLogicalEager (c : Cpu) (size : Nat) (r : U64) : Cpu :=
  c.commitEager (applyZsp (c.rflags_ &&& ~~~Rflags.arithMask) size r)

def setFlagsAddEager (c : Cpu) (size : Nat) (a b r : U64) : Cpu :=
  let sb := signMask size
  let ma := a &&& maskFor size
  let mb := b &&& maskFor size
  let mr := r &&& maskFor size
  let bits := applyZsp c.rflags_ size r
  let bits := withBit bits Rflags.cf (mr.ult ma)
  let bits := withBit bits Rflags.of (((ma ^^^ mr) &&& (mb ^^^ mr)) &&& sb != 0)
  c.commitEager (withBit bits Rflags.af ((ma ^^^ mb ^^^ mr) &&& 0x10 != 0))

def setFlagsAdcEager (c : Cpu) (size : Nat) (a b : U64) (cin : Bool) (r : U64) : Cpu :=
  let sb := signMask size
  let ma := a &&& maskFor size
  let mb := b &&& maskFor size
  let mr := r &&& maskFor size
  let bits := applyZsp c.rflags_ size r
  let bits := withBit bits Rflags.cf (if cin then mr.ule ma else mr.ult ma)
  let bits := withBit bits Rflags.of (((ma ^^^ mr) &&& (mb ^^^ mr)) &&& sb != 0)
  c.commitEager (withBit bits Rflags.af ((ma ^^^ mb ^^^ mr) &&& 0x10 != 0))

def setFlagsSubEager (c : Cpu) (size : Nat) (a b r : U64) : Cpu :=
  let sb := signMask size
  let ma := a &&& maskFor size
  let mb := b &&& maskFor size
  let mr := r &&& maskFor size
  let bits := applyZsp c.rflags_ size r
  let bits := withBit bits Rflags.cf (ma.ult mb)
  let bits := withBit bits Rflags.of (((ma ^^^ mb) &&& (ma ^^^ mr)) &&& sb != 0)
  c.commitEager (withBit bits Rflags.af ((ma ^^^ mb ^^^ mr) &&& 0x10 != 0))

def setFlagsSbbEager (c : Cpu) (size : Nat) (a b : U64) (bin : Bool) (r : U64) : Cpu :=
  let sb := signMask size
  let ma := a &&& maskFor size
  let mb := b &&& maskFor size
  let mr := r &&& maskFor size
  let bits := applyZsp c.rflags_ size r
  let bits := withBit bits Rflags.cf (if bin then ma.ule mb else ma.ult mb)
  let bits := withBit bits Rflags.of (((ma ^^^ mb) &&& (ma ^^^ mr)) &&& sb != 0)
  c.commitEager (withBit bits Rflags.af ((ma ^^^ mb ^^^ mr) &&& 0x10 != 0))

def setFlagsIncEager (c : Cpu) (size : Nat) (prev r : U64) : Cpu :=
  let sb := signMask size
  let mp := prev &&& maskFor size
  let mr := r &&& maskFor size
  let bits := applyZsp c.rflags_ size r
  let bits := withBit bits Rflags.of ((mp == sb - 1) && (mr &&& sb != 0))
  c.commitEager (withBit bits Rflags.af ((mp ^^^ mr) &&& 0x10 != 0))

def setFlagsDecEager (c : Cpu) (size : Nat) (prev r : U64) : Cpu :=
  let sb := signMask size
  let mp := prev &&& maskFor size
  let mr := r &&& maskFor size
  let bits := applyZsp c.rflags_ size r
  let bits := withBit bits Rflags.of ((mp == sb) && (mr &&& sb == 0))
  c.commitEager (withBit bits Rflags.af ((mp ^^^ mr) &&& 0x10 != 0))

def setFlagsNegEager (c : Cpu) (size : Nat) (src r : U64) : Cpu :=
  let ms := src &&& maskFor size
  let mr := r &&& maskFor size
  let bits := applyZsp c.rflags_ size r
  let bits := withBit bits Rflags.cf (ms != 0)
  let bits := withBit bits Rflags.of (ms == signMask size)
  c.commitEager (withBit bits Rflags.af ((ms ||| mr) &&& 0x10 != 0))

def setFlagsShlEager (c : Cpu) (size : Nat) (src : U64) (count : Nat) (r : U64) : Cpu :=
  if count = 0 then c
  else
    let width := size * 8
    let bits := applyZsp c.rflags_ size r
    let cf := if count ≤ width then bitAt src (width - count) else false
    let bits := withBit bits Rflags.cf cf
    let bits := if count = 1 then
        withBit bits Rflags.of ((r &&& signMask size != 0) != cf)
      else bits
    c.commitEager (withBit bits Rflags.af false)

def setFlagsShrEager (c : Cpu) (size : Nat) (src : U64) (count : Nat) (r : U64) : Cpu :=
  if count = 0 then c
  else
    let width := size * 8
    let bits := applyZsp c.rflags_ size r
    let cf := if count ≤ width then bitAt src (count - 1) else false
    let bits := withBit bits Rflags.cf cf
    let bits := if count = 1 then
        withBit bits Rflags.of (src &&& signMask size != 0)
      else bits
    c.commitEager (withBit bits Rflags.af false)

def setFlagsSarEager (c : Cpu) (size : Nat) (src : U64) (count : Nat) (r : U64) : Cpu :=
  if count = 0 then c
  else
    let width := size * 8
    let bits := applyZsp c.rflags_ size r
    let cf := if count ≤ width then bitAt src (count - 1)
      else src &&& signMask size != 0
    let bits := withBit bits Rflags.cf cf
    let bits := if count = 1 then withBit bits Rflags.of false else bits
    c.commitEager (withBit bits Rflags.af false)

def setFlagsRolEager (c : Cpu) (size : Nat) (count : Nat) (r : U64) : Cpu :=
  if count &&& (size * 8 - 1) = 0 then c
  else
    let cf := r &&& 1 != 0
    let bits := withBit c.rflags_ Rflags.cf cf
    let bits := if count = 1 then
        withBit bits Rflags.of ((r &&& signMask size != 0) != cf)
      else bits
    c.commitEager bits

def setFlagsRorEager (c : Cpu) (size : Nat) (count : Nat) (r : U64) : Cpu :=
  if count &&& (size * 8 - 1) = 0 then c
  else
    let sb := signMask size
    let cf := r &&& sb != 0
    let bits := withBit c.rflags_ Rflags.cf cf
    let bits := if count = 1 then
        withBit bits Rflags.of ((r &&& sb != 0) != (r &&& (sb >>> 1) != 0))
      else bits
    c.commitEager bits

end Cpu

/-! ### The operations that have both paths -/

/-- A flag-setting operation with its operands; shift and rotate counts are the raw
count byte, before masking. -/
inductive FlagOp where
  | logic (r : U64)
  | add (a b : U64)
  | adc (a b : U64) (cin : Bool)
  | sub (a b : U64)
  | sbb (a b : U64) (bin : Bool)
  | inc (a : U64)
  | dec (a : U64)
  | neg (a : U64)
  | shl (a : U64) (count : U8)
  | shr (a : U64) (count : U8)
  | sar (a : U64) (count : U8)
  | rol (a : U64) (count : U8)
  | ror (a : U64) (count : U8)

namespace FlagOp

/-- The lazy path: stash the operation with the result its handler computes. -/
def stash (size : Nat) : FlagOp → Cpu → Cpu
  | .logic r, c => c.stashLogic size r
  | .add a b, c => c.stashAdd size b (addResult size a b)
  | .adc a b cin, c => c.stashAdc size b cin (adcResult size a b cin)
  | .sub a b, c => c.stashSub size b (subResult size a b)
  | .sbb a b bin, c => c.stashSbb size b bin (sbbResult size a b bin)
  | .inc a, c => c.stashInc size (incResult size a)
  | .dec a, c => c.stashDec size (decResult size a)
  | .neg a, c => c.stashNeg size a (negResult size a)
  | .shl a n, c => c.stashShl size a (maskedCount size n) (shlResult size a (maskedCount size n))
  | .shr a n, c => c.stashShr size a (maskedCount size n) (shrResult size a (maskedCount size n))
  | .sar a n, c => c.stashSar size a (maskedCount size n) (sarResult size a (maskedCount size n))
  | .rol a n, c => c.stashRol size a (maskedCount size n) (rolResult size a (maskedCount size n))
  | .ror a n, c => c.stashRor size a (maskedCount size n) (rorResult size a (maskedCount size n))

/-- The eager path on the same operands and result. -/
def eager (size : Nat) : FlagOp → Cpu → Cpu
  | .logic r, c => c.setFlagsLogicalEager size r
  | .add a b, c => c.setFlagsAddEager size a b (addResult size a b)
  | .adc a b cin, c => c.setFlagsAdcEager size a b cin (adcResult size a b cin)
  | .sub a b, c => c.setFlagsSubEager size a b (subResult size a b)
  | .sbb a b bin, c => c.setFlagsSbbEager size a b bin (sbbResult size a b bin)
  | .inc a, c => c.setFlagsIncEager size a (incResult size a)
  | .dec a, c => c.setFlagsDecEager size a (decResult size a)
  | .neg a, c => c.setFlagsNegEager size a (negResult size a)
  | .shl a n, c =>
      c.setFlagsShlEager size a (maskedCount size n) (shlResult size a (maskedCount size n))
  | .shr a n, c =>
      c.setFlagsShrEager size a (maskedCount size n) (shrResult size a (maskedCount size n))
  | .sar a n, c =>
      c.setFlagsSarEager size a (maskedCount size n) (sarResult size a (maskedCount size n))
  | .rol a n, c =>
      c.setFlagsRolEager size (maskedCount size n) (rolResult size a (maskedCount size n))
  | .ror a n, c =>
      c.setFlagsRorEager size (maskedCount size n) (rorResult size a (maskedCount size n))

/-- Where the two paths agree. A shift by two or more needs OF clear beforehand: the
lazy path clears it, the eager path keeps it. A rotation by a nonzero multiple of the
width needs CF to hold already the bit the rotation leaves in place at the end it
would be copied from: the lazy path copies it, the eager path returns early. -/
def AgreesFrom (size : Nat) (c : Cpu) : FlagOp → Prop
  | .shl _ n | .shr _ n | .sar _ n => 2 ≤ maskedCount size n → c.rflags_ &&& Rflags.of = 0
  | .rol a n => maskedCount size n ≠ 0 → maskedCount size n &&& (size * 8 - 1) = 0 →
      (c.rflags_ &&& Rflags.cf ≠ 0 ↔ a &&& 1 ≠ 0)
  | .ror a n => maskedCount size n ≠ 0 → maskedCount size n &&& (size * 8 - 1) = 0 →
      (c.rflags_ &&& Rflags.cf ≠ 0 ↔ a &&& signMask size ≠ 0)
  | _ => True

end FlagOp

/-! ### Recovered operands -/

section Recovery

variable {size : Nat} (hsize : IsOpSize size)
include hsize

theorem recover_add (a b : U64) :
    (addResult size a b &&& maskFor size) - (b &&& maskFor size) &&& maskFor size =
      a &&& maskFor size := by
  rw [addResult, and_maskFor_idem, masked_sub_left size hsize, masked_sub_right size hsize,
    BitVec.add_sub_cancel]

theorem recover_adc (a b : U64) (cin : Bool) :
    ((adcResult size a b cin &&& maskFor size) - (b &&& maskFor size) -
      (if cin then 1 else 0)) &&& maskFor size = a &&& maskFor size := by
  generalize hc : (if cin then 1 else 0 : U64) = carry
  have hreorder (x y : U64) : x - y - carry = x - carry - y := by
    rw [BitVec.sub_sub, BitVec.sub_sub, BitVec.add_comm]
  rw [adcResult, hc, and_maskFor_idem, hreorder, masked_sub_right size hsize, ← hreorder,
    BitVec.sub_sub, masked_sub_left size hsize, BitVec.add_assoc, BitVec.add_sub_cancel]

theorem recover_sub (a b : U64) :
    ((subResult size a b &&& maskFor size) + (b &&& maskFor size)) &&& maskFor size =
      a &&& maskFor size := by
  rw [subResult, and_maskFor_idem, masked_add_left size hsize, masked_add_right size hsize,
    BitVec.sub_add_cancel]

theorem recover_sbb (a b : U64) (bin : Bool) :
    ((sbbResult size a b bin &&& maskFor size) + (b &&& maskFor size) +
      (if bin then 1 else 0)) &&& maskFor size = a &&& maskFor size := by
  generalize hc : (if bin then 1 else 0 : U64) = borrow
  have hreorder (x y : U64) : x + y + borrow = x + borrow + y := by
    rw [BitVec.add_assoc, BitVec.add_assoc, BitVec.add_comm y]
  rw [sbbResult, hc, and_maskFor_idem, hreorder, masked_add_right size hsize, ← hreorder,
    BitVec.add_assoc, masked_add_left size hsize, BitVec.sub_sub, BitVec.sub_add_cancel]

theorem recover_inc (a : U64) :
    ((incResult size a &&& maskFor size) - 1) &&& maskFor size = a &&& maskFor size := by
  rw [incResult, and_maskFor_idem, masked_sub_left size hsize, BitVec.add_sub_cancel]

theorem recover_dec (a : U64) :
    ((decResult size a &&& maskFor size) + 1) &&& maskFor size = a &&& maskFor size := by
  rw [decResult, and_maskFor_idem, masked_add_left size hsize, BitVec.sub_add_cancel]

/-- The carry of a sum can be read against either operand. -/
theorem carry_adc_comm (a b : U64) (cin : Bool) :
    (if cin then (adcResult size a b cin &&& maskFor size).ule (b &&& maskFor size)
      else (adcResult size a b cin &&& maskFor size).ult (b &&& maskFor size)) =
    (if cin then (adcResult size a b cin &&& maskFor size).ule (a &&& maskFor size)
      else (adcResult size a b cin &&& maskFor size).ult (a &&& maskFor size)) := by
  have hzero : (0 : U64).toNat = 0 := rfl
  have hone : (1 : U64).toNat = 1 := rfl
  cases cin
  · rw [if_neg Bool.false_ne_true, if_neg Bool.false_ne_true, BitVec.ult, BitVec.ult,
      decide_eq_decide]
    simp only [adcResult, and_maskFor_idem, BitVec.toNat_add, hzero,
      toNat_and_maskFor size hsize, Bool.false_eq_true, if_false]
    rcases hsize with rfl | rfl | rfl | rfl <;> omega
  · rw [if_pos rfl, if_pos rfl, BitVec.ule, BitVec.ule, decide_eq_decide]
    simp only [adcResult, and_maskFor_idem, BitVec.toNat_add, hone,
      toNat_and_maskFor size hsize, if_true]
    rcases hsize with rfl | rfl | rfl | rfl <;> omega

theorem carry_add_comm (a b : U64) :
    (addResult size a b &&& maskFor size).ult (b &&& maskFor size) =
      (addResult size a b &&& maskFor size).ult (a &&& maskFor size) := by
  have hsum : adcResult size a b false = addResult size a b := by
    rw [adcResult, addResult, if_neg Bool.false_ne_true, show a + b + (0 : U64) = a + b from
      BitVec.add_zero _]
  have h := carry_adc_comm hsize a b false
  rwa [hsum] at h

end Recovery

/-! ### Comparing flags words -/

/-- Two words read the same as RFLAGS when they agree outside the synchronised bits and
on the six flags. -/
theorem rflags_eq_iff (x y : U64) :
    x ||| Rflags.alwaysOne = y ||| Rflags.alwaysOne ↔
      x &&& ~~~Cpu.syncMask = y &&& ~~~Cpu.syncMask ∧ arithFlags x = arithFlags y := by
  have hone (i : Nat) : Rflags.alwaysOne.getLsbD i = decide (i = 1) :=
    getLsbD_one_shiftLeft 1 i (by omega)
  have hmask (i : Nat) (hi : i < 64) : Cpu.syncMask.getLsbD i =
      decide (i = 0 ∨ i = 1 ∨ i = 2 ∨ i = 4 ∨ i = 6 ∨ i = 7 ∨ i = 11) := by
    revert i
    decide
  simp only [arithFlags, ArithFlags.mk.injEq]
  constructor
  · intro h
    have hbit (i : Nat) (hi : i ≠ 1) : x.getLsbD i = y.getLsbD i := by
      have := congrArg (fun z => z.getLsbD i) h
      simpa [hone, hi] using this
    refine ⟨?_, hbit 0 (by omega), hbit 2 (by omega), hbit 4 (by omega), hbit 6 (by omega),
      hbit 7 (by omega), hbit 11 (by omega)⟩
    apply BitVec.eq_of_getLsbD_eq
    intro i hi
    rw [BitVec.getLsbD_and, BitVec.getLsbD_and]
    by_cases h1 : i = 1
    · subst h1
      rw [BitVec.getLsbD_not, hmask 1 hi]
      simp
    · rw [hbit i h1]
  · rintro ⟨hout, h0, h2, h4, h6, h7, h11⟩
    apply BitVec.eq_of_getLsbD_eq
    intro i hi
    rw [BitVec.getLsbD_or, BitVec.getLsbD_or, hone]
    by_cases hin : i = 0 ∨ i = 1 ∨ i = 2 ∨ i = 4 ∨ i = 6 ∨ i = 7 ∨ i = 11
    · rcases hin with rfl | rfl | rfl | rfl | rfl | rfl | rfl
      · rw [h0]
      · simp
      · rw [h2]
      · rw [h4]
      · rw [h6]
      · rw [h7]
      · rw [h11]
    · have := congrArg (fun z => z.getLsbD i) hout
      simp only [BitVec.getLsbD_and, BitVec.getLsbD_not, hmask i hi, hin, hi, decide_true,
        decide_false, Bool.not_false, Bool.and_true] at this
      rw [this]

/-- Writing one of the six flags touches nothing outside the synchronised bits. -/
theorem withBit_outside (bits mask : U64) (on : Bool)
    (hmask : mask ∈ [Rflags.cf, Rflags.pf, Rflags.af, Rflags.zf, Rflags.sf, Rflags.of]) :
    withBit bits mask on &&& ~~~Cpu.syncMask = bits &&& ~~~Cpu.syncMask := by
  have hin : mask &&& ~~~Cpu.syncMask = 0 ∧ ~~~mask &&& ~~~Cpu.syncMask = ~~~Cpu.syncMask := by
    simp only [List.mem_cons, List.not_mem_nil, or_false] at hmask
    rcases hmask with rfl | rfl | rfl | rfl | rfl | rfl <;> decide
  have hclear : bits &&& ~~~mask &&& ~~~Cpu.syncMask = bits &&& ~~~Cpu.syncMask := by
    rw [BitVec.and_assoc, hin.2]
  cases on
  · exact hclear
  · have hset : (bits &&& ~~~mask ||| mask) &&& ~~~Cpu.syncMask =
        (bits &&& ~~~mask &&& ~~~Cpu.syncMask) ||| (mask &&& ~~~Cpu.syncMask) := by
      apply BitVec.eq_of_getLsbD_eq
      intro i _
      simp only [BitVec.getLsbD_and, BitVec.getLsbD_or, Bool.and_or_distrib_right]
    rw [withBit, if_pos rfl, hset, hclear, hin.1]
    exact BitVec.or_zero

section Sync

variable (c : Cpu)

/-- Bits outside the synchronised ones survive a stash and a later read. -/
theorem syncFlags_outside :
    c.syncFlags.rflags_ &&& ~~~Cpu.syncMask = c.rflags_ &&& ~~~Cpu.syncMask := by
  unfold Cpu.syncFlags
  split
  · rfl
  · apply BitVec.eq_of_getLsbD_eq
    intro i hi
    simp only [BitVec.getLsbD_and, BitVec.getLsbD_or, BitVec.getLsbD_not]
    cases Cpu.syncMask.getLsbD i <;> simp

/-- The flags read lazily are the recomputed ones. -/
theorem arithFlags_syncFlags : arithFlags c.syncFlags.rflags_ = arithFlags c.syncBits := by
  unfold Cpu.syncFlags
  split
  · rename_i h
    simp [Cpu.syncBits, h]
  · have hbit (i : Nat) (hi : Cpu.syncMask.getLsbD i = true) :
        ((c.rflags_ &&& ~~~Cpu.syncMask) ||| (c.syncBits &&& Cpu.syncMask)).getLsbD i =
          c.syncBits.getLsbD i := by
      rw [BitVec.getLsbD_or, BitVec.getLsbD_and, BitVec.getLsbD_and, BitVec.getLsbD_not, hi]
      simp
    simp only [arithFlags, hbit _ (by decide : Cpu.syncMask.getLsbD 0 = true),
      hbit _ (by decide : Cpu.syncMask.getLsbD 2 = true),
      hbit _ (by decide : Cpu.syncMask.getLsbD 4 = true),
      hbit _ (by decide : Cpu.syncMask.getLsbD 6 = true),
      hbit _ (by decide : Cpu.syncMask.getLsbD 7 = true),
      hbit _ (by decide : Cpu.syncMask.getLsbD 11 = true)]

/-- The RFLAGS comparison of the cross-check: the pending operation must give the six
flags of the eagerly written word. -/
theorem rflags_eq_commit_iff (bits : U64) (c' : Cpu) (hword : c.rflags_ = c'.rflags_)
    (hkeep : bits &&& ~~~Cpu.syncMask = c'.rflags_ &&& ~~~Cpu.syncMask) :
    c.rflags = (c'.commitEager bits).rflags ↔ arithFlags c.syncBits = arithFlags bits := by
  have heager : (c'.commitEager bits).rflags = bits ||| Rflags.alwaysOne := by
    simp [Cpu.rflags, Cpu.commitEager, Cpu.syncFlags, BitVec.or_assoc]
  rw [heager, Cpu.rflags, rflags_eq_iff, syncFlags_outside, hword, hkeep, arithFlags_syncFlags]
  exact and_iff_right rfl

end Sync

/-! ### Agreement of the two paths -/

/-- The carry that INC and DEC stash is the one of the flag word. -/
theorem kept_carry {c : Cpu} (hsync : c.ccOp = .eflags) :
    ((if c.cf then 1 else 0 : U64) != 0) = (arithFlags c.rflags_).cf := by
  rw [arithFlags, ← and_shl_bne_zero c.rflags_ 0 (by omega), Cpu.cf, Cpu.flag,
    Cpu.syncFlags_of_eflags hsync, Rflags.cf]
  cases c.rflags_ &&& 1#64 <<< 0 != 0 <;> rfl

section Agreement

variable {size : Nat} (hsize : IsOpSize size) (c : Cpu)

theorem logic_agrees (r : U64) :
    (c.stashLogic size r).rflags = (c.setFlagsLogicalEager size r).rflags := by
  have hclear (b : U64) : arithFlags (b &&& ~~~Rflags.arithMask) = arithFlags Rflags.alwaysOne := by
    have hbit (i : Nat) (hi : Rflags.arithMask.getLsbD i = true) :
        (b &&& ~~~Rflags.arithMask).getLsbD i = false := by
      rw [BitVec.getLsbD_and, BitVec.getLsbD_not, hi]
      simp
    rw [arithFlags, hbit 0 (by decide), hbit 2 (by decide), hbit 4 (by decide),
      hbit 6 (by decide), hbit 7 (by decide), hbit 11 (by decide)]
    rfl
  have hmask : ~~~Rflags.arithMask &&& ~~~Cpu.syncMask = ~~~Cpu.syncMask := by decide
  refine (rflags_eq_commit_iff (c.stashLogic size r) _ c rfl
    (by simp [applyZsp_eq, withBit_outside, BitVec.and_assoc, hmask])).mpr ?_
  simp [Cpu.syncBits, Cpu.stashLogic, Cpu.stash, computeLogic, applyZsp_eq, hclear]

include hsize

theorem add_agrees (a b : U64) :
    (c.stashAdd size b (addResult size a b)).rflags =
      (c.setFlagsAddEager size a b (addResult size a b)).rflags := by
  refine (rflags_eq_commit_iff (c.stashAdd size b _) _ c rfl
    (by simp [applyZsp_eq, withBit_outside])).mpr ?_
  simp only [Cpu.syncBits, Cpu.stashAdd, Cpu.stash, computeAdd, recover_add hsize,
    carry_add_comm hsize]
  simp

theorem adc_agrees (a b : U64) (cin : Bool) :
    (c.stashAdc size b cin (adcResult size a b cin)).rflags =
      (c.setFlagsAdcEager size a b cin (adcResult size a b cin)).rflags := by
  have hcin : ((if cin then 1 else 0 : U64) != 0) = cin := by cases cin <;> rfl
  refine (rflags_eq_commit_iff (c.stashAdc size b cin _) _ c rfl
    (by simp [applyZsp_eq, withBit_outside])).mpr ?_
  simp only [Cpu.syncBits, Cpu.stashAdc, Cpu.stash, computeAdc, hcin, recover_adc hsize,
    carry_adc_comm hsize]
  simp

theorem sub_agrees (a b : U64) :
    (c.stashSub size b (subResult size a b)).rflags =
      (c.setFlagsSubEager size a b (subResult size a b)).rflags := by
  refine (rflags_eq_commit_iff (c.stashSub size b _) _ c rfl
    (by simp [applyZsp_eq, withBit_outside])).mpr ?_
  simp only [Cpu.syncBits, Cpu.stashSub, Cpu.stash, computeSub, recover_sub hsize]
  simp

theorem sbb_agrees (a b : U64) (bin : Bool) :
    (c.stashSbb size b bin (sbbResult size a b bin)).rflags =
      (c.setFlagsSbbEager size a b bin (sbbResult size a b bin)).rflags := by
  have hbin : ((if bin then 1 else 0 : U64) != 0) = bin := by cases bin <;> rfl
  refine (rflags_eq_commit_iff (c.stashSbb size b bin _) _ c rfl
    (by simp [applyZsp_eq, withBit_outside])).mpr ?_
  simp only [Cpu.syncBits, Cpu.stashSbb, Cpu.stash, computeSbb, hbin, recover_sbb hsize]
  simp

theorem inc_agrees (a : U64) (hsync : c.ccOp = .eflags) :
    (c.stashInc size (incResult size a)).rflags =
      (c.setFlagsIncEager size a (incResult size a)).rflags := by
  have hid := Cpu.syncFlags_of_eflags hsync
  have hcf := kept_carry hsync
  refine (rflags_eq_commit_iff (c.stashInc size _) _ c (by rw [Cpu.stashInc, hid]; rfl)
    (by simp [applyZsp_eq, withBit_outside])).mpr ?_
  simp only [Cpu.syncBits, Cpu.stashInc, Cpu.stash, computeInc, hcf, recover_inc hsize]
  simp

theorem dec_agrees (a : U64) (hsync : c.ccOp = .eflags) :
    (c.stashDec size (decResult size a)).rflags =
      (c.setFlagsDecEager size a (decResult size a)).rflags := by
  have hid := Cpu.syncFlags_of_eflags hsync
  have hcf := kept_carry hsync
  refine (rflags_eq_commit_iff (c.stashDec size _) _ c (by rw [Cpu.stashDec, hid]; rfl)
    (by simp [applyZsp_eq, withBit_outside])).mpr ?_
  simp only [Cpu.syncBits, Cpu.stashDec, Cpu.stash, computeDec, hcf, recover_dec hsize]
  simp

omit hsize in
theorem neg_agrees (a : U64) :
    (c.stashNeg size a (negResult size a)).rflags =
      (c.setFlagsNegEager size a (negResult size a)).rflags := by
  refine (rflags_eq_commit_iff (c.stashNeg size a _) _ c rfl
    (by simp [applyZsp_eq, withBit_outside])).mpr ?_
  simp only [Cpu.syncBits, Cpu.stashNeg, Cpu.stash, computeNeg]
  simp

end Agreement

theorem of_clear_iff (x : U64) : x &&& Rflags.of = 0 ↔ (arithFlags x).of = false := by
  rw [arithFlags, ← and_shl_bne_zero x 11 (by omega), bne_eq_false_iff_eq, Rflags.of]

theorem cf_set_iff (x : U64) : x &&& Rflags.cf ≠ 0 ↔ (arithFlags x).cf = true := by
  rw [arithFlags, ← and_shl_bne_zero x 0 (by omega), bne_iff_ne, Rflags.cf]

/-- The word both shift paths write, over a base word: ZSP and CF from the result, OF only
for a shift by one. -/
def shiftWord (base : U64) (size : Nat) (r : U64) (n : Nat) (cf of : Bool) : U64 :=
  let bits := withBit (applyZsp base size r) Rflags.cf cf
  if n = 1 then withBit bits Rflags.of of else bits

theorem shiftWord_agrees_iff (w : U64) (size : Nat) (r : U64) (n : Nat) (cf of : Bool)
    (hn : n ≠ 0) :
    arithFlags (shiftWord Rflags.alwaysOne size r n cf of) =
        arithFlags (withBit (shiftWord w size r n cf of) Rflags.af false) ↔
      (2 ≤ n → w &&& Rflags.of = 0) := by
  rw [of_clear_iff]
  by_cases h1 : n = 1
  · simp [shiftWord, h1]
  · have htwo : 2 ≤ n := by omega
    simp only [shiftWord, h1, if_false, arithFlags_withBit_af, arithFlags_withBit_cf,
      arithFlags_applyZsp, arithFlags_alwaysOne, ArithFlags.mk.injEq, htwo, true_and, forall_const]
    exact eq_comm

/-- The words that the stashed shifts leave to be read. -/
theorem syncBits_stashShl {size : Nat} (c : Cpu) (a r : U64) {n : Nat} (h0 : n ≠ 0) (hn : n < 64) :
    (c.stashShl size a n r).syncBits =
      shiftWord Rflags.alwaysOne size r n (if n ≤ size * 8 then bitAt a (size * 8 - n) else false)
        ((r &&& signMask size != 0) !=
          if n ≤ size * 8 then bitAt a (size * 8 - n) else false) := by
  have hbyte : n % 256 = n := Nat.mod_eq_of_lt (by omega)
  simp [Cpu.syncBits, Cpu.stashShl, Cpu.stashShift, Cpu.stash, computeShl, shiftWord, h0, hbyte]

theorem syncBits_stashShr {size : Nat} (c : Cpu) (a r : U64) {n : Nat} (h0 : n ≠ 0) (hn : n < 64) :
    (c.stashShr size a n r).syncBits =
      shiftWord Rflags.alwaysOne size r n (if n ≤ size * 8 then bitAt a (n - 1) else false)
        (a &&& signMask size != 0) := by
  have hbyte : n % 256 = n := Nat.mod_eq_of_lt (by omega)
  simp [Cpu.syncBits, Cpu.stashShr, Cpu.stashShift, Cpu.stash, computeShr, shiftWord, h0, hbyte]

theorem syncBits_stashSar {size : Nat} (c : Cpu) (a r : U64) {n : Nat} (h0 : n ≠ 0) (hn : n < 64) :
    (c.stashSar size a n r).syncBits =
      shiftWord Rflags.alwaysOne size r n
        (if n ≤ size * 8 then bitAt a (n - 1) else a &&& signMask size != 0) false := by
  have hbyte : n % 256 = n := Nat.mod_eq_of_lt (by omega)
  simp [Cpu.syncBits, Cpu.stashSar, Cpu.stashShift, Cpu.stash, computeSar, shiftWord, h0, hbyte]

/-- A stashed shift against the eager word over the prior flags. -/
theorem stashShift_agrees_iff {size : Nat} (c : Cpu) (op : CcOp) (a r : U64) (n : Nat)
    (cf of : Bool) (hn : n ≠ 0)
    (hbits : (c.stashShift op size a n r).syncBits =
      shiftWord Rflags.alwaysOne size r n cf of) :
    (c.stashShift op size a n r).rflags =
        (c.commitEager (withBit (shiftWord c.rflags_ size r n cf of) Rflags.af false)).rflags ↔
      (2 ≤ n → c.rflags_ &&& Rflags.of = 0) := by
  have hword : (c.stashShift op size a n r).rflags_ = c.rflags_ := by
    rw [Cpu.stashShift, if_neg hn]
    rfl
  have hkeep : withBit (shiftWord c.rflags_ size r n cf of) Rflags.af false &&& ~~~Cpu.syncMask =
      c.rflags_ &&& ~~~Cpu.syncMask := by
    by_cases h1 : n = 1 <;> simp [shiftWord, h1, applyZsp_eq, withBit_outside]
  rw [rflags_eq_commit_iff _ _ c hword hkeep, hbits, shiftWord_agrees_iff _ _ _ _ _ _ hn]

section Shifts

variable {size : Nat} (c : Cpu) (a r : U64) {n : Nat} (hn : n < 64)
include hn

theorem shl_agrees_iff :
    (c.stashShl size a n r).rflags = (c.setFlagsShlEager size a n r).rflags ↔
      (2 ≤ n → c.rflags_ &&& Rflags.of = 0) := by
  by_cases h0 : n = 0
  · simp [h0, Cpu.stashShl, Cpu.stashShift, Cpu.setFlagsShlEager]
  · rw [Cpu.setFlagsShlEager, if_neg h0]
    exact stashShift_agrees_iff c .shl a r n _ _ h0 (syncBits_stashShl c a r h0 hn)

theorem shr_agrees_iff :
    (c.stashShr size a n r).rflags = (c.setFlagsShrEager size a n r).rflags ↔
      (2 ≤ n → c.rflags_ &&& Rflags.of = 0) := by
  by_cases h0 : n = 0
  · simp [h0, Cpu.stashShr, Cpu.stashShift, Cpu.setFlagsShrEager]
  · rw [Cpu.setFlagsShrEager, if_neg h0]
    exact stashShift_agrees_iff c .shr a r n _ _ h0 (syncBits_stashShr c a r h0 hn)

theorem sar_agrees_iff :
    (c.stashSar size a n r).rflags = (c.setFlagsSarEager size a n r).rflags ↔
      (2 ≤ n → c.rflags_ &&& Rflags.of = 0) := by
  by_cases h0 : n = 0
  · simp [h0, Cpu.stashSar, Cpu.stashShift, Cpu.setFlagsSarEager]
  · rw [Cpu.setFlagsSarEager, if_neg h0]
    exact stashShift_agrees_iff c .sar a r n _ false h0 (syncBits_stashSar c a r h0 hn)

end Shifts

/-- The word both rotation paths write over the prior flags: CF, and OF for a rotation by
one. -/
def rotateWord (w : U64) (n : Nat) (cf of : Bool) : U64 :=
  let bits := withBit w Rflags.cf cf
  if n = 1 then withBit bits Rflags.of of else bits

theorem arithFlags_or_alwaysOne (x : U64) : arithFlags (x ||| Rflags.alwaysOne) = arithFlags x := by
  have hone (i : Nat) : Rflags.alwaysOne.getLsbD i = decide (i = 1) :=
    getLsbD_one_shiftLeft 1 i (by omega)
  simp only [arithFlags, BitVec.getLsbD_or, hone]
  simp

/-- A stashed rotation against the eager path, which returns early when the rotation is by
a multiple of the width. -/
theorem stashRotate_agrees_iff {size : Nat} (c : Cpu) (op : CcOp) (a r : U64) (n : Nat) (cf of : Bool)
    (hsize : IsOpSize size) (hsync : c.ccOp = .eflags) (hn : n ≠ 0)
    (hbits : (c.stashRotate op size a n r).syncBits =
      rotateWord c.rflags_ n cf of ||| Rflags.alwaysOne) :
    (c.stashRotate op size a n r).rflags =
        (if n &&& (size * 8 - 1) = 0 then c
          else c.commitEager (rotateWord c.rflags_ n cf of)).rflags ↔
      (n &&& (size * 8 - 1) = 0 → (c.rflags_ &&& Rflags.cf ≠ 0 ↔ cf = true)) := by
  have hword : (c.stashRotate op size a n r).rflags_ = c.rflags_ := by
    have hid := Cpu.syncFlags_of_eflags hsync
    rw [Cpu.stashRotate, if_neg (fun h => hn h.2), hid]
    rfl
  have hself : c.rflags = (c.commitEager c.rflags_).rflags := by
    simp [Cpu.rflags, Cpu.commitEager, Cpu.syncFlags, hsync, BitVec.or_assoc]
  by_cases hmod : n &&& (size * 8 - 1) = 0
  · have h1 : n ≠ 1 := by
      rintro rfl
      rcases hsize with rfl | rfl | rfl | rfl <;> exact absurd hmod (by decide)
    rw [if_pos hmod, hself, rflags_eq_commit_iff _ _ c hword rfl, hbits, arithFlags_or_alwaysOne,
      cf_set_iff, rotateWord, if_neg h1, arithFlags_withBit_cf]
    simp only [hmod, forall_const, Bool.coe_iff_coe]
    constructor
    · intro h
      exact (congrArg ArithFlags.cf h).symm
    · intro h
      rw [← h]
  · have hkeep : rotateWord c.rflags_ n cf of &&& ~~~Cpu.syncMask =
        c.rflags_ &&& ~~~Cpu.syncMask := by
      by_cases h1 : n = 1 <;> simp [rotateWord, h1, withBit_outside]
    rw [if_neg hmod, rflags_eq_commit_iff _ _ c hword hkeep, hbits, arithFlags_or_alwaysOne]
    simp only [hmod, false_implies]

/-- The words that the stashed rotations leave to be read, over the flags synchronised before. -/
theorem syncBits_stashRol {size : Nat} (c : Cpu) (a r : U64) {n : Nat} (h0 : n ≠ 0) (hn : n < 64) :
    (c.stashRol size a n r).syncBits =
      rotateWord c.syncFlags.rflags_ n (r &&& 1 != 0)
        ((r &&& signMask size != 0) != (r &&& 1 != 0)) ||| Rflags.alwaysOne := by
  have hbyte : n % 256 = n := Nat.mod_eq_of_lt (by omega)
  simp [Cpu.syncBits, Cpu.stashRol, Cpu.stashRotate, Cpu.stash, computeRol, rotateWord, h0, hbyte]

theorem syncBits_stashRor {size : Nat} (c : Cpu) (a r : U64) {n : Nat} (h0 : n ≠ 0) (hn : n < 64) :
    (c.stashRor size a n r).syncBits =
      rotateWord c.syncFlags.rflags_ n (r &&& signMask size != 0)
        ((r &&& signMask size != 0) != (r &&& (signMask size >>> 1) != 0)) |||
          Rflags.alwaysOne := by
  have hbyte : n % 256 = n := Nat.mod_eq_of_lt (by omega)
  simp [Cpu.syncBits, Cpu.stashRor, Cpu.stashRotate, Cpu.stash, computeRor, rotateWord, h0, hbyte]

section Rotations

variable {size : Nat} (c : Cpu) (hsize : IsOpSize size) (a r : U64) {n : Nat} (hn : n < 64)
  (hsync : c.ccOp = .eflags)
include hsize hn hsync

theorem rol_agrees_iff :
    (c.stashRol size a n r).rflags = (c.setFlagsRolEager size n r).rflags ↔
      (n ≠ 0 → n &&& (size * 8 - 1) = 0 → (c.rflags_ &&& Rflags.cf ≠ 0 ↔ r &&& 1 ≠ 0)) := by
  have hid := Cpu.syncFlags_of_eflags hsync
  by_cases h0 : n = 0
  · simp [h0, Cpu.stashRol, Cpu.stashRotate, Cpu.setFlagsRolEager]
  · have h := stashRotate_agrees_iff c .rol a r n (r &&& 1 != 0)
      ((r &&& signMask size != 0) != (r &&& 1 != 0)) hsize hsync h0
      (by rw [← congrArg Cpu.rflags_ hid]; exact syncBits_stashRol c a r h0 hn)
    rw [bne_iff_ne] at h
    exact h.trans ⟨fun h' _ => h', fun h' => h' h0⟩

theorem ror_agrees_iff :
    (c.stashRor size a n r).rflags = (c.setFlagsRorEager size n r).rflags ↔
      (n ≠ 0 → n &&& (size * 8 - 1) = 0 →
        (c.rflags_ &&& Rflags.cf ≠ 0 ↔ r &&& signMask size ≠ 0)) := by
  have hid := Cpu.syncFlags_of_eflags hsync
  by_cases h0 : n = 0
  · simp [h0, Cpu.stashRor, Cpu.stashRotate, Cpu.setFlagsRorEager]
  · have h := stashRotate_agrees_iff c .ror a r n (r &&& signMask size != 0)
      ((r &&& signMask size != 0) != (r &&& (signMask size >>> 1) != 0)) hsize hsync h0
      (by rw [← congrArg Cpu.rflags_ hid]; exact syncBits_stashRor c a r h0 hn)
    rw [bne_iff_ne] at h
    exact h.trans ⟨fun h' _ => h', fun h' => h' h0⟩

end Rotations

theorem maskedCount_lt (size : Nat) (count : U8) : maskedCount size count < 64 := by
  have hmask : shiftCountMask size < 64 := by
    unfold shiftCountMask
    split <;> omega
  exact lt_of_le_of_lt Nat.and_le_right hmask

/-- A rotation by a multiple of the width leaves the masked operand in place. -/
theorem rolResult_of_mod_eq_zero (size : Nat) (a : U64) (c : Nat) (h : c &&& (size * 8 - 1) = 0) :
    rolResult size a c = a &&& maskFor size := by
  simp [rolResult, h]

theorem rorResult_of_mod_eq_zero (size : Nat) (a : U64) (c : Nat) (h : c &&& (size * 8 - 1) = 0) :
    rorResult size a c = a &&& maskFor size := by
  simp [rorResult, h]

/-- The two paths give the same RFLAGS exactly where `FlagOp.AgreesFrom` says, for every
operation, width, operand, count and prior flags word with nothing pending. -/
theorem lazy_rflags_eq_eager_iff (size : Nat) (hsize : IsOpSize size) (op : FlagOp) (c : Cpu)
    (hsync : c.ccOp = .eflags) :
    (op.stash size c).rflags = (op.eager size c).rflags ↔ op.AgreesFrom size c := by
  cases op with
  | logic r => exact iff_of_true (logic_agrees c r) trivial
  | add a b => exact iff_of_true (add_agrees hsize c a b) trivial
  | adc a b cin => exact iff_of_true (adc_agrees hsize c a b cin) trivial
  | sub a b => exact iff_of_true (sub_agrees hsize c a b) trivial
  | sbb a b bin => exact iff_of_true (sbb_agrees hsize c a b bin) trivial
  | inc a => exact iff_of_true (inc_agrees hsize c a hsync) trivial
  | dec a => exact iff_of_true (dec_agrees hsize c a hsync) trivial
  | neg a => exact iff_of_true (neg_agrees c a) trivial
  | shl a count => exact shl_agrees_iff c a _ (maskedCount_lt size count)
  | shr a count => exact shr_agrees_iff c a _ (maskedCount_lt size count)
  | sar a count => exact sar_agrees_iff c a _ (maskedCount_lt size count)
  | rol a count =>
      have hlow : maskFor size &&& 1 = 1 := by
        rcases hsize with rfl | rfl | rfl | rfl <;> decide
      refine (rol_agrees_iff c hsize a _ (maskedCount_lt size count) hsync).trans ?_
      refine forall_congr' fun _ => forall_congr' fun hmod => ?_
      rw [rolResult_of_mod_eq_zero _ _ _ hmod, BitVec.and_assoc, hlow]
  | ror a count =>
      have htop : maskFor size &&& signMask size = signMask size := by
        rcases hsize with rfl | rfl | rfl | rfl <;> decide
      refine (ror_agrees_iff c hsize a _ (maskedCount_lt size count) hsync).trans ?_
      refine forall_congr' fun _ => forall_congr' fun hmod => ?_
      rw [rorResult_of_mod_eq_zero _ _ _ hmod, BitVec.and_assoc, htop]

/-- The two paths differ: `SHL` of a doubleword by two with OF set beforehand. -/
theorem lazy_shl_clears_of :
    ¬ ∀ (size : Nat) (op : FlagOp) (c : Cpu), IsOpSize size → c.ccOp = .eflags →
      (op.stash size c).rflags = (op.eager size c).rflags := by
  intro h
  have := h 4 (.shl 1 2) { rflags_ := 0x802 } (by decide) rfl
  exact absurd this (by decide)

theorem lazy_rflags_eq_eager_iff_shl_two :
    ((FlagOp.shl 1 2).stash 4 {}).rflags = ((FlagOp.shl 1 2).eager 4 {}).rflags :=
  (lazy_rflags_eq_eager_iff 4 (by decide) (.shl 1 2) {} rfl).mpr (fun _ => by decide)

end PicoCpu
