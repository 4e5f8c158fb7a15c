import PicoCpu.EvexMasking
import PicoCpu.VectorRuns
import PicoCpu.Lib.SignedOps
import PicoCpu.Lib.WideProduct
import Mathlib.Tactic.Linarith
import Mathlib.Tactic.NormNum

/-!
The packed 16-bit multiplications and absolute values: the elements they store, and the host
expressions that compute them, in which every intermediate of a narrower type is an `int`.
-/

namespace PicoCpu

open H Proc Handlers SignedOps WideProduct

/-! ### The instructions -/

inductive PackedArith where
  | mullw | mulhw | mulhuw | maddwd | absb | absw | absd
  deriving DecidableEq, Repr

namespace PackedArith

/-- The size of an element of the result. -/
def size : PackedArith → Nat
  | .absb => 1
  | .mullw | .mulhw | .mulhuw | .absw => 2
  | .maddwd | .absd => 4

/-- Element `e` of the result, from exact arithmetic. -/
def value (f : PackedArith) (a b : Buf) (e : Nat) : BitVec (8 * f.size) :=
  match f with
  | .mullw => BitVec.ofInt 16 ((a.element 2 e).toInt * (b.element 2 e).toInt)
  | .mulhw => BitVec.ofInt 16 ((a.element 2 e).toInt * (b.element 2 e).toInt / 2 ^ 16)
  | .mulhuw => BitVec.ofNat 16 ((a.element 2 e).toNat * (b.element 2 e).toNat / 2 ^ 16)
  | .maddwd => BitVec.ofInt 32
      ((a.element 2 (2 * e)).toInt * (b.element 2 (2 * e)).toInt +
        (a.element 2 (2 * e + 1)).toInt * (b.element 2 (2 * e + 1)).toInt)
  | .absb => BitVec.ofInt 8 |(b.element 1 e).toInt|
  | .absw => BitVec.ofInt 16 |(b.element 2 e).toInt|
  | .absd => BitVec.ofInt 32 |(b.element 4 e).toInt|

end PackedArith

def packedArith : List (Handler × PackedArith) :=
  [(.opPmullw, .mullw), (.opPmulhw, .mulhw), (.opPmulhuw, .mulhuw), (.opPmaddwd, .maddwd),
   (.opPabsb, .absb), (.opPabsw, .absw), (.opPabsd, .absd)]

/-! ### Host expressions -/

/-- `u16(lo) | (u16(hi) << 8)`, which is an `int` before it is stored. -/
def hostWord (lo hi : U8) : Option U16 :=
  (signedShl (hi.setWidth 32) 8).map fun high => (lo.setWidth 32 ||| high).setWidth 16

/-- Word `i` of a vector. -/
def hostWordAt (v : Buf) (i : Nat) : Option U16 := hostWord (v (2 * i)) (v (2 * i + 1))

/-- Element `e` as the loops compute it; no element where an expression overflows. The unsigned
products and the assembly of a doubleword have no signed expression that could. -/
def PackedArith.hostLane (f : PackedArith) (a b : Buf) (e : Nat) : Option (BitVec (8 * f.size)) :=
  match f with
  | .mullw => do
    let x ← hostWordAt a e
    let y ← hostWordAt b e
    pure ((x.setWidth 32 * y.setWidth 32).setWidth 16)
  | .mulhw => do
    let x ← hostWordAt a e
    let y ← hostWordAt b e
    let p ← signedMul (x.signExtend 32) (y.signExtend 32)
    pure ((p >>> 16).setWidth 16)
  | .mulhuw => do
    let x ← hostWordAt a e
    let y ← hostWordAt b e
    pure (((x.setWidth 32 * y.setWidth 32) >>> 16).setWidth 16)
  | .maddwd => do
    let x ← hostWordAt a (2 * e)
    let x' ← hostWordAt a (2 * e + 1)
    let y ← hostWordAt b (2 * e)
    let y' ← hostWordAt b (2 * e + 1)
    let p ← signedMul (x.signExtend 32) (y.signExtend 32)
    let p' ← signedMul (x'.signExtend 32) (y'.signExtend 32)
    signedAdd p p'
  | .absb => (signedAbs ((b e).signExtend 32)).map (·.setWidth 8)
  | .absw => do
    let x ← hostWordAt b e
    let r ← signedAbs (x.signExtend 32)
    pure (r.setWidth 16)
  | .absd => signedAbs (laneU32 b e)

/-! ### What they compute -/

theorem hostWord_eq (lo hi : U8) : hostWord lo hi = some (hi ++ lo) := by
  have hnat : (hi.setWidth 32).toNat = hi.toNat := by
    have := hi.isLt
    rw [BitVec.toNat_setWidth, Nat.mod_eq_of_lt (by omega)]
  have hint : (hi.setWidth 32).toInt = hi.toNat := by
    have := hi.isLt
    rw [BitVec.toInt_eq_toNat_of_lt (by omega), hnat]
  have hfits : 0 ≤ (hi.setWidth 32).toInt ∧ (hi.setWidth 32).toInt * 2 ^ 8 < 2 ^ (32 - 1) := by
    have := hi.isLt
    omega
  rw [hostWord, signedShl, if_pos hfits]
  refine congrArg some (BitVec.eq_of_getLsbD_eq fun j hj => ?_)
  rw [BitVec.getLsbD_setWidth, BitVec.getLsbD_or, BitVec.getLsbD_setWidth, BitVec.getLsbD_shiftLeft,
    BitVec.getLsbD_setWidth, BitVec.getLsbD_append, decide_eq_true hj,
    decide_eq_true (hj.trans (by decide)), decide_eq_true ((Nat.sub_le j 8).trans_lt
      (hj.trans (by decide)))]
  by_cases hlow : j < 8
  · simp [hlow]
  · have hout : lo.getLsbD j = false := BitVec.getLsbD_of_ge lo j (Nat.le_of_not_lt hlow)
    simp [hlow, hout]

theorem hostWordAt_eq (v : Buf) (i : Nat) : hostWordAt v i = some (v.element 2 i) := by
  rw [hostWordAt, hostWord_eq, element_two]
  rfl

/-- The product of two promoted words is never too large. -/
theorem signedMul_words (x y : U16) :
    signedMul (x.signExtend 32) (y.signExtend 32) = some (x.signExtend 32 * y.signExtend 32) := by
  apply signedMul_eq
  rw [BitVec.toInt_signExtend_of_le (by decide), BitVec.toInt_signExtend_of_le (by decide)]
  exact toInt_mul_bounds x y (by decide) (by decide)

/-- A promoted value has a negation. -/
theorem signedAbs_promoted {n : Nat} (hn : n < 32) (x : BitVec n) :
    signedAbs (x.signExtend 32) = some (BitVec.ofInt 32 |x.toInt|) := by
  have hlow : -2 ^ 30 ≤ x.toInt := by
    have hle := BitVec.le_toInt x
    have hpow : (2 : Int) ^ (n - 1) ≤ 2 ^ 30 := by
      exact_mod_cast Nat.pow_le_pow_right Nat.two_pos (show n - 1 ≤ 30 by omega)
    omega
  have hint : (x.signExtend 32).toInt = x.toInt := BitVec.toInt_signExtend_of_le (by omega)
  have hne : x.signExtend 32 ≠ BitVec.intMin 32 := by
    intro hmin
    have hvalue : (BitVec.intMin 32).toInt = -2 ^ 31 := by decide
    rw [hmin, hvalue] at hint
    omega
  rw [signedAbs_eq _ hne, abs_eq_ofInt, hint]

theorem setWidth_ofInt {m n : Nat} (h : n ≤ m) (v : Int) :
    (BitVec.ofInt m v).setWidth n = BitVec.ofInt n v := by
  apply BitVec.eq_of_toNat_eq
  rw [BitVec.toNat_setWidth, BitVec.toNat_ofInt, BitVec.toNat_ofInt]
  have hdvd : ((2 ^ n : Nat) : Int) ∣ ((2 ^ m : Nat) : Int) :=
    Int.natCast_dvd_natCast.mpr (Nat.pow_dvd_pow 2 h)
  have hpos : (0 : Int) < ((2 ^ m : Nat) : Int) := Int.natCast_pos.mpr (Nat.two_pow_pos m)
  have hmod := Int.emod_emod_of_dvd v hdvd
  have hnonneg := Int.emod_nonneg v (ne_of_gt hpos)
  apply Int.natCast_inj.mp
  have hpos' : (0 : Int) < ((2 ^ n : Nat) : Int) := Int.natCast_pos.mpr (Nat.two_pow_pos n)
  rw [Int.natCast_emod, Int.toNat_of_nonneg hnonneg, hmod,
    Int.toNat_of_nonneg (Int.emod_nonneg v (ne_of_gt hpos'))]

namespace PackedArith

/-- The operands on which no host expression overflows. -/
def Fits (f : PackedArith) (a b : Buf) (e : Nat) : Prop :=
  match f with
  | .maddwd => ¬ ((a.element 2 (2 * e) = 0x8000 ∧ b.element 2 (2 * e) = 0x8000) ∧
      a.element 2 (2 * e + 1) = 0x8000 ∧ b.element 2 (2 * e + 1) = 0x8000)
  | .absd => b.element 4 e ≠ 0x80000000
  | _ => True

end PackedArith

section Words

variable (x y : U16)

theorem mullw_value :
    (x.setWidth 32 * y.setWidth 32).setWidth 16 = BitVec.ofInt 16 (x.toInt * y.toInt) := by
  rw [BitVec.setWidth_mul _ _ (by decide), BitVec.setWidth_setWidth_of_le _ (by decide),
    BitVec.setWidth_setWidth_of_le _ (by decide), BitVec.setWidth_eq, BitVec.setWidth_eq,
    BitVec.ofInt_mul, BitVec.ofInt_toInt, BitVec.ofInt_toInt]

theorem mulhw_value : ((x.signExtend 32 * y.signExtend 32) >>> 16).setWidth 16 =
    BitVec.ofInt 16 (x.toInt * y.toInt / 2 ^ 16) := by
  apply BitVec.eq_of_toNat_eq
  have hproduct := toInt_signExtend_mul (m := 32) x y (by decide) (by decide)
  have hhigh := toNat_of_toInt (x.signExtend 32 * y.signExtend 32)
  rw [hproduct] at hhigh
  rw [BitVec.toNat_setWidth, BitVec.toNat_ushiftRight, BitVec.toNat_ofInt, Nat.shiftRight_eq_div_pow]
  omega

theorem mulhuw_value : ((x.setWidth 32 * y.setWidth 32) >>> 16).setWidth 16 =
    BitVec.ofNat 16 (x.toNat * y.toNat / 2 ^ 16) := by
  apply BitVec.eq_of_toNat_eq
  rw [BitVec.toNat_setWidth, BitVec.toNat_ushiftRight, BitVec.toNat_ofNat,
    Nat.shiftRight_eq_div_pow, toNat_setWidth_mul x y x.isLt y.isLt (by decide)]

theorem signExtend_mul_eq : x.signExtend 32 * y.signExtend 32 =
    BitVec.ofInt 32 (x.toInt * y.toInt) := by
  have hproduct := toInt_signExtend_mul (m := 32) x y (by decide) (by decide)
  rw [← hproduct, BitVec.ofInt_toInt]

/-- Of two words only the least ones have the product 2^30, and none has a larger one. -/
theorem word_product_bounds : x.toInt * y.toInt ≤ 2 ^ 30 ∧ -2 ^ 30 ≤ x.toInt * y.toInt ∧
    (x.toInt * y.toInt = 2 ^ 30 ↔ x = 0x8000 ∧ y = 0x8000) := by
  have hx := BitVec.toInt_lt (x := x)
  have hx' := BitVec.le_toInt x
  have hy := BitVec.toInt_lt (x := y)
  have hy' := BitVec.le_toInt y
  have hleast (z : U16) : z = 0x8000 ↔ z.toInt = -2 ^ 15 := by
    have hvalue : (0x8000 : U16).toInt = -2 ^ 15 := by decide
    rw [← hvalue, BitVec.toInt_inj]
  rw [hleast, hleast]
  generalize x.toInt = u at *
  generalize y.toInt = v at *
  norm_num at hx hx' hy hy'
  have hcross : 0 ≤ (32768 - u) * (32768 + v) := mul_nonneg (by omega) (by omega)
  have hcross' : 0 ≤ (32768 + u) * (32768 - v) := mul_nonneg (by omega) (by omega)
  have hsame : 0 ≤ (32768 + u) * (32768 + v) := mul_nonneg (by omega) (by omega)
  have hsame' : 0 ≤ (32768 - u) * (32768 - v) := mul_nonneg (by omega) (by omega)
  refine ⟨by linarith, by linarith, ?_⟩
  constructor
  · intro hmax
    have hv : (32768 - u) * (32768 + v) = 0 := by linarith
    have hu : (32768 + u) * (32768 - v) = 0 := by linarith
    rcases mul_eq_zero.mp hv with h | h
    · omega
    · rcases mul_eq_zero.mp hu with h' | h'
      · omega
      · omega
  · rintro ⟨rfl, rfl⟩
    norm_num

end Words

/-- The host computes the element wherever nothing overflows. -/
theorem hostLane_of_fits (f : PackedArith) (a b : Buf) (e : Nat) (h : f.Fits a b e) :
    f.hostLane a b e = some (f.value a b e) := by
  cases f with
  | mullw =>
      rw [PackedArith.hostLane, hostWordAt_eq, hostWordAt_eq]
      exact congrArg some (mullw_value _ _)
  | mulhw =>
      rw [PackedArith.hostLane, hostWordAt_eq, hostWordAt_eq]
      refine Eq.trans ?_ (congrArg some (mulhw_value _ _))
      rw [Option.bind_eq_bind, Option.bind_some, Option.bind_eq_bind, Option.bind_some,
        signedMul_words]
      rfl
  | mulhuw =>
      rw [PackedArith.hostLane, hostWordAt_eq, hostWordAt_eq]
      exact congrArg some (mulhuw_value _ _)
  | maddwd =>
      obtain ⟨hhigh, hlow, hleast⟩ := word_product_bounds (a.element 2 (2 * e)) (b.element 2 (2 * e))
      obtain ⟨hhigh', hlow', hleast'⟩ :=
        word_product_bounds (a.element 2 (2 * e + 1)) (b.element 2 (2 * e + 1))
      rw [PackedArith.hostLane, hostWordAt_eq, hostWordAt_eq, hostWordAt_eq, hostWordAt_eq]
      simp only [Option.bind_eq_bind, Option.bind_some, signedMul_words]
      have hsum : ¬ ((a.element 2 (2 * e)).toInt * (b.element 2 (2 * e)).toInt = 2 ^ 30 ∧
          (a.element 2 (2 * e + 1)).toInt * (b.element 2 (2 * e + 1)).toInt = 2 ^ 30) := by
        rw [hleast, hleast']
        exact h
      refine (signedAdd_eq (n := 32) _ _ ?_).trans (congrArg some ?_)
      · rw [SignedOps.Fits, toInt_signExtend_mul _ _ (by decide) (by decide),
          toInt_signExtend_mul _ _ (by decide) (by decide)]
        omega
      · rw [signExtend_mul_eq, signExtend_mul_eq]
        exact (BitVec.ofInt_add ..).symm
  | absb =>
      rw [PackedArith.hostLane, signedAbs_promoted (by decide), PackedArith.value, element_one]
      exact congrArg some (setWidth_ofInt (by decide) _)
  | absw =>
      rw [PackedArith.hostLane, hostWordAt_eq, Option.bind_eq_bind, Option.bind_some,
        signedAbs_promoted (by decide)]
      exact congrArg some (setWidth_ofInt (by decide) _)
  | absd =>
      rw [PackedArith.Fits, element_four] at h
      rw [PackedArith.value, element_four]
      exact (signedAbs_eq (n := 32) _ h).trans (congrArg some (abs_eq_ofInt _))

/-- Otherwise the host has no result. -/
theorem hostLane_of_not_fits (f : PackedArith) (a b : Buf) (e : Nat) (h : ¬ f.Fits a b e) :
    f.hostLane a b e = none := by
  cases f with
  | mullw | mulhw | mulhuw | absb | absw => exact absurd trivial h
  | maddwd =>
      obtain ⟨⟨ha, hb⟩, ha', hb'⟩ := not_not.mp h
      rw [PackedArith.hostLane, hostWordAt_eq, hostWordAt_eq, hostWordAt_eq, hostWordAt_eq, ha, hb,
        ha', hb']
      decide
  | absd =>
      rw [PackedArith.Fits, element_four, not_not] at h
      rw [PackedArith.hostLane, h]
      exact signedAbs_intMin (by decide)

/-! ### The law -/

/-- Every element of the result is that of exact arithmetic, and the host expressions for it are
defined. -/
structure PackedArithLaw (f : PackedArith) (a b r : Buf) : Prop where
  exact : ∀ e < 16 / f.size, r.element f.size e = f.value a b e
  defined : ∀ e < 16 / f.size, (f.hostLane a b e).isSome

theorem packedArithLaw_iff {f : PackedArith} {a b r : Buf}
    (hr : ∀ e < 16 / f.size, r.element f.size e = f.value a b e) :
    PackedArithLaw f a b r ↔ ∀ e < 16 / f.size, f.Fits a b e := by
  constructor
  · intro hlaw e he
    by_contra hnot
    have hsome := hlaw.defined e he
    rw [hostLane_of_not_fits f a b e hnot] at hsome
    cases hsome
  · intro hfits
    refine ⟨hr, fun e he => ?_⟩
    rw [hostLane_of_fits f a b e (hfits e he)]
    rfl

/-! ### The handlers -/

theorem mullw_element (a b : Buf) (e : Nat) :
    Buf.element 2 (map16 (fun x y => (x.setWidth 32 * y.setWidth 32).setWidth 16) a b) e =
      PackedArith.mullw.value a b e :=
  (element_map16 _ _ e _).trans (mullw_value _ _)

theorem mulhw_element (a b : Buf) (e : Nat) :
    Buf.element 2 (map16 (fun x y => ((x.signExtend 32 * y.signExtend 32) >>> 16).setWidth 16) a b)
      e = PackedArith.mulhw.value a b e :=
  (element_map16 _ _ e _).trans (mulhw_value _ _)

theorem mulhuw_element (a b : Buf) (e : Nat) :
    Buf.element 2 (map16 (fun x y => ((x.setWidth 32 * y.setWidth 32) >>> 16).setWidth 16) a b) e =
      PackedArith.mulhuw.value a b e :=
  (element_map16 _ _ e _).trans (mulhuw_value _ _)

theorem maddwd_element (a b : Buf) (e : Nat) :
    Buf.element 4 (packU32 fun i =>
      (laneU16 a (2 * i)).signExtend 32 * (laneU16 b (2 * i)).signExtend 32 +
        (laneU16 a (2 * i + 1)).signExtend 32 * (laneU16 b (2 * i + 1)).signExtend 32) e =
      PackedArith.maddwd.value a b e := by
  refine (element_packU32 _ e).trans ?_
  rw [signExtend_mul_eq, signExtend_mul_eq, ← element_two, ← element_two, ← element_two,
    ← element_two]
  exact (BitVec.ofInt_add ..).symm

theorem absb_element (b : Buf) (e : Nat) :
    Buf.element 1 (fun i => absLane (b i)) e = PackedArith.absb.value b b e := by
  refine (element_one (fun i => absLane (b i)) e).trans ?_
  rw [PackedArith.value, element_one]
  exact abs_eq_ofInt (b e)

theorem absw_element (b : Buf) (e : Nat) :
    Buf.element 2 (packU16 fun i => absLane (laneU16 b i)) e = PackedArith.absw.value b b e := by
  refine (element_packU16 _ e).trans ?_
  rw [PackedArith.value, element_two]
  exact abs_eq_ofInt (laneU16 b e)

theorem absd_element (b : Buf) (e : Nat) :
    Buf.element 4 (packU32 fun i => absLane (laneU32 b i)) e = PackedArith.absd.value b b e := by
  refine (element_packU32 _ e).trans ?_
  rw [PackedArith.value, element_four]
  exact abs_eq_ofInt (laneU32 b e)

section Runs

variable {σ : Type} {at_ : Attached σ} {c : Cpu} {w w' : World σ} {i : Insn} {b : Buf}
  (hdst : i.dst.kind = .xmm) (hread : i.ReadsVec i.src 16 at_ c w b w') (fp : HostFp)
include hdst hread

/-- The handlers store the elements of exact arithmetic. -/
theorem packedArith_ends {f : PackedArith} (hop : (i.handler, f) ∈ packedArith) :
    ∃ r, (i.run fp).EndsIn at_ c w (some ()) (c.setZmmBytes i.dst.reg 0 16 r) w' ∧
      ∀ e, r.element f.size e = f.value (c.zmm i.dst.reg) b e := by
  simp only [packedArith, List.mem_cons, List.not_mem_nil, or_false, Prod.mk.injEq] at hop
  rcases hop with ⟨hop, rfl⟩ | ⟨hop, rfl⟩ | ⟨hop, rfl⟩ | ⟨hop, rfl⟩ | ⟨hop, rfl⟩ | ⟨hop, rfl⟩ |
    ⟨hop, rfl⟩
  · have hrun : i.run fp = opPmullw i := by rw [Insn.run, hop]; rfl
    rw [hrun]
    refine ⟨_, xmmBinary_ends hdst hread miscIo fun _ => map16 fun x y =>
      (x.setWidth 32 * y.setWidth 32).setWidth 16, fun e => ?_⟩
    exact mullw_element (c.zmm i.dst.reg) b e
  · have hrun : i.run fp = opPmulhw i := by rw [Insn.run, hop]; rfl
    rw [hrun]
    refine ⟨_, xmmBinary_ends hdst hread miscIo fun _ => map16 fun x y =>
      ((x.signExtend 32 * y.signExtend 32) >>> 16).setWidth 16, fun e => ?_⟩
    exact mulhw_element (c.zmm i.dst.reg) b e
  · have hrun : i.run fp = opPmulhuw i := by rw [Insn.run, hop]; rfl
    rw [hrun]
    refine ⟨_, xmmBinary_ends hdst hread miscIo fun _ => map16 fun x y =>
      ((x.setWidth 32 * y.setWidth 32) >>> 16).setWidth 16, fun e => ?_⟩
    exact mulhuw_element (c.zmm i.dst.reg) b e
  · have hrun : i.run fp = opPmaddwd i := by rw [Insn.run, hop]; rfl
    rw [hrun]
    refine ⟨_, xmmBinary_ends hdst hread miscIo fun _ a b => packU32 fun i =>
      (laneU16 a (2 * i)).signExtend 32 * (laneU16 b (2 * i)).signExtend 32 +
        (laneU16 a (2 * i + 1)).signExtend 32 * (laneU16 b (2 * i + 1)).signExtend 32, fun e => ?_⟩
    exact maddwd_element (c.zmm i.dst.reg) b e
  · have hrun : i.run fp = opPabsb i := by rw [Insn.run, hop]; rfl
    rw [hrun]
    refine ⟨_, xmmUnary_ends hdst hread sse4Io fun _ s i => absLane (s i), fun e => ?_⟩
    exact absb_element b e
  · have hrun : i.run fp = opPabsw i := by rw [Insn.run, hop]; rfl
    rw [hrun]
    refine ⟨_, xmmUnary_ends hdst hread sse4Io fun _ s => packU16 fun i => absLane (laneU16 s i),
      fun e => ?_⟩
    exact absw_element b e
  · have hrun : i.run fp = opPabsd i := by rw [Insn.run, hop]; rfl
    rw [hrun]
    refine ⟨_, xmmUnary_ends hdst hread sse4Io fun _ s => packU32 fun i => absLane (laneU32 s i),
      fun e => ?_⟩
    exact absd_element b e

end Runs

/-- The elements stored are always those of exact arithmetic. No host expression overflows exactly
when PMADDWD has no doubleword whose four words are all -2^15, and PABSD no element -2^31. -/
theorem packed_arith_iff (fp : HostFp) {i : Insn} {f : PackedArith}
    (hop : (i.handler, f) ∈ packedArith) (hdst : i.dst.kind = .xmm) {σ : Type} {at_ : Attached σ}
    {c : Cpu} {w w' : World σ} {b : Buf} (hread : i.ReadsVec i.src 16 at_ c w b w') :
    ∃ r, (i.run fp).EndsIn at_ c w (some ()) (c.setZmmBytes i.dst.reg 0 16 r) w' ∧
      (∀ e < 16 / f.size, r.element f.size e = f.value (c.zmm i.dst.reg) b e) ∧
      (PackedArithLaw f (c.zmm i.dst.reg) b r ↔
        ∀ e < 16 / f.size, f.Fits (c.zmm i.dst.reg) b e) := by
  obtain ⟨r, hends, hr⟩ := packedArith_ends hdst hread fp hop
  exact ⟨r, hends, fun e _ => hr e, packedArithLaw_iff fun e _ => hr e⟩

/-- `pmaddwd xmm1, xmm2`. -/
def pmaddwdRegisters : Insn :=
  { handler := .opPmaddwd, opSize := 16, dst := { kind := .xmm, reg := 1 }
    src := { kind := .xmm, reg := 2 } }

/-- Every word is -2^15. -/
def leastWords : Cpu := { zmm := fun _ j => if j % 2 = 1 then 0x80 else 0 }

theorem pmaddwd_reads : pmaddwdRegisters.ReadsVec pmaddwdRegisters.src 16
    (⟨none, none, [], []⟩ : Attached Unit) leastWords { mem := () } (leastWords.zmm 2)
    { mem := () } :=
  .inl ⟨rfl, rfl, rfl⟩

theorem packed_arith_iff_pmaddwd : ∃ r,
    (pmaddwdRegisters.run default).EndsIn (⟨none, none, [], []⟩ : Attached Unit) leastWords
      { mem := () } (some ()) (leastWords.setZmmBytes 1 0 16 r) { mem := () } ∧
    (∀ e < 4, r.element 4 e = PackedArith.maddwd.value (leastWords.zmm 1) (leastWords.zmm 2) e) ∧
    (PackedArithLaw .maddwd (leastWords.zmm 1) (leastWords.zmm 2) r ↔
      ∀ e < 4, PackedArith.maddwd.Fits (leastWords.zmm 1) (leastWords.zmm 2) e) :=
  packed_arith_iff default (f := .maddwd) (by decide) rfl pmaddwd_reads

/-- The sum of the two products is 2^31, which no `int` is. -/
theorem pmaddwd_least_words :
    PackedArith.maddwd.hostLane (leastWords.zmm 1) (leastWords.zmm 2) 0 = none ∧
    ∃ r, (pmaddwdRegisters.run default).EndsIn (⟨none, none, [], []⟩ : Attached Unit) leastWords
        { mem := () } (some ()) (leastWords.setZmmBytes 1 0 16 r) { mem := () } ∧
      ¬ PackedArithLaw .maddwd (leastWords.zmm 1) (leastWords.zmm 2) r := by
  have hnone : PackedArith.maddwd.hostLane (leastWords.zmm 1) (leastWords.zmm 2) 0 = none := by
    decide
  obtain ⟨r, hends, _⟩ := packedArith_ends (f := .maddwd) rfl pmaddwd_reads default (by decide)
  refine ⟨hnone, r, hends, fun hlaw => ?_⟩
  have hsome := hlaw.defined 0 (by decide)
  rw [hnone] at hsome
  cases hsome

end PicoCpu
