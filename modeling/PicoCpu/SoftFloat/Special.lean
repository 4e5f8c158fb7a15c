import PicoCpu.SoftFloat.MulDiv

/-!
The four operations as a whole: the calls by which a sum and a difference pass operands of
different signs to each other, the tables of special values, and the rounding contract.
-/

namespace PicoCpu

open Float80

/-! ### The sign test between the sum and the difference -/

theorem signsDiffer_iff (a b : Float80) :
    signsDiffer a b = true ↔ b.flipSign.isSignNegative = a.isSignNegative := by
  rw [signsDiffer, isSignNegative_flipSign]
  cases a.isSignNegative <;> cases b.isSignNegative <;> decide

theorem signsDiffer_eq_false_iff (a b : Float80) :
    signsDiffer a b = false ↔ a.isSignNegative = b.isSignNegative := by
  rw [signsDiffer, bne_eq_false_iff_eq]

section Finite

variable {a b : Float80} (hnanA : a.isNan = false) (hnanB : b.isNan = false)
  (hinfA : a.isInf = false) (hinfB : b.isInf = false)

include hnanA hnanB hinfA hinfB

theorem f80Add_finite : f80Add a b =
    if signsDiffer a b then subSameSign a b.flipSign else addSameSign a b := by
  cases hs : signsDiffer a b with
  | false => simp [f80Add, hnanA, hnanB, hinfA, hinfB, hs]
  | true =>
      have hflip := signsDiffer_flipSign a b hs
      simp [f80Add, f80Sub, hnanA, hnanB, hinfA, hinfB, hs, hflip]

theorem f80Sub_finite : f80Sub a b =
    if signsDiffer a b then addSameSign a b.flipSign else subSameSign a b := by
  cases hs : signsDiffer a b with
  | false => simp [f80Sub, hnanA, hnanB, hinfA, hinfB, hs]
  | true =>
      have hflip := signsDiffer_flipSign a b hs
      simp [f80Sub, f80Add, hnanA, hnanB, hinfA, hinfB, hs, hflip]

end Finite

theorem f80Add_delivers {a b : Float80} (ha : a.Operand) (hb : b.Operand) :
    Delivers (a.value + b.value) (f80Add a b) := by
  rw [f80Add_finite ha.not_nan hb.not_nan ha.not_inf hb.not_inf]
  cases hs : signsDiffer a b with
  | false =>
      rw [if_neg Bool.false_ne_true]
      exact addSameSign_delivers ha hb ((signsDiffer_eq_false_iff a b).mp hs)
  | true =>
      have hsub := subSameSign_delivers ha hb.flipSign ((signsDiffer_iff a b).mp hs).symm
      rw [value_flipSign, sub_neg_eq_add] at hsub
      rw [if_pos rfl]
      exact hsub

theorem f80Sub_delivers {a b : Float80} (ha : a.Operand) (hb : b.Operand) :
    Delivers (a.value - b.value) (f80Sub a b) := by
  rw [f80Sub_finite ha.not_nan hb.not_nan ha.not_inf hb.not_inf]
  cases hs : signsDiffer a b with
  | false =>
      rw [if_neg Bool.false_ne_true]
      exact subSameSign_delivers ha hb ((signsDiffer_eq_false_iff a b).mp hs)
  | true =>
      have hadd := addSameSign_delivers ha hb.flipSign ((signsDiffer_iff a b).mp hs).symm
      rw [value_flipSign, ← sub_eq_add_neg] at hadd
      rw [if_pos rfl]
      exact hadd

/-! ### The special values -/

/-- A zero, an infinity or a NaN. -/
def Float80.isSpecial (f : Float80) : Bool := f.isZero || f.isInf || f.isNan

/-- The table of special sums; zeros of one sign keep it, and those of different signs give +0. -/
def addTable (a b : Float80) : Option Float80 :=
  if a.isNan || b.isNan then some qnan
  else if a.isInf && b.isInf then some (if signsDiffer a b then qnan else a)
  else if a.isInf then some a
  else if b.isInf then some b
  else if a.isZero && b.isZero then some (if signsDiffer a b then zero false else a)
  else if a.isZero then some b
  else if b.isZero then some a
  else none

/-- The table of special differences; zeros of one sign give +0, and where they differ the
minuend is left as it is. -/
def subTable (a b : Float80) : Option Float80 :=
  if a.isNan || b.isNan then some qnan
  else if a.isInf && b.isInf then some (if signsDiffer a b then a else qnan)
  else if a.isInf then some a
  else if b.isInf then some b.flipSign
  else if a.isZero && b.isZero then some (if signsDiffer a b then a else zero false)
  else if a.isZero then some b.flipSign
  else if b.isZero then some a
  else none

def mulTable (a b : Float80) : Option Float80 :=
  if a.isNan || b.isNan then some qnan
  else if a.isZero && b.isInf || a.isInf && b.isZero then some qnan
  else if a.isInf || b.isInf then some (inf (signsDiffer a b))
  else if a.isZero || b.isZero then some (zero (signsDiffer a b))
  else none

def divTable (a b : Float80) : Option Float80 :=
  if a.isNan || b.isNan then some qnan
  else if a.isInf && b.isInf || a.isZero && b.isZero then some qnan
  else if a.isInf || b.isZero then some (inf (signsDiffer a b))
  else if a.isZero || b.isInf then some (zero (signsDiffer a b))
  else none

theorem inf_isSignNegative (s : Bool) : (inf s).isSignNegative = s := by
  cases s <;> decide

theorem eq_inf_of_isInf {f : Float80} (h : f.isInf = true) : inf f.isSignNegative = f := by
  rw [isInf, Bool.and_eq_true, Bool.and_eq_true, beq_iff_eq, beq_iff_eq, top_ne_zero_iff] at h
  obtain ⟨⟨hexp, hlow⟩, htop⟩ := h
  have hsig : (inf f.isSignNegative).sig = f.sig := by
    apply BitVec.eq_of_toNat_eq
    have hlt := f.sig.isLt
    have hshift := congrArg BitVec.toNat hlow
    rw [BitVec.toNat_shiftLeft, Nat.shiftLeft_eq, show (0 : U64).toNat = 0 from rfl] at hshift
    have hone : (inf f.isSignNegative).sig.toNat = 2 ^ 63 := toNat_one_shiftLeft (by omega)
    rw [hone]
    omega
  apply ext_fields hsig
  · rw [hexp]
    cases f.isSignNegative <;> decide
  · exact inf_isSignNegative _

theorem isInf_inf (s : Bool) : (inf s).isInf = true := by
  cases s <;> decide

theorem eq_of_isZero {f g : Float80} (hf : f.isZero = true) (hg : g.isZero = true)
    (hsign : f.isSignNegative = g.isSignNegative) : f = g := by
  rw [isZero, Bool.and_eq_true, beq_iff_eq, beq_iff_eq] at hf hg
  exact ext_fields (hf.2.trans hg.2.symm) (hf.1.trans hg.1.symm) hsign

theorem not_zero_of_isInf {f : Float80} (h : f.isInf = true) : f.isZero = false := by
  rw [isInf, Bool.and_eq_true, Bool.and_eq_true, beq_iff_eq] at h
  rw [isZero, h.1.1]
  rfl

theorem signsDiffer_eq_xor (a b : Float80) :
    signsDiffer a b = (a.isSignNegative ^^ b.isSignNegative) := by
  unfold signsDiffer
  cases a.isSignNegative <;> cases b.isSignNegative <;> rfl

theorem f80Mul_special {a b : Float80} (h : a.isSpecial || b.isSpecial) :
    mulTable a b = some (f80Mul a b) := by
  have hza : a.isInf = true → a.isZero = false := not_zero_of_isInf
  have hzb : b.isInf = true → b.isZero = false := not_zero_of_isInf
  unfold isSpecial at h
  unfold mulTable f80Mul
  rw [signsDiffer_eq_xor]
  generalize a.isNan = nanA, b.isNan = nanB, a.isInf = infA, b.isInf = infB,
    a.isZero = zeroA, b.isZero = zeroB at *
  cases nanA <;> cases nanB <;> cases infA <;> cases infB <;> cases zeroA <;> cases zeroB <;>
    simp_all

theorem f80Div_special {a b : Float80} (h : a.isSpecial || b.isSpecial) :
    divTable a b = some (f80Div a b) := by
  have hza : a.isInf = true → a.isZero = false := not_zero_of_isInf
  have hzb : b.isInf = true → b.isZero = false := not_zero_of_isInf
  unfold isSpecial at h
  unfold divTable f80Div
  rw [signsDiffer_eq_xor]
  generalize a.isNan = nanA, b.isNan = nanB, a.isInf = infA, b.isInf = infB,
    a.isZero = zeroA, b.isZero = zeroB at *
  cases nanA <;> cases nanB <;> cases infA <;> cases infB <;> cases zeroA <;> cases zeroB <;>
    simp_all

theorem inf_not_eq_flipSign {f : Float80} (h : f.isInf = true) :
    inf (!f.isSignNegative) = f.flipSign := by
  have hflip := eq_inf_of_isInf (f := f.flipSign) (by rw [isInf_flipSign]; exact h)
  rw [isSignNegative_flipSign] at hflip
  exact hflip

/-- The rows of a table for two finite operands of which one is a zero. -/
theorem addSameSign_zero {a b : Float80} (hsign : a.isSignNegative = b.isSignNegative)
    (h : a.isZero = true ∨ b.isZero = true) :
    addSameSign a b = if a.isZero && b.isZero then a else if a.isZero then b else a := by
  unfold addSameSign
  cases hza : a.isZero with
  | true =>
      cases hzb : b.isZero with
      | true => exact (eq_of_isZero hza hzb hsign).symm
      | false => rfl
  | false =>
      have hzb : b.isZero = true := h.resolve_left (by rw [hza]; exact Bool.false_ne_true)
      rw [hzb]
      rfl

theorem subSameSign_zero {a b : Float80} (h : a.isZero = true ∨ b.isZero = true) :
    subSameSign a b =
      if a.isZero && b.isZero then zero false else if a.isZero then b.flipSign else a := by
  unfold subSameSign
  cases hza : a.isZero with
  | true => cases hzb : b.isZero <;> rfl
  | false =>
      have hzb : b.isZero = true := h.resolve_left (by rw [hza]; exact Bool.false_ne_true)
      rw [hzb]
      rfl

theorem zero_of_special {a b : Float80} (h : a.isSpecial || b.isSpecial)
    (hnanA : a.isNan = false) (hnanB : b.isNan = false) (hinfA : a.isInf = false)
    (hinfB : b.isInf = false) : a.isZero = true ∨ b.isZero = true := by
  simpa [isSpecial, hnanA, hnanB, hinfA, hinfB] using h

theorem f80Add_special {a b : Float80} (h : a.isSpecial || b.isSpecial) :
    addTable a b = some (f80Add a b) := by
  unfold addTable
  cases hna : a.isNan with
  | true => simp [f80Add, hna]
  | false =>
      cases hnb : b.isNan with
      | true => simp [f80Add, hnb]
      | false =>
          cases hia : a.isInf with
          | true =>
              have heq := eq_inf_of_isInf hia
              cases hib : b.isInf <;> simp [f80Add, hna, hnb, hia, hib, heq]
          | false =>
              cases hib : b.isInf with
              | true => simp [f80Add, hna, hnb, hia, hib]
              | false =>
                  have hzero := zero_of_special h hna hnb hia hib
                  rw [f80Add_finite hna hnb hia hib]
                  cases hs : signsDiffer a b with
                  | false =>
                      rw [if_neg Bool.false_ne_true,
                        addSameSign_zero ((signsDiffer_eq_false_iff a b).mp hs) hzero]
                      generalize a.isZero = zeroA, b.isZero = zeroB at hzero ⊢
                      cases zeroA <;> cases zeroB <;> simp_all
                  | true =>
                      rw [if_pos rfl, subSameSign_zero (by rw [isZero_flipSign]; exact hzero),
                        isZero_flipSign, flipSign_flipSign]
                      generalize a.isZero = zeroA, b.isZero = zeroB at hzero ⊢
                      cases zeroA <;> cases zeroB <;> simp_all

theorem f80Sub_special {a b : Float80} (h : a.isSpecial || b.isSpecial) :
    subTable a b = some (f80Sub a b) := by
  unfold subTable
  cases hna : a.isNan with
  | true => simp [f80Sub, hna]
  | false =>
      cases hnb : b.isNan with
      | true => simp [f80Sub, hnb]
      | false =>
          cases hia : a.isInf with
          | true =>
              have heq := eq_inf_of_isInf hia
              cases hib : b.isInf <;> cases hs : signsDiffer a b <;>
                simp [f80Sub, hna, hnb, hia, hib, hs, heq]
          | false =>
              cases hib : b.isInf with
              | true => simp [f80Sub, hna, hnb, hia, hib, inf_not_eq_flipSign hib]
              | false =>
                  have hzero := zero_of_special h hna hnb hia hib
                  rw [f80Sub_finite hna hnb hia hib]
                  cases hs : signsDiffer a b with
                  | false =>
                      rw [if_neg Bool.false_ne_true, subSameSign_zero hzero]
                      generalize a.isZero = zeroA, b.isZero = zeroB at hzero ⊢
                      cases zeroA <;> cases zeroB <;> simp_all
                  | true =>
                      rw [if_pos rfl, addSameSign_zero ((signsDiffer_iff a b).mp hs).symm
                        (by rw [isZero_flipSign]; exact hzero), isZero_flipSign]
                      generalize a.isZero = zeroA, b.isZero = zeroB at hzero ⊢
                      cases zeroA <;> cases zeroB <;> simp_all

/-! ### The contract -/

/-- A magnitude has one normal encoding. -/
theorem Float80.Normal.eq_of_magnitude {f g : Float80} (hf : f.Normal) (hg : g.Normal)
    (hmag : f.magnitude = g.magnitude) (hsign : f.isSignNegative = g.isSignNegative) : f = g := by
  have hpos : ∀ h : Float80, h.Normal → max 1 (h.rawExp.toNat : ℤ) = h.rawExp.toNat := by
    intro h hn
    apply max_eq_right
    have hne : h.rawExp.toNat ≠ 0 := fun hzero => hn.1 (BitVec.eq_of_toNat_eq hzero)
    omega
  unfold magnitude at hmag
  rw [hpos f hf, hpos g hg] at hmag
  -- a larger exponent would outweigh any two significands
  have hlt : ∀ h k : Float80, h.Normal → h.rawExp.toNat < k.rawExp.toNat → k.Normal →
      (h.sig.toNat : ℚ) * 2 ^ ((h.rawExp.toNat : ℤ) - (0x3FFF + 63)) <
        (k.sig.toNat : ℚ) * 2 ^ ((k.rawExp.toNat : ℤ) - (0x3FFF + 63)) := by
    intro h k _ hexp hk
    have hhlt : (h.sig.toNat : ℚ) < 2 ^ 64 := by exact_mod_cast h.sig.isLt
    have hktop : (2 : ℚ) ^ 63 ≤ k.sig.toNat := by exact_mod_cast hk.2.2
    have hunit : (0 : ℚ) < 2 ^ ((h.rawExp.toNat : ℤ) - (0x3FFF + 63)) := zpow_pos (by norm_num) _
    calc (h.sig.toNat : ℚ) * 2 ^ ((h.rawExp.toNat : ℤ) - (0x3FFF + 63))
        < 2 ^ 64 * 2 ^ ((h.rawExp.toNat : ℤ) - (0x3FFF + 63)) :=
          mul_lt_mul_of_pos_right hhlt hunit
      _ = 2 ^ 63 * 2 ^ ((h.rawExp.toNat : ℤ) - (0x3FFF + 63) + 1) := by
          rw [zpow_add_one₀ (by norm_num)]
          ring
      _ ≤ 2 ^ 63 * 2 ^ ((k.rawExp.toNat : ℤ) - (0x3FFF + 63)) := by
          apply mul_le_mul_of_nonneg_left _ (by positivity)
          exact zpow_le_zpow_right₀ (by norm_num) (by omega)
      _ ≤ k.sig.toNat * 2 ^ ((k.rawExp.toNat : ℤ) - (0x3FFF + 63)) :=
          mul_le_mul_of_nonneg_right hktop (zpow_pos (by norm_num) _).le
  have hexp : f.rawExp.toNat = g.rawExp.toNat := by
    rcases lt_trichotomy f.rawExp.toNat g.rawExp.toNat with h | h | h
    · exact absurd hmag (hlt f g hf h hg).ne
    · exact h
    · exact absurd hmag (hlt g f hg h hf).ne'
  rw [hexp] at hmag
  have hsig := mul_right_cancel₀ (zpow_pos (by norm_num) _).ne' hmag
  exact ext_fields (BitVec.eq_of_toNat_eq (by exact_mod_cast hsig)) (BitVec.eq_of_toNat_eq hexp)
    hsign

/-- The contract leaves no choice of the result. -/
theorem Float80.Delivers.unique {x : ℚ} {r s : Float80} (hr : Delivers x r)
    (hs : Delivers x s) : r = s := by
  unfold Delivers at hr hs
  by_cases hzero : x = 0
  · rw [if_pos hzero] at hr hs
    exact hr.trans hs.symm
  · rw [if_neg hzero] at hr hs
    by_cases hover : (2 : ℚ) ^ (16384 : ℤ) ≤ NearestEven.roundTo 64 |x|
    · rw [if_pos hover] at hr hs
      exact hr.trans hs.symm
    · rw [if_neg hover] at hr hs
      by_cases hunder : NearestEven.roundTo 64 |x| < (2 : ℚ) ^ (-16382 : ℤ)
      · rw [if_pos hunder] at hr hs
        exact hr.trans hs.symm
      · rw [if_neg hunder] at hr hs
        exact hr.1.eq_of_magnitude hs.1 (hr.2.2.trans hs.2.2.symm) (hr.2.1.trans hs.2.1.symm)

/-- The four operations round the exact rational result of any two nonzero finite operands to
nearest even, and on zeros, infinities and NaNs give the entries of the tables. -/
theorem f80_correctly_rounded :
    (∀ a b : Float80, a.Operand → b.Operand →
      Delivers (a.value + b.value) (f80Add a b) ∧ Delivers (a.value - b.value) (f80Sub a b) ∧
      Delivers (a.value * b.value) (f80Mul a b) ∧ Delivers (a.value / b.value) (f80Div a b)) ∧
    (∀ a b : Float80, a.isSpecial || b.isSpecial →
      addTable a b = some (f80Add a b) ∧ subTable a b = some (f80Sub a b) ∧
      mulTable a b = some (f80Mul a b) ∧ divTable a b = some (f80Div a b)) := by
  constructor
  · intro a b ha hb
    exact ⟨f80Add_delivers ha hb, f80Sub_delivers ha hb, f80Mul_delivers ha hb,
      f80Div_delivers ha hb⟩
  · intro a b h
    exact ⟨f80Add_special h, f80Sub_special h, f80Mul_special h, f80Div_special h⟩

/-- The least denormal against one, and a negative zero against an infinity. -/
theorem f80_correctly_rounded_edges :
    (Delivers ((Float80.mk 1 0).value - (Float80.mk (1#64 <<< 63) 0x3FFF).value)
      (f80Sub ⟨1, 0⟩ ⟨1#64 <<< 63, 0x3FFF⟩)) ∧
    mulTable (zero true) (inf false) = some (f80Mul (zero true) (inf false)) := by
  exact ⟨(f80_correctly_rounded.1 ⟨1, 0⟩ ⟨1#64 <<< 63, 0x3FFF⟩ (by decide) (by decide)).2.1,
    (f80_correctly_rounded.2 (zero true) (inf false) (by decide)).2.2.1⟩

end PicoCpu
