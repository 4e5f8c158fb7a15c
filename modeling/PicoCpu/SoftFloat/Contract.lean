import PicoCpu.SoftFloat.Float80
import Mathlib.Data.Rat.Floor
import Mathlib.Tactic.Linarith
import Mathlib.Tactic.FieldSimp

/-!
What the soft-float operations are to deliver: the exact rational result rounded to 64
significant bits, ties to even, and then taken to an infinity or a zero where the format has no
such exponent. The packing of a mantissa whose place among the half steps is that of the exact
result meets it.
-/

namespace PicoCpu

open NearestEven

namespace Float80

/-- The magnitude of a finite encoding; the exponent field 0 counts as 1. -/
def magnitude (f : Float80) : ℚ :=
  (f.sig.toNat : ℚ) * 2 ^ (max 1 (f.rawExp.toNat : ℤ) - (0x3FFF + 63))

def value (f : Float80) : ℚ := if f.isSignNegative then -f.magnitude else f.magnitude

/-- A normal number: its integer bit is set, its exponent neither 0 nor all ones. -/
def Normal (f : Float80) : Prop :=
  f.rawExp ≠ 0 ∧ f.rawExp ≠ 0x7FFF ∧ 2 ^ 63 ≤ f.sig.toNat

/-- The nonzero finite encodings but the unnormals: the normal numbers, and with the exponent
field 0 the denormals and pseudo-denormals. -/
def Operand (f : Float80) : Prop := (f.rawExp = 0 ∧ f.sig ≠ 0) ∨ f.Normal

instance (f : Float80) : Decidable f.Normal := by unfold Normal; infer_instance

instance (f : Float80) : Decidable f.Operand := by unfold Operand; infer_instance

/-- `r` is what an operation with the exact result `x` is to return. -/
def Delivers (x : ℚ) (r : Float80) : Prop :=
  if x = 0 then r = zero false
  else if (2 : ℚ) ^ (16384 : ℤ) ≤ roundTo 64 |x| then r = inf (decide (x < 0))
  else if roundTo 64 |x| < (2 : ℚ) ^ (-16382 : ℤ) then r = zero (decide (x < 0))
  else r.Normal ∧ r.isSignNegative = decide (x < 0) ∧ r.magnitude = roundTo 64 |x|

theorem Operand.not_zero {f : Float80} (h : f.Operand) : f.isZero = false := by
  rw [isZero, Bool.and_eq_false_iff, beq_eq_false_iff_ne, beq_eq_false_iff_ne]
  rcases h with ⟨_, hsig⟩ | ⟨hexp, _, _⟩
  · exact Or.inr hsig
  · exact Or.inl hexp

theorem Operand.exp_ne {f : Float80} (h : f.Operand) : f.rawExp ≠ 0x7FFF := by
  rcases h with ⟨hexp, _⟩ | ⟨_, hexp, _⟩
  · rw [hexp]
    decide
  · exact hexp

theorem Operand.not_inf {f : Float80} (h : f.Operand) : f.isInf = false := by
  rw [isInf, beq_eq_false_iff_ne.mpr h.exp_ne]
  rfl

theorem Operand.not_nan {f : Float80} (h : f.Operand) : f.isNan = false := by
  rw [isNan, if_pos (bne_iff_ne.mpr h.exp_ne)]

theorem Operand.flipSign {f : Float80} (h : f.Operand) : f.flipSign.Operand := by
  unfold Operand Normal
  rw [rawExp_flipSign, sig_flipSign]
  exact h

theorem value_flipSign (f : Float80) : f.flipSign.value = -f.value := by
  have hmag : f.flipSign.magnitude = f.magnitude := by
    unfold magnitude
    rw [rawExp_flipSign, sig_flipSign]
  unfold value
  rw [isSignNegative_flipSign, hmag]
  cases f.isSignNegative <;> simp

end Float80

open Float80

/-! ### Unpacking -/

/-- An operand as a normalised mantissa at an exponent: `mant * 2^(exp - bias - 63)`. -/
structure Unpacked (f : Float80) (u : U64 × Int) : Prop where
  top : 2 ^ 63 ≤ u.1.toNat
  value : f.magnitude = (u.1.toNat : ℚ) * 2 ^ (u.2 - (0x3FFF + 63))

theorem unpackShift_spec (fuel : Nat) (mant : U64) (rawExp : Int) (hne : mant.toNat ≠ 0)
    (hfuel : 2 ^ 63 ≤ mant.toNat * 2 ^ fuel) (s : Int) :
    2 ^ 63 ≤ (unpackShift fuel mant rawExp).1.toNat ∧
    ((unpackShift fuel mant rawExp).1.toNat : ℚ) * 2 ^ ((unpackShift fuel mant rawExp).2 - s) =
      (mant.toNat : ℚ) * 2 ^ (rawExp - s) := by
  induction fuel generalizing mant rawExp with
  | zero =>
      rw [Nat.pow_zero, Nat.mul_one] at hfuel
      exact ⟨hfuel, rfl⟩
  | succ fuel ih =>
      rw [unpackShift]
      by_cases htop : mant.toNat < 2 ^ 63
      · have hdouble : (mant <<< 1).toNat = mant.toNat * 2 := toNat_shiftLeft_lt (by omega)
        rw [if_pos ((top_eq_zero_iff mant).mpr htop)]
        obtain ⟨hhigh, hvalue⟩ := ih (mant <<< 1) (rawExp - 1) (by omega)
          (by rw [hdouble, Nat.mul_assoc, ← Nat.pow_succ']; exact hfuel)
        refine ⟨hhigh, hvalue.trans ?_⟩
        have hexp : rawExp - s = rawExp - 1 - s + 1 := by ring
        rw [hdouble, hexp, zpow_add_one₀ (by norm_num)]
        push_cast
        ring
      · rw [if_neg (fun h => htop ((top_eq_zero_iff mant).mp h))]
        exact ⟨not_lt.mp htop, rfl⟩

theorem unpack_spec {f : Float80} (h : f.Operand) : Unpacked f (unpack f) := by
  unfold unpack
  rcases h with ⟨hexp, hsig⟩ | ⟨hexp, _, htop⟩
  · have hne : f.sig.toNat ≠ 0 := fun hzero => hsig (BitVec.eq_of_toNat_eq hzero)
    have hcond : (f.rawExp == 0 && f.sig != 0) = true := by
      rw [Bool.and_eq_true, beq_iff_eq, bne_iff_ne]
      exact ⟨hexp, hsig⟩
    simp only [hcond, if_true]
    have hspec := fun s => unpackShift_spec 64 f.sig (f.rawExp.toNat : Int) hne (by omega) s
    refine ⟨(hspec 0).1, ?_⟩
    have hvalue := (hspec (0x3FFF + 62)).2
    have hzero : f.rawExp.toNat = 0 := by rw [hexp]; rfl
    rw [magnitude, hzero]
    rw [hzero] at hvalue
    have hexp' : ∀ e : Int, e + 1 - (0x3FFF + 63) = e - (0x3FFF + 62) := by
      intro e
      ring
    rw [hexp', hvalue]
    norm_num
  · have hpos : 0 < f.rawExp.toNat := by
      apply Nat.pos_of_ne_zero
      intro hzero
      exact hexp (BitVec.eq_of_toNat_eq hzero)
    have hcond : (f.rawExp == 0 && f.sig != 0) = false := by
      rw [Bool.and_eq_false_iff, beq_eq_false_iff_ne]
      exact Or.inl hexp
    simp only [hcond, Bool.false_eq_true, if_false]
    refine ⟨htop, ?_⟩
    have hmax : max 1 (f.rawExp.toNat : ℤ) = f.rawExp.toNat := by
      apply max_eq_right
      omega
    rw [magnitude, hmax]

/-! ### Rounding and packing -/

theorem toNat_increment (x : U64) :
    (x + 1 = 0 ∧ x.toNat + 1 = 2 ^ 64) ∨ (x + 1 ≠ 0 ∧ (x + 1).toNat = x.toNat + 1) := by
  have hx := x.isLt
  have hadd : (x + 1).toNat = (x.toNat + 1) % 2 ^ 64 := BitVec.toNat_add x 1
  by_cases h : x.toNat + 1 = 2 ^ 64
  · left
    refine ⟨BitVec.eq_of_toNat_eq ?_, h⟩
    rw [hadd, h]
    rfl
  · right
    have hlt : (x + 1).toNat = x.toNat + 1 := by
      rw [hadd]
      omega
    refine ⟨fun hzero => ?_, hlt⟩
    rw [hzero] at hlt
    exact absurd hlt (Nat.succ_ne_zero _).symm

/-- Incrementing a mantissa, the overflow going to the exponent. -/
theorem increment_spec (x : U64) (rawExp s : Int) (hx : 2 ^ 63 ≤ x.toNat) :
    let r := if (x + 1 == 0) = true then (1#64 <<< 63, rawExp + 1) else (x + 1, rawExp)
    2 ^ 63 ≤ r.1.toNat ∧
      (r.1.toNat : ℚ) * 2 ^ (r.2 - s) = ((x.toNat : ℤ) + 1 : ℤ) * 2 ^ (rawExp - s) := by
  intro r
  have hpow : (1#64 <<< 63).toNat = 2 ^ 63 := toNat_one_shiftLeft (by omega)
  rcases toNat_increment x with ⟨hzero, hfull⟩ | ⟨hne, hsucc⟩
  · have hr : r = (1#64 <<< 63, rawExp + 1) := if_pos (beq_iff_eq.mpr hzero)
    rw [hr]
    refine ⟨by rw [hpow], ?_⟩
    have hcast : ((x.toNat : ℤ) + 1 : ℤ) = 2 ^ 64 := by exact_mod_cast hfull
    have hexp : rawExp + 1 - s = rawExp - s + 1 := by ring
    rw [hpow, hcast, hexp, zpow_add_one₀ (by norm_num)]
    push_cast
    ring
  · have hr : r = (x + 1, rawExp) := if_neg (fun h => hne (beq_iff_eq.mp h))
    rw [hr, hsucc]
    refine ⟨by omega, ?_⟩
    push_cast
    rfl

/-- The rounding of a normalised 128-bit mantissa is the nearest even of the number above the
low half. -/
theorem roundToNearestEven_spec (m : U128) (rawExp s : Int) (hm : 2 ^ 127 ≤ m.toNat) :
    2 ^ 63 ≤ (roundToNearestEven m rawExp).1.toNat ∧
    ((roundToNearestEven m rawExp).1.toNat : ℚ) * 2 ^ ((roundToNearestEven m rawExp).2 - s) =
      (roundEven ((m.toNat : ℚ) / 2 ^ 64) : ℚ) * 2 ^ (rawExp - s) := by
  have hhi : 2 ^ 63 ≤ m.hi.toNat := by
    have := m.toNat_div
    omega
  have hpow : (1#64 <<< 63).toNat = 2 ^ 63 := toNat_one_shiftLeft (by omega)
  have hinc := increment_spec m.hi rawExp s hhi
  have hodd : (m.hi &&& 1 == 0) = decide (m.hi.toNat % 2 = 0) := by
    have hand : (m.hi &&& 1).toNat = m.hi.toNat % 2 := by
      rw [BitVec.toNat_and]
      exact Nat.and_one_is_mod _
    rw [Bool.eq_iff_iff, beq_iff_eq, decide_eq_true_eq, ← hand, ← BitVec.toNat_inj]
    rfl
  have hkeep : ∀ r : U64 × Int, r = (m.hi, rawExp) → 2 ^ 63 ≤ r.1.toNat ∧
      (r.1.toNat : ℚ) * 2 ^ (r.2 - s) = ((m.hi.toNat : ℤ) : ℚ) * 2 ^ (rawExp - s) := by
    intro r hr
    rw [hr]
    exact ⟨hhi, by push_cast; rfl⟩
  rw [roundEven_natCast_div, m.toNat_div, m.toNat_mod]
  unfold roundToNearestEven
  simp only [BitVec.ult_eq_decide, hpow, hodd, decide_eq_true_eq]
  by_cases hdown : m.lo.toNat < 2 ^ 63
  · have hdown' : 2 * m.lo.toNat < 2 ^ 64 := by omega
    rw [if_pos hdown, if_pos hdown']
    exact hkeep _ rfl
  · have hdown' : ¬ 2 * m.lo.toNat < 2 ^ 64 := by omega
    rw [if_neg hdown, if_neg hdown']
    by_cases hup : 2 ^ 63 < m.lo.toNat
    · have hup' : 2 ^ 64 < 2 * m.lo.toNat := by omega
      rw [if_pos hup, if_pos hup']
      exact hinc
    · have hup' : ¬ 2 ^ 64 < 2 * m.lo.toNat := by omega
      rw [if_neg hup, if_neg hup']
      by_cases heven : m.hi.toNat % 2 = 0
      · rw [if_pos heven, if_pos heven]
        exact hkeep _ rfl
      · rw [if_neg heven, if_neg heven]
        exact hinc

/-- A mantissa stands for a magnitude when, in units of its last place, the two fall in the same
place among the half steps of the rounding. -/
structure Stands (m : U128) (rawExp : Int) (x : ℚ) : Prop where
  top : 2 ^ 127 ≤ m.toNat
  together : Together (2 ^ 63) (m.toNat : ℚ) (x / 2 ^ (rawExp - (0x3FFF + 63) - 64))

theorem Stands.roundTo_eq {m : U128} {rawExp : Int} {x : ℚ} (h : Stands m rawExp x) :
    roundTo 64 x = ((roundToNearestEven m rawExp).1.toNat : ℚ) *
      2 ^ ((roundToNearestEven m rawExp).2 - (0x3FFF + 63)) := by
  obtain ⟨htop, htog⟩ := h
  have hlt := m.toNat_lt
  rw [(roundToNearestEven_spec m rawExp (0x3FFF + 63) htop).2]
  generalize ht : rawExp - (0x3FFF + 63) = t at *
  have hunit : (0 : ℚ) < 2 ^ (t - 64) := zpow_pos (by norm_num) _
  have hlow : (2 : ℚ) ^ (t + 63) ≤ x := by
    have hle := (htog.le_iff (2 ^ 64)).mp (by
      have : (2 : ℚ) ^ 127 ≤ m.toNat := by exact_mod_cast htop
      push_cast
      linarith)
    rw [le_div_iff₀ hunit] at hle
    have hexp : t + 63 = 127 + (t - 64) := by ring
    rw [hexp, zpow_add₀ (by norm_num)]
    push_cast at hle
    linarith
  have hhigh : x < (2 : ℚ) ^ (t + 63 + 1) := by
    have hlt' := ((htog (2 ^ 65)).2).mp (by
      have : (m.toNat : ℚ) < 2 ^ 128 := by exact_mod_cast hlt
      push_cast
      linarith)
    rw [div_lt_iff₀ hunit] at hlt'
    have hexp : t + 63 + 1 = 128 + (t - 64) := by ring
    rw [hexp, zpow_add₀ (by norm_num)]
    push_cast at hlt'
    linarith
  have hround := htog.roundEven_eq (by norm_num)
  have hscale : t + 63 - ((64 : ℕ) - 1) = t := by
    push_cast
    ring
  have hplace : x / 2 ^ (t - 64) / (2 * 2 ^ 63) = x / 2 ^ t := by
    rw [div_div, zpow_sub₀ (by norm_num)]
    congr 1
    have hne : (2 : ℚ) ^ (64 : ℤ) ≠ 0 := by positivity
    field_simp
  have hhalf : (2 : ℚ) * 2 ^ 63 = 2 ^ 64 := by norm_num
  rw [NearestEven.roundTo_eq 64 hlow hhigh, hscale, ← hplace, ← hround, hhalf]

/-- The fields of a packed number in range. -/
theorem packNormal_fields (sign : Bool) (mant : U64) (rawExp : Int) (hlow : 0 < rawExp)
    (hhigh : rawExp < 0x7FFF) :
    (packNormal sign mant rawExp).sig = mant ∧
    ((packNormal sign mant rawExp).rawExp.toNat : ℤ) = rawExp ∧
    (packNormal sign mant rawExp).isSignNegative = sign := by
  obtain ⟨n, rfl⟩ : ∃ n : Nat, rawExp = n := ⟨rawExp.toNat, by omega⟩
  have hn : n < 2 ^ 15 := by omega
  have hpack : packNormal sign mant n =
      ⟨mant, (if sign then 0x8000 else 0) ||| (BitVec.ofInt 16 n &&& 0x7FFF)⟩ := by
    unfold packNormal
    rw [if_neg (by omega), if_neg (by omega)]
  have hfield : (BitVec.ofInt 16 (n : ℤ) &&& 0x7FFF).toNat = n := by
    have hmask : (BitVec.ofInt 16 (n : ℤ) &&& 0x7FFF).toNat =
        (BitVec.ofInt 16 (n : ℤ)).toNat % 2 ^ 15 := by
      rw [BitVec.toNat_and]
      exact Nat.and_two_pow_sub_one_eq_mod _ 15
    rw [hmask, BitVec.ofInt_natCast, BitVec.toNat_ofNat]
    omega
  obtain ⟨hexp, hsign⟩ := fields_mk sign mant (hfield.trans_lt hn)
  rw [hpack, hexp, hfield]
  exact ⟨rfl, rfl, hsign⟩

/-- Rounding and packing a mantissa that stands for the exact magnitude meets the contract. -/
theorem Stands.delivers {m : U128} {rawExp : Int} {x : ℚ} (h : Stands m rawExp |x|)
    (hx : x ≠ 0) :
    Delivers x (packNormal (decide (x < 0)) (roundToNearestEven m rawExp).1
      (roundToNearestEven m rawExp).2) := by
  have hround := h.roundTo_eq
  have htop := (roundToNearestEven_spec m rawExp 0 h.top).1
  generalize roundToNearestEven m rawExp = r at *
  obtain ⟨mant, e⟩ := r
  simp only at *
  have hlt := mant.isLt
  have htopQ : (2 : ℚ) ^ (63 : ℤ) ≤ mant.toNat := by exact_mod_cast htop
  have hltQ : (mant.toNat : ℚ) < 2 ^ (64 : ℤ) := by exact_mod_cast hlt
  have hunit : (0 : ℚ) < 2 ^ (e - (0x3FFF + 63)) := zpow_pos (by norm_num) _
  have hatLeast : ∀ k : ℤ, k ≤ 63 + (e - (0x3FFF + 63)) → (2 : ℚ) ^ k ≤ roundTo 64 |x| := by
    intro k hk
    calc (2 : ℚ) ^ k ≤ 2 ^ (63 + (e - (0x3FFF + 63))) := zpow_le_zpow_right₀ (by norm_num) hk
      _ = 2 ^ (63 : ℤ) * 2 ^ (e - (0x3FFF + 63)) := zpow_add₀ (by norm_num) _ _
      _ ≤ mant.toNat * 2 ^ (e - (0x3FFF + 63)) := mul_le_mul_of_nonneg_right htopQ hunit.le
      _ = roundTo 64 |x| := hround.symm
  have hbelow : ∀ k : ℤ, 64 + (e - (0x3FFF + 63)) ≤ k → roundTo 64 |x| < (2 : ℚ) ^ k := by
    intro k hk
    calc roundTo 64 |x| = mant.toNat * 2 ^ (e - (0x3FFF + 63)) := hround
      _ < 2 ^ (64 : ℤ) * 2 ^ (e - (0x3FFF + 63)) := mul_lt_mul_of_pos_right hltQ hunit
      _ = 2 ^ (64 + (e - (0x3FFF + 63))) := (zpow_add₀ (by norm_num) _ _).symm
      _ ≤ 2 ^ k := zpow_le_zpow_right₀ (by norm_num) hk
  unfold Delivers
  rw [if_neg hx]
  by_cases hover : e ≥ 0x7FFF
  · rw [if_pos (hatLeast _ (by omega)), packNormal, if_pos hover]
  · rw [if_neg (not_le.mpr (hbelow _ (by omega)))]
    by_cases hunder : e ≤ 0
    · rw [if_pos (hbelow _ (by omega)), packNormal, if_neg hover, if_pos hunder]
    · rw [if_neg (not_lt.mpr (hatLeast _ (by omega)))]
      obtain ⟨hsig, hexp, hsign⟩ :=
        packNormal_fields (decide (x < 0)) mant e (by omega) (by omega)
      generalize packNormal (decide (x < 0)) mant e = f at *
      have hexpNat : f.rawExp.toNat ≠ 0 ∧ f.rawExp.toNat ≠ 0x7FFF := by omega
      refine ⟨⟨fun h => hexpNat.1 (by rw [h]; rfl), fun h => hexpNat.2 (by rw [h]; rfl), ?_⟩,
        hsign, ?_⟩
      · rw [hsig]
        exact htop
      · rw [magnitude, hsig, hexp, max_eq_right (by omega)]
        exact hround.symm

end PicoCpu
