import PicoCpu.OperandRuns
import PicoCpu.IntegerValues

/-!
DIV and IDIV against division of integers: the dividend is the pair of accumulator halves at twice
the operand size, the quotient goes to the low half and the remainder to the high one.
-/

namespace PicoCpu

open H Proc Handlers

/-! ### Division of the accumulator -/

/-- The high half of the accumulator: AH at byte size, else rDX. -/
def highHalf (size : Nat) : Nat := if size = 1 then 16 else Reg.rdx

/-- The number in the accumulator pair. -/
def pairValue (signed : Bool) (size : Nat) (c : Cpu) : Int :=
  valueAs signed size (c.readGpr (highHalf size) size) * 2 ^ (8 * size) +
    unsignedValue size (c.readGpr Reg.rax size)

/-- The quotient of the accumulator pair and the divisor is one of the operand size. -/
def Divides (signed : Bool) (size : Nat) (d : U64) (c : Cpu) : Prop :=
  valueAs signed size d ≠ 0 ∧
    InWord signed (8 * size) ((pairValue signed size c).tdiv (valueAs signed size d))

/-- The truncated quotient in the low half, and the remainder, with the sign of the dividend, in the
high half. -/
def divided (signed : Bool) (size : Nat) (d : U64) (c : Cpu) : Cpu :=
  let x := pairValue signed size c
  let y := valueAs signed size d
  (c.writeGpr Reg.rax size (BitVec.ofInt 64 (x.tdiv y))).writeGpr (highHalf size) size
    (BitVec.ofInt 64 (x.tmod y))

/-! ### Divisions of the host -/

/-- A division that a handler leaves to the host, in one of its integer types. -/
structure HostDivision where
  dividend : Int
  divisor : Int
  signed : Bool
  width : Nat

/-- The quotient is a value of the type. -/
def HostDivision.Fits (h : HostDivision) : Prop :=
  InWord h.signed h.width (h.dividend.tdiv h.divisor)

/-- The division in `op_div`: the smaller dividends are divided as 64-bit words, and `_udiv128` has
a 64-bit quotient. -/
def hostDiv (size : Nat) (d : U64) (c : Cpu) : Option HostDivision :=
  if d = 0 ∨ size = 8 ∧ d.ule (c.r Reg.rdx) then none
  else some ⟨dividend size c, d.toNat, false, 64⟩

/-- The division in `op_idiv`: of an `int` at 8 and 16 bits, of an `i64` at 32 and 64. -/
def hostIdiv (size : Nat) (d : U64) (c : Cpu) : Option HostDivision :=
  if d = 0 then none
  else if size = 8 then
    if c.r Reg.rdx = (c.r Reg.rax).sshiftRight 63 then
      some ⟨(c.r Reg.rax).toInt, d.toInt, true, 64⟩
    else none
  else
    some ⟨signedDividend size c, (signExtend d size).toInt, true, if size = 4 then 64 else 32⟩

/-- The least value of the host type that IDIV divides in, by -1. -/
def LeastByMinusOne (size : Nat) (d : U64) (c : Cpu) : Prop :=
  size ≠ 1 ∧ pairValue true size c = -2 ^ (if size = 2 then 31 else 63) ∧ signedValue size d = -1

/-! ### The dividends of the handlers -/

section Dividends

variable {size : Nat} (c : Cpu)

/-- AX from its bytes. -/
theorem r16_eq_append : (c.r16 Reg.rax).setWidth 16 =
    (c.readGpr 16 1).setWidth 8 ++ (c.readGpr Reg.rax 1).setWidth 8 := by
  have hhigh : c.readGpr 16 1 = (c.r Reg.rax >>> 8) &&& maskFor 1 := rfl
  have hlow : c.readGpr Reg.rax 1 = c.r Reg.rax &&& maskFor 1 := rfl
  have hboth : c.r16 Reg.rax = c.r Reg.rax &&& maskFor 2 := rfl
  rw [hhigh, hlow, hboth]
  apply BitVec.eq_of_getLsbD_eq
  intro i hi
  simp only [BitVec.getLsbD_append, BitVec.getLsbD_setWidth, getLsbD_and_maskFor 1 (by decide),
    getLsbD_and_maskFor 2 (by decide), BitVec.getLsbD_ushiftRight]
  grind

theorem dividend_eq (hsize : IsOpSize size) :
    (dividend size c : Int) = pairValue false size c := by
  rw [pairValue, unsignedValue_readGpr c _ hsize]
  change _ = unsignedValue size (c.readGpr (highHalf size) size) * 2 ^ (8 * size) + _
  rw [unsignedValue_readGpr c _ hsize]
  rcases hsize with rfl | rfl | rfl | rfl
  · have hhigh : c.readGpr 16 1 = (c.r Reg.rax >>> 8) &&& maskFor 1 := rfl
    have hlow : c.readGpr Reg.rax 1 = c.r Reg.rax &&& maskFor 1 := rfl
    have hboth : c.r16 Reg.rax = c.r Reg.rax &&& maskFor 2 := rfl
    change (((c.r16 Reg.rax).toNat : Nat) : Int) =
      ((c.readGpr 16 1).toNat : Int) * 2 ^ 8 + ((c.readGpr Reg.rax 1).toNat : Int)
    rw [hhigh, hlow, hboth, toNat_and_maskFor 1 (by decide), toNat_and_maskFor 1 (by decide),
      toNat_and_maskFor 2 (by decide), BitVec.toNat_ushiftRight, Nat.shiftRight_eq_div_pow]
    omega
  · exact Int.natCast_add ..
  · exact Int.natCast_add ..
  · rw [readGpr_eight, readGpr_eight]
    exact Int.natCast_add ..

theorem signedDividend_eq (hsize : IsOpSize size) (h8 : size ≠ 8) :
    signedDividend size c = pairValue true size c := by
  rcases hsize with rfl | rfl | rfl | rfl
  · change ((c.r16 Reg.rax).setWidth 16).toInt =
      ((c.readGpr 16 1).setWidth 8).toInt * 2 ^ 8 +
        (((c.readGpr Reg.rax 1).setWidth 8).toNat : Int)
    rw [r16_eq_append, BitVec.toInt_append, Int.mul_comm]
    rfl
  · change ((c.readGpr Reg.rdx 2).setWidth 16 ++ (c.readGpr Reg.rax 2).setWidth 16).toInt =
      ((c.readGpr Reg.rdx 2).setWidth 16).toInt * 2 ^ 16 +
        (((c.readGpr Reg.rax 2).setWidth 16).toNat : Int)
    rw [BitVec.toInt_append, Int.mul_comm]
    rfl
  · change ((c.readGpr Reg.rdx 4).setWidth 32 ++ (c.readGpr Reg.rax 4).setWidth 32).toInt =
      ((c.readGpr Reg.rdx 4).setWidth 32).toInt * 2 ^ 32 +
        (((c.readGpr Reg.rax 4).setWidth 32).toNat : Int)
    rw [BitVec.toInt_append, Int.mul_comm]
    rfl
  · exact absurd rfl h8

/-- The pair at 64 bits, and RDX as the sign extension of RAX, by the numbers in the registers. -/
theorem pairValue_eight : pairValue true 8 c =
    (c.r Reg.rdx).toInt * 2 ^ 64 + ((c.r Reg.rax).toNat : Int) := by
  rw [pairValue, unsignedValue_readGpr c _ (by decide), readGpr_eight, readGpr_eight]
  change ((c.r Reg.rdx).setWidth 64).toInt * 2 ^ 64 + _ = _
  rw [BitVec.setWidth_eq]

theorem rdx_extends_iff : c.r Reg.rdx = (c.r Reg.rax).sshiftRight 63 ↔
    (c.r Reg.rdx).toInt = if (c.r Reg.rax).toInt < 0 then -1 else 0 := by
  have hrange := (c.r Reg.rax).toInt_lt
  have hrange' := (c.r Reg.rax).le_toInt
  rw [← BitVec.toInt_inj, BitVec.toInt_sshiftRight, Int.shiftRight_eq_div_pow]
  split <;> omega

/-- At 64 bits the pair is a value of 64 bits when RDX is the sign extension of RAX. -/
theorem pairValue_fits_iff :
    InWord true 64 (pairValue true 8 c) ↔ c.r Reg.rdx = (c.r Reg.rax).sshiftRight 63 := by
  have hrax := (c.r Reg.rax).toInt_eq_toNat_cond
  have hnat := (c.r Reg.rax).isLt
  rw [pairValue_eight, rdx_extends_iff, InWord, if_pos rfl]
  split at hrax
  · rw [if_neg (by omega)]
    omega
  · rw [if_pos (by omega)]
    omega

theorem pairValue_of_extends (h : c.r Reg.rdx = (c.r Reg.rax).sshiftRight 63) :
    pairValue true 8 c = (c.r Reg.rax).toInt := by
  have hrax := (c.r Reg.rax).toInt_eq_toNat_cond
  have hnat := (c.r Reg.rax).isLt
  have hrdx := (rdx_extends_iff c).mp h
  rw [pairValue_eight, hrdx]
  split at hrax
  · rw [if_neg (by omega)]
    omega
  · rw [if_pos (by omega)]
    omega

theorem setQuotient_eq (hsize : IsOpSize size) (q r : U64) :
    setQuotient size q r c = (c.writeGpr Reg.rax size q).writeGpr (highHalf size) size r := by
  apply hsize.cases
  · rfl
  · rfl
  · rfl
  · rfl

end Dividends

/-! ### The handlers -/

section Handlers

variable {σ : Type} {at_ : Attached σ} {c c₁ : Cpu} {w w₁ : World σ} {insn : Insn} {d : U64}

/-- The division error, with every register and flag as before. -/
def FaultsDivide (p : H Unit) (at_ : Attached σ) (c c₁ : Cpu) (w w₁ : World σ) : Prop :=
  ∃ note, p.EndsIn at_ c w none (c₁.setFault .divideError c₁.rip .ok (some note)) w₁

/-- A masked divisor is zero when its value is. -/
theorem valueAs_ne_zero_iff (signed : Bool) {size : Nat} (hsize : IsOpSize size)
    (hd : d &&& maskFor size = d) : valueAs signed size d ≠ 0 ↔ d ≠ 0 := by
  have hlt := toNat_lt_of_masked size hsize d
  rw [hd] at hlt
  have hnat : d = 0 ↔ d.toNat = 0 := by
    rw [← BitVec.toNat_inj]
    rfl
  have hmod : d.toNat % 2 ^ (8 * size) = d.toNat := Nat.mod_eq_of_lt hlt
  rw [Ne, Ne, not_iff_not, hnat]
  cases signed
  · change unsignedValue size d = 0 ↔ _
    rw [unsignedValue_eq, hmod]
    omega
  · change signedValue size d = 0 ↔ _
    rw [signedValue_eq, hmod]
    split
    · omega
    · have hlt' : (d.toNat : Int) < 2 ^ (8 * size) := by exact_mod_cast hlt
      omega

theorem opDiv_ends (hsize : IsOpSize insn.opSize) (hd : d &&& maskFor insn.opSize = d)
    (hread : (readOperand insn insn.src insn.opSize).EndsIn at_ c w (some d) c₁ w₁) :
    (Divides false insn.opSize d c₁ →
      (opDiv insn).EndsIn at_ c w (some ()) (divided false insn.opSize d c₁) w₁) ∧
    (¬ Divides false insn.opSize d c₁ → FaultsDivide (opDiv insn) at_ c c₁ w w₁) := by
  have hdivisor : valueAs false insn.opSize d = (d.toNat : Int) := by
    change unsignedValue insn.opSize d = _
    have hlt := toNat_lt_of_masked insn.opSize hsize d
    rw [hd] at hlt
    rw [unsignedValue_eq, Nat.mod_eq_of_lt hlt]
  have hquotient : (pairValue false insn.opSize c₁).tdiv (valueAs false insn.opSize d) =
      ((dividend insn.opSize c₁ / d.toNat : Nat) : Int) := by
    rw [← dividend_eq c₁ hsize, hdivisor, Int.ofNat_tdiv]
  have hremainder : (pairValue false insn.opSize c₁).tmod (valueAs false insn.opSize d) =
      ((dividend insn.opSize c₁ % d.toNat : Nat) : Int) := by
    rw [← dividend_eq c₁ hsize, hdivisor, Int.ofNat_tmod]
  have hfits : InWord false (8 * insn.opSize)
      ((pairValue false insn.opSize c₁).tdiv (valueAs false insn.opSize d)) ↔
      ¬ 2 ^ (8 * insn.opSize) ≤ dividend insn.opSize c₁ / d.toNat := by
    rw [hquotient, Nat.not_le]
    have hpow : ((2 ^ (8 * insn.opSize) : Nat) : Int) = 2 ^ (8 * insn.opSize) := Nat.cast_pow ..
    change (0 : Int) ≤ _ ∧ _ < (2 : Int) ^ (8 * insn.opSize) ↔ _
    generalize dividend insn.opSize c₁ / d.toNat = q
    omega
  have hzero := valueAs_ne_zero_iff false hsize hd
  have hknown : ¬ (!IsOpSize insn.opSize) = true := by simp [hsize]
  constructor
  · rintro ⟨hne, hin⟩
    apply hread.bind
    rw [if_neg (hzero.mp hne), if_neg hknown]
    apply (endsIn_gets _).bind
    dsimp only
    rw [if_neg (hfits.mp hin), divided, hquotient, hremainder, BitVec.ofInt_natCast,
      BitVec.ofInt_natCast, ← setQuotient_eq c₁ hsize]
    exact endsIn_modify _
  · intro hnot
    by_cases hd0 : d = 0
    · refine ⟨"DIV by zero", hread.bind ?_⟩
      rw [if_pos hd0]
      exact endsIn_raiseAtRip ..
    · refine ⟨"DIV overflow", hread.bind ?_⟩
      rw [if_neg hd0, if_neg hknown]
      apply (endsIn_gets _).bind
      have hlarge : 2 ^ (8 * insn.opSize) ≤ dividend insn.opSize c₁ / d.toNat := by
        by_contra hsmall
        exact hnot ⟨hzero.mpr hd0, hfits.mpr hsmall⟩
      dsimp only
      rw [if_pos hlarge]
      exact endsIn_raiseAtRip ..

/-- What IDIV divides: at 64 bits only a pair that is a value of 64 bits. -/
def Divisible (size : Nat) (d : U64) (c : Cpu) : Prop :=
  Divides true size d c ∧ (size = 8 → InWord true 64 (pairValue true 8 c))

theorem opIdiv_ends (hsize : IsOpSize insn.opSize) (hd : d &&& maskFor insn.opSize = d)
    (hread : (readOperand insn insn.src insn.opSize).EndsIn at_ c w (some d) c₁ w₁)
    (hleast : ¬ LeastByMinusOne insn.opSize d c₁) :
    (Divisible insn.opSize d c₁ →
      (opIdiv insn).EndsIn at_ c w (some ()) (divided true insn.opSize d c₁) w₁) ∧
    (¬ Divisible insn.opSize d c₁ → FaultsDivide (opIdiv insn) at_ c c₁ w w₁) := by
  have hzero := valueAs_ne_zero_iff true hsize hd
  by_cases hd0 : d = 0
  · refine ⟨fun hdivisible => absurd hd0 (hzero.mp hdivisible.1.1),
      fun _ => ⟨"IDIV by zero", hread.bind ?_⟩⟩
    rw [if_pos hd0]
    exact endsIn_raiseAtRip ..
  have hdivisor : valueAs true insn.opSize d ≠ 0 := hzero.mpr hd0
  by_cases h8 : insn.opSize = 8
  · have hpair := pairValue_fits_iff c₁
    by_cases hextends : c₁.r Reg.rdx = (c₁.r Reg.rax).sshiftRight 63
    · have hvalue := pairValue_of_extends c₁ hextends
      have hd8 : valueAs true 8 d = d.toInt := by
        change (d.setWidth 64).toInt = d.toInt
        rw [BitVec.setWidth_eq]
      have hq : BitVec.ofInt 64 ((c₁.r Reg.rax).toInt.tdiv d.toInt) = (c₁.r Reg.rax).sdiv d := by
        apply BitVec.eq_of_toInt_eq
        rw [BitVec.toInt_ofInt, BitVec.toInt_sdiv]
      have hr : BitVec.ofInt 64 ((c₁.r Reg.rax).toInt.tmod d.toInt) = (c₁.r Reg.rax).srem d := by
        rw [← BitVec.toInt_srem, BitVec.ofInt_toInt]
      have hends : (opIdiv insn).EndsIn at_ c w (some ()) (divided true insn.opSize d c₁) w₁ := by
        apply hread.bind
        rw [if_neg hd0, if_pos h8]
        apply (endsIn_gets _).bind
        apply (endsIn_gets _).bind
        rw [if_pos hextends, h8, divided, hvalue, hd8, hq, hr, ← setQuotient_eq c₁ (by decide)]
        exact endsIn_modify _
      refine ⟨fun _ => hends, fun hnot => absurd ⟨⟨hdivisor, ?_⟩, fun _ => hpair.mpr hextends⟩ hnot⟩
      rw [h8] at hdivisor hleast ⊢
      apply tdiv_inWord (hpair.mpr hextends) hdivisor
      rintro ⟨hx, hy⟩
      exact hleast ⟨by decide, hx, hy⟩
    · refine ⟨fun hdivisible => absurd (hpair.mp (hdivisible.2 h8)) hextends,
        fun _ => ⟨"IDIV128 unsupported", hread.bind ?_⟩⟩
      rw [if_neg hd0, if_pos h8]
      apply (endsIn_gets _).bind
      apply (endsIn_gets _).bind
      rw [if_neg hextends]
      exact endsIn_raiseAtRip ..
  · have hknown : ¬ (!IsOpSize insn.opSize) = true := by simp [hsize]
    have hnum := signedDividend_eq c₁ hsize h8
    have hden : (signExtend d insn.opSize).toInt = valueAs true insn.opSize d :=
      toInt_signExtend hsize d
    have hrange : InWord true (8 * insn.opSize)
        ((pairValue true insn.opSize c₁).tdiv (valueAs true insn.opSize d)) ↔
        ¬ ((pairValue true insn.opSize c₁).tdiv (valueAs true insn.opSize d) <
            -2 ^ (8 * insn.opSize - 1) ∨
          2 ^ (8 * insn.opSize - 1) ≤
            (pairValue true insn.opSize c₁).tdiv (valueAs true insn.opSize d)) := by
      rw [not_or, Int.not_lt, Int.not_le]
      exact Iff.rfl
    constructor
    · rintro ⟨⟨_, hin⟩, _⟩
      apply hread.bind
      rw [if_neg hd0, if_neg h8, if_neg hknown]
      apply (endsIn_gets _).bind
      dsimp only
      rw [hnum, hden, if_neg (hrange.mp hin), divided, ← setQuotient_eq c₁ hsize]
      exact endsIn_modify _
    · intro hnot
      refine ⟨"IDIV overflow", hread.bind ?_⟩
      rw [if_neg hd0, if_neg h8, if_neg hknown]
      apply (endsIn_gets _).bind
      have hout : ¬ InWord true (8 * insn.opSize)
          ((pairValue true insn.opSize c₁).tdiv (valueAs true insn.opSize d)) :=
        fun hin => hnot ⟨⟨hdivisor, hin⟩, fun h => absurd h h8⟩
      dsimp only
      rw [hnum, hden, if_pos (not_not.mp fun h => hout (hrange.mpr h))]
      exact endsIn_raiseAtRip ..

/-- A dividend of at most 32 bits a half has 64. -/
theorem dividend_lt {size : Nat} (hsize : IsOpSize size) (h8 : size ≠ 8) :
    dividend size c < 2 ^ 64 := by
  have h16 (reg : Nat) : (c.r16 reg).toNat < 2 ^ 16 := toNat_lt_of_masked 2 (by decide) (c.r reg)
  have h32 (reg : Nat) : (c.r32 reg).toNat < 2 ^ 32 := toNat_lt_of_masked 4 (by decide) (c.r reg)
  have hax := h16 Reg.rax
  have hdx := h16 Reg.rdx
  have heax := h32 Reg.rax
  have hedx := h32 Reg.rdx
  rcases hsize with rfl | rfl | rfl | rfl
  · change (c.r16 Reg.rax).toNat < 2 ^ 64
    omega
  · change (c.r16 Reg.rdx).toNat * 2 ^ 16 + (c.r16 Reg.rax).toNat < 2 ^ 64
    omega
  · change (c.r32 Reg.rdx).toNat * 2 ^ 32 + (c.r32 Reg.rax).toNat < 2 ^ 64
    omega
  · exact absurd rfl h8

theorem hostDiv_fits {size : Nat} (hsize : IsOpSize size) {h : HostDivision}
    (hhost : hostDiv size d c = some h) : h.Fits := by
  unfold hostDiv at hhost
  split at hhost
  · cases hhost
  · rename_i hguard
    cases hhost
    rw [not_or, not_and, ← BitVec.toNat_inj] at hguard
    have hpos : 0 < d.toNat := Nat.pos_of_ne_zero hguard.1
    have hlt : dividend size c / d.toNat < 2 ^ 64 := by
      by_cases h8 : size = 8
      · have hhigh := hguard.2 h8
        rw [BitVec.ule_iff_toNat_le, Nat.not_le] at hhigh
        have hrax := (c.r Reg.rax).isLt
        subst h8
        change ((c.r Reg.rdx).toNat * 2 ^ 64 + (c.r Reg.rax).toNat) / d.toNat < 2 ^ 64
        apply (Nat.div_lt_iff_lt_mul hpos).mpr
        omega
      · exact Nat.lt_of_le_of_lt (Nat.div_le_self ..) (dividend_lt hsize h8)
    change (0 : Int) ≤ ((dividend size c : Nat) : Int).tdiv (d.toNat : Int) ∧
      ((dividend size c : Nat) : Int).tdiv (d.toNat : Int) < 2 ^ 64
    rw [← Int.ofNat_tdiv]
    generalize dividend size c / d.toNat = q at hlt
    omega

theorem hostIdiv_fits {size : Nat} (hsize : IsOpSize size) (hd : d &&& maskFor size = d)
    (hleast : ¬ LeastByMinusOne size d c) {h : HostDivision}
    (hhost : hostIdiv size d c = some h) : h.Fits := by
  have hword {n : Nat} (x : BitVec n) : InWord true n x.toInt :=
    ⟨BitVec.le_toInt x, BitVec.toInt_lt⟩
  unfold hostIdiv at hhost
  by_cases hd0 : d = 0
  · rw [if_pos hd0] at hhost
    cases hhost
  rw [if_neg hd0] at hhost
  have hdivisor := (valueAs_ne_zero_iff true hsize hd).mpr hd0
  by_cases h8 : size = 8
  · subst h8
    rw [if_pos rfl] at hhost
    split at hhost
    · rename_i hextends
      cases hhost
      have hd8 : valueAs true 8 d = d.toInt := by
        change (d.setWidth 64).toInt = d.toInt
        rw [BitVec.setWidth_eq]
      apply tdiv_inWord (hword _) (hd8 ▸ hdivisor)
      rintro ⟨hx, hy⟩
      exact hleast ⟨by decide, (pairValue_of_extends c hextends).trans hx, hd8.trans hy⟩
    · cases hhost
  · rw [if_neg h8] at hhost
    cases hhost
    have hden : (signExtend d size).toInt = valueAs true size d := toInt_signExtend hsize d
    have hnum := signedDividend_eq c hsize h8
    change InWord true (if size = 4 then 64 else 32)
      ((signedDividend size c).tdiv (signExtend d size).toInt)
    rw [hden]
    rcases hsize with rfl | rfl | rfl | rfl
    · have hrange : InWord true 16 (signedDividend 1 c) := hword _
      obtain ⟨hlow, hhigh⟩ := hrange
      change InWord true 32 ((signedDividend 1 c).tdiv (valueAs true 1 d))
      apply tdiv_inWord _ hdivisor
      · rintro ⟨hx, _⟩
        omega
      · constructor
        · omega
        · omega
    · apply tdiv_inWord (hword _) hdivisor
      rintro ⟨hx, hy⟩
      exact hleast ⟨by decide, hnum.symm.trans hx, hy⟩
    · apply tdiv_inWord (hword _) hdivisor
      rintro ⟨hx, hy⟩
      exact hleast ⟨by decide, hnum.symm.trans hx, hy⟩
    · exact absurd rfl h8

/-- DIV and IDIV with a source that reads as `d`: the exact quotient and remainder where it is a
value of the size, else a division error with the registers and flags as they were. The host divides
within its types. At 64 bits IDIV divides what fits 64 bits; -2 ^ 31 or -2 ^ 63 by -1 is left
out. -/
theorem division_exact (fp : HostFp) (hsize : IsOpSize insn.opSize) (hsrc : insn.src.kind ≠ .rel)
    (hread : (readOperand insn insn.src insn.opSize).EndsIn at_ c w (some d) c₁ w₁) :
    (insn.handler = .opDiv →
      (Divides false insn.opSize d c₁ →
        (insn.run fp).EndsIn at_ c w (some ()) (divided false insn.opSize d c₁) w₁) ∧
      (¬ Divides false insn.opSize d c₁ → FaultsDivide (insn.run fp) at_ c c₁ w w₁) ∧
      ∀ h, hostDiv insn.opSize d c₁ = some h → h.Fits) ∧
    (insn.handler = .opIdiv → ¬ LeastByMinusOne insn.opSize d c₁ →
      (Divisible insn.opSize d c₁ →
        (insn.run fp).EndsIn at_ c w (some ()) (divided true insn.opSize d c₁) w₁) ∧
      (¬ Divisible insn.opSize d c₁ → FaultsDivide (insn.run fp) at_ c c₁ w w₁) ∧
      ∀ h, hostIdiv insn.opSize d c₁ = some h → h.Fits) := by
  have hd := readOperand_masked hsize hsrc hread
  constructor
  · intro hop
    rw [Insn.run, hop]
    obtain ⟨hdivides, hfaults⟩ := opDiv_ends hsize hd hread
    exact ⟨hdivides, hfaults, fun h => hostDiv_fits hsize⟩
  · intro hop hleast
    rw [Insn.run, hop]
    obtain ⟨hdivides, hfaults⟩ := opIdiv_ends hsize hd hread hleast
    exact ⟨hdivides, hfaults, fun h => hostIdiv_fits hsize hd hleast⟩

end Handlers

/-- `idiv rcx` or `div rcx`. -/
def divideByRcx (handler : Handler) : Insn :=
  { handler := handler, opSize := 8, src := { kind := .reg, reg := Reg.rcx } }

/-- 2 ^ 64 by 4: a quotient of 64 bits, from a dividend of more. -/
def wideDividend : Cpu := ((({} : Cpu).setR Reg.rdx 1).setR Reg.rax 0).setR Reg.rcx 4

/-- -7 by 2. -/
def smallDividend : Cpu :=
  ((({} : Cpu).setR Reg.rdx (BitVec.allOnes 64)).setR Reg.rax (-7)).setR Reg.rcx 2

theorem division_exact_seven :
    ((divideByRcx .opIdiv).run default).EndsIn AluOp.bare smallDividend { mem := () } (some ())
      (divided true 8 2 smallDividend) { mem := () } ∧
    (divided true 8 2 smallDividend).r Reg.rax = -3 ∧
    (divided true 8 2 smallDividend).r Reg.rdx = -1 := by
  have hread : (readOperand (divideByRcx .opIdiv) (divideByRcx .opIdiv).src
      (divideByRcx .opIdiv).opSize).EndsIn AluOp.bare smallDividend { mem := () } (some 2)
      smallDividend { mem := () } := readOperand_of_reg rfl
  have hleast : ¬ LeastByMinusOne 8 2 smallDividend := by
    rintro ⟨_, _, hone⟩
    revert hone
    decide
  have hdivisible : Divisible 8 2 smallDividend :=
    ⟨⟨by decide, by decide +kernel⟩, fun _ => by decide +kernel⟩
  obtain ⟨_, hidiv⟩ := division_exact default (by decide) (by decide) hread
  exact ⟨(hidiv rfl hleast).1 hdivisible, by decide +kernel, by decide +kernel⟩

/-- A quotient of 64 bits that IDIV refuses, since its dividend has more. -/
theorem not_idiv_divides : Divides true 8 4 wideDividend ∧
    ((divideByRcx .opIdiv).run default).EndsIn AluOp.bare wideDividend { mem := () } none
      (wideDividend.setFault .divideError 0 .ok (some "IDIV128 unsupported")) { mem := () } ∧
    ¬ ((divideByRcx .opIdiv).run default).EndsIn AluOp.bare wideDividend { mem := () } (some ())
      (divided true 8 4 wideDividend) { mem := () } := by
  have hends : ((divideByRcx .opIdiv).run default).EndsIn AluOp.bare wideDividend { mem := () } none
      (wideDividend.setFault .divideError 0 .ok (some "IDIV128 unsupported")) { mem := () } := by
    have hread : (readOperand (divideByRcx .opIdiv) (divideByRcx .opIdiv).src
        (divideByRcx .opIdiv).opSize).EndsIn AluOp.bare wideDividend { mem := () } (some 4)
        wideDividend { mem := () } := readOperand_of_reg rfl
    apply hread.bind
    exact ⟨[], rfl⟩
  refine ⟨⟨by decide, by decide +kernel⟩, hends, ?_⟩
  intro hdivides
  obtain ⟨hvalue, _⟩ := hends.unique hdivides
  cases hvalue

end PicoCpu
