import PicoCpu.SoftFloat.Wide

/-!
The 80-bit extended format of `float80.h` and the soft-float arithmetic of `float80.cpp`: every
operation on the halves of its mantissas, with the exponents, whose `i32` never wraps, as
integers.
-/

namespace PicoCpu

/-- The stored form: a significand with its integer bit explicit, and the sign over the biased
exponent. -/
structure Float80 where
  sig : U64
  signexp : U16
deriving DecidableEq

namespace Float80

def isSignNegative (f : Float80) : Bool := (f.signexp &&& 0x8000) != 0

def rawExp (f : Float80) : U16 := f.signexp &&& 0x7FFF

def isZero (f : Float80) : Bool := f.rawExp == 0 && f.sig == 0

def isInf (f : Float80) : Bool :=
  f.rawExp == 0x7FFF && (f.sig <<< 1) == 0 && (f.sig &&& (1#64 <<< 63)) != 0

def isNan (f : Float80) : Bool :=
  if f.rawExp != 0x7FFF then false
  else (f.sig <<< 1) != 0 || (f.sig &&& (1#64 <<< 63)) == 0

def zero (negative : Bool) : Float80 := ⟨0, if negative then 0x8000 else 0⟩

def inf (negative : Bool) : Float80 :=
  ⟨1#64 <<< 63, (if negative then 0x8000 else 0) ||| 0x7FFF⟩

def qnan : Float80 := ⟨(1#64 <<< 63) ||| (1#64 <<< 62), 0x7FFF⟩

/-- The source's `signexp ^= 0x8000`. -/
def flipSign (f : Float80) : Float80 := { f with signexp := f.signexp ^^^ 0x8000 }

/-! ### The sign over the exponent -/

theorem isSignNegative_eq_msb (f : Float80) : f.isSignNegative = f.signexp.msb := by
  have hbit : (0x8000 : U16) = BitVec.twoPow 16 15 := by decide
  rw [isSignNegative, hbit, BitVec.and_twoPow, BitVec.msb_eq_getLsbD_last]
  cases f.signexp.getLsbD 15 with
  | false => decide
  | true => decide

theorem toNat_rawExp (f : Float80) : f.rawExp.toNat = f.signexp.toNat % 2 ^ 15 := by
  rw [rawExp, BitVec.toNat_and]
  exact Nat.and_two_pow_sub_one_eq_mod _ 15

@[simp] theorem isSignNegative_flipSign (f : Float80) :
    f.flipSign.isSignNegative = !f.isSignNegative := by
  rw [isSignNegative_eq_msb, isSignNegative_eq_msb, flipSign, BitVec.msb_xor]
  cases f.signexp.msb with
  | false => decide
  | true => decide

@[simp] theorem rawExp_flipSign (f : Float80) : f.flipSign.rawExp = f.rawExp := by
  apply BitVec.eq_of_toNat_eq
  rw [toNat_rawExp, toNat_rawExp, flipSign, BitVec.toNat_xor, Nat.xor_mod_two_pow]
  exact Nat.xor_zero _

@[simp] theorem flipSign_flipSign (f : Float80) : f.flipSign.flipSign = f := by
  cases f with
  | mk sig signexp => simp only [flipSign, BitVec.xor_assoc, BitVec.xor_self, BitVec.xor_zero]

@[simp] theorem sig_flipSign (f : Float80) : f.flipSign.sig = f.sig := rfl

@[simp] theorem isZero_flipSign (f : Float80) : f.flipSign.isZero = f.isZero := by
  simp [isZero]

@[simp] theorem isInf_flipSign (f : Float80) : f.flipSign.isInf = f.isInf := by
  simp [isInf]

@[simp] theorem isNan_flipSign (f : Float80) : f.flipSign.isNan = f.isNan := by
  simp [isNan]

/-- Two encodings with the same fields read out are the same. -/
theorem ext_fields {f g : Float80} (hsig : f.sig = g.sig) (hexp : f.rawExp = g.rawExp)
    (hsign : f.isSignNegative = g.isSignNegative) : f = g := by
  have hexp' := congrArg BitVec.toNat hexp
  rw [toNat_rawExp, toNat_rawExp] at hexp'
  rw [isSignNegative_eq_msb, isSignNegative_eq_msb, BitVec.msb_eq_decide, BitVec.msb_eq_decide,
    decide_eq_decide] at hsign
  have hf := f.signexp.isLt
  have hg := g.signexp.isLt
  cases f with
  | mk fsig fse =>
      cases g with
      | mk gsig gse =>
          have hse : fse = gse := by
            apply BitVec.eq_of_toNat_eq
            simp only at hexp' hsign hf hg
            omega
          simp only at hsig
          rw [hsig, hse]

/-- The fields of a sign over an exponent. -/
theorem fields_mk (sign : Bool) (sig : U64) {e : U16} (he : e.toNat < 2 ^ 15) :
    (Float80.mk sig ((if sign then 0x8000 else 0) ||| e)).rawExp = e ∧
      (Float80.mk sig ((if sign then 0x8000 else 0) ||| e)).isSignNegative = sign := by
  have hse : ((if sign then 0x8000 else 0) ||| e : U16).toNat =
      (if sign then 2 ^ 15 else 0) + e.toNat := by
    rw [BitVec.toNat_or]
    cases sign with
    | false => exact Nat.zero_or _ |>.trans (Nat.zero_add _).symm
    | true => exact (Nat.two_pow_add_eq_or_of_lt he 1).symm
  constructor
  · apply BitVec.eq_of_toNat_eq
    rw [toNat_rawExp, hse]
    cases sign with
    | false => simp; omega
    | true => simp; omega
  · rw [isSignNegative_eq_msb, BitVec.msb_eq_decide, hse]
    cases sign with
    | false => simp; omega
    | true => simp

end Float80

/-- Pack a normalised magnitude: infinity past the largest exponent, zero below the least. -/
def packNormal (sign : Bool) (mant : U64) (rawExp : Int) : Float80 :=
  if rawExp ≥ 0x7FFF then Float80.inf sign
  else if rawExp ≤ 0 then Float80.zero sign
  else ⟨mant, (if sign then 0x8000 else 0) ||| (BitVec.ofInt 16 rawExp &&& 0x7FFF)⟩

/-- Round to nearest, ties to even, discarding the low half; a mantissa that overflows comes back
as `2^63` with the exponent one higher. -/
def roundToNearestEven (m : U128) (rawExp : Int) : U64 × Int :=
  let result := m.hi
  let discard := m.lo
  let halfBit := 1#64 <<< 63
  let inc := result + 1
  if discard.ult halfBit then (result, rawExp)
  else if halfBit.ult discard then
    if inc == 0 then (1#64 <<< 63, rawExp + 1) else (inc, rawExp)
  else if (result &&& 1) == 0 then (result, rawExp)
  else if inc == 0 then (1#64 <<< 63, rawExp + 1) else (inc, rawExp)

/-- The loop of `unpack`, of which a nonzero significand needs at most 63 rounds. -/
def unpackShift : Nat → U64 → Int → U64 × Int
  | 0, mant, rawExp => (mant, rawExp)
  | fuel + 1, mant, rawExp =>
      if (mant &&& (1#64 <<< 63)) == 0 then unpackShift fuel (mant <<< 1) (rawExp - 1)
      else (mant, rawExp)

/-- The normalised mantissa of an operand and its effective biased exponent. -/
def unpack (f : Float80) : U64 × Int :=
  let rawExp : Int := f.rawExp.toNat
  if f.rawExp == 0 && f.sig != 0 then
    ((unpackShift 64 f.sig rawExp).1, (unpackShift 64 f.sig rawExp).2 + 1)
  else (f.sig, rawExp)

/-- The loop that normalises a difference, of which a nonzero one needs at most 127 rounds. -/
def normalizeDiff : Nat → U128 → Int → U128 × Int
  | 0, diff, rawExp => (diff, rawExp)
  | fuel + 1, diff, rawExp =>
      if (diff.hi &&& (1#64 <<< 63)) == 0 then normalizeDiff fuel diff.double (rawExp - 1)
      else (diff, rawExp)

/-- Shift the mantissa of the smaller operand right to the exponent of the larger. -/
def alignMantissas (a b : U64 × Int) : U128 × U128 × Int :=
  let wideA : U128 := ⟨a.1, 0⟩
  let wideB : U128 := ⟨b.1, 0⟩
  if a.2 > b.2 then (wideA, shr128Sticky wideB (a.2 - b.2).toNat, a.2)
  else if b.2 > a.2 then (shr128Sticky wideA (b.2 - a.2).toNat, wideB, b.2)
  else (wideA, wideB, a.2)

/-- The part of `f80_add` past the special values and the sign test: two operands of one sign. -/
def addSameSign (a b : Float80) : Float80 :=
  if a.isZero then b
  else if b.isZero then a
  else
    let aligned := alignMantissas (unpack a) (unpack b)
    let sum := add128 aligned.1 aligned.2.1
    let carried := shr128Sticky sum 1
    let rounded :=
      if sum.hi.ult aligned.1.hi then
        roundToNearestEven ⟨carried.hi ||| (1#64 <<< 63), carried.lo⟩ (aligned.2.2 + 1)
      else roundToNearestEven sum aligned.2.2
    packNormal a.isSignNegative rounded.1 rounded.2

/-- The part of `f80_sub` past the infinities and the sign test: two operands of one sign. -/
def subSameSign (a b : Float80) : Float80 :=
  if a.isZero && b.isZero then Float80.zero false
  else if b.isZero then a
  else if a.isZero then b.flipSign
  else
    let aligned := alignMantissas (unpack a) (unpack b)
    let ordered := decide (cmp128 aligned.1 aligned.2.1 ≥ 0)
    let resultSign := if ordered then a.isSignNegative else !a.isSignNegative
    let diff :=
      if ordered then sub128 aligned.1 aligned.2.1 else sub128 aligned.2.1 aligned.1
    if diff.hi == 0 && diff.lo == 0 then Float80.zero false
    else
      let normal := normalizeDiff 128 diff aligned.2.2
      let rounded := roundToNearestEven normal.1 normal.2
      packNormal resultSign rounded.1 rounded.2

def signsDiffer (a b : Float80) : Bool := a.isSignNegative != b.isSignNegative

theorem signsDiffer_flipSign (a b : Float80) (h : signsDiffer a b = true) :
    signsDiffer a b.flipSign = false := by
  rw [signsDiffer, bne_iff_ne, ne_eq] at h
  rw [signsDiffer, bne_eq_false_iff_eq, b.isSignNegative_flipSign]
  cases ha : a.isSignNegative <;> cases hb : b.isSignNegative <;> simp_all

mutual

/-- Operands of different signs go to the subtraction. -/
def f80Add (a b : Float80) : Float80 :=
  if a.isNan || b.isNan then Float80.qnan
  else if a.isInf || b.isInf then
    if a.isInf && b.isInf then
      if signsDiffer a b then Float80.qnan else Float80.inf a.isSignNegative
    else if a.isInf then a else b
  else if _hsigns : signsDiffer a b = true then f80Sub a b.flipSign
  else addSameSign a b
termination_by (signsDiffer a b).toNat
decreasing_by
  rw [signsDiffer_flipSign a b _hsigns, _hsigns]
  decide

/-- Operands of different signs go to the addition. -/
def f80Sub (a b : Float80) : Float80 :=
  if a.isNan || b.isNan then Float80.qnan
  else if a.isInf && b.isInf then
    if !signsDiffer a b then Float80.qnan else Float80.inf a.isSignNegative
  else if a.isInf then a
  else if b.isInf then Float80.inf (!b.isSignNegative)
  else if _hsigns : signsDiffer a b = true then f80Add a b.flipSign
  else subSameSign a b
termination_by (signsDiffer a b).toNat
decreasing_by
  rw [signsDiffer_flipSign a b _hsigns, _hsigns]
  decide

end

def f80Mul (a b : Float80) : Float80 :=
  let sign := a.isSignNegative ^^ b.isSignNegative
  if a.isNan || b.isNan then Float80.qnan
  else if a.isInf || b.isInf then
    if a.isZero || b.isZero then Float80.qnan else Float80.inf sign
  else if a.isZero || b.isZero then Float80.zero sign
  else
    let p := mul64x64 (unpack a).1 (unpack b).1
    let rawExp := (unpack a).2 + (unpack b).2 - 0x3FFF
    let rounded :=
      if (p.hi &&& (1#64 <<< 63)) != 0 then roundToNearestEven p (rawExp + 1)
      else roundToNearestEven p.double rawExp
    packNormal sign rounded.1 rounded.2

/-- One more quotient bit and a sticky one, from the remainder of the long division. -/
def quotientTail (rem bm : U64) : Bool × U64 :=
  let doubled := rem <<< 1
  if (rem &&& (1#64 <<< 63)) != 0 then (true, doubled + (~~~bm + 1))
  else if bm.ule doubled then (true, doubled - bm)
  else (false, doubled)

def f80Div (a b : Float80) : Float80 :=
  let sign := a.isSignNegative ^^ b.isSignNegative
  if a.isNan || b.isNan then Float80.qnan
  else if a.isInf && b.isInf then Float80.qnan
  else if b.isZero then
    if a.isZero then Float80.qnan else Float80.inf sign
  else if a.isZero then Float80.zero sign
  else if a.isInf then Float80.inf sign
  else if b.isInf then Float80.zero sign
  else
    let am := (unpack a).1
    let bm := (unpack b).1
    let below := am.ult bm
    let num : U128 := if below then ⟨am, 0⟩ else ⟨am >>> 1, (am &&& 1) <<< 63⟩
    let rawExp :=
      if below then (unpack a).2 - (unpack b).2 + 0x3FFF - 1
      else (unpack a).2 - (unpack b).2 + 0x3FFF
    let division := div128By64 num bm
    let tail := quotientTail division.2 bm
    let sticky := tail.2 != 0
    let r : U128 :=
      ⟨division.1, (if tail.1 then 1#64 <<< 63 else 0) ||| (if sticky then 1 else 0)⟩
    let rounded := roundToNearestEven r rawExp
    packNormal sign rounded.1 rounded.2

end PicoCpu
