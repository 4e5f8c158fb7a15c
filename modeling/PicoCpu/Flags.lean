import PicoCpu.Cpu

/-!
Flag computation. The lazy path, which every handler uses: `stash*` records the
operation and its operands, and `syncFlags` recomputes the six arithmetic flags
from that record the next time a flag is read. The eager path, `setFlags*Eager`,
writes the flags word directly and is the reference of the unit tests.
-/

namespace PicoCpu

def parityTable : List Nat :=
  [1, 0, 0, 1, 0, 1, 1, 0, 0, 1, 1, 0, 1, 0, 0, 1,
   0, 1, 1, 0, 1, 0, 0, 1, 1, 0, 0, 1, 0, 1, 1, 0,
   0, 1, 1, 0, 1, 0, 0, 1, 1, 0, 0, 1, 0, 1, 1, 0,
   1, 0, 0, 1, 0, 1, 1, 0, 0, 1, 1, 0, 1, 0, 0, 1,
   0, 1, 1, 0, 1, 0, 0, 1, 1, 0, 0, 1, 0, 1, 1, 0,
   1, 0, 0, 1, 0, 1, 1, 0, 0, 1, 1, 0, 1, 0, 0, 1,
   1, 0, 0, 1, 0, 1, 1, 0, 0, 1, 1, 0, 1, 0, 0, 1,
   0, 1, 1, 0, 1, 0, 0, 1, 1, 0, 0, 1, 0, 1, 1, 0,
   0, 1, 1, 0, 1, 0, 0, 1, 1, 0, 0, 1, 0, 1, 1, 0,
   1, 0, 0, 1, 0, 1, 1, 0, 0, 1, 1, 0, 1, 0, 0, 1,
   1, 0, 0, 1, 0, 1, 1, 0, 0, 1, 1, 0, 1, 0, 0, 1,
   0, 1, 1, 0, 1, 0, 0, 1, 1, 0, 0, 1, 0, 1, 1, 0,
   1, 0, 0, 1, 0, 1, 1, 0, 0, 1, 1, 0, 1, 0, 0, 1,
   0, 1, 1, 0, 1, 0, 0, 1, 1, 0, 0, 1, 0, 1, 1, 0,
   0, 1, 1, 0, 1, 0, 0, 1, 1, 0, 0, 1, 0, 1, 1, 0,
   1, 0, 0, 1, 0, 1, 1, 0, 0, 1, 1, 0, 1, 0, 0, 1]

def parity8 (v : U8) : Bool := parityTable.getD v.toNat 0 ≠ 0

/-- Replace `mask` in `bits` by all ones or all zeros. -/
def withBit (bits mask : U64) (on : Bool) : U64 :=
  if on then (bits &&& ~~~mask) ||| mask else bits &&& ~~~mask

/-- Set ZF, SF and PF from a result of `size` bytes, and keep every other bit. -/
def applyZsp (bits : U64) (size : Nat) (result : U64) : U64 :=
  let mr := result &&& maskFor size
  let bits := bits &&& ~~~(Rflags.zf ||| Rflags.sf ||| Rflags.pf)
  let bits := if mr = 0 then bits ||| Rflags.zf else bits
  let bits := if mr &&& signMask size ≠ 0 then bits ||| Rflags.sf else bits
  if parity8 (mr.setWidth 8) then bits ||| Rflags.pf else bits

/-! ### Per-operation flags, from the stashed values -/

def computeLogic (size : Nat) (ccDst : U64) : U64 :=
  applyZsp Rflags.alwaysOne size ccDst

def computeAdd (size : Nat) (ccSrc ccDst : U64) : U64 :=
  let m := maskFor size
  let sb := signMask size
  let b := ccSrc &&& m
  let r := ccDst &&& m
  -- the first operand is not stashed: it is recovered from the result
  let a := (r - b) &&& m
  let bits := applyZsp Rflags.alwaysOne size r
  let bits := withBit bits Rflags.cf (r.ult b)
  let bits := withBit bits Rflags.of (((a ^^^ r) &&& (b ^^^ r)) &&& sb != 0)
  withBit bits Rflags.af ((a ^^^ b ^^^ r) &&& 0x10 != 0)

def computeAdc (size : Nat) (ccSrc ccDst : U64) (cin : Bool) : U64 :=
  let m := maskFor size
  let sb := signMask size
  let b := ccSrc &&& m
  let r := ccDst &&& m
  let a := (r - b - (if cin then 1 else 0)) &&& m
  let bits := applyZsp Rflags.alwaysOne size r
  let bits := withBit bits Rflags.cf (if cin then r.ule b else r.ult b)
  let bits := withBit bits Rflags.of (((a ^^^ r) &&& (b ^^^ r)) &&& sb != 0)
  withBit bits Rflags.af ((a ^^^ b ^^^ r) &&& 0x10 != 0)

def computeSub (size : Nat) (ccSrc ccDst : U64) : U64 :=
  let m := maskFor size
  let sb := signMask size
  let b := ccSrc &&& m
  let r := ccDst &&& m
  let a := (r + b) &&& m
  let bits := applyZsp Rflags.alwaysOne size r
  let bits := withBit bits Rflags.cf (a.ult b)
  let bits := withBit bits Rflags.of (((a ^^^ b) &&& (a ^^^ r)) &&& sb != 0)
  withBit bits Rflags.af ((a ^^^ b ^^^ r) &&& 0x10 != 0)

def computeSbb (size : Nat) (ccSrc ccDst : U64) (bin : Bool) : U64 :=
  let m := maskFor size
  let sb := signMask size
  let b := ccSrc &&& m
  let r := ccDst &&& m
  let a := (r + b + (if bin then 1 else 0)) &&& m
  let bits := applyZsp Rflags.alwaysOne size r
  let bits := withBit bits Rflags.cf (if bin then a.ule b else a.ult b)
  let bits := withBit bits Rflags.of (((a ^^^ b) &&& (a ^^^ r)) &&& sb != 0)
  withBit bits Rflags.af ((a ^^^ b ^^^ r) &&& 0x10 != 0)

def computeInc (size : Nat) (savedCf : Bool) (ccDst : U64) : U64 :=
  let m := maskFor size
  let sb := signMask size
  let r := ccDst &&& m
  let prev := (r - 1) &&& m
  let bits := applyZsp Rflags.alwaysOne size r
  let bits := withBit bits Rflags.cf savedCf
  let bits := withBit bits Rflags.of ((prev == sb - 1) && (r &&& sb != 0))
  withBit bits Rflags.af ((prev ^^^ r) &&& 0x10 != 0)

def computeDec (size : Nat) (savedCf : Bool) (ccDst : U64) : U64 :=
  let m := maskFor size
  let sb := signMask size
  let r := ccDst &&& m
  let prev := (r + 1) &&& m
  let bits := applyZsp Rflags.alwaysOne size r
  let bits := withBit bits Rflags.cf savedCf
  let bits := withBit bits Rflags.of ((prev == sb) && (r &&& sb == 0))
  withBit bits Rflags.af ((prev ^^^ r) &&& 0x10 != 0)

def computeNeg (size : Nat) (ccSrc ccDst : U64) : U64 :=
  let m := maskFor size
  let sb := signMask size
  let a := ccSrc &&& m
  let r := ccDst &&& m
  let bits := applyZsp Rflags.alwaysOne size r
  let bits := withBit bits Rflags.cf (a != 0)
  let bits := withBit bits Rflags.of (a == sb)
  withBit bits Rflags.af ((a ||| r) &&& 0x10 != 0)

/-- Bit `n` of a word, as the source's `(x >> n) & 1`. -/
def bitAt (x : U64) (n : Nat) : Bool := (x >>> n) &&& 1 != 0

def computeShl (size : Nat) (original ccDst : U64) (count : Nat) : U64 :=
  if count = 0 then applyZsp Rflags.alwaysOne size ccDst
  else
    let width := size * 8
    let bits := applyZsp Rflags.alwaysOne size ccDst
    let cf := if count ≤ width then bitAt original (width - count) else false
    let bits := withBit bits Rflags.cf cf
    if count = 1 then
      withBit bits Rflags.of ((ccDst &&& signMask size != 0) != cf)
    else bits

def computeShr (size : Nat) (original ccDst : U64) (count : Nat) : U64 :=
  if count = 0 then applyZsp Rflags.alwaysOne size ccDst
  else
    let width := size * 8
    let bits := applyZsp Rflags.alwaysOne size ccDst
    let cf := if count ≤ width then bitAt original (count - 1) else false
    let bits := withBit bits Rflags.cf cf
    if count = 1 then withBit bits Rflags.of (original &&& signMask size != 0) else bits

def computeSar (size : Nat) (original ccDst : U64) (count : Nat) : U64 :=
  if count = 0 then applyZsp Rflags.alwaysOne size ccDst
  else
    let width := size * 8
    let bits := applyZsp Rflags.alwaysOne size ccDst
    let cf := if count ≤ width then bitAt original (count - 1)
      else original &&& signMask size != 0
    let bits := withBit bits Rflags.cf cf
    if count = 1 then withBit bits Rflags.of false else bits

def computeRol (size : Nat) (ccDst : U64) (effectiveCount : Nat) (preserved : U64) : U64 :=
  if effectiveCount = 0 then preserved ||| Rflags.alwaysOne
  else
    let cf := ccDst &&& 1 != 0
    let bits := withBit preserved Rflags.cf cf
    let bits := if effectiveCount = 1 then
        withBit bits Rflags.of ((ccDst &&& signMask size != 0) != cf)
      else bits
    bits ||| Rflags.alwaysOne

def computeRor (size : Nat) (ccDst : U64) (effectiveCount : Nat) (preserved : U64) : U64 :=
  if effectiveCount = 0 then preserved ||| Rflags.alwaysOne
  else
    let sb := signMask size
    let cf := ccDst &&& sb != 0
    let bits := withBit preserved Rflags.cf cf
    let bits := if effectiveCount = 1 then
        withBit bits Rflags.of ((ccDst &&& sb != 0) != (ccDst &&& (sb >>> 1) != 0))
      else bits
    bits ||| Rflags.alwaysOne

def computeMulOv (preserved : U64) (overflow : Bool) : U64 :=
  withBit (withBit preserved Rflags.cf overflow) Rflags.of overflow ||| Rflags.alwaysOne

namespace Cpu

/-- The flags word recomputed from the pending operation, if there is one. -/
def syncBits (c : Cpu) : U64 :=
  match c.ccOp with
  | .eflags => c.rflags_
  | .logic => computeLogic c.ccSize c.ccDst
  | .add => computeAdd c.ccSize c.ccSrc c.ccDst
  | .adc => computeAdc c.ccSize c.ccSrc c.ccDst (c.ccSrc2 != 0)
  | .sub => computeSub c.ccSize c.ccSrc c.ccDst
  | .sbb => computeSbb c.ccSize c.ccSrc c.ccDst (c.ccSrc2 != 0)
  | .inc => computeInc c.ccSize (c.ccSrc != 0) c.ccDst
  | .dec => computeDec c.ccSize (c.ccSrc != 0) c.ccDst
  | .neg => computeNeg c.ccSize c.ccSrc c.ccDst
  | .shl => computeShl c.ccSize c.ccSrc c.ccDst (c.ccSrc2.toNat % 256)
  | .shr => computeShr c.ccSize c.ccSrc c.ccDst (c.ccSrc2.toNat % 256)
  | .sar => computeSar c.ccSize c.ccSrc c.ccDst (c.ccSrc2.toNat % 256)
  | .rol => computeRol c.ccSize c.ccDst (c.ccSrc2.toNat % 256) c.rflags_
  | .ror => computeRor c.ccSize c.ccDst (c.ccSrc2.toNat % 256) c.rflags_
  | .mulOv => computeMulOv c.rflags_ (c.ccSrc != 0)

/-- The bits a synchronisation writes. -/
def syncMask : U64 := Rflags.arithMask ||| Rflags.alwaysOne

/-- Bring `rflags_` up to date. Bits outside `syncMask` keep their value. -/
def syncFlags (c : Cpu) : Cpu :=
  if c.ccOp = .eflags then c
  else
    { c with
      rflags_ := (c.rflags_ &&& ~~~syncMask) ||| (c.syncBits &&& syncMask)
      ccOp := .eflags }

theorem syncFlags_of_eflags {c : Cpu} (h : c.ccOp = .eflags) : c.syncFlags = c := if_pos h

/-! ### Readers and direct writes -/

def rflags (c : Cpu) : U64 := c.syncFlags.rflags_ ||| Rflags.alwaysOne

def setRflags (c : Cpu) (v : U64) : Cpu := { c with rflags_ := v, ccOp := .eflags }

/-- A lazy flag, read through a synchronisation. -/
def flag (c : Cpu) (mask : U64) : Bool := c.syncFlags.rflags_ &&& mask != 0

def cf (c : Cpu) : Bool := c.flag Rflags.cf
def pf (c : Cpu) : Bool := c.flag Rflags.pf
def af (c : Cpu) : Bool := c.flag Rflags.af
def zf (c : Cpu) : Bool := c.flag Rflags.zf
def sf (c : Cpu) : Bool := c.flag Rflags.sf
def of (c : Cpu) : Bool := c.flag Rflags.of
/-- The direction flag is never stashed, so it is read without synchronising. -/
def df (c : Cpu) : Bool := c.rflags_ &&& Rflags.df != 0

/-- `set_cf` and its siblings: synchronise, then overwrite one bit. -/
def setFlag (c : Cpu) (mask : U64) (v : Bool) : Cpu :=
  { c.syncFlags with rflags_ := withBit c.syncFlags.rflags_ mask v }

def setCf (c : Cpu) (v : Bool) : Cpu := c.setFlag Rflags.cf v
def setPf (c : Cpu) (v : Bool) : Cpu := c.setFlag Rflags.pf v
def setAf (c : Cpu) (v : Bool) : Cpu := c.setFlag Rflags.af v
def setZf (c : Cpu) (v : Bool) : Cpu := c.setFlag Rflags.zf v
def setSf (c : Cpu) (v : Bool) : Cpu := c.setFlag Rflags.sf v
def setOf (c : Cpu) (v : Bool) : Cpu := c.setFlag Rflags.of v
def setDf (c : Cpu) (v : Bool) : Cpu := { c with rflags_ := withBit c.rflags_ Rflags.df v }

def condHolds (c : Cpu) (cc : Cc) : Bool :=
  match cc with
  | .o => c.of
  | .no => !c.of
  | .b => c.cf
  | .nb => !c.cf
  | .z => c.zf
  | .nz => !c.zf
  | .be => c.cf || c.zf
  | .nbe => !c.cf && !c.zf
  | .s => c.sf
  | .ns => !c.sf
  | .p => c.pf
  | .np => !c.pf
  | .l => c.sf != c.of
  | .nl => c.sf == c.of
  | .le => c.zf || (c.sf != c.of)
  | .nle => !c.zf && (c.sf == c.of)
  | .none => true

/-! ### Lazy entry points -/

/-- Record a pending operation. -/
def stash (c : Cpu) (op : CcOp) (size : Nat) (src dst src2 : U64) : Cpu :=
  { c with ccOp := op, ccSize := size, ccSrc := src, ccDst := dst, ccSrc2 := src2 }

def stashLogic (c : Cpu) (size : Nat) (r : U64) : Cpu := c.stash .logic size 0 r 0
def stashAdd (c : Cpu) (size : Nat) (b r : U64) : Cpu := c.stash .add size b r 0
def stashSub (c : Cpu) (size : Nat) (b r : U64) : Cpu := c.stash .sub size b r 0
def stashNeg (c : Cpu) (size : Nat) (a r : U64) : Cpu := c.stash .neg size a r 0

def stashAdc (c : Cpu) (size : Nat) (b : U64) (cin : Bool) (r : U64) : Cpu :=
  c.stash .adc size b r (if cin then 1 else 0)

def stashSbb (c : Cpu) (size : Nat) (b : U64) (bin : Bool) (r : U64) : Cpu :=
  c.stash .sbb size b r (if bin then 1 else 0)

/-- INC and DEC keep CF, so the old one is synchronised first and stashed. -/
def stashInc (c : Cpu) (size : Nat) (r : U64) : Cpu :=
  c.syncFlags.stash .inc size (if c.cf then 1 else 0) r 0

def stashDec (c : Cpu) (size : Nat) (r : U64) : Cpu :=
  c.syncFlags.stash .dec size (if c.cf then 1 else 0) r 0

/-- A shift by zero leaves the flags alone. -/
def stashShift (c : Cpu) (op : CcOp) (size : Nat) (original : U64) (count : Nat) (r : U64) :
    Cpu :=
  if count = 0 then c else c.stash op size original r (BitVec.ofNat 64 count)

def stashShl (c : Cpu) (size : Nat) (original : U64) (count : Nat) (r : U64) : Cpu :=
  c.stashShift .shl size original count r

def stashShr (c : Cpu) (size : Nat) (original : U64) (count : Nat) (r : U64) : Cpu :=
  c.stashShift .shr size original count r

def stashSar (c : Cpu) (size : Nat) (original : U64) (count : Nat) (r : U64) : Cpu :=
  c.stashShift .sar size original count r

/-- A rotation keeps ZF, SF, PF and AF, so they are synchronised before it is stashed.
The early return of the source tests `mod == 0 && count == 0`; the second test alone
decides it. -/
def stashRotate (c : Cpu) (op : CcOp) (size : Nat) (original : U64) (count : Nat) (r : U64) :
    Cpu :=
  if count &&& (size * 8 - 1) = 0 ∧ count = 0 then c
  else c.syncFlags.stash op size original r (BitVec.ofNat 64 count)

def stashRol (c : Cpu) (size : Nat) (original : U64) (count : Nat) (r : U64) : Cpu :=
  c.stashRotate .rol size original count r

def stashRor (c : Cpu) (size : Nat) (original : U64) (count : Nat) (r : U64) : Cpu :=
  c.stashRotate .ror size original count r

def stashMulOv (c : Cpu) (overflow : Bool) : Cpu :=
  c.syncFlags.stash .mulOv 8 (if overflow then 1 else 0) 0 0

end Cpu

/-! ### Bits of a flags word -/

theorem getLsbD_one_shiftLeft (n i : Nat) (hn : n < 64) :
    (1#64 <<< n).getLsbD i = decide (i = n) := by
  rw [← BitVec.twoPow_eq, BitVec.getLsbD_twoPow]
  by_cases h : i = n
  · simp [h, hn]
  · simp [h, hn, Ne.symm h]

theorem getLsbD_withBit (bits : U64) (n i : Nat) (on : Bool) (hn : n < 64) :
    (withBit bits (1#64 <<< n) on).getLsbD i = if i = n then on else bits.getLsbD i := by
  by_cases hi : i < 64
  · have hone := getLsbD_one_shiftLeft n i hn
    cases on
    · simp only [withBit, Bool.false_eq_true, if_false, BitVec.getLsbD_and, BitVec.getLsbD_not,
        hone, hi, decide_true, Bool.true_and]
      split <;> simp_all
    · simp only [withBit, if_true, BitVec.getLsbD_or, BitVec.getLsbD_and, BitVec.getLsbD_not,
        hone, hi, decide_true, Bool.true_and]
      split <;> simp_all
  · rw [if_neg (by omega), BitVec.getLsbD_of_ge _ _ (by omega), BitVec.getLsbD_of_ge _ _ (by omega)]

/-- The six arithmetic flags of a flags word. -/
structure ArithFlags where
  cf : Bool
  pf : Bool
  af : Bool
  zf : Bool
  sf : Bool
  of : Bool
  deriving DecidableEq

def arithFlags (x : U64) : ArithFlags :=
  { cf := x.getLsbD 0, pf := x.getLsbD 2, af := x.getLsbD 4,
    zf := x.getLsbD 6, sf := x.getLsbD 7, of := x.getLsbD 11 }

@[simp] theorem arithFlags_withBit_cf (bits : U64) (on : Bool) :
    arithFlags (withBit bits Rflags.cf on) = { arithFlags bits with cf := on } := by
  simp only [arithFlags, Rflags.cf, getLsbD_withBit _ 0 _ on (by omega)]
  rfl

@[simp] theorem arithFlags_withBit_pf (bits : U64) (on : Bool) :
    arithFlags (withBit bits Rflags.pf on) = { arithFlags bits with pf := on } := by
  simp only [arithFlags, Rflags.pf, getLsbD_withBit _ 2 _ on (by omega)]
  rfl

@[simp] theorem arithFlags_withBit_af (bits : U64) (on : Bool) :
    arithFlags (withBit bits Rflags.af on) = { arithFlags bits with af := on } := by
  simp only [arithFlags, Rflags.af, getLsbD_withBit _ 4 _ on (by omega)]
  rfl

@[simp] theorem arithFlags_withBit_zf (bits : U64) (on : Bool) :
    arithFlags (withBit bits Rflags.zf on) = { arithFlags bits with zf := on } := by
  simp only [arithFlags, Rflags.zf, getLsbD_withBit _ 6 _ on (by omega)]
  rfl

@[simp] theorem arithFlags_withBit_sf (bits : U64) (on : Bool) :
    arithFlags (withBit bits Rflags.sf on) = { arithFlags bits with sf := on } := by
  simp only [arithFlags, Rflags.sf, getLsbD_withBit _ 7 _ on (by omega)]
  rfl

@[simp] theorem arithFlags_withBit_of (bits : U64) (on : Bool) :
    arithFlags (withBit bits Rflags.of on) = { arithFlags bits with of := on } := by
  simp only [arithFlags, Rflags.of, getLsbD_withBit _ 11 _ on (by omega)]
  rfl

/-- Testing a one-bit mask reads that bit. -/
theorem and_shl_bne_zero (x : U64) (n : Nat) (hn : n < 64) :
    (x &&& (1#64 <<< n) != 0) = x.getLsbD n := by
  have hone (i : Nat) := getLsbD_one_shiftLeft n i hn
  cases hx : x.getLsbD n with
  | true =>
      have hbit : (x &&& (1#64 <<< n)).getLsbD n = true := by
        rw [BitVec.getLsbD_and, hx, hone, decide_eq_true rfl, Bool.and_true]
      refine bne_iff_ne.mpr fun hzero => ?_
      rw [hzero] at hbit
      simp at hbit
  | false =>
      refine bne_eq_false_iff_eq.mpr ?_
      apply BitVec.eq_of_getLsbD_eq
      intro i _
      rw [BitVec.getLsbD_and, hone]
      by_cases h : i = n
      · simp [h, hx]
      · simp [h]

/-- The three result flags as three bit writes. -/
theorem applyZsp_eq (bits : U64) (size : Nat) (result : U64) :
    applyZsp bits size result =
      withBit (withBit (withBit bits Rflags.zf (result &&& maskFor size == 0))
        Rflags.sf (result &&& maskFor size &&& signMask size != 0))
        Rflags.pf (parity8 ((result &&& maskFor size).setWidth 8)) := by
  apply BitVec.eq_of_getLsbD_eq
  intro i _
  have hzf : Rflags.zf.getLsbD i = decide (i = 6) := getLsbD_one_shiftLeft 6 i (by omega)
  have hsf : Rflags.sf.getLsbD i = decide (i = 7) := getLsbD_one_shiftLeft 7 i (by omega)
  have hpf : Rflags.pf.getLsbD i = decide (i = 2) := getLsbD_one_shiftLeft 2 i (by omega)
  have hwrite (n : Nat) (hn : n < 64) (bits : U64) (on : Bool) :=
    getLsbD_withBit bits n i on hn
  rw [Rflags.pf, hwrite 2 (by omega), Rflags.sf, hwrite 7 (by omega), Rflags.zf,
    hwrite 6 (by omega)]
  simp only [applyZsp]
  split <;> split <;> split <;>
    simp only [BitVec.getLsbD_or, BitVec.getLsbD_and, BitVec.getLsbD_not, hzf, hsf, hpf] <;>
    grind

@[simp] theorem arithFlags_applyZsp (bits : U64) (size : Nat) (result : U64) :
    arithFlags (applyZsp bits size result) =
      { arithFlags bits with
        zf := result &&& maskFor size == 0
        sf := result &&& maskFor size &&& signMask size != 0
        pf := parity8 ((result &&& maskFor size).setWidth 8) } := by
  rw [applyZsp_eq, arithFlags_withBit_pf, arithFlags_withBit_sf, arithFlags_withBit_zf]

@[simp] theorem applyZsp_masked (bits : U64) (size : Nat) (result : U64) :
    applyZsp bits size (result &&& maskFor size) = applyZsp bits size result := by
  simp only [applyZsp, and_maskFor_idem]

@[simp] theorem arithFlags_alwaysOne :
    arithFlags Rflags.alwaysOne =
      { cf := false, pf := false, af := false, zf := false, sf := false, of := false } := by
  decide

end PicoCpu
