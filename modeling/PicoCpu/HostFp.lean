import PicoCpu.Word

/-!
The host's floating point, as far as the handlers rely on it: values are bit patterns, and
the operations of the C++ expressions are fields.
-/

namespace PicoCpu

/-- The host's rounding mode: as found, or one an instruction selected. -/
inductive HostRounding where
  | current | nearest | downward | upward | towardZero
  deriving DecidableEq

/-- The operations on one floating-point type. -/
structure FpOps (w : Nat) where
  add : BitVec w → BitVec w → BitVec w
  sub : BitVec w → BitVec w → BitVec w
  mul : BitVec w → BitVec w → BitVec w
  div : BitVec w → BitVec w → BitVec w
  sqrt : BitVec w → BitVec w
  lt : BitVec w → BitVec w → Bool
  eq : BitVec w → BitVec w → Bool
  nearbyint : BitVec w → BitVec w
  floor : BitVec w → BitVec w
  ceil : BitVec w → BitVec w
  trunc : BitVec w → BitVec w
  /-- `static_cast<T>` of an `i64`. -/
  ofI64 : U64 → BitVec w
  /-- `static_cast<i64>` of a value. -/
  toI64 : BitVec w → U64
  deriving Inhabited

structure HostFp where
  f32 : HostRounding → FpOps 32
  f64 : HostRounding → FpOps 64
  toDouble : U32 → U64
  toFloat : U64 → U32
  /-- `static_cast<double>` of a `u64`. -/
  ofU64 : U64 → U64
  ldexp : U64 → Int → U64
  /-- `static_cast<int>` of a double. -/
  toInt : U64 → Int
  sin : U64 → U64
  cos : U64 → U64
  atan2 : U64 → U64 → U64
  log2 : U64 → U64
  pow : U64 → U64 → U64
  deriving Inhabited

/-- One, in both formats. -/
def oneF32 : U32 := 0x3F800000
def oneF64 : U64 := 0x3FF0000000000000
def twoF64 : U64 := 0x4000000000000000

def isNanF32 (x : U32) : Bool := (0x7F800000#32).ult (x &&& 0x7FFFFFFF)
def isNanF64 (x : U64) : Bool := (0x7FF0000000000000#64).ult (x &&& 0x7FFFFFFFFFFFFFFF)

def negF64 (x : U64) : U64 := x ^^^ (1#64 <<< 63)
def absF64 (x : U64) : U64 := x &&& ~~~(1#64 <<< 63)

end PicoCpu
