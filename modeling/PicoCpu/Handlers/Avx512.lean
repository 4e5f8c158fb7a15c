import PicoCpu.Handlers.Lanes

/-!
EVEX-encoded handlers. `pad` holds the opmask register (bits 0 to 2), zeroing (bit 3),
broadcast (bit 4) and, for register forms with that bit, the rounding control.
-/

namespace PicoCpu

open H

namespace Handlers

def evexIo : VecIo where
  readNote := "evex read"
  writeNote := ""

def opmask (insn : Insn) : Nat := (insn.pad &&& 7).toNat
def isZeroing (insn : Insn) : Bool := insn.pad &&& 8 != 0
def isBroadcast (insn : Insn) : Bool := insn.pad &&& 0x10 != 0

/-- The lanes that are written; opmask 0 means all. -/
def maskBits (insn : Insn) (c : Cpu) : U64 :=
  if opmask insn = 0 then ~~~0#64 else c.kreg (opmask insn)

/-- Per lane of `size` bytes: the result, zero, or the previous value. -/
def maskLanes (size : Nat) (insn : Insn) (bits : U64) (result prev : Buf) : Buf := fun i =>
  if bitAt bits (i / size) then result i else if isZeroing insn then 0 else prev i

/-- The destination is always a register: its low `opSize` bytes, then zeros. -/
def writeZmm (insn : Insn) (v : Buf) : H Unit := Proc.modify fun c =>
  (c.setZmmBytes insn.dst.reg 0 insn.opSize v).zeroZmmUpper insn.dst.reg insn.opSize

/-- `masked_binop`. -/
def maskedBinop (size : Nat) (f : Buf → Buf → Buf) (insn : Insn) : H Unit := do
  let bits ← gets (maskBits insn)
  let a ← gets fun c => c.zmm insn.dst.index
  let b ← evexIo.read insn insn.src insn.opSize
  let prev ← gets fun c => c.zmm insn.dst.reg
  writeZmm insn (maskLanes size insn bits (f a b) prev)

/-- `masked_move`. -/
def maskedMove (size : Nat) (insn : Insn) : H Unit := do
  let bits ← gets (maskBits insn)
  let src ← evexIo.read insn insn.src insn.opSize
  let prev ← gets fun c => c.zmm insn.dst.reg
  writeZmm insn (maskLanes size insn bits src prev)

def opVpxord : Insn → H Unit := maskedBinop 4 (map8 fun a b => a ^^^ b)
def opVpxorq : Insn → H Unit := maskedBinop 8 (map8 fun a b => a ^^^ b)
def opVpandd : Insn → H Unit := maskedBinop 4 (map8 fun a b => a &&& b)
def opVpandq : Insn → H Unit := maskedBinop 8 (map8 fun a b => a &&& b)
def opVpord : Insn → H Unit := maskedBinop 4 (map8 fun a b => a ||| b)
def opVporq : Insn → H Unit := maskedBinop 8 (map8 fun a b => a ||| b)

def opVpaddbEvex : Insn → H Unit := maskedBinop 1 (map8 fun a b => a + b)
def opVpaddwEvex : Insn → H Unit := maskedBinop 2 (map16 fun a b => a + b)
def opVpadddEvex : Insn → H Unit := maskedBinop 4 (map32 fun a b => a + b)
def opVpaddqEvex : Insn → H Unit := maskedBinop 8 (map64 fun a b => a + b)
def opVpsubbEvex : Insn → H Unit := maskedBinop 1 (map8 fun a b => a - b)
def opVpsubwEvex : Insn → H Unit := maskedBinop 2 (map16 fun a b => a - b)
def opVpsubdEvex : Insn → H Unit := maskedBinop 4 (map32 fun a b => a - b)
def opVpsubqEvex : Insn → H Unit := maskedBinop 8 (map64 fun a b => a - b)

def opVmovdqu32 : Insn → H Unit := maskedMove 4
def opVmovdqu64 : Insn → H Unit := maskedMove 8
def opVmovdqa32 : Insn → H Unit := maskedMove 4
def opVmovdqa64 : Insn → H Unit := maskedMove 8

/-! ### Floating point -/

/-- `read_vec_or_broadcast`: with the broadcast bit a memory source is one element. -/
def readVecOrBroadcast (size : Nat) (insn : Insn) (op : Operand) : H Buf :=
  if op.kind = .xmm then gets fun c => c.zmm op.reg
  else do
    let rip ← gets Cpu.rip
    requireAttached false rip "evex fp read"
    let addr ← gets fun c => ea c insn op
    if isBroadcast insn then do
      let lane ← load addr size pageFault "evex bcast read"
      pure fun i => lane (i % size)
    else load addr insn.opSize pageFault "evex fp read"

/-- The rounding `ScopedFpRound` installs: that of `pad` for a register source with bit 4. -/
def fpRounding (insn : Insn) : HostRounding :=
  if insn.src.kind = .xmm ∧ isBroadcast insn then
    match ((insn.pad >>> 5) &&& 3).toNat with
    | 0 => .nearest
    | 1 => .downward
    | 2 => .upward
    | _ => .towardZero
  else .current

/-- `fp_binop`. -/
def fpBinop (size : Nat) (f : HostRounding → Buf → Buf → Buf) (insn : Insn) : H Unit := do
  let bits ← gets (maskBits insn)
  let a ← gets fun c => c.zmm insn.dst.index
  let b ← readVecOrBroadcast size insn insn.src
  let prev ← gets fun c => c.zmm insn.dst.reg
  writeZmm insn (maskLanes size insn bits (f (fpRounding insn) a b) prev)

/-- `fp_unop`, which installs no rounding mode. -/
def fpUnop (size : Nat) (f : Buf → Buf) (insn : Insn) : H Unit := do
  let bits ← gets (maskBits insn)
  let src ← readVecOrBroadcast size insn insn.src
  let prev ← gets fun c => c.zmm insn.dst.reg
  writeZmm insn (maskLanes size insn bits (f src) prev)

section Arithmetic

variable (fp : HostFp)

/-- The Intel rule: the second source when either is NaN or both are zero. -/
def pickSecond {w : Nat} (isNan : BitVec w → Bool) (ops : FpOps w) (first : Bool)
    (a b : BitVec w) : BitVec w :=
  if isNan a || isNan b || (ops.eq a 0 && ops.eq b 0) then b else if first then a else b

def evexMin32 (a b : U32) : U32 :=
  pickSecond isNanF32 (fp.f32 .current) ((fp.f32 .current).lt a b) a b
def evexMax32 (a b : U32) : U32 :=
  pickSecond isNanF32 (fp.f32 .current) ((fp.f32 .current).lt b a) a b
def evexMin64 (a b : U64) : U64 :=
  pickSecond isNanF64 (fp.f64 .current) ((fp.f64 .current).lt a b) a b
def evexMax64 (a b : U64) : U64 :=
  pickSecond isNanF64 (fp.f64 .current) ((fp.f64 .current).lt b a) a b

def opVaddpsEvex : Insn → H Unit := fpBinop 4 fun rc => map32 (fp.f32 rc).add
def opVaddpdEvex : Insn → H Unit := fpBinop 8 fun rc => map64 (fp.f64 rc).add
def opVsubpsEvex : Insn → H Unit := fpBinop 4 fun rc => map32 (fp.f32 rc).sub
def opVsubpdEvex : Insn → H Unit := fpBinop 8 fun rc => map64 (fp.f64 rc).sub
def opVmulpsEvex : Insn → H Unit := fpBinop 4 fun rc => map32 (fp.f32 rc).mul
def opVmulpdEvex : Insn → H Unit := fpBinop 8 fun rc => map64 (fp.f64 rc).mul
def opVdivpsEvex : Insn → H Unit := fpBinop 4 fun rc => map32 (fp.f32 rc).div
def opVdivpdEvex : Insn → H Unit := fpBinop 8 fun rc => map64 (fp.f64 rc).div
def opVminpsEvex : Insn → H Unit := fpBinop 4 fun _ => map32 (evexMin32 fp)
def opVminpdEvex : Insn → H Unit := fpBinop 8 fun _ => map64 (evexMin64 fp)
def opVmaxpsEvex : Insn → H Unit := fpBinop 4 fun _ => map32 (evexMax32 fp)
def opVmaxpdEvex : Insn → H Unit := fpBinop 8 fun _ => map64 (evexMax64 fp)
def opVsqrtpsEvex : Insn → H Unit :=
  fpUnop 4 fun s => packU32 fun i => (fp.f32 .current).sqrt (laneU32 s i)
def opVsqrtpdEvex : Insn → H Unit :=
  fpUnop 8 fun s => packU64 fun i => (fp.f64 .current).sqrt (laneU64 s i)

end Arithmetic

end Handlers

end PicoCpu
