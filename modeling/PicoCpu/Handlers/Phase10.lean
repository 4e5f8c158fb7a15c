import PicoCpu.Handlers.Misc
import PicoCpu.Handlers.Sse4Aes

/-!
VEX-encoded three-operand forms of SSE handlers, SHA-NI and the SSE4.2 string compares.
-/

namespace PicoCpu

open H

namespace Handlers

/-- A VEX-encoded write to a register clears it above 128 bits. -/
def write16To (insn : Insn) (op : Operand) (v : Buf) : H Unit := do
  sse4Io.write insn op 16 v
  if op.kind = .xmm ∧ insn.flags.vex then Proc.modify fun c => c.zeroYmmUpper op.reg

/-- `vex_binop_xmm`: the first source is the register `dst.index`. -/
def vexBinopXmm (f : Insn → Buf → Buf → Buf) (insn : Insn) : H Unit := do
  let a ← gets fun c => c.zmm insn.dst.index
  let b ← sse4Io.read insn insn.src 16
  write16To insn insn.dst (f insn a b)

def opVpshufb : Insn → H Unit := vexBinopXmm fun _ => shuffleBytes

/-! ### AES

The file has its own tables and steps. -/

namespace Phase10

def sboxTable : List U8 :=
  [0x63, 0x7c, 0x77, 0x7b, 0xf2, 0x6b, 0x6f, 0xc5, 0x30, 0x01, 0x67, 0x2b, 0xfe, 0xd7, 0xab, 0x76,
   0xca, 0x82, 0xc9, 0x7d, 0xfa, 0x59, 0x47, 0xf0, 0xad, 0xd4, 0xa2, 0xaf, 0x9c, 0xa4, 0x72, 0xc0,
   0xb7, 0xfd, 0x93, 0x26, 0x36, 0x3f, 0xf7, 0xcc, 0x34, 0xa5, 0xe5, 0xf1, 0x71, 0xd8, 0x31, 0x15,
   0x04, 0xc7, 0x23, 0xc3, 0x18, 0x96, 0x05, 0x9a, 0x07, 0x12, 0x80, 0xe2, 0xeb, 0x27, 0xb2, 0x75,
   0x09, 0x83, 0x2c, 0x1a, 0x1b, 0x6e, 0x5a, 0xa0, 0x52, 0x3b, 0xd6, 0xb3, 0x29, 0xe3, 0x2f, 0x84,
   0x53, 0xd1, 0x00, 0xed, 0x20, 0xfc, 0xb1, 0x5b, 0x6a, 0xcb, 0xbe, 0x39, 0x4a, 0x4c, 0x58, 0xcf,
   0xd0, 0xef, 0xaa, 0xfb, 0x43, 0x4d, 0x33, 0x85, 0x45, 0xf9, 0x02, 0x7f, 0x50, 0x3c, 0x9f, 0xa8,
   0x51, 0xa3, 0x40, 0x8f, 0x92, 0x9d, 0x38, 0xf5, 0xbc, 0xb6, 0xda, 0x21, 0x10, 0xff, 0xf3, 0xd2,
   0xcd, 0x0c, 0x13, 0xec, 0x5f, 0x97, 0x44, 0x17, 0xc4, 0xa7, 0x7e, 0x3d, 0x64, 0x5d, 0x19, 0x73,
   0x60, 0x81, 0x4f, 0xdc, 0x22, 0x2a, 0x90, 0x88, 0x46, 0xee, 0xb8, 0x14, 0xde, 0x5e, 0x0b, 0xdb,
   0xe0, 0x32, 0x3a, 0x0a, 0x49, 0x06, 0x24, 0x5c, 0xc2, 0xd3, 0xac, 0x62, 0x91, 0x95, 0xe4, 0x79,
   0xe7, 0xc8, 0x37, 0x6d, 0x8d, 0xd5, 0x4e, 0xa9, 0x6c, 0x56, 0xf4, 0xea, 0x65, 0x7a, 0xae, 0x08,
   0xba, 0x78, 0x25, 0x2e, 0x1c, 0xa6, 0xb4, 0xc6, 0xe8, 0xdd, 0x74, 0x1f, 0x4b, 0xbd, 0x8b, 0x8a,
   0x70, 0x3e, 0xb5, 0x66, 0x48, 0x03, 0xf6, 0x0e, 0x61, 0x35, 0x57, 0xb9, 0x86, 0xc1, 0x1d, 0x9e,
   0xe1, 0xf8, 0x98, 0x11, 0x69, 0xd9, 0x8e, 0x94, 0x9b, 0x1e, 0x87, 0xe9, 0xce, 0x55, 0x28, 0xdf,
   0x8c, 0xa1, 0x89, 0x0d, 0xbf, 0xe6, 0x42, 0x68, 0x41, 0x99, 0x2d, 0x0f, 0xb0, 0x54, 0xbb, 0x16]

def invSboxTable : List U8 :=
  [0x52, 0x09, 0x6a, 0xd5, 0x30, 0x36, 0xa5, 0x38, 0xbf, 0x40, 0xa3, 0x9e, 0x81, 0xf3, 0xd7, 0xfb,
   0x7c, 0xe3, 0x39, 0x82, 0x9b, 0x2f, 0xff, 0x87, 0x34, 0x8e, 0x43, 0x44, 0xc4, 0xde, 0xe9, 0xcb,
   0x54, 0x7b, 0x94, 0x32, 0xa6, 0xc2, 0x23, 0x3d, 0xee, 0x4c, 0x95, 0x0b, 0x42, 0xfa, 0xc3, 0x4e,
   0x08, 0x2e, 0xa1, 0x66, 0x28, 0xd9, 0x24, 0xb2, 0x76, 0x5b, 0xa2, 0x49, 0x6d, 0x8b, 0xd1, 0x25,
   0x72, 0xf8, 0xf6, 0x64, 0x86, 0x68, 0x98, 0x16, 0xd4, 0xa4, 0x5c, 0xcc, 0x5d, 0x65, 0xb6, 0x92,
   0x6c, 0x70, 0x48, 0x50, 0xfd, 0xed, 0xb9, 0xda, 0x5e, 0x15, 0x46, 0x57, 0xa7, 0x8d, 0x9d, 0x84,
   0x90, 0xd8, 0xab, 0x00, 0x8c, 0xbc, 0xd3, 0x0a, 0xf7, 0xe4, 0x58, 0x05, 0xb8, 0xb3, 0x45, 0x06,
   0xd0, 0x2c, 0x1e, 0x8f, 0xca, 0x3f, 0x0f, 0x02, 0xc1, 0xaf, 0xbd, 0x03, 0x01, 0x13, 0x8a, 0x6b,
   0x3a, 0x91, 0x11, 0x41, 0x4f, 0x67, 0xdc, 0xea, 0x97, 0xf2, 0xcf, 0xce, 0xf0, 0xb4, 0xe6, 0x73,
   0x96, 0xac, 0x74, 0x22, 0xe7, 0xad, 0x35, 0x85, 0xe2, 0xf9, 0x37, 0xe8, 0x1c, 0x75, 0xdf, 0x6e,
   0x47, 0xf1, 0x1a, 0x71, 0x1d, 0x29, 0xc5, 0x89, 0x6f, 0xb7, 0x62, 0x0e, 0xaa, 0x18, 0xbe, 0x1b,
   0xfc, 0x56, 0x3e, 0x4b, 0xc6, 0xd2, 0x79, 0x20, 0x9a, 0xdb, 0xc0, 0xfe, 0x78, 0xcd, 0x5a, 0xf4,
   0x1f, 0xdd, 0xa8, 0x33, 0x88, 0x07, 0xc7, 0x31, 0xb1, 0x12, 0x10, 0x59, 0x27, 0x80, 0xec, 0x5f,
   0x60, 0x51, 0x7f, 0xa9, 0x19, 0xb5, 0x4a, 0x0d, 0x2d, 0xe5, 0x7a, 0x9f, 0x93, 0xc9, 0x9c, 0xef,
   0xa0, 0xe0, 0x3b, 0x4d, 0xae, 0x2a, 0xf5, 0xb0, 0xc8, 0xeb, 0xbb, 0x3c, 0x83, 0x53, 0x99, 0x61,
   0x17, 0x2b, 0x04, 0x7e, 0xba, 0x77, 0xd6, 0x26, 0xe1, 0x69, 0x14, 0x63, 0x55, 0x21, 0x0c, 0x7d]

def sbox (b : U8) : U8 := sboxTable.getD b.toNat 0
def invSbox (b : U8) : U8 := invSboxTable.getD b.toNat 0

def xt (v : U8) : U8 := (v <<< 1) ^^^ (if v &&& 0x80 != 0 then 0x1B else 0)

/-- The byte that ends up at each place. -/
def rowsFrom : List Nat := [0, 5, 10, 15, 4, 9, 14, 3, 8, 13, 2, 7, 12, 1, 6, 11]
def invRowsFrom : List Nat := [0, 13, 10, 7, 4, 1, 14, 11, 8, 5, 2, 15, 12, 9, 6, 3]

def shiftRows (s : Buf) : Buf := fun i => s (rowsFrom.getD i 0)
def invShiftRows (s : Buf) : Buf := fun i => s (invRowsFrom.getD i 0)

def subBytes (s : Buf) : Buf := fun i => sbox (s i)
def invSubBytes (s : Buf) : Buf := fun i => invSbox (s i)

/-- One byte of a column: the four bytes from that one on, cyclically. -/
def mixByte (a0 a1 a2 a3 : U8) : U8 := a0 ^^^ (a0 ^^^ a1 ^^^ a2 ^^^ a3) ^^^ xt (a0 ^^^ a1)

def invMixByte (a0 a1 a2 a3 : U8) : U8 :=
  a0 ^^^ xt (xt (a0 ^^^ a1 ^^^ a2 ^^^ a3)) ^^^ xt (a0 ^^^ a1) ^^^ xt (a0 ^^^ a2) ^^^
    xt (xt (a0 ^^^ a2))

/-- Each byte from the four of its column. -/
def onColumns (f : U8 → U8 → U8 → U8 → U8) (s : Buf) : Buf := fun i =>
  let a := fun r => s (4 * (i / 4) + r)
  match i % 4 with
  | 0 => f (a 0) (a 1) (a 2) (a 3)
  | 1 => f (a 1) (a 2) (a 3) (a 0)
  | 2 => f (a 2) (a 3) (a 0) (a 1)
  | _ => f (a 3) (a 0) (a 1) (a 2)

def mixColumns : Buf → Buf := onColumns mixByte
def invMixColumns : Buf → Buf := onColumns invMixByte

def xorKey (s k : Buf) : Buf := fun i => s i ^^^ k i

end Phase10

def opVaesenc : Insn → H Unit :=
  vexBinopXmm fun _ s k =>
    Phase10.xorKey (Phase10.mixColumns (Phase10.subBytes (Phase10.shiftRows s))) k
def opVaesenclast : Insn → H Unit :=
  vexBinopXmm fun _ s k => Phase10.xorKey (Phase10.subBytes (Phase10.shiftRows s)) k
def opVaesdec : Insn → H Unit :=
  vexBinopXmm fun _ s k =>
    Phase10.xorKey (Phase10.invMixColumns (Phase10.invSubBytes (Phase10.invShiftRows s))) k
def opVaesdeclast : Insn → H Unit :=
  vexBinopXmm fun _ s k => Phase10.xorKey (Phase10.invSubBytes (Phase10.invShiftRows s)) k

def opVpcmpgtq : Insn → H Unit := vexBinopXmm fun _ => map64 fun a b => ones (b.slt a)

def opVpclmulqdq : Insn → H Unit := vexBinopXmm fun insn => clmulSelected (imm8 insn)

/-! ### SHA -/

/-- Both operands read, `f` of them written back. -/
def shaBinary (f : Insn → Buf → Buf → Buf) (insn : Insn) : H Unit := do
  let dst ← sse4Io.read insn insn.dst 16
  let src ← sse4Io.read insn insn.src 16
  write16To insn insn.dst (f insn dst src)

/-- Four lanes, from the lowest up. -/
def lanes32 (l0 l1 l2 l3 : U32) : Buf := packU32 fun i =>
  match i with
  | 0 => l0
  | 1 => l1
  | 2 => l2
  | _ => l3

def sha1F (b c d : U32) (t : Nat) : U32 :=
  if t ≤ 19 then (b &&& c) ||| (~~~b &&& d)
  else if t ≤ 39 then b ^^^ c ^^^ d
  else if t ≤ 59 then (b &&& c) ||| (b &&& d) ||| (c &&& d)
  else b ^^^ c ^^^ d

def sha1K (t : Nat) : U32 :=
  if t ≤ 19 then 0x5A827999
  else if t ≤ 39 then 0x6ED9EBA1
  else if t ≤ 59 then 0x8F1BBCDC
  else 0xCA62C1D6

/-- The working variables `a`, `b`, `c`, `d` after `n` rounds from round `i` on. -/
def sha1Rounds (src : Buf) (baseT : Nat) : Nat → Nat → U32 × U32 × U32 × U32 →
    U32 × U32 × U32 × U32
  | 0, _, v => v
  | n + 1, i, (a, b, c, d) =>
    let w := laneU32 src (3 - i)
    let t := a.rotateLeft 5 + sha1F b c d (baseT + i) + sha1K (baseT + i) + w
    sha1Rounds src baseT n (i + 1) (t, a, b.rotateLeft 30, c)

def opSha1rnds4 : Insn → H Unit :=
  shaBinary fun insn dst src =>
    let group := (imm8 insn &&& 3).toNat
    let (a, b, c, d) := sha1Rounds src (group * 20) 4 0
      (laneU32 dst 3, laneU32 dst 2, laneU32 dst 1, laneU32 dst 0)
    lanes32 d c b a

def opSha1nexte : Insn → H Unit :=
  shaBinary fun _ dst src =>
    lanes32 (laneU32 src 0) (laneU32 src 1) (laneU32 src 2)
      (laneU32 src 3 + (laneU32 dst 3).rotateLeft 30)

def opSha1msg1 : Insn → H Unit :=
  shaBinary fun _ dst src =>
    lanes32 (laneU32 dst 0) (laneU32 dst 1) (laneU32 dst 2 ^^^ laneU32 dst 0)
      (laneU32 dst 3 ^^^ laneU32 src 3)

def opSha1msg2 : Insn → H Unit :=
  shaBinary fun _ dst src =>
    let w16 := (laneU32 dst 3 ^^^ laneU32 src 2).rotateLeft 1
    let w17 := (laneU32 dst 2 ^^^ laneU32 src 1).rotateLeft 1
    let w18 := (laneU32 dst 1 ^^^ laneU32 src 0).rotateLeft 1
    lanes32 ((laneU32 dst 0 ^^^ w16).rotateLeft 1) w18 w17 w16

def ch (x y z : U32) : U32 := (x &&& y) ^^^ (~~~x &&& z)
def maj (x y z : U32) : U32 := (x &&& y) ^^^ (x &&& z) ^^^ (y &&& z)
def bigSigma0 (x : U32) : U32 := x.rotateRight 2 ^^^ x.rotateRight 13 ^^^ x.rotateRight 22
def bigSigma1 (x : U32) : U32 := x.rotateRight 6 ^^^ x.rotateRight 11 ^^^ x.rotateRight 25
def sigma0 (x : U32) : U32 := x.rotateRight 7 ^^^ x.rotateRight 18 ^^^ (x >>> 3)
def sigma1 (x : U32) : U32 := x.rotateRight 17 ^^^ x.rotateRight 19 ^^^ (x >>> 10)

/-- The eight working variables of SHA-256. -/
structure Sha256Vars where
  a : U32
  b : U32
  c : U32
  d : U32
  e : U32
  f : U32
  g : U32
  h : U32

def Sha256Vars.round (v : Sha256Vars) (wk : U32) : Sha256Vars :=
  let t1 := v.h + bigSigma1 v.e + ch v.e v.f v.g + wk
  let t2 := bigSigma0 v.a + maj v.a v.b v.c
  { a := t1 + t2, b := v.a, c := v.b, d := v.c, e := v.d + t1, f := v.e, g := v.f, h := v.g }

/-- The message words plus constants come from `XMM0`. -/
def opSha256rnds2 (insn : Insn) : H Unit := do
  let dst ← sse4Io.read insn insn.dst 16
  let src ← sse4Io.read insn insn.src 16
  let xmm0 ← gets fun c => c.zmm 0
  let v : Sha256Vars :=
    { a := laneU32 src 3, b := laneU32 src 2, c := laneU32 dst 3, d := laneU32 dst 2
      e := laneU32 src 1, f := laneU32 src 0, g := laneU32 dst 1, h := laneU32 dst 0 }
  let v := (v.round (laneU32 xmm0 0)).round (laneU32 xmm0 1)
  write16To insn insn.dst (lanes32 v.f v.e v.b v.a)

/-- Lanes are updated in place from the lowest up, so each later lane adds the schedule
function of its already updated neighbour. -/
def opSha256msg1 : Insn → H Unit :=
  shaBinary fun _ dst src =>
    let l0 := laneU32 dst 0 + sigma0 (laneU32 src 3)
    let l1 := laneU32 dst 1 + sigma0 l0
    let l2 := laneU32 dst 2 + sigma0 l1
    lanes32 l0 l1 l2 (laneU32 dst 3 + sigma0 l2)

def opSha256msg2 : Insn → H Unit :=
  shaBinary fun _ dst src =>
    let w16 := laneU32 dst 0 + sigma1 (laneU32 src 2)
    let w17 := laneU32 dst 1 + sigma1 (laneU32 src 3)
    lanes32 w16 w17 (laneU32 dst 2 + sigma1 w16) (laneU32 dst 3 + sigma1 w17)

/-! ### String compares -/

/-- The control byte of a string compare. -/
structure StrCtrl where
  isWord : Bool
  aggMode : Nat
  polarity : Nat
  bit6 : Bool

def strCtrl (imm : U8) : StrCtrl where
  isWord := imm &&& 1 != 0
  aggMode := ((imm >>> 2) &&& 3).toNat
  polarity := ((imm >>> 4) &&& 3).toNat
  bit6 := imm &&& 0x40 != 0

namespace StrCtrl

def lanes (k : StrCtrl) : Nat := if k.isWord then 8 else 16

/-- Lane `i`, as a word. -/
def lane (k : StrCtrl) (b : Buf) (i : Nat) : U16 :=
  if k.isWord then laneU16 b i else (b i).setWidth 16

/-- An explicit length, clamped to the lane count. -/
def explicitLen (k : StrCtrl) (v : U64) : Nat := if v.toNat < k.lanes then v.toNat else k.lanes

/-- An implicit length: up to the first zero lane. -/
def implicitLen (k : StrCtrl) (b : Buf) : Nat :=
  ((List.range k.lanes).find? fun i => k.lane b i == 0).getD k.lanes

/-- The mask with the bits at which `p` holds. -/
def maskWhere (k : StrCtrl) (p : Nat → Bool) : U16 :=
  (List.range k.lanes).foldl (fun m i => if p i then m ||| (1#16 <<< i) else m) 0

/-- Mode 1 looks for every lane of `b` in `a`; the other modes compare lane by lane. -/
def aggregate (k : StrCtrl) (a b : Buf) (lenA lenB : Nat) : U16 :=
  if k.aggMode = 1 then
    k.maskWhere fun j => decide (j < lenB) && (List.range lenA).any fun i => k.lane a i == k.lane b j
  else k.maskWhere fun i => decide (i < lenA) && decide (i < lenB) && k.lane a i == k.lane b i

/-- All sixteen bits are negated, also for words. -/
def mask (k : StrCtrl) (a b : Buf) (lenA lenB : Nat) : U16 :=
  let m := k.aggregate a b lenA lenB
  if k.polarity = 1 then ~~~m else m

/-- The index form: the first or last set lane, the lane count when there is none. -/
def index (k : StrCtrl) (m : U16) : Nat :=
  let order := if k.bit6 then (List.range k.lanes).reverse else List.range k.lanes
  (order.find? fun i => m.getLsbD i).getD k.lanes

/-- The mask form: one bit a lane, or whole lanes of ones. -/
def expand (k : StrCtrl) (m : U16) : Buf :=
  if k.bit6 then fun i =>
    ones (m.getLsbD (if k.isWord then i / 2 else i) && decide (i < 16))
  else fun i => if i < k.lanes / 8 then (m >>> (8 * i)).setWidth 8 else 0

end StrCtrl

/-- CF, ZF, SF and OF of a string compare. -/
def strFlags (k : StrCtrl) (m : U16) (lenA lenB : Nat) (c : Cpu) : Cpu :=
  (((((c.syncFlags.setCf (m != 0)).setZf (decide (lenB < k.lanes))).setSf
    (decide (lenA < k.lanes))).setOf (m.getLsbD 0)).setPf false).setAf false

/-- `pcmpstr_core`. -/
def pcmpstrCore (isExplicit indexForm : Bool) (insn : Insn) : H Unit := do
  let a ← sse4Io.read insn insn.dst 16
  let b ← sse4Io.read insn insn.src 16
  let k := strCtrl (imm8 insn)
  let (lenA, lenB) ← gets fun c =>
    if isExplicit then (k.explicitLen (c.r32 Reg.rax), k.explicitLen (c.r32 Reg.rdx))
    else (k.implicitLen a, k.implicitLen b)
  let m := k.mask a b lenA lenB
  if indexForm then Proc.modify fun c => c.setR64 Reg.rcx (BitVec.ofNat 64 (k.index m))
  else Proc.modify fun c => c.setZmmBytes 0 0 16 (k.expand m)
  Proc.modify (strFlags k m lenA lenB)

def opPcmpestri : Insn → H Unit := pcmpstrCore true true
def opPcmpestrm : Insn → H Unit := pcmpstrCore true false
def opPcmpistri : Insn → H Unit := pcmpstrCore false true
def opPcmpistrm : Insn → H Unit := pcmpstrCore false false

end Handlers

end PicoCpu
