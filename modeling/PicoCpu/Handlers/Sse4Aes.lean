import PicoCpu.Handlers.Lanes

/-!
SSSE3 and SSE4 extras, AES-NI, CRC32 and carry-less multiplication.
-/

namespace PicoCpu

open H

namespace Handlers

def sse4Io : VecIo where
  readNote := "read16"
  writeNote := "write16"

/-! ### AES -/

def sboxTable : List U8 :=
  [0x63, 0x7c, 0x77, 0x7b, 0xf2, 0x6b, 0x6f, 0xc5, 0x30, 0x01, 0x67, 0x2b, 0xfe, 0xd7, 0xab, 0x76,
   0xca, 0x82, 0xc9, 0x7d, 0xfa, 0x59, 0x47, 0xf0, 0xad, 0xd4, 0xa2, 0xaf, 0x9c, 0xa4, 0x72, 0xc0,
   0xb7, 0xfd, 0x93, 0x26, 0x36, 0x3f, 0xf7, 0xcc, 0x34, 0xa5, 0xe5, 0xf1, 0x71, 0xd8, 0x31, 0x15,
   0x04, 0xc7, 0x23, 0xc3, 0x18, 0x96, 0x05, 0x9a, 0x07, 0x12, 0x80, 0xe2, 0xeb, 0x27, 0xb2, 0x75,
   0x09, 0x83, 0x2c, 0x1a, 0x1b, 0x6e, 0x5a, 0xa0, 0x52, 0x3b, 0xd6, 0xb3, 0x29, 0xe3, 0x2f, 0x84,
   0x53, 0xd1, 0x00, 0xed, 0x20, 0xfc, 0xb1, 0x5b, 0x6a, 0xcb, 0xbe, 0x39, 0x4a, 0x4c, 0x58, 0xcf,
   0xd0, 0xef, 0xaa, 0xfb, 0x43, 0x4d, 0x33, 0x85, 0x45, 0xf9, 0x02, 0x7f, 0x50, 0x3c, 0x9f, 0xa8,
   0x51, 0xa3, 0x40, 0x8f, 0x92, 0x9d, 0x38, 0xf5, 0xbc, 0xb6, 0xda, 0x21, 0x10, 0xff, 0xf3, 0xd2,
   0xcd, 0x0c, 0x13, 0xec, 0x5f, 0x97, 0x44, 0x17, 0xc4, 0xa7, 0x7e, 0x3d, 0x64, 0x5d, 0x19, 0x73,
   0x60, 0x81, 0x4f, 0xdc, 0x22, 0x2a, 0x90, 0x88, 0x46, 0xee, 0xb8, 0x14, 0xde, 0x5e, 0x0b, 0xdb,
   0xe0, 0x32, 0x3a, 0x0a, 0x49, 0x06, 0x24, 0x5c, 0xc2, 0xd3, 0xac, 0x62, 0x91, 0x95, 0xe4, 0x79,
   0xe7, 0xc8, 0x37, 0x6d, 0x8d, 0xd5, 0x4e, 0xa9, 0x6c, 0x56, 0xf4, 0xea, 0x65, 0x7a, 0xae, 0x08,
   0xba, 0x78, 0x25, 0x2e, 0x1c, 0xa6, 0xb4, 0xc6, 0xe8, 0xdd, 0x74, 0x1f, 0x4b, 0xbd, 0x8b, 0x8a,
   0x70, 0x3e, 0xb5, 0x66, 0x48, 0x03, 0xf6, 0x0e, 0x61, 0x35, 0x57, 0xb9, 0x86, 0xc1, 0x1d, 0x9e,
   0xe1, 0xf8, 0x98, 0x11, 0x69, 0xd9, 0x8e, 0x94, 0x9b, 0x1e, 0x87, 0xe9, 0xce, 0x55, 0x28, 0xdf,
   0x8c, 0xa1, 0x89, 0x0d, 0xbf, 0xe6, 0x42, 0x68, 0x41, 0x99, 0x2d, 0x0f, 0xb0, 0x54, 0xbb, 0x16]

def invSboxTable : List U8 :=
  [0x52, 0x09, 0x6a, 0xd5, 0x30, 0x36, 0xa5, 0x38, 0xbf, 0x40, 0xa3, 0x9e, 0x81, 0xf3, 0xd7, 0xfb,
   0x7c, 0xe3, 0x39, 0x82, 0x9b, 0x2f, 0xff, 0x87, 0x34, 0x8e, 0x43, 0x44, 0xc4, 0xde, 0xe9, 0xcb,
   0x54, 0x7b, 0x94, 0x32, 0xa6, 0xc2, 0x23, 0x3d, 0xee, 0x4c, 0x95, 0x0b, 0x42, 0xfa, 0xc3, 0x4e,
   0x08, 0x2e, 0xa1, 0x66, 0x28, 0xd9, 0x24, 0xb2, 0x76, 0x5b, 0xa2, 0x49, 0x6d, 0x8b, 0xd1, 0x25,
   0x72, 0xf8, 0xf6, 0x64, 0x86, 0x68, 0x98, 0x16, 0xd4, 0xa4, 0x5c, 0xcc, 0x5d, 0x65, 0xb6, 0x92,
   0x6c, 0x70, 0x48, 0x50, 0xfd, 0xed, 0xb9, 0xda, 0x5e, 0x15, 0x46, 0x57, 0xa7, 0x8d, 0x9d, 0x84,
   0x90, 0xd8, 0xab, 0x00, 0x8c, 0xbc, 0xd3, 0x0a, 0xf7, 0xe4, 0x58, 0x05, 0xb8, 0xb3, 0x45, 0x06,
   0xd0, 0x2c, 0x1e, 0x8f, 0xca, 0x3f, 0x0f, 0x02, 0xc1, 0xaf, 0xbd, 0x03, 0x01, 0x13, 0x8a, 0x6b,
   0x3a, 0x91, 0x11, 0x41, 0x4f, 0x67, 0xdc, 0xea, 0x97, 0xf2, 0xcf, 0xce, 0xf0, 0xb4, 0xe6, 0x73,
   0x96, 0xac, 0x74, 0x22, 0xe7, 0xad, 0x35, 0x85, 0xe2, 0xf9, 0x37, 0xe8, 0x1c, 0x75, 0xdf, 0x6e,
   0x47, 0xf1, 0x1a, 0x71, 0x1d, 0x29, 0xc5, 0x89, 0x6f, 0xb7, 0x62, 0x0e, 0xaa, 0x18, 0xbe, 0x1b,
   0xfc, 0x56, 0x3e, 0x4b, 0xc6, 0xd2, 0x79, 0x20, 0x9a, 0xdb, 0xc0, 0xfe, 0x78, 0xcd, 0x5a, 0xf4,
   0x1f, 0xdd, 0xa8, 0x33, 0x88, 0x07, 0xc7, 0x31, 0xb1, 0x12, 0x10, 0x59, 0x27, 0x80, 0xec, 0x5f,
   0x60, 0x51, 0x7f, 0xa9, 0x19, 0xb5, 0x4a, 0x0d, 0x2d, 0xe5, 0x7a, 0x9f, 0x93, 0xc9, 0x9c, 0xef,
   0xa0, 0xe0, 0x3b, 0x4d, 0xae, 0x2a, 0xf5, 0xb0, 0xc8, 0xeb, 0xbb, 0x3c, 0x83, 0x53, 0x99, 0x61,
   0x17, 0x2b, 0x04, 0x7e, 0xba, 0x77, 0xd6, 0x26, 0xe1, 0x69, 0x14, 0x63, 0x55, 0x21, 0x0c, 0x7d]

def sbox (b : U8) : U8 := sboxTable.getD b.toNat 0
def invSbox (b : U8) : U8 := invSboxTable.getD b.toNat 0

/-- Multiplication by two in GF(2^8). -/
def xtime (v : U8) : U8 := (v <<< 1) ^^^ (if v &&& 0x80 != 0 then 0x1B else 0)

/-- Row `r` of the column-major state moves `r` columns to the left. -/
def shiftRows (s : Buf) : Buf := fun i => s ((i + 4 * (i % 4)) % 16)
def invShiftRows (s : Buf) : Buf := fun i => s ((i + 12 * (i % 4)) % 16)

def subBytes (s : Buf) : Buf := fun i => sbox (s i)
def invSubBytes (s : Buf) : Buf := fun i => invSbox (s i)

/-- Byte `r` of the column that holds byte `i`. -/
def column (s : Buf) (i r : Nat) : U8 := s (4 * (i / 4) + r % 4)

/-- The exclusive or of a column. -/
def columnSum (s : Buf) (i : Nat) : U8 :=
  column s i 0 ^^^ column s i 1 ^^^ column s i 2 ^^^ column s i 3

def mixColumns (s : Buf) : Buf := fun i =>
  s i ^^^ columnSum s i ^^^ xtime (s i ^^^ column s i (i + 1))

def invMixColumns (s : Buf) : Buf := fun i =>
  let pair := s i ^^^ column s i (i + 2)
  s i ^^^ xtime (xtime (columnSum s i)) ^^^ xtime (s i ^^^ column s i (i + 1)) ^^^ xtime pair ^^^
    xtime (xtime pair)

def addRoundKey (s k : Buf) : Buf := fun i => s i ^^^ k i

def opAesenc : Insn → H Unit :=
  xmmBinary sse4Io fun _ s k => addRoundKey (mixColumns (subBytes (shiftRows s))) k
def opAesenclast : Insn → H Unit :=
  xmmBinary sse4Io fun _ s k => addRoundKey (subBytes (shiftRows s)) k
def opAesdec : Insn → H Unit :=
  xmmBinary sse4Io fun _ s k => addRoundKey (invMixColumns (invSubBytes (invShiftRows s))) k
def opAesdeclast : Insn → H Unit :=
  xmmBinary sse4Io fun _ s k => addRoundKey (invSubBytes (invShiftRows s)) k
def opAesimc : Insn → H Unit := xmmUnary sse4Io fun _ => invMixColumns

/-- `op_aeskeygen`, byte by byte. -/
def aesKeygen (s : Buf) (rcon : U8) : Buf := fun i =>
  let b := fun j => sbox (s (12 + j))
  match i with
  | 4 => s 4 ^^^ b 1
  | 5 => s 5 ^^^ b 2
  | 6 => s 6 ^^^ b 3
  | 7 => s 7 ^^^ b 0 ^^^ rcon
  | 12 => s 12 ^^^ b 1
  | 13 => s 13 ^^^ b 2
  | 14 => s 14 ^^^ b 3
  | 15 => s 15 ^^^ b 0 ^^^ rcon
  | _ => s (i + 4)

def opAeskeygen : Insn → H Unit := xmmUnary sse4Io fun insn s => aesKeygen s (imm8 insn)

/-! ### Carry-less multiplication and CRC32 -/

/-- The 128-bit product over GF(2), as its low and high halves. -/
def clmul64 (a b : U64) : U64 × U64 :=
  (List.range 64).foldl
    (fun (lo, hi) i =>
      if bitAt a i then (lo ^^^ (b <<< i), if 0 < i then hi ^^^ (b >>> (64 - i)) else hi)
      else (lo, hi))
    (0, 0)

/-- The product of the halves that immediate bits 0 and 4 select. -/
def clmulSelected (imm : U8) (a b : Buf) : Buf :=
  let (lo, hi) := clmul64 (laneU64 a (if imm &&& 0x1 != 0 then 1 else 0))
    (laneU64 b (if imm &&& 0x10 != 0 then 1 else 0))
  packU64 fun i => if i = 0 then lo else hi

def opPclmulqdq : Insn → H Unit := xmmBinary sse4Io fun insn => clmulSelected (imm8 insn)

/-- One bit of the reflected Castagnoli division. -/
def crcBit (crc : U32) : U32 := if crc &&& 1 != 0 then (crc >>> 1) ^^^ 0x82F63B78 else crc >>> 1

def crcByte (crc : U32) (byte : U8) : U32 := crcBit^[8] (crc ^^^ byte.setWidth 32)

/-- The bytes of the source are taken in increasing order. -/
def crc32 (size : Nat) (crc : U32) (src : U64) : U32 :=
  (List.range size).foldl (fun crc i => crcByte crc ((src >>> (8 * i)).setWidth 8)) crc

def opCrc32 (insn : Insn) : H Unit := do
  let src ← readOperand insn insn.src insn.opSize
  Proc.modify fun c =>
    c.setR32 insn.dst.reg
      ((crc32 insn.opSize ((c.r32 insn.dst.reg).setWidth 32) src).setWidth 64)

/-! ### Rounding -/

section Rounding

variable (fp : HostFp)

/-- `round_with_mode`: the low two bits of the immediate. -/
def roundWithMode {w : Nat} (ops : FpOps w) (mode : U8) (v : BitVec w) : BitVec w :=
  match (mode &&& 3).toNat with
  | 0 => ops.nearbyint v
  | 1 => ops.floor v
  | 2 => ops.ceil v
  | _ => ops.trunc v

def opRoundss : Insn → H Unit :=
  xmmBinary sse4Io fun insn d s => splice d 0 4
    (packU32 fun _ => roundWithMode (fp.f32 .current) (imm8 insn) (laneU32 s 0))
def opRoundsd : Insn → H Unit :=
  xmmBinary sse4Io fun insn d s => splice d 0 8
    (packU64 fun _ => roundWithMode (fp.f64 .current) (imm8 insn) (laneU64 s 0))
def opRoundps : Insn → H Unit :=
  xmmUnary sse4Io fun insn s =>
    packU32 fun i => roundWithMode (fp.f32 .current) (imm8 insn) (laneU32 s i)
def opRoundpd : Insn → H Unit :=
  xmmUnary sse4Io fun insn s =>
    packU64 fun i => roundWithMode (fp.f64 .current) (imm8 insn) (laneU64 s i)

end Rounding

/-! ### Element insertion and extraction -/

def insertps (imm : U8) (d s : Buf) : Buf := packU32 fun i =>
  if bitAt (imm.setWidth 64) i then 0
  else if i = ((imm >>> 4) &&& 3).toNat then laneU32 s (imm >>> 6).toNat
  else laneU32 d i

def opInsertps : Insn → H Unit := xmmBinary sse4Io fun insn => insertps (imm8 insn)

/-- Extract an element to a general register or memory. The 32- and 64-bit forms use their
own size, the others the operand size. -/
def extractElement (size : Insn → Nat) (f : Buf → U8 → U64) (insn : Insn) : H Unit := do
  let s ← sse4Io.read insn insn.src 16
  writeOperand insn insn.dst (size insn) (f s (imm8 insn))

def opPextrb : Insn → H Unit :=
  extractElement Insn.opSize fun s imm => (s (imm &&& 0xF).toNat).setWidth 64
def opPextrw : Insn → H Unit :=
  extractElement Insn.opSize fun s imm => (laneU16 s (imm &&& 7).toNat).setWidth 64
def opPextrd : Insn → H Unit :=
  extractElement (fun _ => 4) fun s imm => (laneU32 s (imm &&& 3).toNat).setWidth 64
def opPextrq : Insn → H Unit :=
  extractElement (fun _ => 8) fun s imm => laneU64 s (imm &&& 1).toNat

/-- Insert the low `size` bytes of a general operand at the element `index` selects. -/
def insertElement (size : Nat) (mask : U8) (insn : Insn) : H Unit := do
  let d ← sse4Io.read insn insn.dst 16
  let v ← readOperand insn insn.src size
  sse4Io.write insn insn.dst 16 (splice d (size * (imm8 insn &&& mask).toNat) size (storeLE v))

def opPinsrb : Insn → H Unit := insertElement 1 0xF
def opPinsrw : Insn → H Unit := insertElement 2 0x7
def opPinsrd : Insn → H Unit := insertElement 4 0x3
def opPinsrq : Insn → H Unit := insertElement 8 0x1

/-! ### Packed comparisons, extremes and absolute values -/

/-- Both operands read, `f` of them written to the destination. -/
def packed4 (f : Buf → Buf → Buf) : Insn → H Unit := xmmBinary sse4Io fun _ => f

def opPcmpgtb : Insn → H Unit := packed4 (map8 fun a b => ones (b.slt a))
def opPcmpgtw : Insn → H Unit := packed4 (map16 fun a b => ones (b.slt a))
def opPcmpgtd : Insn → H Unit := packed4 (map32 fun a b => ones (b.slt a))
def opPcmpgtq : Insn → H Unit := packed4 (map64 fun a b => ones (b.slt a))

def opPmaxub : Insn → H Unit := packed4 (map8 fun a b => if b.ult a then a else b)
def opPmaxsw : Insn → H Unit := packed4 (map16 fun a b => if b.slt a then a else b)
def opPminub : Insn → H Unit := packed4 (map8 fun a b => if a.ult b then a else b)
def opPminsw : Insn → H Unit := packed4 (map16 fun a b => if a.slt b then a else b)

def absLane {w : Nat} (v : BitVec w) : BitVec w := if v.msb then -v else v

def opPabsb : Insn → H Unit := xmmUnary sse4Io fun _ s i => absLane (s i)
def opPabsw : Insn → H Unit := xmmUnary sse4Io fun _ s => packU16 fun i => absLane (laneU16 s i)
def opPabsd : Insn → H Unit := xmmUnary sse4Io fun _ s => packU32 fun i => absLane (laneU32 s i)

/-- The sum of absolute differences over eight bytes. -/
def sadHalf (a b : Buf) (start : Nat) : U16 :=
  (List.range 8).foldl
    (fun sum i =>
      let x := (a (start + i)).toNat
      let y := (b (start + i)).toNat
      sum + BitVec.ofNat 16 ((x - y) + (y - x))) 0

def opPsadbw : Insn → H Unit :=
  packed4 fun a b => packU64 fun i => (sadHalf a b (8 * i)).setWidth 64

end Handlers

end PicoCpu
