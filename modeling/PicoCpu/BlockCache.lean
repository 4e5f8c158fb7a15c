import PicoCpu.Decoder.Decode

/-!
Decoded blocks: the junk-fold pass over a freshly decoded block, `decode_block`, and the
cache from a start address to its block.
-/

namespace PicoCpu

/-! ### The peephole pass -/

/-- Both operands are the same register. -/
def Insn.sameRegs (i : Insn) : Bool :=
  i.dst.kind == .reg && i.src.kind == .reg && i.dst.reg == i.src.reg

def Insn.isSelfMov (i : Insn) : Bool := i.kind == .mov && i.sameRegs
def Insn.isSelfXchg (i : Insn) : Bool := i.kind == .xchg && i.sameRegs

def Insn.isSelfLea (i : Insn) : Bool :=
  i.kind == .lea && i.dst.kind == .reg && i.src.kind == .mem && i.src.reg == i.dst.reg &&
    i.src.index == Reg.none && i.src.imm == 0

/-- The instructions the pass turns into no-ops. -/
def Insn.isFolded (i : Insn) : Bool := i.isSelfMov || i.isSelfXchg || i.isSelfLea

def Insn.makeNop (i : Insn) : Insn := { i with kind := .nop, handler := .opNop }

/-- The first loop of `peephole_block`, on one instruction. -/
def Insn.fold (i : Insn) : Insn := if i.isFolded then i.makeNop else i

def Insn.isXorSelf (i : Insn) : Bool := i.kind == .xor && i.sameRegs

/-- The conditions that ZF = 1 and CF = SF = OF = 0 imply. -/
def Cc.holdsAfterXorSelf : Cc → Bool
  | .z | .be | .le | .nb | .ns | .no | .nl => true
  | _ => false

/-- The `Jcc` after `prev` becomes a `JMP` when its condition is known to hold. -/
def foldJcc (prev i : Insn) : Insn :=
  if prev.isXorSelf && i.kind == .jcc && i.cond.holdsAfterXorSelf then
    { i with kind := .jmp, handler := .opJmp, cond := .none }
  else i

/-- The loop of `fold_opaque_jcc` from the instruction after `prev` on. -/
def foldJccFrom (prev : Insn) : List Insn → List Insn
  | [] => []
  | i :: rest => foldJcc prev i :: foldJccFrom (foldJcc prev i) rest

def foldOpaqueJcc : List Insn → List Insn
  | [] => []
  | i :: rest => i :: foldJccFrom i rest

def peepholeBlock (insns : List Insn) : List Insn := foldOpaqueJcc (insns.map Insn.fold)

/-! ### Decoding a block -/

/-- Iterations of the prefix loop after which it never ends: its 8-bit offset wraps. -/
def prefixFuel : Nat := 257

/-- The loop of `decode_block`: the instructions, and the status of a decode that failed.
`none` when a decode does not end. -/
def decodeRun (mem : CodeBytes) : Nat → GuestAddr → Option (List Insn × Option Status)
  | 0, _ => some ([], none)
  | n + 1, cur =>
    match decodeOne mem cur prefixFuel with
    | none => none
    | some (.error s) => some ([], some s)
    | some (.ok insn) =>
      if insn.flags.controlFlow then some ([insn], none)
      else
        (decodeRun mem n (cur + BitVec.ofNat 64 insn.len)).map fun r => (insn :: r.1, r.2)

/-- The block that the decoded instructions make. A decode failure after the first
instruction only ends the block. -/
def blockOf (pass : List Insn → List Insn) (pc : GuestAddr) :
    List Insn × Option Status → Except Status DecodedBlock
  | ([], some s) => .error s
  | (insns, _) =>
    .ok { pc, byteSize := (insns.map Insn.len).sum, insns := pass insns }

/-- `decode_block`, with the pass it ends with as a parameter. -/
def decodeBlockWith (pass : List Insn → List Insn) (mem : CodeBytes) (pc : GuestAddr)
    (maxInsns : Nat) : Option (Except Status DecodedBlock) :=
  (decodeRun mem maxInsns pc).map (blockOf pass pc)

def decodeBlock (mem : CodeBytes) (pc : GuestAddr) (maxInsns : Nat) :
    Option (Except Status DecodedBlock) :=
  decodeBlockWith peepholeBlock mem pc maxInsns

/-! ### The cache -/

/-- `BlockCache`, a map from the start address. -/
abbrev BlockCache := GuestAddr → Option DecodedBlock

namespace BlockCache

def lookup (cache : BlockCache) (pc : GuestAddr) : Option DecodedBlock := cache pc

def insert (cache : BlockCache) (pc : GuestAddr) (block : DecodedBlock) : BlockCache :=
  Function.update cache pc (some block)

/-- Whether a block at `pc` overlaps the range, as the source compares the ends. -/
def overlaps (pc : GuestAddr) (byteSize : Nat) (addr : GuestAddr) (size : Nat) : Bool :=
  pc.ult (addr + BitVec.ofNat 64 size) && addr.ult (pc + BitVec.ofNat 64 byteSize)

def invalidateRange (cache : BlockCache) (addr : GuestAddr) (size : Nat) : BlockCache :=
  if size = 0 then cache
  else fun pc => (cache pc).filter fun block => !overlaps pc block.byteSize addr size

end BlockCache

end PicoCpu
