import PicoCpu.Handlers.Avx512

/-!
Gathers and scatters. The lane sizes are packed in `imm_extra`; the memory operand's index
is a vector register, so the address does not go through `ea`.
-/

namespace PicoCpu

open H

namespace Handlers

def dataLane (insn : Insn) : Nat := (insn.immExtra &&& 0xFF).toNat
def indexLane (insn : Insn) : Nat := ((insn.immExtra >>> 8) &&& 0xFF).toNat
def laneCount (insn : Insn) : Nat := insn.opSize / dataLane insn

/-- The sign-extended index at lane `lane`. -/
def indexAt (insn : Insn) (idxVec : Buf) (lane : Nat) : U64 :=
  let b := idxVec.drop (lane * indexLane insn)
  if indexLane insn = 4 then (laneU32 b 0).signExtend 64 else laneU64 b 0

/-- The part of the address all lanes share. -/
def vsibBase (insn : Insn) (c : Cpu) : GuestAddr :=
  let segBase :=
    match insn.src.seg with
    | .fs => c.fsBase
    | .gs => c.gsBase
    | _ => 0
  segBase + (if insn.src.reg = Reg.none then 0 else c.r insn.src.reg)

def laneAddr (insn : Insn) (base : GuestAddr) (idxVec : Buf) (lane : Nat) : GuestAddr :=
  base + indexAt insn idxVec lane *
      (if insn.src.scale ≠ 0 then BitVec.ofNat 64 insn.src.scale else 1) + insn.src.imm

/-- The lanes of a gather from `lane` on, with the data and mask vectors so far. -/
def gatherLanes (insn : Insn) (base : GuestAddr) (idxVec : Buf) :
    Nat → Nat → Buf → Buf → H (Buf × Buf)
  | 0, _, dst, mask => pure (dst, mask)
  | n + 1, lane, dst, mask => do
    let off := lane * dataLane insn
    if (mask (off + (dataLane insn - 1))).msb then
      let addr := laneAddr insn base idxVec lane
      let buf ← load addr (dataLane insn) pageFault "vgather lane read"
      gatherLanes insn base idxVec n (lane + 1) (splice dst off (dataLane insn) buf)
        (splice mask off (dataLane insn) fun _ => 0)
    else gatherLanes insn base idxVec n (lane + 1) dst mask

/-- A register write of the low `width` bytes; 16 bytes clear the rest. -/
def setVec (reg width : Nat) (v : Buf) (c : Cpu) : Cpu :=
  let c := c.setZmmBytes reg 0 width v
  if width = 16 then c.zeroYmmUpper reg else c

/-- `do_gather`. -/
def doGather (insn : Insn) : H Unit := do
  let rip ← gets Cpu.rip
  requireAttached false rip "vgather read"
  let idxVec ← gets fun c => zeroAbove 32 (c.zmm insn.src.index)
  let mask ← gets fun c => zeroAbove 32 (c.zmm insn.dst.index)
  let dst ← gets fun c => zeroAbove 32 (c.zmm insn.dst.reg)
  let base ← gets (vsibBase insn)
  let (dst, mask) ← gatherLanes insn base idxVec (laneCount insn) 0 dst mask
  Proc.modify (setVec insn.dst.reg insn.opSize dst)
  Proc.modify (setVec insn.dst.index insn.opSize mask)
where
  /-- The local copies of a gather have 32 bytes. -/
  zeroAbove (size : Nat) (b : Buf) : Buf := fun i => if i < size then b i else 0

def opVpgatherdd : Insn → H Unit := doGather
def opVpgatherdq : Insn → H Unit := doGather
def opVpgatherqd : Insn → H Unit := doGather
def opVpgatherqq : Insn → H Unit := doGather
def opVgatherdps : Insn → H Unit := doGather
def opVgatherdpd : Insn → H Unit := doGather
def opVgatherqps : Insn → H Unit := doGather
def opVgatherqpd : Insn → H Unit := doGather

/-- The lanes of a scatter from `lane` on; each stored lane clears its opmask bit. -/
def scatterLanes (insn : Insn) (base : GuestAddr) (bits : U64) (src idxVec : Buf) :
    Nat → Nat → H Unit
  | 0, _ => pure ()
  | n + 1, lane => do
    if bitAt bits lane then
      let addr := laneAddr insn base idxVec lane
      store addr (dataLane insn) (src.drop (lane * dataLane insn)) pageFault "vscatter lane write"
      if opmask insn ≠ 0 then
        Proc.modify fun c => c.setK (opmask insn) (c.kreg (opmask insn) &&& ~~~(1#64 <<< lane))
    scatterLanes insn base bits src idxVec n (lane + 1)

/-- `do_scatter`. -/
def doScatter (insn : Insn) : H Unit := do
  let bits ← gets (maskBits insn)
  let rip ← gets Cpu.rip
  requireAttached true rip "vscatter write"
  let src ← gets fun c => c.zmm insn.dst.reg
  let idxVec ← gets fun c i => if i < insn.opSize then c.zmm insn.src.index i else 0
  let base ← gets (vsibBase insn)
  scatterLanes insn base bits src idxVec (laneCount insn) 0

def opVpscatterdd : Insn → H Unit := doScatter
def opVpscatterdq : Insn → H Unit := doScatter
def opVpscatterqd : Insn → H Unit := doScatter
def opVpscatterqq : Insn → H Unit := doScatter
def opVscatterdps : Insn → H Unit := doScatter
def opVscatterdpd : Insn → H Unit := doScatter
def opVscatterqps : Insn → H Unit := doScatter
def opVscatterqpd : Insn → H Unit := doScatter

end Handlers

end PicoCpu
