import PicoCpu.Normal

/-!
`Cpu::snapshot` and `Cpu::restore`. A snapshot holds every field of the CPU but the CPUID
overrides, taken after a synchronisation.
-/

namespace PicoCpu

namespace Cpu

/-- `Cpu::Snapshot`. -/
structure Snapshot where
  gpr : Nat → U64
  dr : Nat → U64
  zmm : Nat → Nat → U8
  k : Nat → U64
  fpuSt : Nat → U64
  fpuCw : U16
  fpuSw : U16
  fpuTop : Nat
  rip : GuestAddr
  rflags : U64
  fsBase : U64
  gsBase : U64
  ccOp : CcOp
  ccSize : Nat
  ccDst : U64
  ccSrc : U64
  ccSrc2 : U64
  fault : Fault
  halted : Bool
  branchTaken : Bool

/-- The copies a snapshot takes of a synchronised CPU. -/
def copyOut (c : Cpu) : Snapshot :=
  { gpr := c.gpr, dr := c.dr, zmm := c.zmm, k := c.k, fpuSt := c.fpuSt
    fpuCw := c.fpuCw, fpuSw := c.fpuSw, fpuTop := c.fpuTop
    rip := c.rip, rflags := c.rflags_, fsBase := c.fsBase, gsBase := c.gsBase
    ccOp := c.ccOp, ccSize := c.ccSize, ccDst := c.ccDst, ccSrc := c.ccSrc, ccSrc2 := c.ccSrc2
    fault := c.fault, halted := c.halted, branchTaken := c.branchTaken }

/-- `snapshot`: the copy, and the CPU it leaves, whose flags it synchronised. -/
def snapshot (c : Cpu) : Snapshot × Cpu := (c.syncFlags.copyOut, c.syncFlags)

def restore (c : Cpu) (s : Snapshot) : Cpu :=
  { c with
    gpr := s.gpr, dr := s.dr, zmm := s.zmm, k := s.k, fpuSt := s.fpuSt
    fpuCw := s.fpuCw, fpuSw := s.fpuSw, fpuTop := s.fpuTop
    rip := s.rip, rflags_ := s.rflags, fsBase := s.fsBase, gsBase := s.gsBase
    ccOp := s.ccOp, ccSize := s.ccSize, ccDst := s.ccDst, ccSrc := s.ccSrc, ccSrc2 := s.ccSrc2
    fault := s.fault, halted := s.halted, branchTaken := s.branchTaken }

/-- Whatever the CPU has become, restoring brings back the synchronised CPU of the snapshot,
with the overrides of now. -/
theorem restore_snapshot (c d : Cpu) :
    d.restore c.snapshot.1 = { c.syncFlags with cpuidOverrides := d.cpuidOverrides } := rfl

/-- Where the overrides have not changed, all of the CPU is back. -/
theorem restore_snapshot_of_overrides {c d : Cpu} (h : d.cpuidOverrides = c.cpuidOverrides) :
    d.restore c.snapshot.1 = c.syncFlags := by
  rw [restore_snapshot, h, syncFlags_eq]

end Cpu

end PicoCpu
