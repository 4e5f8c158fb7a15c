import PicoCpu.AccessSizes
import PicoCpu.Handlers.SseFp
import PicoCpu.Handlers.X87
import PicoCpu.Handlers.Phase10
import PicoCpu.Handlers.Avx
import PicoCpu.Handlers.Gather

/-!
The accesses of the vector and x87 handlers: of 16 bytes, of the vector length, of an element or
of a fixed size. A gather or scatter has no lane wider than its vector.
-/

namespace PicoCpu

open Handlers

namespace NarrowAccess

variable {insn : Insn}

/-! ### SSE -/

/-- An SSE register is accessed whole. -/
theorem sixteen_le : 16 ≤ 64 := by decide

theorem xmmBinary (io : VecIo) (f : Insn → Buf → Buf → Buf) :
    NarrowAccess (PicoCpu.xmmBinary io f insn) :=
  (vecRead sixteen_le ..).bind fun _ => (vecRead sixteen_le ..).bind fun _ =>
    vecWrite sixteen_le ..

theorem xmmUnary (io : VecIo) (f : Insn → Buf → Buf) :
    NarrowAccess (PicoCpu.xmmUnary io f insn) :=
  (vecRead sixteen_le ..).bind fun _ => vecWrite sixteen_le ..

theorem binaryXmm (f : Buf → Buf → Buf) : NarrowAccess (Handlers.binaryXmm f insn) := xmmBinary ..

theorem packedFp (f : Buf → Buf → Buf) : NarrowAccess (Handlers.packedFp f insn) := xmmBinary ..

theorem packedMul16 (f : U16 → U16 → U16) : NarrowAccess (Handlers.packedMul16 f insn) :=
  xmmBinary ..

theorem unpck (size : Nat) (hi : Bool) : NarrowAccess (Handlers.unpck size hi insn) := xmmBinary ..

theorem packed4 (f : Buf → Buf → Buf) : NarrowAccess (Handlers.packed4 f insn) := xmmBinary ..

theorem scalarApprox (f : U32 → U32) : NarrowAccess (Handlers.scalarApprox f insn) := xmmBinary ..

theorem packedApprox (f : U32 → U32) : NarrowAccess (Handlers.packedApprox f insn) := xmmUnary ..

theorem readScalar {size : Nat} (hsize : size ≤ 64) (op : Operand) :
    NarrowAccess (Handlers.readScalar insn op size) := by
  have hmem := memRead hsize insn op "fp scalar read"
  unfold Handlers.readScalar
  cases op.kind with
  | none => exact raiseAtRip ..
  | reg => exact gets _
  | imm => exact raiseAtRip ..
  | rel => exact raiseAtRip ..
  | xmm => exact gets _
  | mem => exact hmem
  | ripRelMem => exact hmem

theorem scalarOp {size : Nat} (hsize : size ≤ 64) (f : Buf → Buf → Buf) :
    NarrowAccess (Handlers.scalarOp size f insn) :=
  (vecRead sixteen_le ..).bind fun _ => (readScalar hsize _).bind fun _ => vecWrite sixteen_le ..

theorem scalarSingle (f : U32 → U32 → U32) : NarrowAccess (Handlers.scalarSingle f insn) :=
  scalarOp (by decide) _

theorem scalarDouble (f : U64 → U64 → U64) : NarrowAccess (Handlers.scalarDouble f insn) :=
  scalarOp (by decide) _

theorem scalarMove {size : Nat} (hsize : size ≤ 64) (note : String) :
    NarrowAccess (Handlers.scalarMove size note insn) := by
  apply ite (modify _)
  apply ite
  · exact (readScalar hsize _).bind fun src => vecWrite sixteen_le ..
  · exact (vecRead sixteen_le ..).bind fun src => memWrite hsize ..

theorem compareScalar {size : Nat} (hsize : size ≤ 64) (flags : Buf → Buf → Cpu → Cpu) :
    NarrowAccess (Handlers.compareScalar size flags insn) :=
  (readScalar hsize _).bind fun _ => (readScalar hsize _).bind fun _ => modify _

theorem convertInto {srcSize : Insn → Nat} (hsize : srcSize insn ≤ 64) (size : Nat)
    (f : Insn → Buf → Buf) : NarrowAccess (Handlers.convertInto srcSize size f insn) :=
  (readScalar hsize _).bind fun _ => (vecRead sixteen_le ..).bind fun _ => vecWrite sixteen_le ..

theorem moveMask (positions : List Nat) : NarrowAccess (Handlers.moveMask positions insn) :=
  (vecRead sixteen_le ..).bind fun _ => modify _

theorem shiftCountFrom : NarrowAccess (Handlers.shiftCountFrom insn) := by
  unfold Handlers.shiftCountFrom
  split
  · exact ret _
  · exact gets _
  · exact ret _

theorem packedShift (f : Nat → Buf → Buf) : NarrowAccess (Handlers.packedShift f insn) :=
  (vecRead sixteen_le ..).bind fun _ => shiftCountFrom.bind fun _ => vecWrite sixteen_le ..

theorem extractElement {size : Insn → Nat} (hsize : size insn ≤ 64) (f : Buf → U8 → U64) :
    NarrowAccess (Handlers.extractElement size f insn) :=
  (vecRead sixteen_le ..).bind fun _ => writeOperand hsize ..

theorem insertElement {size : Nat} (hsize : size ≤ 64) (mask : U8) :
    NarrowAccess (Handlers.insertElement size mask insn) :=
  (vecRead sixteen_le ..).bind fun _ => (readOperand hsize ..).bind fun _ => vecWrite sixteen_le ..

/-! ### VEX forms of 16 bytes, SHA and string compares -/

theorem write16To (op : Operand) (v : Buf) : NarrowAccess (Handlers.write16To insn op v) :=
  (vecWrite sixteen_le ..).seq ((modify _).ite (ret _))

theorem vexBinopXmm (f : Insn → Buf → Buf → Buf) : NarrowAccess (Handlers.vexBinopXmm f insn) :=
  gets_bind fun _ => (vecRead sixteen_le ..).bind fun _ => write16To _ _

theorem shaBinary (f : Insn → Buf → Buf → Buf) : NarrowAccess (Handlers.shaBinary f insn) :=
  (vecRead sixteen_le ..).bind fun _ => (vecRead sixteen_le ..).bind fun _ => write16To _ _

theorem opSha256rnds2 : NarrowAccess (Handlers.opSha256rnds2 insn) :=
  (vecRead sixteen_le ..).bind fun _ => (vecRead sixteen_le ..).bind fun _ =>
    gets_bind fun _ => write16To _ _

theorem pcmpstrCore (isExplicit indexForm : Bool) :
    NarrowAccess (Handlers.pcmpstrCore isExplicit indexForm insn) := by
  apply (vecRead sixteen_le ..).bind
  intro a
  apply (vecRead sixteen_le ..).bind
  intro b
  apply gets_bind
  intro lens
  exact ite (modify_bind (modify _)) (modify_bind (modify _))

section Sized

variable (hi : insn.Narrow)
include hi

theorem opMovdToXmm : NarrowAccess (Handlers.opMovdToXmm insn) :=
  (readOperand hi.opSize ..).bind fun _ => modify _

theorem opMovdFromXmm : NarrowAccess (Handlers.opMovdFromXmm insn) := by
  apply ite (modify _)
  apply ite
  · apply gets_bind
    intro addr
    apply (attached false).bind
    intro present
    refine ite ((raise ..).seq ?_) ?_
    all_goals
      apply (askRead (by decide) addr).bind
      intro r
      cases r with
      | ok buf => exact modify _
      | error s => exact raise ..
  · exact gets_bind fun v => writeOperand hi.opSize ..

theorem truncateTo {size : Nat} (hsize : size ≤ 64) (f : Buf → U64) :
    NarrowAccess (Handlers.truncateTo size f insn) :=
  (readScalar hsize _).bind fun _ => writeOperand hi.opSize ..

theorem opCrc32 : NarrowAccess (Handlers.opCrc32 insn) :=
  (readOperand hi.opSize ..).bind fun _ => modify _

/-! ### AVX and AVX-512 -/

theorem writeVec (v : Buf) : NarrowAccess (Handlers.writeVec insn v) :=
  (vecWrite hi.opSize ..).seq ((modify _).ite (ret _))

theorem vexBinop (f : Buf → Buf → Buf) : NarrowAccess (Handlers.vexBinop f insn) :=
  gets_bind fun _ => (vecRead hi.opSize ..).bind fun _ => writeVec hi _

theorem opVmovdqa : NarrowAccess (Handlers.opVmovdqa insn) :=
  (vecRead hi.opSize ..).bind fun _ => writeVec hi _

theorem maskedBinop (size : Nat) (f : Buf → Buf → Buf) :
    NarrowAccess (Handlers.maskedBinop size f insn) :=
  gets_bind fun _ => gets_bind fun _ => (vecRead hi.opSize ..).bind fun _ =>
    gets_bind fun _ => modify _

theorem maskedMove (size : Nat) : NarrowAccess (Handlers.maskedMove size insn) :=
  gets_bind fun _ => (vecRead hi.opSize ..).bind fun _ => gets_bind fun _ => modify _

theorem readVecOrBroadcast {size : Nat} (hsize : size ≤ 64) (op : Operand) :
    NarrowAccess (Handlers.readVecOrBroadcast size insn op) := by
  apply ite (gets _)
  apply gets_bind
  intro rip
  apply (requireAttached ..).seq
  apply gets_bind
  intro addr
  exact ite ((load hsize ..).bind fun lane => ret _) (load hi.opSize ..)

theorem fpBinop {size : Nat} (hsize : size ≤ 64) (f : HostRounding → Buf → Buf → Buf) :
    NarrowAccess (Handlers.fpBinop size f insn) :=
  gets_bind fun _ => gets_bind fun _ => (readVecOrBroadcast hi hsize _).bind fun _ =>
    gets_bind fun _ => modify _

theorem fpUnop {size : Nat} (hsize : size ≤ 64) (f : Buf → Buf) :
    NarrowAccess (Handlers.fpUnop size f insn) :=
  gets_bind fun _ => (readVecOrBroadcast hi hsize _).bind fun _ => gets_bind fun _ => modify _

end Sized

/-! ### Gathers and scatters -/

section Lanes

/-- Where there is a lane, it is no wider than the vector. -/
theorem dataLane_le (hi : insn.Narrow) (hn : laneCount insn ≠ 0) : dataLane insn ≤ 64 := by
  apply le_trans _ hi.opSize
  by_contra hwide
  exact hn (Nat.div_eq_of_lt (Nat.lt_of_not_le hwide))

theorem gatherLanes (hlane : dataLane insn ≤ 64) (base : GuestAddr) (idxVec : Buf) (n lane : Nat)
    (dst mask : Buf) : NarrowAccess (Handlers.gatherLanes insn base idxVec n lane dst mask) := by
  induction n generalizing lane dst mask with
  | zero => exact ret _
  | succ n ih => exact ite ((load hlane ..).bind fun buf => ih _ _ _) (ih _ _ _)

theorem doGather (hi : insn.Narrow) : NarrowAccess (Handlers.doGather insn) := by
  have hlanes (base : GuestAddr) (idxVec dst mask : Buf) : NarrowAccess
      (Handlers.gatherLanes insn base idxVec (laneCount insn) 0 dst mask) := by
    by_cases hn : laneCount insn = 0
    · rw [hn]
      exact ret _
    · exact gatherLanes (dataLane_le hi hn) ..
  apply gets_bind
  intro rip
  apply (requireAttached ..).seq
  apply gets_bind
  intro idxVec
  apply gets_bind
  intro mask
  apply gets_bind
  intro dst
  apply gets_bind
  intro base
  apply (hlanes base idxVec dst mask).bind
  intro lanes
  exact modify_bind (modify _)

theorem scatterLanes (hlane : dataLane insn ≤ 64) (base : GuestAddr) (bits : U64)
    (src idxVec : Buf) (n lane : Nat) :
    NarrowAccess (Handlers.scatterLanes insn base bits src idxVec n lane) := by
  induction n generalizing lane with
  | zero => exact ret _
  | succ n ih =>
      apply ite _ (ih _)
      exact (store hlane ..).seq (ite (modify_bind (ih _)) (ih _))

theorem doScatter (hi : insn.Narrow) : NarrowAccess (Handlers.doScatter insn) := by
  have hlanes (base : GuestAddr) (bits : U64) (src idxVec : Buf) : NarrowAccess
      (Handlers.scatterLanes insn base bits src idxVec (laneCount insn) 0) := by
    by_cases hn : laneCount insn = 0
    · rw [hn]
      exact ret _
    · exact scatterLanes (dataLane_le hi hn) ..
  apply gets_bind
  intro bits
  apply gets_bind
  intro rip
  apply (requireAttached ..).seq
  apply gets_bind
  intro src
  apply gets_bind
  intro idxVec
  apply gets_bind
  intro base
  exact hlanes base bits src idxVec

end Lanes

/-! ### x87 -/

section Float

theorem x87Addr (isWrite : Bool) (note : String) (op : Operand) :
    NarrowAccess (Handlers.x87Addr isWrite note insn op) :=
  gets_bind fun _ => (requireAttached ..).seq (gets _)

theorem tryStore {size : Nat} (hsize : size ≤ 64) (addr : GuestAddr) (data : Buf) :
    NarrowAccess (Handlers.tryStore addr size data) := by
  apply (askWrite hsize addr data).bind
  intro r
  cases r with
  | ok u => exact ret true
  | error s => exact ret false

variable (fp : HostFp)

theorem readMemF : NarrowAccess (Handlers.readMemF fp insn) := by
  apply (x87Addr ..).bind
  intro addr
  apply ite ((load (by decide) addr _ _).bind fun b => ret _)
  apply ite ((load (by decide) addr _ _).bind fun b => ret _)
  exact ite ((load (by decide) addr _ _).bind fun b => ret _) (raiseAtRip ..)

theorem writeMemF (v : U64) : NarrowAccess (Handlers.writeMemF fp insn v) := by
  apply (x87Addr ..).bind
  intro addr
  apply ite (tryStore (by decide) addr _)
  apply ite (tryStore (by decide) addr _)
  exact ite (tryStore (by decide) addr _) (raiseAtRip ..)

theorem opFld : NarrowAccess (Handlers.opFld fp insn) :=
  ite ((readMemF fp).bind fun _ => modify _) (modify _)

theorem opFst : NarrowAccess (Handlers.opFst fp insn) :=
  ite (gets_bind fun _ => (writeMemF fp _).bind fun _ => ret _) (modify _)

/-- Popping is left out when the store failed. -/
theorem popIf (written : Bool) : NarrowAccess (do
    if !written then Proc.exit
    Proc.modify Cpu.fpuPop : H Unit) :=
  ite (exit.seq (modify _)) (modify _)

theorem opFstp : NarrowAccess (Handlers.opFstp fp insn) :=
  ite (gets_bind fun _ => (writeMemF fp _).bind fun written => popIf written)
    (modify_bind (modify _))

theorem fpOperand : NarrowAccess (Handlers.fpOperand fp insn) := ite (readMemF fp) (gets _)

theorem fpOpWith (f : U64 → U64 → U64) : NarrowAccess (Handlers.fpOpWith fp f insn) :=
  (fpOperand fp).bind fun _ => modify _

theorem opFcom : NarrowAccess (Handlers.opFcom fp insn) := (fpOperand fp).bind fun _ => modify _

omit fp

theorem opFnstsw : NarrowAccess (Handlers.opFnstsw insn) :=
  gets_bind fun _ => ite (modify _)
    ((x87Addr ..).bind fun _ => (tryStore (by decide) _ _).bind fun _ => ret _)

theorem opFnstcw : NarrowAccess (Handlers.opFnstcw insn) :=
  gets_bind fun _ => (x87Addr ..).bind fun _ => (tryStore (by decide) _ _).bind fun _ => ret _

theorem opFldcw : NarrowAccess (Handlers.opFldcw insn) := by
  apply (x87Addr ..).bind
  intro addr
  apply (askRead (by decide) addr).bind
  intro r
  cases r with
  | ok buf => exact modify _
  | error s => exact raiseAtRip ..

variable (hi : insn.Narrow)
include hi

theorem readMemI : NarrowAccess (Handlers.readMemI insn) :=
  (x87Addr ..).bind fun _ => (load hi.opSize ..).bind fun _ => (ret _).ite (raiseAtRip ..)

theorem writeMemI (v : U64) : NarrowAccess (Handlers.writeMemI insn v) :=
  (x87Addr ..).bind fun _ => (tryStore hi.opSize _ _).ite (raiseAtRip ..)

theorem opFild (fp : HostFp) : NarrowAccess (Handlers.opFild fp insn) :=
  (readMemI hi).bind fun _ => modify _

theorem opFistp (fp : HostFp) : NarrowAccess (Handlers.opFistp fp insn) :=
  gets_bind fun _ => (writeMemI hi _).bind fun written => popIf written

end Float

end NarrowAccess

end PicoCpu
