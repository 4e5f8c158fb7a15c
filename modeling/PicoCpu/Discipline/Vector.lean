import PicoCpu.Discipline
import PicoCpu.Handlers.SseFp
import PicoCpu.Handlers.X87
import PicoCpu.Handlers.Phase10
import PicoCpu.Handlers.Avx
import PicoCpu.Handlers.Gather

/-!
The vector and x87 handlers, put together. They access memory themselves when an operand is not
a register; four of the x87 stores drop their status.
-/

namespace PicoCpu

open Handlers

namespace Within

open Cpu

variable {g : Grade} {insn : Insn}

/-! ### SSE -/

section Operands

variable (hdst : insn.dst.kind ≠ .xmm → g.direct) (hsrc : insn.src.kind ≠ .xmm → g.direct)

include hdst in
theorem writeDst (io : VecIo) (size : Nat) (v : Buf) : Within g (io.write insn insn.dst size v) :=
  vecWrite io insn hdst size v

include hsrc in
theorem opMovdFromXmm (hput : g.spans insn insn.dst insn.opSize) :
    Within g (Handlers.opMovdFromXmm insn) := by
  refine ite (update fun _ => rfl) ?_
  split
  · rename_i hmem
    have hdirect : g.direct := by
      refine hsrc fun hxmm => ?_
      have hsrcMem := hmem.2.1
      rw [Operand.isMem, hxmm] at hsrcMem
      cases hsrcMem
    have hfails (addr : GuestAddr) : Reports fun _ : Status =>
        (H.raise .pageFault addr .providerFailure "movq xmm m64" : H Unit) :=
      ⟨fun s => ⟨.pageFault, fun _ => addr, .providerFailure, _, FaultKind.noConfusion, rfl⟩⟩
    refine (gets _).bind fun addr => ?_
    refine (attached false).bind fun present => ?_
    refine ite ((raise FaultKind.noConfusion ..).bind fun _ => ?_) ?_
    · exact read hdirect addr 8 (fun buf => update fun _ => rfl) (hfails addr)
    · exact read hdirect addr 8 (fun buf => update fun _ => rfl) (hfails addr)
  · exact (gets _).bind fun v => writeOperand insn hput _

theorem readScalar {op : Operand} (hop : op.kind ≠ .xmm → g.direct) (size : Nat) :
    Within g (Handlers.readScalar insn op size) := by
  unfold Handlers.readScalar
  cases hkind : op.kind with
  | none => exact raiseAtRip FaultKind.noConfusion ..
  | reg => exact gets _
  | imm => exact raiseAtRip FaultKind.noConfusion ..
  | rel => exact raiseAtRip FaultKind.noConfusion ..
  | xmm => exact gets _
  | mem => exact memRead (hop (by rw [hkind]; exact OperandKind.noConfusion)) ..
  | ripRelMem => exact memRead (hop (by rw [hkind]; exact OperandKind.noConfusion)) ..

include hsrc in
theorem truncateTo {size : Nat} {f : Buf → U64} (hput : g.spans insn insn.dst insn.opSize) :
    Within g (Handlers.truncateTo size f insn) :=
  (readScalar hsrc size).bind fun _ => writeOperand insn hput _

include hsrc in
theorem moveMask {positions : List Nat} : Within g (Handlers.moveMask positions insn) :=
  .bind (vecRead _ insn hsrc 16) fun _ => update fun _ => rfl

include hsrc in
theorem extractElement {size : Insn → Nat} {f : Buf → U8 → U64}
    (hput : g.spans insn insn.dst (size insn)) : Within g (Handlers.extractElement size f insn) :=
  (vecRead _ insn hsrc 16).bind fun _ => writeOperand insn hput _

theorem shiftCountFrom : Within g (Handlers.shiftCountFrom insn) := by
  unfold Handlers.shiftCountFrom
  split
  · exact ret _
  · exact gets _
  · exact ret _

include hdst in
theorem packedShift {f : Nat → Buf → Buf} : Within g (Handlers.packedShift f insn) := by
  refine (vecRead miscIo insn hdst 16).bind fun d => ?_
  exact shiftCountFrom.bind fun count => writeDst hdst ..

include hdst in
theorem insertElement {size : Nat} {mask : U8} (hget : g.spans insn insn.src size) :
    Within g (Handlers.insertElement size mask insn) := by
  refine (vecRead sse4Io insn hdst 16).bind fun d => ?_
  exact (readOperand insn hget).bind fun v => writeDst hdst ..

include hdst in
theorem write16To (v : Buf) : Within g (Handlers.write16To insn insn.dst v) :=
  (writeDst hdst ..).bind fun _ => ite (update fun _ => rfl) (ret _)

include hdst in
theorem writeVec (v : Buf) : Within g (Handlers.writeVec insn v) :=
  (writeDst hdst ..).bind fun _ => ite (update fun _ => rfl) (ret _)

include hdst hsrc

theorem xmmBinary {io : VecIo} {f : Insn → Buf → Buf → Buf} :
    Within g (PicoCpu.xmmBinary io f insn) := by
  refine (vecRead io insn hdst 16).bind fun a => ?_
  exact (vecRead io insn hsrc 16).bind fun b => writeDst hdst ..

theorem xmmUnary {io : VecIo} {f : Insn → Buf → Buf} : Within g (PicoCpu.xmmUnary io f insn) :=
  (vecRead io insn hsrc 16).bind fun _ => writeDst hdst ..

theorem scalarOp {size : Nat} {f : Buf → Buf → Buf} :
    Within g (Handlers.scalarOp size f insn) := by
  refine (vecRead fpIo insn hdst 16).bind fun dst => ?_
  exact (readScalar hsrc size).bind fun src => writeDst hdst ..

theorem scalarMove {size : Nat} {note : String} :
    Within g (Handlers.scalarMove size note insn) := by
  refine ite (update fun _ => rfl) ?_
  split
  · exact (readScalar hsrc size).bind fun src => writeDst hdst ..
  · rename_i hmem
    exact (vecRead fpIo insn hsrc 16).bind fun src => memWrite (hdst hmem) ..

theorem compareScalar {size : Nat} {flags : Buf → Buf → Cpu → Cpu}
    (hflags : ∀ a b, Quiet (flags a b)) : Within g (Handlers.compareScalar size flags insn) := by
  refine (readScalar hdst size).bind fun a => ?_
  exact (readScalar hsrc size).bind fun b => modify (hflags a b)

theorem convertInto {srcSize : Insn → Nat} {size : Nat} {f : Insn → Buf → Buf} :
    Within g (Handlers.convertInto srcSize size f insn) := by
  refine (readScalar hsrc _).bind fun src => ?_
  exact (vecRead fpIo insn hdst 16).bind fun dst => writeDst hdst ..

/-! ### VEX forms, SHA and string compares -/

theorem vexBinopXmm {f : Insn → Buf → Buf → Buf} : Within g (Handlers.vexBinopXmm f insn) := by
  refine (gets _).bind fun a => ?_
  exact (vecRead sse4Io insn hsrc 16).bind fun b => write16To hdst _

theorem shaBinary {f : Insn → Buf → Buf → Buf} : Within g (Handlers.shaBinary f insn) := by
  refine (vecRead sse4Io insn hdst 16).bind fun dst => ?_
  exact (vecRead sse4Io insn hsrc 16).bind fun src => write16To hdst _

theorem opSha256rnds2 : Within g (Handlers.opSha256rnds2 insn) := by
  refine (vecRead sse4Io insn hdst 16).bind fun dst => ?_
  refine (vecRead sse4Io insn hsrc 16).bind fun src => ?_
  exact (gets _).bind fun xmm0 => write16To hdst _

theorem pcmpstrCore {isExplicit indexForm : Bool} :
    Within g (Handlers.pcmpstrCore isExplicit indexForm insn) := by
  have hflags (k : StrCtrl) (m : U16) (lenA lenB : Nat) : Quiet (strFlags k m lenA lenB) :=
    (((((Quiet.syncFlags.andFlag Rflags.cf (m != 0)).andFlag Rflags.zf
      (decide (lenB < k.lanes))).andFlag Rflags.sf (decide (lenA < k.lanes))).andFlag Rflags.of
        (m.getLsbD 0)).andFlag Rflags.pf false).andFlag Rflags.af false
  refine (vecRead sse4Io insn hdst 16).bind fun a => ?_
  refine (vecRead sse4Io insn hsrc 16).bind fun b => ?_
  refine (gets _).bind fun lens => ?_
  refine ite ?_ ?_
  · exact .bind (update fun _ => rfl) fun _ => modify (hflags ..)
  · exact .bind (update fun _ => rfl) fun _ => modify (hflags ..)

/-! ### AVX and AVX-512 -/

theorem vexBinop {f : Buf → Buf → Buf} : Within g (Handlers.vexBinop f insn) := by
  refine (gets _).bind fun a => ?_
  exact (vecRead vexIo insn hsrc _).bind fun b => writeVec hdst _

theorem opVmovdqa : Within g (Handlers.opVmovdqa insn) :=
  (vecRead vexIo insn hsrc _).bind fun _ => writeVec hdst _

end Operands

theorem quiet_setCompareFlags (unordered less equal : Bool) :
    Quiet (setCompareFlags unordered less equal) :=
  (((((Quiet.syncFlags.andFlag Rflags.zf (unordered || equal)).andFlag Rflags.pf unordered).andFlag
    Rflags.cf (unordered || less)).andFlag Rflags.af false).andFlag Rflags.sf false).andFlag
      Rflags.of false

theorem opMovdToXmm (hget : g.spans insn insn.src insn.opSize) :
    Within g (Handlers.opMovdToXmm insn) :=
  .bind (readOperand insn hget) fun _ => update fun _ => rfl

theorem opCrc32 (hget : g.spans insn insn.src insn.opSize) : Within g (Handlers.opCrc32 insn) :=
  .bind (readOperand insn hget) fun _ => update fun _ => rfl

theorem opVzeroupper (insn : Insn) : Within g (Handlers.opVzeroupper insn) :=
  modify (.foldl (u := fun i c => c.zeroYmmUpper i) (fun _ => ⟨fun _ => rfl⟩) _)

theorem opVzeroall (insn : Insn) : Within g (Handlers.opVzeroall insn) :=
  modify (.foldl (u := fun i c => c.setZmmBytes i 0 32 fun _ => 0) (fun _ => ⟨fun _ => rfl⟩) _)

theorem writeZmm (insn : Insn) (v : Buf) : Within g (Handlers.writeZmm insn v) :=
  update fun _ => rfl

section Masked

variable (hsrc : insn.src.kind ≠ .xmm → g.direct)

include hsrc

theorem maskedBinop {size : Nat} {f : Buf → Buf → Buf} :
    Within g (Handlers.maskedBinop size f insn) := by
  refine (gets (maskBits insn)).bind fun bits => ?_
  refine (gets _).bind fun a => ?_
  refine (vecRead evexIo insn hsrc _).bind fun b => ?_
  exact (gets _).bind fun prev => writeZmm insn _

theorem maskedMove {size : Nat} : Within g (Handlers.maskedMove size insn) := by
  refine (gets (maskBits insn)).bind fun bits => ?_
  refine (vecRead evexIo insn hsrc _).bind fun src => ?_
  exact (gets _).bind fun prev => writeZmm insn _

theorem readVecOrBroadcast (size : Nat) :
    Within g (Handlers.readVecOrBroadcast size insn insn.src) := by
  unfold Handlers.readVecOrBroadcast
  split
  · exact gets _
  · rename_i hmem
    have hdirect := hsrc hmem
    refine (gets Cpu.rip).bind fun rip => ?_
    refine (requireAttached ..).bind fun _ => ?_
    refine (gets fun c => ea c insn insn.src).bind fun addr => ?_
    exact ite ((load hdirect _ _ pageFault_ne_none _).bind fun lane => ret _)
      (load hdirect _ _ pageFault_ne_none _)

theorem fpBinop {size : Nat} {f : HostRounding → Buf → Buf → Buf} :
    Within g (Handlers.fpBinop size f insn) := by
  refine (gets (maskBits insn)).bind fun bits => ?_
  refine (gets _).bind fun a => ?_
  refine (readVecOrBroadcast hsrc size).bind fun b => ?_
  exact (gets _).bind fun prev => writeZmm insn _

theorem fpUnop {size : Nat} {f : Buf → Buf} : Within g (Handlers.fpUnop size f insn) := by
  refine (gets (maskBits insn)).bind fun bits => ?_
  refine (readVecOrBroadcast hsrc size).bind fun src => ?_
  exact (gets _).bind fun prev => writeZmm insn _

end Masked

/-! ### Gathers and scatters -/

theorem quiet_setVec (reg width : Nat) (v : Buf) : Quiet (setVec reg width v) := by
  constructor
  intro c
  unfold setVec
  split
  · rfl
  · rfl

section Lanes

variable (hdirect : g.direct)

include hdirect

theorem gatherLanes (insn : Insn) (base : GuestAddr) (idxVec : Buf) (n lane : Nat)
    (dst mask : Buf) : Within g (Handlers.gatherLanes insn base idxVec n lane dst mask) := by
  induction n generalizing lane dst mask with
  | zero => exact ret _
  | succ n ih =>
      exact ite ((load hdirect _ _ pageFault_ne_none _).bind fun buf => ih _ _ _) (ih _ _ _)

theorem doGather (insn : Insn) : Within g (Handlers.doGather insn) := by
  refine (gets Cpu.rip).bind fun rip => ?_
  refine (requireAttached ..).bind fun _ => ?_
  refine (gets _).bind fun idxVec => ?_
  refine (gets _).bind fun mask => ?_
  refine (gets _).bind fun dst => ?_
  refine (gets (vsibBase insn)).bind fun base => ?_
  refine (gatherLanes hdirect insn base idxVec _ 0 dst mask).bind fun lanes => ?_
  exact (modify (quiet_setVec ..)).bind fun _ => modify (quiet_setVec ..)

theorem scatterLanes (insn : Insn) (base : GuestAddr) (bits : U64) (src idxVec : Buf)
    (n lane : Nat) : Within g (Handlers.scatterLanes insn base bits src idxVec n lane) := by
  induction n generalizing lane with
  | zero => exact ret _
  | succ n ih =>
      refine ite ?_ (ih _)
      refine (store hdirect _ _ _ pageFault_ne_none _).bind fun _ => ?_
      exact ite (.bind (update fun _ => rfl) fun _ => ih _) (ih _)

theorem doScatter (insn : Insn) : Within g (Handlers.doScatter insn) := by
  refine (gets (maskBits insn)).bind fun bits => ?_
  refine (gets Cpu.rip).bind fun rip => ?_
  refine (requireAttached ..).bind fun _ => ?_
  refine (gets _).bind fun src => ?_
  refine (gets _).bind fun idxVec => ?_
  exact (gets (vsibBase insn)).bind fun base => scatterLanes hdirect ..

end Lanes

/-! ### x87 -/

theorem x87Addr (isWrite : Bool) (note : String) (insn : Insn) (op : Operand) :
    Within g (Handlers.x87Addr isWrite note insn op) := by
  refine (gets Cpu.rip).bind fun rip => ?_
  exact (requireAttached ..).bind fun _ => gets _

theorem tryStore (hdirect : g.direct) (hdrops : g.drops) (addr : GuestAddr) (size : Nat)
    (data : Buf) : Within g (Handlers.tryStore addr size data) := by
  refine drop hdirect hdrops addr size data fun r => ?_
  cases r with
  | ok u => exact ret true
  | error s => exact ret false

/-- Popping is left out when the store failed. -/
theorem popIf (written : Bool) : Within g (do
    if !written then Proc.exit
    Proc.modify Cpu.fpuPop : H Unit) := by
  have hpop : Within g (Proc.modify Cpu.fpuPop : H Unit) := update fun _ => rfl
  exact ite (exit.bind fun _ => hpop) hpop

section Float

variable (fp : HostFp)

theorem readMemF (hdirect : g.direct) (insn : Insn) : Within g (Handlers.readMemF fp insn) := by
  refine (x87Addr false _ insn insn.src).bind fun addr => ?_
  refine ite ?_ (ite ?_ (ite ?_ (raiseAtRip FaultKind.noConfusion ..)))
  · exact (load hdirect _ _ pageFault_ne_none _).bind fun b => ret _
  · exact (load hdirect _ _ pageFault_ne_none _).bind fun b => ret _
  · exact (load hdirect _ _ pageFault_ne_none _).bind fun b => ret _

theorem readMemI (hdirect : g.direct) (insn : Insn) : Within g (Handlers.readMemI insn) := by
  refine (x87Addr false _ insn insn.src).bind fun addr => ?_
  refine (load hdirect _ _ pageFault_ne_none _).bind fun b => ?_
  exact ite (ret _) (raiseAtRip FaultKind.noConfusion ..)

/-- The sizes of an x87 float in memory. -/
def IsFloatSize (size : Nat) : Prop := size = 4 ∨ size = 8 ∨ size = 10

theorem writeMemF (hdirect : g.direct) {insn : Insn} (hdrops : IsFloatSize insn.opSize → g.drops)
    (v : U64) : Within g (Handlers.writeMemF fp insn v) := by
  refine (x87Addr true _ insn insn.src).bind fun addr => ?_
  split
  · exact tryStore hdirect (hdrops (.inl ‹_›)) ..
  · split
    · exact tryStore hdirect (hdrops (.inr (.inl ‹_›))) ..
    · split
      · exact tryStore hdirect (hdrops (.inr (.inr ‹_›))) ..
      · exact raiseAtRip FaultKind.noConfusion ..

theorem writeMemI (hdirect : g.direct) {insn : Insn}
    (hdrops : isIntSize insn.opSize = true → g.drops) (v : U64) :
    Within g (Handlers.writeMemI insn v) := by
  refine (x87Addr true _ insn insn.src).bind fun addr => ?_
  split
  · exact tryStore hdirect (hdrops ‹_›) ..
  · exact raiseAtRip FaultKind.noConfusion ..

section Operands

variable {insn : Insn} (hsrc : insn.src.isMem = true → g.direct)

include hsrc

theorem opFld : Within g (Handlers.opFld fp insn) := by
  unfold Handlers.opFld
  split
  · exact .bind (readMemF fp (hsrc ‹_›) insn) fun _ => update fun _ => rfl
  · exact update fun _ => rfl

theorem fpOperand : Within g (Handlers.fpOperand fp insn) := by
  unfold Handlers.fpOperand
  split
  · exact readMemF fp (hsrc ‹_›) insn
  · exact gets _

theorem fpOpWith {f : U64 → U64 → U64} : Within g (Handlers.fpOpWith fp f insn) :=
  .bind (fpOperand fp hsrc) fun _ => update fun _ => rfl

theorem opFcom : Within g (Handlers.opFcom fp insn) :=
  .bind (fpOperand fp hsrc) fun _ => update fun _ => rfl

theorem opFst (hdrops : insn.src.isMem = true → IsFloatSize insn.opSize → g.drops) :
    Within g (Handlers.opFst fp insn) := by
  unfold Handlers.opFst
  split
  · rename_i hmem
    exact (gets _).bind fun v =>
      (writeMemF fp (hsrc hmem) (hdrops hmem) v).bind fun _ => ret _
  · exact update fun _ => rfl

theorem opFstp (hdrops : insn.src.isMem = true → IsFloatSize insn.opSize → g.drops) :
    Within g (Handlers.opFstp fp insn) := by
  unfold Handlers.opFstp
  split
  · rename_i hmem
    exact (gets _).bind fun v =>
      (writeMemF fp (hsrc hmem) (hdrops hmem) v).bind fun written => popIf written
  · exact .bind (update fun _ => rfl) fun _ => update fun _ => rfl

end Operands

theorem opFild (hdirect : g.direct) (insn : Insn) : Within g (Handlers.opFild fp insn) :=
  .bind (readMemI hdirect insn) fun _ => update fun _ => rfl

theorem opFistp (hdirect : g.direct) {insn : Insn}
    (hdrops : isIntSize insn.opSize = true → g.drops) : Within g (Handlers.opFistp fp insn) :=
  (gets _).bind fun v => (writeMemI hdirect hdrops v).bind fun written => popIf written

theorem opFnstsw {insn : Insn} (hdirect : insn.dst.kind ≠ .reg → g.direct)
    (hdrops : insn.dst.kind ≠ .reg → g.drops) : Within g (Handlers.opFnstsw insn) := by
  refine (gets _).bind fun sw => ?_
  split
  · exact update fun _ => rfl
  · rename_i hreg
    exact (x87Addr ..).bind fun addr => (tryStore (hdirect hreg) (hdrops hreg) ..).bind fun _ => ret _

theorem opFnstcw (hdirect : g.direct) (hdrops : g.drops) (insn : Insn) :
    Within g (Handlers.opFnstcw insn) := by
  refine (gets Cpu.fpuCw).bind fun cw => ?_
  exact (x87Addr ..).bind fun addr => (tryStore hdirect hdrops ..).bind fun _ => ret _

theorem opFldcw (hdirect : g.direct) (insn : Insn) : Within g (Handlers.opFldcw insn) := by
  refine (x87Addr false _ insn insn.src).bind fun addr => ?_
  refine read hdirect addr 2 (fun buf => update fun _ => rfl) ⟨fun s => ?_⟩
  exact ⟨.pageFault, Cpu.rip, s, _, FaultKind.noConfusion, rfl⟩

end Float

end Within

end PicoCpu
