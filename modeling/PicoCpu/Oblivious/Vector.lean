import PicoCpu.Oblivious
import PicoCpu.Handlers.SseFp
import PicoCpu.Handlers.X87
import PicoCpu.Handlers.Phase10
import PicoCpu.Handlers.Avx
import PicoCpu.Handlers.Gather

/-!
The vector and x87 handlers cannot tell how the flags are kept: most touch no flag, and the
comparisons write theirs through the setters.
-/

namespace PicoCpu

open Handlers

namespace Oblivious

open Cpu

variable {L : Option (List CpuidLeaf)} {t : Bool}

/-! ### SSE -/

theorem xmmBinary (io : VecIo) (f : Insn → Buf → Buf → Buf) (insn : Insn) :
    Oblivious L t (PicoCpu.xmmBinary io f insn) := by
  refine (vecRead io insn insn.dst 16).bind fun a => ?_
  refine (vecRead io insn insn.src 16).bind fun b => ?_
  exact vecWrite io insn insn.dst 16 _

theorem xmmUnary (io : VecIo) (f : Insn → Buf → Buf) (insn : Insn) :
    Oblivious L t (PicoCpu.xmmUnary io f insn) :=
  (vecRead io insn insn.src 16).bind fun _ => vecWrite ..

theorem binaryXmm (f : Buf → Buf → Buf) (insn : Insn) :
    Oblivious L t (Handlers.binaryXmm f insn) := xmmBinary ..

theorem packedFp (f : Buf → Buf → Buf) (insn : Insn) :
    Oblivious L t (Handlers.packedFp f insn) := xmmBinary ..

theorem packedMul16 (f : U16 → U16 → U16) (insn : Insn) :
    Oblivious L t (Handlers.packedMul16 f insn) := xmmBinary ..

theorem unpck (size : Nat) (hi : Bool) (insn : Insn) :
    Oblivious L t (Handlers.unpck size hi insn) := xmmBinary ..

theorem packed4 (f : Buf → Buf → Buf) (insn : Insn) :
    Oblivious L t (Handlers.packed4 f insn) := xmmBinary ..

theorem scalarApprox (f : U32 → U32) (insn : Insn) :
    Oblivious L t (Handlers.scalarApprox f insn) := xmmBinary ..

theorem packedApprox (f : U32 → U32) (insn : Insn) :
    Oblivious L t (Handlers.packedApprox f insn) := xmmUnary ..

theorem opMovdToXmm (insn : Insn) : Oblivious L t (Handlers.opMovdToXmm insn) :=
  (readOperand ..).bind fun _ => update fun _ _ => rfl

theorem opMovdFromXmm (insn : Insn) : Oblivious L t (Handlers.opMovdFromXmm insn) := by
  refine ite (update fun _ _ => rfl) (ite ?_ ?_)
  · refine (getsEa insn insn.src).bind fun addr => ?_
    refine (attached false).bind fun present => ?_
    refine ite ((raise ..).bind fun _ => (askRead addr 8).bind fun r => ?_)
      ((askRead addr 8).bind fun r => ?_)
    · cases r with
      | ok buf => exact update fun _ _ => rfl
      | error s => exact raise ..
    · cases r with
      | ok buf => exact update fun _ _ => rfl
      | error s => exact raise ..
  · exact (gets_free (fun c => loadLE (c.zmm insn.src.reg) insn.opSize) fun _ => rfl).bind fun v =>
      writeOperand ..

theorem readScalar (insn : Insn) (op : Operand) (size : Nat) :
    Oblivious L t (Handlers.readScalar insn op size) := by
  have hmem := memRead (L := L) (t := t) insn op "fp scalar read" size
  unfold Handlers.readScalar
  cases op.kind with
  | none => exact raiseAtRip ..
  | reg => exact gets_free (fun c => storeLE (c.r op.reg)) fun _ => rfl
  | imm => exact raiseAtRip ..
  | rel => exact raiseAtRip ..
  | xmm => exact getsZmm op.reg
  | mem => exact hmem
  | ripRelMem => exact hmem

theorem scalarOp (size : Nat) (f : Buf → Buf → Buf) (insn : Insn) :
    Oblivious L t (Handlers.scalarOp size f insn) := by
  refine (vecRead fpIo insn insn.dst 16).bind fun dst => ?_
  refine (readScalar insn insn.src size).bind fun src => ?_
  exact vecWrite fpIo insn insn.dst 16 _

theorem scalarSingle (f : U32 → U32 → U32) (insn : Insn) :
    Oblivious L t (Handlers.scalarSingle f insn) := scalarOp ..

theorem scalarDouble (f : U64 → U64 → U64) (insn : Insn) :
    Oblivious L t (Handlers.scalarDouble f insn) := scalarOp ..

theorem scalarMove (size : Nat) (note : String) (insn : Insn) :
    Oblivious L t (Handlers.scalarMove size note insn) := by
  refine ite (modify ?_) (ite ?_ ?_)
  · exact keeps_flagFree fun _ _ => rfl
  · exact (readScalar ..).bind fun src => vecWrite ..
  · exact (vecRead ..).bind fun src => memWrite ..

theorem compareScalar (size : Nat) {flags : Buf → Buf → Cpu → Cpu}
    (hflags : ∀ a b, Keeps L (flags a b)) (insn : Insn) :
    Oblivious L t (Handlers.compareScalar size flags insn) := by
  refine (readScalar insn insn.dst size).bind fun a => ?_
  refine (readScalar insn insn.src size).bind fun b => ?_
  exact modify (hflags a b)

theorem keeps_setCompareFlags (unordered less equal : Bool) :
    Keeps L (setCompareFlags unordered less equal) :=
  (((((keeps_syncFlags.setFlag Rflags.zf (unordered || equal)).setFlag Rflags.pf unordered).setFlag
    Rflags.cf (unordered || less)).setFlag Rflags.af false).setFlag Rflags.sf false).setFlag
      Rflags.of false

theorem convertInto (srcSize : Insn → Nat) (size : Nat) (f : Insn → Buf → Buf) (insn : Insn) :
    Oblivious L t (Handlers.convertInto srcSize size f insn) := by
  refine (readScalar insn insn.src _).bind fun src => ?_
  refine (vecRead fpIo insn insn.dst 16).bind fun dst => ?_
  exact vecWrite fpIo insn insn.dst 16 _

theorem truncateTo (size : Nat) (f : Buf → U64) (insn : Insn) :
    Oblivious L t (Handlers.truncateTo size f insn) :=
  (readScalar ..).bind fun _ => writeOperand ..

theorem moveMask (positions : List Nat) (insn : Insn) :
    Oblivious L t (Handlers.moveMask positions insn) :=
  (vecRead ..).bind fun _ => update fun _ _ => rfl

theorem shiftCountFrom (insn : Insn) : Oblivious L t (Handlers.shiftCountFrom insn) := by
  unfold Handlers.shiftCountFrom
  split
  · exact ret _
  · exact gets_free (fun c => (c.zmm insn.src.reg 0).toNat) fun _ => rfl
  · exact ret _

theorem packedShift (f : Nat → Buf → Buf) (insn : Insn) :
    Oblivious L t (Handlers.packedShift f insn) := by
  refine (vecRead miscIo insn insn.dst 16).bind fun d => ?_
  refine (shiftCountFrom insn).bind fun count => ?_
  exact vecWrite miscIo insn insn.dst 16 _

theorem extractElement (size : Insn → Nat) (f : Buf → U8 → U64) (insn : Insn) :
    Oblivious L t (Handlers.extractElement size f insn) :=
  (vecRead ..).bind fun _ => writeOperand ..

theorem insertElement (size : Nat) (mask : U8) (insn : Insn) :
    Oblivious L t (Handlers.insertElement size mask insn) := by
  refine (vecRead sse4Io insn insn.dst 16).bind fun d => ?_
  refine (readOperand insn insn.src size).bind fun v => ?_
  exact vecWrite sse4Io insn insn.dst 16 _

theorem opCrc32 (insn : Insn) : Oblivious L t (Handlers.opCrc32 insn) :=
  (readOperand ..).bind fun _ => update fun _ _ => rfl

/-! ### VEX forms, SHA and string compares -/

theorem write16To (insn : Insn) (op : Operand) (v : Buf) :
    Oblivious L t (Handlers.write16To insn op v) :=
  (vecWrite ..).bind fun _ => ite (update fun _ _ => rfl) (ret _)

theorem vexBinopXmm (f : Insn → Buf → Buf → Buf) (insn : Insn) :
    Oblivious L t (Handlers.vexBinopXmm f insn) := by
  refine (getsZmm insn.dst.index).bind fun a => ?_
  refine (vecRead sse4Io insn insn.src 16).bind fun b => ?_
  exact write16To insn insn.dst _

theorem shaBinary (f : Insn → Buf → Buf → Buf) (insn : Insn) :
    Oblivious L t (Handlers.shaBinary f insn) := by
  refine (vecRead sse4Io insn insn.dst 16).bind fun dst => ?_
  refine (vecRead sse4Io insn insn.src 16).bind fun src => ?_
  exact write16To insn insn.dst _

theorem opSha256rnds2 (insn : Insn) : Oblivious L t (Handlers.opSha256rnds2 insn) := by
  refine (vecRead sse4Io insn insn.dst 16).bind fun dst => ?_
  refine (vecRead sse4Io insn insn.src 16).bind fun src => ?_
  refine (getsZmm 0).bind fun xmm0 => ?_
  exact write16To insn insn.dst _

theorem keeps_strFlags (k : StrCtrl) (m : U16) (lenA lenB : Nat) :
    Keeps L (strFlags k m lenA lenB) :=
  (((((keeps_syncFlags.setFlag Rflags.cf (m != 0)).setFlag Rflags.zf
    (decide (lenB < k.lanes))).setFlag Rflags.sf (decide (lenA < k.lanes))).setFlag Rflags.of
      (m.getLsbD 0)).setFlag Rflags.pf false).setFlag Rflags.af false

theorem pcmpstrCore (isExplicit indexForm : Bool) (insn : Insn) :
    Oblivious L t (Handlers.pcmpstrCore isExplicit indexForm insn) := by
  refine (vecRead sse4Io insn insn.dst 16).bind fun a => ?_
  refine (vecRead sse4Io insn insn.src 16).bind fun b => ?_
  refine (gets_free _ ?_).bind fun lens => ?_
  · intro c
    cases isExplicit
    · rfl
    · rfl
  · have hflags (m : U16) : Oblivious L t
        (Proc.modify (strFlags (strCtrl (imm8 insn)) m lens.1 lens.2) : H Unit) :=
      modify (keeps_strFlags ..)
    refine ite ?_ ?_
    · exact (update fun _ _ => rfl).bind fun _ => hflags _
    · exact (update fun _ _ => rfl).bind fun _ => hflags _

/-! ### AVX and AVX-512 -/

theorem writeVec (insn : Insn) (v : Buf) : Oblivious L t (Handlers.writeVec insn v) :=
  (vecWrite ..).bind fun _ => ite (update fun _ _ => rfl) (ret _)

theorem vexBinop (f : Buf → Buf → Buf) (insn : Insn) :
    Oblivious L t (Handlers.vexBinop f insn) := by
  refine (getsZmm insn.dst.index).bind fun a => ?_
  refine (vecRead vexIo insn insn.src _).bind fun b => ?_
  exact writeVec insn _

theorem opVmovdqa (insn : Insn) : Oblivious L t (Handlers.opVmovdqa insn) :=
  (vecRead ..).bind fun _ => writeVec ..

/-- One update a register, over a list of registers. -/
theorem keeps_foldl {g : Nat → Cpu → Cpu} (hg : ∀ i, Keeps L (g i)) (is : List Nat) :
    Keeps L fun c => is.foldl (fun c i => g i c) c := by
  induction is with
  | nil => exact keeps_id
  | cons i is ih => exact ih.comp (hg i)

theorem opVzeroupper (insn : Insn) : Oblivious L t (Handlers.opVzeroupper insn) :=
  modify (keeps_foldl (g := fun i c => c.zeroYmmUpper i) (fun _ => keeps_flagFree fun _ _ => rfl) _)

theorem opVzeroall (insn : Insn) : Oblivious L t (Handlers.opVzeroall insn) :=
  modify (keeps_foldl (g := fun i c => c.setZmmBytes i 0 32 fun _ => 0)
    (fun _ => keeps_flagFree fun _ _ => rfl) _)

theorem getsMask (insn : Insn) : Oblivious L t (H.gets (maskBits insn)) :=
  gets_free (maskBits insn) fun _ => rfl

theorem writeZmm (insn : Insn) (v : Buf) : Oblivious L t (Handlers.writeZmm insn v) :=
  update fun _ _ => rfl

theorem maskedBinop (size : Nat) (f : Buf → Buf → Buf) (insn : Insn) :
    Oblivious L t (Handlers.maskedBinop size f insn) := by
  refine (getsMask insn).bind fun bits => ?_
  refine (getsZmm insn.dst.index).bind fun a => ?_
  refine (vecRead evexIo insn insn.src _).bind fun b => ?_
  refine (getsZmm insn.dst.reg).bind fun prev => ?_
  exact writeZmm insn _

theorem maskedMove (size : Nat) (insn : Insn) :
    Oblivious L t (Handlers.maskedMove size insn) := by
  refine (getsMask insn).bind fun bits => ?_
  refine (vecRead evexIo insn insn.src _).bind fun src => ?_
  refine (getsZmm insn.dst.reg).bind fun prev => ?_
  exact writeZmm insn _

theorem readVecOrBroadcast (size : Nat) (insn : Insn) (op : Operand) :
    Oblivious L t (Handlers.readVecOrBroadcast size insn op) := by
  refine ite (getsZmm op.reg) ?_
  refine getsRip.bind fun rip => ?_
  refine (requireAttached ..).bind fun _ => ?_
  refine (getsEa insn op).bind fun addr => ?_
  exact ite ((load ..).bind fun lane => ret _) (load ..)

theorem fpBinop (size : Nat) (f : HostRounding → Buf → Buf → Buf) (insn : Insn) :
    Oblivious L t (Handlers.fpBinop size f insn) := by
  refine (getsMask insn).bind fun bits => ?_
  refine (getsZmm insn.dst.index).bind fun a => ?_
  refine (readVecOrBroadcast size insn insn.src).bind fun b => ?_
  refine (getsZmm insn.dst.reg).bind fun prev => ?_
  exact writeZmm insn _

theorem fpUnop (size : Nat) (f : Buf → Buf) (insn : Insn) :
    Oblivious L t (Handlers.fpUnop size f insn) := by
  refine (getsMask insn).bind fun bits => ?_
  refine (readVecOrBroadcast size insn insn.src).bind fun src => ?_
  refine (getsZmm insn.dst.reg).bind fun prev => ?_
  exact writeZmm insn _

/-! ### Gathers and scatters -/

/-- The lanes are visited in the same order, and the same of them are read. -/
theorem gatherLanes (insn : Insn) (base : GuestAddr) (idxVec : Buf) (n lane : Nat)
    (dst mask : Buf) : Oblivious L t (Handlers.gatherLanes insn base idxVec n lane dst mask) := by
  induction n generalizing lane dst mask with
  | zero => exact ret _
  | succ n ih =>
      refine ite ?_ (ih _ _ _)
      exact (load ..).bind fun buf => ih _ _ _

theorem keeps_setVec (reg width : Nat) (v : Buf) : Keeps L (setVec reg width v) := by
  by_cases hwidth : width = 16
  · subst hwidth
    exact keeps_flagFree fun _ _ => rfl
  · have hkeep : setVec reg width v = fun c => c.setZmmBytes reg 0 width v := by
      funext c
      exact if_neg hwidth
    rw [hkeep]
    exact keeps_flagFree fun _ _ => rfl

theorem doGather (insn : Insn) : Oblivious L t (Handlers.doGather insn) := by
  refine getsRip.bind fun rip => ?_
  refine (requireAttached ..).bind fun _ => ?_
  refine (gets_free _ fun _ => rfl).bind fun idxVec => ?_
  refine (gets_free _ fun _ => rfl).bind fun mask => ?_
  refine (gets_free _ fun _ => rfl).bind fun dst => ?_
  refine (gets_free (vsibBase insn) fun _ => rfl).bind fun base => ?_
  refine (gatherLanes insn base idxVec _ 0 dst mask).bind fun lanes => ?_
  refine (modify (keeps_setVec _ _ lanes.1)).bind fun _ => ?_
  exact modify (keeps_setVec _ _ lanes.2)

theorem scatterLanes (insn : Insn) (base : GuestAddr) (bits : U64) (src idxVec : Buf)
    (n lane : Nat) : Oblivious L t (Handlers.scatterLanes insn base bits src idxVec n lane) := by
  induction n generalizing lane with
  | zero => exact ret _
  | succ n ih =>
      refine ite ?_ (ih _)
      refine (store ..).bind fun _ => ?_
      exact ite ((update fun _ _ => rfl).bind fun _ => ih _) (ih _)

theorem doScatter (insn : Insn) : Oblivious L t (Handlers.doScatter insn) := by
  refine (getsMask insn).bind fun bits => ?_
  refine getsRip.bind fun rip => ?_
  refine (requireAttached ..).bind fun _ => ?_
  refine (getsZmm insn.dst.reg).bind fun src => ?_
  refine (gets_free _ fun _ => rfl).bind fun idxVec => ?_
  refine (gets_free (vsibBase insn) fun _ => rfl).bind fun base => ?_
  exact scatterLanes ..

/-! ### x87 -/

theorem x87Addr (isWrite : Bool) (note : String) (insn : Insn) (op : Operand) :
    Oblivious L t (Handlers.x87Addr isWrite note insn op) := by
  refine getsRip.bind fun rip => ?_
  exact (requireAttached ..).bind fun _ => getsEa insn op

theorem tryStore (addr : GuestAddr) (size : Nat) (data : Buf) :
    Oblivious L t (Handlers.tryStore addr size data) := by
  refine (askWrite addr size data).bind fun r => ?_
  cases r with
  | ok u => exact ret true
  | error s => exact ret false

section Float

variable (fp : HostFp)

theorem readMemF (insn : Insn) : Oblivious L t (Handlers.readMemF fp insn) := by
  refine (x87Addr false _ insn insn.src).bind fun addr => ?_
  refine ite ?_ (ite ?_ (ite ?_ (raiseAtRip ..)))
  · exact (load ..).bind fun b => ret _
  · exact (load ..).bind fun b => ret _
  · exact (load ..).bind fun b => ret _

theorem writeMemF (insn : Insn) (v : U64) : Oblivious L t (Handlers.writeMemF fp insn v) := by
  refine (x87Addr true _ insn insn.src).bind fun addr => ?_
  exact ite (tryStore ..) (ite (tryStore ..) (ite (tryStore ..) (raiseAtRip ..)))

theorem readMemI (insn : Insn) : Oblivious L t (Handlers.readMemI insn) := by
  refine (x87Addr false _ insn insn.src).bind fun addr => ?_
  exact (load ..).bind fun b => ite (ret _) (raiseAtRip ..)

theorem writeMemI (insn : Insn) (v : U64) : Oblivious L t (Handlers.writeMemI insn v) := by
  refine (x87Addr true _ insn insn.src).bind fun addr => ?_
  exact ite (tryStore ..) (raiseAtRip ..)

theorem opFld (insn : Insn) : Oblivious L t (Handlers.opFld fp insn) :=
  ite ((readMemF fp insn).bind fun _ => update fun _ _ => rfl) (update fun _ _ => rfl)

theorem opFild (insn : Insn) : Oblivious L t (Handlers.opFild fp insn) :=
  (readMemI insn).bind fun _ => update fun _ _ => rfl

theorem getsSt0 : Oblivious L t (H.gets fun c => c.st 0) := gets_free (fun c => c.st 0) fun _ => rfl

theorem opFst (insn : Insn) : Oblivious L t (Handlers.opFst fp insn) := by
  refine ite ?_ (update fun _ _ => rfl)
  exact getsSt0.bind fun v => (writeMemF fp insn v).bind fun _ => ret _

/-- Popping is left out when the store failed. -/
theorem popIf (written : Bool) : Oblivious L t (do
    if !written then Proc.exit
    Proc.modify Cpu.fpuPop : H Unit) := by
  have hpop : Oblivious L t (Proc.modify Cpu.fpuPop : H Unit) := update fun _ _ => rfl
  exact ite (exit.bind fun _ => hpop) hpop

theorem opFstp (insn : Insn) : Oblivious L t (Handlers.opFstp fp insn) := by
  refine ite ?_ ((update fun _ _ => rfl).bind fun _ => update fun _ _ => rfl)
  exact getsSt0.bind fun v => (writeMemF fp insn v).bind fun written => popIf written

theorem opFistp (insn : Insn) : Oblivious L t (Handlers.opFistp fp insn) := by
  refine (gets_free (fun c => (fp.f64 .current).toI64 (c.st 0)) fun _ => rfl).bind fun v => ?_
  exact (writeMemI insn v).bind fun written => popIf written

theorem fpOperand (insn : Insn) : Oblivious L t (Handlers.fpOperand fp insn) :=
  ite (readMemF fp insn) (gets_free (fun c => c.st (stIndexFrom insn)) fun _ => rfl)

theorem fpOpWith (f : U64 → U64 → U64) (insn : Insn) :
    Oblivious L t (Handlers.fpOpWith fp f insn) :=
  (fpOperand fp insn).bind fun _ => update fun _ _ => rfl

theorem opFcom (insn : Insn) : Oblivious L t (Handlers.opFcom fp insn) :=
  (fpOperand fp insn).bind fun _ => update fun _ _ => rfl

theorem opFnstsw (insn : Insn) : Oblivious L t (Handlers.opFnstsw insn) := by
  refine (gets_free (fun c => c.fpuSwWord) fun _ => rfl).bind fun sw => ?_
  refine ite (update fun _ _ => rfl) ?_
  exact (x87Addr ..).bind fun addr => (tryStore ..).bind fun _ => ret _

theorem opFnstcw (insn : Insn) : Oblivious L t (Handlers.opFnstcw insn) := by
  refine (gets_free Cpu.fpuCw fun _ => rfl).bind fun cw => ?_
  exact (x87Addr ..).bind fun addr => (tryStore ..).bind fun _ => ret _

theorem opFldcw (insn : Insn) : Oblivious L t (Handlers.opFldcw insn) := by
  refine (x87Addr false _ insn insn.src).bind fun addr => ?_
  refine (askRead addr 2).bind fun r => ?_
  cases r with
  | ok buf => exact update fun _ _ => rfl
  | error s => exact raiseAtRip ..

end Float

end Oblivious

end PicoCpu
