import PicoCpu.Faults
import PicoCpu.RegisterForms

/-!
Legacy SSE instructions leave the bytes of every vector register above the low sixteen alone. The
memory hooks are assumed to do so too, since a hook may do anything to the CPU.
-/

namespace PicoCpu

open H Proc Handlers

/-! ### Keeping the upper bytes -/

/-- Every vector register has the same bytes from byte `n` on. -/
def SameFrom (n : Nat) (c c' : Cpu) : Prop := ∀ r i, n ≤ i → c'.zmm r i = c.zmm r i

namespace SameFrom

variable {n : Nat} {c c' c'' : Cpu}

theorem refl (c : Cpu) : SameFrom n c c := fun _ _ _ => rfl

theorem trans (h : SameFrom n c c') (h' : SameFrom n c' c'') : SameFrom n c c'' :=
  fun r i hi => (h' r i hi).trans (h r i hi)

theorem of_eq (h : c'.zmm = c.zmm) : SameFrom n c c' := by
  intro r i _
  rw [h]

/-- A write of the low bytes of a register. -/
theorem setZmmBytes (c : Cpu) (reg : Nat) {size : Nat} (hsize : size ≤ n) (v : Buf) :
    SameFrom n c (c.setZmmBytes reg 0 size v) := by
  intro r i hi
  by_cases hr : r = reg
  · subst hr
    rw [Cpu.zmm_setZmmBytes, if_neg (by omega)]
  · rw [Cpu.zmm_setZmmBytes_of_ne c hr]

end SameFrom

theorem sameFrom_runMemHooks {hooks : List MemHook} {addr : GuestAddr} {size : Nat} {value : U64}
    {isWrite : Bool} (hhooks : ∀ h ∈ hooks, ∀ addr size value isWrite c,
      SameFrom 16 c (h.callback addr size value isWrite c)) (c : Cpu) :
    SameFrom 16 c (runMemHooks hooks addr size value isWrite c) := by
  unfold runMemHooks
  induction hooks generalizing c with
  | nil => exact SameFrom.refl c
  | cons h rest ih =>
      have hrest := ih fun h' hh' => hhooks h' (List.mem_cons_of_mem _ hh')
      rw [List.foldl_cons]
      split
      · exact (hhooks h (List.mem_cons_self ..) addr size value isWrite c).trans (hrest _)
      · exact hrest c

theorem sameFrom_env {σ : Type} {at_ : Attached σ} (hhooks : at_.HooksFollow (SameFrom 16))
    (o : MachineOp) (w : World σ) : hooksFollow (SameFrom 16) o (at_.env o w).1 := by
  cases o with
  | memHooks addr size value isWrite =>
      intro c
      cases isWrite with
      | false => exact sameFrom_runMemHooks hhooks.read c
      | true => exact sameFrom_runMemHooks hhooks.write c
  | attached isWrite => exact trivial
  | read addr size => exact trivial
  | write addr size data => exact trivial
  | nextTsc => exact trivial
  | nextRand => exact trivial

/-- The program keeps the upper bytes. -/
structure KeepsUpper {α : Type} (p : H α) : Prop where
  post : ∀ c, p.Post (hooksFollow (SameFrom 16)) c fun _ _ c' => SameFrom 16 c c'

/-- A handler that keeps the upper bytes, run with hooks that do. -/
theorem KeepsUpper.runOn {p : H Unit} (h : KeepsUpper p) {σ : Type} {at_ : Attached σ}
    (hhooks : at_.HooksFollow (SameFrom 16)) (c : Cpu) (w : World σ) :
    SameFrom 16 c (p.runOn at_ c w).value.2 :=
  Prog.All.exec (h.post c) (sameFrom_env hhooks) w

namespace KeepsUpper

variable {α β : Type}

theorem ret (a : α) : KeepsUpper (pure a : H α) := ⟨fun c => SameFrom.refl c⟩

theorem exit : KeepsUpper (Proc.exit : H α) := ⟨fun c => SameFrom.refl c⟩

theorem gets (f : Cpu → α) : KeepsUpper (H.gets f) := ⟨fun c => SameFrom.refl c⟩

theorem modify {f : Cpu → Cpu} (hf : ∀ c, SameFrom 16 c (f c)) : KeepsUpper (Proc.modify f) :=
  ⟨fun c => hf c⟩

theorem update {f : Cpu → Cpu} (hf : ∀ c, (f c).zmm = c.zmm) : KeepsUpper (Proc.modify f) :=
  modify fun c => SameFrom.of_eq (hf c)

theorem ask (o : MachineOp) : KeepsUpper (Proc.ask (S := machine) o : H (machine.Answer o)) :=
  ⟨fun c _ _ => SameFrom.refl c⟩

theorem bind {p : H α} {f : α → H β} (hp : KeepsUpper p) (hf : ∀ a, KeepsUpper (f a)) :
    KeepsUpper (p >>= f) := by
  refine ⟨fun c => post_bind.mpr ((hp.post c).mono ?_)⟩
  intro tr a c' hc
  cases a with
  | none => exact hc
  | some a => exact ((hf a).post c').mono fun _ _ _ hc' => hc.trans hc'

theorem ite {c : Prop} [Decidable c] {p q : H α} (hp : KeepsUpper p) (hq : KeepsUpper q) :
    KeepsUpper (if c then p else q) := by
  split
  · exact hp
  · exact hq

theorem raise (kind : FaultKind) (addr : GuestAddr) (reason : Status) (note : String) :
    KeepsUpper (H.raise kind addr reason note : H α) :=
  bind (update fun _ => rfl) fun _ => exit

theorem raiseAtRip (kind : FaultKind) (reason : Status) (note : String) :
    KeepsUpper (H.raiseAtRip kind reason note : H α) :=
  bind (gets Cpu.rip) fun rip => raise kind rip reason note

theorem load (addr : GuestAddr) (size : Nat) (kind : Status → FaultKind) (note : String) :
    KeepsUpper (H.load addr size kind note) := by
  apply bind (ask _)
  intro r
  cases r with
  | ok buf => exact ret buf
  | error s => exact raise (kind s) addr s note

theorem store (addr : GuestAddr) (size : Nat) (data : Buf) (kind : Status → FaultKind)
    (note : String) : KeepsUpper (H.store addr size data kind note) := by
  apply bind (ask _)
  intro r
  cases r with
  | ok u => exact ret ()
  | error s => exact raise (kind s) addr s note

theorem requireAttached (isWrite : Bool) (addr : GuestAddr) (note : String) :
    KeepsUpper (PicoCpu.requireAttached isWrite addr note) := by
  apply bind (ask _)
  intro present
  exact ite (raise ..) (ret ())

theorem checkDataBreakpoint (addr : GuestAddr) (isWrite : Bool) (size : Nat) (note : String) :
    KeepsUpper (H.checkDataBreakpoint addr isWrite size note) := by
  apply bind (gets _)
  intro hit
  apply bind (update ?_)
  · intro _
    exact ite (raise ..) (ret ())
  · intro c
    unfold Cpu.dataBreakpointAt Cpu.firstDr
    split
    · rfl
    · rfl

/-- The hooks do. -/
theorem fireMemHooks (addr : GuestAddr) (size : Nat) (value : U64) (isWrite : Bool) :
    KeepsUpper (H.fireMemHooks addr size value isWrite) :=
  ⟨fun c => post_ask_bind.mpr fun _ hf => hf c⟩

theorem readOperand (insn : Insn) (op : Operand) (size : Nat) :
    KeepsUpper (PicoCpu.readOperand insn op size) := by
  unfold PicoCpu.readOperand
  split
  · exact ret _
  · exact gets _
  · exact ret _
  · exact ret _
  · exact exit
  · apply bind (gets _)
    intro rip
    apply bind (requireAttached ..)
    intro _
    apply bind (gets _)
    intro addr
    apply bind (checkDataBreakpoint ..)
    intro _
    apply bind (fireMemHooks ..)
    intro _
    apply bind (load ..)
    intro buf
    exact ret _

theorem zmm_writeGpr (c : Cpu) (reg size : Nat) (v : U64) :
    (c.writeGpr reg size v).zmm = c.zmm := by
  unfold Cpu.writeGpr
  split
  · unfold Cpu.setR8
    split
    · rfl
    · rfl
  · rfl
  · rfl
  · rfl

theorem writeOperand (insn : Insn) (op : Operand) (size : Nat) (value : U64) :
    KeepsUpper (PicoCpu.writeOperand insn op size value) := by
  unfold PicoCpu.writeOperand
  split
  · exact ite (update fun c => zmm_writeGpr c ..) (raiseAtRip ..)
  · exact exit
  · exact raiseAtRip ..
  · exact raiseAtRip ..
  · exact raiseAtRip ..
  · apply bind (gets _)
    intro addr
    apply bind (requireAttached ..)
    intro _
    apply bind (checkDataBreakpoint ..)
    intro _
    apply bind (fireMemHooks ..)
    intro _
    exact store ..

section Vector

variable (io : VecIo) (insn : Insn)

theorem vecRead (op : Operand) (size : Nat) : KeepsUpper (io.read insn op size) := by
  have hmem : KeepsUpper (do
      let rip ← H.gets Cpu.rip
      PicoCpu.requireAttached false rip io.readNote
      let addr ← H.gets fun c => ea c insn op
      H.load addr size pageFault io.readNote : H Buf) := by
    apply bind (gets _)
    intro rip
    apply bind (requireAttached ..)
    intro _
    apply bind (gets _)
    intro addr
    exact load ..
  unfold VecIo.read
  split
  · exact gets _
  · exact hmem
  · exact hmem
  · exact raiseAtRip ..
  · exact hmem

theorem vecWrite (op : Operand) {size : Nat} (hsize : size ≤ 16) (v : Buf) :
    KeepsUpper (io.write insn op size v) := by
  have hmem : KeepsUpper (do
      let rip ← H.gets Cpu.rip
      PicoCpu.requireAttached true rip io.writeNote
      let addr ← H.gets fun c => ea c insn op
      H.store addr size v kindFromStatus io.writeNote : H Unit) := by
    apply bind (gets _)
    intro rip
    apply bind (requireAttached ..)
    intro _
    apply bind (gets _)
    intro addr
    exact store ..
  unfold VecIo.write
  split
  · exact modify fun c => SameFrom.setZmmBytes c _ hsize v
  · exact hmem
  · exact hmem
  · exact raiseAtRip ..
  · exact hmem

theorem xmmBinary (f : Insn → Buf → Buf → Buf) : KeepsUpper (PicoCpu.xmmBinary io f insn) := by
  apply bind (vecRead ..)
  intro a
  apply bind (vecRead ..)
  intro b
  exact vecWrite io insn _ (Nat.le_refl 16) _

theorem xmmUnary (f : Insn → Buf → Buf) : KeepsUpper (PicoCpu.xmmUnary io f insn) := by
  apply bind (vecRead ..)
  intro s
  exact vecWrite io insn _ (Nat.le_refl 16) _

end Vector

/-! ### The handlers -/

section Handlers

variable (insn : Insn)

theorem opMovdToXmm : KeepsUpper (Handlers.opMovdToXmm insn) := by
  apply bind (readOperand ..)
  intro v
  exact modify fun c => SameFrom.setZmmBytes c _ (Nat.le_refl 16) _

theorem opMovdFromXmm : KeepsUpper (Handlers.opMovdFromXmm insn) := by
  have hwrite (b : Cpu → Buf) : KeepsUpper
      (Proc.modify fun c => c.setZmmBytes insn.dst.reg 0 16 (zeroExtended 8 (b c)) : H Unit) :=
    modify fun c => SameFrom.setZmmBytes c _ (Nat.le_refl 16) _
  have hload (addr : GuestAddr) {k : Except Status Buf → H Unit}
      (hok : ∀ buf, k (.ok buf) =
        Proc.modify fun c => c.setZmmBytes insn.dst.reg 0 16 (zeroExtended 8 buf))
      (herror : ∀ s, k (.error s) =
        H.raise .pageFault addr .providerFailure "movq xmm m64") :
      KeepsUpper (H.askRead addr 8 >>= k) := by
    apply bind (ask _)
    intro r
    cases r with
    | ok buf =>
        rw [hok]
        exact hwrite fun _ => buf
    | error s =>
        rw [herror]
        exact raise ..
  apply ite (hwrite fun c => c.zmm insn.src.reg)
  apply ite
  · apply bind (gets _)
    intro addr
    apply bind (ask _)
    intro present
    apply ite
    · apply bind (raise ..)
      intro _
      exact hload addr (fun _ => rfl) fun _ => rfl
    · exact hload addr (fun _ => rfl) fun _ => rfl
  · apply bind (gets _)
    intro v
    exact writeOperand ..

theorem readScalar (op : Operand) (size : Nat) : KeepsUpper (Handlers.readScalar insn op size) := by
  have hmem : KeepsUpper (do
      let rip ← H.gets Cpu.rip
      PicoCpu.requireAttached false rip "fp scalar read"
      let addr ← H.gets fun c => ea c insn op
      H.load addr size pageFault "fp scalar read" : H Buf) := by
    apply bind (gets _)
    intro rip
    apply bind (requireAttached ..)
    intro _
    apply bind (gets _)
    intro addr
    exact load ..
  unfold Handlers.readScalar
  split
  · exact gets _
  · exact hmem
  · exact hmem
  · exact gets _
  · exact raiseAtRip ..

theorem scalarOp (size : Nat) (f : Buf → Buf → Buf) :
    KeepsUpper (Handlers.scalarOp size f insn) := by
  apply bind (vecRead ..)
  intro dst
  apply bind (readScalar ..)
  intro src
  exact vecWrite fpIo insn _ (Nat.le_refl 16) _

theorem scalarMove {size : Nat} (hsize : size ≤ 16) (note : String) :
    KeepsUpper (Handlers.scalarMove size note insn) := by
  apply ite (modify fun c => SameFrom.setZmmBytes c _ hsize _)
  apply ite
  · apply bind (readScalar ..)
    intro src
    exact vecWrite fpIo insn _ (Nat.le_refl 16) _
  · apply bind (vecRead ..)
    intro src
    apply bind (gets _)
    intro rip
    apply bind (requireAttached ..)
    intro _
    apply bind (gets _)
    intro addr
    exact store ..

theorem zmm_setFlag (c : Cpu) (mask : U64) (v : Bool) : (c.setFlag mask v).zmm = c.zmm := by
  have hsync : c.syncFlags.zmm = c.zmm := by rw [Cpu.syncFlags_eq]
  exact hsync

theorem zmm_setCompareFlags (unordered less equal : Bool) (c : Cpu) :
    (setCompareFlags unordered less equal c).zmm = c.zmm := by
  simp only [setCompareFlags, Cpu.setZf, Cpu.setPf, Cpu.setCf, Cpu.setAf, Cpu.setSf, Cpu.setOf,
    zmm_setFlag]
  rw [Cpu.syncFlags_eq]

theorem compareScalar (size : Nat) {flags : Buf → Buf → Cpu → Cpu}
    (hflags : ∀ a b c, (flags a b c).zmm = c.zmm) :
    KeepsUpper (Handlers.compareScalar size flags insn) := by
  apply bind (readScalar ..)
  intro a
  apply bind (readScalar ..)
  intro b
  exact update (hflags a b)

theorem convertInto (srcSize : Insn → Nat) (size : Nat) (f : Insn → Buf → Buf) :
    KeepsUpper (Handlers.convertInto srcSize size f insn) := by
  apply bind (readScalar ..)
  intro src
  apply bind (vecRead ..)
  intro dst
  exact vecWrite fpIo insn _ (Nat.le_refl 16) _

theorem truncateTo (size : Nat) (f : Buf → U64) :
    KeepsUpper (Handlers.truncateTo size f insn) := by
  apply bind (readScalar ..)
  intro src
  exact writeOperand ..

theorem moveMask (positions : List Nat) : KeepsUpper (Handlers.moveMask positions insn) := by
  apply bind (vecRead ..)
  intro s
  exact update fun _ => rfl

theorem packedShift (f : Nat → Buf → Buf) : KeepsUpper (Handlers.packedShift f insn) := by
  apply bind (vecRead ..)
  intro d
  apply bind
  · unfold shiftCountFrom
    split
    · exact ret _
    · exact gets _
    · exact ret _
  · intro count
    exact vecWrite miscIo insn _ (Nat.le_refl 16) _

theorem extractElement (size : Insn → Nat) (f : Buf → U8 → U64) :
    KeepsUpper (Handlers.extractElement size f insn) := by
  apply bind (vecRead ..)
  intro s
  exact writeOperand ..

theorem insertElement (size : Nat) (mask : U8) :
    KeepsUpper (Handlers.insertElement size mask insn) := by
  apply bind (vecRead ..)
  intro d
  apply bind (readOperand ..)
  intro v
  exact vecWrite sse4Io insn _ (Nat.le_refl 16) _

theorem opCrc32 : KeepsUpper (Handlers.opCrc32 insn) := by
  apply bind (readOperand ..)
  intro src
  exact update fun _ => rfl

theorem zmm_strFlags (k : StrCtrl) (m : U16) (lenA lenB : Nat) (c : Cpu) :
    (strFlags k m lenA lenB c).zmm = c.zmm := by
  simp only [strFlags, Cpu.setZf, Cpu.setPf, Cpu.setCf, Cpu.setAf, Cpu.setSf, Cpu.setOf,
    zmm_setFlag]
  rw [Cpu.syncFlags_eq]

theorem pcmpstrCore (isExplicit indexForm : Bool) :
    KeepsUpper (Handlers.pcmpstrCore isExplicit indexForm insn) := by
  apply bind (vecRead ..)
  intro a
  apply bind (vecRead ..)
  intro b
  apply bind (gets _)
  intro lens
  have hflags (k : StrCtrl) (m : U16) :
      KeepsUpper (Proc.modify (strFlags k m lens.1 lens.2) : H Unit) :=
    update fun c => zmm_strFlags ..
  apply ite
  · exact bind (update fun _ => rfl) fun _ => hflags _ _
  · exact bind (modify fun c => SameFrom.setZmmBytes c _ (Nat.le_refl 16) _) fun _ => hflags _ _

section Legacy

variable (hvex : insn.flags.vex = false)

include hvex

/-- Only a VEX-encoded write clears the rest of the register. -/
theorem write16To (op : Operand) (v : Buf) : KeepsUpper (Handlers.write16To insn op v) := by
  have hnot : ¬ (op.kind = .xmm ∧ insn.flags.vex = true) := by simp [hvex]
  unfold Handlers.write16To
  rw [if_neg hnot]
  apply bind (vecWrite sse4Io insn op (Nat.le_refl 16) v)
  intro _
  exact ret ()

theorem shaBinary (f : Insn → Buf → Buf → Buf) : KeepsUpper (Handlers.shaBinary f insn) := by
  apply bind (vecRead ..)
  intro dst
  apply bind (vecRead ..)
  intro src
  exact write16To insn hvex _ _

theorem opSha256rnds2 : KeepsUpper (Handlers.opSha256rnds2 insn) := by
  apply bind (vecRead ..)
  intro dst
  apply bind (vecRead ..)
  intro src
  apply bind (gets _)
  intro xmm0
  exact write16To insn hvex _ _

end Legacy

end Handlers

end KeepsUpper

/-! ### Legacy SSE instructions -/

/-- The handlers of `sse.cpp`, `sse_fp.cpp`, `sse4_aes.cpp` and the vector part of `misc.cpp`, and
those of `phase10.cpp` that have no VEX form. -/
def Handler.isSse : Handler → Bool
  | .opMovdToXmm | .opMovdFromXmm | .opMovdqa | .opMovdqu | .opPxor | .opPand | .opPor | .opPaddb
  | .opPaddw | .opPaddd | .opPaddq | .opPsubb | .opPsubw | .opPsubd | .opPsubq | .opPshufd
  | .opPcmpeqb | .opPcmpeqw | .opPcmpeqd | .opMovss | .opMovsdFp | .opAddss | .opSubss | .opMulss
  | .opDivss | .opSqrtss | .opMinss | .opMaxss | .opAddsd | .opSubsd | .opMulsd | .opDivsd
  | .opSqrtsd | .opMinsd | .opMaxsd | .opUcomiss | .opUcomisd | .opCvtsi2ss | .opCvtsi2sd
  | .opCvttss2si | .opCvttsd2si | .opCvtss2sd | .opCvtsd2ss | .opMovups | .opMovupd | .opAddps
  | .opSubps | .opMulps | .opDivps | .opSqrtps | .opAddpd | .opSubpd | .opMulpd | .opDivpd
  | .opSqrtpd | .opXorps | .opXorpd | .opAndps | .opOrps | .opRcpss | .opRsqrtss | .opRcpps
  | .opRsqrtps | .opPmovmskb | .opMovmskps | .opMovmskpd | .opShufps | .opShufpd | .opPshufb
  | .opPshufhw | .opPshuflw | .opPmullw | .opPmulhw | .opPmulhuw | .opPmaddwd | .opPsllw | .opPslld
  | .opPsllq | .opPsrlw | .opPsrld | .opPsrlq | .opPsraw | .opPsrad | .opPunpcklbw | .opPunpcklwd
  | .opPunpckldq | .opPunpcklqdq | .opPunpckhbw | .opPunpckhwd | .opPunpckhdq | .opPunpckhqdq
  | .opAesenc | .opAesenclast | .opAesdec | .opAesdeclast | .opAesimc | .opAeskeygen | .opPclmulqdq
  | .opCrc32 | .opRoundss | .opRoundsd | .opRoundps | .opRoundpd | .opInsertps | .opPextrb
  | .opPextrw | .opPextrd | .opPextrq | .opPinsrb | .opPinsrw | .opPinsrd | .opPinsrq | .opPcmpgtb
  | .opPcmpgtw | .opPcmpgtd | .opPcmpgtq | .opPmaxub | .opPmaxsw | .opPminub | .opPminsw | .opPabsb
  | .opPabsw | .opPabsd | .opPsadbw | .opSha1rnds4 | .opSha1nexte | .opSha1msg1 | .opSha1msg2
  | .opSha256rnds2 | .opSha256msg1 | .opSha256msg2 | .opPcmpestri | .opPcmpestrm | .opPcmpistri
  | .opPcmpistrm => true
  | _ => false

theorem keepsUpper_sse (fp : HostFp) {h : Handler} (hsse : h.isSse = true) (insn : Insn)
    (hvex : insn.flags.vex = false) : KeepsUpper (callHandler fp h insn) := by
  delta PicoCpu.callHandler
  cases h with
  | opPxor | opPand | opPor | opPaddb | opPaddw | opPaddd | opPaddq | opPsubb | opPsubw | opPsubd
  | opPsubq | opPcmpeqb | opPcmpeqw | opPcmpeqd | opAddps | opSubps | opMulps | opDivps | opSqrtps
  | opAddpd | opSubpd | opMulpd | opDivpd | opSqrtpd | opXorps | opXorpd | opAndps | opOrps
  | opRcpss | opRsqrtss | opShufps | opShufpd | opPshufb | opPmullw | opPmulhw | opPmulhuw
  | opPmaddwd | opPunpcklbw | opPunpcklwd | opPunpckldq | opPunpcklqdq | opPunpckhbw | opPunpckhwd
  | opPunpckhdq | opPunpckhqdq | opAesenc | opAesenclast | opAesdec | opAesdeclast | opPclmulqdq
  | opRoundss | opRoundsd | opInsertps | opPcmpgtb | opPcmpgtw | opPcmpgtd | opPcmpgtq | opPmaxub
  | opPmaxsw | opPminub | opPminsw | opPsadbw => apply KeepsUpper.xmmBinary
  | opMovdqa | opMovdqu | opPshufd | opMovups | opMovupd | opRcpps | opRsqrtps | opPshufhw
  | opPshuflw | opAesimc | opAeskeygen | opRoundps | opRoundpd | opPabsb | opPabsw | opPabsd =>
      apply KeepsUpper.xmmUnary
  | opAddss | opSubss | opMulss | opDivss | opSqrtss | opMinss | opMaxss | opAddsd | opSubsd
  | opMulsd | opDivsd | opSqrtsd | opMinsd | opMaxsd => apply KeepsUpper.scalarOp
  | opMovss | opMovsdFp => exact .scalarMove insn (by decide) _
  | opUcomiss | opUcomisd =>
      exact .compareScalar insn _ fun _ _ _ => KeepsUpper.zmm_setCompareFlags ..
  | opCvtsi2ss | opCvtsi2sd | opCvtss2sd | opCvtsd2ss => apply KeepsUpper.convertInto
  | opCvttss2si | opCvttsd2si => apply KeepsUpper.truncateTo
  | opPmovmskb | opMovmskps | opMovmskpd => apply KeepsUpper.moveMask
  | opPsllw | opPslld | opPsllq | opPsrlw | opPsrld | opPsrlq | opPsraw | opPsrad =>
      apply KeepsUpper.packedShift
  | opPextrb | opPextrw | opPextrd | opPextrq => apply KeepsUpper.extractElement
  | opPinsrb | opPinsrw | opPinsrd | opPinsrq => apply KeepsUpper.insertElement
  | opMovdToXmm => exact .opMovdToXmm insn
  | opMovdFromXmm => exact .opMovdFromXmm insn
  | opCrc32 => exact .opCrc32 insn
  | opSha1rnds4 | opSha1nexte | opSha1msg1 | opSha1msg2 | opSha256msg1 | opSha256msg2 =>
      apply KeepsUpper.shaBinary insn hvex
  | opSha256rnds2 => exact .opSha256rnds2 insn hvex
  | opPcmpestri | opPcmpestrm | opPcmpistri | opPcmpistrm => apply KeepsUpper.pcmpstrCore
  | _ => cases hsse

end PicoCpu
