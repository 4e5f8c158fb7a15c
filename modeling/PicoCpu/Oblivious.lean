import PicoCpu.Lib.Related
import PicoCpu.Handlers.Operand
import PicoCpu.Normal

/-!
Programs that cannot tell how the flags are kept. From two CPUs that are the same up to the
lazy record they ask their environment the same and end in CPUs that are the same again. The
basic operations of the machine are of this kind, and so is what is composed of them.
-/

namespace PicoCpu

open H Proc

namespace Cpu

/-- The same CPU, and, where `L` is given, with these CPUID overrides. -/
structure SameWith (L : Option (List CpuidLeaf)) (c d : Cpu) : Prop where
  same : c.Same d
  overrides : ∀ l ∈ L, c.cpuidOverrides = l

section Updates

variable {c d : Cpu}

theorem Same.outside (h : c.Same d) :
    c.rflags_ &&& ~~~syncMask = d.rflags_ &&& ~~~syncMask := by
  rw [← syncFlags_outside c, ← syncFlags_outside d, h.rflags_eq]

/-- The direction flag is outside what a synchronisation writes. -/
theorem Same.df (h : c.Same d) : c.df = d.df := by
  have hbit (x : U64) : x &&& Rflags.df = x &&& ~~~syncMask &&& Rflags.df := by
    rw [BitVec.and_assoc]
    rfl
  rw [Cpu.df, Cpu.df, hbit c.rflags_, hbit d.rflags_, h.outside]

theorem Same.synced (h : c.Same d) : c.syncFlags.Same d.syncFlags :=
  ((same_syncFlags c).trans h).trans (same_syncFlags d).symm

theorem Same.cf (h : c.Same d) : c.cf = d.cf := h.flag Rflags.cf
theorem Same.zf (h : c.Same d) : c.zf = d.zf := h.flag Rflags.zf

/-- A new pending operation whose bits do not depend on what was pending. -/
theorem Same.stash (h : c.Same d) {op : CcOp} (hop : op ≠ .eflags) (size : Nat)
    (src dst src2 : U64)
    (hbits : (c.stash op size src dst src2).syncBits = (d.stash op size src dst src2).syncBits) :
    (c.stash op size src dst src2).Same (d.stash op size src dst src2) := by
  have houtside : (c.stash op size src dst src2).rflags_ &&& ~~~syncMask =
      (d.stash op size src dst src2).rflags_ &&& ~~~syncMask := h.outside
  obtain ⟨_, hrest⟩ := same_iff.mp h
  refine same_iff.mpr ⟨?_, hrest⟩
  have hc : (c.stash op size src dst src2).ccOp ≠ .eflags := hop
  have hd : (d.stash op size src dst src2).ccOp ≠ .eflags := hop
  rw [syncFlags, syncFlags, if_neg hc, if_neg hd]
  change _ &&& _ ||| _ = _ &&& _ ||| _
  rw [hbits, houtside]

/-- A new pending operation over synchronised flags. -/
theorem Same.syncedStash (h : c.Same d) {op : CcOp} (hop : op ≠ .eflags) (size : Nat)
    (src dst src2 : U64) :
    (c.syncFlags.stash op size src dst src2).Same (d.syncFlags.stash op size src dst src2) := by
  refine h.synced.stash hop size src dst src2 ?_
  simp only [Cpu.stash, syncBits, h.rflags_eq]

theorem Same.setRflags (h : c.Same d) (v : U64) : (c.setRflags v).Same (d.setRflags v) := by
  obtain ⟨_, hrest⟩ := same_iff.mp h
  exact same_iff.mpr ⟨rfl, hrest⟩

theorem Same.setFlag (h : c.Same d) (mask : U64) (v : Bool) :
    (c.setFlag mask v).Same (d.setFlag mask v) := by
  have hword := h.rflags_eq
  obtain ⟨_, hrest⟩ := same_iff.mp h.synced
  refine same_iff.mpr ⟨?_, hrest⟩
  have hsynced (x : Cpu) : (x.setFlag mask v).syncFlags.rflags_ =
      withBit x.syncFlags.rflags_ mask v := by
    have hop : (x.setFlag mask v).ccOp = .eflags := ccOp_syncFlags x
    rw [syncFlags_of_eflags hop]
    rfl
  rw [hsynced, hsynced, hword]

theorem overrides_syncFlags (c : Cpu) : c.syncFlags.cpuidOverrides = c.cpuidOverrides := by
  rw [syncFlags_eq]

end Updates

/-- An update of the CPU that keeps CPUs the same. -/
structure Keeps (L : Option (List CpuidLeaf)) (g : Cpu → Cpu) : Prop where
  same : ∀ c d, SameWith L c d → SameWith L (g c) (g d)

section Keeps

variable {L : Option (List CpuidLeaf)} {g : Cpu → Cpu}

theorem keeps_of_same (hsame : ∀ c d, c.Same d → (g c).Same (g d))
    (hoverrides : ∀ c, (g c).cpuidOverrides = c.cpuidOverrides) : Keeps L g :=
  ⟨fun c d h => ⟨hsame c d h.same, fun l hl => (hoverrides c).trans (h.overrides l hl)⟩⟩

/-- What most updates leave alone: the flags, stored and pending, and the CPUID overrides. -/
structure Aside where
  rflags : U64
  ccOp : CcOp
  ccSize : Nat
  ccDst : U64
  ccSrc : U64
  ccSrc2 : U64
  overrides : List CpuidLeaf

def aside (c : Cpu) : Aside :=
  ⟨c.rflags_, c.ccOp, c.ccSize, c.ccDst, c.ccSrc, c.ccSrc2, c.cpuidOverrides⟩

def withAside (c : Cpu) (x : Aside) : Cpu :=
  { c with
    rflags_ := x.rflags, ccOp := x.ccOp, ccSize := x.ccSize, ccDst := x.ccDst, ccSrc := x.ccSrc
    ccSrc2 := x.ccSrc2, cpuidOverrides := x.overrides }

/-- Whatever neither reads nor writes these. -/
theorem keeps_flagFree (hframe : ∀ c x, g (c.withAside x) = (g c).withAside x) : Keeps L g := by
  have haside (c : Cpu) : (g c).aside = c.aside := by
    have hself : g c = (g c).withAside c.aside := hframe c c.aside
    rw [hself]
    rfl
  have hflags (c : Cpu) : (g c).flagFields = c.flagFields :=
    congrArg (fun x : Aside => (x.rflags, x.ccOp, x.ccSize, x.ccDst, x.ccSrc, x.ccSrc2)) (haside c)
  have hoverrides (c : Cpu) : (g c).cpuidOverrides = c.cpuidOverrides :=
    congrArg Aside.overrides (haside c)
  refine keeps_of_same (fun _ _ h => h.update ⟨hflags, ?_⟩) hoverrides
  intro c
  have hunflagged := hframe c ⟨0, .eflags, 4, 0, 0, 0, c.cpuidOverrides⟩
  have hrest : g c.unflagged = (g c).withAside ⟨0, .eflags, 4, 0, 0, 0, c.cpuidOverrides⟩ :=
    hunflagged
  rw [hrest, ← hoverrides c]
  rfl

theorem Keeps.comp {f : Cpu → Cpu} (hg : Keeps L g) (hf : Keeps L f) :
    Keeps L fun c => g (f c) :=
  ⟨fun c d h => hg.same _ _ (hf.same c d h)⟩

theorem keeps_id : Keeps L fun c => c := ⟨fun _ _ h => h⟩

theorem keeps_syncFlags : Keeps L syncFlags :=
  keeps_of_same (fun _ _ h => h.synced) overrides_syncFlags

theorem keeps_setFlag (mask : U64) (v : Bool) : Keeps L fun c => c.setFlag mask v :=
  keeps_of_same (fun _ _ h => h.setFlag mask v) overrides_syncFlags

theorem Keeps.setFlag (hg : Keeps L g) (mask : U64) (v : Bool) :
    Keeps L fun c => (g c).setFlag mask v :=
  (keeps_setFlag mask v).comp hg

theorem keeps_setRflags (v : U64) : Keeps L fun c => c.setRflags v :=
  keeps_of_same (fun _ _ h => h.setRflags v) fun _ => rfl

/-- What an update reads of the CPU may be read before. -/
theorem keeps_read {α : Type} {f : α → Cpu → Cpu} {r : Cpu → α}
    (hr : ∀ c d, c.Same d → r c = r d) (hf : ∀ a, Keeps L (f a)) :
    Keeps L fun c => f (r c) c := by
  refine ⟨fun c d h => ?_⟩
  have hread := hr c d h.same
  have hkeeps := (hf (r d)).same c d h
  simp only [hread]
  exact hkeeps

/-! ### Flags recorded -/

/-- A new pending operation that computes every flag it is read for. -/
theorem keeps_stash {op : CcOp} (hop : op ≠ .eflags) (size : Nat) (src dst src2 : U64)
    (hbits : ∀ c d : Cpu, (c.stash op size src dst src2).syncBits =
      (d.stash op size src dst src2).syncBits) :
    Keeps L fun c => c.stash op size src dst src2 :=
  keeps_of_same (fun c d h => h.stash hop size src dst src2 (hbits c d)) fun _ => rfl

theorem keeps_syncedStash {op : CcOp} (hop : op ≠ .eflags) (size : Nat) (src dst src2 : U64) :
    Keeps L fun c => c.syncFlags.stash op size src dst src2 :=
  keeps_of_same (fun _ _ h => h.syncedStash hop size src dst src2) overrides_syncFlags

theorem keeps_stashLogic (size : Nat) (r : U64) : Keeps L fun c => c.stashLogic size r :=
  keeps_stash CcOp.noConfusion size 0 r 0 fun _ _ => rfl

theorem keeps_stashAdd (size : Nat) (b r : U64) : Keeps L fun c => c.stashAdd size b r :=
  keeps_stash CcOp.noConfusion size b r 0 fun _ _ => rfl

theorem keeps_stashSub (size : Nat) (b r : U64) : Keeps L fun c => c.stashSub size b r :=
  keeps_stash CcOp.noConfusion size b r 0 fun _ _ => rfl

theorem keeps_stashNeg (size : Nat) (a r : U64) : Keeps L fun c => c.stashNeg size a r :=
  keeps_stash CcOp.noConfusion size a r 0 fun _ _ => rfl

theorem keeps_stashAdc (size : Nat) (b : U64) (cin : Bool) (r : U64) :
    Keeps L fun c => c.stashAdc size b cin r :=
  keeps_stash CcOp.noConfusion size b r (if cin then 1 else 0) fun _ _ => rfl

theorem keeps_stashSbb (size : Nat) (b : U64) (bin : Bool) (r : U64) :
    Keeps L fun c => c.stashSbb size b bin r :=
  keeps_stash CcOp.noConfusion size b r (if bin then 1 else 0) fun _ _ => rfl

theorem keeps_stashInc (size : Nat) (r : U64) : Keeps L fun c => c.stashInc size r :=
  keeps_read (fun _ _ h => h.cf) fun cf =>
    keeps_syncedStash CcOp.noConfusion size (if cf then 1 else 0) r 0

theorem keeps_stashDec (size : Nat) (r : U64) : Keeps L fun c => c.stashDec size r :=
  keeps_read (fun _ _ h => h.cf) fun cf =>
    keeps_syncedStash CcOp.noConfusion size (if cf then 1 else 0) r 0

/-- A shift records nothing when its count is zero. -/
theorem keeps_stashShift {op : CcOp} (hop : op = .shl ∨ op = .shr ∨ op = .sar) (size : Nat)
    (a : U64) (n : Nat) (r : U64) : Keeps L fun c => c.stashShift op size a n r := by
  unfold stashShift
  split
  · exact keeps_id
  · rcases hop with rfl | rfl | rfl
    · exact keeps_stash CcOp.noConfusion _ _ _ _ fun _ _ => rfl
    · exact keeps_stash CcOp.noConfusion _ _ _ _ fun _ _ => rfl
    · exact keeps_stash CcOp.noConfusion _ _ _ _ fun _ _ => rfl

theorem keeps_stashRotate (op : CcOp) (hop : op ≠ .eflags) (size : Nat) (a : U64) (n : Nat)
    (r : U64) : Keeps L fun c => c.stashRotate op size a n r := by
  unfold stashRotate
  split
  · exact keeps_id
  · exact keeps_syncedStash hop ..

theorem keeps_stashMulOv (overflow : Bool) : Keeps L fun c => c.stashMulOv overflow :=
  keeps_syncedStash CcOp.noConfusion ..

end Keeps

end Cpu

/-! ### The operations of the machine -/

/-- Every operation, the host's counters only with `clocks`. -/
def MachineOp.Allowed (clocks : Bool) : MachineOp → Prop
  | .nextTsc => clocks = true
  | .nextRand => clocks = true
  | _ => True

/-- A hook does to the CPU what keeps CPUs the same; other answers are arbitrary. -/
def hookRely (L : Option (List CpuidLeaf)) : machine.Rely
  | .memHooks _ _ _ _, f => Cpu.Keeps L f
  | .attached _, _ => True
  | .read _ _, _ => True
  | .write _ _ _, _ => True
  | .nextTsc, _ => True
  | .nextRand, _ => True

/-- The program cannot tell how the flags are kept. -/
structure Oblivious {α : Type} (L : Option (List CpuidLeaf)) (clocks : Bool) (p : H α) :
    Prop where
  respects : p.Respects (MachineOp.Allowed clocks) (hookRely L) (Cpu.SameWith L)

namespace Oblivious

variable {α β : Type} {L : Option (List CpuidLeaf)} {t : Bool}

theorem bind {p : H α} {f : α → H β} (hp : Oblivious L t p) (hf : ∀ a, Oblivious L t (f a)) :
    Oblivious L t (p >>= f) :=
  ⟨hp.respects.bind fun a => (hf a).respects⟩

theorem ite {c : Prop} [Decidable c] {p q : H α} (hp : Oblivious L t p) (hq : Oblivious L t q) :
    Oblivious L t (if c then p else q) :=
  ⟨hp.respects.ite hq.respects⟩

theorem attempt {p : H α} (hp : Oblivious L t p) : Oblivious L t (Proc.attempt p) :=
  ⟨hp.respects.attempt⟩

theorem ret (a : α) : Oblivious L t (pure a : H α) := ⟨respects_pure a⟩

theorem exit : Oblivious L t (Proc.exit : H α) := ⟨respects_exit⟩

theorem modify {g : Cpu → Cpu} (hg : Cpu.Keeps L g) : Oblivious L t (Proc.modify g : H Unit) :=
  ⟨respects_modify hg.same⟩

theorem update {g : Cpu → Cpu} (hframe : ∀ c x, g (c.withAside x) = (g c).withAside x) :
    Oblivious L t (Proc.modify g : H Unit) :=
  modify (Cpu.keeps_flagFree hframe)

/-- Reading what does not depend on the flags. -/
theorem gets (f : Cpu → α) (hf : ∀ c d, c.Same d → f c = f d) : Oblivious L t (H.gets f) :=
  ⟨fun c d h => .ret ⟨congrArg some (hf c d h.same), h⟩⟩

theorem gets_free (f : Cpu → α) (hf : ∀ c, f c.unflagged = f c) :
    Oblivious L t (H.gets f) :=
  gets f fun _ _ h => h.observe f hf

theorem getsRip : Oblivious L t (H.gets Cpu.rip) := gets_free Cpu.rip fun _ => rfl

theorem getsReg (reg : Nat) : Oblivious L t (H.gets fun c => c.r reg) :=
  gets_free (fun c => c.r reg) fun _ => rfl

theorem getsZmm (reg : Nat) : Oblivious L t (H.gets fun c => c.zmm reg) :=
  gets_free (fun c => c.zmm reg) fun _ => rfl

theorem getsSynced (f : Cpu → α) (hf : ∀ c d, c.Same d → f c = f d) :
    Oblivious L t (H.getsSynced f) :=
  (modify Cpu.keeps_syncFlags).bind fun _ => gets f hf

theorem raise (kind : FaultKind) (addr : GuestAddr) (reason : Status) (note : String) :
    Oblivious L t (H.raise kind addr reason note : H α) :=
  (update fun _ _ => rfl).bind fun _ => exit

theorem raiseAtRip (kind : FaultKind) (reason : Status) (note : String) :
    Oblivious L t (H.raiseAtRip kind reason note : H α) :=
  getsRip.bind fun rip => raise kind rip reason note

theorem attached (isWrite : Bool) : Oblivious L t (H.attached isWrite) :=
  ⟨respects_ask _ trivial⟩

theorem askRead (addr : GuestAddr) (size : Nat) : Oblivious L t (H.askRead addr size) :=
  ⟨respects_ask _ trivial⟩

theorem askWrite (addr : GuestAddr) (size : Nat) (data : Buf) :
    Oblivious L t (H.askWrite addr size data) :=
  ⟨respects_ask _ trivial⟩

/-- The hooks themselves are trusted to be of this kind. -/
theorem fireMemHooks (addr : GuestAddr) (size : Nat) (value : U64) (isWrite : Bool) :
    Oblivious L t (H.fireMemHooks addr size value isWrite) := by
  have hmodify (f : Cpu → Cpu) (hf : hookRely L (.memHooks addr size value isWrite) f) :=
    (modify (L := L) (t := t) hf).respects
  exact ⟨respects_ask_bind (S := machine) trivial hmodify⟩

theorem load (addr : GuestAddr) (size : Nat) (kind : Status → FaultKind) (note : String) :
    Oblivious L t (H.load addr size kind note) := by
  refine (askRead addr size).bind fun r => ?_
  cases r with
  | ok buf => exact ret buf
  | error s => exact raise (kind s) addr s note

theorem store (addr : GuestAddr) (size : Nat) (data : Buf) (kind : Status → FaultKind)
    (note : String) : Oblivious L t (H.store addr size data kind note) := by
  refine (askWrite addr size data).bind fun r => ?_
  cases r with
  | ok u => exact ret u
  | error s => exact raise (kind s) addr s note

/-- The register a data access hits first. -/
def dataHit (c : Cpu) (addr : GuestAddr) (isWrite : Bool) (size : Nat) : Option Nat :=
  [0, 1, 2, 3].find? fun n =>
    c.drEnabled n && ((c.drCond n == 1 && isWrite) || c.drCond n == 3) &&
      decide (addr < c.dr n + c.drLen n) && decide (c.dr n < addr + BitVec.ofNat 64 size)

theorem dataBreakpointAt_eq (c : Cpu) (addr : GuestAddr) (isWrite : Bool) (size : Nat) :
    c.dataBreakpointAt addr isWrite size =
      ((dataHit c addr isWrite size).isSome,
        (dataHit c addr isWrite size).elim c c.setDr6Bit) := by
  rw [Cpu.dataBreakpointAt, Cpu.firstDr, ← dataHit]
  cases dataHit c addr isWrite size <;> rfl

theorem keeps_hitDr (hit : Option Nat) : Cpu.Keeps L fun c => hit.elim c c.setDr6Bit := by
  cases hit with
  | none => exact Cpu.keeps_id
  | some n => exact Cpu.keeps_flagFree fun _ _ => rfl

theorem checkDataBreakpoint (addr : GuestAddr) (isWrite : Bool) (size : Nat) (note : String) :
    Oblivious L t (H.checkDataBreakpoint addr isWrite size note) := by
  have hsame (c d : Cpu) (h : c.Same d) :
      dataHit c addr isWrite size = dataHit d addr isWrite size :=
    h.observe (fun c => dataHit c addr isWrite size) fun _ => rfl
  have hread : Oblivious L t (H.gets fun c => (c.dataBreakpointAt addr isWrite size).1) := by
    simp only [dataBreakpointAt_eq]
    exact gets _ fun c d h => congrArg Option.isSome (hsame c d h)
  have hlatch : Cpu.Keeps L fun c => (c.dataBreakpointAt addr isWrite size).2 := by
    simp only [dataBreakpointAt_eq]
    exact Cpu.keeps_read hsame keeps_hitDr
  refine hread.bind fun hit => ?_
  refine (modify hlatch).bind fun _ => ?_
  exact (raise .breakpoint addr .ok note).ite (ret ())

/-! ### Operands -/

theorem requireAttached (isWrite : Bool) (addr : GuestAddr) (note : String) :
    Oblivious L t (PicoCpu.requireAttached isWrite addr note) := by
  refine (attached isWrite).bind fun present => ?_
  exact (raise .providerFailure addr .providerFailure note).ite (ret ())

/-- The effective address, read off the registers. -/
theorem getsEa (insn : Insn) (op : Operand) : Oblivious L t (H.gets fun c => ea c insn op) :=
  gets_free (fun c => ea c insn op) fun _ => rfl

theorem readOperand (insn : Insn) (op : Operand) (size : Nat) :
    Oblivious L t (PicoCpu.readOperand insn op size) := by
  have hmem : Oblivious L t (do
      let rip ← H.gets Cpu.rip
      PicoCpu.requireAttached false rip "no read provider"
      let addr ← H.gets fun c => ea c insn op
      H.checkDataBreakpoint addr false size "DR data load breakpoint"
      H.fireMemHooks addr size 0 false
      let buf ← H.load addr size pageFault "operand read"
      pure (loadLE buf size)) := by
    refine getsRip.bind fun rip => ?_
    refine (requireAttached false rip _).bind fun _ => ?_
    refine (getsEa insn op).bind fun addr => ?_
    refine (checkDataBreakpoint addr false size _).bind fun _ => ?_
    refine (fireMemHooks addr size 0 false).bind fun _ => ?_
    exact (load addr size pageFault _).bind fun buf => ret _
  unfold PicoCpu.readOperand
  cases op.kind with
  | none => exact ret 0
  | reg => exact gets_free (fun c => c.readGpr op.reg size) fun _ => rfl
  | imm => exact ret _
  | rel => exact ret _
  | xmm => exact exit
  | mem => exact hmem
  | ripRelMem => exact hmem

theorem keeps_writeGpr (reg size : Nat) (v : U64) :
    Cpu.Keeps L fun c => c.writeGpr reg size v := by
  unfold Cpu.writeGpr
  split
  · unfold Cpu.setR8
    split
    · exact Cpu.keeps_flagFree fun _ _ => rfl
    · exact Cpu.keeps_flagFree fun _ _ => rfl
  · exact Cpu.keeps_flagFree fun _ _ => rfl
  · exact Cpu.keeps_flagFree fun _ _ => rfl
  · exact Cpu.keeps_flagFree fun _ _ => rfl

theorem writeOperand (insn : Insn) (op : Operand) (size : Nat) (value : U64) :
    Oblivious L t (PicoCpu.writeOperand insn op size value) := by
  have hmem : Oblivious L t (do
      let addr ← H.gets fun c => ea c insn op
      PicoCpu.requireAttached true addr "no write provider"
      H.checkDataBreakpoint addr true size "DR data store breakpoint"
      H.fireMemHooks addr size value true
      H.store addr size (storeLE value) kindFromStatus "operand write") := by
    refine (getsEa insn op).bind fun addr => ?_
    refine (requireAttached true addr _).bind fun _ => ?_
    refine (checkDataBreakpoint addr true size _).bind fun _ => ?_
    refine (fireMemHooks addr size value true).bind fun _ => ?_
    exact store addr size _ kindFromStatus _
  unfold PicoCpu.writeOperand
  cases op.kind with
  | none => exact raiseAtRip ..
  | reg => exact (modify (keeps_writeGpr op.reg size value)).ite (raiseAtRip ..)
  | imm => exact raiseAtRip ..
  | rel => exact raiseAtRip ..
  | xmm => exact exit
  | mem => exact hmem
  | ripRelMem => exact hmem

theorem readMemBytes (missing note : String) (addr : GuestAddr) (size : Nat) :
    Oblivious L t (PicoCpu.readMemBytes missing note addr size) := by
  refine (requireAttached false addr missing).bind fun _ => ?_
  exact (load addr size pageFault note).bind fun buf => ret _

theorem writeMemBytes (missing note : String) (addr : GuestAddr) (size : Nat) (value : U64) :
    Oblivious L t (PicoCpu.writeMemBytes missing note addr size value) := by
  refine (requireAttached true addr missing).bind fun _ => ?_
  exact store addr size _ kindFromStatus note

/-! ### Vector operands -/

/-- A memory source that is checked and read without breakpoints or hooks. -/
theorem memRead (insn : Insn) (op : Operand) (note : String) (size : Nat) :
    Oblivious L t (do
      let rip ← H.gets Cpu.rip
      PicoCpu.requireAttached false rip note
      let addr ← H.gets fun c => ea c insn op
      H.load addr size pageFault note) := by
  refine getsRip.bind fun rip => ?_
  refine (requireAttached false rip note).bind fun _ => ?_
  refine (getsEa insn op).bind fun addr => ?_
  exact load addr size pageFault note

theorem memWrite (insn : Insn) (op : Operand) (note : String) (size : Nat) (v : Buf) :
    Oblivious L t (do
      let rip ← H.gets Cpu.rip
      PicoCpu.requireAttached true rip note
      let addr ← H.gets fun c => ea c insn op
      H.store addr size v kindFromStatus note) := by
  refine getsRip.bind fun rip => ?_
  refine (requireAttached true rip note).bind fun _ => ?_
  refine (getsEa insn op).bind fun addr => ?_
  exact store addr size v kindFromStatus note

theorem vecRead (io : VecIo) (insn : Insn) (op : Operand) (size : Nat) :
    Oblivious L t (io.read insn op size) := by
  have hmem := memRead (L := L) (t := t) insn op io.readNote size
  unfold VecIo.read
  split
  · exact getsZmm op.reg
  · exact hmem
  · exact hmem
  · exact raiseAtRip ..
  · exact hmem

theorem vecWrite (io : VecIo) (insn : Insn) (op : Operand) (size : Nat) (v : Buf) :
    Oblivious L t (io.write insn op size v) := by
  have hmem := memWrite (L := L) (t := t) insn op io.writeNote size v
  unfold VecIo.write
  split
  · exact update fun _ _ => rfl
  · exact hmem
  · exact hmem
  · exact raiseAtRip ..
  · exact hmem

end Oblivious

end PicoCpu
