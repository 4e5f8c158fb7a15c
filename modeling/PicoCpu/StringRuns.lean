import PicoCpu.Conditions
import PicoCpu.Stack
import PicoCpu.StringPrefixes

/-!
Repeated string instructions against their elements done one after another. The loop of the handler
ends a REPE on the zero flag its step answers, and MOVS, STOS and LODS answer none: with the F3
prefix they stop after the first element.
-/

namespace PicoCpu

open H Proc Handlers Granule

/-! ### Reference -/

/-- The signed distance between elements. -/
def Cpu.signedStep (c : Cpu) (size : Nat) : Int := if c.df then -size else size

/-- A pointer register moved by one element. -/
def Cpu.moved (c : Cpu) (reg size : Nat) : Cpu :=
  c.setR64 reg (c.r reg + BitVec.ofInt 64 (c.signedStep size))

/-- RCX counted down. -/
def Cpu.counted (c : Cpu) : Cpu := c.setR64 Reg.rcx (c.r Reg.rcx - 1)

namespace StringOp

/-- SCAS and CMPS compare, and a repeat looks at what they find. -/
def compares : StringOp → Bool
  | .movs | .stos | .lods => false
  | .scas | .cmps => true

/-- What one element does before the pointers move; `equal` is what a comparison finds. -/
def Acts (op : StringOp) (size : Nat) (c : Cpu) (m : ByteMap) (equal : Bool) (d : Cpu)
    (m' : ByteMap) : Prop :=
  match op with
  | .movs => ∃ v, NumberAt m (c.r Reg.rsi) size v ∧
      Written m m' (c.r Reg.rdi) size (storeLE v) ∧ d = c
  | .stos => Written m m' (c.r Reg.rdi) size (storeLE (c.r Reg.rax)) ∧ d = c
  | .lods => ∃ v, NumberAt m (c.r Reg.rsi) size v ∧ m' = m ∧ d = c.writeGpr Reg.rax size v
  | .scas => ∃ v, NumberAt m (c.r Reg.rdi) size v ∧ m' = m ∧
      equal = decide (unsignedValue size (c.r Reg.rax) = unsignedValue size v) ∧
      d = c.setArith ((difference (c.r Reg.rax) v).flags size)
  | .cmps => ∃ a b, NumberAt m (c.r Reg.rsi) size a ∧ NumberAt m (c.r Reg.rdi) size b ∧ m' = m ∧
      equal = decide (unsignedValue size a = unsignedValue size b) ∧
      d = c.setArith ((difference a b).flags size)

/-- The pointers the operation uses, moved by one element. -/
def pointersMoved (op : StringOp) (size : Nat) (c : Cpu) : Cpu :=
  let d := if op.usesSource then c.moved Reg.rsi size else c
  if op.usesDest then d.moved Reg.rdi size else d

/-- One element. -/
def Element (op : StringOp) (size : Nat) (c : Cpu) (m : ByteMap) (equal : Bool) (c' : Cpu)
    (m' : ByteMap) : Prop :=
  ∃ d, op.Acts size c m equal d m' ∧ c'.Same (op.pointersMoved size d)

/-- Elements one after another, each counted, with what their comparisons find. -/
inductive Repeats (op : StringOp) (size : Nat) :
    List Bool → Cpu → ByteMap → Cpu → ByteMap → Prop where
  | none {c m} : Repeats op size [] c m c m
  | next {equal rest c m d m₁ c' m'} (h : op.Element size c m equal d m₁)
      (hrest : Repeats op size rest d.counted m₁ c' m') :
      Repeats op size (equal :: rest) c m c' m'

end StringOp

/-- The pointers and the counter after `n` elements, with the direction and the fault as before. -/
structure Cpu.Advanced (op : StringOp) (size n : Nat) (c c' : Cpu) : Prop where
  df : c'.df = c.df
  halted : c'.halted = c.halted
  fault : c'.fault = c.fault
  rcx : c'.r Reg.rcx = c.r Reg.rcx - BitVec.ofNat 64 n
  rsi : c'.r Reg.rsi =
    if op.usesSource then c.r Reg.rsi + BitVec.ofInt 64 (n * c.signedStep size) else c.r Reg.rsi
  rdi : c'.r Reg.rdi =
    if op.usesDest then c.r Reg.rdi + BitVec.ofInt 64 (n * c.signedStep size) else c.r Reg.rdi

/-- What a repeat prefix asks for. MOVS, STOS and LODS do RCX elements; SCAS and CMPS go on until
RCX is zero, or an element ends the repeat. -/
def RepReference (i : Insn) (op : StringOp) (c : Cpu) (m : ByteMap) (c' : Cpu) (m' : ByteMap) :
    Prop :=
  ∃ found, op.Repeats i.opSize found c m c' m' ∧ c.Advanced op i.opSize found.length c' ∧
    if op.compares then
      (∀ equal ∈ found, View.stops i equal = false) ∧ c'.r Reg.rcx = 0 ∨
        ∃ before last, found = before ++ [last] ∧ (∀ equal ∈ before, View.stops i equal = false) ∧
          View.stops i last = true
    else found.length = (c.r Reg.rcx).toNat ∧ c'.r Reg.rcx = 0

/-- On every memory, an execution in which no access faults is the reference's. -/
def StringExact (fp : HostFp) (i : Insn) (op : StringOp) (c : Cpu) : Prop :=
  ∀ (σ : Type) (at_ : Attached σ) (Inv : σ → Prop) (mem : σ → ByteMap) (w w' : World σ)
    (r : Option Unit) (c' : Cpu), at_.Represents Inv mem → Inv w.mem →
    (i.run fp).EndsIn at_ c w r c' w' → c'.halted = false →
    RepReference i op c (mem w.mem) c' (mem w'.mem)

/-! ### The registers of an element -/

namespace Cpu

variable {c d : Cpu} {size : Nat}

theorem dirStep_eq (c : Cpu) (size : Nat) :
    dirStep c size = BitVec.ofInt 64 (c.signedStep size) := by
  unfold dirStep signedStep
  split
  · rw [BitVec.ofInt_neg, BitVec.ofInt_natCast]
  · rw [BitVec.ofInt_natCast]

theorem r_moved (c : Cpu) (reg size : Nat) :
    (c.moved reg size).r reg = c.r reg + BitVec.ofInt 64 (c.signedStep size) := r_setR ..

theorem r_moved_ne (c : Cpu) {reg idx : Nat} (size : Nat) (h : idx ≠ reg) :
    (c.moved reg size).r idx = c.r idx := r_setR_ne _ _ h

theorem r_counted (c : Cpu) : c.counted.r Reg.rcx = c.r Reg.rcx - BitVec.ofNat 64 1 := r_setR ..

theorem r_counted_ne (c : Cpu) {idx : Nat} (h : idx ≠ Reg.rcx) : c.counted.r idx = c.r idx :=
  r_setR_ne _ _ h

theorem signedStep_moved (c : Cpu) (reg size : Nat) :
    (c.moved reg size).signedStep size = c.signedStep size := rfl

theorem Same.signedStep (h : c.Same d) (size : Nat) : c.signedStep size = d.signedStep size := by
  rw [Cpu.signedStep, Cpu.signedStep, h.df]

theorem Same.moved (h : c.Same d) (reg size : Nat) :
    (c.moved reg size).Same (d.moved reg size) := by
  have hreg : c.r reg = d.r reg := congrFun h.gpr reg
  rw [Cpu.moved, Cpu.moved, h.signedStep size, hreg]
  exact h.update (g := fun c => c.setR64 reg _) ⟨fun _ => rfl, fun _ => rfl⟩

theorem df_setArith (c : Cpu) (f : ArithFlags) : (c.setArith f).df = c.df := by
  have hbit (x : U64) : x &&& Rflags.df = x &&& ~~~syncMask &&& Rflags.df := by
    rw [BitVec.and_assoc]
    rfl
  rw [Cpu.df, Cpu.df, hbit, hbit c.rflags_, (setArith_word c f).1]

theorem writeGpr_rax (hsize : IsOpSize size) (c : Cpu) (v : U64) :
    ∃ x, c.writeGpr Reg.rax size v = c.setR Reg.rax x := by
  have hindex : aliasIndex Reg.rax size = Reg.rax := by
    rcases hsize with rfl | rfl | rfl | rfl <;> rfl
  rw [writeGpr_eq c Reg.rax hsize v, hindex]
  exact ⟨_, rfl⟩

/-- What an element keeps of the CPU before the pointers move. -/
structure PointersKept (c d : Cpu) : Prop where
  rcx : d.r Reg.rcx = c.r Reg.rcx
  rsi : d.r Reg.rsi = c.r Reg.rsi
  rdi : d.r Reg.rdi = c.r Reg.rdi
  df : d.df = c.df
  halted : d.halted = c.halted
  fault : d.fault = c.fault

theorem PointersKept.refl (c : Cpu) : c.PointersKept c := ⟨rfl, rfl, rfl, rfl, rfl, rfl⟩

theorem pointersKept_setArith (c : Cpu) (f : ArithFlags) : c.PointersKept (c.setArith f) :=
  ⟨rfl, rfl, rfl, df_setArith c f, rfl, rfl⟩

end Cpu

namespace StringOp

variable {op : StringOp} {size : Nat} {c c' d : Cpu} {m m' : ByteMap} {equal : Bool}

theorem Acts.pointersKept (hsize : IsOpSize size) (h : op.Acts size c m equal d m') :
    c.PointersKept d := by
  cases op with
  | movs =>
      obtain ⟨v, _, _, rfl⟩ := h
      exact .refl _
  | stos =>
      obtain ⟨_, rfl⟩ := h
      exact .refl _
  | lods =>
      obtain ⟨v, _, _, rfl⟩ := h
      obtain ⟨x, hx⟩ := Cpu.writeGpr_rax hsize c v
      rw [hx]
      exact ⟨Cpu.r_setR_ne _ _ (by decide), Cpu.r_setR_ne _ _ (by decide),
        Cpu.r_setR_ne _ _ (by decide), rfl, rfl, rfl⟩
  | scas =>
      obtain ⟨v, _, _, _, rfl⟩ := h
      exact Cpu.pointersKept_setArith ..
  | cmps =>
      obtain ⟨a, b, _, _, _, _, rfl⟩ := h
      exact Cpu.pointersKept_setArith ..

theorem pointersMoved_advanced (op : StringOp) (size : Nat) (d : Cpu) :
    d.Advanced op size 1 (op.pointersMoved size d).counted := by
  have hone : ((1 : Nat) : Int) * d.signedStep size = d.signedStep size := Int.one_mul _
  cases op <;> refine ⟨rfl, rfl, rfl, ?_, ?_, ?_⟩ <;>
    simp (disch := decide) only [pointersMoved, usesSource, usesDest, Cpu.r_counted,
      Cpu.r_counted_ne, Cpu.r_moved, Cpu.r_moved_ne, Cpu.signedStep_moved, hone, if_true,
      Bool.false_eq_true, if_false]

theorem Element.advanced (hsize : IsOpSize size) (h : op.Element size c m equal c' m') :
    c.Advanced op size 1 c'.counted := by
  obtain ⟨d, hacts, hsame⟩ := h
  have hkept := hacts.pointersKept hsize
  have hmoved := op.pointersMoved_advanced size d
  have hgpr (idx : Nat) : c'.counted.r idx = (op.pointersMoved size d).counted.r idx := by
    unfold Cpu.counted Cpu.setR64 Cpu.setR Cpu.r
    rw [hsame.gpr]
  have hstep : d.signedStep size = c.signedStep size := by
    rw [Cpu.signedStep, Cpu.signedStep, hkept.df]
  refine ⟨?_, ?_, ?_, ?_, ?_, ?_⟩
  · exact hsame.df.trans (hmoved.df.trans hkept.df)
  · exact hsame.halted.trans (hmoved.halted.trans hkept.halted)
  · exact hsame.fault.trans (hmoved.fault.trans hkept.fault)
  · rw [hgpr, hmoved.rcx, hkept.rcx]
  · rw [hgpr, hmoved.rsi, hkept.rsi, hstep]
  · rw [hgpr, hmoved.rdi, hkept.rdi, hstep]

end StringOp

namespace Cpu.Advanced

variable {op : StringOp} {size n k : Nat} {c d e : Cpu}

theorem signedStep (h : c.Advanced op size n d) : d.signedStep size = c.signedStep size := by
  rw [Cpu.signedStep, Cpu.signedStep, h.df]

theorem refl (op : StringOp) (size : Nat) (c : Cpu) : c.Advanced op size 0 c := by
  refine ⟨rfl, rfl, rfl, ?_, ?_, ?_⟩
  · exact (BitVec.sub_zero _).symm
  · simp
  · simp

theorem trans (h : c.Advanced op size n d) (h' : d.Advanced op size k e) :
    c.Advanced op size (n + k) e := by
  have hsum (x : U64) : x + BitVec.ofInt 64 (n * c.signedStep size) +
      BitVec.ofInt 64 (k * c.signedStep size) =
      x + BitVec.ofInt 64 ((n + k : Nat) * c.signedStep size) := by
    rw [BitVec.add_assoc, ← BitVec.ofInt_add, ← Int.add_mul, Int.natCast_add]
  refine ⟨h'.df.trans h.df, h'.halted.trans h.halted, h'.fault.trans h.fault, ?_, ?_, ?_⟩
  · rw [h'.rcx, h.rcx, BitVec.ofNat_add, BitVec.sub_sub]
  · rw [h'.rsi, h.rsi, h.signedStep]
    split
    · exact hsum _
    · rfl
  · rw [h'.rdi, h.rdi, h.signedStep]
    split
    · exact hsum _
    · rfl

end Cpu.Advanced

theorem StringOp.Repeats.advanced {op : StringOp} {size : Nat} (hsize : IsOpSize size)
    {found : List Bool} {c c' : Cpu} {m m' : ByteMap} (h : op.Repeats size found c m c' m') :
    c.Advanced op size found.length c' := by
  induction h with
  | none => exact .refl ..
  | next h _ ih =>
      rw [List.length_cons, Nat.add_comm]
      exact (h.advanced hsize).trans ih

/-! ### The steps of the handlers -/

section Steps

variable {σ : Type}

/-- The accesses of one element as its handler makes them, and the CPU before the pointers move. -/
def StringOp.Accesses (op : StringOp) (size : Nat) (at_ : Attached σ) (c : Cpu) (w : World σ)
    (zf : Bool) (d : Cpu) (w' : World σ) : Prop :=
  match op with
  | .movs => ∃ v w₁, at_.Reads (c.r Reg.rsi) size w v w₁ ∧
      at_.Writes (c.r Reg.rdi) size v w₁ w' ∧ zf = false ∧ d = c
  | .stos => at_.Writes (c.r Reg.rdi) size (c.r Reg.rax &&& maskFor size) w w' ∧ zf = false ∧ d = c
  | .lods => ∃ v, at_.Reads (c.r Reg.rsi) size w v w' ∧ zf = false ∧
      d = if IsOpSize size then c.writeGpr Reg.rax size v else c
  | .scas => ∃ v, at_.Reads (c.r Reg.rdi) size w v w' ∧ zf = d.zf ∧
      d = (c.stashSub size v ((c.r Reg.rax &&& maskFor size) - v &&& maskFor size)).syncFlags
  | .cmps => ∃ a b w₁, at_.Reads (c.r Reg.rsi) size w a w₁ ∧ at_.Reads (c.r Reg.rdi) size w₁ b w' ∧
      zf = d.zf ∧ d = (c.stashSub size b (a - b &&& maskFor size)).syncFlags

variable {at_ : Attached σ} {c c' d : Cpu} {w w' : World σ} {size : Nat} {zf : Bool}

theorem endsIn_advance {reg : Nat} {old : U64} (h : c.r reg = old) :
    (advance reg old size).EndsIn at_ c w (some ()) (c.moved reg size) w := by
  rw [Cpu.moved, ← Cpu.dirStep_eq, h]
  exact endsIn_modify _

theorem endsIn_advances {rsi rdi : U64} (hrsi : c.r Reg.rsi = rsi) (hrdi : c.r Reg.rdi = rdi)
    (zf : Bool) :
    H.EndsIn (do
      advance Reg.rsi rsi size
      advance Reg.rdi rdi size
      pure zf) at_ c w (some zf) ((c.moved Reg.rsi size).moved Reg.rdi size) w := by
  have hmoved : (c.moved Reg.rsi size).r Reg.rdi = rdi :=
    (Cpu.r_moved_ne c size (by decide)).trans hrdi
  exact (endsIn_advance hrsi).bind ((endsIn_advance hmoved).bind (endsIn_pure zf))

theorem r_syncedStash (c : Cpu) (b r : U64) (idx : Nat) :
    (c.stashSub size b r).syncFlags.r idx = c.r idx := by
  rw [Cpu.syncFlags_eq]
  rfl

theorem r_rsi_loaded (c : Cpu) (size : Nat) (v : U64) :
    (if IsOpSize size then c.writeGpr Reg.rax size v else c).r Reg.rsi = c.r Reg.rsi := by
  split
  · rename_i hsize
    obtain ⟨x, hx⟩ := Cpu.writeGpr_rax hsize c v
    rw [hx]
    exact Cpu.r_setR_ne _ _ (by decide)
  · rfl

/-- What a step that gets through its accesses has done. -/
theorem codeStep_iff (op : StringOp) :
    (op.codeStep size).EndsIn at_ c w (some zf) c' w' ↔
      ∃ d, op.Accesses size at_ c w zf d w' ∧ c' = op.pointersMoved size d := by
  cases op with
  | movs =>
      change (movsStep size).EndsIn at_ c w (some zf) c' w' ↔ _
      rw [movsStep, (endsIn_gets _).bind_iff, (endsIn_gets _).bind_iff]
      constructor
      · intro h
        obtain ⟨v, c₁, w₁, hread, h⟩ := h.of_bind
        obtain ⟨hreads, rfl⟩ := readMemBytes_iff.mp hread
        obtain ⟨_, c₂, w₂, hwrite, h⟩ := h.of_bind
        obtain ⟨hwrites, rfl⟩ := writeMemBytes_iff.mp hwrite
        obtain ⟨hzf, rfl, rfl⟩ := h.unique (endsIn_advances rfl rfl false)
        exact ⟨_, ⟨v, w₁, hreads, hwrites, Option.some.inj hzf, rfl⟩, rfl⟩
      · rintro ⟨_, ⟨v, w₁, hreads, hwrites, rfl, rfl⟩, rfl⟩
        refine H.EndsIn.bind (readMemBytes_iff.mpr ⟨hreads, rfl⟩) ?_
        exact H.EndsIn.bind (writeMemBytes_iff.mpr ⟨hwrites, rfl⟩) (endsIn_advances rfl rfl false)
  | stos =>
      change (stosStep size).EndsIn at_ c w (some zf) c' w' ↔ _
      rw [stosStep, (endsIn_gets _).bind_iff, (endsIn_gets _).bind_iff]
      constructor
      · intro h
        obtain ⟨_, c₂, w₂, hwrite, h⟩ := h.of_bind
        obtain ⟨hwrites, rfl⟩ := writeMemBytes_iff.mp hwrite
        obtain ⟨hzf, rfl, rfl⟩ := h.unique ((endsIn_advance rfl).bind (endsIn_pure false))
        exact ⟨_, ⟨hwrites, Option.some.inj hzf, rfl⟩, rfl⟩
      · rintro ⟨_, ⟨hwrites, rfl, rfl⟩, rfl⟩
        refine H.EndsIn.bind (writeMemBytes_iff.mpr ⟨hwrites, rfl⟩) ?_
        exact (endsIn_advance rfl).bind (endsIn_pure false)
  | lods =>
      change (lodsStep size).EndsIn at_ c w (some zf) c' w' ↔ _
      rw [lodsStep, (endsIn_gets _).bind_iff]
      constructor
      · intro h
        obtain ⟨v, c₁, w₁, hread, h⟩ := h.of_bind
        obtain ⟨hreads, rfl⟩ := readMemBytes_iff.mp hread
        rw [(endsIn_modify _).bind_iff] at h
        obtain ⟨hzf, rfl, rfl⟩ :=
          h.unique ((endsIn_advance (r_rsi_loaded ..)).bind (endsIn_pure false))
        exact ⟨_, ⟨v, hreads, Option.some.inj hzf, rfl⟩, rfl⟩
      · rintro ⟨_, ⟨v, hreads, rfl, rfl⟩, rfl⟩
        refine H.EndsIn.bind (readMemBytes_iff.mpr ⟨hreads, rfl⟩) ?_
        rw [(endsIn_modify _).bind_iff]
        exact (endsIn_advance (r_rsi_loaded ..)).bind (endsIn_pure false)
  | scas =>
      change (scasStep size).EndsIn at_ c w (some zf) c' w' ↔ _
      rw [scasStep, (endsIn_gets _).bind_iff]
      constructor
      · intro h
        obtain ⟨v, c₁, w₁, hread, h⟩ := h.of_bind
        obtain ⟨hreads, rfl⟩ := readMemBytes_iff.mp hread
        rw [(endsIn_modify _).bind_iff, (endsIn_getsSynced _).bind_iff] at h
        obtain ⟨hzf, rfl, rfl⟩ :=
          h.unique ((endsIn_advance (r_syncedStash ..)).bind (endsIn_pure _))
        exact ⟨_, ⟨v, hreads, Option.some.inj hzf, rfl⟩, rfl⟩
      · rintro ⟨_, ⟨v, hreads, rfl, rfl⟩, rfl⟩
        refine H.EndsIn.bind (readMemBytes_iff.mpr ⟨hreads, rfl⟩) ?_
        rw [(endsIn_modify _).bind_iff, (endsIn_getsSynced _).bind_iff]
        exact (endsIn_advance (r_syncedStash ..)).bind (endsIn_pure _)
  | cmps =>
      change (cmpsStep size).EndsIn at_ c w (some zf) c' w' ↔ _
      rw [cmpsStep, (endsIn_gets _).bind_iff, (endsIn_gets _).bind_iff]
      constructor
      · intro h
        obtain ⟨a, c₁, w₁, hread, h⟩ := h.of_bind
        obtain ⟨hreads, rfl⟩ := readMemBytes_iff.mp hread
        obtain ⟨b, c₂, w₂, hread', h⟩ := h.of_bind
        obtain ⟨hreads', rfl⟩ := readMemBytes_iff.mp hread'
        rw [(endsIn_modify _).bind_iff, (endsIn_getsSynced _).bind_iff] at h
        obtain ⟨hzf, rfl, rfl⟩ :=
          h.unique (endsIn_advances (r_syncedStash ..) (r_syncedStash ..) _)
        exact ⟨_, ⟨a, b, w₁, hreads, hreads', Option.some.inj hzf, rfl⟩, rfl⟩
      · rintro ⟨_, ⟨a, b, w₁, hreads, hreads', rfl, rfl⟩, rfl⟩
        refine H.EndsIn.bind (readMemBytes_iff.mpr ⟨hreads, rfl⟩) ?_
        refine H.EndsIn.bind (readMemBytes_iff.mpr ⟨hreads', rfl⟩) ?_
        rw [(endsIn_modify _).bind_iff, (endsIn_getsSynced _).bind_iff]
        exact endsIn_advances (r_syncedStash ..) (r_syncedStash ..) _

/-- A step keeps the counter. -/
theorem codeStep_rcx {op : StringOp} (h : (op.codeStep size).EndsIn at_ c w (some zf) c' w') :
    c'.r Reg.rcx = c.r Reg.rcx := by
  obtain ⟨d, haccesses, rfl⟩ := codeStep_iff op |>.mp h
  have hmoved : (op.pointersMoved size d).r Reg.rcx = d.r Reg.rcx := by
    cases op <;> simp (disch := decide) only [StringOp.pointersMoved, StringOp.usesSource,
      StringOp.usesDest, Cpu.r_moved_ne, if_true, Bool.false_eq_true, if_false]
  rw [hmoved]
  cases op with
  | movs =>
      obtain ⟨_, _, _, _, _, rfl⟩ := haccesses
      rfl
  | stos =>
      obtain ⟨_, _, rfl⟩ := haccesses
      rfl
  | lods =>
      obtain ⟨v, _, _, rfl⟩ := haccesses
      split
      · rename_i hsize
        obtain ⟨x, hx⟩ := Cpu.writeGpr_rax hsize c v
        rw [hx]
        exact Cpu.r_setR_ne _ _ (by decide)
      · rfl
  | scas =>
      obtain ⟨_, _, _, rfl⟩ := haccesses
      exact r_syncedStash ..
  | cmps =>
      obtain ⟨_, _, _, _, _, _, rfl⟩ := haccesses
      exact r_syncedStash ..

/-- Only the low bytes of a number are stored. -/
theorem written_masked (hsize : IsOpSize size) {m m' : ByteMap} {addr : GuestAddr} {v : U64}
    (h : Written m m' addr size (storeLE (v &&& maskFor size))) :
    Written m m' addr size (storeLE v) := by
  have hbyte (k : Nat) (hk : k < size) : storeLE (v &&& maskFor size) k = storeLE v k := by
    apply BitVec.eq_of_getLsbD_eq
    intro n hn
    simp only [storeLE, BitVec.getLsbD_setWidth, BitVec.getLsbD_ushiftRight,
      getLsbD_and_maskFor size hsize, decide_eq_true (show 8 * k + n < 8 * size by omega),
      Bool.and_true]
  intro a
  refine ⟨fun hin => ?_, (h a).2⟩
  rw [(h a).1 hin, hbyte _ hin]

section Represented

variable {Inv : σ → Prop} {mem : σ → ByteMap} (hrep : at_.Represents Inv mem) (hinv : Inv w.mem)
  (hsize : IsOpSize size)
include hrep hinv hsize

omit hrep hinv in
/-- The comparison of a step, and the flags it leaves. -/
theorem same_syncedStash (c : Cpu) (a b : U64) :
    ((c.stashSub size b (subResult size a b)).syncFlags).Same
        (c.setArith ((difference a b).flags size)) ∧
      (c.stashSub size b (subResult size a b)).syncFlags.zf =
        decide (unsignedValue size a = unsignedValue size b) := by
  have hsame : (c.stashSub size b (subResult size a b)).Same
      (c.setArith ((difference a b).flags size)) :=
    (AluOp.same_stash_iff hsize .sub a b false c).mpr (AluOp.not_misses (by decide))
  have hsynced := (Cpu.same_syncFlags _).trans hsame
  refine ⟨hsynced, ?_⟩
  have harith : (c.setArith ((difference a b).flags size)).arith = (difference a b).flags size := by
    rw [Cpu.arith_eq]
    exact (Cpu.setArith_word c _).2.1
  have hzf := congrArg ArithFlags.zf (hsynced.arith.trans harith)
  rw [difference_zf hsize] at hzf
  exact hzf

/-- The accesses are those of an element. -/
theorem StringOp.Accesses.acts {op : StringOp} (h : op.Accesses size at_ c w zf d w') :
    (∃ d', op.Acts size c (mem w.mem) zf d' (mem w'.mem) ∧ d.Same d') ∧ Inv w'.mem ∧
      (op.compares = false → zf = false) := by
  have hle : size ≤ 8 := by
    rcases hsize with rfl | rfl | rfl | rfl <;> decide
  cases op with
  | movs =>
      obtain ⟨v, w₁, hreads, hwrites, hzf, rfl⟩ := h
      obtain ⟨hnumber, hmem, hinv₁⟩ := hreads.numberAt hrep hinv hle
      obtain ⟨hwritten, hinv'⟩ := hwrites.written hrep hinv₁ hle
      rw [hmem] at hwritten
      exact ⟨⟨_, ⟨v, hnumber, hwritten, rfl⟩, .refl _⟩, hinv', fun _ => hzf⟩
  | stos =>
      obtain ⟨hwrites, hzf, rfl⟩ := h
      obtain ⟨hwritten, hinv'⟩ := hwrites.written hrep hinv hle
      exact ⟨⟨_, ⟨written_masked hsize hwritten, rfl⟩, .refl _⟩, hinv', fun _ => hzf⟩
  | lods =>
      obtain ⟨v, hreads, hzf, rfl⟩ := h
      obtain ⟨hnumber, hmem, hinv'⟩ := hreads.numberAt hrep hinv hle
      rw [if_pos hsize]
      exact ⟨⟨_, ⟨v, hnumber, hmem, rfl⟩, .refl _⟩, hinv', fun _ => hzf⟩
  | scas =>
      obtain ⟨v, hreads, hzf, rfl⟩ := h
      obtain ⟨hnumber, hmem, hinv'⟩ := hreads.numberAt hrep hinv hle
      have hresult : (c.r Reg.rax &&& maskFor size) - v &&& maskFor size =
          subResult size (c.r Reg.rax) v := masked_sub_left size hsize _ _
      obtain ⟨hsame, hequal⟩ := same_syncedStash hsize c (c.r Reg.rax) v
      rw [hresult] at hzf ⊢
      exact ⟨⟨_, ⟨v, hnumber, hmem, hzf.trans hequal, rfl⟩, hsame⟩, hinv', fun h => nomatch h⟩
  | cmps =>
      obtain ⟨a, b, w₁, hreads, hreads', hzf, rfl⟩ := h
      obtain ⟨hnumber, hmem, hinv₁⟩ := hreads.numberAt hrep hinv hle
      obtain ⟨hnumber', hmem', hinv'⟩ := hreads'.numberAt hrep hinv₁ hle
      rw [hmem] at hnumber' hmem'
      obtain ⟨hsame, hequal⟩ := same_syncedStash hsize c a b
      exact ⟨⟨_, ⟨a, b, hnumber, hnumber', hmem', hzf.trans hequal, rfl⟩, hsame⟩, hinv',
        fun h => nomatch h⟩

/-- A step of the handler is an element. -/
theorem codeStep_element {op : StringOp}
    (h : (op.codeStep size).EndsIn at_ c w (some zf) c' w') :
    op.Element size c (mem w.mem) zf c' (mem w'.mem) ∧ Inv w'.mem ∧
      (op.compares = false → zf = false) := by
  obtain ⟨d, haccesses, rfl⟩ := (codeStep_iff op).mp h
  obtain ⟨⟨d', hacts, hsame⟩, hinv', hzf⟩ := haccesses.acts hrep hinv hsize
  refine ⟨⟨d', hacts, ?_⟩, hinv', hzf⟩
  cases op with
  | movs | cmps => exact (hsame.moved ..).moved ..
  | stos | lods | scas => exact hsame.moved ..

end Represented

end Steps

/-! ### The loop -/

section Loop

variable {σ : Type}

/-- Turns of the loop that went through, with the answers of their steps. -/
inductive Passes (step : H Bool) (at_ : Attached σ) :
    List Bool → Cpu → World σ → Cpu → World σ → Prop where
  | none {c w} : Passes step at_ [] c w c w
  | next {zf rest c w d w₁ c' w'} (hcount : c.r Reg.rcx ≠ 0) (hrun : c.halted = false)
      (hstep : step.EndsIn at_ c w (some zf) d w₁)
      (hrest : Passes step at_ rest d.counted w₁ c' w') :
      Passes step at_ (zf :: rest) c w c' w'

/-- The last turn: none is left, or the step ends the repeat, or it fails. -/
inductive LastTurn (insn : Insn) (step : H Bool) (at_ : Attached σ) (c : Cpu) (w : World σ) :
    Option Unit → Cpu → World σ → Prop where
  | idle (h : c.r Reg.rcx = 0 ∨ c.halted = true) : LastTurn insn step at_ c w (some ()) c w
  | stops {zf d w'} (hcount : c.r Reg.rcx ≠ 0) (hrun : c.halted = false)
      (hstep : step.EndsIn at_ c w (some zf) d w') (hstop : View.stops insn zf = true) :
      LastTurn insn step at_ c w (some ()) d.counted w'
  | fails {d w'} (hcount : c.r Reg.rcx ≠ 0) (hrun : c.halted = false)
      (hstep : step.EndsIn at_ c w Option.none d w') : LastTurn insn step at_ c w Option.none d w'

variable {insn : Insn} {step : H Bool} {at_ : Attached σ} {c c' d : Cpu} {w w' w₁ : World σ}
  {r : Option Unit} {n : Nat}

/-- The counter one turn later. -/
theorem toNat_counted (hcount : c.r Reg.rcx ≠ 0) (hn : n + 1 = (c.r Reg.rcx).toNat)
    (hkeep : d.r Reg.rcx = c.r Reg.rcx) : n = (d.counted.r Reg.rcx).toNat := by
  rw [Cpu.r_counted, hkeep, BitVec.toNat_sub, BitVec.toNat_ofNat]
  have hpos : (c.r Reg.rcx).toNat ≠ 0 := fun h => hcount (BitVec.eq_of_toNat_eq h)
  omega

variable (hkeeps : ∀ c w zf d w', step.EndsIn at_ c w (some zf) d w' →
  d.r Reg.rcx = c.r Reg.rcx)
include hkeeps

/-- A run of the loop: turns that go on, and a last one. -/
theorem repLoop_ends (hn : n = (c.r Reg.rcx).toNat)
    (h : (repLoop insn step n).EndsIn at_ c w r c' w') :
    ∃ zfs d w₁, Passes step at_ zfs c w d w₁ ∧ (∀ zf ∈ zfs, View.stops insn zf = false) ∧
      LastTurn insn step at_ d w₁ r c' w' := by
  induction n generalizing c w with
  | zero =>
      have hzero : c.r Reg.rcx = 0 := BitVec.eq_of_toNat_eq hn.symm
      obtain ⟨rfl, rfl, rfl⟩ := h.unique (endsIn_pure ())
      exact ⟨[], _, _, .none, fun _ hmem => (List.not_mem_nil hmem).elim, .idle (.inl hzero)⟩
  | succ n ih =>
      rw [repLoop, (endsIn_gets _).bind_iff] at h
      by_cases hmore : (c.r Reg.rcx != 0 && !c.halted) = true
      · have hcount : c.r Reg.rcx ≠ 0 := bne_iff_ne.mp (Bool.and_eq_true_iff.mp hmore).1
        have hrun : c.halted = false := by simpa using (Bool.and_eq_true_iff.mp hmore).2
        rw [if_pos hmore] at h
        obtain ⟨zf, d, w₁, hstep⟩ := step.ends at_ c w
        cases zf with
        | none =>
            obtain ⟨rfl, rfl, rfl⟩ := h.unique hstep.stop
            exact ⟨[], _, _, .none, fun _ hmem => (List.not_mem_nil hmem).elim,
              .fails hcount hrun hstep⟩
        | some zf =>
            rw [hstep.bind_iff, (endsIn_modify _).bind_iff] at h
            change H.EndsIn (if View.stops insn zf = true then pure ()
              else repLoop insn step n) at_ d.counted w₁ r c' w' at h
            by_cases hstop : View.stops insn zf = true
            · rw [if_pos hstop] at h
              obtain ⟨rfl, rfl, rfl⟩ := h.unique (endsIn_pure ())
              exact ⟨[], _, _, .none, fun _ hmem => (List.not_mem_nil hmem).elim,
                .stops hcount hrun hstep hstop⟩
            · rw [if_neg hstop] at h
              have hkeep := hkeeps _ _ _ _ _ hstep
              obtain ⟨zfs, e, w₂, hpasses, hgo, hlast⟩ := ih (toNat_counted hcount hn hkeep) h
              refine ⟨zf :: zfs, e, w₂, .next hcount hrun hstep hpasses, ?_, hlast⟩
              intro z hz
              rcases List.mem_cons.mp hz with rfl | hz
              · exact Bool.not_eq_true _ |>.mp hstop
              · exact hgo z hz
      · rw [if_neg hmore] at h
        obtain ⟨rfl, rfl, rfl⟩ := h.unique (endsIn_pure ())
        refine ⟨[], _, _, .none, fun _ hmem => (List.not_mem_nil hmem).elim, .idle ?_⟩
        simp only [Bool.and_eq_true, bne_iff_ne, Bool.not_eq_true', not_and_or, ne_eq,
          Decidable.not_not, Bool.not_eq_false] at hmore
        exact hmore

/-- Every turn takes one from the counter. -/
theorem Passes.length {zfs : List Bool} (h : Passes step at_ zfs c w d w₁) :
    zfs.length + (d.r Reg.rcx).toNat = (c.r Reg.rcx).toNat := by
  induction h with
  | none => exact Nat.zero_add _
  | next hcount _ hstep _ ih =>
      have hpos : ((Cpu.r _ Reg.rcx).toNat ≠ 0) := fun h => hcount (BitVec.eq_of_toNat_eq h)
      have hlater := toNat_counted hcount (Nat.succ_pred hpos) (hkeeps _ _ _ _ _ hstep)
      rw [List.length_cons, Nat.add_right_comm, ih, ← hlater]
      exact Nat.succ_pred hpos

end Loop

section Runs

variable {σ : Type} {at_ : Attached σ} {Inv : σ → Prop} {mem : σ → ByteMap} {c c' d : Cpu}
  {w w' w₁ : World σ} {op : StringOp} {size : Nat} {zfs : List Bool}

theorem StringOp.Repeats.snoc {m m₁ m' : ByteMap} {found : List Bool} {equal : Bool}
    (h : op.Repeats size found c m d m₁) (hlast : op.Element size d m₁ equal c' m') :
    op.Repeats size (found ++ [equal]) c m c'.counted m' := by
  induction h with
  | none => exact .next hlast .none
  | next h _ ih => exact .next h (ih hlast)

/-- The turns of the handler's loop are elements. -/
theorem Passes.repeats (hrep : at_.Represents Inv mem) (hinv : Inv w.mem) (hsize : IsOpSize size)
    (h : Passes (op.codeStep size) at_ zfs c w d w₁) :
    op.Repeats size zfs c (mem w.mem) d (mem w₁.mem) ∧ Inv w₁.mem ∧
      (op.compares = false → ∀ zf ∈ zfs, zf = false) := by
  induction h with
  | none => exact ⟨.none, hinv, fun _ _ hmem => (List.not_mem_nil hmem).elim⟩
  | next _ _ hstep _ ih =>
      obtain ⟨helement, hinv₁, hzf⟩ := codeStep_element hrep hinv hsize hstep
      obtain ⟨hrepeats, hinv', hzfs⟩ := ih hinv₁
      refine ⟨.next helement hrepeats, hinv', fun hop zf hmem => ?_⟩
      rcases List.mem_cons.mp hmem with rfl | hmem
      · exact hzf hop
      · exact hzfs hop zf hmem

theorem stops_codeStep (op : StringOp) (size : Nat) : (op.codeStep size).StopsHalted := by
  have hadvance (reg : Nat) (old : U64) : (advance reg old size).StopsHalted := stops_modify _
  have hsynced : (getsSynced Cpu.zf).StopsHalted := (stops_modify _).bind fun _ => stops_gets _
  cases op with
  | movs =>
      refine (stops_gets _).bind fun _ => (stops_gets _).bind fun _ => ?_
      refine (stops_readMemBytes ..).bind fun _ => (stops_writeMemBytes ..).bind fun _ => ?_
      exact (hadvance ..).bind fun _ => (hadvance ..).bind fun _ => stops_pure _
  | stos =>
      refine (stops_gets _).bind fun _ => (stops_gets _).bind fun _ => ?_
      exact (stops_writeMemBytes ..).bind fun _ => (hadvance ..).bind fun _ => stops_pure _
  | lods =>
      refine (stops_gets _).bind fun _ => (stops_readMemBytes ..).bind fun _ => ?_
      exact (stops_modify _).bind fun _ => (hadvance ..).bind fun _ => stops_pure _
  | scas =>
      refine (stops_gets _).bind fun _ => (stops_readMemBytes ..).bind fun _ => ?_
      refine (stops_modify _).bind fun _ => hsynced.bind fun _ => ?_
      exact (hadvance ..).bind fun _ => stops_pure _
  | cmps =>
      refine (stops_gets _).bind fun _ => (stops_gets _).bind fun _ => ?_
      refine (stops_readMemBytes ..).bind fun _ => (stops_readMemBytes ..).bind fun _ => ?_
      refine (stops_modify _).bind fun _ => hsynced.bind fun _ => ?_
      exact (hadvance ..).bind fun _ => (hadvance ..).bind fun _ => stops_pure _

/-- A run of the repeated instruction. -/
theorem repString_ends {fp : HostFp} {i : Insn} {r : Option Unit}
    (hop : i.handler = (ImplicitOp.string op).handler) (hrep : hasRep i = true)
    (h : (i.run fp).EndsIn at_ c w r c' w') :
    ∃ zfs d w₁, Passes (op.codeStep i.opSize) at_ zfs c w d w₁ ∧
      (∀ zf ∈ zfs, View.stops i zf = false) ∧
      LastTurn i (op.codeStep i.opSize) at_ d w₁ r c' w' := by
  have hcode : i.run fp = runString i (op.codeStep i.opSize) :=
    ImplicitOp.run_eq (.string op) fp i hop
  rw [hcode, runString, if_pos hrep, (endsIn_gets _).bind_iff] at h
  exact repLoop_ends (fun _ _ _ _ _ => codeStep_rcx) rfl h

/-- A repeat without comparisons ends after an element only under the F3 prefix. -/
theorem stops_false_iff (i : Insn) : View.stops i false = i.flags.rep := by
  rw [View.stops, Bool.not_false, Bool.and_true, Bool.and_false, Bool.or_false]

theorem reference_of_ends {fp : HostFp} {i : Insn} {r : Option Unit}
    (hop : i.handler = (ImplicitOp.string op).handler) (hsize : IsOpSize i.opSize)
    (hsplit : hasRep i = true) (hrep : at_.Represents Inv mem) (hinv : Inv w.mem)
    (hone : c.halted = false → op.compares = false → i.flags.rep = true →
      (c.r Reg.rcx).toNat ≤ 1)
    (h : (i.run fp).EndsIn at_ c w r c' w') (hrun : c'.halted = false) :
    RepReference i op c (mem w.mem) c' (mem w'.mem) := by
  obtain ⟨zfs, d, w₁, hpasses, hgo, hlast⟩ := repString_ends hop hsplit h
  obtain ⟨hrepeats, hinv₁, hzfs⟩ := hpasses.repeats hrep hinv hsize
  have hlength := hpasses.length fun _ _ _ _ _ => codeStep_rcx
  cases hlast with
  | idle hidle =>
      have hzero : c'.r Reg.rcx = 0 := by
        rcases hidle with hzero | hhalted
        · exact hzero
        · rw [hrun] at hhalted
          cases hhalted
      refine ⟨zfs, hrepeats, hrepeats.advanced hsize, ?_⟩
      split
      · exact .inl ⟨hgo, hzero⟩
      · rw [hzero] at hlength
        exact ⟨hlength, hzero⟩
  | @stops zf e _ hcount hrunning hstep hstop =>
      obtain ⟨helement, _, hzf⟩ := codeStep_element hrep hinv₁ hsize hstep
      have hrepeats' := hrepeats.snoc helement
      refine ⟨zfs ++ [zf], hrepeats', hrepeats'.advanced hsize, ?_⟩
      split
      · exact .inr ⟨zfs, zf, rfl, hgo, hstop⟩
      · rename_i hcompares
        have hcompares' : op.compares = false := Bool.not_eq_true _ |>.mp hcompares
        rw [hzf hcompares', stops_false_iff] at hstop
        have hfirst : zfs = [] := by
          cases zfs with
          | nil => rfl
          | cons z rest =>
              have hgoes := hgo z (List.mem_cons_self ..)
              rw [hzfs hcompares' z (List.mem_cons_self ..), stops_false_iff, hstop] at hgoes
              cases hgoes
        subst hfirst
        cases hpasses
        have hpos : (c.r Reg.rcx).toNat ≠ 0 := fun h => hcount (BitVec.eq_of_toNat_eq h)
        have hle := hone hrunning hcompares' hstop
        have hcounted : (c.r Reg.rcx).toNat = 1 := by omega
        refine ⟨hcounted.symm, ?_⟩
        have hlater := toNat_counted (n := 0) hcount (by omega) (codeStep_rcx hstep)
        exact BitVec.eq_of_toNat_eq hlater.symm
  | fails _ _ hstep =>
      rw [(stops_codeStep op i.opSize).halted _ _ _ _ _ _ hstep] at hrun
      cases hrun

end Runs

/-! ### Where the repeat is exact -/

/-- On flat memory every element goes through. -/
theorem flat_step (op : StringOp) (size : Nat) (c : Cpu) (w : World (GuestAddr → U8)) :
    ∃ zf d w', (op.codeStep size).EndsIn flatMachine c w (some zf) d w' := by
  have hreads (addr : GuestAddr) := flatMachine_reads w addr size
  cases op with
  | movs => exact ⟨_, _, _, (codeStep_iff .movs).mpr
      ⟨_, ⟨_, _, hreads _, flatMachine_writes .., rfl, rfl⟩, rfl⟩⟩
  | stos => exact ⟨_, _, _, (codeStep_iff .stos).mpr
      ⟨_, ⟨flatMachine_writes .., rfl, rfl⟩, rfl⟩⟩
  | lods => exact ⟨_, _, _, (codeStep_iff .lods).mpr ⟨_, ⟨_, hreads _, rfl, rfl⟩, rfl⟩⟩
  | scas => exact ⟨_, _, _, (codeStep_iff .scas).mpr ⟨_, ⟨_, hreads _, rfl, rfl⟩, rfl⟩⟩
  | cmps => exact ⟨_, _, _, (codeStep_iff .cmps).mpr
      ⟨_, ⟨_, _, _, hreads _, hreads _, rfl, rfl⟩, rfl⟩⟩

/-- Under the F3 prefix an operation without comparisons stops after one element of a flat
memory. -/
theorem flat_stops {fp : HostFp} {i : Insn} {op : StringOp}
    (hop : i.handler = (ImplicitOp.string op).handler) (hsize : IsOpSize i.opSize)
    (hrep : i.flags.rep = true) (hcompares : op.compares = false) {c : Cpu}
    (hcount : c.r Reg.rcx ≠ 0) (hrun : c.halted = false) (w : World (GuestAddr → U8)) :
    ∃ r c' w', (i.run fp).EndsIn flatMachine c w r c' w' ∧ c'.halted = false ∧
      c'.r Reg.rcx = c.r Reg.rcx - 1 := by
  have hsplit : hasRep i = true := by rw [hasRep, hrep, Bool.true_or]
  obtain ⟨r, c', w', hends⟩ := (i.run fp).ends flatMachine c w
  refine ⟨r, c', w', hends, ?_⟩
  obtain ⟨zfs, d, w₁, hpasses, hgo, hlast⟩ := repString_ends hop hsplit hends
  obtain ⟨_, _, hzfs⟩ := hpasses.repeats flatMachine_represents trivial hsize
  cases hpasses with
  | @next zf =>
      have hgoes := hgo zf (List.mem_cons_self ..)
      rw [hzfs hcompares zf (List.mem_cons_self ..), stops_false_iff, hrep] at hgoes
      cases hgoes
  | none =>
      obtain ⟨zf, d, w₂, hflat⟩ := flat_step op i.opSize c w
      cases hlast with
      | idle hidle =>
          rcases hidle with hzero | hhalted
          · exact absurd hzero hcount
          · rw [hrun] at hhalted
            cases hhalted
      | stops _ _ hstep _ =>
          obtain ⟨helement, _, _⟩ := codeStep_element flatMachine_represents trivial hsize hstep
          have hadvanced := helement.advanced hsize
          exact ⟨hadvanced.halted.trans hrun, hadvanced.rcx⟩
      | fails _ _ hstep => cases (hflat.unique hstep).1

/-- With more than one element to do, that is not the reference. -/
theorem few_of_exact {fp : HostFp} {i : Insn} {op : StringOp} {c : Cpu}
    (hop : i.handler = (ImplicitOp.string op).handler) (hsize : IsOpSize i.opSize)
    (hexact : StringExact fp i op c) (hrun : c.halted = false) (hcompares : op.compares = false)
    (hrep : i.flags.rep = true) : (c.r Reg.rcx).toNat ≤ 1 := by
  by_contra hmany
  have hcount : c.r Reg.rcx ≠ 0 := by
    intro hzero
    rw [hzero] at hmany
    exact hmany (Nat.zero_le 1)
  obtain ⟨r, c', w', hends, hrun', hrcx⟩ :=
    flat_stops hop hsize hrep hcompares hcount hrun { mem := fun _ => 0 }
  obtain ⟨found, _, _, href⟩ := hexact _ _ _ _ _ _ _ _ flatMachine_represents trivial hends hrun'
  rw [hcompares, if_neg Bool.false_ne_true] at href
  have hone : c.r Reg.rcx = 1 := by
    rw [href.2] at hrcx
    bv_omega
  rw [hone] at hmany
  exact hmany (Nat.le_refl 1)

/-- The exact condition: with F3, MOVS, STOS and LODS have at most one element to do. -/
theorem rep_string_exact (fp : HostFp) {i : Insn} {op : StringOp}
    (hop : i.handler = (ImplicitOp.string op).handler) (hsize : IsOpSize i.opSize)
    (hrep : hasRep i = true) (c : Cpu) :
    StringExact fp i op c ↔
      (c.halted = false → op.compares = false → i.flags.rep = true → (c.r Reg.rcx).toNat ≤ 1) := by
  constructor
  · intro hexact hrun hcompares hflag
    exact few_of_exact hop hsize hexact hrun hcompares hflag
  · intro hone σ at_ Inv mem w w' r c' hrepresents hinv hends hrun
    exact reference_of_ends hop hsize hrep hrepresents hinv hone hends hrun

/-- A byte operation under the F3 prefix. -/
def repByte (op : StringOp) : Insn :=
  { handler := (ImplicitOp.string op).handler, opSize := 1, flags := { rep := true } }

/-- `n` elements to do, the source just below the destination. -/
def countOf (n : U64) : Cpu :=
  ((({} : Cpu).setR Reg.rcx n).setR Reg.rsi 0x1000).setR Reg.rdi 0x1001

theorem rep_string_exact_bytes :
    StringExact default (repByte .cmps) .cmps (countOf 5) ∧
      StringExact default (repByte .stos) .stos (countOf 1) := by
  constructor
  · refine (rep_string_exact default rfl (by decide) rfl _).mpr ?_
    intro _ hcompares
    cases hcompares
  · refine (rep_string_exact default rfl (by decide) rfl _).mpr ?_
    intro _ _ _
    decide

/-- `rep movsb` with RCX 2. -/
theorem rep_movsb_stops_early : ¬ StringExact default (repByte .movs) .movs (countOf 2) := by
  intro hexact
  have hfew := few_of_exact rfl (by decide) hexact rfl rfl rfl
  have htwo : ((countOf 2).r Reg.rcx).toNat = 2 := by decide
  omega

end PicoCpu
