import PicoCpu.Shifts
import PicoCpu.MemoryAccess
import PicoCpu.LazySync
import PicoCpu.Decoder.Shape

/-!
SHLD and SHRD as windows of the destination and the second register joined. The handlers find the
register's number in the index field of the destination, where a SIB byte has left an index, and
SHRD by one takes OF from a plain shift.
-/

namespace PicoCpu

open H Proc Handlers Decode

/-! ### Windows -/

section Windows

variable {w : Nat}

/-- `n` bits of the source shifted in, from below or from above. -/
def window (left : Bool) (dst src : BitVec w) (n : Nat) : BitVec w :=
  if left then (dst ++ src).extractLsb' (w - n) w else (src ++ dst).extractLsb' n w

/-- The bit of the destination that goes out last. -/
def lastOut (left : Bool) (n : Nat) : Nat := if left then w - n else n - 1

/-- The flags of a double shift by `n`. -/
structure DoubleShifted (left : Bool) (dst src : BitVec w) (n : Nat) (c : Cpu) : Prop where
  carry : c.cf = dst.getLsbD (lastOut (w := w) left n)
  zero : c.zf = decide (window left dst src n = 0)
  sign : c.sf = (window left dst src n).msb
  parity : c.pf = evenParity ((window left dst src n).setWidth 64)
  overflow : n = 1 → c.of = ((window left dst src n).msb != dst.msb)

end Windows

section Results

variable {size : Nat} (hsize : IsOpSize size) (dst src : BitVec (8 * size)) {n : Nat}
  (hn : n < 8 * size)
include hsize hn

theorem shldResult_eq : shldResult size (dst.setWidth 64) (src.setWidth 64) n =
    (window true dst src n).setWidth 64 := by
  have hle := bits_le hsize
  apply BitVec.eq_of_getLsbD_eq
  intro i hi
  rw [shldResult, getLsbD_and_maskFor size hsize, BitVec.getLsbD_setWidth, window, if_pos rfl,
    BitVec.getLsbD_extractLsb', BitVec.getLsbD_append]
  simp only [BitVec.getLsbD_or, BitVec.getLsbD_shiftLeft, BitVec.getLsbD_ushiftRight,
    BitVec.getLsbD_setWidth]
  grind

theorem shrdResult_eq : shrdResult size (dst.setWidth 64) (src.setWidth 64) n =
    (window false dst src n).setWidth 64 := by
  have hle := bits_le hsize
  apply BitVec.eq_of_getLsbD_eq
  intro i hi
  rw [shrdResult, getLsbD_and_maskFor size hsize, BitVec.getLsbD_setWidth, window,
    if_neg Bool.false_ne_true, BitVec.getLsbD_extractLsb', BitVec.getLsbD_append]
  simp only [BitVec.getLsbD_or, BitVec.getLsbD_shiftLeft, BitVec.getLsbD_ushiftRight,
    BitVec.getLsbD_setWidth]
  grind

omit dst src hn in
theorem setWidth_eq_masked (x : U64) :
    (x.setWidth (8 * size)).setWidth 64 = x &&& maskFor size := by
  apply BitVec.eq_of_getLsbD_eq
  intro i hi
  rw [getLsbD_and_maskFor size hsize, BitVec.getLsbD_setWidth, BitVec.getLsbD_setWidth,
    decide_eq_true hi, Bool.true_and, Bool.and_comm]

end Results

/-! ### The handlers -/

def doubleShiftHandler (left : Bool) : Handler := if left then .opShld else .opShrd

/-- What its handler stashes. -/
def stashDouble (left : Bool) (size : Nat) (a : U64) (n : Nat) (r : U64) (c : Cpu) : Cpu :=
  if left then c.stashShl size a n r else c.stashShr size a n r

theorem run_doubleShift (fp : HostFp) (left : Bool) (i : Insn) :
    callHandler fp (doubleShiftHandler left) i =
      doubleShift (if left then shldResult else shrdResult) (stashDouble left) i := by
  cases left <;> rfl

/-- The masked count: CL, or the immediate. -/
def shiftAmount (i : Insn) (c : Cpu) : Nat :=
  if i.src.kind = .reg then maskedCount i.opSize ((c.r8 Reg.rcx).setWidth 8)
  else maskedCount i.opSize (i.immExtra.setWidth 8)

section Handlers

variable {σ : Type} {at_ : Attached σ} {c c₁ : Cpu} {w w₁ : World σ} {i : Insn} {left : Bool}
  {n : Nat}

/-- With a count inside the width, the handler writes the window of its destination and the register
in the index field, and stashes a plain shift. -/
theorem doubleShift_iff {dst : BitVec (8 * i.opSize)} {r : Option Unit} {c' : Cpu} {w' : World σ}
    (fp : HostFp) (hi : i.handler = doubleShiftHandler left) (hsize : IsOpSize i.opSize)
    (ha : (readOperand i i.dst i.opSize).EndsIn at_ c w (some (dst.setWidth 64)) c₁ w₁)
    (hn : n = shiftAmount i c₁) (hpos : 0 < n) (hlt : n < 8 * i.opSize) :
    (i.run fp).EndsIn at_ c w r c' w' ↔ H.EndsIn (do
      writeOperand i i.dst i.opSize
        ((window left dst ((c₁.r i.dst.index).setWidth (8 * i.opSize)) n).setWidth 64)
      Proc.modify (stashDouble left i.opSize (dst.setWidth 64) n
        ((window left dst ((c₁.r i.dst.index).setWidth (8 * i.opSize)) n).setWidth 64)))
      at_ c₁ w₁ r c' w' := by
  have hresult : (if left then shldResult else shrdResult) i.opSize (dst.setWidth 64)
      (c₁.r i.dst.index &&& maskFor i.opSize) n =
      (window left dst ((c₁.r i.dst.index).setWidth (8 * i.opSize)) n).setWidth 64 := by
    rw [← setWidth_eq_masked hsize]
    cases left with
    | true => exact shldResult_eq hsize dst _ hlt
    | false => exact shrdResult_eq hsize dst _ hlt
  have hcount : (doubleShiftCount i).EndsIn at_ c₁ w₁ (some n) c₁ w₁ := by
    rw [hn]
    exact endsIn_gets _
  rw [Insn.run, hi, run_doubleShift, doubleShift, ha.bind_iff, (endsIn_gets _).bind_iff,
    hcount.bind_iff, if_neg (Nat.pos_iff_ne_zero.mp hpos), if_neg (by omega)]
  dsimp only
  rw [hresult]

/-- The flags that the plain shift leaves to be read: OF of SHRD is the old sign. -/
theorem stashDouble_flags {size : Nat} (hsize : IsOpSize size) (dst src : BitVec (8 * size))
    (hpos : 0 < n) (hlt : n < 8 * size) (e c' : Cpu)
    (hc' : c' = stashDouble left size (dst.setWidth 64) n ((window left dst src n).setWidth 64) e) :
    c'.cf = dst.getLsbD (lastOut (w := 8 * size) left n) ∧
    (c'.zf = decide (window left dst src n = 0) ∧ c'.sf = (window left dst src n).msb ∧
      c'.pf = evenParity ((window left dst src n).setWidth 64)) ∧
    (n = 1 → c'.of = if left then (window left dst src n).msb != dst.msb else dst.msb) := by
  have hle := bits_le hsize
  have h0 : n ≠ 0 := Nat.pos_iff_ne_zero.mp hpos
  have hn : n < 64 := by omega
  have hcomm : size * 8 = 8 * size := Nat.mul_comm size 8
  subst hc'
  cases left with
  | true =>
      have hcf : (if n ≤ size * 8 then bitAt (dst.setWidth 64) (size * 8 - n) else false) =
          dst.getLsbD (8 * size - n) := by
        rw [hcomm, if_pos hlt.le, bitAt_word _ _ (by omega)]
      have hsets : ShiftOp.shl.Sets n (dst, false)
          (window true dst src n, dst.getLsbD (8 * size - n)) e (stashDouble true size
            (dst.setWidth 64) n ((window true dst src n).setWidth 64) e) :=
        sets_of_shiftWord hsize rfl h0 ((Cpu.arith_eq _).trans (congrArg arithFlags
          (syncBits_stashShl e (dst.setWidth 64) ((window true dst src n).setWidth 64) h0 hn))) hcf
          (fun _ => by
            rw [and_signMask_word hsize, hcf]
            rfl)
      refine ⟨hsets.carry h0, hsets.result rfl h0, fun h1 => ?_⟩
      rw [if_pos rfl, BitVec.msb_eq_getLsbD_last dst, ← h1]
      exact hsets.overflow h1
  | false =>
      have hcf : (if n ≤ size * 8 then bitAt (dst.setWidth 64) (n - 1) else false) =
          dst.getLsbD (n - 1) := by
        rw [hcomm, if_pos hlt.le, bitAt_word _ _ (by omega)]
      have hsets : ShiftOp.shr.Sets n (dst, false)
          (window false dst src n, dst.getLsbD (n - 1)) e (stashDouble false size
            (dst.setWidth 64) n ((window false dst src n).setWidth 64) e) :=
        sets_of_shiftWord hsize rfl h0 ((Cpu.arith_eq _).trans (congrArg arithFlags
          (syncBits_stashShr e (dst.setWidth 64) ((window false dst src n).setWidth 64) h0 hn))) hcf
          (fun _ => by
            rw [and_signMask_word hsize]
            rfl)
      exact ⟨hsets.carry h0, hsets.result rfl h0, hsets.overflow⟩

/-- By one, the sign of a window is the bit next to it. -/
theorem msb_window_one {w : Nat} (hw : 0 < w) (dst src : BitVec w) :
    (window false dst src 1).msb = src.getLsbD 0 := by
  rw [window, if_neg Bool.false_ne_true, BitVec.msb_eq_getLsbD_last, BitVec.getLsbD_extractLsb',
    BitVec.getLsbD_append]
  have hindex : 1 + (w - 1) = w := by omega
  have hlt : w - 1 < w := by omega
  simp [hindex, hlt]

end Handlers

/-! ### The claim on a state -/

/-- Whatever the memory and the hooks that keep the registers, the destination as it is encoded
becomes the window of itself and the second register, and the flags are those of the shift. -/
def ShiftsWindow (fp : HostFp) (left : Bool) (i : Insn) (rm : Operand) (reg : Nat) (c : Cpu) :
    Prop :=
  ∀ (σ : Type) (at_ : Attached σ) (w w₁ w₂ : World σ) (dst : BitVec (8 * i.opSize)) (c₁ e : Cpu),
    at_.HooksFollow Cpu.SameRegisters →
    0 < shiftAmount i c → shiftAmount i c < 8 * i.opSize →
    (readOperand i rm i.opSize).EndsIn at_ c w (some (dst.setWidth 64)) c₁ w₁ →
    (writeOperand i rm i.opSize ((window left dst ((c.r reg).setWidth (8 * i.opSize))
      (shiftAmount i c)).setWidth 64)).EndsIn at_ c₁ w₁ (some ()) e w₂ →
    ∃ c', (i.run fp).EndsIn at_ c w (some ()) c' w₂ ∧ c'.unflagged = e.unflagged ∧
      DoubleShifted left dst ((c.r reg).setWidth (8 * i.opSize)) (shiftAmount i c) c'

/-- No breakpoint watches the operand. -/
def Unwatched (i : Insn) (rm : Operand) (c : Cpu) : Prop :=
  rm.isMem = true → (c.dataBreakpointAt (ea c i rm) false i.opSize).1 = false ∧
    (c.dataBreakpointAt (ea c i rm) true i.opSize).1 = false

/-- The register in the index field leaves the address as it is encoded, and a right shift by one
shifts in a zero. -/
def WindowSafe (left : Bool) (i : Insn) (rm : Operand) (reg : Nat) (c : Cpu) : Prop :=
  (rm.isMem = true → ea c i i.dst = ea c i rm) ∧
    ¬ (left = false ∧ shiftAmount i c = 1 ∧ (c.r reg).getLsbD 0 = true)

section Claim

variable {left : Bool} {i : Insn} {rm : Operand} {reg : Nat} {c : Cpu}

theorem shiftAmount_of_same {c₁ : Cpu} (h : c.SameRegisters c₁) :
    shiftAmount i c₁ = shiftAmount i c := by
  have hcl : c₁.r8 Reg.rcx = c.r8 Reg.rcx := by
    unfold Cpu.r8
    simp only [h.gpr]
  rw [shiftAmount, shiftAmount, hcl]

/-- Where the operand is read and written, no breakpoint watched it. -/
theorem unwatched_of_accessed {σ : Type} {at_ : Attached σ} {c₁ e : Cpu} {w w₁ w₂ : World σ}
    {v v' : U64} (hsame : c.SameRegisters c₁)
    (hread : (readOperand i rm i.opSize).EndsIn at_ c w (some v) c₁ w₁)
    (hwrite : (writeOperand i rm i.opSize v').EndsIn at_ c₁ w₁ (some ()) e w₂) :
    Unwatched i rm c := by
  intro hmem
  obtain ⟨hmiss, _⟩ := (readOperand_mem_iff hmem).mp hread
  obtain ⟨hmiss', _⟩ := (writeOperand_mem_iff hmem).mp hwrite
  rw [hsame.ea, hsame.dataBreakpointAt] at hmiss'
  exact ⟨hmiss, hmiss'⟩

/-- A read of an operand leaves the registers to the hooks. -/
theorem sameRegisters_of_read {σ : Type} {at_ : Attached σ} {c₁ : Cpu} {w w₁ : World σ} {v : U64}
    (hhooks : at_.HooksFollow Cpu.SameRegisters) (hrm : rm.kind = .reg ∨ rm.isMem = true)
    (hread : (readOperand i rm i.opSize).EndsIn at_ c w (some v) c₁ w₁) : c.SameRegisters c₁ := by
  rcases hrm with hreg | hmem
  · obtain ⟨_, rfl, _⟩ := hread.unique (readOperand_of_reg hreg)
    exact Cpu.SameRegisters.refl _
  · obtain ⟨_, _, rfl⟩ := (readOperand_mem_iff hmem).mp hread
    exact hhooks.hooked ..

section Moved

variable (hdst : i.dst = { rm with index := reg })
include hdst

theorem index_of_dst : i.dst.index = reg := by rw [hdst]

theorem isMem_of_dst : i.dst.isMem = rm.isMem := by
  rw [hdst]
  rfl

variable (hrm : rm.kind = .reg ∨ rm.isMem = true)
include hrm

/-- With the address as encoded, the operand is read as it is encoded. -/
theorem readOperand_moved {σ : Type} {at_ : Attached σ} {c' : Cpu} {w w' : World σ} {size : Nat}
    {v : U64} (hea : rm.isMem = true → ea c i i.dst = ea c i rm) :
    (readOperand i i.dst size).EndsIn at_ c w (some v) c' w' ↔
      (readOperand i rm size).EndsIn at_ c w (some v) c' w' := by
  rcases hrm with hreg | hmem
  · have hsame : readOperand i i.dst size = readOperand i rm size := by
      unfold readOperand
      rw [hdst, hreg]
    rw [hsame]
  · have hmem' := (isMem_of_dst hdst).trans hmem
    rw [readOperand_mem_iff hmem, readOperand_mem_iff hmem', hea hmem]

theorem writeOperand_moved {σ : Type} {at_ : Attached σ} {c' : Cpu} {w w' : World σ} {size : Nat}
    {v : U64} (hea : rm.isMem = true → ea c i i.dst = ea c i rm) :
    (writeOperand i i.dst size v).EndsIn at_ c w (some ()) c' w' ↔
      (writeOperand i rm size v).EndsIn at_ c w (some ()) c' w' := by
  rcases hrm with hreg | hmem
  · have hsame : writeOperand i i.dst size v = writeOperand i rm size v := by
      unfold writeOperand
      rw [hdst, hreg]
    rw [hsame]
  · have hmem' := (isMem_of_dst hdst).trans hmem
    rw [writeOperand_mem_iff hmem, writeOperand_mem_iff hmem', hea hmem]

end Moved

theorem unflagged_stashDouble (size : Nat) (a : U64) (n : Nat) (r : U64) (e : Cpu) :
    (stashDouble left size a n r e).unflagged = e.unflagged := by
  cases left with
  | true => exact unflagged_stashShift e .shl size a n r
  | false => exact unflagged_stashShift e .shr size a n r

variable (fp : HostFp) (hi : i.handler = doubleShiftHandler left) (hsize : IsOpSize i.opSize)
  (hdst : i.dst = { rm with index := reg }) (hrm : rm.kind = .reg ∨ rm.isMem = true)
include hi hsize hdst hrm

/-- From an operand read as it is encoded to what the handler leaves. -/
theorem run_of_accesses {σ : Type} {at_ : Attached σ} {c₁ e : Cpu} {w w₁ w₂ : World σ}
    {dst : BitVec (8 * i.opSize)} (hhooks : at_.HooksFollow Cpu.SameRegisters)
    (hpos : 0 < shiftAmount i c) (hlt : shiftAmount i c < 8 * i.opSize)
    (hea : rm.isMem = true → ea c i i.dst = ea c i rm)
    (hread : (readOperand i rm i.opSize).EndsIn at_ c w (some (dst.setWidth 64)) c₁ w₁)
    (hwrite : (writeOperand i rm i.opSize ((window left dst ((c.r reg).setWidth (8 * i.opSize))
      (shiftAmount i c)).setWidth 64)).EndsIn at_ c₁ w₁ (some ()) e w₂) :
    (i.run fp).EndsIn at_ c w (some ()) (stashDouble left i.opSize (dst.setWidth 64)
      (shiftAmount i c) ((window left dst ((c.r reg).setWidth (8 * i.opSize))
        (shiftAmount i c)).setWidth 64) e) w₂ := by
  have hsame := sameRegisters_of_read hhooks hrm hread
  have hea' : rm.isMem = true → ea c₁ i i.dst = ea c₁ i rm := by
    rw [hsame.ea, hsame.ea]
    exact hea
  have hreg : c₁.r i.dst.index = c.r reg := by rw [index_of_dst hdst, hsame.r]
  rw [doubleShift_iff fp hi hsize ((readOperand_moved hdst hrm hea).mpr hread)
    (shiftAmount_of_same hsame).symm hpos hlt, hreg,
    ((writeOperand_moved hdst hrm hea').mpr hwrite).bind_iff]
  exact endsIn_modify _

/-- Away from the two slips the handler does what it should. -/
theorem shiftsWindow_of_safe (h : 0 < shiftAmount i c → shiftAmount i c < 8 * i.opSize →
    Unwatched i rm c → WindowSafe left i rm reg c) : ShiftsWindow fp left i rm reg c := by
  intro σ at_ w w₁ w₂ dst c₁ e hhooks hpos hlt hread hwrite
  have hsame := sameRegisters_of_read hhooks hrm hread
  obtain ⟨hea, hzero⟩ := h hpos hlt (unwatched_of_accessed hsame hread hwrite)
  refine ⟨_, run_of_accesses fp hi hsize hdst hrm hhooks hpos hlt hea hread hwrite,
    unflagged_stashDouble .., ?_⟩
  obtain ⟨hcf, ⟨hzf, hsf, hpf⟩, hof⟩ := stashDouble_flags hsize dst
    ((c.r reg).setWidth (8 * i.opSize)) hpos hlt e _ rfl
  refine ⟨hcf, hzf, hsf, hpf, fun h1 => ?_⟩
  rw [hof h1]
  cases left with
  | true => rfl
  | false =>
      have hmsb := msb_window_one (bits_pos hsize) dst ((c.r reg).setWidth (8 * i.opSize))
      have hbit : (c.r reg).getLsbD 0 = false := by
        cases hbit : (c.r reg).getLsbD 0 with
        | false => rfl
        | true => exact absurd ⟨rfl, h1, hbit⟩ hzero
      rw [BitVec.getLsbD_setWidth, hbit, Bool.and_false] at hmsb
      rw [h1, hmsb]
      cases dst.msb <;> rfl

/-! ### The slips -/

omit hrm in
/-- The accesses of a handler that went through them all. -/
theorem accesses_of_run {σ : Type} {at_ : Attached σ} {c' : Cpu} {w w' : World σ}
    (hmem : rm.isMem = true) (hpos : 0 < shiftAmount i c) (hlt : shiftAmount i c < 8 * i.opSize)
    (hplain : ∀ isWrite addr size value d, at_.hooked isWrite addr size value d = d)
    (hrun : (i.run fp).EndsIn at_ c w (some ()) c' w') :
    ∃ (dst : BitVec (8 * i.opSize)) (w₁ : World σ),
      at_.Reads (ea c i i.dst) i.opSize w (dst.setWidth 64) w₁ ∧
        c'.cf = dst.getLsbD (lastOut (w := 8 * i.opSize) left (shiftAmount i c)) := by
  have hmem' := (isMem_of_dst hdst).trans hmem
  have hnotrel : i.dst.kind ≠ .rel := by
    intro hrel
    rw [Operand.isMem, hrel] at hmem'
    cases hmem'
  have hbody := hrun
  rw [Insn.run, hi, run_doubleShift, doubleShift] at hbody
  obtain ⟨v, c₁, w₁, hread, _⟩ := hbody.of_bind
  have hword := setWidth_of_masked hsize (readOperand_masked hsize hnotrel hread)
  obtain ⟨_, hreads, hc⟩ := (readOperand_mem_iff hmem').mp hread
  rw [hplain] at hc
  subst hc
  rw [← hword] at hread hreads
  refine ⟨v.setWidth (8 * i.opSize), w₁, hreads, ?_⟩
  rw [doubleShift_iff fp hi hsize hread rfl hpos hlt] at hrun
  obtain ⟨_, e, w₂, _, hstash⟩ := hrun.of_bind
  obtain ⟨_, hc', _⟩ := hstash.unique (endsIn_modify _)
  exact (stashDouble_flags hsize (v.setWidth (8 * i.opSize)) _ hpos hlt e c' hc').1

omit hrm in
/-- A memory operand is shifted at its own address. -/
theorem ea_of_shiftsWindow (hwindow : ShiftsWindow fp left i rm reg c)
    (hpos : 0 < shiftAmount i c) (hlt : shiftAmount i c < 8 * i.opSize)
    (hun : Unwatched i rm c) (hmem : rm.isMem = true) : ea c i i.dst = ea c i rm := by
  by_contra hne
  have hle := bits_le hsize
  generalize hout : lastOut (w := 8 * i.opSize) left (shiftAmount i c) = out at *
  have houtlt : out < 8 * i.opSize := by
    rw [← hout]
    unfold lastOut
    split <;> omega
  -- One byte is set, the one that holds the bit that goes out.
  let full : GuestAddr := ea c i rm + BitVec.ofNat 64 (out / 8)
  let w : World (GuestAddr → U8) := { mem := fun a => if a = full then 0xFF else 0 }
  obtain ⟨hload, hstore⟩ := hun hmem
  have hread : (readOperand i rm i.opSize).EndsIn flatMachine c w
      (some ((flatWord w (ea c i rm) i.opSize).setWidth 64)) c w :=
    (readOperand_mem_iff hmem).mpr ⟨hload, flatMachine_reads w _ _, rfl⟩
  obtain ⟨c', hrun, _, hshifted⟩ := hwindow _ flatMachine w w _ _ c c
    (flatMachine_hooksFollow _) hpos hlt hread
    ((writeOperand_mem_iff hmem).mpr ⟨hstore, flatMachine_writes w _ _ _, rfl⟩)
  obtain ⟨dst, w₁, hreads, hcf⟩ := accesses_of_run fp hi hsize hdst hmem hpos hlt
    (fun isWrite addr size value d => flatMachine_hooked addr size isWrite value d) hrun
  have hdstbit : dst = flatWord w (ea c i i.dst) i.opSize := by
    obtain ⟨hv, _⟩ := hreads.unique (flatMachine_reads w _ _)
    have hback := congrArg (BitVec.setWidth (8 * i.opSize)) hv
    rwa [BitVec.setWidth_setWidth_of_le _ hle, BitVec.setWidth_setWidth_of_le _ hle,
      BitVec.setWidth_eq, BitVec.setWidth_eq] at hback
  have hcarry := hshifted.carry
  rw [hcf, hout, hdstbit, getLsbD_flatWord w _ _ houtlt (by omega),
    getLsbD_flatWord w _ _ houtlt (by omega)] at hcarry
  have hother : ea c i i.dst + BitVec.ofNat 64 (out / 8) ≠ full := by
    intro heq
    exact hne ((BitVec.add_left_inj _).mp heq)
  have hones : ∀ k < 8, (0xFF : U8).getLsbD k = true := by decide
  have hbit := hones (out % 8) (Nat.mod_lt _ (by omega))
  dsimp only [w] at hcarry
  rw [if_neg hother, if_pos rfl, hbit] at hcarry
  cases hcarry.symm.trans (BitVec.getLsbD_zero)

/-- By one to the right, OF is never what it should be when a one is shifted in. -/
theorem zero_of_shiftsWindow (hwindow : ShiftsWindow fp left i rm reg c)
    (hpos : 0 < shiftAmount i c) (hlt : shiftAmount i c < 8 * i.opSize)
    (hun : Unwatched i rm c) :
    ¬ (left = false ∧ shiftAmount i c = 1 ∧ (c.r reg).getLsbD 0 = true) := by
  rintro ⟨rfl, h1, hbit⟩
  have hea := ea_of_shiftsWindow fp hi hsize hdst hwindow hpos hlt hun
  let w : World (GuestAddr → U8) := { mem := fun _ => 0 }
  have haccess : ∃ (dst : BitVec (8 * i.opSize)) (e : Cpu) (w₂ : World (GuestAddr → U8)),
      (readOperand i rm i.opSize).EndsIn flatMachine c w (some (dst.setWidth 64)) c w ∧
      (writeOperand i rm i.opSize ((window false dst ((c.r reg).setWidth (8 * i.opSize))
        (shiftAmount i c)).setWidth 64)).EndsIn flatMachine c w (some ()) e w₂ := by
    rcases hrm with hkind | hmem
    · have hread : (readOperand i rm i.opSize).EndsIn flatMachine c w
          (some (c.readGpr rm.reg i.opSize)) c w := readOperand_of_reg hkind
      have hnotrel : rm.kind ≠ .rel := by
        rw [hkind]
        exact OperandKind.noConfusion
      rw [← setWidth_of_masked hsize (readOperand_masked hsize hnotrel hread)] at hread
      exact ⟨_, _, _, hread, writeOperand_of_reg hkind hsize _⟩
    · obtain ⟨hload, hstore⟩ := hun hmem
      exact ⟨_, _, _, (readOperand_mem_iff hmem).mpr ⟨hload, flatMachine_reads w _ _, rfl⟩,
        (writeOperand_mem_iff hmem).mpr ⟨hstore, flatMachine_writes w _ _ _, rfl⟩⟩
  obtain ⟨dst, e, w₂, hread, hwrite⟩ := haccess
  obtain ⟨c', hrun, _, hshifted⟩ := hwindow _ flatMachine w w w₂ dst c e
    (flatMachine_hooksFollow _) hpos hlt hread hwrite
  obtain ⟨_, hc', _⟩ := hrun.unique (run_of_accesses fp hi hsize hdst hrm
    (flatMachine_hooksFollow _) hpos hlt hea hread hwrite)
  obtain ⟨_, _, hof⟩ := stashDouble_flags hsize dst ((c.r reg).setWidth (8 * i.opSize)) hpos hlt
    e c' hc'
  have hmsb := msb_window_one (bits_pos hsize) dst ((c.r reg).setWidth (8 * i.opSize))
  rw [BitVec.getLsbD_setWidth, hbit, decide_eq_true (bits_pos hsize), Bool.and_self] at hmsb
  have hexact := (hof h1).symm.trans (hshifted.overflow h1)
  rw [if_neg Bool.false_ne_true, h1, hmsb] at hexact
  generalize dst.msb = sign at hexact
  cases sign <;> cases hexact

/-- The handler does what it should exactly away from its slips. -/
theorem shiftsWindow_iff : ShiftsWindow fp left i rm reg c ↔
    (0 < shiftAmount i c → shiftAmount i c < 8 * i.opSize → Unwatched i rm c →
      WindowSafe left i rm reg c) := by
  refine ⟨fun hwindow hpos hlt hun => ⟨?_, ?_⟩, shiftsWindow_of_safe fp hi hsize hdst hrm⟩
  · exact ea_of_shiftsWindow fp hi hsize hdst hwindow hpos hlt hun
  · exact zero_of_shiftsWindow fp hi hsize hdst hrm hwindow hpos hlt hun

end Claim

/-! ### As encoded -/

/-- A double shift: its operand, its second register, and its count, which is CL unless a byte is
given. -/
structure DoubleShift where
  left : Bool
  size : Nat
  rm : Operand
  reg : Nat
  count : Option U8

/-- The masked count. -/
def DoubleShift.amount (s : DoubleShift) (c : Cpu) : Nat :=
  maskedCount s.size (s.count.getD ((c.r8 Reg.rcx).setWidth 8))

/-- A4, A5, AC and AD. -/
def doubleShiftOpcode (left byImm : Bool) : U8 :=
  if left then if byImm then 0xA4 else 0xA5 else if byImm then 0xAC else 0xAD

/-- The bytes of a double shift follow the prefixes. -/
def DoubleShiftAt (fetch : Fetch) (fuel : Nat) (s : DoubleShift) : Prop :=
  ∃ (px : Prefixes) (at_ end_ mb : U8), scanPrefixes fetch fuel 0 {} = some (.ok (px, at_)) ∧
    px.isVex = false ∧
    Parse.Holds fetch at_ [0x0F, doubleShiftOpcode s.left s.count.isSome, mb] ∧
    (decodeRmOperand px (splitModrm mb) px.aluSize).run fetch (at_ + 1 + 1 + 1) =
      .ok (s.rm, end_) ∧
    (∀ imm ∈ s.count, fetch end_ = .ok imm) ∧ s.size = px.aluSize ∧
    s.reg = combineReg px.rexR (splitModrm mb).reg

section Decoder

variable (px : Prefixes) (out : Insn)

theorem decodePrimary_escape {fetch : Fetch} {at_ : U8} (h : fetch at_ = .ok 0x0F) :
    (decodePrimary px out).run fetch at_ = (decodeTwoByte px out).run fetch (at_ + 1) := by
  have hrow :
      Parse.firstOf .unsupportedOpcode (onePrimary px 0x0F out) = decodeTwoByte px out := rfl
  rw [decodePrimary, readByte, Parse.symbol_bind, Parse.run, h, ← hrow]

/-- Alternatives of which none applies. -/
def Skips (ps : List (Option (Decode Insn))) : Prop := ∀ p ∈ ps, p = none

theorem skips_append {ps qs : List (Option (Decode Insn))} (hp : Skips ps) (hq : Skips qs) :
    Skips (ps ++ qs) := by
  intro p h
  rcases List.mem_append.mp h with h | h
  · exact hp p h
  · exact hq p h

theorem skips_ite {c : Bool} {ps : List (Option (Decode Insn))} (h : Skips ps) :
    Skips (if c then ps else []) := by
  split
  · exact h
  · exact fun _ hp => absurd hp List.not_mem_nil

theorem skips_of_replicate {n : Nat} {ps : List (Option (Decode Insn))}
    (h : ps = List.replicate n none) : Skips ps := by
  intro p hp
  rw [h] at hp
  exact List.eq_of_mem_replicate hp

theorem firstOf_append_of_skips {e : Status} {ps qs : List (Option (Decode Insn))}
    (h : Skips ps) : Parse.firstOf e (ps ++ qs) = Parse.firstOf e qs := by
  induction ps with
  | nil => rfl
  | cons p rest ih =>
      rw [h p (List.mem_cons_self ..)]
      exact ih fun q hq => h q (List.mem_cons_of_mem _ hq)

/-- The opcodes of the double shifts are in no block of SSE instructions. -/
theorem firstOf_doubleShift (left byImm : Bool) :
    Parse.firstOf .unsupportedOpcode
      ([Parse.when (doubleShiftOpcode left byImm == 0x38) (decode0F38 px out),
        Parse.when (doubleShiftOpcode left byImm == 0x3A) (decode0F3A px out)] ++
      (if px.rep || px.repne then sseScalar px (doubleShiftOpcode left byImm) out else []) ++
      (if px.opsizePfx then ssePackedDouble px (doubleShiftOpcode left byImm) out else []) ++
      (if px.noMandatory then ssePackedSingle px (doubleShiftOpcode left byImm) out else []) ++
      (if px.opsizePfx then sse2Integer px (doubleShiftOpcode left byImm) out else []) ++
      (if px.rep then sseRep px (doubleShiftOpcode left byImm) out else []) ++
      generalTwoByte px (doubleShiftOpcode left byImm) out) =
    decodeDoubleShift px out byImm (if left then .shld else .shrd) (doubleShiftHandler left) := by
  have hmaps : Skips [Parse.when (doubleShiftOpcode left byImm == 0x38) (decode0F38 px out),
      Parse.when (doubleShiftOpcode left byImm == 0x3A) (decode0F3A px out)] :=
    skips_of_replicate (n := 2) (by cases left <;> cases byImm <;> rfl)
  have hscalar : Skips (sseScalar px (doubleShiftOpcode left byImm) out) :=
    skips_of_replicate (n := 5)
      (by unfold sseScalar; cases left <;> cases byImm <;> cases px.repne <;> rfl)
  have hdouble : Skips (ssePackedDouble px (doubleShiftOpcode left byImm) out) :=
    skips_of_replicate (n := 3) (by cases left <;> cases byImm <;> rfl)
  have hsingle : Skips (ssePackedSingle px (doubleShiftOpcode left byImm) out) :=
    skips_of_replicate (n := 5) (by cases left <;> cases byImm <;> rfl)
  have hinteger : Skips (sse2Integer px (doubleShiftOpcode left byImm) out) :=
    skips_of_replicate (n := 8) (by cases left <;> cases byImm <;> rfl)
  have hrep : Skips (sseRep px (doubleShiftOpcode left byImm) out) :=
    skips_of_replicate (n := 3) (by cases left <;> cases byImm <;> rfl)
  rw [firstOf_append_of_skips (skips_append (skips_append (skips_append (skips_append
    (skips_append hmaps (skips_ite hscalar)) (skips_ite hdouble)) (skips_ite hsingle))
    (skips_ite hinteger)) (skips_ite hrep))]
  unfold generalTwoByte
  cases left <;> cases byImm <;> cases px.rep <;> rfl

theorem decodeTwoByte_doubleShift {fetch : Fetch} {at_ : U8} {left byImm : Bool}
    (h : fetch at_ = .ok (doubleShiftOpcode left byImm)) :
    (decodeTwoByte px out).run fetch at_ =
      (decodeDoubleShift px out byImm (if left then .shld else .shrd)
        (doubleShiftHandler left)).run fetch (at_ + 1) := by
  rw [decodeTwoByte, readByte, Parse.symbol_bind, Parse.run, h, ← firstOf_doubleShift]

/-- What the decoder makes of a double shift. -/
structure DecodedDoubleShift (s : DoubleShift) (i : Insn) : Prop where
  handler : i.handler = doubleShiftHandler s.left
  opSize : i.opSize = s.size
  dst : i.dst = { s.rm with index := s.reg }
  amount : ∀ c, shiftAmount i c = s.amount c

omit px out in
/-- An immediate byte is stored with its sign. -/
theorem setWidth_signExtend (imm : U8) : (imm.signExtend 64).setWidth 8 = imm := by
  apply BitVec.eq_of_getLsbD_eq
  intro k hk
  simp [BitVec.getLsbD_signExtend, hk]
  omega

theorem run_decodeDoubleShift {fetch : Fetch} {at_ end_ mb : U8} {s : DoubleShift}
    {kind : OpKind} {i : Insn} {rest : U8} (hmb : fetch at_ = .ok mb)
    (hrm : (decodeRmOperand px (splitModrm mb) px.aluSize).run fetch (at_ + 1) = .ok (s.rm, end_))
    (hcount : ∀ imm ∈ s.count, fetch end_ = .ok imm) (hsize : s.size = px.aluSize)
    (hreg : s.reg = combineReg px.rexR (splitModrm mb).reg)
    (hrun : (decodeDoubleShift px out s.count.isSome kind
      (doubleShiftHandler s.left)).run fetch at_ = .ok (i, rest)) : DecodedDoubleShift s i := by
  rw [decodeDoubleShift, readModrm_bind, Parse.run, hmb] at hrun
  simp only [Parse.run_bind, hrm] at hrun
  obtain ⟨left, size, rm, reg, count⟩ := s
  dsimp only at hsize hreg
  subst hsize hreg
  cases count with
  | none =>
      cases hrun
      exact ⟨rfl, rfl, rfl, fun c => rfl⟩
  | some imm =>
      have himm := hcount imm rfl
      simp only [Option.isSome_some, if_true, readImmSx, readByte, Parse.symbol_bind, Parse.pure_eq,
        Parse.next_bind, Parse.ret_bind, Parse.run, himm] at hrun
      cases hrun
      refine ⟨rfl, rfl, rfl, fun c => ?_⟩
      rw [shiftAmount, if_neg OperandKind.noConfusion, setWidth_signExtend]
      rfl

end Decoder

section Exact

variable {fetch : Fetch} {rip : GuestAddr} {fuel : Nat} {i : Insn} {s : DoubleShift}

theorem DoubleShiftAt.decoded (hbytes : DoubleShiftAt fetch fuel s)
    (hdecode : decodeWithSource fetch rip fuel = some (.ok i)) :
    DecodedDoubleShift s i ∧ IsOpSize s.size ∧ (s.rm.kind = .reg ∨ s.rm.isMem = true) := by
  obtain ⟨px, at_, end_, mb, hscan, hvex, ⟨hescape, hopcode, hmb, _⟩, hrm, hcount, hsize, hreg⟩ :=
    hbytes
  refine ⟨?_, ?_, ?_⟩
  · rw [decodeWithSource, hscan] at hdecode
    dsimp only at hdecode
    rw [decodeAfterPrefixes, hvex, if_neg Bool.false_ne_true, decodePrimary_escape px _ hescape,
      decodeTwoByte_doubleShift px _ hopcode] at hdecode
    split at hdecode
    · cases hdecode
    · rename_i out rest hrun
      obtain ⟨hhandler, hopSize, hdst, hamount⟩ :=
        run_decodeDoubleShift px _ hmb hrm hcount hsize hreg hrun
      cases hdecode
      exact ⟨hhandler, hopSize, hdst, hamount⟩
  · rw [hsize, Prefixes.aluSize]
    split_ifs
    · exact Or.inr (Or.inr (Or.inr rfl))
    · exact Or.inr (Or.inl rfl)
    · exact Or.inr (Or.inr (Or.inl rfl))
  · obtain ⟨bs, hyields, _⟩ := Parse.run_eq_ok.mp hrm
    have hadmits := (decodeRmOperand_post px (splitModrm mb) px.aluSize bs s.rm hyields).admits
    rw [OperandSlot.admits, Bool.or_eq_true] at hadmits
    exact hadmits.imp_left eq_of_beq

/-- A decoded double shift is the window of its operand and its second register, by the count that
its bytes give, exactly where its address survives the register in the index field and a right shift
by one shifts in a zero. -/
theorem double_shift_exact (fp : HostFp)
    (hdecode : decodeWithSource fetch rip fuel = some (.ok i))
    (hbytes : DoubleShiftAt fetch fuel s) :
    (i.opSize = s.size ∧ ∀ c, shiftAmount i c = s.amount c) ∧
    ∀ c, ShiftsWindow fp s.left i s.rm s.reg c ↔
      (0 < s.amount c → s.amount c < 8 * s.size → Unwatched i s.rm c →
        WindowSafe s.left i s.rm s.reg c) := by
  obtain ⟨⟨hhandler, hopSize, hdst, hamount⟩, hsize, hrm⟩ := hbytes.decoded hdecode
  refine ⟨⟨hopSize, hamount⟩, fun c => ?_⟩
  rw [← hopSize] at hsize
  rw [shiftsWindow_iff fp hhandler hsize hdst hrm, hopSize, hamount]

end Exact

/-! ### Two encodings -/

/-- `shld ecx, eax, 4`. -/
def shldRegister : DoubleShift where
  left := true
  size := 4
  rm := { kind := .reg, reg := Reg.rcx }
  reg := Reg.rax
  count := some 4

/-- `shld [rsp], eax, 4`: the SIB byte has no index, and its scale is one. -/
def shldStack : DoubleShift where
  left := true
  size := 4
  rm := { kind := .mem, reg := Reg.rsp, index := Reg.none, scale := 1 }
  reg := Reg.rax
  count := some 4

/-- Code at address zero. -/
def codeAt (bytes : List U8) : Fetch := bufFetch (fun n => bytes.getD n 0) bytes.length

theorem shldRegister_at : DoubleShiftAt (codeAt [0x0F, 0xA4, 0xC1, 0x04]) 1 shldRegister := by
  refine ⟨{}, 0, 3, 0xC1, rfl, rfl, ⟨rfl, rfl, rfl, trivial⟩, rfl, ?_, rfl, rfl⟩
  rintro imm ⟨⟩
  rfl

theorem shldStack_at : DoubleShiftAt (codeAt [0x0F, 0xA4, 0x04, 0x24, 0x04]) 1 shldStack := by
  refine ⟨{}, 0, 4, 0x04, rfl, rfl, ⟨rfl, rfl, rfl, trivial⟩, rfl, ?_, rfl, rfl⟩
  rintro imm ⟨⟩
  rfl

/-- The instruction of a left shift by four. -/
def insnOf (s : DoubleShift) (len : Nat) : Insn where
  handler := .opShld
  kind := .shld
  opSize := s.size
  len := len
  cond := .none
  dst := { s.rm with index := s.reg }
  src := { kind := .imm, imm := 4 }
  immExtra := 4

theorem double_shift_exact_register :
    ShiftsWindow default true (insnOf shldRegister 4) shldRegister.rm Reg.rax {} := by
  have hdecode : decodeWithSource (codeAt [0x0F, 0xA4, 0xC1, 0x04]) 0 1 =
      some (.ok (insnOf shldRegister 4)) := rfl
  refine ((double_shift_exact default hdecode shldRegister_at).2 {}).mpr fun _ _ _ => ⟨?_, ?_⟩
  · intro hmem
    cases hmem
  · rintro ⟨hleft, _⟩
    cases hleft

/-- RAX is one, and so is the address it moves the operand by. -/
def raxOne : Cpu := ({} : Cpu).setR Reg.rax 1

/-- The number of the second register has become the index of the stack operand. -/
theorem shld_stack_misplaced : ¬ ∀ (fp : HostFp) (fetch : Fetch) (rip : GuestAddr) (fuel : Nat)
    (i : Insn) (s : DoubleShift) (c : Cpu), decodeWithSource fetch rip fuel = some (.ok i) →
    DoubleShiftAt fetch fuel s → ShiftsWindow fp s.left i s.rm s.reg c := by
  intro hclaim
  have hdecode : decodeWithSource (codeAt [0x0F, 0xA4, 0x04, 0x24, 0x04]) 0 1 =
      some (.ok (insnOf shldStack 5)) := rfl
  have hwindow := hclaim default _ 0 1 (insnOf shldStack 5) shldStack raxOne hdecode
    shldStack_at
  have hunwatched : Unwatched (insnOf shldStack 5) shldStack.rm raxOne := fun _ =>
    ⟨by decide, by decide⟩
  have hiff : ShiftsWindow default shldStack.left (insnOf shldStack 5) shldStack.rm shldStack.reg
      raxOne ↔ _ := shiftsWindow_iff default rfl (by decide) rfl (Or.inr rfl)
  have hsafe := hiff.mp hwindow (by decide) (by decide) hunwatched
  have hea := hsafe.1 rfl
  exact absurd hea (by decide)

end PicoCpu
