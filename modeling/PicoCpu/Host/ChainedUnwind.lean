import PicoCpu.Host.UnwindWalk

/-!
Unwinding from a fragment whose record leads to the unwind info of another function. The walk
compares the offsets of that function's prolog with the offset in the fragment, so that it finds the
caller only from past the last offset of an operation that moves the stack pointer.
-/

namespace PicoCpu

namespace Host

/-! ### Every operation of a prolog -/

/-- An operation of an unwind info. The frame register keeps an address and the far saves give their
offset unscaled. -/
inductive OrdinaryOp where
  | basic (op : PrologOp)
  | setFpreg (reserved : BitVec 4)
  | saveNonvolFar (reg : BitVec 4) (off : U32)
  | saveXmm128Far (reg : BitVec 4) (off : U32)

namespace OrdinaryOp

def opcode : OrdinaryOp → BitVec 4
  | basic op => op.opcode
  | setFpreg _ => 3
  | saveNonvolFar _ _ => 5
  | saveXmm128Far _ _ => 9

def info : OrdinaryOp → BitVec 4
  | basic op => op.info
  | setFpreg reserved => reserved
  | saveNonvolFar reg _ => reg
  | saveXmm128Far reg _ => reg

def extra : OrdinaryOp → List U8
  | basic op => op.extra
  | setFpreg _ => []
  | saveNonvolFar _ off => le32 off
  | saveXmm128Far _ off => le32 off

def slots : OrdinaryOp → Nat
  | basic op => op.slots
  | setFpreg _ => 1
  | saveNonvolFar _ _ => 3
  | saveXmm128Far _ _ => 3

/-- The bytes by which the stack grows. -/
def size : OrdinaryOp → Nat
  | basic op => op.size
  | _ => 0

def run (c : Cpu) (frame : GuestAddr) : OrdinaryOp → Stack → Stack
  | basic op, t => op.run c frame t
  | setFpreg _, t => t
  | saveNonvolFar reg off, t =>
    { t with mem := store t.mem (frame + off.setWidth 64) (le64 (c.r reg.toNat)) }
  | saveXmm128Far reg off, t =>
    let value := List.ofFn fun i : Fin 16 => c.zmm reg.toNat i
    { t with mem := store t.mem (frame + off.setWidth 64) value }

theorem slots_eq (op : OrdinaryOp) :
    (unwindOpSize op.opcode op.info).toNat = op.slots ∧ 1 ≤ op.slots := by
  cases op with
  | basic op => exact unwindOpSize_eq op
  | setFpreg reserved => exact ⟨rfl, Nat.le_refl 1⟩
  | saveNonvolFar reg off => exact ⟨rfl, Nat.le_add_left 1 2⟩
  | saveXmm128Far reg off => exact ⟨rfl, Nat.le_add_left 1 2⟩

theorem size_le (op : OrdinaryOp) : op.size ≤ 2 ^ 32 := by
  cases op with
  | basic op => exact op.size_le
  | setFpreg reserved => exact Nat.zero_le _
  | saveNonvolFar reg off => exact Nat.zero_le _
  | saveXmm128Far reg off => exact Nat.zero_le _

theorem run_rsp (c : Cpu) (frame : GuestAddr) (op : OrdinaryOp) (t : Stack) :
    (op.run c frame t).rsp = t.rsp - BitVec.ofNat 64 op.size := by
  cases op with
  | basic op => exact Host.run_rsp c frame op t
  | setFpreg reserved => exact (BitVec.sub_zero t.rsp).symm
  | saveNonvolFar reg off => exact (BitVec.sub_zero t.rsp).symm
  | saveXmm128Far reg off => exact (BitVec.sub_zero t.rsp).symm

end OrdinaryOp

/-- An operation and the offset of the instruction after it in its function. -/
structure OrdinaryStep where
  off : U8
  op : OrdinaryOp

/-- The code of the operation. -/
def OrdinaryStep.code (step : OrdinaryStep) : List U8 :=
  [step.off, step.op.info ++ step.op.opcode] ++ step.op.extra

theorem OrdinaryStep.code_length (step : OrdinaryStep) :
    step.code.length = 2 * step.op.slots := by
  rcases step with ⟨off, op⟩
  cases op with
  | basic op => exact PrologStep.codes_length ⟨off, op⟩
  | setFpreg reserved => rfl
  | saveNonvolFar reg off => rfl
  | saveXmm128Far reg off => rfl

namespace Ordinary

def slots (steps : List OrdinaryStep) : Nat := (steps.map fun step => step.op.slots).sum

/-- The bytes by which the stack grows. -/
def growth (steps : List OrdinaryStep) : Nat := (steps.map fun step => step.op.size).sum

/-- The codes, newest operation first. -/
def codes (steps : List OrdinaryStep) : List U8 := steps.reverse.flatMap OrdinaryStep.code

/-- The operations whose codes apply at the offset. -/
def undone (offset : U32) (steps : List OrdinaryStep) : List OrdinaryStep :=
  steps.filter fun step => (step.off.setWidth 32).ule offset

/-- The stack after the whole of the prolog, the caller having called. -/
def leftBy (c : Cpu) (steps : List OrdinaryStep) (caller : Stack) (callerRip : GuestAddr) : Stack :=
  let called := caller.push callerRip
  steps.foldl
    (fun t step => step.op.run c (called.rsp - BitVec.ofNat 64 (growth steps)) t) called

theorem growth_le (steps : List OrdinaryStep) : growth steps ≤ slots steps * 2 ^ 32 := by
  induction steps with
  | nil => exact Nat.zero_le _
  | cons step steps ih =>
      have hsize := step.op.size_le
      have hpos := step.op.slots_eq.2
      have hdepth : growth (step :: steps) = step.op.size + growth steps := rfl
      have hslots : slots (step :: steps) = step.op.slots + slots steps := rfl
      rw [hdepth, hslots]
      omega

theorem length_le_slots (steps : List OrdinaryStep) : steps.length ≤ slots steps := by
  induction steps with
  | nil => exact Nat.le_refl 0
  | cons step steps ih =>
      have hpos := step.op.slots_eq.2
      have hslots : slots (step :: steps) = step.op.slots + slots steps := rfl
      rw [hslots, List.length_cons]
      omega

/-- What applies makes up the whole growth exactly when nothing that moves the stack pointer is
left out. -/
theorem growth_undone_le (offset : U32) (steps : List OrdinaryStep) :
    growth (undone offset steps) ≤ growth steps ∧
      (growth (undone offset steps) = growth steps ↔
        ∀ step ∈ steps, offset.toNat < step.off.toNat → step.op.size = 0) := by
  induction steps with
  | nil => exact ⟨Nat.le_refl 0, iff_of_true rfl fun step hstep => absurd hstep List.not_mem_nil⟩
  | cons step steps ih =>
      obtain ⟨hle, heq⟩ := ih
      have hoff := step.off.isLt
      have happlies : (step.off.setWidth 32).ule offset =
          decide (step.off.toNat ≤ offset.toNat) := by
        rw [BitVec.ule, BitVec.toNat_setWidth, Nat.mod_eq_of_lt (by omega)]
      have hdepth : growth (step :: steps) = step.op.size + growth steps := rfl
      rw [hdepth, List.forall_mem_cons, ← heq, undone, List.filter_cons, happlies]
      by_cases hran : step.off.toNat ≤ offset.toNat
      · have hhead : growth (step :: undone offset steps) =
            step.op.size + growth (undone offset steps) := rfl
        rw [decide_eq_true hran, if_pos rfl, ← undone, hhead]
        omega
      · rw [decide_eq_false hran, if_neg Bool.false_ne_true, ← undone]
        omega

theorem growth_reverse (steps : List OrdinaryStep) : growth steps.reverse = growth steps := by
  rw [growth, List.map_reverse, List.sum_reverse, growth]

theorem slots_reverse (steps : List OrdinaryStep) : slots steps.reverse = slots steps := by
  rw [slots, List.map_reverse, List.sum_reverse, slots]

end Ordinary

open Ordinary

/-! ### The walk over them -/

section Walk

variable {σ : Type} {P : MemoryProvider σ} {Inv : σ → Prop} {m : ByteMap}

theorem returns_undoOrdinary (hP : Serves P Inv m) (op : OrdinaryOp) {extra : GuestAddr}
    (hm : HoldsAt m extra op.extra) (rsp : U64) :
    Returns Inv (undoCode P op.opcode op.info extra rsp) fun r =>
      r = rsp + BitVec.ofNat 64 op.size := by
  cases op with
  | basic op => exact returns_undoCode hP op hm rsp
  | setFpreg reserved => exact returns_pure (BitVec.add_zero rsp).symm
  | saveNonvolFar reg off => exact returns_pure (BitVec.add_zero rsp).symm
  | saveXmm128Far reg off => exact returns_pure (BitVec.add_zero rsp).symm

/-- The iteration at the code of an operation. -/
theorem returns_undoSlot (hP : Serves P Inv m) {codes : GuestAddr} (offset : U32) (idx : U8)
    (step : OrdinaryStep) (rsp : U64)
    (hm : HoldsAt m (codes + BitVec.ofNat 64 (2 * idx.toNat)) step.code) :
    Returns Inv (undoSlot P codes offset idx rsp) fun r =>
      r = (idx + unwindOpSize step.op.opcode step.op.info,
        rsp + BitVec.ofNat 64 (growth (undone offset [step]))) := by
  obtain ⟨hfirst, hextra⟩ := holdsAt_append.mp hm
  rw [BitVec.add_assoc, ← BitVec.ofNat_add] at hextra
  rw [undoSlot]
  refine returns_bind (returns_readBytes hP hfirst rfl) fun bytes hbytes => ?_
  have hoff : bytes 0 = step.off := hbytes 0 Nat.zero_lt_two
  have hbyte : bytes 1 = step.op.info ++ step.op.opcode := hbytes 1 Nat.one_lt_two
  obtain ⟨hop, hinfo⟩ := nibbles step.op.opcode step.op.info
  simp only [hoff, hbyte, UnwindCode.ofBytes, UnwindCode.applies, hop, hinfo]
  rw [undone, List.filter_cons, List.filter_nil]
  split
  · refine returns_bind (returns_undoOrdinary hP step.op hextra rsp) fun r hr => ?_
    subst hr
    exact returns_pure rfl
  · exact returns_bind (returns_pure rfl) fun r hr => returns_pure (by subst hr; simp [growth])

theorem growth_undone_cons (offset : U32) (step : OrdinaryStep) (rest : List OrdinaryStep) :
    growth (undone offset (step :: rest)) =
      growth (undone offset [step]) + growth (undone offset rest) := by
  rw [growth, ← List.singleton_append, undone, List.filter_append, List.map_append,
    List.sum_append]
  rfl

theorem returns_walk (hP : Serves P Inv m) {codes : GuestAddr} {count : U8} {offset : U32}
    (rest : List OrdinaryStep) (idx : U8) {rsp : U64} {fuel : Nat}
    (hidx : idx.toNat + slots rest = count.toNat)
    (hm : HoldsAt m (codes + BitVec.ofNat 64 (2 * idx.toNat)) (rest.flatMap OrdinaryStep.code))
    (hfuel : rest.length < fuel) :
    Returns Inv (undoCodes P codes count offset fuel idx rsp) fun r =>
      r = rsp + BitVec.ofNat 64 (growth (undone offset rest)) := by
  induction rest generalizing idx rsp fuel with
  | nil =>
      obtain ⟨fuel, rfl⟩ := Nat.exists_eq_add_of_lt hfuel
      have hend : ¬ idx.ult count = true := by
        rw [BitVec.ult, decide_eq_true_eq]
        have hsum : idx.toNat + 0 = count.toNat := hidx
        omega
      rw [undoCodes_succ, if_neg hend]
      exact returns_pure (BitVec.add_zero rsp).symm
  | cons step rest ih =>
      obtain ⟨fuel, rfl⟩ := Nat.exists_eq_add_of_lt hfuel
      obtain ⟨hsize, hpos⟩ := step.op.slots_eq
      have hsum : idx.toNat + (step.op.slots + slots rest) = count.toNat := hidx
      have hmore : idx.ult count = true := by
        rw [BitVec.ult, decide_eq_true_eq]
        omega
      have hnext : (idx + unwindOpSize step.op.opcode step.op.info).toNat =
          idx.toNat + step.op.slots := by
        have hcount := count.isLt
        rw [BitVec.toNat_add, hsize]
        omega
      rw [List.flatMap_cons] at hm
      obtain ⟨hcode, hrest⟩ := holdsAt_append.mp hm
      rw [step.code_length, BitVec.add_assoc, ← BitVec.ofNat_add, ← Nat.mul_add, ← hnext] at hrest
      rw [undoCodes_succ, if_pos hmore, growth_undone_cons, BitVec.ofNat_add, ← BitVec.add_assoc]
      refine returns_bind (returns_undoSlot hP offset idx step rsp hcode) fun r hr => ?_
      subst hr
      dsimp only
      exact ih _ (by omega) hrest (by simp; omega)

end Walk

/-! ### The return address -/

section Bytes

variable {w : Nat}

theorem low_append (a b : BitVec w) : (a ++ b).setWidth w = b := by
  apply BitVec.eq_of_getLsbD_eq
  intro i hi
  rw [BitVec.getLsbD_setWidth, BitVec.getLsbD_append, if_pos hi, decide_eq_true hi, Bool.true_and]

theorem high_append (a b : BitVec w) : ((a ++ b) >>> w).setWidth w = a := by
  apply BitVec.eq_of_getLsbD_eq
  intro i hi
  have hpast : ¬ w + i < w := by omega
  rw [BitVec.getLsbD_setWidth, BitVec.getLsbD_ushiftRight, BitVec.getLsbD_append, if_neg hpast,
    decide_eq_true hi, Bool.true_and, Nat.add_sub_cancel_left]

theorem le16_u16At (buf : Buf) (off : Nat) : le16 (u16At buf off) = [buf off, buf (off + 1)] := by
  rw [le16, u16At, low_append, high_append]

theorem le64_u64At (buf : Buf) : le64 (u64At buf 0) = List.ofFn fun i : Fin 8 => buf i := by
  have hword (off : Nat) : le32 (u32At buf off) =
      [buf off, buf (off + 1), buf (off + 2), buf (off + 2 + 1)] := by
    rw [le32, u32At, low_append, high_append, le16_u16At, le16_u16At]
    rfl
  rw [le64, u64At, low_append, high_append, hword, hword]
  rfl

end Bytes

theorem OrdinaryOp.run_keeps_mapped (c : Cpu) (frame : GuestAddr) (op : OrdinaryOp) {t : Stack}
    {a : GuestAddr} (h : (t.mem a).isSome) : ((op.run c frame t).mem a).isSome := by
  have hstore (b : GuestAddr) (bs : List U8) : (store t.mem b bs a).isSome := by
    rw [store]
    split
    · rfl
    · exact h
  cases op with
  | basic op =>
      cases op with
      | pushNonvol reg => exact hstore _ _
      | allocSmall info => exact h
      | allocLarge scaled => exact h
      | allocLargeFar size => exact h
      | saveNonvol reg slot => exact hstore _ _
      | saveXmm128 reg slot => exact hstore _ _
  | setFpreg reserved => exact h
  | saveNonvolFar reg off => exact hstore _ _
  | saveXmm128Far reg off => exact hstore _ _

section LeftBy

variable (c : Cpu) (steps : List OrdinaryStep) (caller : Stack) (callerRip : GuestAddr)

theorem foldl_ordinary_rsp (frame : GuestAddr) (t : Stack) :
    (steps.foldl (fun t step => step.op.run c frame t) t).rsp =
      t.rsp - BitVec.ofNat 64 (growth steps) := by
  induction steps generalizing t with
  | nil => exact (BitVec.sub_zero t.rsp).symm
  | cons step steps ih =>
      have hgrowth : growth (step :: steps) = step.op.size + growth steps := rfl
      rw [List.foldl_cons, ih, OrdinaryOp.run_rsp, hgrowth, BitVec.ofNat_add, BitVec.sub_sub]

theorem leftBy_rsp : (leftBy c steps caller callerRip).rsp =
    caller.rsp - 8 - BitVec.ofNat 64 (growth steps) :=
  foldl_ordinary_rsp c steps _ _

/-- Something lies where the return address has been pushed. -/
theorem leftBy_mapped {i : Nat} (hi : i < 8) :
    ((leftBy c steps caller callerRip).mem (caller.rsp - 8 + BitVec.ofNat 64 i)).isSome := by
  have hkeeps (frame : GuestAddr) (t : Stack) {a : GuestAddr} (h : (t.mem a).isSome) :
      ((steps.foldl (fun t step => step.op.run c frame t) t).mem a).isSome := by
    induction steps generalizing t with
    | nil => exact h
    | cons step steps ih => exact ih _ (step.op.run_keeps_mapped c frame h)
  refine hkeeps _ _ ?_
  have hpushed : HoldsAt (caller.push callerRip).mem (caller.rsp - 8) (le64 callerRip) :=
    store_self (by rw [le64_length]; decide)
  rw [hpushed i hi]
  rfl

end LeftBy

/-! ### From a fragment -/

/-- `rip` is in the function `f`, from whose record at most 16 indirections lead to an unwind info
with the codes of these operations. -/
structure FragmentOf (m : ByteMap) (base rip : GuestAddr) (f : RuntimeFunction)
    (steps : List OrdinaryStep) : Prop where
  inside : InFunction m base rip f
  info : ∃ n last version size frame, n ≤ 16 ∧ Linked m base last n f.unwindRva ∧
    HoldsAt m (base + last.setWidth 64)
      ([version, size, BitVec.ofNat 8 (slots steps), frame] ++ codes steps)
  slots_le : slots steps ≤ 255

/-- The offset of `rip` in the fragment. -/
def fragmentOffset (base rip : GuestAddr) (f : RuntimeFunction) : Nat :=
  rip.toNat - base.toNat - f.beginRva.toNat

section Unwound

variable {σ : Type} {P : MemoryProvider σ} {Inv : σ → Prop} {m : ByteMap} {base rip : GuestAddr}
  {f : RuntimeFunction} {steps : List OrdinaryStep} {s : σ}

/-- All but the last read of the function: the stack pointer goes up over the operations that apply
at the offset in the fragment. -/
theorem sehUnwindFrame_fragment (hP : Serves P Inv m) (hfragment : FragmentOf m base rip f steps)
    {fuel : Nat} (hfuel : 255 < fuel) (rsp : U64) (hs : Inv s) :
    ∃ offset s', offset.toNat = fragmentOffset base rip f ∧ Inv s' ∧
      sehUnwindFrame P base rip rsp fuel s =
        (readBytes P (rsp + BitVec.ofNat 64 (growth (undone offset steps))) 8 >>= fun ret =>
          pure ⟨u64At ret 0, rsp + BitVec.ofNat 64 (growth (undone offset steps)) + 8⟩) s' := by
  obtain ⟨n, last, version, size, frame, hn, hlinks, hbytes⟩ := hfragment.info
  obtain ⟨hheader, hcodes⟩ := holdsAt_append.mp hbytes
  have hslots := hfragment.slots_le
  have hinside := hfragment.inside
  obtain ⟨info, s₁, hinfo, hs₁, rfl⟩ := returns_unwindInfo hP hinside hlinks hn hheader s hs
  have hcount : (BitVec.ofNat 8 (slots steps)).toNat = slots steps := by
    rw [BitVec.toNat_ofNat]
    omega
  obtain ⟨offset, hoffset⟩ : ∃ offset : U32,
      offset = BitVec.ofNat 32 (rip.toNat - base.toNat - f.beginRva.toNat) := ⟨_, rfl⟩
  have hoffsetNat : offset.toNat = fragmentOffset base rip f := by
    have hend := hinside.lt_end
    have hrange := f.endRva.isLt
    rw [hoffset, BitVec.toNat_ofNat, fragmentOffset]
    omega
  rw [← hoffset] at hinfo
  have hwalk : Returns Inv (undoCodes P (base + last.setWidth 64 + 4)
      (BitVec.ofNat 8 (slots steps)) offset fuel 0 rsp) fun r =>
        r = rsp + BitVec.ofNat 64 (growth (undone offset steps)) := by
    have hsame : growth (undone offset steps.reverse) = growth (undone offset steps) := by
      rw [undone, List.filter_reverse, growth_reverse, undone]
    have hzero : BitVec.ofNat 64 (2 * BitVec.toNat (0 : U8)) = 0#64 := rfl
    rw [← hsame]
    refine returns_walk hP steps.reverse 0 ?_ ?_ ?_
    · rw [hcount, slots_reverse]
      exact Nat.zero_add _
    · rw [hzero, BitVec.add_zero]
      exact hcodes
    · rw [List.length_reverse]
      exact (length_le_slots steps).trans_lt (by omega)
  obtain ⟨r, s₂, hundo, hs₂, rfl⟩ := hwalk s₁ hs₁
  refine ⟨offset, s₂, hoffsetNat, hs₂, ?_⟩
  rw [sehUnwindFrame_eq, bind_of_ok hinfo, bind_of_ok hundo]

/-- The whole prolog is undone, modulo 2^64, exactly when no operation that moves the stack pointer
is left out. -/
theorem undone_all_iff {steps : List OrdinaryStep} (hslots : slots steps ≤ 255) (entry : U64)
    (offset : U32) :
    entry - BitVec.ofNat 64 (growth steps) + BitVec.ofNat 64 (growth (undone offset steps)) =
        entry ↔ ∀ step ∈ steps, offset.toNat < step.off.toNat → step.op.size = 0 := by
  obtain ⟨hle, heq⟩ := growth_undone_le offset steps
  have hbound := growth_le steps
  have hentry := entry.isLt
  rw [← heq, ← BitVec.toNat_inj, BitVec.toNat_add, BitVec.toNat_sub, BitVec.toNat_ofNat,
    BitVec.toNat_ofNat]
  omega

theorem returnAddress_of_found {top : U64} {frame : UnwoundFrame} {s s' : σ}
    (h : (readBytes P top 8 >>= fun ret => pure ⟨u64At ret 0, top + 8⟩) s =
      some (.ok (frame, s'))) :
    ∃ ret s₁, readBytes P top 8 s = some (.ok (ret, s₁)) ∧ frame = ⟨u64At ret 0, top + 8⟩ := by
  obtain ⟨r, hread⟩ := readBytes_ends P top 8 s
  cases r with
  | error e =>
      rw [bind_of_error hread] at h
      cases h
  | ok r =>
      rw [bind_of_ok hread] at h
      exact ⟨r.1, r.2, hread, (congrArg Prod.fst (Except.ok.inj (Option.some.inj h))).symm⟩

/-- From a fragment, with the prolog's stack, the caller is found exactly when the offset in the
fragment is past every operation of the prolog that moves the stack pointer, and the prolog has left
the return address where it was. -/
theorem unwinds_fragment_iff {c : Cpu} {caller : Stack} {callerRip : GuestAddr}
    (hP : Serves P Inv (leftBy c steps caller callerRip).mem)
    (hfragment : FragmentOf (leftBy c steps caller callerRip).mem base rip f steps)
    {fuel : Nat} (hfuel : 255 < fuel) (hs : Inv s) :
    (∃ s', sehUnwindFrame P base rip (leftBy c steps caller callerRip).rsp fuel s =
        some (.ok (⟨callerRip, caller.rsp⟩, s'))) ↔
      (∀ step ∈ steps, fragmentOffset base rip f < step.off.toNat → step.op.size = 0) ∧
        HoldsAt (leftBy c steps caller callerRip).mem (caller.rsp - 8) (le64 callerRip) := by
  obtain ⟨offset, s₁, hoffset, hs₁, hrun⟩ :=
    sehUnwindFrame_fragment hP hfragment hfuel (leftBy c steps caller callerRip).rsp hs
  have hall := undone_all_iff hfragment.slots_le (caller.rsp - 8) offset
  rw [leftBy_rsp] at hrun ⊢
  rw [hrun, ← hoffset, ← hall]
  generalize caller.rsp - 8 - BitVec.ofNat 64 (growth steps) +
    BitVec.ofNat 64 (growth (undone offset steps)) = top
  constructor
  · rintro ⟨s', hfound⟩
    obtain ⟨ret, s₂, hread, hframe⟩ := returnAddress_of_found hfound
    have hrip : callerRip = u64At ret 0 := congrArg UnwoundFrame.callerRip hframe
    have hrsp : caller.rsp = top + 8 := congrArg UnwoundFrame.callerRsp hframe
    have htop : top = caller.rsp - 8 := by rw [hrsp, BitVec.add_sub_cancel]
    subst htop
    obtain ⟨buf, s₃, hserved, _, hbytes⟩ := hP.read (caller.rsp - 8) 8 (fun _ => 0) s₁ hs₁
      fun i hi => leftBy_mapped c steps caller callerRip hi
    rw [readBytes, hserved] at hread
    obtain rfl : buf = ret := congrArg Prod.fst (Except.ok.inj (Option.some.inj hread))
    refine ⟨rfl, fun i hi => ?_⟩
    rw [le64_length] at hi
    have hbyte := hbytes i hi
    simp only [hrip, le64_u64At, List.getElem_ofFn]
    rw [← hrip]
    exact hbyte
  · rintro ⟨rfl, hret⟩
    obtain ⟨ret, s₂, hread, _, hstarts⟩ := returns_readBytes (n := 8) hP hret rfl s₁ hs₁
    rw [bind_of_ok hread, u64At_le64 hstarts, BitVec.sub_add_cancel]
    exact ⟨s₂, rfl⟩

end Unwound

/-! ### A fragment -/

/-- The record in the directory: its unwind word points at another record. -/
def fragment : RuntimeFunction := ⟨0x2000, 0x2100, 0x4001⟩

def primary : RuntimeFunction := ⟨0x5000, 0x5100, 0x3000⟩

/-- `push rbx`. -/
def pushProlog : Prolog where
  steps := [⟨1, .pushNonvol 3⟩]
  slots_le := by decide

def pushSteps : List OrdinaryStep := [⟨1, .basic (.pushNonvol 3)⟩]

def fragmentImage : ByteMap :=
  store (store (imageWith pushProlog) 0x140001000 fragment.bytes) 0x140004000 primary.bytes

/-- The stack after the push. -/
def pushedStack : Stack := leftBy {} pushSteps ⟨0x7FFF0000, fragmentImage⟩ 0x140009999

theorem pushedStack_fragment :
    FragmentOf pushedStack.mem 0x140000000 0x140002000 fragment pushSteps := by
  refine ⟨?_, ⟨1, 0x3000, 1, 10, 0, by decide, ?_, by decide +kernel⟩, by decide⟩
  · exact inFunction_of_record (by decide +kernel) (by decide +kernel) (by decide +kernel)
      (by decide +kernel) (by decide +kernel) (by decide +kernel) (by decide)
  · exact .hop primary (by decide) (by decide +kernel) (.here (by decide))

theorem unwinds_fragment_iff_pushed :
    (∃ s', sehUnwindFrame (staticProvider pushedStack.mem) 0x140000000 0x140002000 pushedStack.rsp
        256 () = some (.ok (⟨0x140009999, 0x7FFF0000⟩, s'))) ↔
      (∀ step ∈ pushSteps, fragmentOffset 0x140000000 0x140002000 fragment < step.off.toNat →
        step.op.size = 0) ∧ HoldsAt pushedStack.mem (0x7FFF0000 - 8) (le64 0x140009999) :=
  unwinds_fragment_iff (serves_staticProvider pushedStack.mem) pushedStack_fragment
    (by decide) trivial

/-- At the first byte of the fragment the push is not undone, though the whole prolog has run. -/
theorem not_unwinds_fragment :
    ¬ ∀ {σ : Type} (P : MemoryProvider σ) (Inv : σ → Prop) (base rip : GuestAddr)
      (f : RuntimeFunction) (steps : List OrdinaryStep) (c : Cpu) (caller : Stack)
      (callerRip : GuestAddr), Serves P Inv (leftBy c steps caller callerRip).mem →
      FragmentOf (leftBy c steps caller callerRip).mem base rip f steps →
      HoldsAt (leftBy c steps caller callerRip).mem (caller.rsp - 8) (le64 callerRip) →
      ∀ fuel, 255 < fuel → ∀ s, Inv s →
        ∃ s', sehUnwindFrame P base rip (leftBy c steps caller callerRip).rsp fuel s =
          some (.ok (⟨callerRip, caller.rsp⟩, s')) := by
  intro hall
  have hserves := serves_staticProvider pushedStack.mem
  obtain ⟨s', hfound⟩ := hall _ _ 0x140000000 0x140002000 fragment pushSteps {}
    ⟨0x7FFF0000, fragmentImage⟩ 0x140009999 hserves pushedStack_fragment (by decide +kernel) 256
    (by decide) () trivial
  have hfuel : 255 < 256 := by decide
  obtain ⟨offset, s₁, hoffset, _, hrun⟩ :=
    sehUnwindFrame_fragment hserves pushedStack_fragment hfuel pushedStack.rsp (s := ()) trivial
  obtain ⟨ret, _, _, hframe⟩ := returnAddress_of_found (hrun.symm.trans hfound)
  have hrsp : (0x7FFF0000 : U64) = pushedStack.rsp +
      BitVec.ofNat 64 (growth (undone offset pushSteps)) + 8 :=
    congrArg UnwoundFrame.callerRsp hframe
  have hzero : offset = 0 := BitVec.eq_of_toNat_eq hoffset
  rw [hzero] at hrsp
  exact absurd hrsp (by decide +kernel)

end Host

end PicoCpu
