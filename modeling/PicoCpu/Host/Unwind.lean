import PicoCpu.Cpu
import PicoCpu.Host.FunctionLookup

/-!
`seh_unwind_frame` against the prologs that unwind codes describe: what a prolog does to the stack
up to any of its operations, the walk undoes.
-/

namespace PicoCpu

namespace Host

/-! ### Prologs -/

/-- An operation of a prolog, as an unwind code describes it. `allocLarge` and `allocLargeFar` are
the two forms of ALLOC_LARGE. -/
inductive PrologOp where
  | pushNonvol (reg : BitVec 4)
  | allocSmall (info : BitVec 4)
  | allocLarge (scaled : U16)
  | allocLargeFar (size : U32)
  | saveNonvol (reg : BitVec 4) (slot : U16)
  | saveXmm128 (reg : BitVec 4) (slot : U16)

namespace PrologOp

def opcode : PrologOp → BitVec 4
  | pushNonvol _ => 0
  | allocSmall _ => 2
  | allocLarge _ => 1
  | allocLargeFar _ => 1
  | saveNonvol _ _ => 4
  | saveXmm128 _ _ => 8

def info : PrologOp → BitVec 4
  | pushNonvol reg => reg
  | allocSmall info => info
  | allocLarge _ => 0
  | allocLargeFar _ => 1
  | saveNonvol reg _ => reg
  | saveXmm128 reg _ => reg

/-- The slots after the first one. -/
def extra : PrologOp → List U8
  | pushNonvol _ => []
  | allocSmall _ => []
  | allocLarge scaled => le16 scaled
  | allocLargeFar size => le32 size
  | saveNonvol _ slot => le16 slot
  | saveXmm128 _ slot => le16 slot

def slots : PrologOp → Nat
  | pushNonvol _ => 1
  | allocSmall _ => 1
  | allocLarge _ => 2
  | allocLargeFar _ => 3
  | saveNonvol _ _ => 2
  | saveXmm128 _ _ => 2

/-- The bytes by which the stack grows. -/
def size : PrologOp → Nat
  | pushNonvol _ => 8
  | allocSmall info => 8 * info.toNat + 8
  | allocLarge scaled => 8 * scaled.toNat
  | allocLargeFar size => size.toNat
  | saveNonvol _ _ => 0
  | saveXmm128 _ _ => 0

theorem size_le (op : PrologOp) : op.size ≤ 2 ^ 32 := by
  cases op with
  | pushNonvol reg =>
      rw [size]
      omega
  | allocSmall info =>
      have hinfo := info.isLt
      rw [size]
      omega
  | allocLarge scaled =>
      have hscaled := scaled.isLt
      rw [size]
      omega
  | allocLargeFar size => exact Nat.le_of_lt size.isLt
  | saveNonvol reg slot => exact Nat.zero_le _
  | saveXmm128 reg slot => exact Nat.zero_le _

end PrologOp

/-- An operation and the offset into the function of the instruction after it. -/
structure PrologStep where
  off : U8
  op : PrologOp

namespace PrologStep

/-- The slots of the code: offset, operation and info, then what the operation needs besides. -/
def codes (s : PrologStep) : List U8 := [s.off, s.op.info ++ s.op.opcode] ++ s.op.extra

theorem codes_length (s : PrologStep) : s.codes.length = 2 * s.op.slots := by
  rcases s with ⟨off, op⟩
  cases op with
  | pushNonvol reg => rfl
  | allocSmall info => rfl
  | allocLarge scaled => rfl
  | allocLargeFar size => rfl
  | saveNonvol reg slot => rfl
  | saveXmm128 reg slot => rfl

end PrologStep

/-- The stack pointer and the memory. -/
structure Stack where
  rsp : U64
  mem : ByteMap

/-- `push`, also of a return address. -/
def Stack.push (s : Stack) (v : U64) : Stack :=
  { rsp := s.rsp - 8, mem := store s.mem (s.rsp - 8) (le64 v) }

/-- What the operation does. Saves go to the frame, whose lowest address is `frame`. -/
def PrologOp.run (c : Cpu) (frame : GuestAddr) : PrologOp → Stack → Stack
  | .pushNonvol reg, s => s.push (c.r reg.toNat)
  | .allocSmall info, s => { s with rsp := s.rsp - (8 * info.setWidth 64 + 8) }
  | .allocLarge scaled, s => { s with rsp := s.rsp - 8 * scaled.setWidth 64 }
  | .allocLargeFar size, s => { s with rsp := s.rsp - size.setWidth 64 }
  | .saveNonvol reg slot, s =>
    { s with mem := store s.mem (frame + 8 * slot.setWidth 64) (le64 (c.r reg.toNat)) }
  | .saveXmm128 reg slot, s =>
    let value := List.ofFn fun i : Fin 16 => c.zmm reg.toNat i
    { s with mem := store s.mem (frame + 16 * slot.setWidth 64) value }

/-- The bytes by which the stack grows over the operations. -/
def depth (steps : List PrologStep) : Nat := (steps.map fun s => s.op.size).sum

/-- The saved value does not lie over the return address, which is `depth` bytes above the frame. -/
def PrologOp.SavesApart (depth : Nat) : PrologOp → Prop
  | .saveNonvol _ slot => 8 * slot.toNat + 8 ≤ depth ∨ depth + 8 ≤ 8 * slot.toNat
  | .saveXmm128 _ slot => 16 * slot.toNat + 16 ≤ depth ∨ depth + 8 ≤ 16 * slot.toNat
  | _ => True

/-- The slots of the codes of the operations. -/
def slotCount (steps : List PrologStep) : Nat := (steps.map fun s => s.op.slots).sum

/-- A prolog with at most 250 slots of codes. -/
structure Prolog where
  steps : List PrologStep
  slots_le : slotCount steps ≤ 250

namespace Prolog

/-- The unwind codes, newest operation first. -/
def codes (p : Prolog) : List U8 := p.steps.reverse.flatMap PrologStep.codes

/-- The first `k` operations, from a call on. -/
def runTo (p : Prolog) (c : Cpu) (k : Nat) (s : Stack) : Stack :=
  (p.steps.take k).foldl
    (fun t step => step.op.run c (s.rsp - BitVec.ofNat 64 (depth p.steps)) t) s

end Prolog

/-! ### The walk -/

theorem nibbles (op info : BitVec 4) :
    (info ++ op : U8).setWidth 4 = op ∧ ((info ++ op : U8) >>> 4).setWidth 4 = info := by
  revert op info
  decide +kernel

theorem unwindOpSize_eq (op : PrologOp) :
    (unwindOpSize op.opcode op.info).toNat = op.slots ∧ 1 ≤ op.slots := by
  cases op with
  | pushNonvol reg => exact ⟨rfl, Nat.le_refl 1⟩
  | allocSmall info => exact ⟨rfl, Nat.le_refl 1⟩
  | allocLarge scaled => exact ⟨rfl, Nat.le_add_left 1 1⟩
  | allocLargeFar size => exact ⟨rfl, Nat.le_add_left 1 2⟩
  | saveNonvol reg slot => exact ⟨rfl, Nat.le_add_left 1 1⟩
  | saveXmm128 reg slot => exact ⟨rfl, Nat.le_add_left 1 1⟩

section Walk

variable {σ : Type} {P : MemoryProvider σ} {Inv : σ → Prop} {m : ByteMap}

theorem returns_undoCode (hP : Serves P Inv m) (op : PrologOp) {extra : GuestAddr}
    (hm : HoldsAt m extra op.extra) (rsp : U64) :
    Returns Inv (undoCode P op.opcode op.info extra rsp) fun r =>
      r = rsp + BitVec.ofNat 64 op.size := by
  cases op with
  | pushNonvol reg => exact returns_pure rfl
  | allocSmall info =>
      refine returns_pure ?_
      have hinfo := info.isLt
      have height : BitVec.toNat (8 : U64) = 8 := rfl
      apply BitVec.eq_of_toNat_eq
      simp only [PrologOp.info, PrologOp.size, BitVec.toNat_add, BitVec.toNat_mul,
        BitVec.toNat_setWidth, BitVec.toNat_ofNat, height]
      omega
  | allocLarge scaled =>
      refine returns_bind (returns_readBytes hP hm rfl) fun b hb => ?_
      rw [u16At_le16 hb]
      refine returns_pure ?_
      have hscaled := scaled.isLt
      have height : BitVec.toNat (8 : U32) = 8 := rfl
      apply BitVec.eq_of_toNat_eq
      simp only [PrologOp.size, BitVec.toNat_add, BitVec.toNat_mul,
        BitVec.toNat_setWidth, BitVec.toNat_ofNat, height]
      omega
  | allocLargeFar size =>
      refine returns_bind (returns_readBytes hP hm rfl) fun b hb => ?_
      rw [u32At_le32 hb]
      refine returns_pure ?_
      rw [PrologOp.size, BitVec.ofNat_toNat]
  | saveNonvol reg slot => exact returns_pure (by rw [PrologOp.size]; exact (BitVec.add_zero rsp).symm)
  | saveXmm128 reg slot => exact returns_pure (by rw [PrologOp.size]; exact (BitVec.add_zero rsp).symm)

/-- The operations that have run by an offset. -/
def applied (offset : U32) (steps : List PrologStep) : List PrologStep :=
  steps.filter fun s => (s.off.setWidth 32).ule offset

theorem depth_cons (s : PrologStep) (steps : List PrologStep) :
    depth (s :: steps) = s.op.size + depth steps := rfl

/-- From the slot at which the codes of `rest` begin, the walk takes back what those of them that
have run have pushed. -/
theorem returns_undoCodes (hP : Serves P Inv m) {codes : GuestAddr} {count : U8} {offset : U32}
    (hcount : count.toNat ≤ 250) (rest : List PrologStep) (idx : U8) {rsp : U64} {fuel : Nat}
    (hidx : idx.toNat + slotCount rest = count.toNat)
    (hm : HoldsAt m (codes + BitVec.ofNat 64 (2 * idx.toNat)) (rest.flatMap PrologStep.codes))
    (hfuel : rest.length < fuel) :
    Returns Inv (undoCodes P codes count offset fuel idx rsp) fun r =>
      r = rsp + BitVec.ofNat 64 (depth (applied offset rest)) := by
  induction rest generalizing idx rsp fuel with
  | nil =>
      obtain ⟨fuel, rfl⟩ := Nat.exists_eq_add_of_lt hfuel
      have hend : ¬ idx.ult count = true := by
        rw [BitVec.ult, decide_eq_true_eq]
        have hsum : idx.toNat + 0 = count.toNat := hidx
        omega
      rw [undoCodes, if_neg hend]
      exact returns_pure (BitVec.add_zero rsp).symm
  | cons s rest ih =>
      obtain ⟨fuel, rfl⟩ := Nat.exists_eq_add_of_lt hfuel
      obtain ⟨hsize, hpos⟩ := unwindOpSize_eq s.op
      have hsum : idx.toNat + (s.op.slots + slotCount rest) = count.toNat := hidx
      have hmore : idx.ult count = true := by
        rw [BitVec.ult, decide_eq_true_eq]
        omega
      have hnext : (idx + unwindOpSize s.op.opcode s.op.info).toNat = idx.toNat + s.op.slots := by
        rw [BitVec.toNat_add, hsize]
        omega
      rw [List.flatMap_cons] at hm
      obtain ⟨hcode, hrest⟩ := holdsAt_append.mp hm
      rw [s.codes_length, BitVec.add_assoc, ← BitVec.ofNat_add, ← Nat.mul_add, ← hnext] at hrest
      obtain ⟨hfirst, hextra⟩ := holdsAt_append.mp hcode
      rw [BitVec.add_assoc, ← BitVec.ofNat_add] at hextra
      rw [undoCodes, if_pos hmore]
      refine returns_bind (returns_readBytes hP hfirst rfl) fun code hbytes => ?_
      have hoff : code 0 = s.off := hbytes 0 Nat.zero_lt_two
      have hbyte : code 1 = s.op.info ++ s.op.opcode := hbytes 1 Nat.one_lt_two
      obtain ⟨hop, hinfo⟩ := nibbles s.op.opcode s.op.info
      simp only [hoff, hbyte, hop, hinfo]
      by_cases hran : (s.off.setWidth 32).ule offset = true
      · have happlied : applied offset (s :: rest) = s :: applied offset rest := by
          rw [applied, List.filter_cons, if_pos hran, applied]
        rw [if_pos hran, happlied, depth_cons, BitVec.ofNat_add, ← BitVec.add_assoc]
        refine returns_bind (returns_undoCode hP s.op hextra rsp) fun r hr => ?_
        subst hr
        exact ih _ (by omega) hrest (by simp; omega)
      · have hskipped : applied offset (s :: rest) = applied offset rest := by
          rw [applied, List.filter_cons, if_neg hran, applied]
        rw [if_neg hran, hskipped]
        exact ih _ (by omega) hrest (by simp; omega)

end Walk

/-! ### What a prolog leaves -/

theorem store_self {m : ByteMap} {a : GuestAddr} {bs : List U8} (h : bs.length < 2 ^ 64) :
    HoldsAt (store m a bs) a bs := by
  intro i hi
  have hoff : (a + BitVec.ofNat 64 i - a).toNat = i := by
    rw [BitVec.add_comm, BitVec.add_sub_cancel, BitVec.toNat_ofNat]
    exact Nat.mod_eq_of_lt (by omega)
  simp only [store, hoff, dif_pos hi]

theorem store_apart {m : ByteMap} {a b : GuestAddr} {bs bs' : List U8} (h : HoldsAt m a bs)
    (hapart : ∀ i < bs.length, bs'.length ≤ (a + BitVec.ofNat 64 i - b).toNat) :
    HoldsAt (store m b bs') a bs := by
  intro i hi
  rw [store, dif_neg (Nat.not_lt_of_le (hapart i hi))]
  exact h i hi

theorem run_rsp (c : Cpu) (frame : GuestAddr) (op : PrologOp) (t : Stack) :
    (op.run c frame t).rsp = t.rsp - BitVec.ofNat 64 op.size := by
  cases op with
  | pushNonvol reg => rfl
  | allocSmall info =>
      have hsize : 8 * info.setWidth 64 + 8 = BitVec.ofNat 64 (8 * info.toNat + 8) := by
        rw [BitVec.ofNat_add, BitVec.ofNat_mul, BitVec.ofNat_toNat]
        rfl
      rw [PrologOp.run, PrologOp.size, hsize]
  | allocLarge scaled =>
      have hsize : 8 * scaled.setWidth 64 = BitVec.ofNat 64 (8 * scaled.toNat) := by
        rw [BitVec.ofNat_mul, BitVec.ofNat_toNat]
        rfl
      rw [PrologOp.run, PrologOp.size, hsize]
  | allocLargeFar size => rw [PrologOp.run, PrologOp.size, BitVec.ofNat_toNat]
  | saveNonvol reg slot => exact (BitVec.sub_zero t.rsp).symm
  | saveXmm128 reg slot => exact (BitVec.sub_zero t.rsp).symm

/-- An operation leaves the return address alone. -/
theorem run_keeps (c : Cpu) {entry : GuestAddr} {total below : Nat} {op : PrologOp} {t : Stack}
    {ret : U64} (hrsp : t.rsp = entry - BitVec.ofNat 64 below) (htotal : total < 2 ^ 48)
    (hbelow : below < 2 ^ 48) (hop : op.SavesApart total) (hret : HoldsAt t.mem entry (le64 ret)) :
    HoldsAt (op.run c (entry - BitVec.ofNat 64 total) t).mem entry (le64 ret) := by
  cases op with
  | pushNonvol reg =>
      refine store_apart hret fun i hi => ?_
      rw [le64_length] at hi ⊢
      have height : BitVec.toNat (8 : U64) = 8 := rfl
      rw [hrsp]
      simp only [BitVec.toNat_sub, BitVec.toNat_add, BitVec.toNat_ofNat, height]
      omega
  | allocSmall info => exact hret
  | allocLarge scaled => exact hret
  | allocLargeFar size => exact hret
  | saveNonvol reg slot =>
      refine store_apart hret fun i hi => ?_
      rw [le64_length] at hi ⊢
      have hslot := slot.isLt
      have height : BitVec.toNat (8 : U64) = 8 := rfl
      have hapart : 8 * slot.toNat + 8 ≤ total ∨ total + 8 ≤ 8 * slot.toNat := hop
      simp only [BitVec.toNat_sub, BitVec.toNat_add, BitVec.toNat_mul, BitVec.toNat_ofNat,
        BitVec.toNat_setWidth, height]
      omega
  | saveXmm128 reg slot =>
      refine store_apart hret fun i hi => ?_
      rw [le64_length] at hi
      rw [List.length_ofFn]
      have hslot := slot.isLt
      have hsixteen : BitVec.toNat (16 : U64) = 16 := rfl
      have hapart : 16 * slot.toNat + 16 ≤ total ∨ total + 8 ≤ 16 * slot.toNat := hop
      simp only [BitVec.toNat_sub, BitVec.toNat_add, BitVec.toNat_mul, BitVec.toNat_ofNat,
        BitVec.toNat_setWidth, hsixteen]
      omega

theorem depth_append (steps steps' : List PrologStep) :
    depth (steps ++ steps') = depth steps + depth steps' := by
  rw [depth, List.map_append, List.sum_append, depth, depth]

theorem depth_reverse (steps : List PrologStep) : depth steps.reverse = depth steps := by
  rw [depth, List.map_reverse, List.sum_reverse, depth]

theorem slotCount_reverse (steps : List PrologStep) :
    slotCount steps.reverse = slotCount steps := by
  rw [slotCount, List.map_reverse, List.sum_reverse, slotCount]

theorem length_le_slotCount (steps : List PrologStep) : steps.length ≤ slotCount steps := by
  induction steps with
  | nil => exact Nat.le_refl 0
  | cons s steps ih =>
      have hpos := (unwindOpSize_eq s.op).2
      have hcount : slotCount (s :: steps) = s.op.slots + slotCount steps := rfl
      rw [hcount, List.length_cons]
      omega

theorem depth_le (steps : List PrologStep) : depth steps ≤ slotCount steps * 2 ^ 32 := by
  induction steps with
  | nil => exact Nat.zero_le _
  | cons s steps ih =>
      have hsize := s.op.size_le
      have hpos := (unwindOpSize_eq s.op).2
      have hcount : slotCount (s :: steps) = s.op.slots + slotCount steps := rfl
      rw [depth_cons, hcount]
      omega

theorem foldl_rsp (c : Cpu) (frame : GuestAddr) (steps : List PrologStep) (t : Stack) :
    (steps.foldl (fun t s => s.op.run c frame t) t).rsp =
      t.rsp - BitVec.ofNat 64 (depth steps) := by
  induction steps generalizing t with
  | nil => exact (BitVec.sub_zero t.rsp).symm
  | cons s steps ih =>
      rw [List.foldl_cons, ih, run_rsp, depth_cons, BitVec.ofNat_add, BitVec.sub_sub]

/-- Operations that do not save over the return address leave it there. -/
theorem foldl_keeps (c : Cpu) {entry : GuestAddr} {total : Nat} {ret : U64}
    (htotal : total < 2 ^ 40) (steps : List PrologStep)
    (hsteps : ∀ s ∈ steps, s.op.SavesApart total) (below : Nat) {t : Stack}
    (hbelow : below + depth steps < 2 ^ 41) (hrsp : t.rsp = entry - BitVec.ofNat 64 below)
    (hret : HoldsAt t.mem entry (le64 ret)) :
    HoldsAt (steps.foldl (fun t s => s.op.run c (entry - BitVec.ofNat 64 total) t) t).mem entry
      (le64 ret) := by
  induction steps generalizing below t with
  | nil => exact hret
  | cons s steps ih =>
      rw [depth_cons] at hbelow
      have hkeeps := run_keeps c hrsp (by omega) (by omega) (hsteps s (List.mem_cons_self ..)) hret
      have hmoved : (s.op.run c (entry - BitVec.ofNat 64 total) t).rsp =
          entry - BitVec.ofNat 64 (below + s.op.size) := by
        rw [run_rsp, hrsp, BitVec.ofNat_add, BitVec.sub_sub]
      exact ih (fun s' hs' => hsteps s' (List.mem_cons_of_mem _ hs')) _ (by omega) hmoved hkeeps

/-- The codes that apply are those of the operations that have run. -/
theorem depth_applied {offset : U32} {steps : List PrologStep} {k : Nat}
    (hran : ∀ s ∈ steps.take k, s.off.toNat ≤ offset.toNat)
    (hleft : ∀ s ∈ steps.drop k, offset.toNat < s.off.toNat) :
    depth (applied offset steps.reverse) = depth (steps.take k) := by
  have happlies (s : PrologStep) :
      (s.off.setWidth 32).ule offset = decide (s.off.toNat ≤ offset.toNat) := by
    have hoff := s.off.isLt
    rw [BitVec.ule, BitVec.toNat_setWidth, Nat.mod_eq_of_lt (by omega)]
  have htake : applied offset (steps.take k) = steps.take k := by
    rw [applied, List.filter_eq_self]
    intro s hs
    rw [happlies, decide_eq_true_eq]
    exact hran s hs
  have hdrop : applied offset (steps.drop k) = [] := by
    rw [applied, List.filter_eq_nil_iff]
    intro s hs
    rw [happlies, decide_eq_true_eq]
    exact Nat.not_le_of_lt (hleft s hs)
  have hsplit : applied offset steps = steps.take k := by
    rw [← List.take_append_drop k steps, applied, List.filter_append]
    rw [applied] at htake hdrop
    rw [htake, hdrop, List.append_nil, List.take_append_drop]
  rw [applied, List.filter_reverse, depth_reverse, ← applied, hsplit]

/-! ### The round trip -/

/-- The image in memory has the function `f`, and `rip` is in it. -/
structure InFunction (m : ByteMap) (base rip : GuestAddr) (f : RuntimeFunction) : Prop where
  image : ∃ lfanew dir fns, ImageAt m base lfanew dir fns ∧ f ∈ fns
  base_le : base.toNat ≤ rip.toNat
  begin_le : f.beginRva.toNat ≤ rip.toNat - base.toNat
  lt_end : rip.toNat - base.toNat < f.endRva.toNat

/-- The unwind info of the function is not chained and has the codes of the prolog. -/
structure Describes (m : ByteMap) (base : GuestAddr) (f : RuntimeFunction) (p : Prolog) :
    Prop where
  unchained : f.unwindRva &&& 1 = 0
  info : ∃ version size frame, HoldsAt m (base + f.unwindRva.setWidth 64)
    ([version, size, BitVec.ofNat 8 (slotCount p.steps), frame] ++ p.codes)

/-- Of the prolog's operations, `rip` is past the first `k` and no others. -/
structure PastPrefix (base rip : GuestAddr) (f : RuntimeFunction) (p : Prolog) (k : Nat) :
    Prop where
  ran : ∀ s ∈ p.steps.take k, s.off.toNat ≤ rip.toNat - base.toNat - f.beginRva.toNat
  left : ∀ s ∈ p.steps.drop k, rip.toNat - base.toNat - f.beginRva.toNat < s.off.toNat

/-- The stack in the function: the caller has called it, and the first `k` operations have run. -/
def stackAt (c : Cpu) (p : Prolog) (k : Nat) (caller : Stack) (callerRip : GuestAddr) : Stack :=
  p.runTo c k (caller.push callerRip)

theorem stackAt_rsp (c : Cpu) (p : Prolog) (k : Nat) (caller : Stack) (callerRip : GuestAddr) :
    (stackAt c p k caller callerRip).rsp =
      caller.rsp - 8 - BitVec.ofNat 64 (depth (p.steps.take k)) :=
  foldl_rsp c _ _ _

theorem stackAt_ret (c : Cpu) (p : Prolog) (k : Nat) (caller : Stack) (callerRip : GuestAddr)
    (hsaves : ∀ s ∈ p.steps.take k, s.op.SavesApart (depth p.steps)) :
    HoldsAt (stackAt c p k caller callerRip).mem (caller.rsp - 8) (le64 callerRip) := by
  have hle := depth_le p.steps
  have hslots := p.slots_le
  have hsplit : depth (p.steps.take k) + depth (p.steps.drop k) = depth p.steps := by
    rw [← depth_append, List.take_append_drop]
  exact foldl_keeps c (by omega) (p.steps.take k) hsaves 0 (by omega) (BitVec.sub_zero _).symm
    (store_self (by rw [le64_length]; decide))

section Walked

variable {σ : Type} {P : MemoryProvider σ} {Inv : σ → Prop} {base rip : GuestAddr}
  {f : RuntimeFunction} {p : Prolog} {k : Nat} {m : ByteMap}

/-- From anywhere past a prefix of the prolog, the walk reads what lies where the return address
has been pushed. -/
theorem returns_sehUnwindFrame (hP : Serves P Inv m) (hrip : InFunction m base rip f)
    (hinfo : Describes m base f p) (hpast : PastPrefix base rip f p k) {entry ret : U64}
    (hret : HoldsAt m entry (le64 ret)) {fuel : Nat} (hfuel : 250 < fuel) :
    Returns Inv (sehUnwindFrame P base rip (entry - BitVec.ofNat 64 (depth (p.steps.take k))) fuel)
      fun r => r = ⟨ret, entry + 8⟩ := by
  obtain ⟨lfanew, dir, fns, himage, hf⟩ := hrip.image
  obtain ⟨j, hj, rfl⟩ := List.getElem_of_mem hf
  obtain ⟨version, size, frame, hbytes⟩ := hinfo.info
  obtain ⟨hheader, hcodes⟩ := holdsAt_append.mp hbytes
  have hslots := p.slots_le
  unfold sehUnwindFrame
  refine returns_bind (returns_pdataLookup hP himage hj hrip.base_le hrip.begin_le hrip.lt_end)
    fun rf hrf => ?_
  subst hrf
  rw [followChain, if_pos hinfo.unchained]
  refine returns_bind (returns_pure rfl) fun ui hui => ?_
  subst hui
  refine returns_bind (returns_readBytes hP hheader rfl) fun header hstart => ?_
  have hcount : header 2 = BitVec.ofNat 8 (slotCount p.steps) := hstart 2 (by simp)
  have hcountNat : (header 2).toNat = slotCount p.steps := by
    rw [hcount, BitVec.toNat_ofNat]
    omega
  obtain ⟨offset, hoffset⟩ : ∃ offset : U32,
      offset = (rip - (base + fns[j].beginRva.setWidth 64)).setWidth 32 := ⟨_, rfl⟩
  have hoffsetNat : offset.toNat = rip.toNat - base.toNat - fns[j].beginRva.toNat := by
    have hbase := hrip.base_le
    have hbegin := hrip.begin_le
    have hend := hrip.lt_end
    have hrange := fns[j].endRva.isLt
    have hripLt := rip.isLt
    rw [hoffset, BitVec.toNat_setWidth, BitVec.toNat_sub, BitVec.toNat_add, BitVec.toNat_setWidth]
    omega
  have happlied : depth (applied offset p.steps.reverse) = depth (p.steps.take k) :=
    depth_applied (fun s hs => hoffsetNat ▸ hpast.ran s hs)
      fun s hs => hoffsetNat ▸ hpast.left s hs
  simp only [← hoffset]
  refine returns_bind (returns_undoCodes hP (by omega) p.steps.reverse 0 ?_ ?_ ?_)
    fun r hr => ?_
  · rw [hcountNat, slotCount_reverse]
    exact Nat.zero_add _
  · have hzero : BitVec.ofNat 64 (2 * BitVec.toNat (0 : U8)) = 0#64 := rfl
    rw [hzero, BitVec.add_zero]
    exact hcodes
  · rw [List.length_reverse]
    exact (length_le_slotCount p.steps).trans_lt (by omega)
  · rw [happlied, BitVec.sub_add_cancel] at hr
    subst hr
    refine returns_bind (returns_readBytes hP hret rfl) fun buf hbuf => ?_
    rw [u64At_le64 hbuf]
    exact returns_pure rfl

end Walked

/-- From anywhere past a prefix of the prolog whose saves leave the return address alone, the walk
finds the caller's frame. -/
theorem unwind_inverts {σ : Type} (P : MemoryProvider σ) (Inv : σ → Prop) (base rip : GuestAddr)
    (f : RuntimeFunction) (p : Prolog) (k : Nat) (c : Cpu) (caller : Stack) (callerRip : GuestAddr)
    (hP : Serves P Inv (stackAt c p k caller callerRip).mem)
    (hrip : InFunction (stackAt c p k caller callerRip).mem base rip f)
    (hinfo : Describes (stackAt c p k caller callerRip).mem base f p)
    (hpast : PastPrefix base rip f p k)
    (hsaves : ∀ s ∈ p.steps.take k, s.op.SavesApart (depth p.steps))
    (fuel : Nat) (hfuel : 250 < fuel) :
    Returns Inv (sehUnwindFrame P base rip (stackAt c p k caller callerRip).rsp fuel)
      fun r => r = ⟨callerRip, caller.rsp⟩ := by
  have hwalk := returns_sehUnwindFrame hP hrip hinfo hpast
    (stackAt_ret c p k caller callerRip hsaves) hfuel
  rw [BitVec.sub_add_cancel, ← stackAt_rsp c p k caller callerRip] at hwalk
  exact hwalk

/-! ### An image -/

/-- An image at 140000000 with one function, which has this prolog. -/
def imageWith (p : Prolog) : ByteMap :=
  let parts : List (GuestAddr × List U8) :=
    [(0x140000000, [0x4D, 0x5A]), (0x14000003C, le32 0x80),
     (0x140000080, [0x50, 0x45, 0, 0] ++ le16 0x8664), (0x140000120, le32 0x1000 ++ le32 12),
     (0x140001000, le32 0x2000 ++ le32 0x2100 ++ le32 0x3000),
     (0x140003000, [1, 10, BitVec.ofNat 8 (slotCount p.steps), 0] ++ p.codes)]
  parts.foldl (fun m part => store m part.1 part.2) fun _ => none

def onlyFunction : RuntimeFunction := ⟨0x2000, 0x2100, 0x3000⟩

/-- What the memory holds of that image, apart from the codes. -/
def HoldsHeaders (m : ByteMap) : Prop :=
  HoldsAt m 0x140000000 [0x4D, 0x5A] ∧ HoldsAt m 0x14000003C (le32 0x80) ∧
    HoldsAt m 0x140000080 [0x50, 0x45, 0, 0] ∧ HoldsAt m 0x140000084 (le16 0x8664) ∧
      HoldsAt m 0x140000120 (le32 0x1000 ++ le32 12) ∧ HoldsAt m 0x140001000 onlyFunction.bytes

instance (m : ByteMap) : Decidable (HoldsHeaders m) := inferInstanceAs (Decidable (_ ∧ _))

/-- Whatever the one record of that image is. -/
theorem inFunction_of_record {m : ByteMap} {f : RuntimeFunction}
    (hmz : HoldsAt m 0x140000000 [0x4D, 0x5A]) (hlfanew : HoldsAt m 0x14000003C (le32 0x80))
    (hsignature : HoldsAt m 0x140000080 [0x50, 0x45, 0, 0])
    (hmachine : HoldsAt m 0x140000084 (le16 0x8664))
    (hdirectory : HoldsAt m 0x140000120 (le32 0x1000 ++ le32 12))
    (hrecord : HoldsAt m 0x140001000 f.bytes) {rip : GuestAddr}
    (hrip : 0x140000000 + f.beginRva.toNat ≤ rip.toNat ∧
      rip.toNat < 0x140000000 + f.endRva.toNat) : InFunction m 0x140000000 rip f := by
  have hbase : (0x140000000 : GuestAddr).toNat = 0x140000000 := rfl
  refine ⟨⟨0x80, ⟨0x1000, 12⟩, [f], ?_, List.mem_singleton_self _⟩, ?_, ?_, ?_⟩
  · refine ⟨hmz, hlfanew, hsignature, hmachine, hdirectory, rfl, ?_, ?_,
      List.pairwise_singleton _ _⟩
    · intro j hj
      obtain rfl : j = 0 := Nat.lt_one_iff.mp hj
      exact hrecord
    · intro g hg
      rw [List.mem_singleton.mp hg]
      omega
  · omega
  · omega
  · omega

theorem inFunction_of_headers {m : ByteMap} (h : HoldsHeaders m) {rip : GuestAddr}
    (hrip : 0x140002000 ≤ rip.toNat ∧ rip.toNat < 0x140002100) :
    InFunction m 0x140000000 rip onlyFunction := by
  obtain ⟨hmz, hlfanew, hsignature, hmachine, hdirectory, hrecord⟩ := h
  exact inFunction_of_record hmz hlfanew hsignature hmachine hdirectory hrecord hrip

/-- `push rbx`, `sub rsp, 32`, and `mov [rsp+48], rsi` into the home area. -/
def smallProlog : Prolog where
  steps := [⟨1, .pushNonvol 3⟩, ⟨5, .allocSmall 3⟩, ⟨10, .saveNonvol 6 6⟩]
  slots_le := by decide

/-- The stack after the whole of it. -/
def smallStack : Stack := stackAt {} smallProlog 3 ⟨0x7FFF0000, imageWith smallProlog⟩ 0x140009999

theorem unwind_inverts_small :
    Returns (fun _ => True)
      (sehUnwindFrame (staticProvider smallStack.mem) 0x140000000 0x14000200A smallStack.rsp 251)
      fun r => r = ⟨0x140009999, 0x7FFF0000⟩ := by
  refine unwind_inverts (staticProvider smallStack.mem) (fun _ => True) 0x140000000 0x14000200A
    onlyFunction smallProlog 3 {} ⟨0x7FFF0000, imageWith smallProlog⟩ 0x140009999
    (serves_staticProvider _) (inFunction_of_headers (by decide +kernel) (by decide)) ?_ ?_ ?_ 251
    (by decide)
  · exact ⟨by decide, 1, 10, 0, by decide +kernel⟩
  · exact ⟨by decide, by decide⟩
  · intro s hs
    have hcases : s = ⟨1, .pushNonvol 3⟩ ∨ s = ⟨5, .allocSmall 3⟩ ∨ s = ⟨10, .saveNonvol 6 6⟩ := by
      simpa [smallProlog] using hs
    rcases hcases with rfl | rfl | rfl
    · trivial
    · trivial
    · exact .inr (by decide)

/-- `mov [rsp], rbx`, over the return address. -/
def clobberingProlog : Prolog where
  steps := [⟨4, .saveNonvol 3 0⟩]
  slots_le := by decide

def clobberedStack : Stack :=
  stackAt {} clobberingProlog 1 ⟨0x7FFF0000, imageWith clobberingProlog⟩ 0x140009999

/-- A save over the return address makes the walk return the saved register. -/
theorem not_unwind_inverts_clobbering :
    ¬ ∀ {σ : Type} (P : MemoryProvider σ) (Inv : σ → Prop) (base rip : GuestAddr)
      (f : RuntimeFunction) (p : Prolog) (k : Nat) (c : Cpu) (caller : Stack)
      (callerRip : GuestAddr), Serves P Inv (stackAt c p k caller callerRip).mem →
      InFunction (stackAt c p k caller callerRip).mem base rip f →
      Describes (stackAt c p k caller callerRip).mem base f p → PastPrefix base rip f p k →
      ∀ fuel, 250 < fuel →
        Returns Inv (sehUnwindFrame P base rip (stackAt c p k caller callerRip).rsp fuel)
          fun r => r = ⟨callerRip, caller.rsp⟩ := by
  intro hall
  have hserves := serves_staticProvider clobberedStack.mem
  have hrip : InFunction clobberedStack.mem 0x140000000 0x140002004 onlyFunction :=
    inFunction_of_headers (by decide +kernel) (by decide)
  have hinfo : Describes clobberedStack.mem 0x140000000 onlyFunction clobberingProlog :=
    ⟨by decide, 1, 10, 0, by decide +kernel⟩
  have hpast : PastPrefix 0x140000000 0x140002004 onlyFunction clobberingProlog 1 :=
    ⟨by decide, by decide⟩
  obtain ⟨r, _, hrun, _, hr⟩ := hall _ _ _ _ _ _ 1 {} ⟨0x7FFF0000, imageWith clobberingProlog⟩
    0x140009999 hserves hrip hinfo hpast 251 (by decide) () trivial
  have hsaved : HoldsAt clobberedStack.mem 0x7FFEFFF8 (le64 0) := by decide +kernel
  have hfuel : 250 < 251 := by decide
  obtain ⟨r', _, hrun', _, hr'⟩ := returns_sehUnwindFrame hserves hrip hinfo hpast hsaved hfuel
    () trivial
  have hsame : r = r' :=
    congrArg Prod.fst (Except.ok.inj (Option.some.inj (hrun.symm.trans hrun')))
  have hdiff : (⟨0x140009999, 0x7FFF0000⟩ : UnwoundFrame) ≠ ⟨0, 0x7FFEFFF8 + 8⟩ := by decide
  exact hdiff (hr.symm.trans (hsame.trans hr'))

end Host

end PicoCpu
