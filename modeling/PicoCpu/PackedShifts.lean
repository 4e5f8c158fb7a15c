import PicoCpu.EvexMasking
import PicoCpu.VectorRuns
import PicoCpu.Lib.ShiftCounts

/-!
The packed shifts with a count in a register or in memory: the handlers take its lowest byte, and
nothing of a count in memory.
-/

namespace PicoCpu

open H Proc Handlers ShiftCounts

/-- The instructions with their direction and element size. -/
def packedShifts : List (Handler × Direction × Nat) :=
  [(.opPsllw, .left, 2), (.opPslld, .left, 4), (.opPsllq, .left, 8),
   (.opPsrlw, .right, 2), (.opPsrld, .right, 4), (.opPsrlq, .right, 8),
   (.opPsraw, .arith, 2), (.opPsrad, .arith, 4)]

/-- The low quadword of the count operand. -/
def quadCount (b : Buf) : Nat := (b.element 8 0).toNat

/-- What the handlers take of it. -/
def Insn.countTaken (i : Insn) (b : Buf) : Nat :=
  if i.src.kind = .xmm then quadCount b % 256 else 0

/-- Every element is shifted by the whole count. -/
def PackedShiftLaw (d : Direction) (size : Nat) (v : Buf) (count : Nat) (r : Buf) : Prop :=
  ∀ e < 16 / size, r.element size e = d.shiftBy (v.element size e) count

/-- A shift of an element in its host type, which is at least an `int`, as the loops make it. -/
def hostLane (d : Direction) {n : Nat} (v : BitVec n) (k : Nat) : Option (BitVec n) :=
  match d with
  | .left => if n ≤ k then some 0 else (hostShl (v.setWidth (max 32 n)) k).map (·.setWidth n)
  | .right => if n ≤ k then some 0 else (hostShr (v.setWidth (max 32 n)) k).map (·.setWidth n)
  | .arith =>
    (hostSar (v.signExtend (max 32 n)) (if n ≤ k then n - 1 else k)).map (·.setWidth n)

/-! ### Lanes -/

section Lanes

variable {n : Nat} (v : BitVec n) (k : Nat)

/-- A count of the width or more leaves what the largest smaller one does. -/
theorem sshiftRight_cutOff : v.sshiftRight (if n ≤ k then n - 1 else k) = v.sshiftRight k := by
  split
  next hk =>
    by_cases hlast : n - 1 < k
    · apply (Direction.shift_eq_iff_emptied .arith v hlast).mpr
      intro p hp hp'
      have hmsb : v.getLsbD (n - 1) = v.msb := BitVec.msb_eq_getLsbD_last v |>.symm
      have hpos : p = n - 1 := by omega
      rw [Direction.place, hpos, hmsb]
      rfl
    · have hzero : n - 1 = k := by omega
      rw [hzero]
  next => rfl

/-- The host's shifts are defined and give the shifted element. -/
theorem hostLane_eq (hn : 0 < n) (d : Direction) : hostLane d v k = some (d.shiftBy v k) := by
  have hmax : n ≤ max 32 n := Nat.le_max_right ..
  cases d with
  | left =>
      by_cases hk : n ≤ k
      · rw [hostLane, if_pos hk, Direction.shiftBy, if_pos hk]
        rfl
      · rw [hostLane, if_neg hk, hostShl_of_lt _ (by omega), Direction.shiftBy, if_neg hk]
        refine congrArg some (BitVec.eq_of_getLsbD_eq fun j hj => ?_)
        rw [BitVec.getLsbD_setWidth, BitVec.getLsbD_shiftLeft, BitVec.getLsbD_setWidth,
          Direction.shift, BitVec.getLsbD_shiftLeft, decide_eq_true hj,
          decide_eq_true (hj.trans_le hmax),
          decide_eq_true (((Nat.sub_le j k).trans_lt hj).trans_le hmax)]
        rfl
  | right =>
      by_cases hk : n ≤ k
      · rw [hostLane, if_pos hk, Direction.shiftBy, if_pos hk]
        rfl
      · rw [hostLane, if_neg hk, hostShr_of_lt _ (by omega), Direction.shiftBy, if_neg hk]
        refine congrArg some (BitVec.eq_of_getLsbD_eq fun j hj => ?_)
        rw [BitVec.getLsbD_setWidth, BitVec.getLsbD_ushiftRight, BitVec.getLsbD_setWidth,
          Direction.shift, BitVec.getLsbD_ushiftRight, decide_eq_true hj, Bool.true_and]
        by_cases hin : k + j < max 32 n
        · rw [decide_eq_true hin, Bool.true_and]
        · rw [BitVec.getLsbD_of_ge v _ (by omega), Bool.and_false]
  | arith =>
      have hcount : (if n ≤ k then n - 1 else k) < n := by split <;> omega
      have hshift : Direction.arith.shift v k = v.sshiftRight (if n ≤ k then n - 1 else k) :=
        (sshiftRight_cutOff v k).symm
      rw [hostLane, Direction.shiftBy_eq, hshift]
      generalize (if n ≤ k then n - 1 else k) = m at hcount ⊢
      rw [hostSar_of_lt _ (hcount.trans_le hmax)]
      exact congrArg some (setWidth_sshiftRight_signExtend v m hmax)

end Lanes

/-! ### The instructions -/

/-- A buffer operation that shifts each element in its host type. -/
def ShiftsLanes (d : Direction) (size : Nat) (f : Nat → Buf → Buf) : Prop :=
  ∀ k v e, hostLane d (v.element size e) k = some ((f k v).element size e)

section Rows

variable (d : Direction)

theorem shiftsLanes_two {g : Nat → U16 → U16} (h : ∀ k v, g k v = d.shiftBy v k) :
    ShiftsLanes d 2 fun k v => packU16 fun e => g k (laneU16 v e) := by
  intro k v e
  have helem : Buf.element 2 (packU16 fun e => g k (laneU16 v e)) e = g k (laneU16 v e) :=
    element_packU16 _ e
  rw [hostLane_eq _ _ (by decide), helem, element_two, h]

theorem shiftsLanes_four {g : Nat → U32 → U32} (h : ∀ k v, g k v = d.shiftBy v k) :
    ShiftsLanes d 4 fun k v => packU32 fun e => g k (laneU32 v e) := by
  intro k v e
  have helem : Buf.element 4 (packU32 fun e => g k (laneU32 v e)) e = g k (laneU32 v e) :=
    element_packU32 _ e
  rw [hostLane_eq _ _ (by decide), helem, element_four, h]

theorem shiftsLanes_eight {g : Nat → U64 → U64} (h : ∀ k v, g k v = d.shiftBy v k) :
    ShiftsLanes d 8 fun k v => packU64 fun e => g k (laneU64 v e) := by
  intro k v e
  have helem : Buf.element 8 (packU64 fun e => g k (laneU64 v e)) e = g k (laneU64 v e) :=
    element_packU64 _ e
  rw [hostLane_eq _ _ (by decide), helem, element_eight, h]

/-- The cut-off of the arithmetic shifts. -/
theorem sshiftRight_eq_shiftBy {n : Nat} (k : Nat) (v : BitVec n) :
    v.sshiftRight (if n ≤ k then n - 1 else k) = Direction.arith.shiftBy v k := by
  rw [sshiftRight_cutOff, Direction.shiftBy_eq]
  rfl

end Rows

/-- Each handler is a packed shift in its direction and size. -/
theorem packedShift_of_mem (fp : HostFp) {i : Insn} {d : Direction} {size : Nat}
    (hop : (i.handler, d, size) ∈ packedShifts) :
    ∃ f, ShiftsLanes d size f ∧ i.run fp = packedShift f i := by
  simp only [packedShifts, List.mem_cons, List.not_mem_nil, or_false, Prod.mk.injEq] at hop
  rcases hop with ⟨hop, rfl, rfl⟩ | ⟨hop, rfl, rfl⟩ | ⟨hop, rfl, rfl⟩ | ⟨hop, rfl, rfl⟩ |
    ⟨hop, rfl, rfl⟩ | ⟨hop, rfl, rfl⟩ | ⟨hop, rfl, rfl⟩ | ⟨hop, rfl, rfl⟩
  · exact ⟨_, shiftsLanes_two .left (g := fun k v => if 16 ≤ k then 0 else v <<< k)
      (fun _ _ => rfl), by rw [Insn.run, hop]; rfl⟩
  · exact ⟨_, shiftsLanes_four .left (g := fun k v => if 32 ≤ k then 0 else v <<< k)
      (fun _ _ => rfl), by rw [Insn.run, hop]; rfl⟩
  · exact ⟨_, shiftsLanes_eight .left (g := fun k v => if 64 ≤ k then 0 else v <<< k)
      (fun _ _ => rfl), by rw [Insn.run, hop]; rfl⟩
  · exact ⟨_, shiftsLanes_two .right (g := fun k v => if 16 ≤ k then 0 else v >>> k)
      (fun _ _ => rfl), by rw [Insn.run, hop]; rfl⟩
  · exact ⟨_, shiftsLanes_four .right (g := fun k v => if 32 ≤ k then 0 else v >>> k)
      (fun _ _ => rfl), by rw [Insn.run, hop]; rfl⟩
  · exact ⟨_, shiftsLanes_eight .right (g := fun k v => if 64 ≤ k then 0 else v >>> k)
      (fun _ _ => rfl), by rw [Insn.run, hop]; rfl⟩
  · exact ⟨_, shiftsLanes_two .arith (g := fun k v => v.sshiftRight (if 16 ≤ k then 15 else k))
      sshiftRight_eq_shiftBy, by rw [Insn.run, hop]; rfl⟩
  · exact ⟨_, shiftsLanes_four .arith (g := fun k v => v.sshiftRight (if 32 ≤ k then 31 else k))
      sshiftRight_eq_shiftBy, by rw [Insn.run, hop]; rfl⟩

section Count

variable {σ : Type} {at_ : Attached σ} {c : Cpu} {w w' : World σ} {i : Insn} {b : Buf}

/-- The lowest byte of the quadword. -/
theorem quadCount_mod (b : Buf) : quadCount b % 256 = (b 0).toNat := by
  have hlow : (b.element 8 0).setWidth 8 = b 0 := by
    apply BitVec.eq_of_getLsbD_eq
    intro n hn
    have hbyte : 8 * 0 + n / 8 = 0 := by omega
    rw [BitVec.getLsbD_setWidth, decide_eq_true hn, Bool.true_and,
      getLsbD_element (by decide) (by omega), hbyte, Nat.mod_eq_of_lt hn]
  rw [← hlow, BitVec.toNat_setWidth]
  rfl

theorem shiftCountFrom_ends (hread : i.ReadsVec i.src 16 at_ c w b w') :
    (shiftCountFrom i).EndsIn at_ c w (some (i.countTaken b)) c w := by
  rcases hread with ⟨hkind, rfl, _⟩ | ⟨hmem, _⟩
  · rw [shiftCountFrom, hkind, Insn.countTaken, if_pos hkind, quadCount_mod]
    exact endsIn_gets _
  · rw [Operand.isMem, Bool.or_eq_true, beq_iff_eq, beq_iff_eq] at hmem
    have hkind : i.src.kind ≠ .xmm := by
      rcases hmem with h | h
      · rw [h]
        decide
      · rw [h]
        decide
    rw [Insn.countTaken, if_neg hkind, shiftCountFrom]
    rcases hmem with h | h
    · rw [h]
      exact endsIn_pure 0
    · rw [h]
      exact endsIn_pure 0

theorem packedShift_ends (hdst : i.dst.kind = .xmm) (hread : i.ReadsVec i.src 16 at_ c w b w')
    (f : Nat → Buf → Buf) :
    (packedShift f i).EndsIn at_ c w (some ())
      (c.setZmmBytes i.dst.reg 0 16 (f (i.countTaken b) (c.zmm i.dst.reg))) w := by
  rw [packedShift, miscIo.read_xmm i hdst, (endsIn_gets _).bind_iff,
    (shiftCountFrom_ends hread).bind_iff]
  exact miscIo.write_ends hdst _

end Count

/-- A smaller count than the one given shifts every element alike exactly when it already leaves
nothing of each. -/
theorem packedShiftLaw_iff {d : Direction} {size k count : Nat} {v r : Buf}
    (hr : ∀ e < 16 / size, r.element size e = d.shiftBy (v.element size e) k) (hk : k ≤ count) :
    PackedShiftLaw d size v count r ↔
      k = count ∨ ∀ e < 16 / size, d.Emptied (v.element size e) k := by
  rcases Nat.eq_or_lt_of_le hk with rfl | hlt
  · exact ⟨fun _ => .inl rfl, fun _ => hr⟩
  · have heq (e : Nat) (he : e < 16 / size) :
        r.element size e = d.shiftBy (v.element size e) count ↔
          d.Emptied (v.element size e) k := by
      rw [hr e he, Direction.shiftBy_eq, Direction.shiftBy_eq]
      exact d.shift_eq_iff_emptied _ hlt
    constructor
    · intro hlaw
      exact .inr fun e he => (heq e he).mp (hlaw e he)
    · intro hcount e he
      exact (heq e he).mpr (hcount.resolve_left (Nat.ne_of_lt hlt) e he)

/-- The elements are shifted by the count taken, with host shifts that are defined. That is the
whole count exactly when nothing of it is lost or when what is taken already leaves nothing of each
element. -/
theorem packed_shift_full_count_iff (fp : HostFp) {i : Insn} {d : Direction} {size : Nat}
    (hop : (i.handler, d, size) ∈ packedShifts) (hdst : i.dst.kind = .xmm) {σ : Type}
    {at_ : Attached σ} {c : Cpu} {w w' : World σ} {b : Buf}
    (hread : i.ReadsVec i.src 16 at_ c w b w') :
    ∃ r, (i.run fp).EndsIn at_ c w (some ()) (c.setZmmBytes i.dst.reg 0 16 r) w ∧
      (∀ e < 16 / size, hostLane d (c.element size i.dst.reg e) (i.countTaken b) =
        some (r.element size e)) ∧
      (PackedShiftLaw d size (c.zmm i.dst.reg) (quadCount b) r ↔
        i.countTaken b = quadCount b ∨
          ∀ e < 16 / size, d.Emptied (c.element size i.dst.reg e) (i.countTaken b)) := by
  obtain ⟨f, hf, hrun⟩ := packedShift_of_mem fp hop
  refine ⟨f (i.countTaken b) (c.zmm i.dst.reg), ?_, fun e _ => hf _ _ e, ?_⟩
  · rw [hrun]
    exact packedShift_ends hdst hread f
  · have hsize : 0 < 8 * size := by
      simp only [packedShifts, List.mem_cons, List.not_mem_nil, or_false, Prod.mk.injEq] at hop
      omega
    apply packedShiftLaw_iff
    · intro e _
      have hlane := hf (i.countTaken b) (c.zmm i.dst.reg) e
      rw [hostLane_eq _ _ hsize] at hlane
      exact (Option.some.inj hlane).symm
    · rw [Insn.countTaken]
      split
      next => exact Nat.mod_le ..
      next => exact Nat.zero_le _

/-- `psllw xmm1, xmm2`. -/
def psllwRegisters : Insn :=
  { handler := .opPsllw, opSize := 16, dst := { kind := .xmm, reg := 1 }
    src := { kind := .xmm, reg := 2 } }

/-- A one in the lowest word of `xmm1`, and in `xmm2` the count 256. -/
def wideCount : Cpu :=
  { zmm := fun r j =>
      if r = 1 then (if j = 0 then 1 else 0) else if r = 2 then (if j = 1 then 1 else 0) else 0 }

theorem psllw_reads_count : psllwRegisters.ReadsVec psllwRegisters.src 16
    (⟨none, none, [], []⟩ : Attached Unit) wideCount { mem := () } (wideCount.zmm 2)
    { mem := () } :=
  .inl ⟨rfl, rfl, rfl⟩

theorem packed_shift_full_count_iff_wide : ∃ r,
    (psllwRegisters.run default).EndsIn (⟨none, none, [], []⟩ : Attached Unit) wideCount
      { mem := () } (some ()) (wideCount.setZmmBytes 1 0 16 r) { mem := () } ∧
    (PackedShiftLaw .left 2 (wideCount.zmm 1) 256 r ↔
      psllwRegisters.countTaken (wideCount.zmm 2) = 256 ∨
        ∀ e < 8, Direction.left.Emptied (wideCount.element 2 1 e)
          (psllwRegisters.countTaken (wideCount.zmm 2))) := by
  have hop : (psllwRegisters.handler, Direction.left, 2) ∈ packedShifts := by decide
  obtain ⟨r, hends, _, hiff⟩ := packed_shift_full_count_iff default hop rfl psllw_reads_count
  have hcount : quadCount (wideCount.zmm 2) = 256 := by decide
  rw [hcount] at hiff
  exact ⟨r, hends, hiff⟩

/-- The count 256 leaves the destination as it was, where its lowest word should be zero. -/
theorem psllw_count_256 :
    (psllwRegisters.run default).EndsIn (⟨none, none, [], []⟩ : Attached Unit) wideCount
      { mem := () } (some ())
      (wideCount.setZmmBytes 1 0 16 (packU16 fun e => laneU16 (wideCount.zmm 1) e <<< 0))
      { mem := () } ∧
    quadCount (wideCount.zmm 2) = 256 ∧
    ¬ PackedShiftLaw .left 2 (wideCount.zmm 1) 256
      (packU16 fun e => laneU16 (wideCount.zmm 1) e <<< 0) := by
  refine ⟨⟨_, rfl⟩, ?_, fun hlaw => ?_⟩
  · decide
  · exact absurd (hlaw 0 (by decide)) (by decide)

end PicoCpu
