import PicoCpu.Decoder.Gathers
import PicoCpu.MemoryReads
import PicoCpu.StringRestart
import PicoCpu.UpperBits
import PicoCpu.VectorIndex

/-!
Gathers. The handlers load a lane whose mask element is negative, one after the other, into copies
of the vectors that are written back after the last one. They take the lanes of the data vector,
which are more than the lanes of the index vector where the indexes are the wider elements.
-/

namespace PicoCpu

open H Proc Handlers Granule Decode

/-! ### Reference -/

namespace Insn

/-- The sign bit of a mask element. -/
def gathers (i : Insn) (c : Cpu) (lane : Nat) : Bool :=
  (c.zmm i.dst.index (lane * dataLane i + (dataLane i - 1))).msb

/-- How many lanes there are in both the data vector and the index vector. -/
def gatherCount (i : Insn) : Nat := min (laneCount i) (i.opSize / indexLane i)

/-- The lanes below `n` that the mask selects, in order. -/
def gatherLanes (i : Insn) (c : Cpu) (n : Nat) : List Nat :=
  (List.range' 0 n).filter (i.gathers c)

/-- The loads of some lanes. -/
def laneReads (i : Insn) (c : Cpu) (ls : List Nat) : List (GuestAddr × Nat) :=
  ls.map fun l => (i.vsibAddr c l, dataLane i)

/-- The loop of the handlers over a copy of the index vector. -/
def gatherLoop (i : Insn) (c : Cpu) (idxVec : Buf) : H (Buf × Buf) :=
  Handlers.gatherLanes i (vsibBase i c) idxVec (laneCount i) 0
    (doGather.zeroAbove 32 (c.zmm i.dst.reg)) (doGather.zeroAbove 32 (c.zmm i.dst.index))

end Insn

/-- The selected lanes of both vectors are loaded and their mask elements cleared, and the other
elements of the destination are kept. -/
structure Gathered (i : Insn) (c : Cpu) (m : ByteMap) (c' : Cpu) : Prop where
  loaded : ∀ l < i.gatherCount, i.gathers c l = true → ∀ j < dataLane i,
    m (i.vsibAddr c l + BitVec.ofNat 64 j) = some (c'.zmm i.dst.reg (l * dataLane i + j))
  cleared : ∀ l < i.gatherCount, i.gathers c l = true → ∀ j < dataLane i,
    c'.zmm i.dst.index (l * dataLane i + j) = 0
  kept : ∀ l < laneCount i, ¬ (l < i.gatherCount ∧ i.gathers c l = true) → ∀ j < dataLane i,
    c'.zmm i.dst.reg (l * dataLane i + j) = c.zmm i.dst.reg (l * dataLane i + j)

/-- What is said of a gather with these bytes, from a CPU on every machine: its index register, the
bytes of the index vector that its loop depends on, what it does when every load succeeds, and what
a load that fails leaves. -/
structure GatherLaw (fp : HostFp) (fetch : Fetch) (p : Nat) (e : VexBytes) (i : Insn) (c : Cpu) :
    Prop where
  register : e.IndexNamed fetch p i
  inside : ∀ v v' : Buf, (∀ k < i.gatherCount * indexLane i, v k = v' k) →
    i.gatherLoop c v = i.gatherLoop c v'
  done : ∀ (σ : Type) (at_ : Attached σ) (Inv : σ → Prop) (mem : σ → ByteMap),
    at_.Represents Inv mem → ∀ w rs c' w', Inv w.mem →
    (i.run fp).EndsReading at_ c w rs (some ()) c' w' →
    rs = i.laneReads c (i.gatherLanes c i.gatherCount) ∧ Gathered i c (mem w.mem) c'
  fault : ∀ (σ : Type) (at_ : Attached σ) (w : World σ) rs c₁ w₁,
    (i.run fp).EndsReading at_ c w rs none c₁ w₁ →
    c₁.zmm = c.zmm ∧ Restarts fp i at_ c w c₁ w₁ ∧
      rs <+: i.laneReads c (i.gatherLanes c i.gatherCount) ∧
      (at_.memRead.isSome = true → ∃ l s w₂, rs.getLast? = some (i.vsibAddr c l, dataLane i) ∧
        at_.env (.read (i.vsibAddr c l) (dataLane i)) w₂ =
          ((.error s : Except Status Buf), w₁))

/-- Where the code does so: the SIB byte names a register that the decoder takes for the index, the
mask selects no lane beyond the index vector, and none at all where it is the destination. -/
structure GatherExact (fetch : Fetch) (p : Nat) (e : VexBytes) (i : Insn) (c : Cpu) : Prop where
  index : e.HasIndex fetch p
  lanes : ∀ l < laneCount i, i.gatherCount ≤ l → i.gathers c l = false
  distinct : i.dst.reg = i.dst.index → ∀ l < i.gatherCount, i.gathers c l = false

/-! ### The loop -/

/-- The lanes are loaded one after the other into the vectors of data and mask. -/
inductive Attached.Fetched {σ : Type} (at_ : Attached σ) (i : Insn) (addr : Nat → GuestAddr) :
    List Nat → World σ → Buf × Buf → World σ → Buf × Buf → Prop where
  | none {w v} : Fetched at_ i addr [] w v w v
  | lane {l ls buf w v w₁ w' v'}
      (h : at_.env (.read (addr l) (dataLane i)) w = ((.ok buf : Except Status Buf), w₁))
      (hrest : Fetched at_ i addr ls w₁ (splice v.1 (l * dataLane i) (dataLane i) buf,
        splice v.2 (l * dataLane i) (dataLane i) fun _ => 0) w' v') :
      Fetched at_ i addr (l :: ls) w v w' v'

section Splice

variable {size : Nat}

theorem splice_inside (v buf : Buf) (l : Nat) {j : Nat} (hj : j < size) :
    splice v (l * size) size buf (l * size + j) = buf j := by
  rw [splice, if_pos ⟨Nat.le_add_right .., Nat.add_lt_add_left hj _⟩, Nat.add_sub_cancel_left]

theorem splice_other (v buf : Buf) {l l' : Nat} (hne : l ≠ l') {j : Nat} (hj : j < size) :
    splice v (l * size) size buf (l' * size + j) = v (l' * size + j) := by
  rw [splice, if_neg]
  rintro ⟨hle, hlt⟩
  rcases Nat.lt_or_gt_of_ne hne with hlt' | hgt
  · have hsucc := Nat.mul_le_mul_right size (Nat.succ_le_of_lt hlt')
    rw [Nat.succ_mul] at hsucc
    omega
  · have hsucc := Nat.mul_le_mul_right size (Nat.succ_le_of_lt hgt)
    rw [Nat.succ_mul] at hsucc
    omega

end Splice

section Loop

variable {σ : Type} {at_ : Attached σ} {i : Insn} {base : GuestAddr} {idxVec : Buf}

/-- Clearing the mask element of a lane leaves the signs of the later ones. -/
theorem sign_splice (hdata : 0 < dataLane i) (mask : Buf) {lane l : Nat} (hl : lane < l) :
    (splice mask (lane * dataLane i) (dataLane i) (fun _ => 0)
        (l * dataLane i + (dataLane i - 1))).msb =
      (mask (l * dataLane i + (dataLane i - 1))).msb := by
  rw [splice_other mask _ (Nat.ne_of_lt hl) (Nat.sub_one_lt_of_lt hdata)]

/-- The loop loads every lane that the mask selects, or stops at the first load that fails. -/
theorem gatherLanes_run (at_ : Attached σ) (base : GuestAddr) (idxVec : Buf)
    (hdata : 0 < dataLane i) (selected : Nat → Bool) (c : Cpu) {n lane : Nat} (dst : Buf)
    {mask : Buf} (w : World σ)
    (hmask : ∀ l, lane ≤ l → l < lane + n →
      (mask (l * dataLane i + (dataLane i - 1))).msb = selected l) :
    (∃ w' v', at_.Fetched i (laneAddr i base idxVec) ((List.range' lane n).filter selected)
        w (dst, mask) w' v' ∧
      (Handlers.gatherLanes i base idxVec n lane dst mask).EndsReading at_ c w
        (((List.range' lane n).filter selected).map fun l =>
          (laneAddr i base idxVec l, dataLane i)) (some v') c w') ∨
    ∃ ls l s w₁ v₁ w', ls ++ [l] <+: (List.range' lane n).filter selected ∧
      at_.Fetched i (laneAddr i base idxVec) ls w (dst, mask) w₁ v₁ ∧
      at_.env (.read (laneAddr i base idxVec l) (dataLane i)) w₁ =
        ((.error s : Except Status Buf), w') ∧
      (Handlers.gatherLanes i base idxVec n lane dst mask).EndsReading at_ c w
        ((ls ++ [l]).map fun l => (laneAddr i base idxVec l, dataLane i)) none
        (c.setFault .pageFault (laneAddr i base idxVec l) s (some "vgather lane read")) w' := by
  induction n generalizing lane dst mask w with
  | zero => exact .inl ⟨w, (dst, mask), .none, endsReading_pure _⟩
  | succ n ih =>
      rw [List.range'_succ, List.filter_cons, Handlers.gatherLanes,
        hmask lane (Nat.le_refl lane) (by omega)]
      cases hselected : selected lane with
      | false =>
          exact ih dst w fun l hl hlt => hmask l (Nat.le_of_succ_le hl) (by omega)
      | true =>
          rw [if_pos rfl, if_pos rfl]
          rcases hread : at_.env (.read (laneAddr i base idxVec lane) (dataLane i)) w with
            ⟨s | buf, w₁⟩
          · refine .inr ⟨[], lane, s, w, _, w₁, ⟨_, rfl⟩, .none, hread, ?_⟩
            exact (endsReading_load_fails hread).stop
          · have hrest : ∀ l, lane + 1 ≤ l → l < lane + 1 + n →
                (splice mask (lane * dataLane i) (dataLane i) (fun _ => 0)
                  (l * dataLane i + (dataLane i - 1))).msb = selected l := by
              intro l hl hlt
              rw [sign_splice hdata mask hl]
              exact hmask l (Nat.le_of_succ_le hl) (by omega)
            rcases ih (splice dst (lane * dataLane i) (dataLane i) buf) w₁ hrest with
              ⟨w', v', hfetched, hends⟩ | ⟨ls, l, s, w₂, v₁, w', hprefix, hfetched, hfails, hends⟩
            · exact .inl ⟨w', v', .lane hread hfetched, (endsReading_load hread).bind hends⟩
            · refine .inr ⟨lane :: ls, l, s, w₂, v₁, w', ?_, .lane hread hfetched, hfails,
                (endsReading_load hread).bind hends⟩
              exact List.cons_prefix_cons.mpr ⟨rfl, hprefix⟩

/-- The loop depends on the index vector through the addresses of the selected lanes. -/
theorem gatherLanes_congr (hdata : 0 < dataLane i) {idxVec' : Buf} {n lane : Nat} {dst mask : Buf}
    (haddr : ∀ l, lane ≤ l → l < lane + n →
      (mask (l * dataLane i + (dataLane i - 1))).msb = true →
      laneAddr i base idxVec l = laneAddr i base idxVec' l) :
    Handlers.gatherLanes i base idxVec n lane dst mask =
      Handlers.gatherLanes i base idxVec' n lane dst mask := by
  induction n generalizing lane dst mask with
  | zero => rfl
  | succ n ih =>
      rw [Handlers.gatherLanes, Handlers.gatherLanes]
      cases hselected : (mask (lane * dataLane i + (dataLane i - 1))).msb with
      | false =>
          exact ih fun l hl hlt => haddr l (Nat.le_of_succ_le hl) (by omega)
      | true =>
          rw [if_pos rfl, if_pos rfl, haddr lane (Nat.le_refl lane) (by omega) hselected]
          refine congrArg (fun f => load (laneAddr i base idxVec' lane) (dataLane i) pageFault
            "vgather lane read" >>= f) (funext fun buf => ?_)
          refine ih fun l hl hlt hsign => haddr l (Nat.le_of_succ_le hl) (by omega) ?_
          rwa [sign_splice hdata mask hl] at hsign

variable {addr : Nat → GuestAddr} {ls : List Nat} {w w' : World σ} {v v' : Buf × Buf}

/-- Other lanes are kept. -/
theorem Attached.Fetched.kept (h : at_.Fetched i addr ls w v w' v') {l : Nat} (hl : l ∉ ls)
    {j : Nat} (hj : j < dataLane i) :
    v'.1 (l * dataLane i + j) = v.1 (l * dataLane i + j) ∧
      v'.2 (l * dataLane i + j) = v.2 (l * dataLane i + j) := by
  induction h with
  | none => exact ⟨rfl, rfl⟩
  | lane _ _ ih =>
      rw [List.mem_cons, not_or] at hl
      obtain ⟨hne, hrest⟩ := hl
      obtain ⟨hdata, hmask⟩ := ih hrest
      exact ⟨hdata.trans (splice_other _ _ (Ne.symm hne) hj),
        hmask.trans (splice_other _ (fun _ => 0) (Ne.symm hne) hj)⟩

/-- The lanes hold what stands in the memory, and their mask elements are clear. -/
theorem Attached.Fetched.loaded {Inv : σ → Prop} {mem : σ → ByteMap}
    (hrep : at_.Represents Inv mem) (hsize : dataLane i ≤ 8)
    (h : at_.Fetched i addr ls w v w' v') (hinv : Inv w.mem) (hnodup : ls.Nodup) {l : Nat}
    (hl : l ∈ ls) {j : Nat} (hj : j < dataLane i) :
    mem w.mem (addr l + BitVec.ofNat 64 j) = some (v'.1 (l * dataLane i + j)) ∧
      v'.2 (l * dataLane i + j) = 0 := by
  induction h with
  | none => cases hl
  | @lane l' ls buf w v w₁ w' v' hread hrest ih =>
      obtain ⟨hbytes, hmem, hinv₁⟩ := Attached.bytes_of_read hrep hinv hsize hread
      obtain ⟨hnot, hnodup'⟩ := List.nodup_cons.mp hnodup
      rcases List.mem_cons.mp hl with rfl | hl'
      · obtain ⟨hdata, hmask⟩ := hrest.kept hnot hj
        rw [hdata, hmask, hbytes j hj]
        exact ⟨congrArg some (splice_inside _ buf _ hj).symm, splice_inside _ (fun _ => 0) _ hj⟩
      · rw [← hmem]
        exact ih hinv₁ hnodup' hl'

/-- Loading changes no byte of the memory. -/
theorem Attached.Fetched.quiet (hsize : dataLane i ≤ 8) (h : at_.Fetched i addr ls w v w' v') :
    Relation.ReflTransGen at_.QuietStep w w' := by
  induction h with
  | none => exact .refl
  | lane hread _ ih => exact .head (.read hsize ⟨_, hread, rfl⟩) ih

end Loop

/-! ### The instruction -/

section Runs

variable {σ : Type} {at_ : Attached σ} {i : Insn} {c : Cpu} {w : World σ}

namespace Insn

/-- The registers after the loop has gone through. -/
def written (i : Insn) (c : Cpu) (v : Buf × Buf) : Cpu :=
  setVec i.dst.index i.opSize v.2 (setVec i.dst.reg i.opSize v.1 c)

/-- The address that the loop loads a lane from. -/
def copiedAddr (i : Insn) (c : Cpu) (lane : Nat) : GuestAddr :=
  laneAddr i (vsibBase i c) (doGather.zeroAbove 32 (c.zmm i.src.index)) lane

/-- The vectors that the loop starts from. -/
def copies (i : Insn) (c : Cpu) : Buf × Buf :=
  (doGather.zeroAbove 32 (c.zmm i.dst.reg), doGather.zeroAbove 32 (c.zmm i.dst.index))

end Insn

theorem zmm_setVec_low {reg size k : Nat} (hk : k < size) (v : Buf) (c : Cpu) :
    (setVec reg size v c).zmm reg k = v k := by
  rw [setVec]
  split
  · rename_i hsize
    rw [zmm_zeroYmmUpper_low _ _ (hsize ▸ hk), Cpu.zmm_setZmmBytes_low _ _ _ _ hk]
  · exact Cpu.zmm_setZmmBytes_low _ _ _ _ hk

theorem zmm_setVec_of_ne {reg r : Nat} (hr : r ≠ reg) (size : Nat) (v : Buf) (c : Cpu) :
    (setVec reg size v c).zmm r = c.zmm r := by
  rw [setVec]
  split
  · rw [Cpu.zeroYmmUpper, Cpu.zmm_setZmmBytes_of_ne _ hr, Cpu.zmm_setZmmBytes_of_ne _ hr]
  · exact Cpu.zmm_setZmmBytes_of_ne _ hr ..

/-- The mask is written last. -/
theorem zmm_written_mask {k : Nat} (hk : k < i.opSize) (v : Buf × Buf) :
    (i.written c v).zmm i.dst.index k = v.2 k := zmm_setVec_low hk ..

theorem zmm_written_data (hne : i.dst.reg ≠ i.dst.index) {k : Nat} (hk : k < i.opSize)
    (v : Buf × Buf) : (i.written c v).zmm i.dst.reg k = v.1 k := by
  rw [Insn.written, zmm_setVec_of_ne hne, zmm_setVec_low hk]

section Sizes

variable (hi : i.IsGather)
include hi

theorem Insn.IsGather.data_pos : 0 < dataLane i := by
  rcases hi.data with h | h <;> omega

theorem Insn.IsGather.data_le : dataLane i ≤ 8 := by
  rcases hi.data with h | h <;> omega

theorem Insn.IsGather.size_le : i.opSize ≤ 32 := by
  rcases hi.size with h | h <;> omega

omit hi in
/-- The lanes are inside the vectors. -/
theorem lane_byte_lt {l j : Nat} (hl : l < laneCount i) (hj : j < dataLane i) :
    l * dataLane i + j < i.opSize := by
  have hle := Nat.mul_le_mul_right (dataLane i) (Nat.succ_le_of_lt hl)
  have hall : laneCount i * dataLane i ≤ i.opSize := Nat.div_mul_le_self ..
  rw [Nat.succ_mul] at hle
  omega

end Sizes

/-- The instruction with memory attached: it loads every lane of the data vector that the mask
selects and writes the vectors back, or stops at the first load that fails. -/
theorem doGather_ends (hi : i.IsGather) (hattached : at_.memRead.isSome = true) (c : Cpu)
    (w : World σ) :
    (∃ w' v', at_.Fetched i (i.copiedAddr c) (i.gatherLanes c (laneCount i)) w (i.copies c) w' v' ∧
      (doGather i).EndsReading at_ c w
        ((i.gatherLanes c (laneCount i)).map fun l => (i.copiedAddr c l, dataLane i)) (some ())
        (i.written c v') w') ∨
    ∃ ls l s w₁ v₁ w', ls ++ [l] <+: i.gatherLanes c (laneCount i) ∧
      at_.Fetched i (i.copiedAddr c) ls w (i.copies c) w₁ v₁ ∧
      at_.env (.read (i.copiedAddr c l) (dataLane i)) w₁ =
        ((.error s : Except Status Buf), w') ∧
      (doGather i).EndsReading at_ c w
        ((ls ++ [l]).map fun l => (i.copiedAddr c l, dataLane i)) none
        (c.setFault .pageFault (i.copiedAddr c l) s (some "vgather lane read")) w' := by
  have hmask : ∀ l, 0 ≤ l → l < 0 + laneCount i →
      ((i.copies c).2 (l * dataLane i + (dataLane i - 1))).msb = i.gathers c l := by
    intro l _ hl
    rw [Nat.zero_add] at hl
    have hbyte := lane_byte_lt hl (Nat.sub_one_lt_of_lt hi.data_pos)
    have hcopy : (i.copies c).2 (l * dataLane i + (dataLane i - 1)) =
        c.zmm i.dst.index (l * dataLane i + (dataLane i - 1)) :=
      if_pos (hbyte.trans_le hi.size_le)
    rw [hcopy]
    rfl
  rcases gatherLanes_run at_ (vsibBase i c) (doGather.zeroAbove 32 (c.zmm i.src.index))
      hi.data_pos (i.gathers c) c (i.copies c).1 w hmask with
    ⟨w', ⟨data, mask⟩, hfetched, hends⟩ | ⟨ls, l, s, w₁, v₁, w', hprefix, hfetched, hfails, hends⟩
  · refine .inl ⟨w', (data, mask), hfetched, ?_⟩
    rw [← List.append_nil (List.map _ _)]
    exact (endsReading_gets _).bind <| (endsReading_attached hattached).bind <|
      (endsReading_gets _).bind <| (endsReading_gets _).bind <| (endsReading_gets _).bind <|
      (endsReading_gets _).bind <| hends.bind <| (endsReading_modify _).bind <|
      endsReading_modify _
  · refine .inr ⟨ls, l, s, w₁, v₁, w', hprefix, hfetched, hfails, ?_⟩
    exact (endsReading_gets _).bind <| (endsReading_attached hattached).bind <|
      (endsReading_gets _).bind <| (endsReading_gets _).bind <| (endsReading_gets _).bind <|
      (endsReading_gets _).bind hends.stop

/-- Without a provider nothing is loaded. -/
theorem doGather_missing (hmissing : at_.memRead.isSome = false) (c : Cpu) (w : World σ) :
    (doGather i).EndsReading at_ c w [] none
      (c.setFault .providerFailure c.rip .providerFailure (some "vgather read")) w :=
  (endsReading_gets _).bind (endsReading_attached_none hmissing).stop

/-! ### The lanes of both vectors -/

theorem mem_gatherLanes {n l : Nat} : l ∈ i.gatherLanes c n ↔ l < n ∧ i.gathers c l = true := by
  rw [Insn.gatherLanes, List.mem_filter, List.mem_range'_1, Nat.zero_add]
  exact and_congr_left' (and_iff_right (Nat.zero_le l))

theorem nodup_gatherLanes (c : Cpu) (n : Nat) : (i.gatherLanes c n).Nodup :=
  List.Nodup.filter _ List.nodup_range'

theorem gatherCount_le (i : Insn) : i.gatherCount ≤ laneCount i := Nat.min_le_left ..

/-- The lanes of the data vector are those of both and the rest. -/
theorem gatherLanes_split (i : Insn) (c : Cpu) :
    i.gatherLanes c (laneCount i) = i.gatherLanes c i.gatherCount ++
      (List.range' i.gatherCount (laneCount i - i.gatherCount)).filter (i.gathers c) := by
  have hrange := List.range'_append_1 (s := 0) (m := i.gatherCount)
    (n := laneCount i - i.gatherCount)
  rw [Nat.add_sub_cancel' (gatherCount_le i), Nat.zero_add] at hrange
  rw [Insn.gatherLanes, ← hrange, List.filter_append]
  rfl

/-- The mask selects no lane beyond the index vector exactly when there are no more lanes. -/
theorem gatherLanes_eq_iff : i.gatherLanes c (laneCount i) = i.gatherLanes c i.gatherCount ↔
    ∀ l < laneCount i, i.gatherCount ≤ l → i.gathers c l = false := by
  rw [gatherLanes_split, List.append_right_eq_self, List.filter_eq_nil_iff]
  constructor
  · intro hnone l hl hle
    exact Bool.eq_false_iff.mpr (hnone l (List.mem_range'_1.mpr ⟨hle, by omega⟩))
  · intro hall l hl
    obtain ⟨hle, hlt⟩ := List.mem_range'_1.mp hl
    exact Bool.eq_false_iff.mp (hall l (by omega) hle)

section Inside

variable (hi : i.IsGather) {l : Nat} (hl : l < i.gatherCount)
include hl

/-- The index of a lane of both vectors is inside the index vector. -/
theorem gather_index_inside : (l + 1) * indexLane i ≤ i.opSize := by
  have hle : l + 1 ≤ i.opSize / indexLane i := hl.trans_le (Nat.min_le_right ..)
  exact (Nat.mul_le_mul_right _ hle).trans (Nat.div_mul_le_self ..)

include hi

theorem copiedAddr_eq (c : Cpu) : i.copiedAddr c l = i.vsibAddr c l :=
  laneAddr_zeroAbove hi.index ((gather_index_inside hl).trans hi.size_le) c

end Inside

/-- The loads of lanes of both vectors. -/
theorem copied_reads (hi : i.IsGather) (c : Cpu) {ls : List Nat}
    (hls : ∀ l ∈ ls, l < i.gatherCount) :
    (ls.map fun l => (i.copiedAddr c l, dataLane i)) = i.laneReads c ls := by
  apply List.map_congr_left
  intro l hl
  rw [copiedAddr_eq hi (hls l hl)]

/-- What the loop has loaded is what the vectors hold in the end. -/
theorem gathered_of_fetched (hi : i.IsGather) {Inv : σ → Prop} {mem : σ → ByteMap}
    (hrep : at_.Represents Inv mem) (hinv : Inv w.mem)
    (hdistinct : i.dst.reg = i.dst.index → ∀ l < i.gatherCount, i.gathers c l = false)
    {w' : World σ} {v : Buf × Buf}
    (h : at_.Fetched i (i.copiedAddr c) (i.gatherLanes c i.gatherCount) w (i.copies c) w' v) :
    Gathered i c (mem w.mem) (i.written c v) where
  loaded := by
    intro l hl hselected j hj
    have hne : i.dst.reg ≠ i.dst.index := by
      intro heq
      rw [hdistinct heq l hl] at hselected
      cases hselected
    have hbyte := lane_byte_lt (hl.trans_le (gatherCount_le i)) hj
    obtain ⟨hdata, _⟩ := h.loaded hrep hi.data_le hinv (nodup_gatherLanes c _)
      (mem_gatherLanes.mpr ⟨hl, hselected⟩) hj
    rw [zmm_written_data hne hbyte, ← copiedAddr_eq hi hl]
    exact hdata
  cleared := by
    intro l hl hselected j hj
    have hbyte := lane_byte_lt (hl.trans_le (gatherCount_le i)) hj
    rw [zmm_written_mask hbyte]
    exact (h.loaded hrep hi.data_le hinv (nodup_gatherLanes c _)
      (mem_gatherLanes.mpr ⟨hl, hselected⟩) hj).2
  kept := by
    intro l hl hnot j hj
    have hbyte := lane_byte_lt hl hj
    obtain ⟨hdata, hmask⟩ := h.kept (fun hmem => hnot (mem_gatherLanes.mp hmem)) hj
    have hcopy (r : Nat) : doGather.zeroAbove 32 (c.zmm r) (l * dataLane i + j) =
        c.zmm r (l * dataLane i + j) := if_pos (hbyte.trans_le hi.size_le)
    by_cases heq : i.dst.reg = i.dst.index
    · rw [heq, zmm_written_mask hbyte, hmask]
      exact hcopy i.dst.index
    · rw [zmm_written_data heq hbyte, hdata]
      exact hcopy i.dst.reg

/-- Nothing but the fault is left of an instruction that stops after quiet accesses, and executing
it again starts over. -/
theorem restarts_of_quiet (fp : HostFp) (i : Insn) {w₁ : World σ}
    (hquiet : Relation.ReflTransGen at_.QuietStep w w₁) (c : Cpu) (kind : FaultKind)
    (addr : GuestAddr) (s : Status) (note : Option String) :
    Restarts fp i at_ c w (c.setFault kind addr s note) w₁ := by
  intro τ at_' Completed Like u u₁ hcompletes hu hu₁ r c' u' hends
  rw [setFault_resumed rfl rfl]
  exact hends.alike hcompletes.alike (hcompletes.like (hcompletes.quiets hquiet hu) hu₁)

section Exact

variable (hi : i.IsGather)
  (hlanes : ∀ l < laneCount i, i.gatherCount ≤ l → i.gathers c l = false)
include hlanes

/-- The lanes of the loop are those of both vectors. -/
theorem selected_lanes {ls : List Nat} (hls : ls <+: i.gatherLanes c (laneCount i)) :
    ls <+: i.gatherLanes c i.gatherCount ∧ ∀ l ∈ ls, l < i.gatherCount := by
  rw [gatherLanes_eq_iff.mpr hlanes] at hls
  exact ⟨hls, fun l hl => (mem_gatherLanes.mp (hls.subset hl)).1⟩

include hi

theorem gather_inside {v v' : Buf} (h : ∀ k < i.gatherCount * indexLane i, v k = v' k) :
    i.gatherLoop c v = i.gatherLoop c v' := by
  apply gatherLanes_congr hi.data_pos
  intro l _ hl hsign
  rw [Nat.zero_add] at hl
  have hbyte := lane_byte_lt hl (Nat.sub_one_lt_of_lt hi.data_pos)
  have hcopy : doGather.zeroAbove 32 (c.zmm i.dst.index) (l * dataLane i + (dataLane i - 1)) =
      c.zmm i.dst.index (l * dataLane i + (dataLane i - 1)) := if_pos (hbyte.trans_le hi.size_le)
  have hselected : i.gathers c l = true := by
    rw [hcopy] at hsign
    exact hsign
  have hin : l < i.gatherCount := by
    by_contra hnot
    rw [hlanes l hl (Nat.not_lt.mp hnot)] at hselected
    cases hselected
  have hsize : indexLane i ≤ 8 := by
    rcases hi.index with h | h <;> omega
  have helement : Buf.element (indexLane i) v l = Buf.element (indexLane i) v' l := by
    apply element_congr hsize
    intro j hj
    apply h
    have hle := Nat.mul_le_mul_right (indexLane i) (Nat.succ_le_of_lt hin)
    rw [Nat.succ_mul, Nat.mul_comm l] at hle
    omega
  rw [laneAddr, laneAddr, indexAt_eq_element hi.index, indexAt_eq_element hi.index, helement]

theorem gather_done {Inv : σ → Prop} {mem : σ → ByteMap} (hrep : at_.Represents Inv mem)
    (hdistinct : i.dst.reg = i.dst.index → ∀ l < i.gatherCount, i.gathers c l = false)
    (hinv : Inv w.mem) {rs : List (GuestAddr × Nat)} {c' : Cpu} {w' : World σ}
    (h : (doGather i).EndsReading at_ c w rs (some ()) c' w') :
    rs = i.laneReads c (i.gatherLanes c i.gatherCount) ∧ Gathered i c (mem w.mem) c' := by
  cases hattached : at_.memRead.isSome with
  | false =>
      obtain ⟨_, hnone, _⟩ := h.unique (doGather_missing hattached c w)
      cases hnone
  | true =>
      rcases doGather_ends hi hattached c w with
        ⟨w₁, v, hfetched, hends⟩ | ⟨_, _, _, _, _, _, _, _, _, hends⟩
      · obtain ⟨rfl, _, rfl, rfl⟩ := h.unique hends
        rw [gatherLanes_eq_iff.mpr hlanes] at hfetched ⊢
        refine ⟨copied_reads hi c fun l hl => (mem_gatherLanes.mp hl).1, ?_⟩
        exact gathered_of_fetched hi hrep hinv hdistinct hfetched
      · obtain ⟨_, hnone, _⟩ := h.unique hends
        cases hnone

theorem gather_fault (fp : HostFp) {rs : List (GuestAddr × Nat)} {c₁ : Cpu} {w₁ : World σ}
    (h : (doGather i).EndsReading at_ c w rs none c₁ w₁) :
    c₁.zmm = c.zmm ∧ Restarts fp i at_ c w c₁ w₁ ∧
      rs <+: i.laneReads c (i.gatherLanes c i.gatherCount) ∧
      (at_.memRead.isSome = true → ∃ l s w₂, rs.getLast? = some (i.vsibAddr c l, dataLane i) ∧
        at_.env (.read (i.vsibAddr c l) (dataLane i)) w₂ =
          ((.error s : Except Status Buf), w₁)) := by
  cases hattached : at_.memRead.isSome with
  | false =>
      obtain ⟨rfl, _, rfl, rfl⟩ := h.unique (doGather_missing hattached c w)
      exact ⟨rfl, restarts_of_quiet fp i .refl c _ _ _ _, List.nil_prefix,
        fun hsome => nomatch hsome⟩
  | true =>
      rcases doGather_ends hi hattached c w with
        ⟨_, _, _, hends⟩ | ⟨ls, l, s, w₂, v, w', hprefix, hfetched, hfails, hends⟩
      · obtain ⟨_, hsome, _⟩ := h.unique hends
        cases hsome
      · obtain ⟨rfl, _, rfl, rfl⟩ := h.unique hends
        obtain ⟨hlist, hin⟩ := selected_lanes hlanes hprefix
        have hquiet := (hfetched.quiet hi.data_le).tail (.readFails hi.data_le hfails)
        rw [copied_reads hi c hin]
        refine ⟨rfl, restarts_of_quiet fp i hquiet c _ _ _ _, hlist.map _,
          fun _ => ⟨l, s, w₂, ?_, ?_⟩⟩
        · rw [Insn.laneReads, List.map_append, List.map_singleton, List.getLast?_concat]
        · rw [← copiedAddr_eq hi (hin l (List.mem_append_right ls (List.mem_singleton_self l)))]
          exact hfails

end Exact

/-! ### On flat memory -/

/-- Flat memory with the same byte everywhere. -/
def filledWorld (b : U8) : World (GuestAddr → U8) := { mem := fun _ => b }

/-- Every load succeeds on flat memory. -/
theorem doGather_flat (hi : i.IsGather) (c : Cpu) (w : World (GuestAddr → U8)) :
    ∃ c' w', (doGather i).EndsReading flatMachine c w
      ((i.gatherLanes c (laneCount i)).map fun l => (i.copiedAddr c l, dataLane i)) (some ())
      c' w' := by
  have hattached : flatMachine.memRead.isSome = true := rfl
  rcases doGather_ends hi hattached c w with
    ⟨w', v, _, hends⟩ | ⟨_, _, _, _, _, _, _, _, hfails, _⟩
  · exact ⟨_, w', hends⟩
  · cases hfails

end Runs

/-! ### Decoded gathers -/

/-- A gather with these bytes takes the index register of its SIB byte, loads the selected lanes
that both vectors have and nothing else, and starts over after a fault, exactly where the SIB byte
has an index for the decoder, no lane beyond the index vector is selected, and none at all when the
mask is the destination. -/
theorem gatherLaw_iff (fp : HostFp) {fetch : Fetch} {rip : GuestAddr} {fuel p : Nat} {i : Insn}
    {e : VexBytes} (hdecoded : decodeWithSource fetch rip fuel = some (.ok i))
    (hat : VexAt fetch p e) (hgather : e.isGather) (c : Cpu) :
    GatherLaw fp fetch p e i c ↔ GatherExact fetch p e i c := by
  obtain ⟨hi, _⟩ := gather_of_decoded hdecoded hat hgather
  have hrun : i.run fp = doGather i := congrFun (gatherHandlers_eq fp hi.handler) i
  have hnamed := indexNamed_iff hdecoded hat hgather
  constructor
  · rintro ⟨hregister, _, hdone, _⟩
    rw [hrun] at hdone
    refine ⟨hnamed.mp hregister, ?_, ?_⟩
    · obtain ⟨c', w', hends⟩ := doGather_flat hi c (filledWorld 0)
      obtain ⟨hreads, _⟩ := hdone _ _ _ _ flatMachine_represents _ _ _ _ trivial hends
      apply gatherLanes_eq_iff.mp
      have hlength := congrArg List.length hreads
      rw [List.length_map, Insn.laneReads, List.length_map, gatherLanes_split] at hlength
      rw [List.length_append, Nat.add_eq_left, List.length_eq_zero_iff] at hlength
      rw [gatherLanes_split, hlength, List.append_nil]
    · intro heq l hl
      by_contra hselected
      rw [Bool.not_eq_false] at hselected
      obtain ⟨c', w', hends⟩ := doGather_flat hi c (filledWorld 0xFF)
      obtain ⟨_, hgathered⟩ := hdone _ _ _ _ flatMachine_represents _ _ _ _ trivial hends
      have hloaded := hgathered.loaded l hl hselected 0 hi.data_pos
      rw [heq, hgathered.cleared l hl hselected 0 hi.data_pos] at hloaded
      have hbyte : (0xFF : U8) = 0 := Option.some.inj hloaded
      revert hbyte
      decide
  · rintro ⟨hindex, hlanes, hdistinct⟩
    refine ⟨hnamed.mpr hindex, fun v v' h => gather_inside hi hlanes h, ?_, ?_⟩
    · intro σ at_ Inv mem hrep w rs c' w' hinv hends
      rw [hrun] at hends
      exact gather_done hi hlanes hrep hdistinct hinv hends
    · intro σ at_ w rs c₁ w₁ hends
      rw [hrun] at hends
      exact gather_fault hi hlanes fp hends

/-! ### An index register that is not one -/

/-- `vpgatherdd xmm2, [rax + index], xmm1` with the index of a SIB byte. -/
def gatherBytes (sib : U8) : List U8 := [0xC4, 0xE2, 0x71, 0x90, 0x14, sib]

def gatherXmm2 (index : Nat) : Insn :=
  { handler := .opVpgatherdd, kind := .vpgatherdd, opSize := 16, len := 6, cond := .none
    flags := { opsizePfx := true, vex := true }, immExtra := 0x404
    dst := { kind := .xmm, reg := 2, index := 1 }
    src := { kind := .mem, reg := 0, index := index, scale := 1, pad0 := 1 } }

theorem gatherXmm2_decoded :
    decodeWithSource (bufFetch (bufOf (gatherBytes 0x18)) 6) 0 1 = some (.ok (gatherXmm2 3)) := rfl

/-- The index `xmm4` is decoded as none. -/
theorem gatherXmm4_decoded :
    decodeWithSource (bufFetch (bufOf (gatherBytes 0x20)) 6) 0 1 =
      some (.ok (gatherXmm2 Reg.none)) := rfl

theorem gather_at (sib : U8) :
    VexAt (bufFetch (bufOf (gatherBytes sib)) 6) 0 ⟨0xE2, 0x71, 0x90, 0x14⟩ where
  prefixes := prefixRun_zero (b := 0xC4) rfl (by decide)
  bytes := ⟨rfl, rfl, rfl, rfl, rfl, trivial⟩

theorem not_gatherLaw_xmm4 : ¬ GatherLaw default (bufFetch (bufOf (gatherBytes 0x20)) 6) 0
    ⟨0xE2, 0x71, 0x90, 0x14⟩ (gatherXmm2 Reg.none) {} := by
  rintro ⟨hregister, _⟩
  obtain ⟨_, hfield⟩ :=
    (indexNamed_iff gatherXmm4_decoded (gather_at 0x20) ⟨rfl, by decide⟩).mp hregister
  exact hfield 0x20 rfl (by decide)

/-- Four selected lanes. -/
def fourLanes : Cpu := { zmm := fun r _ => if r = 1 then 0x80 else 0 }

theorem gatherLaw_iff_xmm3 : GatherLaw default (bufFetch (bufOf (gatherBytes 0x18)) 6) 0
    ⟨0xE2, 0x71, 0x90, 0x14⟩ (gatherXmm2 3) fourLanes := by
  apply (gatherLaw_iff default gatherXmm2_decoded (gather_at 0x18) ⟨rfl, by decide⟩ fourLanes).mpr
  refine ⟨⟨rfl, fun sib hsib => ?_⟩, by decide, fun heq => absurd heq (by decide)⟩
  obtain rfl := Except.ok.inj hsib
  decide

end PicoCpu
