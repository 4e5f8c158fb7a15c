import PicoCpu.StringRestart
import PicoCpu.VectorIndex
import PicoCpu.Decoder.Evex

/-!
Scatters interrupted by a fault. Each lane that is stored clears its bit of the opmask, so the fault
leaves the set bits of the lanes that are still to be stored, and the instruction goes on from there
once the store succeeds.
-/

namespace PicoCpu

open H Proc Handlers Granule Decode

/-! ### Reference -/

/-- The bits from `n` on. -/
def bitsFrom (v : U64) (n : Nat) : U64 := v >>> n <<< n

namespace Insn

/-- What is stored of a lane. -/
def laneBytes (i : Insn) (c : Cpu) (lane : Nat) : Buf :=
  Buf.drop (c.zmm i.dst.reg) (lane * dataLane i)

/-- The mask bit of a lane. -/
def laneActive (i : Insn) (c : Cpu) (lane : Nat) : Bool := (c.k i.maskSelector).getLsbD lane

/-- The active ones of `n` lanes from `first` on, in order. -/
def activeLanes (i : Insn) (c : Cpu) (first n : Nat) : List Nat :=
  (List.range' first n).filter (i.laneActive c)

/-- The CPU with the mask bits of the lanes below `n` cleared. -/
def cleared (i : Insn) (c : Cpu) (n : Nat) : Cpu :=
  c.setK i.maskSelector (bitsFrom (c.k i.maskSelector) n)

/-- What the EVEX maps decode of a scatter. -/
structure IsScatter (i : Insn) : Prop where
  handler : i.handler ∈ scatterHandlers
  data : dataLane i = 4 ∨ dataLane i = 8
  index : indexLane i = 4 ∨ indexLane i = 8
  size : i.opSize ≤ 64

end Insn

/-- The lanes are stored one after the other. -/
inductive Scattered (i : Insn) (c : Cpu) : List Nat → ByteMap → ByteMap → Prop where
  | none {m} : Scattered i c [] m m
  | lane {l ls m m₁ m'} (h : Written m m₁ (i.vsibAddr c l) (dataLane i) (i.laneBytes c l))
      (hrest : Scattered i c ls m₁ m') : Scattered i c (l :: ls) m m'

section Completion

variable {σ τ : Type}

/-- The first machine with more stores that succeed: the second takes what the first takes, in the
worlds that complete the first's. A store that fails leads to a world that the same ones complete,
and the worlds that complete one are alike to the second machine. -/
structure CompletesStores (at_ : Attached σ) (at_' : Attached τ)
    (Completed : World σ → World τ → Prop) (Like : World τ → World τ → Prop) : Prop where
  stores {addr size data w w' u} :
    at_.env (.write addr size data) w = ((.ok () : Except Status Unit), w') → Completed w u →
      ∃ u', at_'.env (.write addr size data) u = ((.ok () : Except Status Unit), u') ∧
        Completed w' u'
  fails {addr size data s w w' u} :
    at_.env (.write addr size data) w = ((.error s : Except Status Unit), w') → Completed w u →
      Completed w' u
  like {w u u'} : Completed w u → Completed w u' → Like u u'
  alike : Prog.Alike (fun _ => True) (fun _ _ => True) Like at_'.env

end Completion

/-- The fault of lane `j`: the active lanes below it have been stored and their mask bits cleared,
and nothing else has changed. -/
structure StoppedAt (i : Insn) (c : Cpu) (m : ByteMap) (j : Nat) (c₁ : Cpu) (m₁ : ByteMap) :
    Prop where
  active : i.laneActive c j = true
  fault : ∃ s note, c₁ = (i.cleared c j).setFault .pageFault (i.vsibAddr c j) s note
  stored : Scattered i c (i.activeLanes c 0 j) m m₁

/-- On every machine that completes the first, where the whole instruction goes through: it leaves
no mask bit of its lanes, and executing it again after the fault ends in the same CPU and memory. -/
def ScatterRestarts (fp : HostFp) (i : Insn) {σ : Type} (at_ : Attached σ) (c : Cpu) (w : World σ)
    (c₁ : Cpu) (w₁ : World σ) : Prop :=
  ∀ (τ : Type) (at_' : Attached τ) (Completed : World σ → World τ → Prop)
    (Like : World τ → World τ → Prop) (u u₁ : World τ), CompletesStores at_ at_' Completed Like →
    Completed w u → Completed w₁ u₁ → ∀ c' u', (i.run fp).EndsIn at_' c u (some ()) c' u' →
    (∀ lane < laneCount i, i.laneActive c' lane = false) ∧
      ∃ u₁', (i.run fp).EndsIn at_' (c₁.resumed c) u₁ (some ()) c' u₁' ∧ Like u' u₁'

/-! ### Mask bits -/

section Bits

variable (v : U64) (n : Nat)

theorem getLsbD_bitsFrom (b : Nat) :
    (bitsFrom v n).getLsbD b = (v.getLsbD b && decide (n ≤ b)) := by
  rw [bitsFrom, BitVec.getLsbD_shiftLeft, BitVec.getLsbD_ushiftRight]
  by_cases hle : n ≤ b
  · rw [Nat.add_sub_cancel' hle, decide_eq_true hle, decide_eq_false (Nat.not_lt.mpr hle),
      Bool.not_false, Bool.and_true, Bool.and_true]
    by_cases hin : b < 64
    · rw [decide_eq_true hin, Bool.true_and]
    · rw [BitVec.getLsbD_of_ge _ _ (Nat.not_lt.mp hin), Bool.and_false]
  · rw [decide_eq_false hle, decide_eq_true (Nat.not_le.mp hle), Bool.not_true, Bool.and_false,
      Bool.and_false, Bool.false_and]

theorem bitsFrom_zero : bitsFrom v 0 = v := by
  rw [bitsFrom, BitVec.ushiftRight_zero, BitVec.shiftLeft_zero]

/-- Bit `n` is gone when it is cleared. -/
theorem bitsFrom_clear : bitsFrom v n &&& ~~~(1#64 <<< n) = bitsFrom v (n + 1) := by
  apply BitVec.eq_of_getLsbD_eq
  intro b hb
  rw [BitVec.getLsbD_and, BitVec.getLsbD_not, decide_eq_true hb, Bool.true_and,
    BitVec.getLsbD_shiftLeft, getLsbD_bitsFrom, getLsbD_bitsFrom, decide_eq_true hb, Bool.true_and,
    BitVec.getLsbD_one]
  rcases Nat.lt_trichotomy n b with hlt | rfl | hgt
  · have hnot : b - n ≠ 0 := by omega
    have hle : n ≤ b := by omega
    have hle' : n + 1 ≤ b := hlt
    rw [decide_eq_false hnot, Bool.and_false, Bool.and_false, Bool.not_false, Bool.and_true,
      decide_eq_true hle, decide_eq_true hle']
  · simp
  · have hnot : ¬ n ≤ b := by omega
    have hnot' : ¬ n + 1 ≤ b := by omega
    rw [decide_eq_false hnot, decide_eq_false hnot', Bool.and_false, Bool.false_and]

/-- It is also gone when it was clear. -/
theorem bitsFrom_skip (h : v.getLsbD n = false) : bitsFrom v n = bitsFrom v (n + 1) := by
  apply BitVec.eq_of_getLsbD_eq
  intro b hb
  rw [getLsbD_bitsFrom, getLsbD_bitsFrom]
  by_cases heq : b = n
  · rw [heq, h, Bool.false_and, Bool.false_and]
  · have hiff : (n ≤ b) = (n + 1 ≤ b) := propext ⟨by omega, by omega⟩
    simp only [hiff]

theorem bitsFrom_bitsFrom {m : Nat} (h : n ≤ m) : bitsFrom (bitsFrom v n) m = bitsFrom v m := by
  apply BitVec.eq_of_getLsbD_eq
  intro b hb
  rw [getLsbD_bitsFrom, getLsbD_bitsFrom, getLsbD_bitsFrom]
  by_cases hle : m ≤ b
  · rw [decide_eq_true hle, decide_eq_true (h.trans hle), Bool.and_true]
  · rw [decide_eq_false hle, Bool.and_false, Bool.and_false]

end Bits

section Cleared

variable {i : Insn} {c : Cpu} {n lane : Nat}

theorem selector_mod : i.maskSelector % 8 = i.maskSelector := Nat.mod_eq_of_lt (BitVec.isLt _)

theorem k_cleared : (i.cleared c n).k i.maskSelector = bitsFrom (c.k i.maskSelector) n := by
  rw [Insn.cleared, Cpu.setK, selector_mod]
  exact Function.update_self ..

theorem laneActive_cleared :
    i.laneActive (i.cleared c n) lane = (i.laneActive c lane && decide (n ≤ lane)) := by
  rw [Insn.laneActive, k_cleared, getLsbD_bitsFrom, Insn.laneActive]

theorem cleared_zero : i.cleared c 0 = c := by
  have hk : Function.update c.k (i.maskSelector % 8) (bitsFrom (c.k i.maskSelector) 0) = c.k := by
    rw [selector_mod, bitsFrom_zero, Function.update_eq_self]
  rw [Insn.cleared, Cpu.setK, hk]

theorem setK_cleared (v : U64) :
    (i.cleared c n).setK i.maskSelector v = c.setK i.maskSelector v := by
  rw [Insn.cleared, Cpu.setK, Cpu.setK, Cpu.setK, Function.update_idem]

theorem cleared_cleared {m : Nat} (h : n ≤ m) : i.cleared (i.cleared c n) m = i.cleared c m := by
  rw [Insn.cleared, setK_cleared, k_cleared, bitsFrom_bitsFrom _ _ h]
  rfl

/-- A lane that is not active has no bit to clear. -/
theorem cleared_skip (h : i.laneActive c lane = false) :
    i.cleared c lane = i.cleared c (lane + 1) := by
  rw [Insn.cleared, bitsFrom_skip _ _ h]
  rfl

/-- The update of the opmask after a store. -/
theorem cleared_store :
    (i.cleared c lane).setK (opmask i)
        ((i.cleared c lane).kreg (opmask i) &&& ~~~(1#64 <<< lane)) = i.cleared c (lane + 1) := by
  rw [opmask_eq, Cpu.kreg, selector_mod, k_cleared, bitsFrom_clear, setK_cleared]
  rfl

/-- No lane below `n` is active once they are cleared. -/
theorem activeLanes_cleared : i.activeLanes (i.cleared c n) 0 n = [] := by
  apply List.filter_eq_nil_iff.mpr
  intro lane hmem
  have hlt : lane < n := by
    have hrange := List.mem_range'_1.mp hmem
    omega
  rw [laneActive_cleared, decide_eq_false (Nat.not_le.mpr hlt), Bool.and_false]
  exact Bool.false_ne_true

end Cleared

/-! ### Addresses -/

section Addresses

variable {i : Insn} (hi : i.IsScatter) {c : Cpu} {lane : Nat}
include hi

theorem data_le : dataLane i ≤ 8 ∧ 0 < dataLane i := by
  rcases hi.data with hdata | hdata
  · rw [hdata]
    decide
  · rw [hdata]
    decide

variable (hindex : indexLane i ≤ dataLane i) (hlane : lane < laneCount i)
include hindex hlane

/-- The index of a lane, no wider than its data, is in the vector. -/
theorem index_inside : (lane + 1) * indexLane i ≤ i.opSize := by
  have hpos := (data_le hi).2
  have hfits : (lane + 1) * dataLane i ≤ i.opSize := (Nat.le_div_iff_mul_le hpos).mp hlane
  exact (Nat.mul_le_mul_left _ hindex).trans hfits

theorem laneAddr_eq :
    laneAddr i (vsibBase i c) (doGather.zeroAbove i.opSize (c.zmm i.src.index)) lane =
      i.vsibAddr c lane :=
  laneAddr_zeroAbove hi.index (index_inside hi hindex hlane) c

end Addresses

/-! ### The loop -/

/-- The lanes of a scatter that started in `c`, from `lane` on. -/
def scatterFrom (i : Insn) (c : Cpu) (n lane : Nat) : H Unit :=
  scatterLanes i (vsibBase i c) (maskBits i c) (c.zmm i.dst.reg)
    (doGather.zeroAbove i.opSize (c.zmm i.src.index)) n lane

section Loop

variable {σ : Type}

/-- The machine takes the lanes one after the other. -/
inductive Attached.Stored (at_ : Attached σ) (i : Insn) (c : Cpu) :
    List Nat → World σ → World σ → Prop where
  | none {w} : Stored at_ i c [] w w
  | lane {l ls w w₁ w'}
      (h : at_.env (.write (i.vsibAddr c l) (dataLane i) (i.laneBytes c l)) w =
        ((.ok () : Except Status Unit), w₁))
      (hrest : Stored at_ i c ls w₁ w') : Stored at_ i c (l :: ls) w w'

/-- The machine does not take lane `l`. -/
def Attached.Refuses (at_ : Attached σ) (i : Insn) (c : Cpu) (l : Nat) (w : World σ) (s : Status)
    (w' : World σ) : Prop :=
  at_.env (.write (i.vsibAddr c l) (dataLane i) (i.laneBytes c l)) w =
    ((.error s : Except Status Unit), w')

variable {at_ : Attached σ} {i : Insn} {c c' : Cpu} {w w₁ w' : World σ} {r : Option Unit}
  {n m lane : Nat}

theorem activeLanes_succ :
    i.activeLanes c lane (n + 1) =
      if i.laneActive c lane then lane :: i.activeLanes c (lane + 1) n
      else i.activeLanes c (lane + 1) n := by
  rw [Insn.activeLanes, List.range'_succ, List.filter_cons]
  rfl

/-- Either every active lane is taken or one of them is not. -/
theorem stored_or_refused (at_ : Attached σ) (i : Insn) (c : Cpu) (n lane : Nat) (w : World σ) :
    (∃ w', at_.Stored i c (i.activeLanes c lane n) w w') ∨
      ∃ k < n, i.laneActive c (lane + k) = true ∧ ∃ w₁ s w',
        at_.Stored i c (i.activeLanes c lane k) w w₁ ∧ at_.Refuses i c (lane + k) w₁ s w' := by
  induction n generalizing lane w with
  | zero => exact .inl ⟨w, .none⟩
  | succ n ih =>
      have hnext (k : Nat) : lane + 1 + k = lane + (k + 1) := by omega
      rw [activeLanes_succ]
      cases hactive : i.laneActive c lane with
      | false =>
          rw [if_neg Bool.false_ne_true]
          rcases ih (lane + 1) w with hall | ⟨k, hk, hlane, w₁, s, w', hstored, hrefuses⟩
          · exact .inl hall
          · rw [hnext] at hlane hrefuses
            refine .inr ⟨k + 1, by omega, hlane, w₁, s, w', ?_, hrefuses⟩
            rwa [activeLanes_succ, hactive, if_neg Bool.false_ne_true]
      | true =>
          rw [if_pos rfl]
          rcases hwrite : at_.env (.write (i.vsibAddr c lane) (dataLane i) (i.laneBytes c lane)) w
            with ⟨s | u, w₂⟩
          · exact .inr ⟨0, Nat.succ_pos n, hactive, w, s, w₂, .none, hwrite⟩
          · rcases ih (lane + 1) w₂ with ⟨w', hall⟩ | ⟨k, hk, hlane, w₁, s, w', hstored, hrefuses⟩
            · exact .inl ⟨w', .lane hwrite hall⟩
            · rw [hnext] at hlane hrefuses
              refine .inr ⟨k + 1, by omega, hlane, w₁, s, w', ?_, hrefuses⟩
              rw [activeLanes_succ, hactive, if_pos rfl]
              exact .lane hwrite hstored

variable (hmask : i.maskSelector ≠ 0)
include hmask

theorem bitAt_mask : bitAt (maskBits i c) lane = i.laneActive c lane := by
  rw [bitAt_eq, maskBits, opmask_eq, if_neg hmask, Cpu.kreg, selector_mod]
  rfl

/-- A lane that is not active is passed over. -/
theorem scatterFrom_skip (hactive : i.laneActive c lane = false) :
    scatterFrom i c (n + 1) lane = scatterFrom i c n (lane + 1) := by
  have hnot : ¬ bitAt (maskBits i c) lane = true := by
    rw [bitAt_mask hmask, hactive]
    exact Bool.false_ne_true
  rw [scatterFrom, scatterLanes, if_neg hnot]
  rfl

variable (hi : i.IsScatter) (hindex : indexLane i ≤ dataLane i)
include hi hindex

/-- The step of an active lane. -/
theorem scatterFrom_active (hlane : lane < laneCount i) (hactive : i.laneActive c lane = true) :
    scatterFrom i c (n + 1) lane = (do
      store (i.vsibAddr c lane) (dataLane i) (i.laneBytes c lane) pageFault "vscatter lane write"
      Proc.modify fun d => d.setK (opmask i) (d.kreg (opmask i) &&& ~~~(1#64 <<< lane))
      scatterFrom i c n (lane + 1)) := by
  have hpos : bitAt (maskBits i c) lane = true := by
    rw [bitAt_mask hmask, hactive]
  have hselector : opmask i ≠ 0 := by
    rw [opmask_eq]
    exact hmask
  rw [scatterFrom, scatterLanes, if_pos hpos, laneAddr_eq hi hindex hlane, if_pos hselector]
  rfl

/-- The run of the loop is its run from where the lanes that are taken have led. -/
theorem scatterFrom_iff (hn : lane + n ≤ laneCount i)
    (h : at_.Stored i c (i.activeLanes c lane n) w w₁) :
    (scatterFrom i c (n + m) lane).EndsIn at_ (i.cleared c lane) w r c' w' ↔
      (scatterFrom i c m (lane + n)).EndsIn at_ (i.cleared c (lane + n)) w₁ r c' w' := by
  induction n generalizing lane w with
  | zero =>
      cases h
      rw [Nat.zero_add]
      exact Iff.rfl
  | succ n ih =>
      have hnext : lane + (n + 1) = lane + 1 + n := by omega
      have hcount : n + 1 + m = n + m + 1 := by omega
      rw [activeLanes_succ] at h
      rw [hnext, hcount]
      cases hactive : i.laneActive c lane with
      | false =>
          rw [hactive, if_neg Bool.false_ne_true] at h
          rw [scatterFrom_skip hmask hactive, cleared_skip hactive]
          exact ih (by omega) h
      | true =>
          rw [hactive, if_pos rfl] at h
          cases h with
          | lane hwrite hrest =>
              rw [scatterFrom_active hmask hi hindex (by omega) hactive,
                (store_iff.mpr ⟨hwrite, rfl⟩).bind_iff, (endsIn_modify _).bind_iff, cleared_store]
              exact ih (by omega) hrest

/-- A lane that is refused ends the run. -/
theorem scatterFrom_refused {s : Status} (hlane : lane < laneCount i)
    (hactive : i.laneActive c lane = true) (h : at_.Refuses i c lane w s w') :
    (scatterFrom i c (n + 1) lane).EndsIn at_ (i.cleared c lane) w none
      ((i.cleared c lane).setFault .pageFault (i.vsibAddr c lane) s
        (some "vscatter lane write")) w' := by
  rw [scatterFrom_active hmask hi hindex hlane hactive]
  apply H.EndsIn.stop
  refine ⟨[⟨MachineOp.write (i.vsibAddr c lane) (dataLane i) (i.laneBytes c lane), .error s⟩], ?_⟩
  rw [store, run_bind, run_askWrite, h]
  rfl

end Loop

/-! ### The instruction -/

section Runs

variable {σ : Type} {at_ : Attached σ} {i : Insn} {c c' : Cpu} {w w₁ w' : World σ}
  {r : Option Unit} {n m lane : Nat}

theorem scatterHandlers_eq (fp : HostFp) {h : Handler} (hh : h ∈ scatterHandlers) :
    callHandler fp h = doScatter := by
  simp only [scatterHandlers, List.mem_cons, List.not_mem_nil, or_false] at hh
  rcases hh with rfl | rfl | rfl | rfl | rfl | rfl | rfl | rfl
  iterate 8
    · rfl

/-- With memory attached the instruction is its loop. -/
theorem doScatter_iff (hattached : at_.memWrite.isSome = true) :
    (doScatter i).EndsIn at_ c w r c' w' ↔
      (scatterFrom i c (laneCount i) 0).EndsIn at_ c w r c' w' := by
  have hpresent : (if true then at_.memWrite else at_.memRead).isSome = true := hattached
  rw [doScatter, (endsIn_gets _).bind_iff, (endsIn_gets _).bind_iff,
    (endsIn_requireAttached hpresent).bind_iff, (endsIn_gets _).bind_iff, (endsIn_gets _).bind_iff,
    (endsIn_gets _).bind_iff]
  exact Iff.rfl

theorem attached_of_doScatter (h : (doScatter i).EndsIn at_ c w (some ()) c' w') :
    at_.memWrite.isSome = true := by
  rw [doScatter, (endsIn_gets _).bind_iff, (endsIn_gets _).bind_iff, requireAttached_bind_iff] at h
  exact h.1

/-- The machine completes what the first has stored. -/
theorem Attached.Stored.completed {τ : Type} {at_' : Attached τ}
    {Completed : World σ → World τ → Prop} {Like : World τ → World τ → Prop}
    (hcompletes : CompletesStores at_ at_' Completed Like) {ls : List Nat}
    (h : at_.Stored i c ls w w') {u : World τ} (hu : Completed w u) :
    ∃ u', at_'.Stored i c ls u u' ∧ Completed w' u' := by
  induction h generalizing u with
  | none => exact ⟨u, .none, hu⟩
  | lane hwrite _ ih =>
      obtain ⟨u₁, hwrite', hu₁⟩ := hcompletes.stores hwrite hu
      obtain ⟨u', hrest', hu'⟩ := ih hu₁
      exact ⟨u', .lane hwrite' hrest', hu'⟩

/-- What has been stored is in the memory, lane after lane. -/
theorem Attached.Stored.scattered {Inv : σ → Prop} {mem : σ → ByteMap}
    (hrep : at_.Represents Inv mem) (hinv : Inv w.mem) (hdata : dataLane i ≤ 8) {ls : List Nat}
    (h : at_.Stored i c ls w w') : Scattered i c ls (mem w.mem) (mem w'.mem) ∧ Inv w'.mem := by
  induction h with
  | none => exact ⟨.none, hinv⟩
  | lane hwrite _ ih =>
      obtain ⟨hwritten, hinv₁⟩ := Attached.written_of_ok hrep hinv (by omega) hwrite
      obtain ⟨hrest, hinv'⟩ := ih hinv₁
      exact ⟨.lane hwritten hrest, hinv'⟩

variable (hmask : i.maskSelector ≠ 0)
include hmask

/-- From lane `n` on the cleared bits are not looked at. -/
theorem scatterFrom_cleared (hle : n ≤ lane) :
    scatterFrom i (i.cleared c n) m lane = scatterFrom i c m lane := by
  induction m generalizing lane with
  | zero => rfl
  | succ m ih =>
      have hbit : bitAt (maskBits i (i.cleared c n)) lane = bitAt (maskBits i c) lane := by
        rw [bitAt_mask hmask, bitAt_mask hmask, laneActive_cleared, decide_eq_true hle,
          Bool.and_true]
      have hrest := ih (Nat.le_succ_of_le hle)
      simp only [scatterFrom] at hrest ⊢
      rw [scatterLanes, scatterLanes, hrest, hbit]
      rfl

variable (hi : i.IsScatter) (hindex : indexLane i ≤ dataLane i)
include hi hindex

theorem scatterFrom_zero_iff (hn : n ≤ laneCount i)
    (h : at_.Stored i c (i.activeLanes c 0 n) w w₁) :
    (scatterFrom i c (n + m) 0).EndsIn at_ c w r c' w' ↔
      (scatterFrom i c m n).EndsIn at_ (i.cleared c n) w₁ r c' w' := by
  have hloop : (scatterFrom i c (n + m) 0).EndsIn at_ (i.cleared c 0) w r c' w' ↔
      (scatterFrom i c m (0 + n)).EndsIn at_ (i.cleared c (0 + n)) w₁ r c' w' :=
    scatterFrom_iff hmask hi hindex (Nat.le_trans (Nat.zero_add n).le hn) h
  rw [cleared_zero, Nat.zero_add] at hloop
  exact hloop

/-- The run of the instruction is its run from where the lanes below `n` have led. -/
theorem doScatter_resumes (hn : n ≤ laneCount i) (hattached : at_.memWrite.isSome = true)
    (h : at_.Stored i c (i.activeLanes c 0 n) w w₁) :
    (doScatter i).EndsIn at_ c w r c' w' ↔
      (doScatter i).EndsIn at_ (i.cleared c n) w₁ r c' w' := by
  obtain ⟨m, hm⟩ := Nat.exists_eq_add_of_le hn
  have hnone : at_.Stored i (i.cleared c n) (i.activeLanes (i.cleared c n) 0 n) w₁ w₁ := by
    rw [activeLanes_cleared]
    exact .none
  rw [doScatter_iff hattached, doScatter_iff hattached, hm,
    scatterFrom_zero_iff hmask hi hindex hn h, scatterFrom_zero_iff hmask hi hindex hn hnone,
    scatterFrom_cleared hmask (Nat.le_refl n), cleared_cleared (Nat.le_refl n)]

/-- A run ends with every active lane stored, or with a lane that the machine refuses. -/
theorem doScatter_ends (hattached : at_.memWrite.isSome = true) (c : Cpu) (w : World σ) :
    (∃ w', at_.Stored i c (i.activeLanes c 0 (laneCount i)) w w' ∧
        (doScatter i).EndsIn at_ c w (some ()) (i.cleared c (laneCount i)) w') ∨
      ∃ j < laneCount i, i.laneActive c j = true ∧ ∃ w₁ s w',
        at_.Stored i c (i.activeLanes c 0 j) w w₁ ∧ at_.Refuses i c j w₁ s w' ∧
          (doScatter i).EndsIn at_ c w none ((i.cleared c j).setFault .pageFault
            (i.vsibAddr c j) s (some "vscatter lane write")) w' := by
  rcases stored_or_refused at_ i c (laneCount i) 0 w with
    ⟨w', hstored⟩ | ⟨j, hj, hactive, w₁, s, w', hstored, hrefuses⟩
  · refine .inl ⟨w', hstored, (doScatter_iff hattached).mpr ?_⟩
    exact (scatterFrom_zero_iff (m := 0) hmask hi hindex (Nat.le_refl _) hstored).mpr
      (endsIn_pure ())
  · rw [Nat.zero_add] at hactive hrefuses
    refine .inr ⟨j, hj, hactive, w₁, s, w', hstored, hrefuses, ?_⟩
    obtain ⟨m, hm⟩ := Nat.exists_eq_add_of_lt hj
    rw [doScatter_iff hattached, hm]
    exact (scatterFrom_zero_iff (m := m + 1) hmask hi hindex hj.le hstored).mpr
      (scatterFrom_refused hmask hi hindex hj hactive hrefuses)

/-- A run that goes through clears the mask bits of all lanes. -/
theorem doScatter_clears (h : (doScatter i).EndsIn at_ c w (some ()) c' w') :
    ∀ lane < laneCount i, i.laneActive c' lane = false := by
  intro lane hlane
  rcases doScatter_ends hmask hi hindex (attached_of_doScatter h) c w with
    ⟨_, _, hends⟩ | ⟨_, _, _, _, _, _, _, _, hends⟩
  · obtain ⟨_, rfl, _⟩ := h.unique hends
    rw [laneActive_cleared, decide_eq_false (Nat.not_le.mpr hlane), Bool.and_false]
  · cases (h.unique hends).1

end Runs

/-! ### The decoder -/

/-- The lane sizes of a row of the scatter table. -/
def scatterRow (row : OpKind × Handler × Nat × Nat) : Bool :=
  scatterHandlers.contains row.2.1 &&
    [(4, 4), (8, 4), (4, 8), (8, 8)].contains (row.2.2.1, row.2.2.2)

/-- The second EVEX map has scatters only. -/
theorem decodeEvexMap2_post (px : Prefixes) (base : Insn) :
    Parse.Post (decodeEvexMap2 px base) fun i _ => i.IsScatter := by
  rw [decodeEvexMap2]
  refine Parse.post_next fun op => ?_
  refine Parse.Arms.firstOf (Parse.arms_cons (Parse.arm_ite (fun _ => ?_) fun _ => Parse.arm_none)
    Parse.arms_nil)
  refine arm_of_laneRows scatterRow rfl fun kind h dataLane indexLane hok => ?_
  rw [scatterRow, Bool.and_eq_true, List.contains_iff_mem, List.contains_iff_mem] at hok
  rw [decodeEvexScatter, readModrm_bind]
  refine Parse.post_next fun mb => ?_
  split
  · exact Parse.post_fail
  · refine Parse.post_bind (Parse.post_yields _) fun src bs _ => Parse.post_ret ?_
    obtain ⟨hdata, hindex⟩ := laneSizes_mem _ hok.2
    have hsize : px.evexVectorSize ≤ 64 := by
      rw [Prefixes.evexVectorSize]
      split_ifs <;> decide
    exact ⟨hok.1, hdata, hindex, hsize⟩

theorem isScatter_of_decoded {fetch : Fetch} {rip : GuestAddr} {fuel p : Nat} {i : Insn}
    {e : EvexBytes} (hdecoded : decodeWithSource fetch rip fuel = some (.ok i))
    (hat : EvexAt fetch p e) (hmap : e.map = 2) : i.IsScatter := by
  obtain ⟨px, base, out, bs, _, hread, _, hyields, _, rfl⟩ := evexYields_of_decoded hdecoded hat
  rw [decodeEvex, if_pos (hread.map.trans hmap)] at hyields
  obtain ⟨hhandler, hdata, hindex, hsize⟩ := decodeEvexMap2_post px base _ _ hyields
  exact ⟨hhandler, hdata, hindex, hsize⟩

/-! ### Restart -/

/-- A scatter that faults has stored the active lanes below some lane and cleared their mask bits,
and goes on with the rest when it is executed again. -/
theorem scatter_restart (fp : HostFp) {fetch : Fetch} {rip : GuestAddr} {fuel p : Nat}
    {e : EvexBytes} {i : Insn} (hdecoded : decodeWithSource fetch rip fuel = some (.ok i))
    (hat : EvexAt fetch p e) (hmap : e.map = 2) (hmask : i.maskSelector ≠ 0)
    (hindex : indexLane i ≤ dataLane i) {σ : Type} {at_ : Attached σ} {Inv : σ → Prop}
    {mem : σ → ByteMap} (hrep : at_.Represents Inv mem) {c c₁ : Cpu} {w w₁ : World σ}
    (hinv : Inv w.mem) (h : (i.run fp).EndsIn at_ c w none c₁ w₁) :
    (at_.memWrite.isSome = true →
        ∃ j < laneCount i, StoppedAt i c (mem w.mem) j c₁ (mem w₁.mem)) ∧
      ScatterRestarts fp i at_ c w c₁ w₁ := by
  have hi := isScatter_of_decoded hdecoded hat hmap
  have hrun : i.run fp = doScatter i := congrFun (scatterHandlers_eq fp hi.handler) i
  rw [hrun] at h
  cases hattached : at_.memWrite.isSome with
  | false =>
      have hmissing : (doScatter i).EndsIn at_ c w none
          (c.setFault .providerFailure c.rip .providerFailure (some "vscatter write")) w := by
        have hnone : (if true then at_.memWrite else at_.memRead).isSome = false := hattached
        rw [doScatter, (endsIn_gets _).bind_iff, (endsIn_gets _).bind_iff]
        exact (endsIn_requireAttached_none hnone).stop
      obtain ⟨_, rfl, rfl⟩ := h.unique hmissing
      constructor
      · intro hsome
        cases hsome
      · intro τ at_' Completed Like u u₁ hcompletes hu hu₁ c' u' hends
        rw [hrun] at hends ⊢
        rw [setFault_resumed rfl rfl]
        exact ⟨doScatter_clears hmask hi hindex hends,
          hends.alike hcompletes.alike (hcompletes.like hu hu₁)⟩
  | true =>
      rcases doScatter_ends hmask hi hindex hattached c w with
        ⟨_, _, hends⟩ | ⟨j, hj, hactive, w₂, s, w', hstored, hrefuses, hends⟩
      · cases (h.unique hends).1
      obtain ⟨_, rfl, rfl⟩ := h.unique hends
      constructor
      · intro _
        obtain ⟨hscattered, hinv₂⟩ := hstored.scattered hrep hinv (data_le hi).1
        obtain ⟨hmem, _⟩ := mem_of_writeFails hrep hinv₂ (data_le hi).1 hrefuses
        refine ⟨j, hj, hactive, ⟨s, _, rfl⟩, ?_⟩
        rw [hmem]
        exact hscattered
      · intro τ at_' Completed Like u u₁ hcompletes hu hu₁ c' u' hends'
        rw [hrun] at hends' ⊢
        rw [setFault_resumed (c := c) (d := i.cleared c j) rfl rfl]
        obtain ⟨u₂, hstored', hu₂⟩ := hstored.completed hcompletes hu
        have hlike := hcompletes.like (hcompletes.fails hrefuses hu₂) hu₁
        have hagain := (doScatter_resumes hmask hi hindex hj.le (attached_of_doScatter hends')
          hstored').mp hends'
        exact ⟨doScatter_clears hmask hi hindex hends', hagain.alike hcompletes.alike hlike⟩

/-! ### An index beyond the mapped memory -/

/-- Mapping the upper part completes the stores. -/
theorem flatMachine_completesStores (limit : Nat) :
    CompletesStores (lowerMachine limit) flatMachine Eq Eq where
  stores := by
    intro addr size data w w' u hwrite hu
    subst hu
    by_cases hin : addr.toNat + size ≤ limit
    · rw [lowerMachine_write hin] at hwrite
      exact ⟨w', hwrite, rfl⟩
    · rw [lowerMachine_write_fails hin] at hwrite
      cases hwrite
  fails := by
    intro addr size data s w w' u hwrite hu
    subst hu
    by_cases hin : addr.toNat + size ≤ limit
    · rw [lowerMachine_write hin] at hwrite
      cases hwrite
    · rw [lowerMachine_write_fails hin] at hwrite
      cases hwrite
      rfl
  like := by
    intro w u u' hu hu'
    exact hu.symm.trans hu'
  alike := (flatMachine_completes limit).alike

/-- `vpscatterdd [rax + xmm1] {k1}, xmm2`. -/
def vpscatterddBytes : List U8 := [0x62, 0xF2, 0x7D, 0x09, 0xA0, 0x14, 0x08]

def scatterXmm2 : Insn :=
  { handler := .opVpscatterdd, kind := .vpscatterdd, opSize := 16, len := 7, cond := .none
    flags := { opsizePfx := true, vex := true }, pad := 1, immExtra := 0x404
    dst := { kind := .xmm, reg := 2 }
    src := { kind := .mem, reg := 0, index := 1, scale := 1, pad0 := 1 } }

theorem scatterXmm2_decoded :
    decodeWithSource (bufFetch (bufOf vpscatterddBytes) 7) 0 1 = some (.ok scatterXmm2) := rfl

theorem scatterXmm2_at :
    EvexAt (bufFetch (bufOf vpscatterddBytes) 7) 0 ⟨0xF2, 0x7D, 0x09, 0xA0, 0x14⟩ where
  prefixes := prefixRun_zero (b := 0x62) rfl (by decide)
  bytes := ⟨rfl, rfl, rfl, rfl, rfl, rfl, trivial⟩

/-- Two active lanes, the second at the first address that is not mapped. -/
def twoLanes : Cpu :=
  { k := fun _ => 3, zmm := fun r b => if r = 1 ∧ b = 5 then 0x10 else if r = 2 then 7 else 0 }

theorem scatter_restart_vpscatterdd : ∃ c₁ w₁,
    (scatterXmm2.run default).EndsIn (lowerMachine 0x1000) twoLanes emptyWorld none c₁ w₁ ∧
    c₁.k 1 = 2 ∧
    (∃ j < laneCount scatterXmm2,
      StoppedAt scatterXmm2 twoLanes (flatBytes emptyWorld.mem) j c₁ (flatBytes w₁.mem)) ∧
    ∃ c' w', (scatterXmm2.run default).EndsIn flatMachine (c₁.resumed twoLanes) w₁
        (some ()) c' w' ∧ c'.k 1 = 0 := by
  have hends : (scatterXmm2.run default).EndsIn (lowerMachine 0x1000) twoLanes emptyWorld none
      ((scatterXmm2.run default).run (lowerMachine 0x1000).env twoLanes emptyWorld).value.2
      ((scatterXmm2.run default).run (lowerMachine 0x1000).env twoLanes emptyWorld).world :=
    ⟨_, rfl⟩
  have hflat : (scatterXmm2.run default).EndsIn flatMachine twoLanes emptyWorld (some ())
      ((scatterXmm2.run default).run flatMachine.env twoLanes emptyWorld).value.2
      ((scatterXmm2.run default).run flatMachine.env twoLanes emptyWorld).world := ⟨_, rfl⟩
  obtain ⟨hstopped, hrestarts⟩ := scatter_restart default scatterXmm2_decoded scatterXmm2_at
    (by decide) (by decide) (by decide) (lowerMachine_represents 0x1000) trivial hends
  refine ⟨_, _, hends, rfl, hstopped rfl, ?_⟩
  obtain ⟨_, w', hagain, _⟩ :=
    hrestarts _ _ _ _ _ _ (flatMachine_completesStores 0x1000) rfl rfl _ _ hflat
  exact ⟨_, w', hagain, rfl⟩

end PicoCpu
