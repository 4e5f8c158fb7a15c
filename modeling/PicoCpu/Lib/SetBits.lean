import Mathlib.Data.BitVec
import Mathlib.Data.List.Sort
import Mathlib.Tactic.Ring

/-!
The set bits of a word in increasing order: how `m - 1` isolates and clears the lowest one, an
induction that takes them one at a time, and the deposit and extraction of bits through a mask.
-/

namespace SetBits

variable {w : Nat} {m : BitVec w} {p : Nat}

theorem twoPow_ne_zero (hp : p < w) : BitVec.twoPow w p ≠ 0 := by
  have hbit : (BitVec.twoPow w p).getLsbD p = true := by
    rw [BitVec.getLsbD_twoPow, decide_eq_true hp, decide_eq_true rfl, Bool.true_and]
  intro hzero
  rw [hzero] at hbit
  cases hbit.symm.trans BitVec.getLsbD_zero

/-- The test of a single bit. -/
theorem and_twoPow_bne_zero (m : BitVec w) (hp : p < w) :
    (m &&& BitVec.twoPow w p != 0) = m.getLsbD p := by
  rw [BitVec.and_twoPow]
  cases m.getLsbD p with
  | false => exact bne_self_eq_false _
  | true => exact bne_iff_ne.mpr (twoPow_ne_zero hp)

/-! ### The lowest set bit -/

/-- `p` is the position of the lowest set bit. -/
structure IsLowest (m : BitVec w) (p : Nat) : Prop where
  set : m.getLsbD p = true
  below : ∀ j < p, m.getLsbD j = false

theorem exists_isLowest (h : m ≠ 0) : ∃ p, IsLowest m p := by
  have hset : ∃ p, m.getLsbD p = true := by
    by_contra hnone
    apply h
    apply BitVec.eq_of_getLsbD_eq
    intro j _
    exact (Bool.eq_false_iff.mpr fun hj => hnone ⟨j, hj⟩).trans BitVec.getLsbD_zero.symm
  refine ⟨Nat.find hset, Nat.find_spec hset, fun j hj => ?_⟩
  exact Bool.eq_false_iff.mpr (Nat.find_min hset hj)

namespace IsLowest

variable (h : IsLowest m p)
include h

theorem lt : p < w := BitVec.lt_of_getLsbD h.set

theorem ne_zero : m ≠ 0 := by
  intro hzero
  have hset := h.set
  rw [hzero] at hset
  cases hset.symm.trans BitVec.getLsbD_zero

/-- The word without its lowest set bit. -/
theorem split : m = (m &&& ~~~BitVec.twoPow w p) + BitVec.twoPow w p := by
  have hdisjoint : (m &&& ~~~BitVec.twoPow w p) &&& BitVec.twoPow w p = 0#w := by
    rw [BitVec.and_assoc, BitVec.not_and_self]
    exact BitVec.and_zero
  rw [BitVec.add_eq_or_of_and_eq_zero _ _ hdisjoint]
  apply BitVec.eq_of_getLsbD_eq
  intro j hj
  rw [BitVec.getLsbD_or, BitVec.getLsbD_and, BitVec.getLsbD_not, BitVec.getLsbD_twoPow,
    decide_eq_true h.lt, decide_eq_true hj, Bool.true_and, Bool.true_and]
  by_cases hjp : p = j
  · subst hjp
    rw [h.set, decide_eq_true rfl, Bool.or_true]
  · rw [decide_eq_false hjp, Bool.not_false, Bool.and_true, Bool.or_false]

omit h in
theorem getLsbD_twoPow_sub_one (hp : p < w) (j : Nat) :
    (BitVec.twoPow w p - 1).getLsbD j = decide (j < p) := by
  have hone : (1#w).toNat = 1 := by
    rw [BitVec.toNat_ofNat, Nat.mod_eq_of_lt (Nat.one_lt_two_pow (by omega))]
  have hle : 1#w ≤ BitVec.twoPow w p := by
    rw [BitVec.le_def, hone, BitVec.toNat_twoPow_of_lt hp]
    exact Nat.one_le_two_pow
  have hvalue : (BitVec.twoPow w p - 1#w).toNat = 2 ^ p - 1 := by
    rw [BitVec.toNat_sub_of_le hle, hone, BitVec.toNat_twoPow_of_lt hp]
  rw [BitVec.getLsbD]
  exact (congrArg (fun n : Nat => n.testBit j) hvalue).trans (Nat.testBit_two_pow_sub_one ..)

/-- Subtracting one clears the lowest set bit and sets those below. -/
theorem getLsbD_sub_one (j : Nat) :
    (m - 1).getLsbD j = (decide (j < p) || (m.getLsbD j && decide (j ≠ p))) := by
  have hdisjoint : (m &&& ~~~BitVec.twoPow w p) &&& (BitVec.twoPow w p - 1) = 0#w := by
    apply BitVec.eq_of_getLsbD_eq
    intro k _
    rw [BitVec.getLsbD_and, BitVec.getLsbD_and, getLsbD_twoPow_sub_one h.lt, BitVec.getLsbD_zero]
    by_cases hk : k < p
    · rw [h.below k hk, Bool.false_and, Bool.false_and]
    · rw [decide_eq_false hk, Bool.and_false]
  have hsub : m - 1 = (m &&& ~~~BitVec.twoPow w p) + (BitVec.twoPow w p - 1) := by
    nth_rewrite 1 [h.split]
    ring
  rw [hsub, BitVec.add_eq_or_of_and_eq_zero _ _ hdisjoint, BitVec.getLsbD_or,
    getLsbD_twoPow_sub_one h.lt, BitVec.getLsbD_and, BitVec.getLsbD_not, BitVec.getLsbD_twoPow,
    decide_eq_true h.lt, Bool.true_and]
  by_cases hjw : j < w
  · rw [decide_eq_true hjw, Bool.true_and, Bool.or_comm, decide_not, eq_comm]
    simp only [eq_comm]
  · rw [BitVec.getLsbD_of_ge m j (by omega), Bool.false_and, Bool.false_and, Bool.false_or,
      Bool.or_false]

/-- `m & (m - 1)` clears it. -/
theorem getLsbD_clear (j : Nat) :
    (m &&& (m - 1)).getLsbD j = (m.getLsbD j && decide (j ≠ p)) := by
  rw [BitVec.getLsbD_and, h.getLsbD_sub_one]
  by_cases hj : j < p
  · rw [h.below j hj, Bool.false_and, Bool.false_and]
  · rw [decide_eq_false hj, Bool.false_or, ← Bool.and_assoc, Bool.and_self]

/-- `m ^ (m - 1)` has the bits up to it. -/
theorem getLsbD_upTo (j : Nat) : (m ^^^ (m - 1)).getLsbD j = decide (j ≤ p) := by
  rw [BitVec.getLsbD_xor, h.getLsbD_sub_one]
  rcases Nat.lt_trichotomy j p with hj | rfl | hj
  · rw [h.below j hj, decide_eq_true hj, decide_eq_true (Nat.le_of_lt hj)]
    rfl
  · rw [h.set, decide_eq_false (Nat.lt_irrefl j), decide_eq_true (Nat.le_refl j),
      decide_eq_false (fun hne => hne rfl)]
    rfl
  · have hne : j ≠ p := by omega
    have hnot : ¬ j < p := by omega
    have hnotle : ¬ j ≤ p := by omega
    rw [decide_eq_false hnot, decide_eq_true hne, decide_eq_false hnotle, Bool.false_or,
      Bool.and_true, Bool.xor_self]

/-- `m & -m` isolates it. -/
theorem and_neg : m &&& (0 - m) = BitVec.twoPow w p := by
  have hneg : 0 - m = ~~~(m - 1) := by
    have hnot : ~~~(m - 1) = -(m - 1) - 1 := BitVec.not_eq_neg_add _
    rw [hnot]
    ring
  apply BitVec.eq_of_getLsbD_eq
  intro j hj
  rw [hneg, BitVec.getLsbD_and, BitVec.getLsbD_not, h.getLsbD_sub_one, BitVec.getLsbD_twoPow,
    decide_eq_true hj, decide_eq_true h.lt, Bool.true_and, Bool.true_and]
  rcases Nat.lt_trichotomy j p with hlt | rfl | hgt
  · have hne : p ≠ j := by omega
    rw [h.below j hlt, decide_eq_false hne, Bool.false_and]
  · rw [h.set, decide_eq_false (Nat.lt_irrefl j), decide_eq_true rfl,
      decide_eq_false (fun hne => hne rfl)]
    rfl
  · have hne : j ≠ p := by omega
    have hnot : ¬ j < p := by omega
    rw [decide_eq_false hnot, decide_eq_true hne, decide_eq_false hne.symm, Bool.false_or,
      Bool.and_true, Bool.and_not_self]

end IsLowest

/-! ### The highest set bit -/

/-- `p` is the position of the highest set bit. -/
structure IsHighest (m : BitVec w) (p : Nat) : Prop where
  set : m.getLsbD p = true
  above : ∀ j, p < j → m.getLsbD j = false

theorem IsHighest.lt (h : IsHighest m p) : p < w := BitVec.lt_of_getLsbD h.set

theorem exists_isHighest (h : m ≠ 0) : ∃ p, IsHighest m p := by
  obtain ⟨q, hq⟩ := exists_isLowest h
  have hset : m.getLsbD (Nat.findGreatest (fun j => m.getLsbD j = true) w) = true :=
    Nat.findGreatest_spec (P := fun j => m.getLsbD j = true) (Nat.le_of_lt hq.lt) hq.set
  refine ⟨_, hset, fun j hj => ?_⟩
  by_cases hjw : j < w
  · exact Bool.eq_false_iff.mpr (Nat.findGreatest_is_greatest hj (Nat.le_of_lt hjw))
  · exact BitVec.getLsbD_of_ge m j (Nat.not_lt.mp hjw)

/-! ### The positions of the set bits -/

/-- The positions of the set bits, in increasing order. -/
def setBits (m : BitVec w) : List Nat := (List.range w).filter fun k => m.getLsbD k

theorem mem_setBits {k : Nat} : k ∈ setBits m ↔ m.getLsbD k = true := by
  rw [setBits, List.mem_filter, List.mem_range]
  exact ⟨fun h => h.2, fun h => ⟨BitVec.lt_of_getLsbD h, h⟩⟩

theorem setBits_sorted (m : BitVec w) : (setBits m).Pairwise (· < ·) :=
  List.pairwise_lt_range.filter _

theorem setBits_nodup (m : BitVec w) : (setBits m).Nodup :=
  (setBits_sorted m).imp Nat.ne_of_lt

theorem length_setBits_le (m : BitVec w) : (setBits m).length ≤ w := by
  have h := List.length_filter_le (fun k => m.getLsbD k) (List.range w)
  rw [List.length_range] at h
  exact h

theorem setBits_zero : setBits (0 : BitVec w) = [] := by
  apply List.eq_nil_iff_forall_not_mem.mpr
  intro k hk
  have hbit := mem_setBits.mp hk
  rw [show (0 : BitVec w).getLsbD k = false from BitVec.getLsbD_zero] at hbit
  cases hbit

/-- The lowest set bit comes first, and those that remain follow. -/
theorem IsLowest.setBits_eq (h : IsLowest m p) : setBits m = p :: setBits (m &&& (m - 1)) := by
  have hrest (k : Nat) : k ∈ setBits (m &&& (m - 1)) ↔ m.getLsbD k = true ∧ k ≠ p := by
    rw [mem_setBits, h.getLsbD_clear, Bool.and_eq_true, decide_eq_true_eq]
  have hsorted : (p :: setBits (m &&& (m - 1))).Pairwise (· < ·) := by
    rw [List.pairwise_cons]
    refine ⟨fun k hk => ?_, setBits_sorted _⟩
    obtain ⟨hset, hne⟩ := (hrest k).mp hk
    by_contra hnot
    have hbelow := h.below k (by omega)
    rw [hset] at hbelow
    cases hbelow
  have hmem (k : Nat) : k ∈ setBits m ↔ k ∈ p :: setBits (m &&& (m - 1)) := by
    rw [List.mem_cons, hrest, mem_setBits]
    constructor
    · intro hk
      by_cases hkp : k = p
      · exact Or.inl hkp
      · exact Or.inr ⟨hk, hkp⟩
    · rintro (rfl | hk)
      · exact h.set
      · exact hk.1
  have hperm : (setBits m).Perm (p :: setBits (m &&& (m - 1))) :=
    (List.perm_ext_iff_of_nodup (setBits_nodup m) (hsorted.imp Nat.ne_of_lt)).mpr hmem
  exact hperm.eq_of_pairwise (fun a b _ _ hab hba => absurd hab (Nat.lt_asymm hba))
    (setBits_sorted m) hsorted

/-- One set bit at a time, from the lowest up. -/
theorem peel {motive : BitVec w → Prop} (zero : motive 0)
    (step : ∀ m p, IsLowest m p → motive (m &&& (m - 1)) → motive m) (m : BitVec w) :
    motive m := by
  induction hn : (setBits m).length generalizing m with
  | zero =>
      by_cases hm : m = 0
      · rw [hm]
        exact zero
      · obtain ⟨p, hp⟩ := exists_isLowest hm
        rw [hp.setBits_eq] at hn
        cases hn
  | succ n ih =>
      by_cases hm : m = 0
      · rw [hm]
        exact zero
      · obtain ⟨p, hp⟩ := exists_isLowest hm
        rw [hp.setBits_eq, List.length_cons] at hn
        exact step m p hp (ih _ (Nat.succ.inj hn))

/-- Clearing the lowest set bit takes as many steps to zero as there are set bits. -/
theorem iterate_clear_eq_zero (m : BitVec w) (n : Nat) :
    (fun m : BitVec w => m &&& (m - 1))^[n] m = 0 ↔ (setBits m).length ≤ n := by
  induction m using peel generalizing n with
  | zero =>
      have hfixed : (fun m : BitVec w => m &&& (m - 1)) 0 = 0 := BitVec.zero_and
      rw [setBits_zero, Function.iterate_fixed hfixed n]
      exact ⟨fun _ => Nat.zero_le n, fun _ => rfl⟩
  | step m p hp ih =>
      cases n with
      | zero =>
          rw [hp.setBits_eq]
          exact ⟨fun hzero => absurd hzero hp.ne_zero, fun hle => (nomatch hle)⟩
      | succ n =>
          rw [Function.iterate_succ_apply, ih, hp.setBits_eq, List.length_cons,
            Nat.succ_le_succ_iff]

/-! ### Deposit and extraction -/

/-- Bit `i` of `x` is at the position of the `i`-th set bit of the mask, and no other bit is
set. -/
structure Deposits (x m r : BitVec w) : Prop where
  placed : ∀ i k, (setBits m)[i]? = some k → r.getLsbD k = x.getLsbD i
  clear : ∀ k, m.getLsbD k = false → r.getLsbD k = false

/-- The bit of `x` at the position of the `i`-th set bit of the mask is at `i`, and no other bit is
set. -/
structure Extracts (x m r : BitVec w) : Prop where
  taken : ∀ i k, (setBits m)[i]? = some k → r.getLsbD i = x.getLsbD k
  clear : ∀ i, (setBits m).length ≤ i → r.getLsbD i = false

variable {x d e : BitVec w}

theorem Deposits.unique (hd : Deposits x m d) (he : Deposits x m e) : d = e := by
  apply BitVec.eq_of_getLsbD_eq
  intro k _
  cases hset : m.getLsbD k with
  | false => rw [hd.clear k hset, he.clear k hset]
  | true =>
      obtain ⟨i, hi⟩ := List.mem_iff_getElem?.mp (mem_setBits.mpr hset)
      rw [hd.placed i k hi, he.placed i k hi]

theorem Extracts.unique (hd : Extracts x m d) (he : Extracts x m e) : d = e := by
  apply BitVec.eq_of_getLsbD_eq
  intro i _
  by_cases hi : i < (setBits m).length
  · have hk : (setBits m)[i]? = some (setBits m)[i] := List.getElem?_eq_getElem hi
    rw [hd.taken i _ hk, he.taken i _ hk]
  · rw [hd.clear i (Nat.le_of_not_lt hi), he.clear i (Nat.le_of_not_lt hi)]

/-- What a deposit has placed is extracted: the low bits, as many as the mask has. -/
theorem Extracts.of_deposits (hd : Deposits x m d) (he : Extracts d m e) (i : Nat) :
    e.getLsbD i = (decide (i < (setBits m).length) && x.getLsbD i) := by
  by_cases hi : i < (setBits m).length
  · have hk : (setBits m)[i]? = some (setBits m)[i] := List.getElem?_eq_getElem hi
    rw [he.taken i _ hk, hd.placed i _ hk, decide_eq_true hi, Bool.true_and]
  · rw [he.clear i (Nat.le_of_not_lt hi), decide_eq_false hi, Bool.false_and]

/-- What has been extracted is deposited where it was. -/
theorem Deposits.of_extracts (he : Extracts x m e) (hd : Deposits e m d) : d = x &&& m := by
  apply BitVec.eq_of_getLsbD_eq
  intro k _
  rw [BitVec.getLsbD_and]
  cases hset : m.getLsbD k with
  | false => rw [hd.clear k hset, Bool.and_false]
  | true =>
      obtain ⟨i, hi⟩ := List.mem_iff_getElem?.mp (mem_setBits.mpr hset)
      rw [hd.placed i k hi, he.taken i k hi, Bool.and_true]

end SetBits
