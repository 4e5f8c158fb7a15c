import PicoCpu.BitFields

/-!
The bit scans and bit counts: their results on the operand's width, and the portable loops that
count without an intrinsic.
-/

namespace PicoCpu

open H Proc Handlers SetBits ShiftCounts

inductive CountOp where
  | bsf | bsr | lzcnt | tzcnt | popcnt
  deriving DecidableEq, Repr

namespace CountOp

def handler : CountOp → Handler
  | bsf => .opBsf
  | bsr => .opBsr
  | lzcnt => .opLzcnt
  | tzcnt => .opTzcnt
  | popcnt => .opPopcnt

/-- The scans leave their destination alone when the source is zero. -/
def isScan : CountOp → Bool
  | bsf | bsr => true
  | lzcnt | tzcnt | popcnt => false

/-- `r` is the instruction's number for the operand. -/
def Counts (op : CountOp) {n : Nat} (s : BitVec n) (r : Nat) : Prop :=
  match op with
  | bsf => IsLowest s r
  | bsr => IsHighest s r
  | lzcnt => (s = 0 ∧ r = n) ∨ ∃ p, IsHighest s p ∧ r + p + 1 = n
  | tzcnt => (s = 0 ∧ r = n) ∨ IsLowest s r
  | popcnt => r = (setBits s).length

/-- The handlers' number for an operand of `width` bits. -/
def count (op : CountOp) (width : Nat) (src : U64) : Nat :=
  match op with
  | bsf | tzcnt => tzcountU64 src width
  | bsr => width - 1 - lzcountU64 src width
  | lzcnt => lzcountU64 src width
  | popcnt => popcountU64 src

end CountOp

/-! ### The counts of a word -/

section Words

variable {v : U64} {p : Nat}

theorem tzcountU64_of_lowest (h : IsLowest v p) (width : Nat) : tzcountU64 v width = p := by
  have hfind : (List.range 64).find? (fun i => v.getLsbD i) = some p := by
    apply List.find?_range_eq_some.mpr
    refine ⟨h.set, List.mem_range.mpr h.lt, fun j hj => ?_⟩
    rw [h.below j hj]
    rfl
  rw [tzcountU64, hfind]
  rfl

/-- The search from the top. -/
theorem find_reverse_range {f : Nat → Bool} (hset : f p = true) (habove : ∀ j, p < j → f j = false)
    {n : Nat} (hp : p < n) : (List.range n).reverse.find? f = some p := by
  induction n with
  | zero => omega
  | succ n ih =>
      rw [List.range_succ, List.reverse_append, List.reverse_singleton, List.singleton_append,
        List.find?_cons]
      by_cases hlast : p = n
      · rw [← hlast, hset]
      · rw [habove n (by omega)]
        exact ih (by omega)

theorem lzcountU64_of_highest (h : IsHighest v p) (width : Nat) :
    lzcountU64 v width = width - 1 - p := by
  rw [lzcountU64, find_reverse_range h.set h.above h.lt]

theorem count_zero (width : Nat) : tzcountU64 0 width = width ∧ lzcountU64 0 width = width := by
  have hnone (i : Nat) : (0 : U64).getLsbD i = false := BitVec.getLsbD_zero
  constructor
  · have hfind : (List.range 64).find? (fun i => (0 : U64).getLsbD i) = none :=
      List.find?_eq_none.mpr fun i _ => by rw [hnone i]; decide
    rw [tzcountU64, hfind]
    rfl
  · have hfind : (List.range 64).reverse.find? (fun i => (0 : U64).getLsbD i) = none :=
      List.find?_eq_none.mpr fun i _ => by rw [hnone i]; decide
    rw [lzcountU64, hfind]

end Words

section Operands

variable {n : Nat} (hn : n ≤ 64) (s : BitVec n)
include hn

theorem highest_word {p : Nat} (h : IsHighest s p) : IsHighest (s.setWidth 64) p := by
  have hlt := h.lt
  refine ⟨?_, fun j hj => ?_⟩
  · rw [getLsbD_word s (by omega)]
    exact h.set
  · rw [BitVec.getLsbD_setWidth, h.above j hj, Bool.and_false]

/-- An operand has the set bits of its word. -/
theorem length_setBits_word : (setBits (s.setWidth 64)).length = (setBits s).length := by
  have hsame : (setBits (s.setWidth 64)).Perm (setBits s) := by
    rw [List.perm_ext_iff_of_nodup (setBits_nodup _) (setBits_nodup _)]
    intro k
    rw [mem_setBits, mem_setBits, BitVec.getLsbD_setWidth, Bool.and_eq_true, decide_eq_true_eq]
    exact ⟨fun h => h.2, fun h => ⟨(BitVec.lt_of_getLsbD h).trans_le hn, h⟩⟩
  exact hsame.length_eq

/-- The handlers count what the instructions are defined to. -/
theorem counts_count (op : CountOp) (hscan : op.isScan = true → s ≠ 0) :
    op.Counts s (op.count n (s.setWidth 64)) := by
  have hword : (0 : BitVec n).setWidth 64 = (0 : U64) := BitVec.setWidth_zero ..
  have hzero : op = .tzcnt ∨ op = .lzcnt → s = 0 →
      op.Counts s (op.count n (s.setWidth 64)) := by
    rintro (rfl | rfl) rfl
    · exact .inl ⟨rfl, by rw [hword]; exact (count_zero n).1⟩
    · exact .inl ⟨rfl, by rw [hword]; exact (count_zero n).2⟩
  have hlowest (h : s ≠ 0) : IsLowest s (tzcountU64 (s.setWidth 64) n) := by
    obtain ⟨p, hp⟩ := exists_isLowest h
    rw [tzcountU64_of_lowest (lowest_word s hn hp)]
    exact hp
  have hhighest (h : s ≠ 0) :
      ∃ p, IsHighest s p ∧ lzcountU64 (s.setWidth 64) n + p + 1 = n := by
    obtain ⟨p, hp⟩ := exists_isHighest h
    have hlt := hp.lt
    rw [lzcountU64_of_highest (highest_word hn s hp)]
    exact ⟨p, hp, by omega⟩
  cases op with
  | bsf => exact hlowest (hscan rfl)
  | bsr =>
      obtain ⟨p, hp, hsum⟩ := hhighest (hscan rfl)
      have hindex : n - 1 - lzcountU64 (s.setWidth 64) n = p := by omega
      rw [CountOp.count, hindex]
      exact hp
  | lzcnt =>
      by_cases h : s = 0
      · exact hzero (.inr rfl) h
      · exact .inr (hhighest h)
  | tzcnt =>
      by_cases h : s = 0
      · exact hzero (.inl rfl) h
      · exact .inr (hlowest h)
  | popcnt => exact (length_setBits _).symm.trans (length_setBits_word hn s)

/-- No count exceeds the width. -/
theorem count_le (op : CountOp) (hscan : op.isScan = true → s ≠ 0) :
    op.count n (s.setWidth 64) ≤ n := by
  have h := counts_count hn s op hscan
  generalize op.count n (s.setWidth 64) = r at h ⊢
  cases op with
  | bsf => exact Nat.le_of_lt (IsLowest.lt h)
  | bsr => exact Nat.le_of_lt (IsHighest.lt h)
  | lzcnt =>
      rcases h with ⟨_, rfl⟩ | ⟨p, _, hsum⟩
      · exact Nat.le_refl _
      · omega
  | tzcnt =>
      rcases h with ⟨_, rfl⟩ | hp
      · exact Nat.le_refl _
      · exact Nat.le_of_lt hp.lt
  | popcnt =>
      rw [show r = (setBits s).length from h]
      exact length_setBits_le s

end Operands

/-! ### The portable loops -/

/-- The loop of `tzcount_u64` without an intrinsic, from `n` on. -/
def hostTzLoop (v : U64) (width : Nat) : Nat → Nat → Option Nat
  | 0, _ => none
  | fuel + 1, n => do
    let shifted ← hostShr v n
    if shifted &&& 1 = 0 ∧ n < width then hostTzLoop v width fuel (n + 1) else some n

def hostTz (v : U64) (width : Nat) : Option Nat :=
  if v = 0 then some width else hostTzLoop v width (width + 1) 0

/-- The loop of `lzcount_u64`. The count is computed in 32 bits without sign. -/
def hostLzLoop (v : U64) (width : Nat) : Nat → Nat → Option Nat
  | 0, _ => none
  | fuel + 1, n => do
    let shifted ← hostShr v ((2 ^ 32 + width - 1 - n) % 2 ^ 32)
    if shifted &&& 1 = 0 ∧ n < width then hostLzLoop v width fuel (n + 1) else some n

def hostLz (v : U64) (width : Nat) : Option Nat :=
  if v = 0 then some width else hostLzLoop v width (width + 1) 0

/-- The loop of `popcount_u64`. -/
def hostPopLoop : Nat → U64 → Nat → Option Nat
  | 0, _, _ => none
  | fuel + 1, v, n =>
    if v = 0 then some n
    else do
      let shifted ← hostShr v 1
      hostPopLoop fuel shifted (n + (v &&& 1).toNat)

section Loops

variable {v : U64} {p width : Nat}

/-- The test of a shifted word's lowest bit. -/
theorem and_one_eq_zero_iff (v : U64) (k : Nat) : v >>> k &&& 1 = 0 ↔ v.getLsbD k = false := by
  have hbit := and_one_bne (v >>> k)
  rw [BitVec.getLsbD_ushiftRight, Nat.add_zero] at hbit
  rw [← hbit, bne_eq_false_iff_eq]

/-- Below the lowest set bit the loop goes on, and there it stops. -/
theorem hostTzLoop_eq (h : IsLowest v p) (hwidth : width ≤ 64) (hp : p < width) {fuel n : Nat}
    (hn : n ≤ p) (hfuel : p < n + fuel) : hostTzLoop v width fuel n = some p := by
  induction fuel generalizing n with
  | zero => omega
  | succ fuel ih =>
      rw [hostTzLoop, hostShr_of_lt v (by omega)]
      simp only [Option.bind_eq_bind, Option.bind_some, and_one_eq_zero_iff]
      by_cases hlast : n = p
      · rw [hlast, h.set, if_neg (fun hbit => Bool.noConfusion hbit.1)]
      · rw [if_pos ⟨h.below n (by omega), by omega⟩]
        exact ih (by omega) (by omega)

theorem hostLzLoop_eq (h : IsHighest v p) (hwidth : width ≤ 64) (hp : p < width) {fuel n : Nat}
    (hn : n + p < width) (hfuel : width ≤ n + p + fuel) :
    hostLzLoop v width fuel n = some (width - 1 - p) := by
  induction fuel generalizing n with
  | zero => omega
  | succ fuel ih =>
      have hcount : (2 ^ 32 + width - 1 - n) % 2 ^ 32 = width - 1 - n := by omega
      rw [hostLzLoop, hcount, hostShr_of_lt v (by omega)]
      simp only [Option.bind_eq_bind, Option.bind_some, and_one_eq_zero_iff]
      by_cases hlast : n + p + 1 = width
      · have hindex : width - 1 - n = p := by omega
        have hresult : width - 1 - p = n := by omega
        rw [hindex, h.set, if_neg (fun hbit => Bool.noConfusion hbit.1), hresult]
      · rw [if_pos ⟨h.above _ (by omega), by omega⟩]
        exact ih (by omega) (by omega)

theorem hostTz_eq (hwidth : width ≤ 64) (hv : ∀ j, width ≤ j → v.getLsbD j = false) :
    hostTz v width = some (tzcountU64 v width) := by
  rw [hostTz]
  split
  next hzero => rw [hzero, (count_zero width).1]
  next hne =>
    obtain ⟨p, hp⟩ := exists_isLowest hne
    have hlt : p < width := by
      by_contra hge
      have hnone := hv p (Nat.not_lt.mp hge)
      rw [hp.set] at hnone
      cases hnone
    rw [tzcountU64_of_lowest hp, hostTzLoop_eq hp hwidth hlt (Nat.zero_le p) (by omega)]

theorem hostLz_eq (hwidth : width ≤ 64) (hv : ∀ j, width ≤ j → v.getLsbD j = false) :
    hostLz v width = some (lzcountU64 v width) := by
  rw [hostLz]
  split
  next hzero => rw [hzero, (count_zero width).2]
  next hne =>
    obtain ⟨p, hp⟩ := exists_isHighest hne
    have hlt : p < width := by
      by_contra hge
      have hnone := hv p (Nat.not_lt.mp hge)
      rw [hp.set] at hnone
      cases hnone
    rw [lzcountU64_of_highest hp, hostLzLoop_eq hp hwidth hlt (by omega) (by omega)]

/-- A count is that of the lowest bit and of the rest. -/
theorem popcountU64_step (v : U64) :
    popcountU64 v = (v &&& 1).toNat + popcountU64 (v >>> 1) := by
  have hlow : (v &&& 1).toNat = if v.getLsbD 0 then 1 else 0 := by
    have hmod : (v &&& 1).toNat = v.toNat % 2 := by
      rw [BitVec.toNat_and]
      exact Nat.and_two_pow_sub_one_eq_mod v.toNat 1
    rw [hmod, getLsbD_eq_decide, pow_zero, Nat.div_one]
    split
    next hodd => exact of_decide_eq_true hodd
    next heven =>
      have hne : ¬ v.toNat % 2 = 1 := fun hodd => heven (decide_eq_true hodd)
      omega
  have hrest : popcountU64 (v >>> 1) =
      (List.range 63).countP fun i => v.getLsbD (i + 1) := by
    have htop : v.getLsbD (1 + 63) = false := BitVec.getLsbD_of_ge v _ (by decide)
    have hrange : List.range 64 = List.range 63 ++ [63] := List.range_succ
    rw [popcountU64, hrange, List.countP_append, List.countP_singleton,
      BitVec.getLsbD_ushiftRight, htop, if_neg Bool.false_ne_true, Nat.add_zero]
    simp only [BitVec.getLsbD_ushiftRight, Nat.add_comm]
  have hrange : List.range 64 = 0 :: (List.range 63).map Nat.succ := List.range_succ_eq_map
  rw [hrest, hlow, popcountU64, hrange, List.countP_cons, List.countP_map, Nat.add_comm]
  rfl

/-- As many passes as the word has bits, and one to see that nothing is left. -/
theorem hostPopLoop_eq {fuel : Nat} (hv : v.toNat < 2 ^ fuel) (n : Nat) :
    hostPopLoop (fuel + 1) v n = some (n + popcountU64 v) := by
  induction fuel generalizing v n with
  | zero =>
      have hzero : v = 0 := by
        apply BitVec.eq_of_toNat_eq
        simpa using hv
      rw [hostPopLoop, if_pos hzero, hzero]
      rfl
  | succ fuel ih =>
      rw [hostPopLoop]
      split
      next hzero =>
        rw [hzero]
        rfl
      next =>
        have hshift : (v >>> 1).toNat < 2 ^ fuel := by
          rw [BitVec.toNat_ushiftRight, Nat.shiftRight_eq_div_pow]
          omega
        rw [hostShr_of_lt v (by decide)]
        exact (ih hshift _).trans (by rw [popcountU64_step v, Nat.add_assoc])

end Loops

namespace CountOp

/-- The number as the portable code computes it. -/
def host (op : CountOp) (width : Nat) (src : U64) : Option Nat :=
  match op with
  | bsf | tzcnt => hostTz src width
  | bsr => (hostLz src width).map (width - 1 - ·)
  | lzcnt => hostLz src width
  | popcnt => hostPopLoop 65 src 0

/-- The portable code counts what the intrinsics do, with host shifts that are defined. -/
theorem host_eq {width : Nat} (op : CountOp) {src : U64} (hwidth : width ≤ 64)
    (hsrc : ∀ j, width ≤ j → src.getLsbD j = false) :
    op.host width src = some (op.count width src) := by
  cases op with
  | bsf => exact hostTz_eq hwidth hsrc
  | bsr =>
      rw [host, hostLz_eq hwidth hsrc]
      rfl
  | lzcnt => exact hostLz_eq hwidth hsrc
  | tzcnt => exact hostTz_eq hwidth hsrc
  | popcnt =>
      rw [host, hostPopLoop_eq src.isLt, Nat.zero_add]
      rfl

end CountOp

end PicoCpu
