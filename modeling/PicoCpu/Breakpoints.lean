import PicoCpu.Cpu
import Mathlib.Order.Interval.Set.LinearOrder

/-!
The breakpoint registers: which of the four are hit by an access or by an instruction's address,
ranges taken over the integers, and when the scan that stops at the first one reports exactly those.
-/

namespace PicoCpu

namespace Cpu

/-! ### What is hit -/

/-- Breakpoint `n` is of the kind of the access: 01 for stores, 11 for both. -/
def drWatches (c : Cpu) (isWrite : Bool) (n : Nat) : Bool :=
  c.drEnabled n && ((c.drCond n == 1 && isWrite) || c.drCond n == 3)

/-- The addresses that breakpoint `n` watches. -/
def drRange (c : Cpu) (n : Nat) : Set ℕ :=
  Set.Ico (c.dr n).toNat ((c.dr n).toNat + (c.drLen n).toNat)

/-- The access meets what breakpoint `n` watches. -/
def DataHit (c : Cpu) (addr : GuestAddr) (isWrite : Bool) (size : U8) (n : Nat) : Prop :=
  c.drWatches isWrite n = true ∧
    (c.drRange n ∩ Set.Ico addr.toNat (addr.toNat + size.toNat)).Nonempty

def ExecHit (c : Cpu) (rip : GuestAddr) (n : Nat) : Prop :=
  c.drEnabled n = true ∧ c.drCond n = 0 ∧ c.dr n = rip

/-- The answer says whether any of the four is hit, and the bits of those that are join DR6. -/
structure Reports (hit : Nat → Prop) (c : Cpu) (answer : Bool × Cpu) : Prop where
  found : answer.1 = true ↔ ∃ n < 4, hit n
  status : ∀ k, (answer.2.dr 6).getLsbD k = true ↔ (c.dr 6).getLsbD k = true ∨ (k < 4 ∧ hit k)
  rest : answer.2 = { c with dr := Function.update c.dr 6 (answer.2.dr 6) }

/-! ### The scan -/

section Scan

variable {c : Cpu} {hit : Nat → Prop} {test : Nat → Bool}

theorem firstDr_none (h : ∀ n < 4, test n = false) : c.firstDr test = (false, c) := by
  have hnone : [0, 1, 2, 3].find? test = none := by
    rw [List.find?_eq_none]
    intro n hn
    have hlt : n < 4 := by simp at hn; omega
    rw [h n hlt]
    exact Bool.false_ne_true
  rw [firstDr, hnone]

theorem firstDr_some {n : Nat} (hn : n < 4) (htest : test n = true)
    (hfirst : ∀ m < n, test m = false) : c.firstDr test = (true, c.setDr6Bit n) := by
  have hsome : (List.range 4).find? test = some n := by
    rw [List.find?_range_eq_some]
    refine ⟨htest, List.mem_range.mpr hn, fun m hm => ?_⟩
    rw [hfirst m hm]
    rfl
  have hrange : List.range 4 = [0, 1, 2, 3] := by decide
  rw [hrange] at hsome
  rw [firstDr, hsome]

/-- The scan finds nothing, or the first register that passes the test. -/
theorem firstDr_cases (test : Nat → Bool) : (∀ n < 4, test n = false) ∨
    ∃ n < 4, test n = true ∧ ∀ m < n, test m = false := by
  by_cases h : ∃ n, n < 4 ∧ test n = true
  · obtain ⟨hlt, htest⟩ := Nat.find_spec h
    refine .inr ⟨Nat.find h, hlt, htest, fun m hm => ?_⟩
    have hnot := Nat.find_min h hm
    rw [not_and, Bool.not_eq_true] at hnot
    exact hnot (hm.trans hlt)
  · refine .inl fun n hn => ?_
    rw [← Bool.not_eq_true]
    exact fun htest => h ⟨n, hn, htest⟩

theorem dr_setDr6Bit (c : Cpu) (n : Nat) : (c.setDr6Bit n).dr 6 = c.dr 6 ||| (1#64 <<< n) := by
  rw [setDr6Bit]
  exact Function.update_self 6 (c.dr 6 ||| (1#64 <<< n)) c.dr

theorem getLsbD_setDr6Bit {n : Nat} (hn : n < 4) (k : Nat) :
    ((c.setDr6Bit n).dr 6).getLsbD k = true ↔ (c.dr 6).getLsbD k = true ∨ k = n := by
  have hbit : (1#64 <<< n).getLsbD k = true ↔ k = n := by
    rw [← BitVec.twoPow_eq, BitVec.getLsbD_twoPow]
    simp
    omega
  rw [dr_setDr6Bit, BitVec.getLsbD_or, Bool.or_eq_true, hbit]

theorem reports_none_iff : Reports hit c (false, c) ↔ ∀ n < 4, ¬ hit n := by
  constructor
  · rintro ⟨hfound, _, _⟩ n hn hhit
    cases hfound.mpr ⟨n, hn, hhit⟩
  · intro h
    refine ⟨?_, fun k => ?_, by rw [Function.update_eq_self]⟩
    · constructor
      · intro hfalse
        cases hfalse
      · rintro ⟨n, hn, hhit⟩
        exact absurd hhit (h n hn)
    · constructor
      · exact .inl
      · rintro (hk | ⟨hk, hhit⟩)
        · exact hk
        · exact absurd hhit (h k hk)

/-- With one bit set, the others that are hit must have been set before. -/
theorem reports_some_iff {n : Nat} (hn : n < 4) (hhit : hit n) :
    Reports hit c (true, c.setDr6Bit n) ↔
      ∀ m < 4, hit m → m ≠ n → (c.dr 6).getLsbD m = true := by
  constructor
  · rintro ⟨_, hstatus, _⟩ m hm hmhit hne
    rcases (getLsbD_setDr6Bit hn m).mp ((hstatus m).mpr (.inr ⟨hm, hmhit⟩)) with hset | heq
    · exact hset
    · exact absurd heq hne
  · intro h
    refine ⟨⟨fun _ => ⟨n, hn, hhit⟩, fun _ => rfl⟩, fun k => ?_, ?_⟩
    · rw [getLsbD_setDr6Bit hn]
      constructor
      · rintro (hset | rfl)
        · exact .inl hset
        · exact .inr ⟨hn, hhit⟩
      · rintro (hset | ⟨hk, hkhit⟩)
        · exact .inl hset
        · by_cases heq : k = n
          · exact .inr heq
          · exact .inl (h k hk hkhit heq)
    · rw [dr_setDr6Bit]
      rfl

/-- A test that only registers that are hit pass. -/
theorem reports_firstDr_iff (hsound : ∀ n < 4, test n = true → hit n) :
    Reports hit c (c.firstDr test) ↔ (∀ n < 4, ¬ hit n) ∨
      ∃ n < 4, test n = true ∧ (∀ m < n, test m = false) ∧
        ∀ m < 4, hit m → m ≠ n → (c.dr 6).getLsbD m = true := by
  rcases firstDr_cases test with hnone | ⟨n, hn, htest, hfirst⟩
  · rw [firstDr_none hnone, reports_none_iff]
    constructor
    · exact .inl
    · rintro (h | ⟨n, hn, htest, _⟩)
      · exact h
      · rw [hnone n hn] at htest
        cases htest
  · rw [firstDr_some hn htest hfirst, reports_some_iff hn (hsound n hn htest)]
    constructor
    · exact fun h => .inr ⟨n, hn, htest, hfirst, h⟩
    · rintro (h | ⟨n', hn', htest', hfirst', h⟩)
      · exact absurd (hsound n hn htest) (h n hn)
      · have hsame : n' = n := by
          rcases Nat.lt_trichotomy n' n with hlt | heq | hlt
          · rw [hfirst n' hlt] at htest'
            cases htest'
          · exact heq
          · rw [hfirst' n hlt] at htest
            cases htest
        exact hsame ▸ h

end Scan

/-! ### The ranges -/

section Ranges

variable {c : Cpu} {addr : GuestAddr} {isWrite : Bool} {size : U8}

/-- The test of `data_breakpoint_at`, its sums taken modulo 2^64. -/
def dataTest (c : Cpu) (addr : GuestAddr) (isWrite : Bool) (size n : Nat) : Bool :=
  c.drEnabled n && ((c.drCond n == 1 && isWrite) || c.drCond n == 3) &&
    decide (addr < c.dr n + c.drLen n) && decide (c.dr n < addr + BitVec.ofNat 64 size)

theorem drLen_bounds (c : Cpu) (n : Nat) : 1 ≤ (c.drLen n).toNat ∧ (c.drLen n).toNat ≤ 8 := by
  unfold drLen
  split <;> decide

theorem dataHit_iff {n : Nat} : c.DataHit addr isWrite size n ↔ c.drWatches isWrite n = true ∧
    0 < size.toNat ∧ addr.toNat < (c.dr n).toNat + (c.drLen n).toNat ∧
      (c.dr n).toNat < addr.toNat + size.toNat := by
  have hlen := (drLen_bounds c n).1
  rw [DataHit, drRange, Set.Ico_inter_Ico, Set.nonempty_Ico, lt_min_iff, max_lt_iff, max_lt_iff]
  refine and_congr_right fun _ => ?_
  omega

/-- Where something is accessed the test is that of the integers, on ranges that end in 64 bits. -/
theorem dataTest_iff (hsize : 0 < size.toNat) {n : Nat} :
    c.dataTest addr isWrite size.toNat n = true ↔ c.DataHit addr isWrite size n ∧
      addr.toNat + size.toNat < 2 ^ 64 ∧ (c.dr n).toNat + (c.drLen n).toNat < 2 ^ 64 := by
  have hlen := drLen_bounds c n
  have hdr := (c.dr n).isLt
  have haddr := addr.isLt
  have hbyte := size.isLt
  rw [dataHit_iff, drWatches, dataTest, Bool.and_eq_true, Bool.and_eq_true, decide_eq_true_eq,
    decide_eq_true_eq, BitVec.lt_def, BitVec.lt_def, BitVec.toNat_add, BitVec.toNat_add,
    BitVec.toNat_ofNat, and_assoc, and_assoc]
  refine and_congr_right fun _ => ?_
  omega

/-- An access to nothing passes the test strictly inside a watched range. -/
theorem dataTest_empty_iff (hsize : size.toNat = 0) {n : Nat} :
    c.dataTest addr isWrite size.toNat n = true ↔ c.drWatches isWrite n = true ∧
      (c.dr n).toNat < addr.toNat ∧ addr.toNat < (c.dr n).toNat + (c.drLen n).toNat ∧
        (c.dr n).toNat + (c.drLen n).toNat < 2 ^ 64 := by
  have hlen := drLen_bounds c n
  have hdr := (c.dr n).isLt
  have haddr := addr.isLt
  rw [drWatches, dataTest, Bool.and_eq_true, Bool.and_eq_true, decide_eq_true_eq,
    decide_eq_true_eq, BitVec.lt_def, BitVec.lt_def, BitVec.toNat_add, BitVec.toNat_add,
    BitVec.toNat_ofNat, hsize, and_assoc]
  refine and_congr_right fun _ => ?_
  omega

end Ranges

/-! ### The exact condition -/

/-- Nothing is hit; or the access ends in 64 bits, and every register that is hit has its bit set
already, but for the first of those whose range ends in 64 bits. -/
def DataRight (c : Cpu) (addr : GuestAddr) (isWrite : Bool) (size : U8) : Prop :=
  if 0 < size.toNat then
    (∀ n < 4, ¬ c.DataHit addr isWrite size n) ∨ addr.toNat + size.toNat < 2 ^ 64 ∧
      ∃ n < 4, c.DataHit addr isWrite size n ∧ (c.dr n).toNat + (c.drLen n).toNat < 2 ^ 64 ∧
        (∀ m < n, c.DataHit addr isWrite size m → 2 ^ 64 ≤ (c.dr m).toNat + (c.drLen m).toNat) ∧
        ∀ m < 4, c.DataHit addr isWrite size m → m ≠ n → (c.dr 6).getLsbD m = true
  else ∀ n < 4, c.drWatches isWrite n = true → (c.dr n).toNat < addr.toNat →
    addr.toNat < (c.dr n).toNat + (c.drLen n).toNat →
      2 ^ 64 ≤ (c.dr n).toNat + (c.drLen n).toNat

/-- Every register that is hit after another has its bit set already. -/
def ExecRight (c : Cpu) (rip : GuestAddr) : Prop :=
  ∀ n m, n < m → m < 4 → c.ExecHit rip n → c.ExecHit rip m → (c.dr 6).getLsbD m = true

theorem reports_data_iff (c : Cpu) (addr : GuestAddr) (isWrite : Bool) (size : U8) :
    Reports (c.DataHit addr isWrite size) c (c.dataBreakpointAt addr isWrite size.toNat) ↔
      c.DataRight addr isWrite size := by
  change Reports _ c (c.firstDr (c.dataTest addr isWrite size.toNat)) ↔ _
  rw [DataRight]
  split
  next hsize =>
    rw [reports_firstDr_iff fun n _ htest => ((dataTest_iff hsize).mp htest).1]
    refine or_congr_right ?_
    constructor
    · rintro ⟨n, hn, htest, hfirst, hothers⟩
      obtain ⟨hhit, haccess, hrange⟩ := (dataTest_iff hsize).mp htest
      refine ⟨haccess, n, hn, hhit, hrange, fun m hm hmhit => ?_, hothers⟩
      by_contra hlow
      have hmtest := (dataTest_iff hsize).mpr ⟨hmhit, haccess, Nat.lt_of_not_le hlow⟩
      rw [hfirst m hm] at hmtest
      cases hmtest
    · rintro ⟨haccess, n, hn, hhit, hrange, hfirst, hothers⟩
      refine ⟨n, hn, (dataTest_iff hsize).mpr ⟨hhit, haccess, hrange⟩, fun m hm => ?_, hothers⟩
      rw [← Bool.not_eq_true, dataTest_iff hsize]
      rintro ⟨hmhit, _, hmrange⟩
      exact Nat.not_le_of_lt hmrange (hfirst m hm hmhit)
  next hsize =>
    have hempty : size.toNat = 0 := Nat.eq_zero_of_not_pos hsize
    have hnothing (n : Nat) : ¬ c.DataHit addr isWrite size n := by
      rw [dataHit_iff]
      exact fun h => hsize h.2.1
    rcases firstDr_cases (c.dataTest addr isWrite size.toNat) with hnone | ⟨n, hn, htest, hfirst⟩
    · rw [firstDr_none hnone, reports_none_iff]
      refine iff_of_true (fun n _ => hnothing n) fun n hn hwatches hlow hhigh => ?_
      by_contra hrange
      have htest := (dataTest_empty_iff hempty).mpr ⟨hwatches, hlow, hhigh, Nat.lt_of_not_le hrange⟩
      rw [hnone n hn] at htest
      cases htest
    · rw [firstDr_some hn htest hfirst]
      refine iff_of_false (fun h => ?_) fun h => ?_
      · obtain ⟨m, _, hhit⟩ := h.found.mp rfl
        exact hnothing m hhit
      · obtain ⟨hwatches, hlow, hhigh, hrange⟩ := (dataTest_empty_iff hempty).mp htest
        exact Nat.not_le_of_lt hrange (h n hn hwatches hlow hhigh)

theorem reports_exec_iff (c : Cpu) (rip : GuestAddr) :
    Reports (c.ExecHit rip) c (c.execBreakpointAt rip) ↔ c.ExecRight rip := by
  have htest (n : Nat) : (c.drEnabled n && c.drCond n == 0 && c.dr n == rip) = true ↔
      c.ExecHit rip n := by
    rw [ExecHit, Bool.and_eq_true, Bool.and_eq_true, beq_iff_eq, beq_iff_eq, and_assoc]
  rw [execBreakpointAt, reports_firstDr_iff fun n _ h => (htest n).mp h, ExecRight]
  simp only [htest, ← Bool.not_eq_true]
  constructor
  · rintro (hnone | ⟨n, _, hhit, hfirst, hothers⟩) k m hkm hm hk hmhit
    · exact absurd hmhit (hnone m hm)
    · refine hothers m hm hmhit fun heq => ?_
      exact hfirst k (heq ▸ hkm) hk
  · intro h
    rcases firstDr_cases fun n => c.drEnabled n && c.drCond n == 0 && c.dr n == rip with
      hnone | ⟨n, hn, hhit, hfirst⟩
    · refine .inl fun n hn hhit => ?_
      have hpass := (htest n).mpr hhit
      rw [hnone n hn] at hpass
      cases hpass
    · have hfirst' : ∀ m < n, ¬ c.ExecHit rip m := by
        intro m hm hmhit
        have hpass := (htest m).mpr hmhit
        rw [hfirst m hm] at hpass
        cases hpass
      refine .inr ⟨n, hn, (htest n).mp hhit, hfirst', fun m hm hmhit hne => ?_⟩
      rcases Nat.lt_or_gt_of_ne hne with hlt | hgt
      · exact absurd hmhit (hfirst' m hlt)
      · exact h n m hgt hm ((htest n).mp hhit) hmhit

/-- Both scans report exactly what is hit precisely under these conditions. -/
theorem breakpoints_report_iff (c : Cpu) :
    (∀ addr isWrite size, Reports (c.DataHit addr isWrite size) c
        (c.dataBreakpointAt addr isWrite size.toNat) ↔ c.DataRight addr isWrite size) ∧
      ∀ rip, Reports (c.ExecHit rip) c (c.execBreakpointAt rip) ↔ c.ExecRight rip :=
  ⟨reports_data_iff c, reports_exec_iff c⟩

/-! ### Two breakpoints on one access -/

/-- Breakpoints 0 and 1 watch the byte at 1000 for stores. -/
def watchedTwice : Cpu :=
  { dr := fun n => if n < 2 then 0x1000 else if n = 7 then 0x110005 else 0 }

/-- Only the first of the two shows in DR6. -/
theorem second_breakpoint_unreported :
    ¬ Reports (watchedTwice.DataHit 0x1000 true 1) watchedTwice
      (watchedTwice.dataBreakpointAt 0x1000 true 1) := by
  intro h
  have hhit : watchedTwice.DataHit 0x1000 true 1 1 := dataHit_iff.mpr (by decide)
  have hbit := (h.status 1).mpr (.inr ⟨by decide, hhit⟩)
  exact absurd hbit (by decide)

end Cpu

end PicoCpu
