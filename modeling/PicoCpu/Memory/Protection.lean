import PicoCpu.Memory.ShadowPages

/-!
Write protection of the shadow pages over any sequence of calls: `protect` narrows or widens a
range, `add_private_region` changes the default, and a write is refused before its first byte or
taken whole. The ranges of the calls are read as intervals of numbers here; the code computes
their ends modulo `2 ^ 64`.
-/

namespace PicoCpu

open Granule

namespace ShadowPages

/-- `write` with the calls of the write listener it makes. -/
def writeNotifying (addr : GuestAddr) (size : U64) (data : Buf) (sp : ShadowPages) :
    Except Status Unit × List (GuestAddr × U64) × ShadowPages :=
  if size = 0 then (.ok (), [], sp)
  else if sp.writable addr size.toNat = false then (.error .protectionViolation, [], sp)
  else
    let sp' := patchRange pageShift patch addr size.toNat data sp
    (.ok (), if sp'.touchesCode addr size.toNat then [(addr, size)] else [], sp')

theorem writeNotifying_eq_write (addr : GuestAddr) (size : U64) (data : Buf) (sp : ShadowPages) :
    ((writeNotifying addr size data sp).1, (writeNotifying addr size data sp).2.2) =
      write addr size.toNat data sp := by
  have hzero : size = 0 ↔ size.toNat = 0 := by
    rw [← BitVec.toNat_inj]
    rfl
  unfold writeNotifying write
  simp only [hzero]
  split
  · rfl
  · split
    · rfl
    · rfl

/-- The calls on the shadow pages. -/
inductive Call where
  | protect (base : GuestAddr) (size : U64) (prot : U8)
  | addPrivateRegion (base : GuestAddr) (size : U64)
  | addCodeRange (base : GuestAddr) (size : U64)
  | write (addr : GuestAddr) (size : U64) (data : Buf)

def Call.apply (sp : ShadowPages) : Call → ShadowPages
  | .protect base size prot => sp.protect base size prot
  | .addPrivateRegion base size => sp.addPrivateRegion base size
  | .addCodeRange base size => sp.addCodeRange base size
  | .write addr size data => (writeNotifying addr size data sp).2.2

/-- The state after the calls, the latest of them first. -/
def after (backing : Option Backing) : List Call → ShadowPages
  | [] => { backing }
  | call :: earlier => call.apply (after backing earlier)

/-! ### The permission of a byte, by the calls -/

/-- The byte lies in `[base, base + size)`. -/
def Covers (base : GuestAddr) (size : U64) (a : GuestAddr) : Prop :=
  base.toNat ≤ a.toNat ∧ a.toNat < base.toNat + size.toNat

instance (base : GuestAddr) (size : U64) (a : GuestAddr) : Decidable (Covers base size a) :=
  inferInstanceAs (Decidable (_ ∧ _))

/-- What the most recent `protect` over the byte set. -/
def latestProt (a : GuestAddr) : List Call → Option U8
  | [] => none
  | .protect base size prot :: earlier =>
    if Covers base size a then some prot else latestProt a earlier
  | _ :: earlier => latestProt a earlier

/-- Some private region holds the byte. -/
def InPrivate (a : GuestAddr) (calls : List Call) : Prop :=
  ∃ base size, Call.addPrivateRegion base size ∈ calls ∧ Covers base size a

open Classical in
/-- The latest protection over the byte, else read and write in a private region and read only
outside. -/
noncomputable def permission (a : GuestAddr) (calls : List Call) : U8 :=
  match latestProt a calls with
  | some prot => prot
  | none => if InPrivate a calls then PROT_R ||| PROT_W else PROT_R

def MayWrite (a : GuestAddr) (calls : List Call) : Prop := permission a calls &&& PROT_W ≠ 0

/-- The range of the call, if it registers one, ends below `2 ^ 64`. -/
def Call.EndsBelow : Call → Prop
  | .protect base size _ => base.toNat + size.toNat < 2 ^ 64
  | .addPrivateRegion base size => base.toNat + size.toNat < 2 ^ 64
  | .addCodeRange _ _ => True
  | .write _ _ _ => True

/-! ### The code's test of one byte -/

theorem covers_iff_within {base : GuestAddr} {size : U64} (hend : base.toNat + size.toNat < 2 ^ 64)
    (a : GuestAddr) : (base.ule a && a.ult (base + size)) = true ↔ Covers base size a := by
  have hsum : (base + size).toNat = base.toNat + size.toNat := by
    rw [BitVec.toNat_add, Nat.mod_eq_of_lt hend]
  rw [Bool.and_eq_true, BitVec.ule_iff_toNat_le, BitVec.ult_iff_toNat_lt, hsum]
  exact Iff.rfl

theorem covers_iff_within_private {base : GuestAddr} {size : U64}
    (hend : base.toNat + size.toNat < 2 ^ 64) {a : GuestAddr} (ha : a.toNat + 1 < 2 ^ 64) :
    (base.ule a && (a + 1).ule (base + size)) = true ↔ Covers base size a := by
  have hsum : (base + size).toNat = base.toNat + size.toNat := by
    rw [BitVec.toNat_add, Nat.mod_eq_of_lt hend]
  have hnext : (a + 1).toNat = a.toNat + 1 := by
    rw [BitVec.toNat_add]
    exact Nat.mod_eq_of_lt ha
  rw [Bool.and_eq_true, BitVec.ule_iff_toNat_le, BitVec.ule_iff_toNat_le, hsum, hnext]
  exact Iff.rfl

theorem sameSetup_writeNotifying (addr : GuestAddr) (size : U64) (data : Buf) (sp : ShadowPages) :
    SameSetup sp (writeNotifying addr size data sp).2.2 := by
  unfold writeNotifying
  split
  · exact SameSetup.refl sp
  · split
    · exact SameSetup.refl sp
    · exact sameSetup_patchRange addr size.toNat data sp

theorem find_latestProt (backing : Option Backing) (a : GuestAddr) {calls : List Call}
    (hends : ∀ call ∈ calls, call.EndsBelow) :
    ((after backing calls).protRanges.reverse.find? fun r =>
      r.base.ule a && a.ult (r.base + r.size)).map ProtRange.prot = latestProt a calls := by
  induction calls with
  | nil => rfl
  | cons call earlier ih =>
      have hrest := ih fun c hc => hends c (List.mem_cons_of_mem _ hc)
      have hend := hends call List.mem_cons_self
      cases call with
      | protect base size prot =>
          have hcovers := covers_iff_within hend a
          simp only [after, Call.apply, ShadowPages.protect, List.reverse_append,
            List.reverse_singleton, List.singleton_append, List.find?_cons, latestProt]
          by_cases hin : Covers base size a
          · rw [if_pos hin, hcovers.mpr hin]
            rfl
          · rw [if_neg hin, Bool.eq_false_iff.mpr fun h => hin (hcovers.mp h)]
            exact hrest
      | addPrivateRegion base size => exact hrest
      | addCodeRange base size => exact hrest
      | write addr size data =>
          have hsetup := sameSetup_writeNotifying addr size data (after backing earlier)
          simp only [after, Call.apply, latestProt]
          rw [hsetup.2.2.2]
          exact hrest

theorem rangeIsPrivate_after (backing : Option Backing) {a : GuestAddr} (ha : a.toNat + 1 < 2 ^ 64)
    {calls : List Call} (hends : ∀ call ∈ calls, call.EndsBelow) :
    (after backing calls).rangeIsPrivate a 1 = true ↔ InPrivate a calls := by
  induction calls with
  | nil =>
      constructor
      · intro h
        cases h
      · rintro ⟨_, _, hmem, _⟩
        cases hmem
  | cons call earlier ih =>
      have hrest := ih fun c hc => hends c (List.mem_cons_of_mem _ hc)
      have hend := hends call List.mem_cons_self
      have hskip (hother : ∀ base size, call ≠ .addPrivateRegion base size) :
          InPrivate a (call :: earlier) ↔ InPrivate a earlier := by
        constructor
        · rintro ⟨base, size, hmem, hin⟩
          rcases List.mem_cons.mp hmem with heq | hmem
          · exact absurd heq.symm (hother base size)
          · exact ⟨base, size, hmem, hin⟩
        · rintro ⟨base, size, hmem, hin⟩
          exact ⟨base, size, List.mem_cons_of_mem _ hmem, hin⟩
      cases call with
      | protect base size prot => exact hrest.trans (hskip (by simp)).symm
      | addCodeRange base size => exact hrest.trans (hskip (by simp)).symm
      | write addr size data =>
          have hsetup := sameSetup_writeNotifying addr size data (after backing earlier)
          simp only [after, Call.apply]
          rw [hsetup.rangeIsPrivate]
          exact hrest.trans (hskip (by simp)).symm
      | addPrivateRegion base size =>
          have hcovers := covers_iff_within_private hend ha
          simp only [after, Call.apply, ShadowPages.addPrivateRegion, rangeIsPrivate,
            List.any_append, List.any_cons, List.any_nil, Bool.or_false, Bool.or_eq_true]
          constructor
          · rintro (hold | hnew)
            · obtain ⟨b, s, hmem, hin⟩ := hrest.mp hold
              exact ⟨b, s, List.mem_cons_of_mem _ hmem, hin⟩
            · exact ⟨base, size, List.mem_cons_self, hcovers.mp hnew⟩
          · rintro ⟨b, s, hmem, hin⟩
            rcases List.mem_cons.mp hmem with heq | hmem
            · cases heq
              exact Or.inr (hcovers.mpr hin)
            · exact Or.inl (hrest.mpr ⟨b, s, hmem, hin⟩)

/-- Below the last address the code's permission is the one the calls gave. -/
theorem permOf_after (backing : Option Backing) {a : GuestAddr} (ha : a.toNat + 1 < 2 ^ 64)
    {calls : List Call} (hends : ∀ call ∈ calls, call.EndsBelow) :
    (after backing calls).permOf a = permission a calls := by
  have hfind := find_latestProt backing a hends
  have hprivate := rangeIsPrivate_after backing ha hends
  unfold permOf permission
  rw [← hfind]
  cases (after backing calls).protRanges.reverse.find? fun r =>
      r.base.ule a && a.ult (r.base + r.size) with
  | some r => rfl
  | none =>
      by_cases hin : InPrivate a calls
      · simp only [Option.map_none, if_pos hin, if_pos (hprivate.mpr hin)]
      · simp only [Option.map_none, if_neg hin, if_neg (mt hprivate.mp hin)]

/-! ### The whole range -/

theorem protRanges_after (backing : Option Backing) {calls : List Call}
    (hprotect : ∃ base size prot, Call.protect base size prot ∈ calls) :
    (after backing calls).protRanges.isEmpty = false := by
  obtain ⟨base, size, prot, hmem⟩ := hprotect
  induction calls with
  | nil => cases hmem
  | cons call earlier ih =>
      cases call with
      | protect b s p => simp [after, Call.apply, ShadowPages.protect]
      | addPrivateRegion b s => exact ih (by simpa using hmem)
      | addCodeRange b s => exact ih (by simpa using hmem)
      | write addr s data =>
          have hsetup := sameSetup_writeNotifying addr s data (after backing earlier)
          simp only [after, Call.apply]
          rw [hsetup.2.2.2]
          exact ih (by simpa using hmem)

/-- The loop looks at every byte of a range that ends below `2 ^ 64`. -/
theorem writable_iff {sp : ShadowPages} (hprot : sp.protRanges.isEmpty = false) {addr : GuestAddr}
    {size : U64} (hend : addr.toNat + size.toNat < 2 ^ 64) :
    sp.writable addr size.toNat = true ↔
      ∀ a, InRange addr size.toNat a → sp.permOf a &&& PROT_W ≠ 0 := by
  have hsum : (addr + size).toNat = addr.toNat + size.toNat := by
    rw [BitVec.toNat_add, Nat.mod_eq_of_lt hend]
  have hcount : (if addr.ult (addr + size) then (addr + size - addr).toNat else 0) = size.toNat := by
    have hdist : addr + size - addr = size := by bv_omega
    by_cases hzero : size.toNat = 0
    · rw [if_neg (by rw [BitVec.ult_iff_toNat_lt, hsum]; omega), hzero]
    · rw [if_pos (by rw [BitVec.ult_iff_toNat_lt, hsum]; omega), hdist]
  unfold writable
  rw [BitVec.ofNat_toNat, BitVec.setWidth_eq, hprot, Bool.false_or, hcount, List.all_eq_true]
  constructor
  · intro h a ha
    have hbyte := h (a - addr).toNat (List.mem_range.mpr ha)
    rw [add_distance] at hbyte
    simpa using hbyte
  · intro h i hi
    have hlt := List.mem_range.mp hi
    have hbyte := h _ (inRange_add addr size.toNat i hlt (hlt.trans size.isLt))
    simpa using hbyte

/-- The end of a range that reaches `2 ^ 64` comes out below its start, and the loop looks at no
byte. -/
theorem writable_of_wrap (sp : ShadowPages) {addr : GuestAddr} {size : U64}
    (hwrap : 2 ^ 64 ≤ addr.toNat + size.toNat) : sp.writable addr size.toNat = true := by
  have hnot : ¬ addr.ult (addr + size) = true := by
    rw [BitVec.ult_iff_toNat_lt, BitVec.toNat_add]
    omega
  simp only [writable, BitVec.ofNat_toNat, BitVec.setWidth_eq, if_neg hnot, List.range_zero,
    List.all_nil, Bool.or_true]

theorem writeNotifying_ok_iff (addr : GuestAddr) (size : U64) (data : Buf) (sp : ShadowPages) :
    (writeNotifying addr size data sp).1 = .ok () ↔
      size = 0 ∨ sp.writable addr size.toNat = true := by
  unfold writeNotifying
  by_cases hzero : size = 0
  · rw [if_pos hzero]
    exact ⟨fun _ => Or.inl hzero, fun _ => rfl⟩
  · rw [if_neg hzero]
    cases hw : sp.writable addr size.toNat with
    | true => exact ⟨fun _ => Or.inr rfl, fun _ => rfl⟩
    | false =>
        constructor
        · intro h
          cases h
        · rintro (h | h)
          · exact absurd h hzero
          · cases h

/-- A write under protection ranges that end below `2 ^ 64` is taken exactly when it may write
each of its bytes, unless it reaches `2 ^ 64` itself: then it is always taken. A refused write
changes nothing and notifies nobody. -/
theorem write_all_or_nothing (backing : Option Backing) (calls : List Call)
    (hprotect : ∃ base size prot, Call.protect base size prot ∈ calls)
    (hends : ∀ call ∈ calls, call.EndsBelow) (addr : GuestAddr) (size : U64) (data : Buf) :
    (((writeNotifying addr size data (after backing calls)).1 = .ok () ↔
        ∀ a, InRange addr size.toNat a → MayWrite a calls) ↔
      (addr.toNat + size.toNat < 2 ^ 64 ∨
        ∀ a, InRange addr size.toNat a → MayWrite a calls)) ∧
    ((writeNotifying addr size data (after backing calls)).1 ≠ .ok () →
      (writeNotifying addr size data (after backing calls)).2 = ([], after backing calls)) := by
  constructor
  · rw [writeNotifying_ok_iff]
    by_cases hend : addr.toNat + size.toNat < 2 ^ 64
    · have hbytes := writable_iff (protRanges_after backing hprotect) hend
      have hpoint (a : GuestAddr) (ha : InRange addr size.toNat a) :
          (after backing calls).permOf a &&& PROT_W ≠ 0 ↔ MayWrite a calls := by
        have hin : (a - addr).toNat < size.toNat := ha
        rw [permOf_after backing (by bv_omega) hends]
        exact Iff.rfl
      have hiff : (size = 0 ∨ (after backing calls).writable addr size.toNat = true) ↔
          ∀ a, InRange addr size.toNat a → MayWrite a calls := by
        constructor
        · rintro (hzero | hw) a ha
          · rw [hzero] at ha
            exact absurd ha (Nat.not_lt_zero _)
          · exact (hpoint a ha).mp (hbytes.mp hw a ha)
        · intro h
          exact Or.inr (hbytes.mpr fun a ha => (hpoint a ha).mpr (h a ha))
      exact ⟨fun _ => Or.inl hend, fun _ => hiff⟩
    · have hw := writable_of_wrap (after backing calls) (Nat.le_of_not_lt hend)
      constructor
      · intro h
        exact Or.inr (h.mp (Or.inr hw))
      · rintro (hlt | hall)
        · exact absurd hlt hend
        · exact ⟨fun _ => hall, fun _ => Or.inr hw⟩
  · rw [Ne, writeNotifying_ok_iff]
    intro hrefused
    obtain ⟨hsize, hw⟩ := not_or.mp hrefused
    unfold writeNotifying
    rw [if_neg hsize, if_pos (Bool.eq_false_iff.mpr hw)]

/-- A read-only page with a writable byte in it. -/
theorem write_all_or_nothing_page :
    ((writeNotifying 0x1010 4 (fun _ => 0xCC)
        (after none [.protect 0x1012 1 PROT_W, .protect 0x1000 0x1000 PROT_R])).1 = .ok () ↔
      ∀ a, InRange 0x1010 (4 : U64).toNat a →
        MayWrite a [.protect 0x1012 1 PROT_W, .protect 0x1000 0x1000 PROT_R]) :=
  (write_all_or_nothing none [.protect 0x1012 1 PROT_W, .protect 0x1000 0x1000 PROT_R]
    ⟨0x1000, 0x1000, PROT_R, by simp⟩
    (by
      intro call hmem
      rcases List.mem_cons.mp hmem with rfl | hmem
      · show (0x1012 : GuestAddr).toNat + (1 : U64).toNat < 2 ^ 64
        decide
      · obtain rfl := List.mem_singleton.mp hmem
        show (0x1000 : GuestAddr).toNat + (0x1000 : U64).toNat < 2 ^ 64
        decide) 0x1010 4 fun _ => 0xCC).1.mpr (Or.inl (by decide))

/-- The last byte of the address space is read only, and a write of it is taken. -/
theorem last_byte_unprotected : ¬ ∀ (backing : Option Backing) (calls : List Call),
    (∃ base size prot, Call.protect base size prot ∈ calls) →
      ∀ (addr : GuestAddr) (size : U64) (data : Buf),
        ((writeNotifying addr size data (after backing calls)).1 = .ok () ↔
          ∀ a, InRange addr size.toNat a → MayWrite a calls) ∧
        ((writeNotifying addr size data (after backing calls)).1 ≠ .ok () →
          (writeNotifying addr size data (after backing calls)).2 = ([], after backing calls)) := by
  intro h
  have hwrite := (h none [.protect 0x1000 0x1000 PROT_R] ⟨0x1000, 0x1000, PROT_R, by simp⟩
    0xFFFFFFFFFFFFFFFF 1 fun _ => 0xCC).1
  have hok := (writeNotifying_ok_iff 0xFFFFFFFFFFFFFFFF 1 (fun _ => 0xCC)
    (after none [.protect 0x1000 0x1000 PROT_R])).mpr (Or.inr (writable_of_wrap _ (by decide)))
  have hmay := hwrite.mp hok 0xFFFFFFFFFFFFFFFF (by decide)
  have hprot : latestProt 0xFFFFFFFFFFFFFFFF [.protect 0x1000 0x1000 PROT_R] = none := by decide
  have hnot : ¬ InPrivate 0xFFFFFFFFFFFFFFFF [.protect 0x1000 0x1000 PROT_R] := by
    rintro ⟨base, size, hmem, _⟩
    simp at hmem
  unfold MayWrite permission at hmay
  rw [hprot, if_neg hnot] at hmay
  exact hmay (by decide)

end ShadowPages

end PicoCpu
