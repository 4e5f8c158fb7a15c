import PicoCpu.Memory.Provider
import Mathlib.Data.List.Sort
import Mathlib.Data.List.Pairwise

/-!
`FakeMemoryProvider`, the provider of the unit tests: regions of bytes at fixed bases, mapped
byte by byte. It is read-only, since it keeps the default `write` of the interface.
-/

namespace PicoCpu

open Granule

/-- A region. The length of a `std::vector` is a `usize`. -/
structure FakeRegion where
  base : GuestAddr
  bytes : List U8
  length_lt : bytes.length < 2 ^ 64

namespace FakeRegion

/-- `cur >= r.base && cur < r.base + r.bytes.size()`, the sum taken modulo 2^64. -/
def contains (r : FakeRegion) (cur : GuestAddr) : Bool :=
  r.base.ule cur && cur.ult (r.base + BitVec.ofNat 64 r.bytes.length)

/-- `ranges_overlap`. -/
def overlaps (r q : FakeRegion) : Bool :=
  !((r.base + BitVec.ofNat 64 r.bytes.length).ule q.base ||
    (q.base + BitVec.ofNat 64 q.bytes.length).ule r.base)

def Disjoint (r q : FakeRegion) : Prop := ∀ a, ¬ (r.contains a = true ∧ q.contains a = true)

instance : Std.Symm Disjoint where
  symm _ _ h a ha := h a ha.symm

theorem Disjoint.symm {r q : FakeRegion} (h : r.Disjoint q) : q.Disjoint r :=
  fun a ha => h a ha.symm

theorem disjoint_of_not_overlaps {r q : FakeRegion} (h : r.overlaps q = false) : r.Disjoint q := by
  intro a ha
  simp only [overlaps, contains, Bool.not_eq_false', Bool.or_eq_true, Bool.and_eq_true,
    BitVec.ule, BitVec.ult, decide_eq_true_eq] at h ha
  omega

/-- An address of the region lies less than its length past its base. -/
theorem offset_lt {r : FakeRegion} {cur : GuestAddr} (h : r.contains cur = true) :
    (cur - r.base).toNat < r.bytes.length ∧
      r.base.toNat + (cur - r.base).toNat = cur.toNat ∧
      r.base.toNat + r.bytes.length < 2 ^ 64 := by
  have hlength := r.length_lt
  have hbase := r.base.isLt
  have hcur := cur.isLt
  simp only [contains, Bool.and_eq_true, BitVec.ule, BitVec.ult, decide_eq_true_eq,
    BitVec.toNat_add, BitVec.toNat_ofNat] at h
  rw [BitVec.toNat_sub]
  omega

/-- Everything up to the end of a region that holds `cur` is in it too. -/
theorem contains_add {r : FakeRegion} {cur : GuestAddr} (h : r.contains cur = true) {i : Nat}
    (hi : (cur - r.base).toNat + i < r.bytes.length) :
    r.contains (cur + BitVec.ofNat 64 i) = true ∧
      (cur + BitVec.ofNat 64 i - r.base).toNat = (cur - r.base).toNat + i := by
  obtain ⟨_, hsum, hroom⟩ := offset_lt h
  have hcur := cur.isLt
  have hnat : (cur + BitVec.ofNat 64 i).toNat = cur.toNat + i := by
    rw [BitVec.toNat_add, BitVec.toNat_ofNat]
    omega
  constructor
  · simp only [contains, Bool.and_eq_true, BitVec.ule, BitVec.ult, decide_eq_true_eq, hnat,
      BitVec.toNat_add, BitVec.toNat_ofNat]
    omega
  · rw [BitVec.toNat_sub, hnat]
    omega

end FakeRegion

/-- The regions, no two of which share an address. -/
structure FakeMemory where
  regions : List FakeRegion := []
  disjoint : regions.Pairwise FakeRegion.Disjoint := by simp

namespace FakeMemory

/-- `add_region`: reject an empty or overlapping region, else add it and sort by base. -/
def addRegion (m : FakeMemory) (r : FakeRegion) : Except Status FakeMemory :=
  if r.bytes = [] then .error .invalidArgument
  else if h : m.regions.any r.overlaps = true then .error .invalidArgument
  else .ok
    { regions := (m.regions ++ [r]).mergeSort fun a b => a.base.ule b.base
      disjoint := by
        have hperm := List.mergeSort_perm (m.regions ++ [r]) fun a b => a.base.ule b.base
        refine (hperm.pairwise_iff fun {_ _} h => FakeRegion.Disjoint.symm h).mpr ?_
        refine List.pairwise_append.mpr ⟨m.disjoint, List.pairwise_singleton _ _, ?_⟩
        intro q hq r' hr'
        obtain rfl := List.mem_singleton.mp hr'
        have hnot : r'.overlaps q = false := by
          rw [Bool.not_eq_true, List.any_eq_false] at h
          simpa using h q hq
        exact (FakeRegion.disjoint_of_not_overlaps hnot).symm }

/-- The first region that holds `cur`. -/
def hit (m : FakeMemory) (cur : GuestAddr) : Option FakeRegion :=
  m.regions.find? fun r => r.contains cur

/-- The read loop; every iteration serves at least one byte. -/
def readLoop (m : FakeMemory) : Nat → GuestAddr → Nat → Nat → Buf → Except Status Unit × Buf
  | 0, _, _, _, out => (.ok (), out)
  | fuel + 1, cur, done, remaining, out =>
    if remaining = 0 then (.ok (), out)
    else
      match m.hit cur with
      | none => (.error .unmappedRead, out)
      | some r =>
        let hitOff := (cur - r.base).toNat
        let avail := r.bytes.length - hitOff
        let n := if remaining < avail then remaining else avail
        m.readLoop fuel (cur + BitVec.ofNat 64 n) (done + n) (remaining - n)
          (overwrite out done n fun i => r.bytes.getD (hitOff + i) 0)

def read (m : FakeMemory) (addr : GuestAddr) (size : Nat) (out : Buf) : Except Status Unit × Buf :=
  m.readLoop size addr 0 size out

def provider : MemoryProvider FakeMemory where
  read addr size out m := ((m.read addr size out).1, (m.read addr size out).2, m)
  write _ _ _ m := (.error .protectionViolation, m)

def byteMap (m : FakeMemory) : ByteMap := fun a =>
  (m.hit a).map fun r => r.bytes.getD (a - r.base).toNat 0

theorem hit_eq_some {m : FakeMemory} {a : GuestAddr} {r : FakeRegion} :
    m.hit a = some r ↔ r ∈ m.regions ∧ r.contains a = true := by
  constructor
  · intro h
    have hcontains := List.find?_some h
    exact ⟨List.mem_of_find?_eq_some h, hcontains⟩
  · rintro ⟨hmem, hcontains⟩
    cases hfirst : m.hit a with
    | none =>
        have hnone := List.find?_eq_none.mp hfirst r hmem
        exact absurd hcontains hnone
    | some q =>
        have hq : q ∈ m.regions := List.mem_of_find?_eq_some hfirst
        have hheld := List.find?_some (p := fun r : FakeRegion => r.contains a) hfirst
        by_contra hne
        have hdisjoint := m.disjoint.forall hq hmem (fun h => hne (congrArg some h))
        exact hdisjoint a ⟨hheld, hcontains⟩

/-- The bytes a region holds from `cur` on. -/
theorem byteMap_of_hit {m : FakeMemory} {cur : GuestAddr} {r : FakeRegion}
    (h : m.hit cur = some r) {i : Nat} (hi : (cur - r.base).toNat + i < r.bytes.length) :
    m.byteMap (cur + BitVec.ofNat 64 i) =
      some (r.bytes.getD ((cur - r.base).toNat + i) 0) := by
  obtain ⟨hmem, hcontains⟩ := hit_eq_some.mp h
  obtain ⟨hcontains', hoff⟩ := FakeRegion.contains_add hcontains hi
  rw [byteMap, hit_eq_some.mpr ⟨hmem, hcontains'⟩, Option.map_some, hoff]

/-- The loop fills the buffer from the map, and fails at a byte no region holds. -/
theorem readLoop_fills (m : FakeMemory) (addr : GuestAddr) (size : Nat) (out : Buf) :
    ∀ fuel done remaining out', remaining ≤ fuel → done + remaining = size →
      Filled m.byteMap addr size out done out' →
      Leaves size (fun n out' => Filled m.byteMap addr size out n out')
        (fun _ out' => (∀ i, size ≤ i → out' i = out i) ∧
          ∃ i < size, m.byteMap (addr + BitVec.ofNat 64 i) = none)
        (m.readLoop fuel (addr + BitVec.ofNat 64 done) done remaining out') := by
  intro fuel
  induction fuel with
  | zero =>
      intro done remaining out' hfuel hsize hfill
      obtain rfl : done = size := by omega
      exact hfill
  | succ fuel ih =>
      intro done remaining out' hfuel hsize hfill
      rw [readLoop]
      by_cases hrem : remaining = 0
      · obtain rfl : done = size := by omega
        rw [if_pos hrem]
        exact hfill
      · rw [if_neg hrem]
        cases hhit : m.hit (addr + BitVec.ofNat 64 done) with
        | none =>
            refine ⟨hfill.2, done, by omega, ?_⟩
            rw [byteMap, hhit]
            rfl
        | some r =>
            simp only
            generalize hoff : (addr + BitVec.ofNat 64 done - r.base).toNat = hitOff
            obtain ⟨hlt, _⟩ := FakeRegion.offset_lt (hit_eq_some.mp hhit).2
            rw [hoff] at hlt
            generalize hn : (if remaining < r.bytes.length - hitOff then remaining
              else r.bytes.length - hitOff) = n
            have hbounds : 0 < n ∧ n ≤ remaining ∧ hitOff + n ≤ r.bytes.length := by
              split at hn <;> omega
            rw [add_add_ofNat]
            refine ih (done + n) (remaining - n) _ (by omega) (by omega) ⟨?_, ?_⟩
            · intro i hi
              by_cases hold : i < done
              · rw [overwrite_outside _ _ _ _ (by omega)]
                exact hfill.1 i hold
              · have hbyte := byteMap_of_hit hhit (i := i - done) (by rw [hoff]; omega)
                rw [add_add_ofNat, Nat.add_sub_cancel' (by omega), hoff] at hbyte
                rw [overwrite_inside _ _ _ _ (by omega), hbyte]
            · intro i hi
              rw [overwrite_outside _ _ _ _ (by omega)]
              exact hfill.2 i hi

theorem read_fills (m : FakeMemory) (addr : GuestAddr) (size : Nat) (out : Buf) :
    Leaves size (fun n out' => Filled m.byteMap addr size out n out')
      (fun _ out' => (∀ i, size ≤ i → out' i = out i) ∧
        ∃ i < size, m.byteMap (addr + BitVec.ofNat 64 i) = none)
      (m.read addr size out) := by
  have h := readLoop_fills m addr size out size 0 size out (le_refl _) (Nat.zero_add _)
    ⟨fun i hi => absurd hi (Nat.not_lt_zero i), fun _ _ => rfl⟩
  rwa [BitVec.add_zero] at h

/-- The provider is the byte memory of its regions. -/
theorem represents : Represents provider (fun _ => True) byteMap where
  read_inv _ _ _ _ _ _ := trivial
  read_mem _ _ _ _ _ _ := rfl
  read_frame addr size out m _ _ := by
    have h := m.read_fills addr size out
    change ∀ i, size ≤ i → (m.read addr size out).2 i = out i
    revert h
    cases m.read addr size out with
    | mk r out' =>
        cases r with
        | error e => exact fun h => h.1
        | ok u => exact fun h => h.2
  read_ok addr size out m _ _ := by
    have h := m.read_fills addr size out
    change (m.read addr size out).1 = .ok () → ∀ i < size,
      m.byteMap _ = some ((m.read addr size out).2 i)
    revert h
    cases m.read addr size out with
    | mk r out' =>
        cases r with
        | error e => exact fun _ h => by simp at h
        | ok u => exact fun h _ => h.1
  write_inv _ _ _ _ _ _ := trivial
  write_error _ _ _ _ _ _ _ _ := rfl
  write_ok addr size data m _ _ h := by cases h

/-- A read of mapped bytes returns Ok. -/
theorem read_of_mapped (m : FakeMemory) (addr : GuestAddr) (size : Nat) (out : Buf)
    (h : ∀ i < size, m.byteMap (addr + BitVec.ofNat 64 i) ≠ none) :
    (m.read addr size out).1 = .ok () := by
  have hfills := m.read_fills addr size out
  revert hfills
  cases m.read addr size out with
  | mk r out' =>
      cases r with
      | ok u => exact fun _ => rfl
      | error e =>
          rintro ⟨_, i, hi, hnone⟩
          exact absurd hnone (h i hi)

end FakeMemory

end PicoCpu
