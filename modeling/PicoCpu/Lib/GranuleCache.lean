import PicoCpu.Lib.Granule

/-!
Write-through caches of granules, seen as partial maps from a granule base to its
contents. A cache is coherent with a partial memory when every granule it holds is
readable there and equal to it; patching a written range granule by granule keeps it
coherent, whatever the replacement policy.
-/

namespace Granule

variable {w : Nat} {β C : Type}

/-- Overwrite positions `[pos, pos + n)` of a byte sequence. -/
def overwrite (dst : Nat → β) (pos n : Nat) (src : Nat → β) : Nat → β :=
  fun i => if pos ≤ i ∧ i < pos + n then src (i - pos) else dst i

theorem overwrite_inside (dst : Nat → β) (pos n : Nat) (src : Nat → β) {i : Nat}
    (h : pos ≤ i ∧ i < pos + n) : overwrite dst pos n src i = src (i - pos) :=
  if_pos h

theorem overwrite_outside (dst : Nat → β) (pos n : Nat) (src : Nat → β) {i : Nat}
    (h : ¬ (pos ≤ i ∧ i < pos + n)) : overwrite dst pos n src i = dst i :=
  if_neg h

/-- The address is one of the `size` bytes from `addr`, modulo the address space. -/
def InRange (addr : BitVec w) (size : Nat) (a : BitVec w) : Prop := (a - addr).toNat < size

instance (addr : BitVec w) (size : Nat) (a : BitVec w) : Decidable (InRange addr size a) :=
  inferInstanceAs (Decidable (_ < _))

theorem inRange_add (addr : BitVec w) (size i : Nat) (hi : i < size) (hw : i < 2 ^ w) :
    InRange addr size (addr + BitVec.ofNat w i) := by
  rw [InRange, toNat_add_sub_self addr i hw]
  exact hi

/-- What a successful write makes of a partial memory: the written bytes are there, and
bytes outside the range that were readable keep their value. -/
def Written (mem mem' : BitVec w → Option β) (addr : BitVec w) (size : Nat) (data : Nat → β) :
    Prop :=
  ∀ a, (InRange addr size a → mem' a = some (data (a - addr).toNat)) ∧
    (¬ InRange addr size a → ∀ v, mem a = some v → mem' a = some v)

/-- What has been written is known byte for byte. -/
theorem Written.congr_iff {mem mem' : BitVec w → Option β} {addr : BitVec w} {size : Nat}
    {data data' : Nat → β} (h : Written mem mem' addr size data) (hsize : size ≤ 2 ^ w) :
    Written mem mem' addr size data' ↔ ∀ j < size, data j = data' j := by
  constructor
  · intro h' j hj
    have hin := inRange_add addr size j hj (by omega)
    have hsame := ((h _).1 hin).symm.trans ((h' _).1 hin)
    rw [toNat_add_sub_self addr j (by omega)] at hsame
    exact Option.some.inj hsame
  · intro hsame a
    refine ⟨fun hin => ?_, (h a).2⟩
    rw [← hsame _ hin]
    exact (h a).1 hin

/-- Every granule the cache holds is aligned, readable in memory and equal to it. -/
def Coherent (k : Nat) (view : BitVec w → Option (Nat → β)) (mem : BitVec w → Option β) : Prop :=
  ∀ b d, view b = some d → base k b = b ∧ ∀ i < 2 ^ k, mem (b + BitVec.ofNat w i) = some (d i)

/-- Patch the cached copies of a written range, one granule at a time. -/
def patchRange (k : Nat) (patch : BitVec w → Nat → Nat → (Nat → β) → C → C) (addr : BitVec w)
    (size : Nat) (data : Nat → β) (c : C) : C :=
  (walkRange (ε := Empty) k
    (fun cur n done c => (.ok (), patch (base k cur) (off k cur) n (fun i => data (done + i)) c))
    addr size c).2

/-- A patch overwrites a stretch of one granule, if it is held, and no other. -/
def PatchLaw (view : C → BitVec w → Option (Nat → β))
    (patch : BitVec w → Nat → Nat → (Nat → β) → C → C) : Prop :=
  ∀ b pos n src c b', view (patch b pos n src c) b' =
    if b' = b then (view c b).map (fun d => overwrite d pos n src) else view c b'

theorem patchRange_induct (k : Nat) (patch : BitVec w → Nat → Nat → (Nat → β) → C → C)
    (addr : BitVec w) (size : Nat) (data : Nat → β) (I : Nat → C → Prop)
    (hstep : ∀ done n c, I done c → 0 < n → done + n ≤ size →
      off k (addr + BitVec.ofNat w done) + n ≤ 2 ^ k →
      I (done + n) (patch (base k (addr + BitVec.ofNat w done))
        (off k (addr + BitVec.ofNat w done)) n (fun i => data (done + i)) c))
    (c : C) (hinit : I 0 c) : I size (patchRange k patch addr size data c) := by
  have h := walkRange_rule (ε := Empty) k
    (fun cur n done c => (.ok (), patch (base k cur) (off k cur) n (fun i => data (done + i)) c))
    addr size I (fun _ _ => False) (fun done n c hI hpos hle hfit => hstep done n c hI hpos hle hfit)
    c hinit
  unfold patchRange
  revert h
  cases walkRange (ε := Empty) k
    (fun cur n done c => (.ok (), patch (base k cur) (off k cur) n (fun i => data (done + i)) c))
    addr size c with
  | mk r c' =>
      cases r with
      | error e => exact e.elim
      | ok u => exact id

/-- After patching a range, a held granule has the range's bytes over what it held. -/
theorem patchRange_point (k : Nat) (hk : k ≤ w) {view : C → BitVec w → Option (Nat → β)}
    {patch : BitVec w → Nat → Nat → (Nat → β) → C → C} (hlaw : PatchLaw view patch)
    {addr : BitVec w} {size : Nat} {data : Nat → β} (hsize : size ≤ 2 ^ w) {c : C}
    {b : BitVec w} {d' : Nat → β} (hview : view (patchRange k patch addr size data c) b = some d') :
    ∃ d, view c b = some d ∧ (base k b = b → ∀ i < 2 ^ k,
      d' i = if InRange addr size (b + BitVec.ofNat w i) then
        data (b + BitVec.ofNat w i - addr).toNat else d i) := by
  -- after `done` bytes, a held granule has the first `done` written bytes in place
  let I : Nat → C → Prop := fun done c' => ∀ d', view c' b = some d' →
    ∃ d, view c b = some d ∧ (base k b = b → ∀ i < 2 ^ k,
      d' i = if (b + BitVec.ofNat w i - addr).toNat < done then
        data (b + BitVec.ofNat w i - addr).toNat else d i)
  have hI : I size (patchRange k patch addr size data c) := by
    apply patchRange_induct k patch addr size data I
    · intro done n c' hI hpos hle hfit d' hview
      generalize hcur : addr + BitVec.ofNat w done = cur at hfit hview
      have hroom : done + n ≤ 2 ^ w := le_trans hle hsize
      rw [hlaw] at hview
      by_cases hb : b = base k cur
      · rw [if_pos hb, Option.map_eq_some_iff, ← hb] at hview
        obtain ⟨d₁, hd₁, rfl⟩ := hview
        obtain ⟨d, hd, hpoint⟩ := hI d₁ hd₁
        refine ⟨d, hd, fun halign i hi => ?_⟩
        by_cases hpos : off k cur ≤ i ∧ i < off k cur + n
        · have hdist := dist_of_mem_chunk k addr cur done n hcur.symm hroom i hpos.1 hpos.2
          rw [← hb] at hdist
          have hidx : done + (i - off k cur) < done + n := by omega
          rw [overwrite_inside _ _ _ _ hpos, hdist, if_pos hidx]
        · have hfar : ¬ (done ≤ (b + BitVec.ofNat w i - addr).toNat ∧
              (b + BitVec.ofNat w i - addr).toNat < done + n) := by
            rintro ⟨hlo, hhi⟩
            exact hpos (mem_chunk_of_dist k hk addr cur done n hcur.symm hfit b i
              halign hi hlo hhi).2
          rw [overwrite_outside _ _ _ _ hpos, hpoint halign i hi]
          exact if_congr (by omega) rfl rfl
      · rw [if_neg hb] at hview
        obtain ⟨d, hd, hpoint⟩ := hI d' hview
        refine ⟨d, hd, fun halign i hi => ?_⟩
        have hfar : ¬ (done ≤ (b + BitVec.ofNat w i - addr).toNat ∧
            (b + BitVec.ofNat w i - addr).toNat < done + n) := by
          rintro ⟨hlo, hhi⟩
          exact hb (mem_chunk_of_dist k hk addr cur done n hcur.symm hfit b i
            halign hi hlo hhi).1
        rw [hpoint halign i hi]
        exact if_congr (by omega) rfl rfl
    · intro d hview
      exact ⟨d, hview, fun _ i _ => by rw [if_neg (by omega)]⟩
  exact hI d' hview

/-- Patching the written range keeps a coherent cache coherent with the new memory. -/
theorem patchRange_coherent (k : Nat) (hk : k ≤ w) {view : C → BitVec w → Option (Nat → β)}
    {patch : BitVec w → Nat → Nat → (Nat → β) → C → C} (hlaw : PatchLaw view patch)
    {mem mem' : BitVec w → Option β} {addr : BitVec w} {size : Nat} {data : Nat → β}
    (hsize : size ≤ 2 ^ w) (hwritten : Written mem mem' addr size data) {c : C}
    (hco : Coherent k (view c) mem) :
    Coherent k (view (patchRange k patch addr size data c)) mem' := by
  intro b d' hview
  obtain ⟨d, hd, hpoint⟩ := patchRange_point k hk hlaw hsize hview
  obtain ⟨halign, hmem⟩ := hco b d hd
  refine ⟨halign, fun i hi => ?_⟩
  rw [hpoint halign i hi]
  by_cases hin : InRange addr size (b + BitVec.ofNat w i)
  · rw [(hwritten _).1 hin, if_pos hin]
  · rw [(hwritten _).2 hin _ (hmem i hi), if_neg hin]

end Granule
