import PicoCpu.Host.LoaderBounds

/-!
What the base relocations do to the image. The loader walks the relocation directory in the image
that it is changing; where no relocated field lies on directory bytes still to be read, the
outcome is the image with `delta` added to one field after another.
-/

namespace PicoCpu

namespace Host

open Granule Settling

/-! ### Directories -/

/-- The header of a block, or an entry, at an offset in the image. -/
inductive RelocItem where
  | header (at_ : Nat)
  | entry (at_ : Nat) (type : U16) (target : U32)

namespace RelocItem

/-- The entry at the offset, of a block for the page. -/
def entryAt (m : Bytes) (pageRva : U32) (at_ : Nat) : RelocItem :=
  .entry at_ (entryType m at_) (entryTarget m pageRva at_)

/-- The image with `delta` added to the field of an entry: to eight bytes for DIR64 and to four for
HIGHLOW, where these lie inside the image. -/
def relocate (delta : U64) (m : Bytes) : RelocItem → Bytes
  | .header _ => m
  | .entry _ type target =>
      if type = 10 ∧ target.toNat + 8 ≤ m.size then
        { m with
          data := overwrite m.data target.toNat 8 (storeLE (u64At m.data target.toNat + delta)) }
      else if type = 3 ∧ target.toNat + 4 ≤ m.size then
        { m with
          data := overwrite m.data target.toNat 4
            (storeLE ((u32At m.data target.toNat + delta.setWidth 32).setWidth 64)) }
      else m

/-- The bytes that the loader reads for an item. -/
def Reads (k : Nat) : RelocItem → Prop
  | .header at_ => at_ ≤ k ∧ k < at_ + 8
  | .entry at_ _ _ => at_ ≤ k ∧ k < at_ + 2

/-- The bytes of the field of an item, in an image of the size. -/
def Writes (size k : Nat) : RelocItem → Prop
  | .header _ => False
  | .entry _ type target => target.toNat ≤ k ∧
      (type = 10 ∧ target.toNat + 8 ≤ size ∧ k < target.toNat + 8 ∨
        type = 3 ∧ target.toNat + 4 ≤ size ∧ k < target.toNat + 4)

/-- The field of an item has none of the bytes read for another. -/
def Apart (size : Nat) (i j : RelocItem) : Prop := ∀ k, i.Writes size k → ¬ j.Reads k

/-- The checks of the entry let its field through exactly when it is inside: the sums do not wrap,
and a HIGHLOW field is not in the last seven bytes, unless there is nothing to add to it. -/
def Checked (delta : U64) (size : Nat) : RelocItem → Prop
  | .header _ => True
  | .entry _ type target =>
      (type = 10 → target.toNat + 8 < 2 ^ 32) ∧
      (type = 3 → target.toNat + 4 < 2 ^ 32 ∧
        (target.toNat + 4 ≤ size → target.toNat + 8 ≤ size ∨ delta.setWidth 32 = 0))

end RelocItem

/-- The image with one item after another relocated. -/
def relocated (delta : U64) (m : Bytes) (items : List RelocItem) : Bytes :=
  items.foldl (RelocItem.relocate delta) m

/-- Entries of the block at an offset, from index `i` on. -/
def entryItems (m : Bytes) (pageRva : U32) (cur i count : Nat) : List RelocItem :=
  (List.range' i count).map fun k => .entryAt m pageRva (cur + 8 + k * 2)

/-- The items of the block at an offset. -/
def blockItems (m : Bytes) (cur : Nat) : List RelocItem :=
  .header cur :: entryItems m (u32At m.data cur) cur 0 (((u32At m.data (cur + 4)).toNat - 8) / 2)

/-- The bytes from an offset to `stop` are blocks, each inside, with fewer than eight bytes left at
the end; the items are those of the blocks. -/
inductive RelocDirectory (m : Bytes) (stop : Nat) : Nat → List RelocItem → Prop
  | done {cur : Nat} : stop < cur + 8 → RelocDirectory m stop cur []
  | block {cur : Nat} {items : List RelocItem} :
      cur + 8 ≤ stop → 8 ≤ (u32At m.data (cur + 4)).toNat →
      cur + (u32At m.data (cur + 4)).toNat ≤ stop →
      RelocDirectory m stop (cur + (u32At m.data (cur + 4)).toNat) items →
      RelocDirectory m stop cur (blockItems m cur ++ items)

/-! ### Frames -/

section Frames

variable (delta : U64) (m : Bytes)

@[simp]
theorem size_relocate (i : RelocItem) : (i.relocate delta m).size = m.size := by
  cases i with
  | header at_ => rfl
  | entry at_ type target =>
      simp only [RelocItem.relocate]
      split_ifs
      · rfl
      · rfl
      · rfl

@[simp]
theorem size_relocated (items : List RelocItem) : (relocated delta m items).size = m.size := by
  induction items generalizing m with
  | nil => rfl
  | cons i items ih => exact (ih _).trans (size_relocate delta m i)

/-- Bytes outside the field stay. -/
theorem data_relocate {i : RelocItem} {k : Nat} (hk : ¬ i.Writes m.size k) :
    (i.relocate delta m).data k = m.data k := by
  cases i with
  | header at_ => rfl
  | entry at_ type target =>
      simp only [RelocItem.Writes] at hk
      simp only [RelocItem.relocate]
      split_ifs with h10 h3
      · exact if_neg fun hand => hk ⟨hand.1, .inl ⟨h10.1, h10.2, hand.2⟩⟩
      · exact if_neg fun hand => hk ⟨hand.1, .inr ⟨h3.1, h3.2, hand.2⟩⟩
      · rfl

/-- Bytes outside all fields stay. -/
theorem data_relocated {items : List RelocItem} {k : Nat}
    (hk : ∀ i ∈ items, ¬ i.Writes m.size k) : (relocated delta m items).data k = m.data k := by
  induction items generalizing m with
  | nil => rfl
  | cons i items ih =>
      have hrest := ih (i.relocate delta m) fun j hj => by
        rw [size_relocate]
        exact hk j (List.mem_cons_of_mem i hj)
      exact hrest.trans (data_relocate delta m (hk i List.mem_cons_self))

end Frames

/-- The image is still as it was wherever it is read for the items. -/
structure Agrees (m₀ m : Bytes) (items : List RelocItem) : Prop where
  size : m.size = m₀.size
  data : ∀ i ∈ items, ∀ k, i.Reads k → m.data k = m₀.data k

section Agree

variable {delta : U64} {m₀ m : Bytes} {items : List RelocItem}

theorem Agrees.step {i : RelocItem} (h : Agrees m₀ m (i :: items))
    (hapart : (i :: items).Pairwise (RelocItem.Apart m₀.size)) :
    Agrees m₀ (i.relocate delta m) items := by
  refine ⟨(size_relocate delta m i).trans h.size, fun j hj k hk => ?_⟩
  have hnot : ¬ i.Writes m.size k := fun hwrites =>
    (List.pairwise_cons.mp hapart).1 j hj k (h.size ▸ hwrites) hk
  rw [data_relocate delta m hnot]
  exact h.data j (List.mem_cons_of_mem i hj) k hk

theorem Agrees.relocated {first : List RelocItem} (h : Agrees m₀ m (first ++ items))
    (hapart : (first ++ items).Pairwise (RelocItem.Apart m₀.size)) :
    Agrees m₀ (relocated delta m first) items := by
  induction first generalizing m with
  | nil => exact h
  | cons i first ih => exact ih (h.step hapart) (List.pairwise_cons.mp hapart).2

theorem u16At_congr {a b : Buf} {off : Nat} (h : ∀ k, off ≤ k → k < off + 2 → a k = b k) :
    u16At a off = u16At b off := by
  rw [u16At, u16At, h off (by omega) (by omega), h (off + 1) (by omega) (by omega)]

theorem u32At_congr {a b : Buf} {off : Nat} (h : ∀ k, off ≤ k → k < off + 4 → a k = b k) :
    u32At a off = u32At b off := by
  have hlow : u16At a off = u16At b off := u16At_congr fun k hk hk' => h k hk (by omega)
  have hhigh : u16At a (off + 2) = u16At b (off + 2) :=
    u16At_congr fun k hk hk' => h k (by omega) (by omega)
  rw [u32At, u32At, hlow, hhigh]

end Agree

/-! ### The walk -/

section Walk

variable {delta : U64} {m₀ m : Bytes}

theorem load_eq {b : Bytes} {off n : Nat} (h : off + n ≤ b.size) :
    b.load off n = pure fun i => b.data (off + i) := if_pos h

theorem store_eq {b : Bytes} {off n : Nat} (h : off + n ≤ b.size) (src : Buf) :
    b.store off n src = pure { b with data := overwrite b.data off n src } := if_pos h

/-- The bytes of a word, stored where it was loaded. -/
theorem overwrite_self {data src : Buf} {off n : Nat} (h : ∀ i < n, src i = data (off + i)) :
    overwrite data off n src = data := by
  funext k
  simp only [overwrite]
  split
  · have hindex : off + (k - off) = k := by omega
    rw [h (k - off) (by omega), hindex]
  · rfl

theorem storeLE_u64At (data : Buf) (off i : Nat) (hi : i < 8) :
    storeLE (u64At data off) i = data (off + i) := by
  apply BitVec.eq_of_getLsbD_eq
  intro j hj
  simp only [storeLE, u64At, u32At, u16At, BitVec.getLsbD_setWidth, BitVec.getLsbD_ushiftRight,
    BitVec.getLsbD_append]
  rcases (by omega : i = 0 ∨ i = 1 ∨ i = 2 ∨ i = 3 ∨ i = 4 ∨ i = 5 ∨ i = 6 ∨ i = 7) with
    rfl | rfl | rfl | rfl | rfl | rfl | rfl | rfl
  all_goals grind

theorem storeLE_u32At (data : Buf) (off i : Nat) (hi : i < 4) :
    storeLE ((u32At data off).setWidth 64) i = data (off + i) := by
  apply BitVec.eq_of_getLsbD_eq
  intro j hj
  simp only [storeLE, u32At, u16At, BitVec.getLsbD_setWidth, BitVec.getLsbD_ushiftRight,
    BitVec.getLsbD_append]
  rcases (by omega : i = 0 ∨ i = 1 ∨ i = 2 ∨ i = 3) with rfl | rfl | rfl | rfl
  all_goals grind

theorem overwrite_u32At (data : Buf) (off : Nat) :
    overwrite data off 4 (storeLE ((u32At data off).setWidth 64)) = data :=
  overwrite_self (storeLE_u32At data off)

/-- Where there is nothing to add, nothing changes. -/
theorem relocated_zero (m : Bytes) (items : List RelocItem) : relocated 0 m items = m := by
  have hitem (i : RelocItem) : i.relocate 0 m = m := by
    cases i with
    | header at_ => rfl
    | entry at_ type target =>
        have h64 : u64At m.data target.toNat + 0 = u64At m.data target.toNat := BitVec.add_zero _
        have hlow : (0 : U64).setWidth 32 = 0#32 := rfl
        have h32 : u32At m.data target.toNat + (0 : U64).setWidth 32 = u32At m.data target.toNat := by
          rw [hlow]
          exact BitVec.add_zero _
        simp only [RelocItem.relocate, h64, h32, overwrite_u32At,
          overwrite_self (storeLE_u64At m.data target.toNat), ite_self]
  induction items with
  | nil => rfl
  | cons i items ih =>
      rw [relocated, List.foldl_cons, hitem]
      exact ih

/-- One entry whose bytes are still as they were. -/
theorem relocEntry_eq {pageRva : U32} {at_ : Nat} (hbound : m.size ≤ 2 ^ 30)
    (hin : at_ + 2 ≤ m.size) (hsame : u16At m.data at_ = u16At m₀.data at_)
    (hchecked : (RelocItem.entryAt m₀ pageRva at_).Checked delta m.size) :
    relocEntry delta pageRva at_ m = pure ((RelocItem.entryAt m₀ pageRva at_).relocate delta m) := by
  have hentry : RelocItem.entryAt m₀ pageRva at_ = RelocItem.entryAt m pageRva at_ := by
    unfold RelocItem.entryAt entryType entryTarget
    rw [hsame]
  rw [hentry] at hchecked ⊢
  obtain ⟨hdir64, hhighLow⟩ := hchecked
  have hload : relocEntry delta pageRva at_ m =
      if (entryTarget m pageRva at_ + 8).toNat > m.size then pure m
      else if entryType m at_ = 10 then do
        let v := u64At (← m.load (entryTarget m pageRva at_).toNat 8) 0
        m.store (entryTarget m pageRva at_).toNat 8 (storeLE (v + delta))
      else if entryType m at_ = 3 then
        if (entryTarget m pageRva at_ + 4).toNat > m.size then pure m
        else do
          let v := u32At (← m.load (entryTarget m pageRva at_).toNat 4) 0
          m.store (entryTarget m pageRva at_).toNat 4
            (storeLE ((v + delta.setWidth 32).setWidth 64))
      else pure m := by
    rw [relocEntry, load_eq hin]
    rfl
  rw [hload]
  have hadd (n : Nat) (hn : n ≤ 8) : (entryTarget m pageRva at_ + BitVec.ofNat 32 n).toNat =
      ((entryTarget m pageRva at_).toNat + n) % 2 ^ 32 := by
    rw [BitVec.toNat_add, BitVec.toNat_ofNat, Nat.mod_eq_of_lt (by omega : n < 2 ^ 32)]
  have h8 : (entryTarget m pageRva at_ + 8).toNat =
      ((entryTarget m pageRva at_).toNat + 8) % 2 ^ 32 := hadd 8 (by decide)
  have h4 : (entryTarget m pageRva at_ + 4).toNat =
      ((entryTarget m pageRva at_).toNat + 4) % 2 ^ 32 := hadd 4 (by decide)
  by_cases h10 : entryType m at_ = 10
  · have hlt := hdir64 h10
    rw [Nat.mod_eq_of_lt hlt] at h8
    by_cases hfield : (entryTarget m pageRva at_).toNat + 8 ≤ m.size
    · have hfix : (RelocItem.entryAt m pageRva at_).relocate delta m = _ := if_pos ⟨h10, hfield⟩
      rw [if_neg (by omega), if_pos h10, hfix, load_eq hfield, value_bind, store_eq hfield]
      rfl
    · have h3 : ¬ entryType m at_ = 3 := by
        rw [h10]
        decide
      have hfix : (RelocItem.entryAt m pageRva at_).relocate delta m = m :=
        (if_neg fun hand => hfield hand.2).trans (if_neg fun hand => h3 hand.1)
      rw [if_pos (by omega), hfix]
  by_cases h3 : entryType m at_ = 3
  · obtain ⟨hlt, hlast⟩ := hhighLow h3
    rw [Nat.mod_eq_of_lt hlt] at h4
    by_cases hfield : (entryTarget m pageRva at_).toNat + 4 ≤ m.size
    · have hfix : (RelocItem.entryAt m pageRva at_).relocate delta m = _ :=
        (if_neg fun hand => h10 hand.1).trans (if_pos ⟨h3, hfield⟩)
      rw [hfix]
      by_cases hcheck : (entryTarget m pageRva at_ + 8).toNat > m.size
      · have hnone : delta.setWidth 32 = 0 := (hlast hfield).resolve_left (by omega)
        have hsum : u32At m.data (entryTarget m pageRva at_).toNat + delta.setWidth 32 =
            u32At m.data (entryTarget m pageRva at_).toNat := by
          rw [hnone]
          exact BitVec.add_zero _
        rw [if_pos hcheck, hsum, overwrite_u32At]
      · rw [if_neg hcheck, if_neg h10, if_pos h3, if_neg (by omega), load_eq hfield, value_bind,
          store_eq hfield]
        rfl
    · have hfix : (RelocItem.entryAt m pageRva at_).relocate delta m = m :=
        (if_neg fun hand => h10 hand.1).trans (if_neg fun hand => hfield hand.2)
      have houtside : (entryTarget m pageRva at_ + 4).toNat > m.size := by omega
      rw [if_neg h10, if_pos h3, if_pos houtside, ite_self, hfix]
  · have hfix : (RelocItem.entryAt m pageRva at_).relocate delta m = m :=
      (if_neg fun hand => h10 hand.1).trans (if_neg fun hand => h3 hand.1)
    rw [if_neg h10, if_neg h3, ite_self, hfix]

/-- The entries of a block from index `i` on. -/
theorem relocEntries_eq {pageRva cur : U32} {items : List RelocItem} (left i : Nat)
    (hbound : m.size ≤ 2 ^ 30) (hin : cur.toNat + 8 + (i + left) * 2 ≤ m.size)
    (hagrees : Agrees m₀ m (entryItems m₀ pageRva cur.toNat i left ++ items))
    (hapart : (entryItems m₀ pageRva cur.toNat i left ++ items).Pairwise
      (RelocItem.Apart m₀.size))
    (hchecked : ∀ e ∈ entryItems m₀ pageRva cur.toNat i left, e.Checked delta m₀.size) :
    relocEntries delta pageRva cur left i m =
      pure (relocated delta m (entryItems m₀ pageRva cur.toNat i left)) := by
  induction left generalizing i m with
  | zero => rfl
  | succ left ih =>
      have hitems : entryItems m₀ pageRva cur.toNat i (left + 1) =
          .entryAt m₀ pageRva (cur.toNat + 8 + i * 2) ::
            entryItems m₀ pageRva cur.toNat (i + 1) left := by
        rw [entryItems, List.range'_succ, List.map_cons]
        rfl
      rw [hitems] at hagrees hapart hchecked ⊢
      have hsame : u16At m.data (cur.toNat + 8 + i * 2) =
          u16At m₀.data (cur.toNat + 8 + i * 2) :=
        u16At_congr fun k hk hk' => hagrees.data _ List.mem_cons_self k ⟨hk, hk'⟩
      have hfirst := hchecked _ List.mem_cons_self
      rw [← hagrees.size] at hfirst
      rw [relocEntries, relocEntry_eq hbound (by omega) hsame hfirst, value_bind]
      apply ih
      · rw [size_relocate]
        exact hbound
      · rw [size_relocate]
        omega
      · exact hagrees.step hapart
      · exact (List.pairwise_cons.mp hapart).2
      · intro e he
        exact hchecked e (List.mem_cons_of_mem _ he)

/-- The walk over a directory that it leaves alone where it has still to be read. -/
theorem settles_relocDirectory {relocEnd cur : U32} {items : List RelocItem}
    (hdir : RelocDirectory m₀ relocEnd.toNat cur.toNat items) (hbound : m₀.size ≤ 2 ^ 30)
    (hin : relocEnd.toNat ≤ m₀.size) (hcur : cur.toNat ≤ relocEnd.toNat)
    (hapart : items.Pairwise (RelocItem.Apart m₀.size))
    (hchecked : ∀ e ∈ items, e.Checked delta m₀.size) (hagrees : Agrees m₀ m items) :
    Settles (fun _ => False) (fun fuel => relocBlocks delta relocEnd fuel cur m)
      fun m' => m' = relocated delta m items := by
  generalize hat : cur.toNat = at_ at hdir
  induction hdir generalizing cur m with
  | @done at_ hlast =>
      have hsum : (cur + 8).toNat = cur.toNat + 8 := by
        rw [BitVec.toNat_add]
        exact Nat.mod_eq_of_lt (by simp only [BitVec.reduceToNat]; omega)
      have hend : relocEnd.ult (cur + 8) = true := by
        rw [BitVec.ult_iff_toNat_lt]
        omega
      refine settles_succ (fun fuel => ?_) (settles_const.mpr (ends_pure.mpr rfl))
      rw [relocBlocks, if_pos hend]
      rfl
  | @block at_ items hhead hmin hmax hrest ih =>
      subst hat
      have hsize := hagrees.size
      have hread (off : Nat) (hoff : off ≤ 4) :
          u32At m.data (cur.toNat + off) = u32At m₀.data (cur.toNat + off) :=
        u32At_congr fun k hk hk' => hagrees.data (.header cur.toNat) List.mem_cons_self k
          ⟨by omega, by omega⟩
      have hpage : u32At m.data cur.toNat = u32At m₀.data cur.toNat := hread 0 (by decide)
      generalize hblock : u32At m₀.data (cur.toNat + 4) = blockSize at *
      have hnext : (cur + blockSize).toNat = cur.toNat + blockSize.toNat := by
        rw [BitVec.toNat_add]
        exact Nat.mod_eq_of_lt (by omega)
      have hsum (n : Nat) (hn : n ≤ 8) : (cur + BitVec.ofNat 32 n).toNat = cur.toNat + n := by
        rw [BitVec.toNat_add, BitVec.toNat_ofNat, Nat.mod_eq_of_lt (by omega : n < 2 ^ 32)]
        exact Nat.mod_eq_of_lt (by omega)
      have hsum8 : (cur + 8).toNat = cur.toNat + 8 := hsum 8 (by decide)
      have hsum4 : (cur + 4).toNat = cur.toNat + 4 := hsum 4 (by decide)
      have hloop : ¬ relocEnd.ult (cur + 8) := by
        rw [BitVec.ult_iff_toNat_lt]
        omega
      have hinside : ¬ blockSize.ult 8 ∧ ¬ relocEnd.ult (cur + blockSize) := by
        rw [BitVec.ult_iff_toNat_lt, BitVec.ult_iff_toNat_lt, hnext]
        exact ⟨Nat.not_lt_of_le hmin, by omega⟩
      have hcount : ((blockSize - 8) / 2).toNat = (blockSize.toNat - 8) / 2 := by
        have hle : (8 : U32) ≤ blockSize := hmin
        rw [BitVec.toNat_udiv, BitVec.toNat_sub_of_le hle]
        rfl
      have hitems : blockItems m₀ cur.toNat = .header cur.toNat ::
          entryItems m₀ (u32At m₀.data cur.toNat) cur.toNat 0 ((blockSize.toNat - 8) / 2) := by
        rw [blockItems, hblock]
      rw [hitems, List.cons_append] at hapart hchecked hagrees ⊢
      have hagrees' : Agrees m₀ m (entryItems m₀ (u32At m₀.data cur.toNat) cur.toNat 0
          ((blockSize.toNat - 8) / 2) ++ items) := @Agrees.step delta _ _ _ _ hagrees hapart
      have hapart' := (List.pairwise_cons.mp hapart).2
      have hentries := relocEntries_eq ((blockSize.toNat - 8) / 2) 0 (by omega) (by omega) hagrees'
        hapart' fun e he => hchecked e (List.mem_cons_of_mem _ (List.mem_append_left _ he))
      have hturn (fuel : Nat) : relocBlocks delta relocEnd (fuel + 1) cur m =
          relocBlocks delta relocEnd fuel (cur + blockSize)
            (relocated delta m (entryItems m₀ (u32At m₀.data cur.toNat) cur.toNat 0
              ((blockSize.toNat - 8) / 2))) := by
        have hblock' : (u32At (fun i => m.data (cur.toNat + 4 + i)) 0) = blockSize :=
          (hread 4 (by decide)).trans hblock
        have hpage' : (u32At (fun i => m.data (cur.toNat + 0 + i)) 0) =
            u32At m₀.data cur.toNat := hpage
        rw [relocBlocks, if_neg hloop, if_neg (by omega), load_eq (by omega), value_bind,
          load_eq (by omega), value_bind, hpage', hblock', if_neg fun h => h.elim hinside.1 hinside.2]
        dsimp only
        rw [hcount, hentries, value_bind]
      apply settles_succ hturn
      have hrelocated : relocated delta m (.header cur.toNat :: (entryItems m₀
          (u32At m₀.data cur.toNat) cur.toNat 0 ((blockSize.toNat - 8) / 2) ++ items)) =
          relocated delta (relocated delta m (entryItems m₀ (u32At m₀.data cur.toNat) cur.toNat 0
            ((blockSize.toNat - 8) / 2))) items := List.foldl_append ..
      rw [hrelocated]
      apply ih
      · omega
      · exact (List.pairwise_append.mp hapart').2.1
      · intro e he
        exact hchecked e (List.mem_cons_of_mem _ (List.mem_append_right _ he))
      · exact hagrees'.relocated hapart'
      · exact hnext

end Walk

/-! ### The loaded image -/

/-- The file is mapped, and its relocation directory lies inside the image and consists of blocks
inside it. -/
structure Relocatable (raw : Bytes) (h : Headers) (m : Bytes) (items : List RelocItem) : Prop where
  long : 0x100 ≤ raw.size
  headers : readHeaders raw = pure h
  image : mapSections raw = pure m
  present : h.relocDir.size ≠ 0 ∧ h.relocDir.rva ≠ 0
  inside : h.relocDir.rva.toNat + h.relocDir.size.toNat ≤ m.size
  blocks : RelocDirectory m (h.relocDir.rva.toNat + h.relocDir.size.toNat) h.relocDir.rva.toNat items

/-- Loaded at the base, the image is the one loaded at the preferred base with the items
relocated. -/
def RelocatesExactly (raw : Bytes) (h : Headers) (items : List RelocItem) (forcedBase : GuestAddr)
    (out : PeLoadedImage) : Prop :=
  ∃ preferred img : PeLoadedImage,
    img.mapped = relocated (chosenBase h forcedBase - h.imageBase) preferred.mapped items ∧
    ∃ n, ∀ fuel, n ≤ fuel → peLoadFile fuel (some raw) 0 out = pure preferred ∧
      peLoadFile fuel (some raw) forcedBase out = pure img

section Loaded

variable {raw m : Bytes} {h : Headers} {items : List RelocItem}

theorem mapSections_eq (hread : readHeaders raw = pure h) : mapSections raw =
    mapHeaders raw h >>= copySections raw h.secTable h.numSections.toNat 0 := by
  rw [mapSections, hread, value_bind]

/-- Whatever ends the loop over the sections, it does not change the size. -/
theorem ends_size_copySections (raw : Bytes) (secTable left i : Nat) (m : Bytes) :
    Ends (fun _ => True) (copySections raw secTable left i m) fun m' => m'.size = m.size := by
  have hsection (m : Bytes) (s : SectionHeader) :
      Ends (fun _ => True) (copySection raw m s) fun m' => m'.size = m.size := by
    unfold copySection Bytes.load Bytes.store
    dsimp only
    split_ifs
    · rfl
    · rfl
    · rfl
    · exact trivial
    · exact trivial
    · exact trivial
  induction left generalizing i m with
  | zero => rfl
  | succ left ih =>
      rw [copySections_succ]
      split
      · rw [ends_bind]
        apply (hsection m _).mono
        intro m₁ hsize
        rw [← hsize]
        exact ih _ _
      · exact trivial

/-- A mapped image has the size that its headers give, which passes the check of it. -/
theorem Relocatable.size_le (hrel : Relocatable raw h m items) : m.size ≤ 2 ^ 30 := by
  have himage := hrel.image
  rw [mapSections_eq hrel.headers] at himage
  rcases cases_result (mapHeaders raw h) with hmap | ⟨e, hmap⟩ | ⟨m₁, hmap⟩
  · rw [hmap] at himage
    cases himage
  · rw [hmap] at himage
    cases himage
  · rw [hmap, value_bind] at himage
    have hends (Q : Bytes → Prop) : Q m₁ ↔ (h.Mapped raw → Q (h.mapped raw)) := by
      have hiff := @ends_mapHeaders raw h Q
      rw [hmap, ends_pure] at hiff
      exact hiff
    have hmapped : h.Mapped raw := (hends fun _ => h.Mapped raw).mpr id
    have hfirst : m₁ = h.mapped raw := (hends (· = h.mapped raw)).mpr fun _ => rfl
    have hbound : (h.mapped raw).size ≤ 2 ^ 30 := hmapped.image_le
    have hsections := ends_size_copySections raw h.secTable h.numSections.toNat 0 m₁
    rw [himage, ends_pure] at hsections
    rw [hsections, hfirst]
    exact hbound

theorem Relocatable.peLoadFile_eq (hrel : Relocatable raw h m items) (fuel : Nat)
    (forcedBase : GuestAddr) (out : PeLoadedImage) :
    peLoadFile fuel (some raw) forcedBase out =
      applyRelocs fuel h.relocDir (chosenBase h forcedBase - h.imageBase) m >>= fun m' =>
        finishLoad fuel h m' (chosenBase h forcedBase) out := by
  have himage := hrel.image
  have hshort : ¬ raw.size < 0x100 := Nat.not_lt_of_le hrel.long
  rw [mapSections_eq hrel.headers] at himage
  have hassoc : peLoadFile fuel (some raw) forcedBase out =
      (mapHeaders raw h >>= copySections raw h.secTable h.numSections.toNat 0) >>= fun m =>
        applyRelocs fuel h.relocDir (chosenBase h forcedBase - h.imageBase) m >>= fun m' =>
          finishLoad fuel h m' (chosenBase h forcedBase) out := by
    simp only [peLoadFile, if_neg hshort, hrel.headers, value_bind, bind_assoc]
    rfl
  rw [hassoc, himage, value_bind]

end Loaded

/-! ### A field in the last bytes -/

/-- A file of 0x170 bytes, all of them headers, with a relocation directory of one entry at 0x150:
of the type and for the offset. -/
def oneEntryFile (type offset : U8) : Bytes where
  size := 0x170
  data
    | 0x00 => 0x4D | 0x01 => 0x5A | 0x3C => 0x40 | 0x40 => 0x50 | 0x41 => 0x45
    | 0x44 => 0x64 | 0x45 => 0x86 | 0x58 => 0x0B | 0x59 => 0x02
    | 0x90 => 0x70 | 0x91 => 0x01 | 0x94 => 0x70 | 0x95 => 0x01
    | 0xF0 => 0x50 | 0xF1 => 0x01 | 0xF4 => 10
    | 0x154 => 10 | 0x158 => offset | 0x159 => type <<< 4 ||| 1
    | _ => 0

def oneEntryHeaders : Headers where
  entryRva := 0
  imageBase := 0
  sizeOfImage := 0x170
  hdrSize := 0x170
  numSections := 0
  secTable := 0x58
  exportDir := ⟨0, 0⟩
  importDir := ⟨0, 0⟩
  relocDir := ⟨0x150, 10⟩

def oneEntryItems (type : U16) (target : U32) : List RelocItem :=
  [.header 0x150, .entry 0x158 type target]

theorem relocatable_dir64 : Relocatable (oneEntryFile 10 0x60) oneEntryHeaders
    (oneEntryHeaders.mapped (oneEntryFile 10 0x60)) (oneEntryItems 10 0x160) where
  long := by decide
  headers := rfl
  image := rfl
  present := by decide
  inside := by decide
  blocks := .block (by decide) (by decide) (by decide) (.done (by decide))

theorem relocatable_highLow : Relocatable (oneEntryFile 3 0x6C) oneEntryHeaders
    (oneEntryHeaders.mapped (oneEntryFile 3 0x6C)) (oneEntryItems 3 0x16C) where
  long := by decide
  headers := rfl
  image := rfl
  present := by decide
  inside := by decide
  blocks := .block (by decide) (by decide) (by decide) (.done (by decide))

end Host

end PicoCpu
