import Mathlib.Data.List.Nodup
import PicoCpu.Word
import PicoCpu.Lib.Granule
import PicoCpu.Lib.Tiling

/-!
The heap behind the `HeapAlloc` and `HeapFree` stubs: a list of blocks kept outside guest memory,
first fit, with neighbours joined when a block is freed.
-/

namespace PicoCpu

open Granule

structure StubHeap.Block where
  addr : GuestAddr
  size : U64
  free : Bool
  deriving DecidableEq

structure StubHeap where
  base : GuestAddr := 0
  size : U64 := 0
  blocks : List StubHeap.Block := []

namespace StubHeap

def install (base : GuestAddr) (size : U64) : StubHeap where
  base
  size
  blocks := [⟨base, size, true⟩]

/-- The size rounded up to sixteen bytes, modulo 2^64. -/
def aligned (sz : U64) : U64 := (sz + 15) &&& ~~~15

/-- The block cut down to `size` bytes and taken, with what remains of it. -/
def Block.take (size : U64) (b : Block) : List Block :=
  if b.size = size then [{ b with free := false }]
  else [{ b with size, free := false }, ⟨b.addr + size, b.size - size, true⟩]

/-- The loop of `alloc`: the address of the first fit, and the list with it taken. -/
def takeFirst (size : U64) : List Block → Option (GuestAddr × List Block)
  | [] => none
  | b :: rest =>
    if !b.free || b.size.ult size then (takeFirst size rest).map fun r => (r.1, b :: r.2)
    else some (b.addr, b.take size ++ rest)

def alloc (sz : U64) (h : StubHeap) : GuestAddr × StubHeap :=
  if aligned sz = 0 then (0, h)
  else
    match takeFirst (aligned sz) h.blocks with
    | none => (0, h)
    | some (p, blocks) => (p, { h with blocks })

/-- The block, joined with the one before it when that is free. The blocks before it are in
reverse. -/
def joinPrevious : List Block → Block → List Block × Block
  | q :: before, b =>
    if q.free then (before, { q with size := q.size + b.size }) else (q :: before, b)
  | [], b => ([], b)

/-- The block, joined with the one after it when that is free. -/
def joinNext (b : Block) : List Block → List Block
  | n :: after => if n.free then { b with size := b.size + n.size } :: after else b :: n :: after
  | [] => [b]

def coalesce (before : List Block) (b : Block) (after : List Block) : List Block :=
  (joinPrevious before b).1.reverse ++ joinNext (joinPrevious before b).2 after

/-- The loop of `free`, with the blocks passed in reverse: the list with the block freed, unless
it is missing or free already. -/
def release (p : GuestAddr) (before : List Block) : List Block → Option (List Block)
  | [] => none
  | b :: after =>
    if b.addr ≠ p then release p (b :: before) after
    else if b.free then none
    else some (coalesce before { b with free := true } after)

def free (p : GuestAddr) (h : StubHeap) : Bool × StubHeap :=
  if p = 0 then (true, h)
  else
    match release p [] h.blocks with
    | none => (false, h)
    | some blocks => (true, { h with blocks })

def usedBytes (h : StubHeap) : U64 :=
  h.blocks.foldl (fun t b => if !b.free then t + b.size else t) 0

def freeBytes (h : StubHeap) : U64 :=
  h.blocks.foldl (fun t b => if b.free then t + b.size else t) 0

/-! ### Runs -/

/-- The heap, with what the calls so far have handed out: the live allocations, each with the
size it was asked for. -/
structure Run where
  heap : StubHeap
  live : List (GuestAddr × U64) := []

inductive Op where
  | alloc (sz : U64)
  | free (p : GuestAddr)

def Run.step (s : Run) : Op → Run
  | .alloc sz =>
    { heap := (s.heap.alloc sz).2
      live := if (s.heap.alloc sz).1 = 0 then s.live else ((s.heap.alloc sz).1, sz) :: s.live }
  | .free p =>
    { heap := (s.heap.free p).2
      live := if (s.heap.free p).1 then s.live.filter fun x => x.1 ≠ p else s.live }

def Run.steps (s : Run) (ops : List Op) : Run := ops.foldl Run.step s

/-- Free the addresses one after another: whether every call returned true, and the heap. -/
def freeAll : List GuestAddr → StubHeap → Bool × StubHeap
  | [], h => (true, h)
  | p :: ps, h => ((h.free p).1 && (freeAll ps (h.free p).2).1, (freeAll ps (h.free p).2).2)

/-! ### The block list -/

/-- The blocks tile the addresses from `lo` up to `hi`. -/
def Covers (lo hi : Nat) (bs : List Block) : Prop :=
  Tiles (fun b : Block => b.addr.toNat) (fun b => b.size.toNat) lo hi bs

/-- No two free blocks are neighbours. -/
def Coalesced (bs : List Block) : Prop := bs.IsChain fun a b => a.free = true → b.free = false

def used (bs : List Block) : List Block := bs.filter fun b => !b.free

theorem mem_used {bs : List Block} {b : Block} : b ∈ used bs ↔ b ∈ bs ∧ b.free = false := by
  rw [used, List.mem_filter, Bool.not_eq_true']

theorem used_append (bs bs' : List Block) : used (bs ++ bs') = used bs ++ used bs' :=
  List.filter_append ..

theorem used_cons_free {b : Block} (hb : b.free = true) (bs : List Block) :
    used (b :: bs) = used bs := by
  rw [used, List.filter_cons, hb]
  rfl

theorem used_cons_used {b : Block} (hb : b.free = false) (bs : List Block) :
    used (b :: bs) = b :: used bs := by
  rw [used, List.filter_cons, hb]
  rfl

/-- Blocks that cover less than the address space have no address twice. -/
theorem Covers.distinct {lo hi : Nat} {bs : List Block} (h : Covers lo hi bs) :
    (bs.map Block.addr).Nodup := by
  refine List.pairwise_map.mpr (h.pairwise.imp_of_mem fun {a b} ha _ hab heq => ?_)
  have hlen := (h.bounds ha).2.1
  rw [heq] at hab
  omega

/-- The two sums of sizes, each from where it stands. -/
theorem Covers.sums {lo hi : Nat} {bs : List Block} (h : Covers lo hi bs) (t u : U64)
    (hfits : t.toNat + u.toNat + (hi - lo) < 2 ^ 64) :
    (bs.foldl (fun t b => if !b.free then t + b.size else t) t).toNat +
      (bs.foldl (fun t b => if b.free then t + b.size else t) u).toNat =
        t.toNat + u.toNat + (hi - lo) := by
  induction bs generalizing lo t u with
  | nil =>
      obtain rfl : lo = hi := h
      rw [Nat.sub_self]
      rfl
  | cons b bs ih =>
      have hrest : Covers (lo + b.size.toNat) hi bs := h.2.2
      have hle : lo + b.size.toNat ≤ hi := hrest.le
      rw [List.foldl_cons, List.foldl_cons]
      cases hfree : b.free with
      | true =>
          have hadd : (u + b.size).toNat = u.toNat + b.size.toNat := by
            rw [BitVec.toNat_add, Nat.mod_eq_of_lt (by omega)]
          have hsum := ih hrest t (u + b.size) (by omega)
          simp only [Bool.not_true, Bool.false_eq_true, if_false, if_true]
          omega
      | false =>
          have hadd : (t + b.size).toNat = t.toNat + b.size.toNat := by
            rw [BitVec.toNat_add, Nat.mod_eq_of_lt (by omega)]
          have hsum := ih hrest (t + b.size) u (by omega)
          simp only [Bool.not_false, Bool.false_eq_true, if_false, if_true]
          omega

/-- Free blocks only, none of them neighbours: there is one block. -/
theorem eq_singleton_of_all_free {lo hi : Nat} {bs : List Block} (hcovers : Covers lo hi bs)
    (hcoalesced : Coalesced bs) (hlo : lo < hi) (hused : used bs = []) :
    ∃ b, bs = [b] ∧ b.free = true ∧ b.addr.toNat = lo ∧ b.size.toNat = hi - lo := by
  have hfree : ∀ b ∈ bs, b.free = true := by
    intro b hb
    cases hbfree : b.free with
    | true => rfl
    | false =>
        have hmem := mem_used.mpr ⟨hb, hbfree⟩
        rw [hused] at hmem
        cases hmem
  cases bs with
  | nil =>
      obtain rfl : lo = hi := hcovers
      exact absurd hlo (Nat.lt_irrefl _)
  | cons b rest =>
      cases rest with
      | nil =>
          obtain ⟨haddr, _, hend⟩ := hcovers
          obtain rfl : lo + b.size.toNat = hi := hend
          exact ⟨b, rfl, hfree b (List.mem_singleton_self b), haddr, by omega⟩
      | cons b' rest =>
          have hb := hfree b (List.mem_cons_self ..)
          have hb' := hfree b' (List.mem_cons_of_mem _ (List.mem_cons_self ..))
          have hnext := (List.isChain_cons_cons.mp hcoalesced).1 hb
          rw [hb'] at hnext
          cases hnext

/-! ### Taking a block -/

/-- `takeFirst` finds the first fit: it takes the block out of the middle of the list. -/
theorem takeFirst_some {size : U64} {bs bs' : List Block} {p : GuestAddr}
    (h : takeFirst size bs = some (p, bs')) :
    ∃ before b after, bs = before ++ b :: after ∧ b.free = true ∧ size.toNat ≤ b.size.toNat ∧
      p = b.addr ∧ bs' = before ++ (b.take size ++ after) := by
  induction bs generalizing p bs' with
  | nil => cases h
  | cons b rest ih =>
      rw [takeFirst] at h
      split at h
      · obtain ⟨⟨q, out⟩, hrest, hr⟩ := Option.map_eq_some_iff.mp h
        obtain ⟨before, b', after, hbs, hfree, hsize, hq, hout⟩ := ih hrest
        cases hr
        refine ⟨b :: before, b', after, ?_, hfree, hsize, hq, ?_⟩
        · rw [hbs, List.cons_append]
        · rw [hout, List.cons_append]
      · rename_i hfits
        cases h
        simp only [Bool.or_eq_true, Bool.not_eq_true', BitVec.ult_iff_toNat_lt, not_or,
          Bool.not_eq_false, Nat.not_lt] at hfits
        exact ⟨[], b, rest, rfl, hfits.1, hfits.2, rfl, rfl⟩

theorem takeFirst_none {size : U64} {bs : List Block} (h : takeFirst size bs = none) :
    ∀ b ∈ bs, b.free = true → b.size.toNat < size.toNat := by
  induction bs with
  | nil => exact fun b hb => nomatch hb
  | cons b rest ih =>
      rw [takeFirst] at h
      split at h
      · rename_i hskip
        intro b' hb' hfree
        rcases List.mem_cons.mp hb' with rfl | hb'
        · rw [hfree, Bool.not_true, Bool.false_or] at hskip
          exact BitVec.ult_iff_toNat_lt.mp hskip
        · exact ih (Option.map_eq_none_iff.mp h) b' hb' hfree
      · cases h

section Take

variable {lo hi : Nat} {before after : List Block} {b : Block} {size : U64}

theorem Covers.take (h : Covers lo hi (before ++ b :: after)) (hhi : hi ≤ 2 ^ 64)
    (hsize : size.toNat ≤ b.size.toNat) (hpos : size ≠ 0) :
    Covers lo hi (before ++ (b.take size ++ after)) := by
  refine Tiles.replace [b] _ h fun l u hb hl hu => ?_
  obtain ⟨haddr, hlen, hend⟩ := hb
  obtain rfl : l + b.size.toNat = u := hend
  have haddr' : b.addr.toNat = l := haddr
  have hsize0 : size.toNat ≠ 0 := fun h => hpos (BitVec.eq_of_toNat_eq h)
  unfold Block.take
  split
  · exact ⟨haddr, hlen, rfl⟩
  · rename_i hne
    have hlt : size.toNat < b.size.toNat :=
      Nat.lt_of_le_of_ne hsize fun heq => hne (BitVec.eq_of_toNat_eq heq.symm)
    have htail : (b.addr + size).toNat = l + size.toNat := by
      rw [BitVec.toNat_add, haddr', Nat.mod_eq_of_lt (by omega)]
    have hrest : (b.size - size).toNat = b.size.toNat - size.toNat :=
      BitVec.toNat_sub_of_le hsize
    refine ⟨haddr, Nat.pos_of_ne_zero hsize0, htail, ?_, ?_⟩
    · dsimp only
      omega
    · change l + size.toNat + (b.size - size).toNat = l + b.size.toNat
      omega

theorem Coalesced.take (h : Coalesced (before ++ b :: after)) (hfree : b.free = true) :
    Coalesced (before ++ (b.take size ++ after)) := by
  obtain ⟨hbefore, hb, _⟩ := List.isChain_append.mp h
  have hafter := List.isChain_cons.mp hb
  unfold Coalesced Block.take
  split
  · refine List.isChain_append.mpr ⟨hbefore, ?_, ?_⟩
    · exact List.isChain_cons.mpr ⟨fun _ _ hfalse => Bool.noConfusion hfalse, hafter.2⟩
    · rintro x _ y hy _
      cases hy
      rfl
  · refine List.isChain_append.mpr ⟨hbefore, ?_, ?_⟩
    · refine List.isChain_cons_cons.mpr ⟨fun hfalse => Bool.noConfusion hfalse, ?_⟩
      exact List.isChain_cons.mpr ⟨fun y hy _ => hafter.1 y hy hfree, hafter.2⟩
    · rintro x _ y hy _
      cases hy
      rfl

theorem used_take (hfree : b.free = true) :
    ∃ b', b'.addr = b.addr ∧ (size.toNat ≤ b.size.toNat → size.toNat ≤ b'.size.toNat) ∧
      used (before ++ b :: after) = used before ++ used after ∧
      used (before ++ (b.take size ++ after)) = used before ++ b' :: used after := by
  rw [used_append, used_append, used_append, used_cons_free hfree]
  unfold Block.take
  split
  · exact ⟨{ b with free := false }, rfl, fun hle => hle, rfl, rfl⟩
  · exact ⟨{ b with size, free := false }, rfl, fun _ => Nat.le_refl _, rfl, rfl⟩

end Take

/-! ### Giving a block back -/

section Coalesce

variable {lo hi : Nat} {before after : List Block} {b : Block}

/-- Two neighbours may be made one. -/
theorem Covers.join {a : Block} (h : Covers lo hi (before ++ a :: b :: after))
    (hfits : hi < 2 ^ 64 + lo) :
    Covers lo hi (before ++ { a with size := a.size + b.size } :: after) := by
  refine Tiles.replace [a, b] [{ a with size := a.size + b.size }] h
    fun l u hab hl hu => ?_
  obtain ⟨haddr, hapos, hnext, hbpos, hend⟩ := hab
  have hu' : l + a.size.toNat + b.size.toNat = u := hend
  have hsum : (a.size + b.size).toNat = a.size.toNat + b.size.toNat := by
    rw [BitVec.toNat_add, Nat.mod_eq_of_lt (by omega)]
  refine ⟨haddr, ?_, ?_⟩
  · dsimp only at hapos ⊢
    omega
  · change l + (a.size + b.size).toNat = u
    omega

/-- The block before a free one is in use once they are joined. -/
theorem joinPrevious_spec (hcovers : Covers lo hi (before.reverse ++ b :: after))
    (hfits : hi < 2 ^ 64 + lo) (hcoalesced : Coalesced before.reverse) (hfree : b.free = true) :
    Covers lo hi ((joinPrevious before b).1.reverse ++ (joinPrevious before b).2 :: after) ∧
      Coalesced ((joinPrevious before b).1.reverse ++ [(joinPrevious before b).2]) ∧
      (joinPrevious before b).2.free = true ∧
      used (joinPrevious before b).1.reverse = used before.reverse := by
  cases before with
  | nil => exact ⟨hcovers, List.isChain_singleton _, hfree, rfl⟩
  | cons q before =>
      rw [List.reverse_cons] at hcovers hcoalesced
      obtain ⟨hrest, _, hlast⟩ := List.isChain_append.mp hcoalesced
      have hjoin : joinPrevious (q :: before) b =
          if q.free then (before, { q with size := q.size + b.size }) else (q :: before, b) := rfl
      rw [hjoin]
      split
      · rename_i hq
        rw [List.append_assoc] at hcovers
        refine ⟨hcovers.join hfits, ?_, hq, ?_⟩
        · refine List.isChain_append.mpr ⟨hrest, List.isChain_singleton _, ?_⟩
          rintro x hx y hy hxfree
          have hqused := hlast x hx q rfl hxfree
          rw [hq] at hqused
          cases hqused
        · rw [List.reverse_cons, used_append, used_cons_free hq]
          exact (List.append_nil _).symm
      · rename_i hq
        rw [List.reverse_cons]
        refine ⟨hcovers, ?_, hfree, rfl⟩
        refine List.isChain_append.mpr ⟨hcoalesced, List.isChain_singleton _, ?_⟩
        rintro x hx y hy hxfree
        rw [List.getLast?_append_cons] at hx
        cases hx
        exact absurd hxfree hq

theorem joinNext_spec (hcovers : Covers lo hi (before ++ b :: after)) (hfits : hi < 2 ^ 64 + lo)
    (hbefore : Coalesced (before ++ [b])) (hafter : Coalesced after) (hfree : b.free = true) :
    Covers lo hi (before ++ joinNext b after) ∧ Coalesced (before ++ joinNext b after) ∧
      used (joinNext b after) = used after := by
  obtain ⟨hchain, _, hlast⟩ := List.isChain_append.mp hbefore
  cases after with
  | nil => exact ⟨hcovers, hbefore, used_cons_free hfree []⟩
  | cons n after =>
      have hnext := List.isChain_cons.mp hafter
      have hjoin : joinNext b (n :: after) =
          if n.free then { b with size := b.size + n.size } :: after else b :: n :: after := rfl
      rw [hjoin]
      split
      · rename_i hn
        refine ⟨hcovers.join hfits, ?_, ?_⟩
        · refine List.isChain_append.mpr ⟨hchain, ?_, ?_⟩
          · exact List.isChain_cons.mpr ⟨fun y hy _ => hnext.1 y hy hn, hnext.2⟩
          · intro x hx y hy hxfree
            cases hy
            exact hlast x hx b rfl hxfree
        · have hmerged : ({ b with size := b.size + n.size } : Block).free = true := hfree
          rw [used_cons_free hn, used_cons_free hmerged]
      · rename_i hn
        refine ⟨hcovers, ?_, used_cons_free hfree _⟩
        refine List.isChain_append.mpr ⟨hchain, ?_, ?_⟩
        · exact List.isChain_cons_cons.mpr ⟨fun _ => Bool.eq_false_iff.mpr hn, hafter⟩
        · intro x hx y hy hxfree
          cases hy
          exact hlast x hx b rfl hxfree

/-- A used block is freed and joined with its neighbours. -/
theorem coalesce_spec (hcovers : Covers lo hi (before.reverse ++ b :: after))
    (hfits : hi < 2 ^ 64 + lo) (hcoalesced : Coalesced (before.reverse ++ b :: after)) :
    Covers lo hi (coalesce before { b with free := true } after) ∧
      Coalesced (coalesce before { b with free := true } after) ∧
      used (coalesce before { b with free := true } after) = used before.reverse ++ used after := by
  obtain ⟨hbefore, hrest, _⟩ := List.isChain_append.mp hcoalesced
  have hfreed : Covers lo hi (before.reverse ++ { b with free := true } :: after) :=
    Tiles.replace [b] [{ b with free := true }] hcovers fun l u hb _ _ => hb
  obtain ⟨hcovers', hchain, hfree, hused⟩ := joinPrevious_spec hfreed hfits hbefore rfl
  obtain ⟨hcovers'', hchain', hused'⟩ :=
    joinNext_spec hcovers' hfits hchain (List.isChain_cons.mp hrest).2 hfree
  refine ⟨hcovers'', hchain', ?_⟩
  rw [coalesce, used_append, hused, hused']

end Coalesce

theorem release_some {p : GuestAddr} {before bs bs' : List Block}
    (h : release p before bs = some bs') :
    ∃ passed b after, bs = passed ++ b :: after ∧ b.addr = p ∧ b.free = false ∧
      bs' = coalesce (passed.reverse ++ before) { b with free := true } after := by
  induction bs generalizing before with
  | nil => cases h
  | cons b after ih =>
      rw [release] at h
      split at h
      · obtain ⟨passed, b', after', hbs, haddr, hused, hout⟩ := ih h
        refine ⟨b :: passed, b', after', ?_, haddr, hused, ?_⟩
        · rw [hbs, List.cons_append]
        · rw [hout, List.reverse_cons, List.append_assoc]
          rfl
      · rename_i haddr
        split at h
        · cases h
        · rename_i hfree
          cases h
          exact ⟨[], b, after, rfl, not_not.mp haddr, Bool.eq_false_iff.mpr hfree, rfl⟩

/-- An address that is refused is not that of a used block, as no address stands there twice. -/
theorem release_none {p : GuestAddr} {before bs : List Block} (h : release p before bs = none)
    (hdistinct : (bs.map Block.addr).Nodup) : ∀ b ∈ used bs, b.addr ≠ p := by
  induction bs generalizing before with
  | nil => exact fun b hb => nomatch hb
  | cons b after ih =>
      rw [List.map_cons, List.nodup_cons] at hdistinct
      rw [release] at h
      split at h
      · rename_i haddr
        intro b' hb'
        obtain ⟨hmem, hused⟩ := mem_used.mp hb'
        rcases List.mem_cons.mp hmem with rfl | hmem
        · exact haddr
        · exact ih h hdistinct.2 b' (mem_used.mpr ⟨hmem, hused⟩)
      · rename_i haddr
        obtain rfl : b.addr = p := not_not.mp haddr
        split at h
        · rename_i hfree
          intro b' hb' heq
          obtain ⟨hmem, hused⟩ := mem_used.mp hb'
          rcases List.mem_cons.mp hmem with rfl | hmem
          · rw [hfree] at hused
            cases hused
          · exact hdistinct.1 (heq ▸ List.mem_map_of_mem hmem)
        · cases h

/-! ### The invariant of the runs -/

/-- The blocks tile the installed region without free neighbours, and the blocks in use are the
live allocations. -/
structure Inv (base : GuestAddr) (size : U64) (s : Run) : Prop where
  covers : Covers base.toNat (base.toNat + size.toNat) s.heap.blocks
  coalesced : Coalesced s.heap.blocks
  live : ((used s.heap.blocks).map Block.addr).Perm (s.live.map Prod.fst)
  large : ∀ x ∈ s.live, ∃ b ∈ used s.heap.blocks, b.addr = x.1 ∧ x.2.toNat ≤ b.size.toNat

theorem toNat_aligned (sz : U64) : (aligned sz).toNat = (sz + 15).toNat - (sz + 15).toNat % 16 :=
  toNat_base 4 (sz + 15)

/-- A size that does not round to zero rounds up. -/
theorem le_aligned {sz : U64} (h : aligned sz ≠ 0) : sz.toNat ≤ (aligned sz).toNat := by
  have hne : (aligned sz).toNat ≠ 0 := fun heq => h (BitVec.eq_of_toNat_eq heq)
  have hsum : (sz + 15).toNat = (sz.toNat + 15) % 2 ^ 64 := BitVec.toNat_add sz 15
  rw [toNat_aligned] at hne ⊢
  omega

section Steps

variable {base : GuestAddr} {size : U64} {s : Run}

theorem Inv.addr_ne_zero (h : Inv base size s) (hbase : base ≠ 0) {b : Block}
    (hb : b ∈ s.heap.blocks) : b.addr ≠ 0 := by
  intro hzero
  have hlo : base.toNat ≤ b.addr.toNat := (h.covers.bounds hb).1
  rw [hzero] at hlo
  exact hbase (BitVec.eq_of_toNat_eq (Nat.le_zero.mp hlo))

theorem Inv.alloc (h : Inv base size s) (hfits : base.toNat + size.toNat ≤ 2 ^ 64)
    (hbase : base ≠ 0) (sz : U64) : Inv base size (s.step (.alloc sz)) := by
  have hrefused (heq : s.heap.alloc sz = (0, s.heap)) : Inv base size (s.step (.alloc sz)) := by
    rw [Run.step, heq]
    exact h
  by_cases hzero : aligned sz = 0
  · exact hrefused (if_pos hzero)
  cases htake : takeFirst (aligned sz) s.heap.blocks with
  | none => exact hrefused (by rw [StubHeap.alloc, if_neg hzero, htake])
  | some r =>
      obtain ⟨p, blocks⟩ := r
      have heq : s.heap.alloc sz = (p, { s.heap with blocks }) := by
        rw [StubHeap.alloc, if_neg hzero, htake]
      obtain ⟨before, b, after, hbs, hfree, hle, rfl, hout⟩ := takeFirst_some htake
      have hmem : b ∈ s.heap.blocks := by
        rw [hbs]
        exact List.mem_append_right _ (List.mem_cons_self ..)
      obtain ⟨b', haddr, hsize, hold, hnew⟩ := @used_take before after b (aligned sz) hfree
      have hcovers := h.covers
      have hcoalesced := h.coalesced
      have hlive := h.live
      have hlarge := h.large
      rw [hbs] at hcovers hcoalesced hlive hlarge
      rw [hold] at hlive hlarge
      rw [Run.step, heq, if_neg (h.addr_ne_zero hbase hmem)]
      refine ⟨?_, ?_, ?_, ?_⟩
      · rw [hout]
        exact hcovers.take hfits hle hzero
      · rw [hout]
        exact hcoalesced.take hfree
      · rw [hout, hnew, List.map_append, List.map_cons, List.map_cons, haddr]
        rw [List.map_append] at hlive
        exact List.perm_middle.trans (hlive.cons _)
      · rw [hout, hnew]
        intro x hx
        rcases List.mem_cons.mp hx with rfl | hx
        · refine ⟨b', List.mem_append_right _ (List.mem_cons_self ..), haddr, ?_⟩
          exact (le_aligned hzero).trans (hsize hle)
        · obtain ⟨c, hc, hcaddr, hcsize⟩ := hlarge x hx
          exact ⟨c, (List.mem_append.mp hc).elim (List.mem_append_left _)
            fun hc => List.mem_append_right _ (List.mem_cons_of_mem _ hc), hcaddr, hcsize⟩

/-- A live allocation has an address of its own. -/
theorem Inv.live_ne_zero (h : Inv base size s) (hbase : base ≠ 0) {x : GuestAddr × U64}
    (hx : x ∈ s.live) : x.1 ≠ 0 := by
  obtain ⟨b, hb, haddr, _⟩ := h.large x hx
  rw [← haddr]
  exact h.addr_ne_zero hbase (mem_used.mp hb).1

theorem Inv.free (h : Inv base size s) (hbase : base ≠ 0) (p : GuestAddr) :
    Inv base size (s.step (.free p)) := by
  have hpos : base.toNat ≠ 0 := fun heq => hbase (BitVec.eq_of_toNat_eq heq)
  have hsize := size.isLt
  by_cases hzero : p = 0
  · have heq : s.heap.free p = (true, s.heap) := if_pos hzero
    have hkeeps : s.live.filter (fun x => x.1 ≠ p) = s.live := by
      refine List.filter_eq_self.mpr fun x hx => decide_eq_true ?_
      rw [hzero]
      exact h.live_ne_zero hbase hx
    rw [Run.step, heq, if_pos rfl, hkeeps]
    exact h
  cases hrelease : release p [] s.heap.blocks with
  | none =>
      have heq : s.heap.free p = (false, s.heap) := by
        rw [StubHeap.free, if_neg hzero, hrelease]
      rw [Run.step, heq]
      exact h
  | some blocks =>
      have heq : s.heap.free p = (true, { s.heap with blocks }) := by
        rw [StubHeap.free, if_neg hzero, hrelease]
      obtain ⟨passed, b, after, hbs, rfl, hused, hout⟩ := release_some hrelease
      have hcovers := h.covers
      have hcoalesced := h.coalesced
      have hlive := h.live
      have hlarge := h.large
      have hdistinct := h.covers.distinct
      rw [hbs] at hcovers hcoalesced hlive hlarge hdistinct
      rw [used_append, used_cons_used hused] at hlive hlarge
      rw [List.map_append, List.map_cons, List.nodup_middle, List.nodup_cons,
        ← List.map_append] at hdistinct
      have hothers : ∀ c ∈ used passed ++ used after, c.addr ≠ b.addr := by
        intro c hc hcaddr
        rw [← used_append] at hc
        exact hdistinct.1 (hcaddr ▸ List.mem_map_of_mem (mem_used.mp hc).1)
      rw [← List.reverse_reverse passed] at hcovers hcoalesced
      obtain ⟨hcovers', hcoalesced', hused'⟩ := coalesce_spec hcovers (by omega) hcoalesced
      rw [List.append_nil] at hout
      rw [List.reverse_reverse] at hused'
      rw [Run.step, heq, if_pos rfl]
      subst hout
      refine ⟨hcovers', hcoalesced', ?_, ?_⟩
      · have hb : ((used passed ++ b :: used after).map Block.addr).filter (fun q => q ≠ b.addr) =
            (used passed ++ used after).map Block.addr := by
          have hrest : ((used passed ++ used after).map Block.addr).filter
              (fun q => q ≠ b.addr) = (used passed ++ used after).map Block.addr := by
            refine List.filter_eq_self.mpr fun q hq => decide_eq_true ?_
            obtain ⟨c, hc, rfl⟩ := List.mem_map.mp hq
            exact hothers c hc
          rw [List.map_append, List.filter_append] at hrest ⊢
          rw [List.map_cons, List.filter_cons, if_neg (by simp), hrest, List.map_append]
        have hfiltered := hlive.filter fun q => q ≠ b.addr
        rw [hb, List.filter_map] at hfiltered
        rw [hused']
        exact hfiltered
      · intro x hx
        obtain ⟨hx, hne⟩ := List.mem_filter.mp hx
        obtain ⟨c, hc, hcaddr, hcsize⟩ := hlarge x hx
        refine ⟨c, ?_, hcaddr, hcsize⟩
        rw [hused']
        rcases List.mem_append.mp hc with hc | hc
        · exact List.mem_append_left _ hc
        · rcases List.mem_cons.mp hc with rfl | hc
          · exact absurd hcaddr.symm (of_decide_eq_true hne)
          · exact List.mem_append_right _ hc

theorem Inv.distinct (h : Inv base size s) : (s.live.map Prod.fst).Nodup := by
  have hused : ((used s.heap.blocks).map Block.addr).Nodup :=
    h.covers.distinct.sublist (List.filter_sublist.map Block.addr)
  exact h.live.nodup_iff.mp hused

/-- The address of a live allocation is accepted. -/
theorem Inv.free_live (h : Inv base size s) {p : GuestAddr} (hp : p ∈ s.live.map Prod.fst) :
    (s.heap.free p).1 = true := by
  unfold StubHeap.free
  split
  · rfl
  · cases hrelease : release p [] s.heap.blocks with
    | some blocks => rfl
    | none =>
        obtain ⟨b, hb, haddr⟩ := List.mem_map.mp (h.live.mem_iff.mpr hp)
        exact absurd haddr (release_none hrelease h.covers.distinct b hb)

theorem inv_install (hsize : size ≠ 0) : Inv base size ⟨install base size, []⟩ := by
  have hpos : size.toNat ≠ 0 := fun heq => hsize (BitVec.eq_of_toNat_eq heq)
  refine ⟨⟨rfl, Nat.pos_of_ne_zero hpos, rfl⟩, List.isChain_singleton _, .refl _, ?_⟩
  exact fun x hx => nomatch hx

theorem Inv.steps (h : Inv base size s) (hbase : base ≠ 0)
    (hfits : base.toNat + size.toNat ≤ 2 ^ 64) (ops : List Op) :
    Inv base size (s.steps ops) := by
  induction ops generalizing s with
  | nil => exact h
  | cons op ops ih =>
      cases op with
      | alloc sz => exact ih (h.alloc hfits hbase sz)
      | free p => exact ih (h.free hbase p)

/-- Every live allocation is freed, in some order: one free block remains. -/
theorem Inv.drained (h : Inv base size s) (hbase : base ≠ 0) (hsize : size ≠ 0)
    {ps : List GuestAddr} (hps : ps.Perm (s.live.map Prod.fst)) :
    (freeAll ps s.heap).1 = true ∧
      (freeAll ps s.heap).2.blocks = (install base size).blocks := by
  induction ps generalizing s with
  | nil =>
      have hlive : s.live.map Prod.fst = [] := hps.nil_eq.symm
      have hused : used s.heap.blocks = [] := by
        have hperm := h.live
        rw [hlive] at hperm
        exact List.map_eq_nil_iff.mp hperm.eq_nil
      have hpos : size.toNat ≠ 0 := fun heq => hsize (BitVec.eq_of_toNat_eq heq)
      obtain ⟨b, hb, hfree, haddr, hlen⟩ :=
        eq_singleton_of_all_free h.covers h.coalesced (by omega) hused
      refine ⟨rfl, ?_⟩
      obtain ⟨addr, len, free⟩ := b
      obtain rfl : free = true := hfree
      obtain rfl : addr = base := BitVec.eq_of_toNat_eq haddr
      obtain rfl : len = size := BitVec.eq_of_toNat_eq (by dsimp only at hlen; omega)
      exact hb
  | cons p ps ih =>
      have hmem : p ∈ s.live.map Prod.fst := hps.mem_iff.mp (List.mem_cons_self ..)
      have hdistinct : (p :: ps).Nodup := hps.nodup_iff.mpr h.distinct
      have hfreed := h.free hbase p
      have hstep : s.step (.free p) =
          ⟨(s.heap.free p).2, s.live.filter fun x => x.1 ≠ p⟩ := by
        rw [Run.step, h.free_live hmem]
        rfl
      rw [hstep] at hfreed
      have hrest : ps.Perm ((s.live.filter fun x => x.1 ≠ p).map Prod.fst) := by
        have hfiltered := hps.filter fun q => q ≠ p
        have hps' : ps.filter (fun q => q ≠ p) = ps := by
          refine List.filter_eq_self.mpr fun q hq => decide_eq_true ?_
          rintro rfl
          exact (List.nodup_cons.mp hdistinct).1 hq
        rw [List.filter_cons, if_neg (by simp), hps', List.filter_map] at hfiltered
        exact hfiltered
      obtain ⟨hall, hblocks⟩ := ih hfreed hrest
      rw [freeAll, h.free_live hmem]
      exact ⟨hall, hblocks⟩

/-- What holds of the heap at every point of a run. -/
structure Sound (base : GuestAddr) (size : U64) (s : Run) : Prop where
  sorted : s.heap.blocks.Pairwise fun a b => a.addr.toNat < b.addr.toNat
  tiles : Covers base.toNat (base.toNat + size.toNat) s.heap.blocks
  coalesced : Coalesced s.heap.blocks
  accounted : s.heap.usedBytes.toNat + s.heap.freeBytes.toNat = size.toNat
  disjoint : s.live.Pairwise fun x y =>
    x.1.toNat + x.2.toNat ≤ y.1.toNat ∨ y.1.toNat + y.2.toNat ≤ x.1.toNat
  large : ∀ x ∈ s.live, ∃ b ∈ s.heap.blocks,
    b.addr = x.1 ∧ b.free = false ∧ x.2.toNat ≤ b.size.toNat
  owned : ∀ b ∈ s.heap.blocks, b.free = false → ∃ x ∈ s.live, x.1 = b.addr
  refused : ∀ sz, (s.heap.alloc sz).1 = 0 →
    aligned sz = 0 ∨ ∀ b ∈ s.heap.blocks, b.free = true → b.size.toNat < (aligned sz).toNat
  rejected : ∀ p, p ≠ 0 → (∀ x ∈ s.live, x.1 ≠ p) → s.heap.free p = (false, s.heap)
  null : s.heap.free 0 = (true, s.heap)
  drained : ∀ ps : List GuestAddr, ps.Perm (s.live.map Prod.fst) →
    (freeAll ps s.heap).1 = true ∧ (freeAll ps s.heap).2.blocks = [⟨base, size, true⟩]

theorem Inv.disjoint (h : Inv base size s) :
    s.live.Pairwise fun x y =>
      x.1.toNat + x.2.toNat ≤ y.1.toNat ∨ y.1.toNat + y.2.toNat ≤ x.1.toNat := by
  refine (List.pairwise_map.mp h.distinct).imp_of_mem fun {x y} hx hy hne => ?_
  obtain ⟨a, ha, hax, hasize⟩ := h.large x hx
  obtain ⟨b, hb, hby, hbsize⟩ := h.large y hy
  rw [← hax, ← hby] at hne ⊢
  have hab : a ≠ b := fun heq => hne (congrArg Block.addr heq)
  have hsep : a.addr.toNat + a.size.toNat ≤ b.addr.toNat ∨
      b.addr.toNat + b.size.toNat ≤ a.addr.toNat :=
    h.covers.separate (mem_used.mp ha).1 (mem_used.mp hb).1 hab
  omega

/-- A heap that keeps the invariant serves every call as it should. -/
theorem Inv.sound (h : Inv base size s) (hbase : base ≠ 0) (hsize : size ≠ 0) :
    Sound base size s where
  sorted := by
    refine h.covers.pairwise.imp_of_mem fun {a b} ha _ hab => ?_
    have hlen := (h.covers.bounds ha).2.1
    omega
  tiles := h.covers
  coalesced := h.coalesced
  accounted := by
    have hfits := size.isLt
    have hzero : (0 : U64).toNat = 0 := rfl
    have hsums := h.covers.sums 0 0 (by omega)
    exact hsums.trans (by omega)
  disjoint := h.disjoint
  large := by
    intro x hx
    obtain ⟨b, hb, haddr, hle⟩ := h.large x hx
    exact ⟨b, (mem_used.mp hb).1, haddr, (mem_used.mp hb).2, hle⟩
  owned := by
    intro b hb hused
    have hmem := h.live.mem_iff.mp (List.mem_map_of_mem (mem_used.mpr ⟨hb, hused⟩))
    exact List.mem_map.mp hmem
  refused := by
    intro sz hrefused
    by_cases hzero : aligned sz = 0
    · exact .inl hzero
    rw [StubHeap.alloc, if_neg hzero] at hrefused
    cases htake : takeFirst (aligned sz) s.heap.blocks with
    | none => exact .inr (takeFirst_none htake)
    | some r =>
        obtain ⟨before, b, after, hbs, _, _, hp, _⟩ := takeFirst_some htake
        have hmem : b ∈ s.heap.blocks := by
          rw [hbs]
          exact List.mem_append_right _ (List.mem_cons_self ..)
        rw [htake] at hrefused
        exact absurd (hp.symm.trans hrefused) (h.addr_ne_zero hbase hmem)
  rejected := by
    intro p hp hlive
    cases hrelease : release p [] s.heap.blocks with
    | none => rw [StubHeap.free, if_neg hp, hrelease]
    | some blocks =>
        obtain ⟨passed, b, after, hbs, rfl, hused, _⟩ := release_some hrelease
        have hb : b ∈ used s.heap.blocks := by
          rw [hbs]
          exact mem_used.mpr ⟨List.mem_append_right _ (List.mem_cons_self ..), hused⟩
        obtain ⟨x, hx, haddr⟩ := List.mem_map.mp (h.live.mem_iff.mp (List.mem_map_of_mem hb))
        exact absurd haddr (hlive x hx)
  null := if_pos rfl
  drained := fun _ hps => h.drained hbase hsize hps

end Steps

/-- Every run of calls from an installed heap keeps it sound. -/
theorem runs_sound (base : GuestAddr) (size : U64) (hbase : base ≠ 0) (hsize : size ≠ 0)
    (hfits : base.toNat + size.toNat ≤ 2 ^ 64) (ops : List Op) :
    Sound base size (Run.steps ⟨install base size, []⟩ ops) :=
  ((inv_install hsize).steps hbase hfits ops).sound hbase hsize

theorem runs_sound_reuse :
    Sound 0x10000 4096
      (Run.steps ⟨install 0x10000 4096, []⟩ [.alloc 64, .alloc 100, .free 0x10000, .alloc 16]) :=
  runs_sound 0x10000 4096 (by decide) (by decide) (by decide) _

end StubHeap

end PicoCpu
