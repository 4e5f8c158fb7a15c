import Mathlib.Data.List.Nodup
import PicoCpu.Memory.Protection

/-!
The guest heap: a bump allocator with sixteen size classes. Freed blocks form one list for each
class, threaded through their own first eight bytes in guest memory.
-/

namespace PicoCpu

open Granule

/-! ### Made bytes of the shadow pages -/

namespace ShadowPages

/-- The page of the byte has been made, and holds `b` there. -/
def Made (sp : ShadowPages) (a : GuestAddr) (b : U8) : Prop :=
  sp.pages (base pageShift a) ≠ none ∧
    sp.getOrMakePage (base pageShift a) (off pageShift a) = b

theorem Made.of_pages {sp sp' : ShadowPages} {a : GuestAddr} {b : U8} (h : Made sp a b)
    (hpages : sp'.pages = sp.pages) : Made sp' a b := by
  obtain ⟨hmade, hbyte⟩ := h
  unfold Made
  unfold getOrMakePage at hbyte ⊢
  rw [hpages]
  cases hpage : sp.pages (base pageShift a) with
  | none => exact absurd hpage hmade
  | some page =>
      rw [hpage] at hbyte
      exact ⟨Option.some_ne_none _, hbyte⟩

/-- A write leaves the made bytes it does not reach. -/
theorem Made.write {sp : ShadowPages} {a : GuestAddr} {b : U8} (h : Made sp a b)
    {addr : GuestAddr} {size : Nat} (hsize : size ≤ 2 ^ 64) (data : Buf)
    (hout : ¬ InRange addr size a) : Made (write addr size data sp).2 a b := by
  cases hr : (ShadowPages.write addr size data sp).1 with
  | error e =>
      rw [write_error hr]
      exact h
  | ok u =>
      have hw := write_ok addr size data sp hsize hr
      have hbyte := hw.contents (base pageShift a) (base_base pageShift a) (off pageShift a)
        (off_lt pageShift a)
      rw [base_add_off, if_neg hout] at hbyte
      exact ⟨fun hnone => h.1 ((hw.made _).mp hnone).1, hbyte.trans h.2⟩

/-- A write that returns Ok makes its bytes. -/
theorem made_of_write {sp : ShadowPages} {addr : GuestAddr} {size : Nat} (hsize : size ≤ 2 ^ 64)
    {data : Buf} (hok : (write addr size data sp).1 = .ok ()) {i : Nat} (hi : i < size) :
    Made (write addr size data sp).2 (addr + BitVec.ofNat 64 i) (data i) := by
  have hw := write_ok addr size data sp hsize hok
  have hin := inRange_add addr size i hi (by omega)
  have hbyte := hw.contents (base pageShift (addr + BitVec.ofNat 64 i)) (base_base pageShift _)
    (off pageShift (addr + BitVec.ofNat 64 i)) (off_lt pageShift _)
  rw [base_add_off, if_pos hin, toNat_add_sub_self addr i (by omega)] at hbyte
  exact ⟨fun hnone => ((hw.made _).mp hnone).2 ⟨_, hin, rfl⟩, hbyte⟩

/-- Made bytes are read back. -/
theorem read_of_made {sp : ShadowPages} {addr : GuestAddr} {size : Nat} {d : Buf}
    (h : ∀ i < size, Made sp (addr + BitVec.ofNat 64 i) (d i)) (out : Buf) :
    (sp.read addr size out).1 = .ok () ∧ ∀ i < size, (sp.read addr size out).2 i = d i := by
  have hleaves : Leaves size (fun done (out' : Buf) => ∀ i < done, out' i = d i) (fun _ _ => False)
      (sp.read addr size out) := by
    apply walkRange_rule
    · intro done n out' hfill hpos hle hfit
      have hpage := (h done (by omega)).1
      rw [serve_of_page n done out' hpage]
      intro i hi
      by_cases hnew : done ≤ i ∧ i < done + n
      · obtain ⟨j, rfl⟩ := Nat.exists_eq_add_of_le hnew.1
        have hbyte := (h (done + j) (by omega)).2
        have hbase := base_add pageShift (by decide) (addr + BitVec.ofNat 64 done) j (by omega)
        have hoff := off_add pageShift (by decide) (addr + BitVec.ofNat 64 done) j (by omega)
        rw [← add_add_ofNat] at hbyte
        rw [overwrite_inside _ _ _ _ hnew, Nat.add_sub_cancel_left, ← hbyte, hbase, hoff]
      · rw [overwrite_outside _ _ _ _ hnew]
        exact hfill i (by omega)
    · intro i hi
      exact absurd hi (Nat.not_lt_zero _)
  cases hr : sp.read addr size out with
  | mk r out' =>
      rw [hr] at hleaves
      cases r with
      | error e => exact hleaves.elim
      | ok u => exact ⟨rfl, hleaves⟩

end ShadowPages

/-! ### The allocator -/

structure Heap where
  base : GuestAddr
  size : U64
  /-- The offset of the next fresh block. -/
  bump : U64 := 0
  /-- The head of the list of each class, 0 when it is empty. -/
  freelist : Nat → GuestAddr := fun _ => 0

namespace Heap

def ALIGN : U64 := 16

def SIZE_CLASSES : Nat := 16

def roundUp (v grain : U64) : U64 := (v + (grain - 1)) &&& ~~~(grain - 1)

/-- The loop of `class_for`, with the number of classes above `cls`. -/
def growClass (sz : U64) : Nat → U64 → Nat → Nat
  | 0, _, cls => cls
  | above + 1, cap, cls => if cap.ult sz then growClass sz above (cap <<< 1) (cls + 1) else cls

def classFor (bytes : U64) : Nat :=
  growClass (roundUp (if bytes.ult ALIGN then ALIGN else bytes) ALIGN) (SIZE_CLASSES - 1) ALIGN 0

def allocBump (blockSz : U64) (h : Heap) : GuestAddr × Heap :=
  if h.size.ult (h.bump + blockSz) then (0, h)
  else (h.base + h.bump, { h with bump := h.bump + blockSz })

/-- The first block of its class, else a fresh one; 0 when there is none. -/
def alloc (bytes : U64) (sp : ShadowPages) (h : Heap) : GuestAddr × Heap :=
  if bytes = 0 then (0, h)
  else
    let cls := classFor bytes
    let blockSz := ALIGN <<< cls
    if h.freelist cls ≠ 0 then
      match sp.read (h.freelist cls) 8 fun _ => 0 with
      | (.error _, _) =>
        allocBump blockSz { h with freelist := Function.update h.freelist cls 0 }
      | (.ok _, next) =>
        (h.freelist cls, { h with freelist := Function.update h.freelist cls (loadLE next 8) })
    else allocBump blockSz h

/-- The status of the write of the link is dropped. -/
def free (addr : GuestAddr) (bytes : U64) (h : Heap) (sp : ShadowPages) : Heap × ShadowPages :=
  if addr = 0 ∨ bytes = 0 then (h, sp)
  else if addr.ult h.base || (h.base + h.size).ule addr then (h, sp)
  else
    ({ h with freelist := Function.update h.freelist (classFor bytes) addr },
      (ShadowPages.write addr 8 (storeLE (h.freelist (classFor bytes))) sp).2)

end Heap

/-! ### Runs -/

/-- The heap over its shadow pages, with what the calls so far have handed out: the live
blocks, each with the size it was asked for, and the freed ones. -/
structure HeapVm where
  heap : Heap
  sp : ShadowPages
  live : List (GuestAddr × U64) := []
  freed : List GuestAddr := []

namespace HeapVm

/-- The constructor registers the heap as a private region. -/
def new (base : GuestAddr) (size : U64) (sp : ShadowPages) : HeapVm :=
  { heap := { base, size }, sp := sp.addPrivateRegion base size }

inductive Op where
  | alloc (bytes : U64)
  | free (addr : GuestAddr) (bytes : U64)
  | pages (call : ShadowPages.Call)

def step (s : HeapVm) : Op → HeapVm
  | .alloc bytes =>
    let r := s.heap.alloc bytes s.sp
    { s with
      heap := r.2
      live := if r.1 = 0 then s.live else (r.1, bytes) :: s.live
      freed := s.freed.filter (· != r.1) }
  | .free addr bytes =>
    let r := s.heap.free addr bytes s.sp
    { heap := r.1, sp := r.2, live := s.live.erase (addr, bytes), freed := addr :: s.freed }
  | .pages call => { s with sp := call.apply s.sp }

inductive Reach (ok : HeapVm → Op → Prop) (start : HeapVm) : HeapVm → Prop
  | start : Reach ok start start
  | step {s : HeapVm} (h : Reach ok start s) (op : Op) (hok : ok s op) : Reach ok start (s.step op)

/-- Each free passes a live block with its size, and no guest write reaches the link of a freed
block. -/
def Disciplined (s : HeapVm) : Op → Prop
  | .alloc _ => True
  | .free addr bytes => (addr, bytes) ∈ s.live
  | .pages (.write addr size _) =>
    ∀ p ∈ s.freed, ∀ a, InRange p 8 a → ¬ InRange addr size.toNat a
  | .pages _ => True

/-- No request is larger than the largest class, and the pages take the link of every free. -/
def Served (s : HeapVm) : Op → Prop
  | .alloc bytes => bytes.toNat ≤ 2 ^ 19
  | .free addr _ => s.sp.writable addr 8 = true
  | .pages _ => True

/-- What a caller of `alloc` relies on: an aligned block inside the heap, none of whose bytes
belongs to another live block. -/
structure Usable (s : HeapVm) (p : GuestAddr) (bytes : U64) : Prop where
  aligned : p.toNat % 16 = 0
  inside : ∀ a, InRange p bytes.toNat a → InRange s.heap.base s.heap.size.toNat a
  apart : ∀ q m, (q, m) ∈ s.live → ∀ a, InRange p bytes.toNat a → ¬ InRange q m.toNat a

end HeapVm

/-! ### Size classes -/

/-- The length of a block of the class. -/
def blockLen (cls : Nat) : Nat := 16 * 2 ^ cls

theorem toNat_align_shift {cls : Nat} (h : cls ≤ 15) :
    (Heap.ALIGN <<< cls).toNat = blockLen cls := by
  have hpow : 2 ^ cls ≤ 2 ^ 15 := Nat.pow_le_pow_right (by omega) h
  have halign : Heap.ALIGN.toNat = 16 := rfl
  rw [BitVec.toNat_shiftLeft, Nat.shiftLeft_eq, halign, Nat.mod_eq_of_lt (by omega)]
  rfl

theorem growClass_spec (sz : U64) : ∀ (above : Nat) (cap : U64) (cls : Nat),
    cap.toNat = blockLen cls → cls + above = 15 →
      Heap.growClass sz above cap cls ≤ 15 ∧
      (sz.toNat ≤ 2 ^ 19 → sz.toNat ≤ blockLen (Heap.growClass sz above cap cls)) := by
  intro above
  induction above with
  | zero =>
      intro cap cls hcap hcls
      obtain rfl : cls = 15 := hcls
      exact ⟨Nat.le_refl _, fun h => h⟩
  | succ above ih =>
      intro cap cls hcap hcls
      rw [Heap.growClass]
      split
      · have hpow : 2 ^ cls ≤ 2 ^ 14 := Nat.pow_le_pow_right (by omega) (by omega)
        have hnext : (cap <<< 1).toNat = blockLen (cls + 1) := by
          rw [BitVec.toNat_shiftLeft, Nat.shiftLeft_eq, hcap]
          unfold blockLen
          have hsucc : 2 ^ (cls + 1) = 2 ^ cls * 2 := Nat.pow_succ 2 cls
          omega
        exact ih (cap <<< 1) (cls + 1) hnext (by omega)
      · rename_i hlarge
        rw [BitVec.ult_iff_toNat_lt] at hlarge
        exact ⟨by omega, fun _ => by omega⟩

theorem classFor_le (bytes : U64) : Heap.classFor bytes ≤ 15 :=
  (growClass_spec _ 15 Heap.ALIGN 0 rfl rfl).1

/-- A block holds the bytes it was asked for, up to the largest class. -/
theorem le_blockLen {bytes : U64} (h : bytes.toNat ≤ 2 ^ 19) :
    bytes.toNat ≤ blockLen (Heap.classFor bytes) := by
  generalize hv : (if bytes.ult Heap.ALIGN then Heap.ALIGN else bytes) = v
  have hle : bytes.toNat ≤ v.toNat ∧ v.toNat ≤ 2 ^ 19 := by
    split at hv
    · rename_i hsmall
      rw [BitVec.ult_iff_toNat_lt] at hsmall
      rw [← hv]
      exact ⟨hsmall.le, by decide⟩
    · rw [← hv]
      exact ⟨Nat.le_refl _, h⟩
  have hround : (Heap.roundUp v Heap.ALIGN).toNat = v.toNat + 15 - (v.toNat + 15) % 16 := by
    have hsum : (v + 15#64).toNat = v.toNat + 15 := by
      rw [BitVec.toNat_add]
      exact Nat.mod_eq_of_lt (by simp only [BitVec.toNat_ofNat]; omega)
    have hbase : Heap.roundUp v Heap.ALIGN = base 4 (v + 15#64) := rfl
    rw [hbase, toNat_base, hsum]
    rfl
  have hfit := (growClass_spec (Heap.roundUp v Heap.ALIGN) 15 Heap.ALIGN 0 rfl rfl).2
    (by rw [hround]; omega)
  have hclass : Heap.classFor bytes =
      Heap.growClass (Heap.roundUp v Heap.ALIGN) 15 Heap.ALIGN 0 := by
    rw [← hv]
    rfl
  rw [hclass]
  rw [hround] at hfit
  omega

/-! ### The lists in memory -/

/-- The link stored in the freed block. -/
def HoldsLink (sp : ShadowPages) (p next : GuestAddr) : Prop :=
  ∀ i < 8, sp.Made (p + BitVec.ofNat 64 i) (storeLE next i)

/-- The list that starts at `head`, as the memory has it. -/
def Linked (sp : ShadowPages) : GuestAddr → List GuestAddr → Prop
  | head, [] => head = 0
  | head, p :: rest => head = p ∧ ∃ next, HoldsLink sp p next ∧ Linked sp next rest

theorem HoldsLink.read {sp : ShadowPages} {p next : GuestAddr} (h : HoldsLink sp p next)
    (out : Buf) : (sp.read p 8 out).1 = .ok () ∧ loadLE (sp.read p 8 out).2 8 = next := by
  obtain ⟨hok, hbytes⟩ := ShadowPages.read_of_made h out
  exact ⟨hok, loadLE_of_stored hbytes⟩

/-- A write that does not reach the link keeps it. -/
theorem HoldsLink.write {sp : ShadowPages} {p next : GuestAddr} (h : HoldsLink sp p next)
    {addr : GuestAddr} {size : Nat} (hsize : size ≤ 2 ^ 64) (data : Buf)
    (hout : ∀ a, InRange p 8 a → ¬ InRange addr size a) :
    HoldsLink (ShadowPages.write addr size data sp).2 p next := by
  intro i hi
  exact (h i hi).write hsize data (hout _ (inRange_add p 8 i hi (by omega)))

theorem Linked.mono {sp sp' : ShadowPages} {head : GuestAddr} {blocks : List GuestAddr}
    (hkeep : ∀ p ∈ blocks, ∀ next, HoldsLink sp p next → HoldsLink sp' p next)
    (h : Linked sp head blocks) : Linked sp' head blocks := by
  induction blocks generalizing head with
  | nil => exact h
  | cons p rest ih =>
      obtain ⟨hhead, next, hlink, hrest⟩ := h
      exact ⟨hhead, next, hkeep p List.mem_cons_self next hlink,
        ih (fun q hq => hkeep q (List.mem_cons_of_mem _ hq)) hrest⟩

/-- The calls of a disciplined guest keep the links of the freed blocks. -/
theorem HoldsLink.call {s : HeapVm} {call : ShadowPages.Call} {p next : GuestAddr}
    (hp : p ∈ s.freed) (hok : s.Disciplined (.pages call)) (h : HoldsLink s.sp p next) :
    HoldsLink (call.apply s.sp) p next := by
  cases call with
  | protect base size prot => exact fun i hi => (h i hi).of_pages rfl
  | addPrivateRegion base size => exact fun i hi => (h i hi).of_pages rfl
  | addCodeRange base size => exact fun i hi => (h i hi).of_pages rfl
  | write addr size data =>
      have heq := ShadowPages.writeNotifying_eq_write addr size data s.sp
      have hsp : (ShadowPages.writeNotifying addr size data s.sp).2.2 =
          (ShadowPages.write addr size.toNat data s.sp).2 := congrArg Prod.snd heq
      simp only [ShadowPages.Call.apply, hsp]
      exact h.write size.isLt.le data (hok p hp)

/-- A byte of a block lies past the offset of the block. -/
theorem dist_of_inRange {b p a : GuestAddr} {len : Nat} (h : InRange p len a)
    (hroom : (p - b).toNat + len ≤ 2 ^ 64) : (a - b).toNat = (p - b).toNat + (a - p).toNat := by
  have hlt : (a - p).toNat < len := h
  have hsplit : a - b = (p - b) + (a - p) := by bv_omega
  rw [hsplit, BitVec.toNat_add, Nat.mod_eq_of_lt (by omega)]

/-! ### The invariant -/

/-- The heap is cut into blocks, the class of each fixed when it is cut: they lie apart below
the bump offset, and each is live at most once, or in the list of its class at most once, never
both. -/
structure HeapInv (s : HeapVm) (cls : GuestAddr → Option Nat) (list : Nat → List GuestAddr) :
    Prop where
  base_aligned : s.heap.base.toNat % 16 = 0
  room : s.heap.size.toNat + 2 ^ 19 < 2 ^ 64
  bump_le : s.heap.bump.toNat ≤ s.heap.size.toNat
  bump_aligned : s.heap.bump.toNat % 16 = 0
  inside : ∀ p c, cls p = some c → c ≤ 15 ∧ (p - s.heap.base).toNat % 16 = 0 ∧
    (p - s.heap.base).toNat + blockLen c ≤ s.heap.bump.toNat
  apart : ∀ p q c d, cls p = some c → cls q = some d → p ≠ q →
    (p - s.heap.base).toNat + blockLen c ≤ (q - s.heap.base).toNat ∨
    (q - s.heap.base).toNat + blockLen d ≤ (p - s.heap.base).toNat
  live_cls : ∀ p n, (p, n) ∈ s.live → p ≠ 0 ∧ n.toNat ≤ 2 ^ 19 ∧ cls p = some (Heap.classFor n)
  live_once : (s.live.map Prod.fst).Nodup
  linked : ∀ c, Linked s.sp (s.heap.freelist c) (list c)
  list_cls : ∀ c, ∀ p ∈ list c, p ≠ 0 ∧ p ∈ s.freed ∧ cls p = some c
  list_once : ∀ c, (list c).Nodup
  list_free : ∀ c, ∀ p ∈ list c, ∀ n, (p, n) ∉ s.live

theorem blockLen_le {c : Nat} (h : c ≤ 15) : blockLen c ≤ 2 ^ 19 := by
  have hpow : 2 ^ c ≤ 2 ^ 15 := Nat.pow_le_pow_right (by omega) h
  unfold blockLen
  omega

theorem eight_le_blockLen (c : Nat) : 8 ≤ blockLen c := by
  have hpow : 0 < 2 ^ c := Nat.two_pow_pos c
  unfold blockLen
  omega

/-- Two blocks share no byte. -/
theorem HeapInv.disjoint {s : HeapVm} {cls : GuestAddr → Option Nat}
    {list : Nat → List GuestAddr} (hinv : HeapInv s cls list) {p q : GuestAddr} {c d : Nat}
    (hp : cls p = some c)
    (hq : cls q = some d) (hne : p ≠ q) {m n : Nat} (hm : m ≤ blockLen c) (hn : n ≤ blockLen d)
    {a : GuestAddr} (ha : InRange p m a) : ¬ InRange q n a := by
  intro hb
  have hsize := s.heap.size.isLt
  have hbump := hinv.bump_le
  obtain ⟨-, -, hpin⟩ := hinv.inside p c hp
  obtain ⟨-, -, hqin⟩ := hinv.inside q d hq
  have hpa := dist_of_inRange (b := s.heap.base) ha (by omega)
  have hqa := dist_of_inRange (b := s.heap.base) hb (by omega)
  have hlt : (a - p).toNat < m := ha
  have hlt' : (a - q).toNat < n := hb
  rcases hinv.apart p q c d hp hq hne with h | h
  · omega
  · omega

/-- A live block at the head of the list is usable beside the others. -/
theorem HeapInv.usable {s : HeapVm} {cls : GuestAddr → Option Nat} {list : Nat → List GuestAddr}
    (hinv : HeapInv s cls list) {s₀ : HeapVm} {p : GuestAddr} {n : U64}
    (hlive : s.live = (p, n) :: s₀.live) (hbase : s₀.heap.base = s.heap.base)
    (hsize : s₀.heap.size = s.heap.size) : s₀.Usable p n := by
  obtain ⟨-, hn, hcls⟩ := hinv.live_cls p n (by rw [hlive]; exact List.mem_cons_self)
  obtain ⟨-, haligned, hin⟩ := hinv.inside p _ hcls
  have hfit := le_blockLen hn
  have hbump := hinv.bump_le
  have honce := hinv.live_once
  rw [hlive, List.map_cons, List.nodup_cons] at honce
  constructor
  · have hbaseal := hinv.base_aligned
    bv_omega
  · intro a ha
    rw [hbase, hsize]
    have hdist := dist_of_inRange (b := s.heap.base) ha (by omega)
    have hlt : (a - p).toNat < n.toNat := ha
    unfold InRange
    omega
  · intro q m hq a ha
    obtain ⟨-, hm, hqcls⟩ := hinv.live_cls q m (by rw [hlive]; exact List.mem_cons_of_mem _ hq)
    have hne : p ≠ q := by
      rintro rfl
      exact honce.1 (List.mem_map.mpr ⟨(p, m), hq, rfl⟩)
    exact hinv.disjoint hcls hqcls hne hfit (le_blockLen hm) ha

/-! ### One call -/

section Step

variable {s : HeapVm} {cls : GuestAddr → Option Nat} {list : Nat → List GuestAddr}
  (hinv : HeapInv s cls list)
include hinv

/-- A request that returns 0 and takes nothing. -/
theorem HeapInv.refused {bytes : U64} (h : s.heap.alloc bytes s.sp = (0, s.heap)) :
    HeapInv (s.step (.alloc bytes)) cls list := by
  have hstep : s.step (.alloc bytes) = { s with freed := s.freed.filter (· != 0) } := by
    simp only [HeapVm.step, h, if_pos]
  rw [hstep]
  refine { hinv with list_cls := ?_ }
  intro c p hp
  obtain ⟨hne, hfreed, hcls⟩ := hinv.list_cls c p hp
  exact ⟨hne, List.mem_filter.mpr ⟨hfreed, bne_iff_ne.mpr hne⟩, hcls⟩

/-- A freed block comes back out of its list. -/
theorem HeapInv.recycled {bytes : U64} (hn : bytes.toNat ≤ 2 ^ 19) (hbytes : bytes ≠ 0)
    {p : GuestAddr} {rest : List GuestAddr} (hlist : list (Heap.classFor bytes) = p :: rest) :
    HeapInv (s.step (.alloc bytes)) cls (Function.update list (Heap.classFor bytes) rest) ∧
      (s.step (.alloc bytes)).live = (p, bytes) :: s.live := by
  generalize hc : Heap.classFor bytes = c at hlist ⊢
  have hmem : p ∈ list c := by
    rw [hlist]
    exact List.mem_cons_self
  obtain ⟨hne, hfreed, hcls⟩ := hinv.list_cls c p hmem
  have hlinked := hinv.linked c
  rw [hlist] at hlinked
  obtain ⟨hhead, next, hlink, hrest⟩ := hlinked
  obtain ⟨hok, hnext⟩ := hlink.read fun _ => 0
  have halloc : s.heap.alloc bytes s.sp =
      (p, { s.heap with freelist := Function.update s.heap.freelist c next }) := by
    unfold Heap.alloc
    rw [if_neg hbytes]
    simp only [hc, hhead, if_pos hne, ne_eq]
    cases hr : s.sp.read p 8 fun _ => 0 with
    | mk r out =>
        rw [hr] at hok hnext
        simp only at hok hnext
        rw [hok]
        simp only [hnext]
  have hstep : s.step (.alloc bytes) =
      { s with
        heap := { s.heap with freelist := Function.update s.heap.freelist c next }
        live := (p, bytes) :: s.live
        freed := s.freed.filter (· != p) } := by
    simp only [HeapVm.step, halloc, if_neg hne]
  rw [hstep]
  refine ⟨?_, rfl⟩
  have honce := hinv.list_once c
  rw [hlist, List.nodup_cons] at honce
  -- what stays listed was listed, and is another block
  have hsub (d : Nat) (q : GuestAddr) (hq : q ∈ Function.update list c rest d) :
      q ∈ list d ∧ q ≠ p := by
    by_cases hd : d = c
    · subst hd
      rw [Function.update_self] at hq
      rw [hlist]
      exact ⟨List.mem_cons_of_mem _ hq, fun h => honce.1 (h ▸ hq)⟩
    · rw [Function.update_of_ne hd] at hq
      refine ⟨hq, ?_⟩
      rintro rfl
      have hsame := (hinv.list_cls d q hq).2.2.symm.trans hcls
      exact hd (Option.some.inj hsame)
  refine { hinv with
    live_cls := ?_, live_once := ?_, linked := ?_, list_cls := ?_, list_once := ?_,
    list_free := ?_ }
  · intro q m hq
    rcases List.mem_cons.mp hq with heq | hq
    · cases heq
      exact ⟨hne, hn, hc ▸ hcls⟩
    · exact hinv.live_cls q m hq
  · rw [List.map_cons, List.nodup_cons]
    refine ⟨?_, hinv.live_once⟩
    intro hin
    obtain ⟨⟨q, m⟩, hq, rfl⟩ := List.mem_map.mp hin
    exact hinv.list_free c q hmem m hq
  · intro d
    by_cases hd : d = c
    · subst hd
      simp only [Function.update_self]
      exact hrest
    · simp only [Function.update_of_ne hd]
      exact hinv.linked d
  · intro d q hq
    obtain ⟨hold, hother⟩ := hsub d q hq
    obtain ⟨hqne, hqfreed, hqcls⟩ := hinv.list_cls d q hold
    exact ⟨hqne, List.mem_filter.mpr ⟨hqfreed, bne_iff_ne.mpr hother⟩, hqcls⟩
  · intro d
    by_cases hd : d = c
    · subst hd
      rw [Function.update_self]
      exact honce.2
    · rw [Function.update_of_ne hd]
      exact hinv.list_once d
  · intro d q hq m hm
    obtain ⟨hold, hother⟩ := hsub d q hq
    rcases List.mem_cons.mp hm with heq | hm
    · cases heq
      exact hother rfl
    · exact hinv.list_free d q hold m hm

/-- A fresh block is cut at the bump offset. -/
theorem HeapInv.fresh {bytes : U64} (hn : bytes.toNat ≤ 2 ^ 19) (hbytes : bytes ≠ 0)
    (hempty : s.heap.freelist (Heap.classFor bytes) = 0) :
    (∃ cls', HeapInv (s.step (.alloc bytes)) cls' list) ∧
      ((s.heap.alloc bytes s.sp).1 ≠ 0 → (s.step (.alloc bytes)).live =
        ((s.heap.alloc bytes s.sp).1, bytes) :: s.live) := by
  generalize hc : Heap.classFor bytes = c at hempty
  have hle : c ≤ 15 := hc ▸ classFor_le bytes
  have hlen := toNat_align_shift hle
  have hmax := blockLen_le hle
  have halloc : s.heap.alloc bytes s.sp = Heap.allocBump (Heap.ALIGN <<< c) s.heap := by
    unfold Heap.alloc
    rw [if_neg hbytes]
    simp only [hc, hempty, ne_eq, not_true_eq_false, if_false]
  have hroom := hinv.room
  have hbump := hinv.bump_le
  have hsum : (s.heap.bump + Heap.ALIGN <<< c).toNat = s.heap.bump.toNat + blockLen c := by
    rw [BitVec.toNat_add, hlen, Nat.mod_eq_of_lt (by omega)]
  by_cases hfull : s.heap.size.ult (s.heap.bump + Heap.ALIGN <<< c) = true
  · have hnone : s.heap.alloc bytes s.sp = (0, s.heap) := by
      rw [halloc, Heap.allocBump, if_pos hfull]
    refine ⟨⟨cls, hinv.refused hnone⟩, ?_⟩
    rw [hnone]
    intro h
    exact absurd rfl h
  · have hcut : s.heap.alloc bytes s.sp =
        (s.heap.base + s.heap.bump, { s.heap with bump := s.heap.bump + Heap.ALIGN <<< c }) := by
      rw [halloc, Heap.allocBump, if_neg hfull]
    rw [BitVec.ult_iff_toNat_lt, hsum] at hfull
    generalize hp : s.heap.base + s.heap.bump = p at hcut
    have hdist : (p - s.heap.base).toNat = s.heap.bump.toNat := by
      rw [← hp, BitVec.add_comm, BitVec.add_sub_cancel]
    have hnew (q : GuestAddr) (d : Nat) (hq : cls q = some d) : q ≠ p := by
      rintro rfl
      have hin := (hinv.inside q d hq).2.2
      have hpos := eight_le_blockLen d
      omega
    have hlisted (d : Nat) (q : GuestAddr) (hq : q ∈ list d) : q ≠ p :=
      hnew q d (hinv.list_cls d q hq).2.2
    have hcls' (q : GuestAddr) (d : Nat) (hq : Function.update cls p (some c) q = some d) :
        (q = p ∧ d = c) ∨ (q ≠ p ∧ cls q = some d) := by
      by_cases hqp : q = p
      · subst hqp
        rw [Function.update_self] at hq
        exact Or.inl ⟨rfl, (Option.some.inj hq).symm⟩
      · rw [Function.update_of_ne hqp] at hq
        exact Or.inr ⟨hqp, hq⟩
    have hlive : (s.step (.alloc bytes)).live =
        if p = 0 then s.live else (p, bytes) :: s.live := by
      simp only [HeapVm.step, hcut]
    refine ⟨⟨Function.update cls p (some c), ?_⟩, ?_⟩
    · have hstep : s.step (.alloc bytes) =
          { s with
            heap := { s.heap with bump := s.heap.bump + Heap.ALIGN <<< c }
            live := if p = 0 then s.live else (p, bytes) :: s.live
            freed := s.freed.filter (· != p) } := by
        simp only [HeapVm.step, hcut]
      have hmem (q : GuestAddr) (m : U64)
          (hq : (q, m) ∈ if p = 0 then s.live else (p, bytes) :: s.live) :
          (q = p ∧ m = bytes ∧ p ≠ 0) ∨ (q, m) ∈ s.live := by
        split at hq
        · exact Or.inr hq
        · rename_i hne
          rcases List.mem_cons.mp hq with heq | hq
          · cases heq
            exact Or.inl ⟨rfl, rfl, hne⟩
          · exact Or.inr hq
      rw [hstep]
      have hblock : blockLen c % 16 = 0 := Nat.mul_mod_right 16 _
      have hbumpal := hinv.bump_aligned
      constructor
      · exact hinv.base_aligned
      · exact hinv.room
      · simp only [hsum]
        omega
      · simp only [hsum]
        omega
      · intro q d hq
        simp only [hsum]
        rcases hcls' q d hq with ⟨rfl, rfl⟩ | ⟨_, hold⟩
        · exact ⟨hle, by omega, by omega⟩
        · obtain ⟨hd, hal, hin⟩ := hinv.inside q d hold
          exact ⟨hd, hal, by omega⟩
      · intro q r d e hq hr hne
        rcases hcls' q d hq with ⟨rfl, rfl⟩ | ⟨_, hqold⟩
        · rcases hcls' r e hr with ⟨rfl, rfl⟩ | ⟨_, hrold⟩
          · exact absurd rfl hne
          · have hin := (hinv.inside r e hrold).2.2
            exact Or.inr (by simp only; omega)
        · rcases hcls' r e hr with ⟨rfl, rfl⟩ | ⟨_, hrold⟩
          · have hin := (hinv.inside q d hqold).2.2
            exact Or.inl (by simp only; omega)
          · exact hinv.apart q r d e hqold hrold hne
      · intro q m hq
        rcases hmem q m hq with ⟨rfl, rfl, hne⟩ | hq
        · rw [Function.update_self, hc]
          exact ⟨hne, hn, rfl⟩
        · obtain ⟨hqne, hm, hqcls⟩ := hinv.live_cls q m hq
          rw [Function.update_of_ne (hnew q _ hqcls)]
          exact ⟨hqne, hm, hqcls⟩
      · simp only
        split
        · exact hinv.live_once
        · rw [List.map_cons, List.nodup_cons]
          refine ⟨?_, hinv.live_once⟩
          intro hin
          obtain ⟨⟨q, m⟩, hq, heq⟩ := List.mem_map.mp hin
          exact hnew q _ (hinv.live_cls q m hq).2.2 heq
      · exact hinv.linked
      · intro d q hq
        obtain ⟨hqne, hqfreed, hqcls⟩ := hinv.list_cls d q hq
        have hother := hlisted d q hq
        rw [Function.update_of_ne hother]
        exact ⟨hqne, List.mem_filter.mpr ⟨hqfreed, bne_iff_ne.mpr hother⟩, hqcls⟩
      · exact hinv.list_once
      · intro d q hq m hm
        rcases hmem q m hm with ⟨heq, _, _⟩ | hm
        · exact hlisted d q hq heq
        · exact hinv.list_free d q hq m hm
    · intro hne
      rw [hcut] at hne ⊢
      rw [hlive, if_neg hne]

theorem HeapInv.alloc {bytes : U64} (hn : bytes.toNat ≤ 2 ^ 19) :
    (∃ cls' list', HeapInv (s.step (.alloc bytes)) cls' list') ∧
      ((s.heap.alloc bytes s.sp).1 ≠ 0 → (s.step (.alloc bytes)).live =
        ((s.heap.alloc bytes s.sp).1, bytes) :: s.live) := by
  by_cases hbytes : bytes = 0
  · have hnone : s.heap.alloc bytes s.sp = (0, s.heap) := by
      rw [Heap.alloc, if_pos hbytes]
    refine ⟨⟨cls, list, hinv.refused hnone⟩, ?_⟩
    rw [hnone]
    intro h
    exact absurd rfl h
  · have hlinked := hinv.linked (Heap.classFor bytes)
    cases hlist : list (Heap.classFor bytes) with
    | nil =>
        rw [hlist] at hlinked
        obtain ⟨⟨cls', hinv'⟩, hlive⟩ := hinv.fresh hn hbytes hlinked
        exact ⟨⟨cls', list, hinv'⟩, hlive⟩
    | cons p rest =>
        obtain ⟨hinv', hlive⟩ := hinv.recycled hn hbytes hlist
        refine ⟨⟨cls, _, hinv'⟩, fun hne => ?_⟩
        have hcons : (s.step (.alloc bytes)).live =
            if (s.heap.alloc bytes s.sp).1 = 0 then s.live
            else ((s.heap.alloc bytes s.sp).1, bytes) :: s.live := rfl
        rw [hcons, if_neg hne]

/-- A free links its block in front of the list of its class. -/
theorem HeapInv.free {p : GuestAddr} {n : U64} (hlive : (p, n) ∈ s.live)
    (hlink : s.sp.writable p 8 = true) : ∃ list', HeapInv (s.step (.free p n)) cls list' := by
  obtain ⟨hne, hn, hcls⟩ := hinv.live_cls p n hlive
  have honce : ((s.live.erase (p, n)).map Prod.fst).Nodup :=
    hinv.live_once.sublist ((List.erase_sublist).map Prod.fst)
  have hgone (m : U64) : (p, m) ∉ s.live.erase (p, n) := by
    rw [(List.Nodup.of_map _ hinv.live_once).mem_erase_iff]
    rintro ⟨hother, hm⟩
    exact hother (List.inj_on_of_nodup_map hinv.live_once hm hlive rfl)
  by_cases hskip : (n = 0 ∨ (p.ult s.heap.base || (s.heap.base + s.heap.size).ule p) = true)
  · have hsame : s.heap.free p n s.sp = (s.heap, s.sp) := by
      unfold Heap.free
      rcases hskip with hzero | hout
      · rw [if_pos (Or.inr hzero)]
      · rw [if_pos hout]
        split <;> rfl
    have hstep : s.step (.free p n) =
        { s with live := s.live.erase (p, n), freed := p :: s.freed } := by
      simp only [HeapVm.step, hsame]
    rw [hstep]
    refine ⟨list, { hinv with live_cls := ?_, live_once := honce, list_cls := ?_, list_free := ?_ }⟩
    · intro q m hq
      exact hinv.live_cls q m (List.mem_of_mem_erase hq)
    · intro c q hq
      obtain ⟨hqne, hqfreed, hqcls⟩ := hinv.list_cls c q hq
      exact ⟨hqne, List.mem_cons_of_mem _ hqfreed, hqcls⟩
    · intro c q hq m hm
      exact hinv.list_free c q hq m (List.mem_of_mem_erase hm)
  · obtain ⟨hzero, hin⟩ := not_or.mp hskip
    generalize hc : Heap.classFor n = c at hcls
    generalize hsp : (ShadowPages.write p 8 (storeLE (s.heap.freelist c)) s.sp).2 = sp
    have hfree : s.heap.free p n s.sp =
        ({ s.heap with freelist := Function.update s.heap.freelist c p }, sp) := by
      unfold Heap.free
      rw [if_neg (not_or.mpr ⟨hne, hzero⟩), if_neg hin, hc, hsp]
    have hstep : s.step (.free p n) =
        { heap := { s.heap with freelist := Function.update s.heap.freelist c p }
          sp
          live := s.live.erase (p, n)
          freed := p :: s.freed } := by
      simp only [HeapVm.step, hfree]
    have hok : (ShadowPages.write p 8 (storeLE (s.heap.freelist c)) s.sp).1 = .ok () := by
      unfold ShadowPages.write
      rw [if_neg (by omega), if_neg (by rw [hlink]; exact Bool.noConfusion)]
    have hnew : HoldsLink sp p (s.heap.freelist c) := by
      intro i hi
      rw [← hsp]
      exact ShadowPages.made_of_write (by decide) hok hi
    have hother (d : Nat) (q : GuestAddr) (hq : q ∈ list d) : q ≠ p := by
      rintro rfl
      exact hinv.list_free d q hq n hlive
    have hkept (d : Nat) : Linked sp (s.heap.freelist d) (list d) := by
      apply Linked.mono _ (hinv.linked d)
      intro q hq next hold
      rw [← hsp]
      apply hold.write (by decide)
      intro a ha
      exact hinv.disjoint (hinv.list_cls d q hq).2.2 hcls (hother d q hq) (eight_le_blockLen d)
        (eight_le_blockLen c) ha
    have hmem (d : Nat) (q : GuestAddr) (hq : q ∈ Function.update list c (p :: list c) d) :
        (q = p ∧ d = c) ∨ q ∈ list d := by
      by_cases hd : d = c
      · subst hd
        rw [Function.update_self] at hq
        rcases List.mem_cons.mp hq with rfl | hq
        · exact Or.inl ⟨rfl, rfl⟩
        · exact Or.inr hq
      · rw [Function.update_of_ne hd] at hq
        exact Or.inr hq
    rw [hstep]
    refine ⟨Function.update list c (p :: list c), { hinv with
      live_cls := ?_, live_once := honce, linked := ?_, list_cls := ?_, list_once := ?_,
      list_free := ?_ }⟩
    · intro q m hq
      exact hinv.live_cls q m (List.mem_of_mem_erase hq)
    · intro d
      by_cases hd : d = c
      · subst hd
        simp only [Function.update_self]
        exact ⟨rfl, _, hnew, hkept d⟩
      · simp only [Function.update_of_ne hd]
        exact hkept d
    · intro d q hq
      rcases hmem d q hq with ⟨rfl, rfl⟩ | hq
      · exact ⟨hne, List.mem_cons_self, hcls⟩
      · obtain ⟨hqne, hqfreed, hqcls⟩ := hinv.list_cls d q hq
        exact ⟨hqne, List.mem_cons_of_mem _ hqfreed, hqcls⟩
    · intro d
      by_cases hd : d = c
      · subst hd
        rw [Function.update_self, List.nodup_cons]
        exact ⟨fun hp => hother d p hp rfl, hinv.list_once d⟩
      · rw [Function.update_of_ne hd]
        exact hinv.list_once d
    · intro d q hq m hm
      rcases hmem d q hq with ⟨rfl, _⟩ | hq
      · exact hgone m hm
      · exact hinv.list_free d q hq m (List.mem_of_mem_erase hm)

theorem HeapInv.pages {call : ShadowPages.Call} (hok : s.Disciplined (.pages call)) :
    HeapInv (s.step (.pages call)) cls list := by
  refine { hinv with linked := ?_ }
  intro c
  apply Linked.mono _ (hinv.linked c)
  intro p hp next hlink
  exact HoldsLink.call (hinv.list_cls c p hp).2.1 hok hlink

end Step

/-! ### Every run -/

theorem heapInv_new {base : GuestAddr} {size : U64} (hbase : base.toNat % 4096 = 0)
    (hsize : size.toNat + 2 ^ 19 < 2 ^ 64) (sp : ShadowPages) :
    HeapInv (HeapVm.new base size sp) (fun _ => none) fun _ => [] where
  base_aligned := by
    show base.toNat % 16 = 0
    omega
  room := hsize
  bump_le := Nat.zero_le _
  bump_aligned := rfl
  inside := by
    intro p c h
    cases h
  apart := by
    intro p q c d h
    cases h
  live_cls := by
    intro p n h
    cases h
  live_once := List.nodup_nil
  linked := fun _ => rfl
  list_cls := by
    intro c p h
    cases h
  list_once := fun _ => List.nodup_nil
  list_free := by
    intro c p h
    cases h

theorem heapInv_of_reach {base : GuestAddr} {size : U64} (hbase : base.toNat % 4096 = 0)
    (hsize : size.toNat + 2 ^ 19 < 2 ^ 64) {sp : ShadowPages} {s : HeapVm}
    (h : HeapVm.Reach (fun s op => s.Disciplined op ∧ s.Served op) (HeapVm.new base size sp) s) :
    ∃ cls list, HeapInv s cls list := by
  induction h with
  | start => exact ⟨_, _, heapInv_new hbase hsize sp⟩
  | step _ op hok ih =>
      obtain ⟨cls, list, hinv⟩ := ih
      cases op with
      | alloc bytes => exact (hinv.alloc hok.2).1
      | free p n =>
          obtain ⟨list', hinv'⟩ := hinv.free hok.1 hok.2
          exact ⟨cls, list', hinv'⟩
      | pages call => exact ⟨cls, list, hinv.pages hok.1⟩

theorem alloc_setup (bytes : U64) (sp : ShadowPages) (h : Heap) :
    (h.alloc bytes sp).2.base = h.base ∧ (h.alloc bytes sp).2.size = h.size := by
  have hbump (blockSz : U64) (h : Heap) :
      (h.allocBump blockSz).2.base = h.base ∧ (h.allocBump blockSz).2.size = h.size := by
    unfold Heap.allocBump
    split
    · exact ⟨rfl, rfl⟩
    · exact ⟨rfl, rfl⟩
  unfold Heap.alloc
  split
  · exact ⟨rfl, rfl⟩
  · simp only
    split
    · split
      · exact hbump _ _
      · exact ⟨rfl, rfl⟩
    · exact hbump _ _

/-- In a run whose requests fit the largest class and whose frees can store their link, every
block a further request of that kind returns is aligned, inside the heap and apart from the live
blocks. -/
theorem alloc_usable (base : GuestAddr) (size : U64) (sp : ShadowPages)
    (hbase : base.toNat % 4096 = 0) (hsize : size.toNat + 2 ^ 19 < 2 ^ 64) (s : HeapVm)
    (h : HeapVm.Reach (fun s op => s.Disciplined op ∧ s.Served op) (HeapVm.new base size sp) s)
    (bytes : U64) (hbytes : bytes.toNat ≤ 2 ^ 19) (hne : (s.heap.alloc bytes s.sp).1 ≠ 0) :
    s.Usable (s.heap.alloc bytes s.sp).1 bytes := by
  obtain ⟨cls, list, hinv⟩ := heapInv_of_reach hbase hsize h
  obtain ⟨⟨cls', list', hinv'⟩, hlive⟩ := hinv.alloc hbytes
  obtain ⟨hsameBase, hsameSize⟩ := alloc_setup bytes s.sp s.heap
  exact hinv'.usable (hlive hne) hsameBase.symm hsameSize.symm

/-- A block of the second class, freed. -/
def freedOnce : HeapVm :=
  ((HeapVm.new 0x10000 0x1000 {}).step (.alloc 24)).step (.free 0x10000 24)

theorem reach_freedOnce :
    HeapVm.Reach (fun s op => s.Disciplined op ∧ s.Served op) (HeapVm.new 0x10000 0x1000 {})
      freedOnce := by
  apply HeapVm.Reach.step
  · apply HeapVm.Reach.step .start
    have hfits : (24 : U64).toNat ≤ 2 ^ 19 := by decide
    exact ⟨trivial, hfits⟩
  · have hlive : ((0x10000 : GuestAddr), (24 : U64)) ∈
        ((HeapVm.new 0x10000 0x1000 {}).step (.alloc 24)).live := by decide +kernel
    have hlink : ((HeapVm.new 0x10000 0x1000 {}).step (.alloc 24)).sp.writable 0x10000 8 =
        true := by decide +kernel
    exact ⟨hlive, hlink⟩

theorem alloc_usable_freedOnce : freedOnce.Usable 0x10000 20 := by
  have hagain : (freedOnce.heap.alloc 20 freedOnce.sp).1 = 0x10000 := by decide +kernel
  have h := alloc_usable 0x10000 0x1000 {} (by decide) (by decide) freedOnce reach_freedOnce 20
    (by decide) (by rw [hagain]; decide)
  rwa [hagain] at h

/-- A request of 1 MiB is served from the largest class, which is half as long: the heap of
512 KiB hands it out. -/
theorem class_cap_overruns : ¬ ∀ (base : GuestAddr) (size : U64) (sp : ShadowPages),
    base.toNat % 4096 = 0 → size.toNat % 4096 = 0 → ∀ s : HeapVm,
      HeapVm.Reach HeapVm.Disciplined (HeapVm.new base size sp) s →
        ∀ bytes, (s.heap.alloc bytes s.sp).1 ≠ 0 →
          s.Usable (s.heap.alloc bytes s.sp).1 bytes := by
  intro h
  have hfirst : ((HeapVm.new 0x10000 0x80000 {}).heap.alloc 0x100000
      (HeapVm.new 0x10000 0x80000 {}).sp).1 = 0x10000 := by decide +kernel
  have husable := h 0x10000 0x80000 {} (by decide) (by decide) _ .start 0x100000
    (by rw [hfirst]; decide)
  rw [hfirst] at husable
  exact absurd (husable.inside 0x90000 (by decide)) (by decide)

end PicoCpu
