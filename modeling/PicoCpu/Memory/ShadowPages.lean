import PicoCpu.Memory.Provider

/-!
`ShadowPages`: the writable provider at the bottom of the chain. Reads consult the
materialised pages, then the private regions, then the backing; a write materialises
every page it touches.
-/

namespace PicoCpu

open Granule

/-- The read side of a backing provider. It may leave anything in the buffer when it
fails, as `FakeMemoryProvider` does for a range that runs into a gap. -/
abbrev Backing := GuestAddr → Nat → Buf → Except Status Unit × Buf

structure PrivateRange where
  base : GuestAddr
  size : U64
  deriving DecidableEq, Repr

structure ProtRange where
  base : GuestAddr
  size : U64
  prot : U8
  deriving DecidableEq, Repr

structure ShadowPages where
  backing : Option Backing := none
  pages : GuestAddr → Option Buf := fun _ => none
  privateRanges : List PrivateRange := []
  codeRanges : List PrivateRange := []
  protRanges : List ProtRange := []

namespace ShadowPages

abbrev pageShift : Nat := 12

def PROT_R : U8 := 1
def PROT_W : U8 := 2
def PROT_X : U8 := 4

def addPrivateRegion (sp : ShadowPages) (base : GuestAddr) (size : U64) : ShadowPages :=
  { sp with privateRanges := sp.privateRanges ++ [⟨base, size⟩] }

def addCodeRange (sp : ShadowPages) (base : GuestAddr) (size : U64) : ShadowPages :=
  { sp with codeRanges := sp.codeRanges ++ [⟨base, size⟩] }

def protect (sp : ShadowPages) (base : GuestAddr) (size : U64) (prot : U8) : ShadowPages :=
  { sp with protRanges := sp.protRanges ++ [⟨base, size, prot⟩] }

/-- Both ends are computed modulo `2 ^ 64`. -/
def rangeIsPrivate (sp : ShadowPages) (addr : GuestAddr) (size : U64) : Bool :=
  sp.privateRanges.any fun r => r.base.ule addr && (addr + size).ule (r.base + r.size)

/-- The most recent range that holds the address, else the default of its region. -/
def permOf (sp : ShadowPages) (addr : GuestAddr) : U8 :=
  match sp.protRanges.reverse.find? fun r => r.base.ule addr && addr.ult (r.base + r.size) with
  | some r => r.prot
  | none => if sp.rangeIsPrivate addr 1 then PROT_R ||| PROT_W else PROT_R

/-- The permission loop `for (cur = addr; cur < end; ++cur)`: no iteration at all when the
end of the range wraps. -/
def writable (sp : ShadowPages) (addr : GuestAddr) (size : Nat) : Bool :=
  let stop := addr + BitVec.ofNat 64 size
  sp.protRanges.isEmpty ||
    (List.range (if addr.ult stop then (stop - addr).toNat else 0)).all fun i =>
      sp.permOf (addr + BitVec.ofNat 64 i) &&& PROT_W != 0

/-- The page a first touch creates: the backing's page, zero where it leaves the buffer
alone. -/
def freshPage (sp : ShadowPages) (pageAddr : GuestAddr) : Buf :=
  if sp.rangeIsPrivate pageAddr 4096 then fun _ => 0
  else
    match sp.backing with
    | none => fun _ => 0
    | some backing => (backing pageAddr (2 ^ pageShift) fun _ => 0).2

def getOrMakePage (sp : ShadowPages) (pageAddr : GuestAddr) : Buf :=
  match sp.pages pageAddr with
  | some page => page
  | none => sp.freshPage pageAddr

/-- One iteration of the read loop. -/
def serve (sp : ShadowPages) (cur : GuestAddr) (n done : Nat) (out : Buf) :
    Except Status Unit × Buf :=
  let pageAddr := base pageShift cur
  match sp.pages pageAddr with
  | some page => (.ok (), overwrite out done n fun i => page (off pageShift cur + i))
  | none =>
    if sp.rangeIsPrivate pageAddr 4096 then (.ok (), overwrite out done n fun _ => 0)
    else
      match sp.backing with
      | none => (.error .unmappedRead, out)
      | some backing =>
        match backing cur n fun i => out (done + i) with
        | (r, d) => (r, fun i => if i < done then out i else d (i - done))

def read (sp : ShadowPages) (addr : GuestAddr) (size : Nat) (out : Buf) :
    Except Status Unit × Buf :=
  walkRange pageShift sp.serve addr size out

/-- One iteration of the write loop. -/
def patch (pageAddr : GuestAddr) (pos n : Nat) (src : Buf) (sp : ShadowPages) : ShadowPages :=
  { sp with
    pages := Function.update sp.pages pageAddr
      (some (overwrite (sp.getOrMakePage pageAddr) pos n src)) }

def write (addr : GuestAddr) (size : Nat) (data : Buf) (sp : ShadowPages) :
    Except Status Unit × ShadowPages :=
  if size = 0 then (.ok (), sp)
  else if sp.writable addr size = false then (.error .protectionViolation, sp)
  else (.ok (), patchRange pageShift patch addr size data sp)

/-- The listener test of a write: the first code range that meets it triggers the call. -/
def touchesCode (sp : ShadowPages) (addr : GuestAddr) (size : Nat) : Bool :=
  sp.codeRanges.any fun r =>
    addr.ult (r.base + r.size) && r.base.ult (addr + BitVec.ofNat 64 size)

def provider : MemoryProvider ShadowPages where
  read addr size out sp := ((sp.read addr size out).1, (sp.read addr size out).2, sp)
  write := write

/-! ### What a write does to the pages -/

/-- The part of the state no write changes. -/
def SameSetup (sp sp' : ShadowPages) : Prop :=
  sp'.backing = sp.backing ∧ sp'.privateRanges = sp.privateRanges ∧
    sp'.codeRanges = sp.codeRanges ∧ sp'.protRanges = sp.protRanges

theorem SameSetup.refl (sp : ShadowPages) : SameSetup sp sp := ⟨rfl, rfl, rfl, rfl⟩

theorem SameSetup.trans {a b c : ShadowPages} (hab : SameSetup a b) (hbc : SameSetup b c) :
    SameSetup a c := by
  obtain ⟨h₁, h₂, h₃, h₄⟩ := hab
  obtain ⟨k₁, k₂, k₃, k₄⟩ := hbc
  exact ⟨k₁.trans h₁, k₂.trans h₂, k₃.trans h₃, k₄.trans h₄⟩

theorem SameSetup.rangeIsPrivate {sp sp' : ShadowPages} (h : SameSetup sp sp')
    (addr : GuestAddr) (size : U64) : sp'.rangeIsPrivate addr size = sp.rangeIsPrivate addr size := by
  unfold ShadowPages.rangeIsPrivate
  rw [h.2.1]

theorem SameSetup.freshPage {sp sp' : ShadowPages} (h : SameSetup sp sp') (p : GuestAddr) :
    sp'.freshPage p = sp.freshPage p := by
  unfold ShadowPages.freshPage
  rw [h.rangeIsPrivate, h.1]

/-- Some byte of `[addr, addr + size)` lies in the page. -/
def TouchesPage (addr : GuestAddr) (size : Nat) (p : GuestAddr) : Prop :=
  ∃ a, InRange addr size a ∧ base pageShift a = p

theorem getOrMakePage_patch (pageAddr : GuestAddr) (pos n : Nat) (src : Buf) (sp : ShadowPages)
    (p : GuestAddr) : (patch pageAddr pos n src sp).getOrMakePage p =
      if p = pageAddr then overwrite (sp.getOrMakePage pageAddr) pos n src
      else sp.getOrMakePage p := by
  by_cases hp : p = pageAddr
  · subst hp
    rw [if_pos rfl, getOrMakePage]
    simp only [patch, Function.update_self]
  · rw [if_neg hp, getOrMakePage]
    simp only [patch, Function.update_of_ne hp]
    rfl

/-- The contents of a page, made or not, follow the law of a patched cache. -/
theorem patch_law : PatchLaw (fun sp p => some (getOrMakePage sp p)) patch := by
  intro b pos n src sp p
  simp only [getOrMakePage_patch]
  split <;> rfl

theorem sameSetup_patchRange (addr : GuestAddr) (size : Nat) (data : Buf) (sp : ShadowPages) :
    SameSetup sp (patchRange pageShift patch addr size data sp) :=
  patchRange_induct pageShift patch addr size data (fun _ sp' => SameSetup sp sp')
    (fun _ _ _ h _ _ _ => h.trans ⟨rfl, rfl, rfl, rfl⟩) sp (SameSetup.refl sp)

/-- A written page holds the written bytes over what it was, or would have been made as. -/
theorem getOrMakePage_patchRange {addr : GuestAddr} {size : Nat} (data : Buf) (sp : ShadowPages)
    (hsize : size ≤ 2 ^ 64) {p : GuestAddr} (hp : base pageShift p = p) {i : Nat}
    (hi : i < 2 ^ pageShift) :
    (patchRange pageShift patch addr size data sp).getOrMakePage p i =
      if InRange addr size (p + BitVec.ofNat 64 i) then
        data (p + BitVec.ofNat 64 i - addr).toNat else sp.getOrMakePage p i := by
  have hview : (fun sp p => some (getOrMakePage sp p))
      (patchRange pageShift patch addr size data sp) p =
        some ((patchRange pageShift patch addr size data sp).getOrMakePage p) := rfl
  obtain ⟨d, hd, hpoint⟩ := patchRange_point pageShift (by decide) patch_law hsize hview
  have hcontents := Option.some.inj hd
  rw [hpoint hp i hi, hcontents]

/-- A write makes the pages it touches and no other. -/
theorem pages_patchRange {addr : GuestAddr} {size : Nat} (data : Buf) (sp : ShadowPages)
    (hsize : size ≤ 2 ^ 64) (p : GuestAddr) :
    ((patchRange pageShift patch addr size data sp).pages p = none ↔
      sp.pages p = none ∧ ¬ TouchesPage addr size p) ∧
    (¬ TouchesPage addr size p →
      (patchRange pageShift patch addr size data sp).pages p = sp.pages p) := by
  apply patchRange_induct pageShift patch addr size data
    (fun done sp' => (sp'.pages p = none ↔ sp.pages p = none ∧ ¬ TouchesPage addr done p) ∧
      (¬ TouchesPage addr done p → sp'.pages p = sp.pages p))
  · rintro done n sp' ⟨hnone, hsame⟩ hpos hle hfit
    generalize hcur : addr + BitVec.ofNat 64 done = cur at hfit
    have hgrow (h : TouchesPage addr done p) : TouchesPage addr (done + n) p := by
      obtain ⟨a, hin, hbase⟩ := h
      have hlt : (a - addr).toNat < done := hin
      have hlt' : (a - addr).toNat < done + n := by omega
      exact ⟨a, hlt', hbase⟩
    by_cases hp : p = base pageShift cur
    · have htouch : TouchesPage addr (done + n) p := by
        refine ⟨cur, ?_, hp.symm⟩
        rw [← hcur]
        exact inRange_add addr (done + n) done (by omega) (by omega)
      have hmade : (patch (base pageShift cur) (off pageShift cur) n
          (fun i => data (done + i)) sp').pages p ≠ none := by
        rw [hp]
        simp only [patch, Function.update_self]
        exact Option.some_ne_none _
      exact ⟨⟨fun h => absurd h hmade, fun h => absurd htouch h.2⟩, fun h => absurd htouch h⟩
    · have hback (h : TouchesPage addr (done + n) p) : TouchesPage addr done p := by
        obtain ⟨a, hin, hbase⟩ := h
        have hlt : (a - addr).toNat < done + n := hin
        by_cases hold : (a - addr).toNat < done
        · exact ⟨a, hold, hbase⟩
        · have ha : a = cur + BitVec.ofNat 64 ((a - addr).toNat - done) := by
            rw [← hcur, add_add_ofNat, Nat.add_sub_cancel' (by omega), add_distance]
          rw [ha, base_add pageShift (by decide) cur _ (by omega)] at hbase
          exact absurd hbase.symm hp
      have hpages : (patch (base pageShift cur) (off pageShift cur) n
          (fun i => data (done + i)) sp').pages p = sp'.pages p := by
        simp only [patch, Function.update_of_ne hp]
      rw [hpages]
      refine ⟨⟨fun h => ?_, fun h => ?_⟩, fun h => hsame fun hd => h (hgrow hd)⟩
      · obtain ⟨hfree, hnot⟩ := hnone.mp h
        exact ⟨hfree, fun hd => hnot (hback hd)⟩
      · exact hnone.mpr ⟨h.1, fun hd => h.2 (hgrow hd)⟩
  · have hnot : ¬ TouchesPage addr 0 p := by
      rintro ⟨a, hin, _⟩
      exact absurd hin (Nat.not_lt_zero _)
    exact ⟨⟨fun h => ⟨h, hnot⟩, fun h => h.1⟩, fun _ => rfl⟩

/-- What a write that returns Ok makes of the pages. -/
structure WrittenPages (addr : GuestAddr) (size : Nat) (data : Buf) (sp sp' : ShadowPages) :
    Prop where
  setup : SameSetup sp sp'
  contents : ∀ p, base pageShift p = p → ∀ i < 2 ^ pageShift, sp'.getOrMakePage p i =
    if InRange addr size (p + BitVec.ofNat 64 i) then data (p + BitVec.ofNat 64 i - addr).toNat
    else sp.getOrMakePage p i
  made : ∀ p, sp'.pages p = none ↔ sp.pages p = none ∧ ¬ TouchesPage addr size p

theorem write_error {addr : GuestAddr} {size : Nat} {data : Buf} {sp : ShadowPages} {e : Status}
    (h : (write addr size data sp).1 = .error e) : (write addr size data sp).2 = sp := by
  unfold write at h ⊢
  split
  · rfl
  · rename_i hsize
    rw [if_neg hsize] at h
    split
    · rfl
    · rename_i hw
      rw [if_neg hw] at h
      exact absurd h (by simp)

theorem write_ok (addr : GuestAddr) (size : Nat) (data : Buf) (sp : ShadowPages)
    (hsize : size ≤ 2 ^ 64) (h : (write addr size data sp).1 = .ok ()) :
    WrittenPages addr size data sp (write addr size data sp).2 := by
  unfold write at h ⊢
  by_cases hzero : size = 0
  · rw [if_pos hzero]
    have hnone (a : GuestAddr) : ¬ InRange addr size a := by
      rw [hzero]
      exact Nat.not_lt_zero _
    refine ⟨SameSetup.refl sp, ?_, ?_⟩
    · intro p _ i _
      rw [if_neg (hnone _)]
    · intro p
      exact ⟨fun h => ⟨h, fun ⟨a, hin, _⟩ => hnone a hin⟩, fun h => h.1⟩
  · rw [if_neg hzero] at h ⊢
    by_cases hw : sp.writable addr size = false
    · rw [if_pos hw] at h
      exact absurd h (by simp)
    · rw [if_neg hw]
      exact ⟨sameSetup_patchRange addr size data sp,
        fun p hp i hi => getOrMakePage_patchRange data sp hsize hp hi,
        fun p => (pages_patchRange data sp hsize p).1⟩

/-! ### Reading one byte -/

theorem read_one (sp : ShadowPages) (a : GuestAddr) (out : Buf) :
    sp.read a 1 out = sp.serve a 1 0 out := by
  have hoff := off_lt pageShift a
  have hn : (if 2 ^ pageShift - off pageShift a < 1 then 2 ^ pageShift - off pageShift a else 1) =
      1 := by
    split <;> omega
  unfold read walkRange walk
  rw [if_neg (by omega)]
  simp only [hn]
  cases sp.serve a 1 0 out with
  | mk r out' => cases r <;> rfl

theorem serve_of_page {sp : ShadowPages} {a : GuestAddr} (n done : Nat) (out : Buf)
    (h : sp.pages (base pageShift a) ≠ none) :
    sp.serve a n done out = (.ok (), overwrite out done n fun i =>
      sp.getOrMakePage (base pageShift a) (off pageShift a + i)) := by
  cases hpage : sp.pages (base pageShift a) with
  | none => exact absurd hpage h
  | some page => simp only [serve, getOrMakePage, hpage]

theorem serve_congr {sp sp' : ShadowPages} (hsetup : SameSetup sp sp') {a : GuestAddr}
    (h : sp.pages (base pageShift a) = none) (h' : sp'.pages (base pageShift a) = none)
    (n done : Nat) (out : Buf) : sp'.serve a n done out = sp.serve a n done out := by
  unfold serve
  simp only [h, h', hsetup.rangeIsPrivate, hsetup.1]

end ShadowPages

end PicoCpu
