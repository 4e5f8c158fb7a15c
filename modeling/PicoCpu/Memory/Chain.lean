import PicoCpu.Memory.DirectMapped
import PicoCpu.Memory.L3Cache
import PicoCpu.Memory.ShadowPages

/-!
The cache chain L1 over L2 over L3 over `ShadowPages`, as `tester.cpp` wires it. Over a
backing that maps whole pages and never changes, the shadow pages represent a byte memory;
every level above represents the same memory, whatever is read, written, invalidated,
flushed or prefetched.
-/

namespace PicoCpu

open Granule

/-- An immutable backing of whole 4 KiB pages with contents `image`: a read inside one page
returns Ok and the image bytes when the page is mapped, and fails when it is not. -/
structure PageGranular (backing : Backing) (image : ByteMap) : Prop where
  whole : ∀ a, (image a).isSome = (image (base ShadowPages.pageShift a)).isSome
  frame : ∀ cur n out i, n ≤ i → (backing cur n out).2 i = out i
  mapped : ∀ cur n out, 0 < n → off ShadowPages.pageShift cur + n ≤ 2 ^ ShadowPages.pageShift →
    (image cur).isSome = true → (backing cur n out).1 = .ok () ∧
      ∀ i < n, image (cur + BitVec.ofNat 64 i) = some ((backing cur n out).2 i)
  unmapped : ∀ cur n out, 0 < n → off ShadowPages.pageShift cur + n ≤ 2 ^ ShadowPages.pageShift →
    image cur = none → (backing cur n out).1 ≠ .ok ()

namespace ShadowPages

/-- The setup the chain runs over: no backing, or a page-granular one. -/
def Backed (image : ByteMap) (sp : ShadowPages) : Prop :=
  ∀ backing, sp.backing = some backing → PageGranular backing image

/-- The readable bytes and their values. -/
def byteMap (image : ByteMap) (sp : ShadowPages) : ByteMap := fun a =>
  match sp.pages (base pageShift a) with
  | some page => some (page (off pageShift a))
  | none =>
    if sp.rangeIsPrivate (base pageShift a) 4096 then some 0
    else if sp.backing.isSome then image a else none

variable {image : ByteMap}

theorem byteMap_of_page {sp : ShadowPages} {a : GuestAddr}
    (h : sp.pages (base pageShift a) ≠ none) :
    sp.byteMap image a = some (sp.getOrMakePage (base pageShift a) (off pageShift a)) := by
  unfold byteMap getOrMakePage
  cases hpage : sp.pages (base pageShift a) with
  | none => exact absurd hpage h
  | some page => rfl

/-- A readable byte keeps its value when its page is made. -/
theorem byteMap_fresh {sp : ShadowPages} (hbacked : Backed image sp) {a : GuestAddr} {v : U8}
    (hpage : sp.pages (base pageShift a) = none) (h : sp.byteMap image a = some v) :
    sp.freshPage (base pageShift a) (off pageShift a) = v := by
  unfold byteMap at h
  rw [hpage] at h
  unfold freshPage
  by_cases hprivate : sp.rangeIsPrivate (base pageShift a) 4096 = true
  · simp only [if_pos hprivate, Option.some.injEq] at h ⊢
    exact h
  · simp only [if_neg hprivate] at h ⊢
    cases hb : sp.backing with
    | none => rw [hb] at h; exact absurd h (by simp)
    | some backing =>
        rw [hb] at h
        simp only [Option.isSome_some, if_true] at h
        have hgran := hbacked backing hb
        have hmapped : (image (base pageShift a)).isSome = true := by
          rw [← hgran.whole, h]
          rfl
        have hoff0 : off pageShift (base pageShift a) = 0 :=
          off_base pageShift _ (base_base pageShift a)
        have hbyte := (hgran.mapped (base pageShift a) (2 ^ pageShift) (fun _ => 0) (by decide)
          (by rw [hoff0]; omega) hmapped).2 (off pageShift a) (off_lt pageShift a)
        rw [base_add_off, h] at hbyte
        exact (Option.some.inj hbyte).symm

theorem backed_of_setup {sp sp' : ShadowPages} (h : SameSetup sp sp') (hbacked : Backed image sp) :
    Backed image sp' := by
  intro backing hb
  rw [h.1] at hb
  exact hbacked backing hb

/-- A write that returns Ok is a write of the byte memory. -/
theorem written_of_pages {sp sp' : ShadowPages} (hbacked : Backed image sp) {addr : GuestAddr}
    {size : Nat} {data : Buf} (h : WrittenPages addr size data sp sp') :
    Written (sp.byteMap image) (sp'.byteMap image) addr size data := by
  intro a
  have hbyte := h.contents (base pageShift a) (base_base pageShift a) (off pageShift a)
    (off_lt pageShift a)
  rw [base_add_off] at hbyte
  constructor
  · intro hin
    have hmade : sp'.pages (base pageShift a) ≠ none := fun hnone =>
      ((h.made _).mp hnone).2 ⟨a, hin, rfl⟩
    rw [byteMap_of_page hmade, hbyte, if_pos hin]
  · intro hout v hv
    rw [if_neg hout] at hbyte
    by_cases hmade : sp'.pages (base pageShift a) = none
    · have hpage := ((h.made _).mp hmade).1
      unfold byteMap at hv ⊢
      rw [hpage] at hv
      rw [hmade]
      simp only [h.setup.rangeIsPrivate, h.setup.1]
      exact hv
    · rw [byteMap_of_page hmade, hbyte]
      by_cases hpage : sp.pages (base pageShift a) = none
      · rw [getOrMakePage, hpage]
        exact congrArg some (byteMap_fresh hbacked hpage hv)
      · rw [← byteMap_of_page hpage, hv]

/-- One iteration of the read loop delivers memory bytes, and fails only where a byte is
not readable. -/
theorem serve_leaves {sp : ShadowPages} (hbacked : Backed image sp) (addr : GuestAddr)
    (size : Nat) (out : Buf) (done n : Nat) (out' : Buf) (hpos : 0 < n) (hle : done + n ≤ size)
    (hfit : off pageShift (addr + BitVec.ofNat 64 done) + n ≤ 2 ^ pageShift)
    (hfill : Filled (sp.byteMap image) addr size out done out') :
    Leaves (done + n) (fun m out' => Filled (sp.byteMap image) addr size out m out')
      (fun _ out' => (∀ i, size ≤ i → out' i = out i) ∧
        ∃ i < size, sp.byteMap image (addr + BitVec.ofNat 64 i) = none)
      (sp.serve (addr + BitVec.ofNat 64 done) n done out') := by
  generalize hcur : addr + BitVec.ofNat 64 done = cur at hfit
  have hsame (i : Nat) (hi : i < n) :
      base pageShift (cur + BitVec.ofNat 64 i) = base pageShift cur :=
    base_add pageShift (by decide) cur i (by omega)
  have hfilled (d : Buf) (hd : ∀ i < n, sp.byteMap image (cur + BitVec.ofNat 64 i) = some (d i)) :
      ∀ i < done + n, sp.byteMap image (addr + BitVec.ofNat 64 i) =
        some (if i < done then out' i else d (i - done)) := by
    intro i hi
    by_cases hold : i < done
    · rw [if_pos hold]
      exact hfill.1 i hold
    · have hbyte := hd (i - done) (by omega)
      rw [← hcur, add_add_ofNat, Nat.add_sub_cancel' (by omega)] at hbyte
      rw [if_neg hold, hbyte]
  have hover (d : Buf) (hd : ∀ i < n, sp.byteMap image (cur + BitVec.ofNat 64 i) = some (d i)) :
      Filled (sp.byteMap image) addr size out (done + n) (overwrite out' done n d) := by
    constructor
    · intro i hi
      rw [hfilled d hd i hi]
      by_cases hold : i < done
      · rw [if_pos hold, overwrite_outside _ _ _ _ (by omega)]
      · rw [if_neg hold, overwrite_inside _ _ _ _ (by omega)]
    · intro i hi
      rw [overwrite_outside _ _ _ _ (by omega)]
      exact hfill.2 i hi
  simp only [serve]
  cases hpage : sp.pages (base pageShift cur) with
  | some page =>
      simp only
      refine hover _ fun i hi => ?_
      have hoff : off pageShift (cur + BitVec.ofNat 64 i) = off pageShift cur + i := by
        rw [off, hsame i hi, ← base_add_off_add, BitVec.add_comm, BitVec.add_sub_cancel,
          BitVec.toNat_ofNat, Nat.mod_eq_of_lt]
        have : 2 ^ pageShift < 2 ^ 64 := by decide
        omega
      unfold byteMap
      rw [hsame i hi, hpage, hoff]
  | none =>
      simp only
      by_cases hprivate : sp.rangeIsPrivate (base pageShift cur) 4096 = true
      · rw [if_pos hprivate]
        refine hover _ fun i hi => ?_
        unfold byteMap
        rw [hsame i hi, hpage]
        simp only [if_pos hprivate]
      · rw [if_neg hprivate]
        have hmem (i : Nat) (hi : i < n) (hb : sp.backing.isSome = true) :
            sp.byteMap image (cur + BitVec.ofNat 64 i) = image (cur + BitVec.ofNat 64 i) := by
          unfold byteMap
          rw [hsame i hi, hpage]
          simp only [if_neg hprivate, hb, if_true]
        cases hb : sp.backing with
        | none =>
            refine ⟨hfill.2, done, by omega, ?_⟩
            unfold byteMap
            rw [hcur, hpage]
            simp only [if_neg hprivate, hb, Option.isSome_none, Bool.false_eq_true, if_false]
        | some backing =>
            have hgran := hbacked backing hb
            have hsome : sp.backing.isSome = true := by rw [hb]; rfl
            have hframe := hgran.frame cur n fun i => out' (done + i)
            have houter (i : Nat) (hi : size ≤ i) : (if i < done then out' i else
                (backing cur n fun i => out' (done + i)).2 (i - done)) = out i := by
              rw [if_neg (by omega), hframe (i - done) (by omega), Nat.add_sub_cancel' (by omega)]
              exact hfill.2 i hi
            by_cases himage : (image cur).isSome = true
            · obtain ⟨hok, hbytes⟩ := hgran.mapped cur n (fun i => out' (done + i)) hpos hfit himage
              simp only [hok]
              refine ⟨hfilled _ fun i hi => ?_, houter⟩
              rw [hmem i hi hsome, hbytes i hi]
            · rw [Option.not_isSome_iff_eq_none] at himage
              have hfail := hgran.unmapped cur n (fun i => out' (done + i)) hpos hfit himage
              cases hres : (backing cur n fun i => out' (done + i)).1 with
              | ok u => exact absurd hres hfail
              | error e =>
                  simp only [hres]
                  refine ⟨houter, done, by omega, ?_⟩
                  have := hmem 0 hpos hsome
                  rw [BitVec.add_zero] at this
                  rw [hcur, this, himage]

theorem read_leaves {sp : ShadowPages} (hbacked : Backed image sp) (addr : GuestAddr)
    (size : Nat) (out : Buf) :
    Leaves size (fun m out' => Filled (sp.byteMap image) addr size out m out')
      (fun _ out' => (∀ i, size ≤ i → out' i = out i) ∧
        ∃ i < size, sp.byteMap image (addr + BitVec.ofNat 64 i) = none)
      (sp.read addr size out) := by
  refine walkRange_rule pageShift _ addr size _ _ ?_ out ⟨?_, fun _ _ => rfl⟩
  · intro done n out' hfill hpos hle hfit
    exact serve_leaves hbacked addr size out done n out' hpos hle hfit hfill
  · exact fun i hi => absurd hi (Nat.not_lt_zero i)

theorem represents : Represents provider (Backed image) (byteMap image) where
  read_inv addr size out sp _ hbacked := hbacked
  read_mem addr size out sp _ hbacked := rfl
  read_frame addr size out sp _ hbacked := by
    have h := read_leaves hbacked addr size out
    change ∀ i, size ≤ i → (sp.read addr size out).2 i = out i
    revert h
    cases sp.read addr size out with
    | mk r out' =>
        cases r with
        | error e => exact fun h => h.1
        | ok u => exact fun h => h.2
  read_ok addr size out sp _ hbacked := by
    have h := read_leaves hbacked addr size out
    change (sp.read addr size out).1 = .ok () → ∀ i < size,
      sp.byteMap image _ = some ((sp.read addr size out).2 i)
    revert h
    cases sp.read addr size out with
    | mk r out' =>
        cases r with
        | error e => exact fun _ h => by simp at h
        | ok u => exact fun h _ => h.1
  write_inv addr size data sp hsize hbacked := by
    change Backed image (write addr size data sp).2
    cases hres : (write addr size data sp).1 with
    | error e =>
        rw [write_error hres]
        exact hbacked
    | ok u => exact backed_of_setup (write_ok addr size data sp hsize hres).setup hbacked
  write_error addr size data sp e _ _ h := congrArg (byteMap image) (write_error h)
  write_ok addr size data sp hsize hbacked h :=
    written_of_pages hbacked (write_ok addr size data sp hsize h)

/-- A read of readable bytes returns Ok. -/
theorem read_of_mapped {sp : ShadowPages} (hbacked : Backed image sp) (addr : GuestAddr)
    (size : Nat) (out : Buf)
    (h : ∀ i < size, sp.byteMap image (addr + BitVec.ofNat 64 i) ≠ none) :
    (sp.read addr size out).1 = .ok () := by
  have hleaves := read_leaves hbacked addr size out
  revert hleaves
  cases sp.read addr size out with
  | mk r out' =>
      cases r with
      | ok u => exact fun _ => rfl
      | error e =>
          rintro ⟨_, i, hi, hnone⟩
          exact absurd hnone (h i hi)

end ShadowPages

/-! ### The chain -/

/-- The states of L1, L2, L3 and the shadow pages. -/
abbrev Chain := Slots × Slots × L3Cache × ShadowPages

namespace Chain

abbrev lineShift : Nat := 6
abbrev l1Entries : Nat := 64
abbrev l2Entries : Nat := 256

def l3 : MemoryProvider (L3Cache × ShadowPages) := L3Cache.provider ShadowPages.provider

def l2 : MemoryProvider (Slots × L3Cache × ShadowPages) :=
  DirectMapped.provider ShadowPages.pageShift l2Entries l3

def l1 : MemoryProvider Chain := DirectMapped.provider lineShift l1Entries l2

/-- Empty caches over the given shadow pages. -/
def init (sp : ShadowPages) : Chain := (fun _ => {}, fun _ => {}, {}, sp)

inductive Level where
  | l1
  | l2
  | l3
  deriving DecidableEq, Repr

/-- A call on the chain. Sizes are `usize`. -/
inductive Op where
  | read (addr : GuestAddr) (size : U64) (out : Buf)
  | write (addr : GuestAddr) (size : U64) (data : Buf)
  | invalidate (level : Level) (addr : GuestAddr) (size : U64)
  | flush (level : Level)
  | prefetchRegion (addr : GuestAddr)

def step : Op → Chain → Chain
  | .read addr size out, st => (l1.read addr size.toNat out st).2.2
  | .write addr size data, st => (l1.write addr size.toNat data st).2
  | .invalidate .l1 addr size, (c₁, rest) =>
      (DirectMapped.invalidate lineShift l1Entries addr size.toNat c₁, rest)
  | .invalidate .l2 addr size, (c₁, c₂, rest) =>
      (c₁, DirectMapped.invalidate ShadowPages.pageShift l2Entries addr size.toNat c₂, rest)
  | .invalidate .l3 addr size, (c₁, c₂, c₃, sp) =>
      (c₁, c₂, L3Cache.invalidate addr size.toNat c₃, sp)
  | .flush .l1, (c₁, rest) => (DirectMapped.flush c₁, rest)
  | .flush .l2, (c₁, c₂, rest) => (c₁, DirectMapped.flush c₂, rest)
  | .flush .l3, (c₁, c₂, c₃, sp) => (c₁, c₂, L3Cache.flush c₃, sp)
  | .prefetchRegion addr, (c₁, c₂, st₃) =>
      (c₁, c₂, (L3Cache.prefetchRegion ShadowPages.provider addr st₃).2)

def run (ops : List Op) (st : Chain) : Chain := ops.foldl (fun st op => step op st) st

variable {image : ByteMap}

def Inv3 (image : ByteMap) : L3Cache × ShadowPages → Prop :=
  L3Cache.LevelInv (ShadowPages.Backed image) (ShadowPages.byteMap image)

def Inv2 (image : ByteMap) : Slots × L3Cache × ShadowPages → Prop :=
  DirectMapped.LevelInv ShadowPages.pageShift l2Entries (Inv3 image)
    fun st => st.2.byteMap image

/-- Every level is coherent with the byte memory of the shadow pages. -/
def Inv (image : ByteMap) : Chain → Prop :=
  DirectMapped.LevelInv lineShift l1Entries (Inv2 image) fun st => st.2.2.byteMap image

theorem l3_represents :
    Represents l3 (Inv3 image) fun st => st.2.byteMap image :=
  L3Cache.represents ShadowPages.represents

theorem l2_represents : Represents l2 (Inv2 image) fun st => st.2.2.byteMap image :=
  DirectMapped.represents _ _ l3_represents (by decide)

theorem l1_represents : Represents l1 (Inv image) fun st => st.2.2.2.byteMap image :=
  DirectMapped.represents _ _ l2_represents (by decide)

theorem init_inv {sp : ShadowPages} (hbacked : sp.Backed image) : Inv image (init sp) := by
  obtain ⟨hco₁, hp₁⟩ := DirectMapped.empty_coherent lineShift l1Entries (sp.byteMap image)
  obtain ⟨hco₂, hp₂⟩ :=
    DirectMapped.empty_coherent ShadowPages.pageShift l2Entries (sp.byteMap image)
  obtain ⟨hco₃, hp₃⟩ := L3Cache.empty_coherent (sp.byteMap image)
  exact ⟨⟨⟨hbacked, hco₃, hp₃⟩, hco₂, hp₂⟩, hco₁, hp₁⟩

/-- Every call keeps every level coherent. -/
theorem step_inv (op : Op) (st : Chain) (h : Inv image st) : Inv image (step op st) := by
  cases op with
  | read addr size out => exact l1_represents.read_inv addr _ out st (le_of_lt size.isLt) h
  | write addr size data => exact l1_represents.write_inv addr _ data st (le_of_lt size.isLt) h
  | invalidate level addr size =>
      obtain ⟨c₁, c₂, c₃, sp⟩ := st
      obtain ⟨⟨⟨hbacked, hco₃, hp₃⟩, hco₂, hp₂⟩, hco₁, hp₁⟩ := h
      cases level with
      | l1 =>
          exact ⟨⟨⟨hbacked, hco₃, hp₃⟩, hco₂, hp₂⟩,
            DirectMapped.invalidate_coherent _ _ hco₁ hp₁ addr _⟩
      | l2 =>
          exact ⟨⟨⟨hbacked, hco₃, hp₃⟩, DirectMapped.invalidate_coherent _ _ hco₂ hp₂ addr _⟩,
            hco₁, hp₁⟩
      | l3 =>
          exact ⟨⟨⟨hbacked, L3Cache.invalidate_coherent hco₃ hp₃ addr _⟩, hco₂, hp₂⟩, hco₁, hp₁⟩
  | flush level =>
      obtain ⟨c₁, c₂, c₃, sp⟩ := st
      obtain ⟨⟨⟨hbacked, hco₃, hp₃⟩, hco₂, hp₂⟩, hco₁, hp₁⟩ := h
      cases level with
      | l1 => exact ⟨⟨⟨hbacked, hco₃, hp₃⟩, hco₂, hp₂⟩, DirectMapped.flush_coherent _ _⟩
      | l2 => exact ⟨⟨⟨hbacked, hco₃, hp₃⟩, DirectMapped.flush_coherent _ _⟩, hco₁, hp₁⟩
      | l3 => exact ⟨⟨⟨hbacked, L3Cache.flush_coherent⟩, hco₂, hp₂⟩, hco₁, hp₁⟩
  | prefetchRegion addr =>
      obtain ⟨c₁, c₂, st₃⟩ := st
      obtain ⟨⟨hinv₃, hco₂, hp₂⟩, hco₁, hp₁⟩ := h
      obtain ⟨hinv₃', hmem, _⟩ :=
        L3Cache.prefetchRegion_levelInv ShadowPages.represents addr st₃ hinv₃
      simp only at hco₂ hco₁
      rw [← hmem] at hco₂ hco₁
      exact ⟨⟨hinv₃', hco₂, hp₂⟩, hco₁, hp₁⟩

theorem run_inv (ops : List Op) (st : Chain) (h : Inv image st) : Inv image (run ops st) := by
  induction ops generalizing st with
  | nil => exact h
  | cons op rest ih => exact ih (step op st) (step_inv op st h)

/-- The bytes of a held granule are what a direct shadow read of it yields. -/
def HoldsShadow (sp : ShadowPages) (k : Nat) (b : GuestAddr) (data : Buf) : Prop :=
  ∀ out, (sp.read b (2 ^ k) out).1 = .ok () ∧ ∀ i < 2 ^ k, (sp.read b (2 ^ k) out).2 i = data i

theorem holdsShadow_of_coherent {sp : ShadowPages} (hbacked : sp.Backed image) {k : Nat}
    (hk : k ≤ 64) {view : GuestAddr → Option Buf} (hco : Coherent k view (sp.byteMap image))
    {b : GuestAddr} {d : Buf} (hview : view b = some d) : HoldsShadow sp k b d := by
  obtain ⟨_, hbytes⟩ := hco b d hview
  intro out
  have hpow : 2 ^ k ≤ 2 ^ 64 := Nat.pow_le_pow_right (by omega) hk
  have hok := ShadowPages.read_of_mapped hbacked b (2 ^ k) out fun i hi => by
    rw [hbytes i hi]
    exact Option.some_ne_none _
  refine ⟨hok, fun i hi => ?_⟩
  have hread := ShadowPages.represents.read_ok b (2 ^ k) out sp hpow hbacked hok i hi
  exact Option.some.inj (hread.symm.trans (hbytes i hi))

/-- Coherence of the chain: from empty caches, after any sequence of reads, writes,
invalidations, flushes and prefetches, an L1 read that returns Ok yields exactly what a
direct shadow read yields at that moment, and every valid line, page and region equals the
shadow contents. -/
theorem chain_coherent (image : ByteMap) (sp : ShadowPages) (hbacked : sp.Backed image)
    (ops : List Op) :
    (∀ addr (size : U64) out,
      (l1.read addr size.toNat out (run ops (init sp))).1 = .ok () →
      (l1.read addr size.toNat out (run ops (init sp))).2.1 =
          ((run ops (init sp)).2.2.2.read addr size.toNat out).2 ∧
        ((run ops (init sp)).2.2.2.read addr size.toNat out).1 = .ok ()) ∧
    (∀ j, ((run ops (init sp)).1 j).valid = true →
      HoldsShadow (run ops (init sp)).2.2.2 lineShift ((run ops (init sp)).1 j).tag
        ((run ops (init sp)).1 j).data) ∧
    (∀ j, ((run ops (init sp)).2.1 j).valid = true →
      HoldsShadow (run ops (init sp)).2.2.2 ShadowPages.pageShift ((run ops (init sp)).2.1 j).tag
        ((run ops (init sp)).2.1 j).data) ∧
    (∀ i < L3Cache.entries, ((run ops (init sp)).2.2.1.regions i).valid = true →
      HoldsShadow (run ops (init sp)).2.2.2 L3Cache.regionShift
        ((run ops (init sp)).2.2.1.regions i).base
        ((run ops (init sp)).2.2.1.regions i).data) := by
  have hinv := run_inv ops (init sp) (init_inv hbacked)
  generalize run ops (init sp) = st at hinv
  have hrep : Represents l1 (Inv image) fun st => st.2.2.2.byteMap image := l1_represents
  obtain ⟨c₁, c₂, c₃, sp'⟩ := st
  have hinv₀ := hinv
  obtain ⟨⟨⟨hbacked', hco₃, hp₃⟩, hco₂, hp₂⟩, hco₁, hp₁⟩ := hinv
  refine ⟨?_, ?_, ?_, ?_⟩
  · intro addr size out hok
    have hsize := le_of_lt size.isLt
    have hbytes := hrep.read_ok addr size.toNat out _ hsize hinv₀ hok
    have hframe := hrep.read_frame addr size.toNat out _ hsize hinv₀
    have hdirect := ShadowPages.read_of_mapped hbacked' addr size.toNat out fun i hi => by
      rw [hbytes i hi]
      exact Option.some_ne_none _
    refine ⟨?_, hdirect⟩
    funext i
    by_cases hi : i < size.toNat
    · have hshadow := ShadowPages.represents.read_ok addr size.toNat out sp' hsize hbacked' hdirect
        i hi
      exact Option.some.inj ((hbytes i hi).symm.trans hshadow)
    · have hle : size.toNat ≤ i := by omega
      have hshadow := ShadowPages.represents.read_frame addr size.toNat out sp' hsize hbacked' i hle
      exact (hframe i hle).trans hshadow.symm
  · intro j hvalid
    exact holdsShadow_of_coherent hbacked' (by decide) hco₁
      (DirectMapped.view_of_valid _ _ hp₁ hvalid)
  · intro j hvalid
    exact holdsShadow_of_coherent hbacked' (by decide) hco₂
      (DirectMapped.view_of_valid _ _ hp₂ hvalid)
  · intro i hi hvalid
    exact holdsShadow_of_coherent hbacked' (by decide) hco₃
      (L3Cache.view_of_valid hp₃ hi hvalid)

/-- A backing with one page, at `0x1000`, whose bytes are their offsets' low halves. -/
def onePageImage : ByteMap := fun a => if a >>> 12 = 1 then some (a.setWidth 8) else none

def onePageBacking : Backing := fun cur n out =>
  match onePageImage cur with
  | some _ => (.ok (), fun i => if i < n then (cur + BitVec.ofNat 64 i).setWidth 8 else out i)
  | none => (.error .unmappedRead, out)

theorem onePage_base (a : GuestAddr) : base ShadowPages.pageShift a >>> 12 = a >>> 12 := by
  apply BitVec.eq_of_toNat_eq
  rw [BitVec.toNat_ushiftRight, BitVec.toNat_ushiftRight, toNat_base, Nat.shiftRight_eq_div_pow,
    Nat.shiftRight_eq_div_pow]
  have hpage : 2 ^ ShadowPages.pageShift = 2 ^ 12 := rfl
  rw [hpage]
  omega

theorem onePage_granular : PageGranular onePageBacking onePageImage where
  whole a := by rw [onePageImage, onePageImage, onePage_base]; split <;> rfl
  frame cur n out i hi := by
    unfold onePageBacking
    split
    · exact if_neg (by omega)
    · rfl
  mapped cur n out hpos hfit hmapped := by
    unfold onePageBacking
    cases himage : onePageImage cur with
    | none => rw [himage] at hmapped; exact absurd hmapped (by simp)
    | some v =>
        refine ⟨rfl, fun i hi => ?_⟩
        have hcur : cur >>> 12 = 1 := by
          unfold onePageImage at himage
          split at himage
          · assumption
          · exact absurd himage (by simp)
        have hpage : (cur + BitVec.ofNat 64 i) >>> 12 = 1 := by
          rw [← onePage_base, base_add ShadowPages.pageShift (by decide) cur i (by omega),
            onePage_base, hcur]
        simp only [onePageImage, if_pos hpage, if_pos hi]
  unmapped cur n out hpos hfit himage := by
    simp only [onePageBacking, himage]
    exact fun h => by cases h

def onePageShadow : ShadowPages := { backing := some onePageBacking }

theorem onePageShadow_backed : onePageShadow.Backed onePageImage := by
  intro backing hb
  rw [← Option.some.inj hb]
  exact onePage_granular

/-- A fetch that fails in L3, a write-through, a page dropped below a held line, and a
failing prefetch. -/
def onePageOps : List Op :=
  [.read 0x1ffc 4 fun _ => 0, .write 0x1003 2 fun _ => 0xEE, .invalidate .l2 0x1000 8,
    .prefetchRegion 0x1000]

theorem onePage_read_ok :
    (l1.read 0x1002 (4 : U64).toNat (fun _ => 0) (run onePageOps (init onePageShadow))).1 =
      .ok () := by
  have hbool : (l1.read 0x1002 (4 : U64).toNat (fun _ => 0)
      (run onePageOps (init onePageShadow))).1.toBool = true := by decide +kernel
  revert hbool
  generalize (l1.read 0x1002 (4 : U64).toNat (fun _ => 0)
    (run onePageOps (init onePageShadow))).1 = res
  intro hbool
  cases res with
  | ok u => rfl
  | error e => exact absurd hbool Bool.false_ne_true

theorem chain_coherent_onePage :
    (l1.read 0x1002 (4 : U64).toNat (fun _ => 0) (run onePageOps (init onePageShadow))).2.1 =
      ((run onePageOps (init onePageShadow)).2.2.2.read 0x1002 (4 : U64).toNat fun _ => 0).2 :=
  ((chain_coherent onePageImage onePageShadow onePageShadow_backed onePageOps).1 0x1002 4
    (fun _ => 0) onePage_read_ok).1

end Chain

end PicoCpu
