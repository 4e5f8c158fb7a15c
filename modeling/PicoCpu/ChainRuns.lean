import PicoCpu.Host.LiveProcess
import PicoCpu.MirroredRuns
import PicoCpu.ModifiedCode
import PicoCpu.Memory.CacheErrors

/-!
The cache chain under a running emulator. Over a backing that maps whole pages and fails in one
way, L1 over L2 over L3 over the shadow pages answers every access of at most 64 bytes as the
shadow pages alone do, so the tester's `--no-cache` changes nothing about a session.
-/

namespace PicoCpu

open Granule

/-! ### How reads fail -/

/-- Reads keep the invariant, and one that fails does so with this status. -/
structure FailsOnly {σ : Type} (P : MemoryProvider σ) (Inv : σ → Prop) (status : Status) :
    Prop where
  keeps : ∀ addr size out s, Inv s → Inv (P.read addr size out s).2.2
  status : ∀ addr size out s e, Inv s → (P.read addr size out s).1 = .error e → e = status

section FailsOnly

variable {σ : Type} {next : MemoryProvider σ} {Inv : σ → Prop} {status : Status}

/-- A walk whose iterations do. -/
theorem failsOnly_walk {τ : Type} (k : Nat)
    {body : GuestAddr → Nat → Nat → τ → Except Status Unit × τ} {I : τ → Prop}
    (hkeeps : ∀ cur n done t, I t → I (body cur n done t).2)
    (hstatus : ∀ cur n done t e, 0 < n → I t → (body cur n done t).1 = .error e → e = status)
    (addr : GuestAddr) (size : Nat) {t : τ} (ht : I t) :
    I (walkRange k body addr size t).2 ∧
      ∀ e, (walkRange k body addr size t).1 = .error e → e = status := by
  have h : Leaves size (fun _ => I) (fun e t => I t ∧ e = status)
      (walkRange k body addr size t) := by
    apply walkRange_rule k body addr size (fun _ => I) (fun e t => I t ∧ e = status) ?_ t ht
    intro done n t ht hpos _ _
    have hkept := hkeeps (addr + BitVec.ofNat 64 done) n done t ht
    have hfails := hstatus (addr + BitVec.ofNat 64 done) n done t
    revert hkept hfails
    cases body (addr + BitVec.ofNat 64 done) n done t with
    | mk r t' =>
        intro hkept hfails
        cases r with
        | error e => exact ⟨hkept, hfails e hpos ht rfl⟩
        | ok u => exact hkept
  revert h
  cases walkRange k body addr size t with
  | mk r t' =>
      cases r with
      | error e =>
          intro h
          refine ⟨h.1, ?_⟩
          rintro e' ⟨⟩
          exact h.2
      | ok u => exact fun h => ⟨h, fun e he => nomatch he⟩

theorem DirectMapped.failsOnly (k entries : Nat) (h : FailsOnly next Inv status) :
    FailsOnly (DirectMapped.provider k entries next) (fun st => Inv st.2) status := by
  have hok (e : Status) (he : (.ok () : Except Status Unit) = .error e) : e = status := by
    cases he
  have hserve (cur : GuestAddr) (n done : Nat) (st : Buf × Slots × σ) (hst : Inv st.2.2) :
      Inv (DirectMapped.serve k entries next cur n done st).2.2.2 ∧
        ∀ e, (DirectMapped.serve k entries next cur n done st).1 = .error e → e = status := by
    obtain ⟨out, c, s⟩ := st
    simp only [DirectMapped.serve]
    split
    · exact ⟨hst, hok⟩
    · have hkept := h.keeps (base k cur) (2 ^ k) (c (slotIndex k entries (base k cur))).data s hst
      have hfails := h.status (base k cur) (2 ^ k) (c (slotIndex k entries (base k cur))).data s
      revert hkept hfails
      cases next.read (base k cur) (2 ^ k) (c (slotIndex k entries (base k cur))).data s with
      | mk r rest =>
          intro hkept hfails
          cases r with
          | error e =>
              refine ⟨hkept, ?_⟩
              rintro e' ⟨⟩
              exact hfails e hst rfl
          | ok u => exact ⟨hkept, hok⟩
  have hwalk (addr : GuestAddr) (size : Nat) (out : Buf) (st : Slots × σ) (hst : Inv st.2) :=
    @failsOnly_walk status (Buf × Slots × σ) k (DirectMapped.serve k entries next)
      (fun t => Inv t.2.2) (fun cur n done t ht => (hserve cur n done t ht).1)
      (fun cur n done t e _ ht => (hserve cur n done t ht).2 e) addr size (out, st) hst
  exact ⟨fun addr size out st hst => (hwalk addr size out st hst).1,
    fun addr size out st e hst => (hwalk addr size out st hst).2 e⟩

theorem L3Cache.failsOnly (h : FailsOnly next Inv status) :
    FailsOnly (L3Cache.provider next) (fun st => Inv st.2) status := by
  have hok (e : Status) (he : (.ok () : Except Status Unit) = .error e) : e = status := by
    cases he
  have hprefetch (b : GuestAddr) (st : L3Cache × σ) (hst : Inv st.2) :
      Inv (L3Cache.prefetchRegion next b st).2.2 := by
    obtain ⟨c, s⟩ := st
    simp only [L3Cache.prefetchRegion]
    split
    · exact hst
    · generalize (if (c.regions c.victim).dataSize = 2 ^ regionShift then c.regions c.victim
        else { c.regions c.victim with data := fun _ => 0, dataSize := 2 ^ regionShift }) = r
      have hkept := h.keeps (base regionShift b) (2 ^ regionShift) r.data s hst
      revert hkept
      cases next.read (base regionShift b) (2 ^ regionShift) r.data s with
      | mk res rest => cases res <;> exact id
  have hserve (cur : GuestAddr) (n done : Nat) (st : Buf × L3Cache × σ) (hst : Inv st.2.2) :
      Inv (L3Cache.serve next cur n done st).2.2.2 ∧
        ∀ e, (L3Cache.serve next cur n done st).1 = .error e → e = status := by
    obtain ⟨out, c, s⟩ := st
    have hpre := hprefetch (base regionShift cur) (c, s) hst
    simp only [L3Cache.serve]
    split
    · exact ⟨hst, hok⟩
    · revert hpre
      cases prefetchRegion next (base regionShift cur) (c, s) with
      | mk res rest =>
          intro hpre
          cases res with
          | error e₀ =>
              have hkept := h.keeps cur n (fun i => out (done + i)) rest.2 hpre
              have hfails := h.status cur n (fun i => out (done + i)) rest.2
              simp only [passThrough]
              exact ⟨hkept, fun e he => hfails e hpre he⟩
          | ok u =>
              simp only
              split
              · exact ⟨hpre, hok⟩
              · exact ⟨hpre, hok⟩
  have hwalk (addr : GuestAddr) (size : Nat) (out : Buf) (st : L3Cache × σ) (hst : Inv st.2) :=
    @failsOnly_walk status (Buf × L3Cache × σ) regionShift (L3Cache.serve next)
      (fun t => Inv t.2.2) (fun cur n done t ht => (hserve cur n done t ht).1)
      (fun cur n done t e _ ht => (hserve cur n done t ht).2 e) addr size (out, st) hst
  exact ⟨fun addr size out st hst => (hwalk addr size out st hst).1,
    fun addr size out st e hst => (hwalk addr size out st hst).2 e⟩

/-- What the shadow pages cannot serve fails with this status: that of the backing, or
`UnmappedRead` when there is none. -/
structure ShadowPages.FailsWith (status : Status) (sp : ShadowPages) : Prop where
  unbacked : sp.backing = none → status = .unmappedRead
  backed : ∀ backing, sp.backing = some backing → ∀ cur n out e, 0 < n →
    (backing cur n out).1 = .error e → e = status

/-- A read of the shadow pages leaves them as they are. -/
theorem ShadowPages.failsOnly {sp : ShadowPages} (h : sp.FailsWith status) :
    FailsOnly ShadowPages.provider (fun sp' => sp' = sp) status := by
  have hserve (cur : GuestAddr) (n done : Nat) (out : Buf) (e : Status) (hpos : 0 < n)
      (he : (sp.serve cur n done out).1 = .error e) : e = status := by
    unfold ShadowPages.serve at he
    simp only at he
    split at he
    · cases he
    · split at he
      · cases he
      · split at he
        · rename_i hnone
          cases he
          exact (h.unbacked hnone).symm
        · rename_i backing hsome
          exact h.backed backing hsome cur n _ e hpos he
  constructor
  · rintro addr size out s rfl
    rfl
  · rintro addr size out s e rfl he
    exact (@failsOnly_walk status Buf pageShift s.serve (fun _ => True)
      (fun _ _ _ _ _ => trivial) (fun cur n done t e hpos _ => hserve cur n done t e hpos) addr size
      out trivial).2 e he

end FailsOnly

/-! ### Whole pages -/

/-- The bytes of a page are there together. -/
def PageWhole (m : ByteMap) : Prop :=
  ∀ a b, base ShadowPages.pageShift a = base ShadowPages.pageShift b → m a ≠ none → m b ≠ none

theorem base_page_add {k : Nat} (hk : k = 6 ∨ k = 12) (a : GuestAddr) {j : Nat}
    (hj : j < 2 ^ k) :
    base ShadowPages.pageShift (base k a + BitVec.ofNat 64 j) = base ShadowPages.pageShift a := by
  apply BitVec.eq_of_toNat_eq
  rw [toNat_base, toNat_base, BitVec.toNat_add, toNat_base, BitVec.toNat_ofNat]
  have ha := a.isLt
  rcases hk with rfl | rfl <;> simp only [ShadowPages.pageShift] at hj ⊢ <;> omega

theorem PageWhole.mappedGranules_iff {m : ByteMap} (h : PageWhole m) {k : Nat}
    (hk : k = 6 ∨ k = 12) (addr : GuestAddr) (size : Nat) :
    MappedGranules k m addr size ↔ Mapped m addr size := by
  constructor
  · exact MappedGranules.mapped
  · intro hmapped i hi j hj
    exact h (addr + BitVec.ofNat 64 i) _ (base_page_add hk _ hj).symm (hmapped i hi)

namespace ShadowPages

variable {image : ByteMap} {sp : ShadowPages}

theorem pageWhole (hbacked : Backed image sp) : PageWhole (sp.byteMap image) := by
  intro a b hpage
  unfold byteMap
  rw [hpage]
  split
  · exact fun _ => Option.some_ne_none _
  · split
    · exact fun _ => Option.some_ne_none _
    · split
      · rename_i hsome
        obtain ⟨backing, hbacking⟩ := Option.isSome_iff_exists.mp hsome
        have hwhole := (hbacked backing hbacking).whole
        intro ha
        rw [← Option.isSome_iff_ne_none] at ha ⊢
        rw [hwhole, hpage, ← hwhole] at ha
        exact ha
      · exact id

theorem byteGranular : ByteGranular provider (Backed image) (byteMap image) where
  toRepresents := represents
  read_mapped addr size out _ _ hbacked h := read_of_mapped hbacked addr size out h

end ShadowPages

namespace Chain

variable {image : ByteMap} {c : Chain} {status : Status}

theorem l3_byteGranular : ByteGranular l3 (Inv3 image) fun st => st.2.byteMap image where
  toRepresents := l3_represents
  read_mapped addr size out st hsize hinv h :=
    (L3Cache.read_ok_iff ShadowPages.byteGranular addr size out st hsize hinv).mpr h

theorem l2_byteGranular : ByteGranular l2 (Inv2 image) fun st => st.2.2.byteMap image where
  toRepresents := l2_represents
  read_mapped addr size out st hsize hinv h := by
    have hbacked : ShadowPages.Backed image st.2.2 := hinv.1.1
    apply (DirectMapped.read_ok_iff l3_byteGranular _ _ (by decide) addr size out st hinv).mpr
    exact ((ShadowPages.pageWhole hbacked).mappedGranules_iff (.inr rfl) addr size).mpr h

/-- A read of the chain returns Ok exactly when the shadow pages alone would serve it. -/
theorem read_ok_iff (hinv : Inv image c) (addr : GuestAddr) {size : Nat} (hsize : size ≤ 2 ^ 64)
    (out : Buf) :
    (l1.read addr size out c).1 = .ok () ↔ (c.2.2.2.read addr size out).1 = .ok () := by
  have hbacked : ShadowPages.Backed image c.2.2.2 := hinv.1.1.1
  have hchain := DirectMapped.read_ok_iff l2_byteGranular lineShift l1Entries (by decide) addr size
    out c hinv
  have hshadow := ShadowPages.byteGranular.read_ok_iff addr out hsize hbacked
  rw [(ShadowPages.pageWhole hbacked).mappedGranules_iff (.inl rfl) addr size] at hchain
  exact hchain.trans hshadow.symm

/-- What the chain reads is what the shadow pages hold. -/
theorem read_bytes (hinv : Inv image c) (addr : GuestAddr) {size : Nat} (hsize : size ≤ 2 ^ 64)
    (out : Buf) (hok : (c.2.2.2.read addr size out).1 = .ok ()) :
    (l1.read addr size out c).2.1 = (c.2.2.2.read addr size out).2 := by
  have hbacked : ShadowPages.Backed image c.2.2.2 := hinv.1.1.1
  have hchain := (read_ok_iff hinv addr hsize out).mpr hok
  have hbytes := l1_represents.read_ok addr size out c hsize hinv hchain
  have hframe := l1_represents.read_frame addr size out c hsize hinv
  have hshadow := ShadowPages.represents.read_ok addr size out _ hsize hbacked hok
  have hshadowFrame := ShadowPages.represents.read_frame addr size out _ hsize hbacked
  funext i
  rcases lt_or_ge i size with hi | hi
  · exact Option.some.inj ((hbytes i hi).symm.trans (hshadow i hi))
  · exact (hframe i hi).trans (hshadowFrame i hi).symm

/-- A write of the chain comes to what it does to the shadow pages. -/
theorem write_through (addr : GuestAddr) (size : Nat) (data : Buf) (c : Chain) :
    (l1.write addr size data c).1 = (c.2.2.2.write addr size data).1 ∧
      (l1.write addr size data c).2.2.2.2 = (c.2.2.2.write addr size data).2 := by
  obtain ⟨c₁, c₂, c₃, sp⟩ := c
  by_cases hzero : size = 0
  · subst hzero
    exact ⟨rfl, rfl⟩
  · change (DirectMapped.write _ _ l2 addr size data _).1 = _ ∧
      (DirectMapped.write _ _ l2 addr size data _).2.2.2.2 = _
    simp only [DirectMapped.write, L3Cache.write, l2, l3, DirectMapped.provider,
      L3Cache.provider, ShadowPages.provider, if_neg hzero]
    cases ShadowPages.write addr size data sp with
    | mk r sp' => cases r <;> exact ⟨rfl, rfl⟩

theorem failsOnly {sp : ShadowPages} (h : sp.FailsWith status) :
    FailsOnly l1 (fun c => c.2.2.2 = sp) status :=
  DirectMapped.failsOnly _ _ (DirectMapped.failsOnly _ _
    (L3Cache.failsOnly (ShadowPages.failsOnly h)))

/-- The chain over these shadow pages, every level coherent with them. -/
structure Over (image : ByteMap) (status : Status) (c : Chain) (sp : ShadowPages) : Prop where
  inv : Inv image c
  shadow : c.2.2.2 = sp
  fails : sp.FailsWith status

theorem over_init {sp : ShadowPages} (hbacked : sp.Backed image) (hfails : sp.FailsWith status) :
    Over image status (init sp) sp :=
  ⟨init_inv hbacked, rfl, hfails⟩

theorem failsWith_write {sp : ShadowPages} (h : sp.FailsWith status) (addr : GuestAddr)
    {size : Nat} (hsize : size ≤ 2 ^ 64) (data : Buf) :
    (sp.write addr size data).2.FailsWith status := by
  cases hres : (ShadowPages.write addr size data sp).1 with
  | error e =>
      rw [ShadowPages.write_error hres]
      exact h
  | ok u =>
      have hsetup := (ShadowPages.write_ok addr size data sp hsize hres).setup.1
      exact ⟨fun hnone => h.unbacked (hsetup ▸ hnone),
        fun backing hsome => h.backed backing (hsetup ▸ hsome)⟩

/-- L1 over the chain serves as the shadow pages do. -/
theorem servesAs : l1.ServesAs (Over image status) ShadowPages.provider := by
  have hwidth {size : Nat} (h : size ≤ 64) : size ≤ 2 ^ 64 := by omega
  constructor
  · rintro addr size c sp hsize ⟨hinv, rfl, hfails⟩
    have hok := read_ok_iff hinv addr (hwidth hsize) fun _ => 0
    have hchain := (failsOnly hfails).status addr size (fun _ => 0) c
    have hshadow := (ShadowPages.failsOnly hfails).status addr size (fun _ => 0) c.2.2.2
    change (l1.read addr size (fun _ => 0) c).1 = (c.2.2.2.read addr size fun _ => 0).1
    change ∀ e, _ → (c.2.2.2.read addr size fun _ => 0).1 = .error e → e = status at hshadow
    revert hok hchain hshadow
    cases (l1.read addr size (fun _ => 0) c).1 with
    | ok u => exact fun hok _ _ => (hok.mp rfl).symm
    | error e =>
        cases (c.2.2.2.read addr size fun _ => 0).1 with
        | ok u => exact fun hok _ _ => nomatch hok.mpr rfl
        | error e' =>
            intro _ hchain hshadow
            rw [hchain e rfl rfl, hshadow e' rfl rfl]
  · rintro addr size c sp hsize ⟨hinv, rfl, hfails⟩ hok
    exact read_bytes hinv addr (hwidth hsize) _ hok
  · rintro addr size c sp hsize ⟨hinv, rfl, hfails⟩
    exact ⟨l1_represents.read_inv addr size _ c (hwidth hsize) hinv,
      (failsOnly hfails).keeps addr size _ c rfl, hfails⟩
  · rintro addr size data c _ hsize ⟨hinv, rfl, hfails⟩
    exact (write_through addr size data c).1
  · rintro addr size data c sp hsize ⟨hinv, rfl, hfails⟩
    exact ⟨l1_represents.write_inv addr size data c (hwidth hsize) hinv,
      (write_through addr size data c).2, failsWith_write hfails addr (hwidth hsize) data⟩

end Chain

/-! ### The tester with and without its caches -/

/-- How the tester attaches memory: through L1, or, with `--no-cache`, the shadow pages. -/
structure Emulator.WithAndWithoutCaches (em : Emulator Chain) (em' : Emulator ShadowPages) :
    Prop where
  memRead : em.attached.memRead = some Chain.l1
  memWrite : em.attached.memWrite = some Chain.l1
  memReadDirect : em'.attached.memRead = some ShadowPages.provider
  memWriteDirect : em'.attached.memWrite = some ShadowPages.provider

namespace Emulator

variable {em : Emulator Chain} {em' : Emulator ShadowPages} {image : ByteMap} {status : Status}

theorem WithAndWithoutCaches.together (hwired : em.WithAndWithoutCaches em')
    (hhost : em.SameHost (Chain.Over image status) em') :
    em.Together (Chain.Over image status) em' where
  toSameHost := hhost
  memRead := by
    rw [hwired.memRead, hwired.memReadDirect]
    exact .some Chain.servesAs
  memWrite := by
    rw [hwired.memWrite, hwired.memWriteDirect]
    exact .some Chain.servesAs

/-- The machine with empty caches in front of its shadow pages. -/
def withCaches (vm : VmState ShadowPages) : VmState Chain where
  cpu := vm.cpu
  world := { mem := Chain.init vm.world.mem, tsc := vm.world.tsc, rand := vm.world.rand }

theorem over_withCaches {vm : VmState ShadowPages} (hbacked : vm.world.mem.Backed image)
    (hfails : vm.world.mem.FailsWith status) :
    (withCaches vm).Over (Chain.Over image status) vm :=
  ⟨rfl, Chain.over_init hbacked hfails, rfl, rfl⟩

/-- A session through the cache chain ends exactly when the session with `--no-cache` does, call
by call with the same results, machines, block caches and shadow pages. -/
theorem no_cache_session (em : Emulator Chain) (em' : Emulator ShadowPages) (image : ByteMap)
    (status : Status) (vm : VmState ShadowPages) (calls : List (Call Chain))
    (calls' : List (Call ShadowPages)) (hwired : em.WithAndWithoutCaches em')
    (hhost : em.SameHost (Chain.Over image status) em') (hbacked : vm.world.mem.Backed image)
    (hfails : vm.world.mem.FailsWith status)
    (hcalls : List.Forall₂ (Call.Together (Chain.Over image status)) calls calls') :
    (∀ ends, em.Serves (withCaches vm) (fun _ => none) calls ends →
      ∃ ends', em'.Serves vm (fun _ => none) calls' ends' ∧
        List.Forall₂ (RunEnd.Over (Chain.Over image status)) ends ends') ∧
    ∀ ends', em'.Serves vm (fun _ => none) calls' ends' →
      ∃ ends, em.Serves (withCaches vm) (fun _ => none) calls ends ∧
        List.Forall₂ (RunEnd.Over (Chain.Over image status)) ends ends' :=
  (hwired.together hhost).serves hcalls (over_withCaches hbacked hfails) BlockCache.narrow_empty

/-- The tester over a live process, as the system reads it. -/
theorem no_cache_live_process {p : Host.Process} (hopen : p.isOpen = true)
    (hreads : Host.ReadsPages p.readProcessMemory image) {vm : VmState ShadowPages}
    (hprocess : vm.world.mem.backing = some (Host.winProcessBacking p)) {calls : List (Call Chain)}
    {calls' : List (Call ShadowPages)} (hwired : em.WithAndWithoutCaches em')
    (hhost : em.SameHost (Chain.Over image .hostReadFailed) em')
    (hcalls : List.Forall₂ (Call.Together (Chain.Over image .hostReadFailed)) calls calls') :
    (∀ ends, em.Serves (withCaches vm) (fun _ => none) calls ends →
      ∃ ends', em'.Serves vm (fun _ => none) calls' ends' ∧
        List.Forall₂ (RunEnd.Over (Chain.Over image .hostReadFailed)) ends ends') ∧
    ∀ ends', em'.Serves vm (fun _ => none) calls' ends' →
      ∃ ends, em.Serves (withCaches vm) (fun _ => none) calls ends ∧
        List.Forall₂ (RunEnd.Over (Chain.Over image .hostReadFailed)) ends ends' := by
  have hbacked : vm.world.mem.Backed image := by
    intro backing hbacking
    cases hprocess.symm.trans hbacking
    exact Host.pageGranular hopen hreads
  have hfails : vm.world.mem.FailsWith .hostReadFailed := by
    constructor
    · intro hnone
      cases hprocess.symm.trans hnone
    · intro backing hbacking cur n out e hpos
      cases hprocess.symm.trans hbacking
      exact Host.status_of_fails hopen hpos
  exact (hwired.together hhost).serves hcalls (over_withCaches hbacked hfails)
    BlockCache.narrow_empty

/-! ### Down to the plain interpreter -/

/-- A run through the caches ends as the plain interpreter does over the shadow pages: with an
end of the dispatcher over the shadow pages between them. -/
def EndsPlainly (image : ByteMap) (status : Status) (e : RunEnd Chain) (f : RunEnd ShadowPages) :
    Prop :=
  ∃ e' : RunEnd ShadowPages, e.Over (Chain.Over image status) e' ∧ e'.Alike f

/-- What decoding from `pc` on leaves of the caches: its bytes are read one by one. -/
@[irreducible] def decodedThrough (n : Nat) (pc : GuestAddr) (c : Chain) : Chain :=
  (List.range n).foldl
    (fun c i => (Chain.l1.read (pc + BitVec.ofNat 64 i) 1 (fun _ => 0) c).2.2) c

theorem over_decodedThrough (n : Nat) (pc : GuestAddr) {c : Chain} {sp : ShadowPages}
    (h : Chain.Over image status c sp) :
    Chain.Over image status (decodedThrough n pc c) sp := by
  unfold decodedThrough
  generalize List.range n = is
  induction is generalizing c with
  | nil => exact h
  | cons i rest ih =>
      have hread := (@Chain.servesAs image status).readState (pc + BitVec.ofNat 64 i) 1 c sp
        (by omega) h
      exact ih hread

def patchingCached : Emulator Chain where
  fp := default
  attached := { memRead := some Chain.l1, memWrite := some Chain.l1 }
  listens := heardWrite [⟨0x1000, 0x1000⟩]
  fetched := decodedThrough 16

theorem patchingCached_sameHost : patchingCached.SameHost (Chain.Over image status) patching where
  fp := rfl
  readHooks := rfl
  writeHooks := rfl
  blockHooks := .nil
  codeHooks := .nil
  insnHooks := .nil
  faultHooks := .nil
  trace := rfl
  recovery := .none
  iatStubs := .none
  stopAddrs := rfl
  listens := rfl
  fetched pc _ _ h := over_decodedThrough 16 pc h

theorem patchPages_backed : patchPages.Backed fun _ => none := fun _ h => nomatch h

theorem patchPages_failsWith : patchPages.FailsWith .unmappedRead :=
  ⟨fun _ => rfl, fun _ h => nomatch h⟩

theorem no_cache_session_patching :
    (∀ ends, patchingCached.Serves (withCaches ⟨{}, { mem := patchPages }⟩) (fun _ => none)
        [{ entry := 0x1FFD, maxInsns := 5 }, { entry := 0x1FFD, maxInsns := 5 }] ends →
      ∃ ends', patching.Serves ⟨{}, { mem := patchPages }⟩ (fun _ => none)
          [{ entry := 0x1FFD, maxInsns := 5 }, { entry := 0x1FFD, maxInsns := 5 }] ends' ∧
        List.Forall₂ (RunEnd.Over (Chain.Over (fun _ => none) .unmappedRead)) ends ends') ∧
    ∀ ends', patching.Serves ⟨{}, { mem := patchPages }⟩ (fun _ => none)
        [{ entry := 0x1FFD, maxInsns := 5 }, { entry := 0x1FFD, maxInsns := 5 }] ends' →
      ∃ ends, patchingCached.Serves (withCaches ⟨{}, { mem := patchPages }⟩) (fun _ => none)
          [{ entry := 0x1FFD, maxInsns := 5 }, { entry := 0x1FFD, maxInsns := 5 }] ends ∧
        List.Forall₂ (RunEnd.Over (Chain.Over (fun _ => none) .unmappedRead)) ends ends' := by
  have hcall : Call.Together (Chain.Over (fun _ => none) .unmappedRead)
      { entry := 0x1FFD, maxInsns := 5 } { entry := 0x1FFD, maxInsns := 5 } :=
    ⟨fun _ _ h => h, rfl, rfl⟩
  apply no_cache_session patchingCached patching (fun _ => none) .unmappedRead
    ⟨{}, { mem := patchPages }⟩
  · exact ⟨rfl, rfl, rfl, rfl⟩
  · exact patchingCached_sameHost
  · exact patchPages_backed
  · exact patchPages_failsWith
  · exact .cons hcall (.cons hcall .nil)

end Emulator

end PicoCpu
