import PicoCpu.CachedRuns

/-!
Programs that write their own code, over shadow pages with the write listener wired to the block
cache. Every store that reaches a cached block erases it before the next lookup, so the
dispatcher agrees with the plain interpreter unless an instruction writes to the straight-line
code right after itself.
-/

namespace PicoCpu

open Granule Handlers

/-! ### The flags of a block's instructions -/

theorem map_flags_foldJccFrom (prev : Insn) (insns : List Insn) :
    (foldJccFrom prev insns).map Insn.flags = insns.map Insn.flags := by
  induction insns generalizing prev with
  | nil => rfl
  | cons i rest ih =>
      have hhead : (foldJcc prev i).flags = i.flags := by
        unfold foldJcc
        split <;> rfl
      rw [foldJccFrom, List.map_cons, List.map_cons, ih, hhead]

/-- The pass leaves the flags of the instructions alone. -/
theorem map_flags_peepholeBlock (insns : List Insn) :
    (peepholeBlock insns).map Insn.flags = insns.map Insn.flags := by
  cases insns with
  | nil => rfl
  | cons i rest =>
      have hfold : ((i :: rest).map Insn.fold).map Insn.flags = (i :: rest).map Insn.flags := by
        rw [List.map_map]
        apply List.map_congr_left
        intro j _
        change j.fold.flags = j.flags
        unfold Insn.fold
        split <;> rfl
      rw [peepholeBlock_cons, map_flags_foldJccFrom, hfold]

/-- Only the last instruction may be control flow. -/
def Inner (insns : List Insn) : Prop :=
  ∀ f ∈ (insns.map Insn.flags).dropLast, f.controlFlow = false

theorem Straight.inner {mem : CodeBytes} {cur : GuestAddr} {insns : List Insn}
    (h : Straight mem cur insns) : Inner insns := by
  induction insns generalizing cur with
  | nil => exact fun f hf => absurd hf List.not_mem_nil
  | cons i rest ih =>
      cases rest with
      | nil => exact fun f hf => absurd hf List.not_mem_nil
      | cons j rest =>
          intro f hf
          rw [List.map_cons, List.map_cons, List.dropLast_cons_cons] at hf
          rcases List.mem_cons.mp hf with rfl | hf
          · exact h.2.1 (List.cons_ne_nil _ _)
          · exact ih h.2.2 f hf

theorem straight_of_decodedAlong {mem : CodeBytes} {cur : GuestAddr} {insns : List Insn}
    (h : DecodedAlong mem cur insns) (hinner : Inner insns) : Straight mem cur insns := by
  induction insns generalizing cur with
  | nil => trivial
  | cons i rest ih =>
      cases rest with
      | nil => exact ⟨h.1, fun hne => absurd rfl hne, trivial⟩
      | cons j rest =>
          have hcons : ((i :: j :: rest).map Insn.flags).dropLast =
              i.flags :: ((j :: rest).map Insn.flags).dropLast := rfl
          rw [Inner, hcons] at hinner
          refine ⟨h.1, fun _ => hinner i.flags List.mem_cons_self, ih h.2 ?_⟩
          exact fun f hf => hinner f (List.mem_cons_of_mem _ hf)

namespace Emulator

/-! ### The invariant -/

/-- The cache is in step with the pages, the blocks are straight-line code, and the code ranges
are as they were registered. -/
structure Coherent (image : ByteMap) (ranges : List PrivateRange) (cache : BlockCache)
    (sp : ShadowPages) : Prop where
  inv : CodeInv image { sp, cache }
  ranges : sp.codeRanges = ranges
  straight : ∀ pc block, cache pc = some block → block.insns ≠ [] ∧ Inner block.insns

theorem codeBytes_shadow (sp : ShadowPages) :
    codeBytes ShadowPages.provider sp = sp.codeBytes := by
  funext a
  unfold codeBytes ShadowPages.codeBytes ShadowPages.provider
  simp only
  cases sp.read a 1 fun _ => 0 with
  | mk r out => cases r <;> rfl

theorem Coherent.current {image : ByteMap} {ranges : List PrivateRange} {cache : BlockCache}
    {sp : ShadowPages} (h : Coherent image ranges cache sp) {pc : GuestAddr} {block : DecodedBlock}
    (hblock : cache.lookup pc = some block) : Current sp.codeBytes pc block := by
  obtain ⟨insns, hinsns, hheld, _⟩ := (h.inv.blocks pc block hblock).held
  obtain ⟨hne, hinner⟩ := h.straight pc block hblock
  rw [hinsns] at hne hinner
  refine ⟨insns, ?_, hinsns, straight_of_decodedAlong hheld.decoded ?_⟩
  · rintro rfl
    exact hne rfl
  · rwa [Inner, map_flags_peepholeBlock] at hinner

theorem Coherent.insert {image : ByteMap} {ranges : List PrivateRange} {cache : BlockCache}
    {sp : ShadowPages} (h : Coherent image ranges cache sp) {pc : GuestAddr} {block : DecodedBlock}
    (hdecode : decodeBlock sp.codeBytes pc 1024 = some (.ok block))
    (hcode : ∀ a, InRange pc block.byteSize a → InCode sp a)
    (hfits : CountFitsAlong sp.codeBytes 1024 pc) :
    Coherent image ranges (cache.insert pc block) sp := by
  have hcounted : Counted { sp, cache } (.insert pc 1024) := ⟨by decide, by decide, hfits⟩
  refine ⟨h.inv.insert hdecode hcode hcounted, h.ranges, ?_⟩
  intro pc' block' hblock
  rw [BlockCache.insert] at hblock
  rcases eq_or_ne pc' pc with rfl | hne
  · rw [Function.update_self] at hblock
    cases hblock
    obtain ⟨insns, hne, hinsns, hstraight⟩ := current_decodeBlock hdecode
    rw [hinsns]
    refine ⟨?_, ?_⟩
    · intro hnil
      have hlength := length_peepholeBlock insns
      rw [hnil, List.length_nil] at hlength
      exact hne (List.eq_nil_of_length_eq_zero hlength.symm)
    · rw [Inner, map_flags_peepholeBlock]
      exact hstraight.inner
  · rw [Function.update_of_ne hne] at hblock
    exact h.straight pc' block' hblock

/-- What a write that returns Ok, heard by the listener, makes of the cache. -/
def heardWrite (ranges : List PrivateRange) (addr : GuestAddr) (size : Nat) : Bool :=
  size != 0 && ShadowPages.touchesCode { codeRanges := ranges } addr size

theorem Coherent.write {image : ByteMap} {ranges : List PrivateRange} {cache : BlockCache}
    {sp : ShadowPages} (h : Coherent image ranges cache sp) (addr : GuestAddr) (size : Nat)
    (data : Buf) (hfits : addr.toNat + size < 2 ^ 64)
    (hok : (ShadowPages.write addr size data sp).1 = .ok ()) :
    Coherent image ranges
      (if heardWrite ranges addr size then cache.invalidateRange addr size else cache)
      (ShadowPages.write addr size data sp).2 := by
  have hsize : (BitVec.ofNat 64 size).toNat = size := by
    rw [BitVec.toNat_ofNat, Nat.mod_eq_of_lt (by omega)]
  have hinv := @CodeInv.write image _ h.inv addr (BitVec.ofNat 64 size) data
    (by rw [hsize]; exact hfits)
  have hpages := ShadowPages.write_ok addr size data sp (by omega) hok
  have hranges : (ShadowPages.write addr size data sp).2.codeRanges = ranges := by
    rw [hpages.setup.2.2.1, h.ranges]
  have hzero : (BitVec.ofNat 64 size != 0) = (size != 0) := by
    by_cases hnone : size = 0
    · rw [hnone]
      rfl
    · have hne : BitVec.ofNat 64 size ≠ 0 := by
        intro heq
        have hnat := congrArg BitVec.toNat heq
        rw [hsize] at hnat
        exact hnone hnat
      rw [bne_iff_ne.mpr hne, bne_iff_ne.mpr hnone]
  have htouch : (ShadowPages.write addr size data sp).2.touchesCode addr size =
      ShadowPages.touchesCode { codeRanges := ranges } addr size := by
    unfold ShadowPages.touchesCode
    rw [hranges]
  have hafter : (CodeVm.write { sp, cache } addr (BitVec.ofNat 64 size) data).2 =
      { sp := (ShadowPages.write addr size data sp).2,
        cache := if heardWrite ranges addr size then cache.invalidateRange addr size else cache } := by
    rw [CodeVm.write]
    simp only [hsize]
    cases hw : ShadowPages.write addr size data sp with
    | mk r sp' =>
        rw [hw] at hok htouch
        cases r with
        | error e => cases hok
        | ok u =>
            have htouch' : sp'.touchesCode addr size =
                ShadowPages.touchesCode { codeRanges := ranges } addr size := htouch
            simp only [hzero, htouch', heardWrite]
            rfl
  rw [hafter] at hinv
  refine ⟨hinv, hranges, ?_⟩
  intro pc block hblock
  have hkept : cache pc = some block := by
    split at hblock
    · rw [BlockCache.invalidateRange] at hblock
      split at hblock
      · exact hblock
      · exact (Option.filter_eq_some_iff.mp hblock).1
    · exact hblock
  exact h.straight pc block hkept

/-- Every store ends below `2 ^ 64`. -/
def StoresFit (events : List machine.Event) : Prop :=
  ∀ addr size data r, (⟨.write addr size data, r⟩ : machine.Event) ∈ events →
    addr.toNat + size < 2 ^ 64

/-- The listener is wired to the block cache, over shadow pages. -/
structure Wired (em : Emulator ShadowPages) (ranges : List PrivateRange) : Prop where
  memRead : em.attached.memRead = some ShadowPages.provider
  memWrite : em.attached.memWrite = some ShadowPages.provider
  listens : ∀ addr size, em.listens addr size = heardWrite ranges addr size

/-- A handler, however it stores, keeps the cache coherent: by induction on its operations. -/
theorem coherent_exec {em : Emulator ShadowPages} {ranges : List PrivateRange}
    (hwired : em.Wired ranges) {image : ByteMap} {α : Type} (p : Prog machine α)
    {w : World ShadowPages} {cache : BlockCache} (h : Coherent image ranges cache w.mem)
    (hfits : StoresFit (p.exec em.attached.env w).trace) :
    Coherent image ranges ((p.exec em.attached.env w).trace.foldl em.heard cache)
      (p.exec em.attached.env w).world.mem := by
  induction p generalizing w cache with
  | ret a => exact h
  | ask o k ih =>
      have hrest : StoresFit (((k (em.attached.env o w).1).exec em.attached.env
          (em.attached.env o w).2).trace) :=
        fun addr size data r hr => hfits addr size data r (List.mem_cons_of_mem _ hr)
      refine ih (em.attached.env o w).1 ?_ hrest
      cases o with
      | attached isWrite => exact h
      | memHooks addr size value isWrite => exact h
      | nextTsc => exact h
      | nextRand => exact h
      | read addr size =>
          have hmem : (em.attached.env (.read addr size) w).2.mem = w.mem := by
            simp only [Attached.env, hwired.memRead]
            rfl
          rw [hmem]
          exact h
      | write addr size data =>
          have hfit := hfits addr size data _ List.mem_cons_self
          have henv : em.attached.env (.write addr size data) w =
              ((ShadowPages.write addr size data w.mem).1,
                { w with mem := (ShadowPages.write addr size data w.mem).2 }) := by
            simp only [Attached.env, hwired.memWrite]
            rfl
          rw [henv]
          cases hr : (ShadowPages.write addr size data w.mem).1 with
          | error e =>
              have hsame : (ShadowPages.write addr size data w.mem).2 = w.mem :=
                ShadowPages.write_error hr
              change Coherent image ranges cache (ShadowPages.write addr size data w.mem).2
              rw [hsame]
              exact h
          | ok u =>
              have hwritten := h.write addr size data hfit hr
              rw [← hwired.listens] at hwritten
              exact hwritten

/-! ### Runs -/

/-- What a program that writes its own code keeps to in the plain run from `t₀`: it executes
registered code whose bytes the decoder can count, its stores end below `2 ^ 64`, and no
instruction changes the straight-line code that follows it. -/
structure WritesBehind (em : Emulator ShadowPages) (maxInsns : Nat) (t₀ : RunState ShadowPages) :
    Prop where
  decodes : ∀ t, AtCode em ShadowPages.provider maxInsns t₀ t →
    decodeBlock t.vm.world.mem.codeBytes t.vm.cpu.rip 1024 ≠ none
  registered : ∀ t block, AtCode em ShadowPages.provider maxInsns t₀ t →
    decodeBlock t.vm.world.mem.codeBytes t.vm.cpu.rip 1024 = some (.ok block) →
      ∀ a, InRange t.vm.cpu.rip block.byteSize a → InCode t.vm.world.mem a
  counted : ∀ t, AtCode em ShadowPages.provider maxInsns t₀ t →
    CountFitsAlong t.vm.world.mem.codeBytes 1024 t.vm.cpu.rip
  stores : ∀ i t, Executes em ShadowPages.provider maxInsns t₀ i t →
    StoresFit ((i.run em.fp).runOn em.attached t.vm.cpu.clearBranch t.vm.world).trace
  ahead : ∀ i t insns, Executes em ShadowPages.provider maxInsns t₀ i t →
    em.FallsThrough maxInsns i t → i.flags.controlFlow = false → insns ≠ [] →
      Straight t.vm.world.mem.codeBytes (nextRip i) insns →
        Straight (stepInsn em.fp em.attached i t.vm).world.mem.codeBytes (nextRip i) insns
  harmless : ∀ i t, Executes em ShadowPages.provider maxInsns t₀ i t → i.isFolded = true →
    i.Harmless t.vm.cpu

/-- The callbacks leave the memory alone, and there are no import stubs. -/
structure MemoryQuiet (em : Emulator ShadowPages) : Prop where
  recovery : ∀ cb, em.recovery = some cb → ∀ f vm, (cb f vm).2.world.mem = vm.world.mem
  faultHooks : ∀ h ∈ em.faultHooks, ∀ f vm, (h f vm).world.mem = vm.world.mem
  stubs : em.iatStubs = none

theorem upkeep_coherent {em : Emulator ShadowPages} {ranges : List PrivateRange}
    (hwired : em.Wired ranges) (hquiet : em.MemoryQuiet) {maxInsns : Nat}
    {t₀ : RunState ShadowPages} (hbehind : WritesBehind em maxInsns t₀) (image : ByteMap) :
    Upkeep em ShadowPages.provider maxInsns t₀ (Coherent image ranges) where
  ends t cache hat _ _ := by
    rw [codeBytes_shadow]
    exact hbehind.decodes t hat
  current t cache block _ hgood hlookup := by
    rw [codeBytes_shadow]
    exact hgood.current hlookup
  insert t cache block hat hgood hdecode := by
    rw [codeBytes_shadow] at hdecode
    exact hgood.insert hdecode (hbehind.registered t block hat hdecode) (hbehind.counted t hat)
  execute i t cache hexec hgood :=
    coherent_exec hwired (i.run em.fp t.vm.cpu.clearBranch) hgood (hbehind.stores i t hexec)
  ahead i t insns hexec hfalls hplain hne hcode := by
    rw [codeBytes_shadow] at hcode ⊢
    exact hbehind.ahead i t insns hexec hfalls hplain hne hcode
  outside i t _ _ _ hat := by
    have hstubs := hat.1
    rw [hquiet.stubs] at hstubs
    cases hstubs
  harmless := hbehind.harmless
  recovery cb hcb f vm cache hgood := by
    rw [hquiet.recovery cb hcb]
    exact hgood
  faultHooks h hh f vm cache hgood := by
    rw [hquiet.faultHooks h hh]
    exact hgood
  stubs stubs hstubs := by
    rw [hquiet.stubs] at hstubs
    cases hstubs

/-- Bytes that the decoder could not read are not counted. -/
theorem length_le_of_unreadable {mem : CodeBytes} {rip : GuestAddr} {k p : Nat} {bs : List U8}
    {e : Status} (hk : k ≤ 255) (hend : mem (rip + BitVec.ofNat 64 k) = .error e)
    (hrun : PrefixRun (memFetch mem rip) p) (hbytes : OpcodeBytes (memFetch mem rip) rip p bs) :
    p + bs.length ≤ k := by
  have hfetch : memFetch mem rip (BitVec.ofNat 8 k) = .error e := by
    have hoff : (BitVec.ofNat 8 k).setWidth 64 = BitVec.ofNat 64 k := by
      apply BitVec.eq_of_toNat_eq
      rw [BitVec.toNat_setWidth, BitVec.toNat_ofNat, BitVec.toNat_ofNat]
      omega
    rw [memFetch, hoff, hend]
  by_contra hlong
  obtain ⟨b, i, _, _, hholds⟩ := hbytes
  rcases Nat.lt_or_ge k p with hlt | hge
  · obtain ⟨x, hx, _⟩ := hrun.2.1 k hlt
    rw [hfetch] at hx
    cases hx
  · have hbyte := (Parse.holds_iff.mp hholds) (k - p) (by omega)
    rw [← BitVec.ofNat_add, Nat.add_sub_cancel' hge, hfetch] at hbyte
    cases hbyte

/-- Code whose readable bytes end within 255 bytes can be counted. -/
theorem countFitsAlong_of_unreadable {mem : CodeBytes} {e : Status} (n : Nat) {cur : GuestAddr}
    {k : Nat} (hk : k ≤ 255) (hend : mem (cur + BitVec.ofNat 64 k) = .error e) :
    CountFitsAlong mem n cur := by
  induction n generalizing cur k with
  | zero => trivial
  | succ n ih =>
      have hfits : CountFits mem cur := fun p bs hrun hbytes =>
        (length_le_of_unreadable hk hend hrun hbytes).trans hk
      refine ⟨hfits, fun i hi _ => ?_⟩
      obtain ⟨p, bs, hanswers, hlen, _⟩ := (held_of_decodes hi hfits).answers
      have hle : i.len ≤ k := by
        rw [hlen]
        exact length_le_of_unreadable hk hend hanswers.prefixes hanswers.opcodeBytes
      have hrest : mem (cur + BitVec.ofNat 64 i.len + BitVec.ofNat 64 (k - i.len)) = .error e := by
        rw [add_add_ofNat, Nat.add_sub_cancel' hle]
        exact hend
      exact ih (by omega) hrest

/-- At the end of the page at 0x1000: a store that makes a NOP a HLT, a jump to the NOP, the NOP,
and a jump back to the store. -/
def patchCode : List U8 :=
  [0xC6, 0x05, 0x02, 0x00, 0x00, 0x00, 0xF4, 0xEB, 0x00, 0x90, 0xEB, 0xF4]

def patchPages : ShadowPages where
  pages p := if p = 0x1000 then some fun i => patchCode.getD (i - 0xFF4) 0 else none
  codeRanges := [⟨0x1000, 0x1000⟩]

def patching : Emulator ShadowPages where
  fp := default
  attached := { memRead := some ShadowPages.provider, memWrite := some ShadowPages.provider }
  listens := heardWrite [⟨0x1000, 0x1000⟩]

/-- The NOP is executed, and cached, before it is patched. -/
def patchStart : RunState ShadowPages :=
  enter ⟨{}, { mem := patchPages }⟩ (fun _ => none) 0x1FFD

/-- The states of the run, one after the other. -/
def patchState : Nat → Option (RunState ShadowPages)
  | 0 => some patchStart
  | k + 1 => (patchState k).bind fun s =>
    (patching.plainTurn ShadowPages.provider 5 s).bind Turn.next

/-- Every store in the list ends below `2 ^ 64`. -/
def storesFit (events : List machine.Event) : Bool :=
  events.all fun e =>
    match e.1 with
    | .write addr size _ => decide (addr.toNat + size < 2 ^ 64)
    | _ => true

theorem storesFit_iff {events : List machine.Event} (h : storesFit events = true) :
    StoresFit events := by
  intro addr size data r hmem
  have hone := List.all_eq_true.mp h _ hmem
  exact of_decide_eq_true hone

/-- What is checked of the instruction at RIP: its stores, and that the pass leaves it alone. -/
def patchInsnFits (s : RunState ShadowPages) (i : Insn) : Bool :=
  storesFit ((i.run patching.fp).runOn patching.attached s.vm.cpu.clearBranch s.vm.world).trace &&
    !i.isFolded

/-- It is a jump, or comes right before one of the two. -/
def patchFlows (_ : RunState ShadowPages) (i : Insn) : Bool :=
  i.flags.controlFlow || nextRip i == 0x1FFB || nextRip i == 0x1FFE

/-- The bytes of the two jumps are as they were at the start. -/
def patchJumps (s : RunState ShadowPages) : Bool :=
  [0x1FFB, 0x1FFC, 0x1FFE, 0x1FFF].all fun a =>
    (s.vm.world.mem.codeBytes a).toOption == (patchPages.codeBytes a).toOption

/-- What is checked of a state: RIP is in the code, and the code ends with its page. -/
def patchInCode (s : RunState ShadowPages) : Bool :=
  decide (0x1FF4 ≤ s.vm.cpu.rip.toNat) && decide (s.vm.cpu.rip.toNat < 0x2000) &&
    (s.vm.world.mem.codeRanges == [⟨0x1000, 0x1000⟩]) &&
    (match s.vm.world.mem.codeBytes 0x2000 with
      | .ok _ => false
      | .error _ => true)

/-- The block at RIP ends with the page, too. -/
def patchBlockFits (s : RunState ShadowPages) : Bool :=
  (decodeBlock s.vm.world.mem.codeBytes s.vm.cpu.rip 1024).any fun r =>
    r.toOption.any fun block => decide (s.vm.cpu.rip.toNat + block.byteSize ≤ 0x2000)

/-- The check of the instruction at RIP. -/
def patchNext (check : RunState ShadowPages → Insn → Bool) (s : RunState ShadowPages) : Bool :=
  (decodeOne s.vm.world.mem.codeBytes s.vm.cpu.rip prefixFuel).any fun r =>
    r.toOption.any (check s)

/-- All that is checked of a state. -/
def patchFits (s : RunState ShadowPages) : Bool :=
  patchInCode s && patchBlockFits s && patchNext patchInsnFits s && patchNext patchFlows s &&
    patchJumps s

theorem patchState_fits :
    (patchState 5).isNone = true ∧ ∀ k < 5, (patchState k).all patchFits = true := by
  decide +kernel

theorem patch_reaches {s : RunState ShadowPages}
    (h : Loops.Reached (patching.plainLoop ShadowPages.provider 5) patchStart s) :
    ∃ k < 5, patchState k = some s := by
  have hevery : ∃ k, patchState k = some s := by
    apply h.induct ⟨0, rfl⟩
    rintro t t' _ ⟨k, hk⟩ hturn
    obtain ⟨x, hx, hout⟩ := Option.map_eq_some_iff.mp hturn
    cases x with
    | ends e => cases hout
    | goesOn s' =>
        cases hout
        refine ⟨k + 1, ?_⟩
        rw [patchState, hk, Option.bind_some, hx]
        rfl
  obtain ⟨k, hk⟩ := hevery
  refine ⟨k, ?_, hk⟩
  -- nothing comes after the fifth state
  by_contra hlate
  obtain ⟨j, rfl⟩ := Nat.exists_eq_add_of_le (not_lt.mp hlate)
  have hnone (j : Nat) : patchState (5 + j) = none := by
    induction j with
    | zero => exact Option.isNone_iff_eq_none.mp patchState_fits.1
    | succ j ih =>
        rw [← Nat.add_assoc, patchState, ih]
        rfl
  rw [hnone j] at hk
  cases hk

/-- What is checked of the five states holds wherever the run comes to. -/
structure PatchFits (s : RunState ShadowPages) : Prop where
  inCode : patchInCode s = true
  block : patchBlockFits s = true
  insn : patchNext patchInsnFits s = true
  flows : patchNext patchFlows s = true
  jumps : patchJumps s = true

theorem patch_fits {s : RunState ShadowPages}
    (hreached : Loops.Reached (patching.plainLoop ShadowPages.provider 5) patchStart s) :
    PatchFits s := by
  obtain ⟨k, hk, hs⟩ := patch_reaches hreached
  have hfits := patchState_fits.2 k hk
  rw [hs, Option.all_some] at hfits
  simp only [patchFits, Bool.and_eq_true] at hfits
  obtain ⟨⟨⟨⟨hcode, hblock⟩, hinsn⟩, hflows⟩, hjumps⟩ := hfits
  exact ⟨hcode, hblock, hinsn, hflows, hjumps⟩

/-- What the checks say of the instruction at RIP. -/
theorem patchNext_iff {check : RunState ShadowPages → Insn → Bool} {s : RunState ShadowPages}
    {i : Insn} (h : patchNext check s = true)
    (hd : decodeOne s.vm.world.mem.codeBytes s.vm.cpu.rip prefixFuel = some (.ok i)) :
    check s i = true := by
  rw [patchNext, hd] at h
  exact h

theorem straight_of_jump {mem mem' : CodeBytes} {cur : GuestAddr} {j : Insn} {insns : List Insn}
    (hjump : j.flags.controlFlow = true) (hd : decodeOne mem cur prefixFuel = some (.ok j))
    (hd' : decodeOne mem' cur prefixFuel = some (.ok j)) (h : Straight mem cur insns) :
    Straight mem' cur insns := by
  cases insns with
  | nil => trivial
  | cons i rest =>
      obtain ⟨hi, hplain, _⟩ := h
      cases hd.symm.trans hi
      cases rest with
      | nil => exact ⟨hd', fun hne => absurd rfl hne, trivial⟩
      | cons k rest =>
          have hnot := hplain (List.cons_ne_nil _ _)
          rw [hjump] at hnot
          cases hnot

theorem fair_patching : patching.Fair := by
  refine ⟨rfl, rfl, rfl, fun _ _ => rfl, ?_, ?_, ?_, ?_⟩
  · exact fun _ h => absurd h List.not_mem_nil
  · exact fun _ h => absurd h List.not_mem_nil
  · exact fun _ h => nomatch h
  · exact fun _ h => nomatch h

/-- Each of the two is a jump of two bytes. -/
theorem patchJump_decodes {a : GuestAddr} (ha : a = 0x1FFB ∨ a = 0x1FFE) :
    ∃ j, decodeOne patchPages.codeBytes a prefixFuel = some (.ok j) ∧
      j.flags.controlFlow = true ∧ j.len = 2 := by
  have hjumps : (decodeOne patchPages.codeBytes a prefixFuel).any
      (fun r => r.toOption.any fun j => j.flags.controlFlow && j.len == 2) = true := by
    rcases ha with rfl | rfl
    · decide +kernel
    · decide +kernel
  cases hd : decodeOne patchPages.codeBytes a prefixFuel with
  | none =>
      rw [hd] at hjumps
      cases hjumps
  | some r =>
      rw [hd] at hjumps
      cases r with
      | error e => cases hjumps
      | ok j =>
          have hboth : (j.flags.controlFlow && j.len == 2) = true := hjumps
          rw [Bool.and_eq_true, beq_iff_eq] at hboth
          exact ⟨j, rfl, hboth⟩

theorem patchPages_end : ∃ e, patchPages.codeBytes 0x2000 = .error e := ⟨.unmappedRead, rfl⟩

/-- The jumps stay as they are. -/
theorem patchJumps_decodes {t : RunState ShadowPages} {a : GuestAddr} {j : Insn}
    (ha : a = 0x1FFB ∨ a = 0x1FFE)
    (h : Loops.Reached (patching.plainLoop ShadowPages.provider 5) patchStart t)
    (hj : decodeOne patchPages.codeBytes a prefixFuel = some (.ok j)) (hlen : j.len = 2) :
    decodeOne t.vm.world.mem.codeBytes a prefixFuel = some (.ok j) := by
  obtain ⟨e, hend⟩ := patchPages_end
  have hfits : CountFits patchPages.codeBytes a := by
    have hstop : patchPages.codeBytes (a + BitVec.ofNat 64 (0x2000 - a.toNat)) = .error e := by
      rcases ha with rfl | rfl
      · exact hend
      · exact hend
    have hshort : 0x2000 - a.toNat ≤ 255 := by
      rcases ha with rfl | rfl
      · decide
      · decide
    exact (countFitsAlong_of_unreadable 1 hshort hstop).1
  have hbytes := (patch_fits h).jumps
  rw [patchJumps, List.all_eq_true] at hbytes
  have hbyte {b : GuestAddr} (hb : b ∈ [0x1FFB, 0x1FFC, 0x1FFE, 0x1FFF]) {v : U8}
      (hv : patchPages.codeBytes b = .ok v) : t.vm.world.mem.codeBytes b = .ok v := by
    have hsame := hbytes b hb
    rw [hv, beq_iff_eq] at hsame
    cases hread : t.vm.world.mem.codeBytes b with
    | error e' =>
        rw [hread] at hsame
        cases hsame
    | ok v' =>
        rw [hread] at hsame
        rw [Option.some.inj hsame]
  apply ((held_of_decodes hj hfits).congr ?_).decodes
  intro b v hb hv
  rw [hlen] at hb
  have hdistance : (b - a).toNat = 0 ∨ (b - a).toNat = 1 := by
    have hlt : (b - a).toNat < 2 := hb
    omega
  have hb' : b = a ∨ b = a + 1 := by
    rcases hdistance with hzero | hone
    · left
      bv_omega
    · right
      bv_omega
  apply hbyte ?_ hv
  rcases ha with rfl | rfl <;> rcases hb' with rfl | rfl <;> decide

theorem writesBehind_patching : WritesBehind patching 5 patchStart where
  decodes t hat hnone := by
    have hblock := (patch_fits hat.reached).block
    rw [patchBlockFits, hnone] at hblock
    cases hblock
  registered t block hat hdecode a ha := by
    have hcode := (patch_fits hat.reached).inCode
    have hblock := (patch_fits hat.reached).block
    rw [patchInCode] at hcode
    simp only [Bool.and_eq_true, decide_eq_true_eq, beq_iff_eq] at hcode
    rw [patchBlockFits, hdecode] at hblock
    have hend : t.vm.cpu.rip.toNat + block.byteSize ≤ 0x2000 := of_decide_eq_true hblock
    refine ⟨⟨0x1000, 0x1000⟩, by rw [hcode.1.2]; exact List.mem_singleton_self _, ?_⟩
    rw [inRange_iff_toNat (by omega)] at ha
    rw [inRange_iff_toNat (by decide)]
    have hbase : (0x1000 : GuestAddr).toNat = 0x1000 := rfl
    simp only [hbase]
    omega
  counted t hat := by
    have hcode := (patch_fits hat.reached).inCode
    rw [patchInCode] at hcode
    simp only [Bool.and_eq_true, decide_eq_true_eq, beq_iff_eq] at hcode
    obtain ⟨⟨⟨hlow, hhigh⟩, _⟩, hpage⟩ := hcode
    have hend : t.vm.cpu.rip + BitVec.ofNat 64 (0x2000 - t.vm.cpu.rip.toNat) = 0x2000 := by
      apply BitVec.eq_of_toNat_eq
      rw [BitVec.toNat_add, BitVec.toNat_ofNat]
      have hpage : (0x2000 : GuestAddr).toNat = 0x2000 := rfl
      omega
    cases hread : t.vm.world.mem.codeBytes 0x2000 with
    | ok v =>
        rw [hread] at hpage
        cases hpage
    | error e =>
        rw [← hend] at hread
        exact countFitsAlong_of_unreadable 1024 (by omega) hread
  stores i t hexec := by
    have hnext := (patch_fits hexec.reached).insn
    have hd := hexec.decoded
    rw [codeBytes_shadow] at hd
    have hfits := patchNext_iff hnext hd
    rw [patchInsnFits, Bool.and_eq_true] at hfits
    exact storesFit_iff hfits.1
  ahead i t insns hexec hfalls hplain _ hcode := by
    have hnext := (patch_fits hexec.reached).flows
    have hd := hexec.decoded
    rw [codeBytes_shadow] at hd
    have hflows := patchNext_iff hnext hd
    rw [patchFlows, hplain, Bool.false_or, Bool.or_eq_true, beq_iff_eq, beq_iff_eq] at hflows
    obtain ⟨j, hj, hjump, hlen⟩ := patchJump_decodes hflows
    have hturn := hexec.plainLoop
    rw [stepOnce_of_fallsThrough hfalls] at hturn
    have hrip : t.vm.cpu.rip = i.rip := (decodeOne_accepted hd).rip.symm
    have hafter := patchJumps_decodes hflows (hexec.reached.turn hturn) hj hlen
    have hworld := congrArg VmState.world (vm_afterInsn fair_patching hrip hfalls.passes)
    have hmem : (advance i (patching.afterInsn i t)).vm.world =
        (stepInsn patching.fp patching.attached i t.vm).world := hworld
    rw [hmem] at hafter
    have hbefore := patchJumps_decodes hflows hexec.reached hj hlen
    exact straight_of_jump hjump hbefore hafter hcode
  harmless i t hexec hfolded := by
    have hnext := (patch_fits hexec.reached).insn
    have hd := hexec.decoded
    rw [codeBytes_shadow] at hd
    have hfits := patchNext_iff hnext hd
    rw [patchInsnFits, Bool.and_eq_true, hfolded] at hfits
    cases hfits.2

end Emulator

end PicoCpu
