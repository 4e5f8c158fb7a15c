import PicoCpu.CachedRuns

/-!
Sessions: one emulator called many times, with its block cache kept from call to call. As long as
the program text is not written, every call of a session ends as it does in the plain interpreter,
however its code was cut into blocks by the calls before.
-/

namespace PicoCpu

open Handlers

/-! ### Program text -/

/-- The addresses of a program's instructions, as `image` holds them: decoding ends there, and
straight-line code stays there and out of the stub region. -/
structure ProgramText (image : CodeBytes) (code : GuestAddr → Prop) : Prop where
  decodes : ∀ a, code a → decodeOne image a prefixFuel ≠ none
  ahead : ∀ a i, code a → decodeOne image a prefixFuel = some (.ok i) →
    i.flags.controlFlow = false → code (a + BitVec.ofNat 64 i.len)
  outside : ∀ a, code a → IatStubs.inRegion a = false

/-- The memory decodes as the image does. -/
def Shows (image : CodeBytes) (code : GuestAddr → Prop) (mem : CodeBytes) : Prop :=
  ∀ a, code a → decodeOne mem a prefixFuel = decodeOne image a prefixFuel

section Text

variable {image mem : CodeBytes} {code : GuestAddr → Prop} (htext : ProgramText image code)

include htext

theorem ProgramText.straight_iff (hshows : Shows image code mem) {cur : GuestAddr}
    {insns : List Insn} (hcode : insns ≠ [] → code cur) :
    Straight mem cur insns ↔ Straight image cur insns := by
  induction insns generalizing cur with
  | nil => rfl
  | cons i rest ih =>
      have hcur := hcode (List.cons_ne_nil _ _)
      rw [Straight, Straight, hshows cur hcur]
      refine and_congr_right fun hd => and_congr_right fun hplain => ih fun hne => ?_
      exact htext.ahead cur i hcur hd (hplain hne)

theorem ProgramText.current_iff (hshows : Shows image code mem) {pc : GuestAddr} (hpc : code pc)
    (block : DecodedBlock) : Current mem pc block ↔ Current image pc block := by
  unfold Current
  simp only [htext.straight_iff hshows fun _ => hpc]

theorem ProgramText.decodeRun_ne_none (hshows : Shows image code mem) (n : Nat)
    {cur : GuestAddr} (hcur : code cur) : decodeRun mem n cur ≠ none := by
  induction n generalizing cur with
  | zero => exact Option.some_ne_none _
  | succ n ih =>
      have hends := htext.decodes cur hcur
      rw [decodeRun, hshows cur hcur]
      cases hd : decodeOne image cur prefixFuel with
      | none => exact absurd hd hends
      | some r =>
          cases r with
          | error e => exact Option.some_ne_none _
          | ok i =>
              simp only
              split
              · exact Option.some_ne_none _
              · rename_i hplain
                have hnext := ih (htext.ahead cur i hcur hd (by simpa using hplain))
                exact fun hnone => hnext (Option.map_eq_none_iff.mp hnone)

end Text

namespace Emulator

variable {σ : Type}

/-- What is cached at the program's addresses is the program's text. -/
def HoldsText (image : CodeBytes) (code : GuestAddr → Prop) (cache : BlockCache) (_ : σ) : Prop :=
  ∀ pc block, code pc → cache.lookup pc = some block → Current image pc block

/-- The plain run from `t₀` stays in the program's text, which its memory goes on showing, and
no folded instruction is executed in a state where it does something. -/
structure StaysInText (em : Emulator σ) (P : MemoryProvider σ) (maxInsns : Nat) (image : CodeBytes)
    (code : GuestAddr → Prop) (t₀ : RunState σ) : Prop where
  shows : ∀ t, Loops.Reached (em.plainLoop P maxInsns) t₀ t →
    Shows image code (codeBytes P t.vm.world.mem)
  here : ∀ t, AtCode em P maxInsns t₀ t → code t.vm.cpu.rip
  harmless : ∀ i t, Executes em P maxInsns t₀ i t → i.isFolded = true → i.Harmless t.vm.cpu

section Text

variable {em : Emulator σ} {P : MemoryProvider σ} {maxInsns : Nat} {t₀ : RunState σ}
  {image : CodeBytes} {code : GuestAddr → Prop}

theorem holdsText_heard {cache : BlockCache} {mem mem' : σ}
    (h : HoldsText image code cache mem) (e : machine.Event) :
    HoldsText image code (em.heard cache e) mem' := by
  have hshrinks (addr : GuestAddr) (size : Nat) :
      HoldsText image code (cache.invalidateRange addr size) mem' := by
    intro pc block hpc hblock
    rw [BlockCache.lookup, BlockCache.invalidateRange] at hblock
    split at hblock
    · exact h pc block hpc hblock
    · exact h pc block hpc (Option.filter_eq_some_iff.mp hblock).1
  unfold heard
  split
  · split
    · exact hshrinks _ _
    · exact h
  · exact h

theorem holdsText_cacheAfter {cache : BlockCache} {mem mem' : σ} (i : Insn) (vm : VmState σ)
    (h : HoldsText image code cache mem) : HoldsText image code (em.cacheAfter i vm cache) mem' := by
  rw [cacheAfter]
  generalize ((i.run em.fp).runOn em.attached vm.cpu vm.world).trace = events
  induction events generalizing cache with
  | nil => exact h
  | cons e rest ih => exact ih (holdsText_heard h e)

/-- Text that is not written keeps the cache current. -/
theorem upkeep_text (hfair : em.Fair) (htext : ProgramText image code)
    (hstays : StaysInText em P maxInsns image code t₀) :
    Upkeep em P maxInsns t₀ (HoldsText image code) where
  ends t cache hat _ _ := by
    have hrun := htext.decodeRun_ne_none (hstays.shows t hat.reached) 1024 (hstays.here t hat)
    exact fun hnone => hrun (Option.map_eq_none_iff.mp hnone)
  current t cache block hat hgood hlookup := by
    have hpc := hstays.here t hat
    rw [htext.current_iff (hstays.shows t hat.reached) hpc]
    exact hgood _ block hpc hlookup
  insert t cache block hat hgood hdecode := by
    intro pc block' hpc hlookup
    rw [BlockCache.lookup, BlockCache.insert] at hlookup
    rcases eq_or_ne pc t.vm.cpu.rip with rfl | hne
    · rw [Function.update_self] at hlookup
      cases hlookup
      exact (htext.current_iff (hstays.shows t hat.reached) hpc block).mp
        (current_decodeBlock hdecode)
    · rw [Function.update_of_ne hne] at hlookup
      exact hgood pc block' hpc hlookup
  execute i t cache _ hgood := holdsText_cacheAfter i _ hgood
  ahead i t insns hexec hfalls hplain _ hcode := by
    have hacc := decodeOne_accepted hexec.decoded
    have hrip : t.vm.cpu.rip = i.rip := hacc.rip.symm
    have hhere := hstays.here t hexec.toAtCode
    have hshows := hstays.shows t hexec.reached
    have hd : decodeOne image t.vm.cpu.rip prefixFuel = some (.ok i) := by
      rw [← hshows _ hhere, hexec.decoded]
    have hnext : code (nextRip i) := by
      rw [nextRip, ← hrip]
      exact htext.ahead _ i hhere hd hplain
    have hturn := hexec.plainLoop
    rw [stepOnce_of_fallsThrough hfalls] at hturn
    have hshows' := hstays.shows _ (hexec.reached.turn hturn)
    have hvm := vm_afterInsn hfair hrip hfalls.passes
    rw [← hvm]
    rw [htext.straight_iff hshows fun _ => hnext] at hcode
    exact (htext.straight_iff hshows' fun _ => hnext).mpr hcode
  outside i t hexec hfalls hplain := by
    have hacc := decodeOne_accepted hexec.decoded
    have hhere := hstays.here t hexec.toAtCode
    have hd : decodeOne image t.vm.cpu.rip prefixFuel = some (.ok i) := by
      rw [← hstays.shows t hexec.reached _ hhere, hexec.decoded]
    have hnext := htext.outside _ (htext.ahead _ i hhere hd hplain)
    have hrip : i.rip = t.vm.cpu.rip := hacc.rip
    rw [← hrip] at hnext
    intro hat
    exact absurd hat.2 (by rw [Bool.not_eq_true]; exact hnext)
  harmless := hstays.harmless
  recovery _ _ _ _ _ h := h
  faultHooks _ _ _ _ _ h := h
  stubs _ _ _ _ _ h := h

end Text

/-! ### Calls -/

/-- A call of `run`: what the host does to the machine before it, and its arguments. -/
structure Call (σ : Type) where
  prepare : VmState σ → VmState σ := fun vm => vm
  entry : GuestAddr
  maxInsns : U64

/-- The ends of the calls, one after the other, on one emulator. -/
inductive Serves (em : Emulator σ) : VmState σ → BlockCache → List (Call σ) → List (RunEnd σ) → Prop
  | done (vm : VmState σ) (cache : BlockCache) : Serves em vm cache [] []
  | call {vm : VmState σ} {cache : BlockCache} {c : Call σ} {calls : List (Call σ)} {e : RunEnd σ}
      {ends : List (RunEnd σ)} (h : em.Runs (c.prepare vm) cache c.entry c.maxInsns e)
      (hrest : Serves em e.state.vm e.state.cache calls ends) :
      Serves em vm cache (c :: calls) (e :: ends)

/-- The same in the plain interpreter. -/
inductive ServesPlainly (em : Emulator σ) (P : MemoryProvider σ) :
    VmState σ → List (Call σ) → List (RunEnd σ) → Prop
  | done (vm : VmState σ) : ServesPlainly em P vm [] []
  | call {vm : VmState σ} {c : Call σ} {calls : List (Call σ)} {e : RunEnd σ}
      {ends : List (RunEnd σ)} (h : em.RunsPlainly P (c.prepare vm) c.entry c.maxInsns e)
      (hrest : ServesPlainly em P e.state.vm calls ends) :
      ServesPlainly em P vm (c :: calls) (e :: ends)

/-- Every plain run of the session stays in the text. -/
def SessionInText (em : Emulator σ) (P : MemoryProvider σ) (image : CodeBytes)
    (code : GuestAddr → Prop) : VmState σ → List (Call σ) → Prop
  | _, [] => True
  | vm, c :: calls =>
    FairCallback c.prepare ∧
      StaysInText em P c.maxInsns.toNat image code
        (enter (c.prepare vm) (fun _ => none) c.entry) ∧
      ∀ e, em.RunsPlainly P (c.prepare vm) c.entry c.maxInsns e →
        SessionInText em P image code e.state.vm calls

section Sessions

variable {em : Emulator σ} {P : MemoryProvider σ} {image : CodeBytes} {code : GuestAddr → Prop}

theorem alike_enter {s t : VmState σ} (h : s.Like none Eq t) (cache cache' : BlockCache)
    (entry : GuestAddr) : (enter s cache entry).Alike (enter t cache' entry) := by
  have hkeeps : Cpu.Keeps none fun c => (c.unhalt.clearBranch).setRip entry :=
    Cpu.keeps_flagFree fun _ _ => rfl
  exact ⟨h.mapCpu hkeeps, rfl, rfl⟩

/-- One call, from machines in step. -/
theorem keepsUp_enter {s t : VmState σ} {cache : BlockCache} (h : s.Like none Eq t)
    (hcache : HoldsText image code cache s.world.mem) (maxInsns : Nat) (entry : GuestAddr) :
    KeepsUp em P maxInsns (enter t (fun _ => none) entry) (HoldsText image code)
      (enter s cache entry) (enter t (fun _ => none) entry) :=
  ⟨alike_enter h _ _ entry, hcache, .refl _⟩

theorem serves_iff_plainly (hread : em.attached.memRead = some P) (hfair : em.Fair)
    (htext : ProgramText image code) {calls : List (Call σ)} {s t : VmState σ}
    {cache : BlockCache} (h : s.Like none Eq t) (hcache : HoldsText image code cache s.world.mem)
    (hstays : SessionInText em P image code t calls) :
    (∀ ends, em.Serves s cache calls ends →
      ∃ ends', em.ServesPlainly P t calls ends' ∧ List.Forall₂ RunEnd.Alike ends ends') ∧
    ∀ ends', em.ServesPlainly P t calls ends' →
      ∃ ends, em.Serves s cache calls ends ∧ List.Forall₂ RunEnd.Alike ends ends' := by
  induction calls generalizing s t cache with
  | nil =>
      constructor
      · intro ends hserves
        cases hserves
        exact ⟨[], .done t, .nil⟩
      · intro ends' hserves
        cases hserves
        exact ⟨[], .done s cache, .nil⟩
  | cons c calls ih =>
      obtain ⟨hprepare, hhere, hrest⟩ := hstays
      have hup := upkeep_text hfair htext hhere
      have hlike := hprepare s t h
      obtain ⟨hforth, hback⟩ := (loop_batches hfair hup).ends_iff
        (keepsUp_enter hlike hcache c.maxInsns.toNat c.entry)
      constructor
      · intro ends hserves
        cases hserves with
        | call hruns hserved =>
            obtain ⟨f, hf, halike⟩ := hforth _ ((runs_iff hread).mp hruns)
            obtain ⟨ends', hplain, hall⟩ :=
              (ih halike.alike.state.vm halike.kept (hrest f hf)).1 _ hserved
            exact ⟨f :: ends', .call hf hplain, .cons halike.alike hall⟩
      · intro ends' hserves
        cases hserves with
        | call hruns hserved =>
            rename_i f ends'
            obtain ⟨e, he, halike⟩ := hback f hruns
            obtain ⟨ends, hcached, hall⟩ :=
              (ih halike.alike.state.vm halike.kept (hrest f hruns)).2 _ hserved
            exact ⟨e :: ends, .call ((runs_iff hread).mpr he) hcached, .cons halike.alike hall⟩

end Sessions

/-! ### A session of two calls -/

theorem fair_plain : plain.Fair where
  blockHooks := rfl
  codeHooks := rfl
  insnHooks := rfl
  fetched _ _ := rfl
  memHooks _ h := absurd h List.not_mem_nil
  faultHooks _ h := absurd h List.not_mem_nil
  recovery _ h := nomatch h
  stubs _ h := nomatch h

theorem text_hlt : ProgramText (codeBytes FakeMemory.provider hltMemory) (· = 0x1000) where
  decodes a ha := by
    subst ha
    decide +kernel
  ahead a i ha hd hplain := by
    subst ha
    have hflag : (decodeOne (codeBytes FakeMemory.provider hltMemory) 0x1000 prefixFuel).all
        (fun r => r.toOption.all fun i => i.flags.controlFlow) = true := by
      decide +kernel
    rw [hd] at hflag
    exact absurd hflag (by simpa [Except.toOption] using hplain)
  outside a ha := by
    subst ha
    decide

theorem decodeOne_hlt : ∃ i, decodeOne (codeBytes FakeMemory.provider hltMemory) 0x1000 prefixFuel =
    some (.ok i) ∧ i.handler = .opHlt ∧ i.isFolded = false := by
  have hdecode : (decodeOne (codeBytes FakeMemory.provider hltMemory) 0x1000 prefixFuel).any
      (fun r => r.toOption.any fun i => i.handler == .opHlt && !i.isFolded) = true := by
    decide +kernel
  cases hr : decodeOne (codeBytes FakeMemory.provider hltMemory) 0x1000 prefixFuel with
  | none =>
      rw [hr] at hdecode
      cases hdecode
  | some r =>
      rw [hr] at hdecode
      cases r with
      | error e => cases hdecode
      | ok i =>
          have hi : (i.handler == .opHlt && !i.isFolded) = true := hdecode
          rw [Bool.and_eq_true, beq_iff_eq, Bool.not_eq_true'] at hi
          exact ⟨i, rfl, hi.1, hi.2⟩

theorem world_afterInsn_hlt {i : Insn} (hi : i.handler = .opHlt) {s : RunState FakeMemory}
    (hrip : s.vm.cpu.rip = i.rip)
    (hpasses : (s.vm.cpu.clearBranch.execBreakpointAt i.rip).1 = false) :
    (plain.afterInsn i s).vm.world = s.vm.world := by
  have hvm : (plain.afterInsn i s).vm = stepInsn plain.fp plain.attached i s.vm :=
    vm_afterInsn fair_plain hrip hpasses
  rw [hvm, stepInsn, Insn.run, hi]
  rfl

/-- A turn at `HLT` leaves the memory, and the loop does not execute a second one. -/
theorem turn_hlt {s : RunState FakeMemory} {i : Insn} (hi : i.handler = .opHlt)
    (hrip : s.vm.cpu.rip = i.rip) :
    (plain.stepOnce i s).state.vm.world = s.vm.world ∧
      (1 ≤ (plain.stepOnce i s).state.executed ∨
        (plain.stepOnce i s).state.vm.cpu.halted = true) := by
  have hstop (s' : RunState FakeMemory) : (plain.orStop s').state = s' := by
    rw [orStop]
    split <;> rfl
  have hhalt (s' : RunState FakeMemory) : (plain.haltTurn s').state = s' := by
    have hnone (cb) (hcb : plain.recovery = some cb) : s'.vm.cpu.fault.isSet = false := by
      cases hcb
    rw [haltTurn_report hnone]
    change (plain.report s').state = s'
    rw [report]
    split <;> rfl
  rw [stepOnce]
  split
  · rw [hstop]
    exact ⟨rfl, .inr rfl⟩
  · rename_i hpasses
    have hworld := world_afterInsn_hlt hi hrip (by simpa using hpasses)
    have hcount : 1 ≤ (plain.afterInsn i s).executed := Nat.succ_le_succ (Nat.zero_le _)
    split
    · rw [hhalt]
      exact ⟨hworld, .inl hcount⟩
    · split
      · rw [hstop]
        exact ⟨hworld, .inl hcount⟩
      · rw [hstop]
        exact ⟨hworld, .inl hcount⟩

/-- Where a call of `HLT` comes to. -/
structure AtHlt (t₀ s : RunState FakeMemory) : Prop where
  mem : s.vm.world.mem = hltMemory
  spent : s = t₀ ∨ 1 ≤ s.executed ∨ s.vm.cpu.halted = true

theorem atHlt_turn {t₀ s : RunState FakeMemory} (hrip : t₀.vm.cpu.rip = 0x1000) (h : AtHlt t₀ s)
    {t : Turn FakeMemory} (hturn : plain.plainTurn FakeMemory.provider 1 s = some t) :
    AtHlt t₀ t.state := by
  rw [plainTurn] at hturn
  split at hturn
  · cases hturn
    exact h
  · rename_i hbudget
    split at hturn
    · cases hturn
      exact h
    · rename_i hrunning
      obtain rfl : s = t₀ := by
        rcases h.spent with hstart | hspent | hhalted
        · exact hstart
        · exact absurd hspent hbudget
        · exact absurd hhalted hrunning
      obtain ⟨i, hd, hi, _⟩ := decodeOne_hlt
      have hirip : i.rip = 0x1000 := (decodeOne_accepted hd).rip
      have hstep := turn_hlt hi (hrip.trans hirip.symm)
      simp only [plain, insnTurn, h.mem, hrip] at hturn
      rw [hd] at hturn
      cases hturn
      exact ⟨(congrArg World.mem hstep.1).trans h.mem, .inr hstep.2⟩

theorem session_hlt (vm : VmState FakeMemory) (hmem : vm.world.mem = hltMemory) (n : Nat) :
    SessionInText plain FakeMemory.provider (codeBytes FakeMemory.provider hltMemory) (· = 0x1000)
      vm (List.replicate n { entry := 0x1000, maxInsns := 1 }) := by
  induction n generalizing vm with
  | zero => trivial
  | succ n ih =>
      have hstart : AtHlt (enter vm (fun _ => none) 0x1000) (enter vm (fun _ => none) 0x1000) :=
        ⟨hmem, .inl rfl⟩
      have hreached (s : RunState FakeMemory)
          (h : Loops.Reached (plain.plainLoop FakeMemory.provider 1)
            (enter vm (fun _ => none) 0x1000) s) :
          AtHlt (enter vm (fun _ => none) 0x1000) s := by
        apply h.induct hstart
        intro t t' _ hat hturn
        obtain ⟨x, hx, hout⟩ := Option.map_eq_some_iff.mp hturn
        cases x with
        | ends e => cases hout
        | goesOn s' =>
            cases hout
            exact atHlt_turn rfl hat hx
      refine ⟨fun _ _ h => h, ⟨?_, ?_, ?_⟩, ?_⟩
      · intro t h a _
        rw [(hreached t h).mem]
      · intro t hat
        rcases (hreached t hat.reached).spent with rfl | hspent | hhalted
        · rfl
        · exact absurd hat.budget (Nat.not_lt.mpr hspent)
        · exact absurd (hhalted.symm.trans hat.running) (by decide)
      · intro i t hexec hfolded
        rcases (hreached t hexec.reached).spent with rfl | hspent | hhalted
        · obtain ⟨j, hd, _, hplain⟩ := decodeOne_hlt
          have hdecoded := hexec.decoded
          rw [(hreached _ hexec.reached).mem] at hdecoded
          cases hd.symm.trans hdecoded
          exact absurd hfolded (by simp [hplain])
        · exact absurd hexec.budget (Nat.not_lt.mpr hspent)
        · exact absurd (hhalted.symm.trans hexec.running) (by decide)
      · intro e hends
        obtain ⟨k, s, hgoes, hend⟩ := hends
        obtain ⟨x, hx, hout⟩ := Option.map_eq_some_iff.mp hend
        cases x with
        | goesOn s' => cases hout
        | ends e' =>
            cases hout
            exact ih _ (atHlt_turn rfl (hreached s ⟨k, hgoes⟩) hx).mem

end Emulator

end PicoCpu
