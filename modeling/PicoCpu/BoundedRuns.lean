import PicoCpu.Dispatcher
import PicoCpu.Memory.FakeMemory

/-!
How long a run is. A turn of the outer loop either executes an instruction, or halts, or
dispatches a stub; as long as no stub returns into the stub region, two turns in a row cannot
both be stubs, and the instruction budget bounds the whole run.
-/

namespace PicoCpu

/-! ### Blocks have instructions -/

theorem length_foldJccFrom (prev : Insn) (insns : List Insn) :
    (foldJccFrom prev insns).length = insns.length := by
  induction insns generalizing prev with
  | nil => rfl
  | cons i rest ih => rw [foldJccFrom, List.length_cons, ih, List.length_cons]

theorem length_peepholeBlock (insns : List Insn) :
    (peepholeBlock insns).length = insns.length := by
  cases insns with
  | nil => rfl
  | cons i rest =>
      rw [peepholeBlock, List.map_cons, foldOpaqueJcc, List.length_cons, length_foldJccFrom,
        List.length_map, List.length_cons]

/-- The loop of `decode_block` collects an instruction or has failed. -/
theorem decodeRun_ne_nil {mem : CodeBytes} {n : Nat} {pc : GuestAddr} {insns : List Insn}
    (h : decodeRun mem (n + 1) pc = some (insns, none)) : insns ≠ [] := by
  rw [decodeRun] at h
  cases hd : decodeOne mem pc prefixFuel with
  | none => rw [hd] at h; cases h
  | some r =>
      rw [hd] at h
      cases r with
      | error e => cases h
      | ok i =>
          simp only at h
          split at h
          · cases h
            exact List.cons_ne_nil _ _
          · obtain ⟨⟨rest, st⟩, _, hcons⟩ := Option.map_eq_some_iff.mp h
            cases hcons
            exact List.cons_ne_nil _ _

theorem decodeBlock_insns_ne_nil {mem : CodeBytes} {n : Nat} {pc : GuestAddr}
    {block : DecodedBlock} (h : decodeBlock mem pc (n + 1) = some (.ok block)) :
    block.insns ≠ [] := by
  obtain ⟨insns, st, hrun, hempty, rfl⟩ := decodeBlockWith_eq_ok.mp h
  intro hnil
  have hlength := length_peepholeBlock insns
  rw [show peepholeBlock insns = [] from hnil] at hlength
  obtain rfl : insns = [] := List.eq_nil_of_length_eq_zero hlength.symm
  rw [hempty rfl] at hrun
  exact decodeRun_ne_nil hrun rfl

/-! ### The cache holds decoded blocks -/

/-- Every block in the cache is what `decode_block` has made of some memory at its address. -/
def BlockCache.Decoded (cache : BlockCache) : Prop :=
  ∀ pc block, cache.lookup pc = some block →
    ∃ mem, decodeBlock mem pc 1024 = some (.ok block)

namespace BlockCache

theorem decoded_empty : Decoded fun _ => none :=
  fun _ _ h => nomatch h

theorem Decoded.insert {cache : BlockCache} (h : cache.Decoded) {mem : CodeBytes}
    {pc : GuestAddr} {block : DecodedBlock} (hblock : decodeBlock mem pc 1024 = some (.ok block)) :
    (cache.insert pc block).Decoded := by
  intro a b hb
  rw [lookup, BlockCache.insert] at hb
  rcases eq_or_ne a pc with rfl | hne
  · rw [Function.update_self] at hb
    cases hb
    exact ⟨mem, hblock⟩
  · rw [Function.update_of_ne hne] at hb
    exact h a b hb

theorem Decoded.invalidateRange {cache : BlockCache} (h : cache.Decoded) (addr : GuestAddr)
    (size : Nat) : (cache.invalidateRange addr size).Decoded := by
  intro a b hb
  rw [lookup, BlockCache.invalidateRange] at hb
  split at hb
  · exact h a b hb
  · exact h a b (Option.filter_eq_some_iff.mp hb).1

end BlockCache

namespace Emulator

variable {σ : Type} (em : Emulator σ)

theorem decoded_heard {cache : BlockCache} (h : cache.Decoded) (e : machine.Event) :
    (em.heard cache e).Decoded := by
  unfold heard
  split
  · split
    · exact h.invalidateRange _ _
    · exact h
  · exact h

theorem decoded_cacheAfter {cache : BlockCache} (h : cache.Decoded) (i : Insn)
    (vm : VmState σ) : (em.cacheAfter i vm cache).Decoded := by
  rw [cacheAfter]
  generalize ((i.run em.fp).runOn em.attached vm.cpu vm.world).trace = events
  induction events generalizing cache with
  | nil => exact h
  | cons e rest ih => exact ih (em.decoded_heard h e)

/-! ### One block -/

/-- From `s` the replay of a block has come to `s'`: no stub was dispatched, the budget was
kept, and the cache still holds decoded blocks. -/
structure Replayed (maxInsns : Nat) (s s' : RunState σ) : Prop where
  dispatched : s'.dispatched = s.dispatched
  grown : s.executed ≤ s'.executed
  budget : s'.executed ≤ maxInsns
  decoded : s.cache.Decoded → s'.cache.Decoded

/-- An instruction has been executed, or the CPU stands still. -/
def Moved (s s' : RunState σ) : Prop := s.executed < s'.executed ∨ s'.vm.cpu.halted = true

variable {em}

namespace Replayed

variable {maxInsns : Nat} {s s' s'' : RunState σ}

theorem trans (h : Replayed maxInsns s s') (h' : Replayed maxInsns s' s'') :
    Replayed maxInsns s s'' :=
  ⟨h'.dispatched.trans h.dispatched, h.grown.trans h'.grown, h'.budget,
    fun hd => h'.decoded (h.decoded hd)⟩

/-- A step that leaves the cache and the two counts alone. -/
theorem of_vm (hdispatched : s'.dispatched = s.dispatched) (hexecuted : s'.executed = s.executed)
    (hcache : s'.cache = s.cache) (hbudget : s.executed ≤ maxInsns) : Replayed maxInsns s s' :=
  ⟨hdispatched, hexecuted.ge, hexecuted.le.trans hbudget, fun hd => hcache ▸ hd⟩

end Replayed

theorem replayed_execute (em : Emulator σ) {maxInsns : Nat} (i : Insn) {s : RunState σ}
    (hbudget : s.executed < maxInsns) : Replayed maxInsns s (em.execute i s) :=
  ⟨rfl, Nat.le_succ _, hbudget, fun h => em.decoded_cacheAfter h i s.vm⟩

theorem replayed_report {maxInsns : Nat} {s : RunState σ} (hbudget : s.executed ≤ maxInsns) :
    Replayed maxInsns s (em.report s).state := by
  rw [report]
  split
  · exact .of_vm rfl rfl rfl hbudget
  · exact .of_vm rfl rfl rfl hbudget

theorem replayed_handlerHalted {maxInsns : Nat} {s : RunState σ}
    (hbudget : s.executed ≤ maxInsns) : Replayed maxInsns s (em.handlerHalted s).state := by
  unfold handlerHalted
  split
  · exact replayed_report hbudget
  · split
    · split
      · exact .of_vm rfl rfl rfl hbudget
      · rename_i vm _
        have hvm : Replayed maxInsns s { s with vm } := .of_vm rfl rfl rfl hbudget
        exact hvm.trans (replayed_report hvm.budget)
    · exact replayed_report hbudget

theorem replayed_advance {maxInsns : Nat} (i : Insn) {s : RunState σ}
    (hbudget : s.executed ≤ maxInsns) : Replayed maxInsns s (advance i s) :=
  .of_vm rfl rfl rfl hbudget

/-- The recovery callback keeps what has been executed. -/
theorem executed_of_handlerHalted {s s' : RunState σ} {b : Bool}
    (h : em.handlerHalted s = .left b s') : s'.executed = s.executed := by
  unfold handlerHalted at h
  split at h
  · cases h
  · split at h
    · split at h
      · cases h
        rfl
      · cases h
    · cases h

/-- The replay of a block spends at most the budget, whatever its instructions are. -/
theorem replayed_replayBlock (em : Emulator σ) {maxInsns : Nat} (insns : List Insn) {s : RunState σ}
    (hbudget : s.executed < maxInsns) :
    Replayed maxInsns s (em.replayBlock maxInsns insns s).state := by
  induction insns generalizing s with
  | nil => exact .of_vm rfl rfl rfl hbudget.le
  | cons i rest ih =>
      rw [replayBlock]
      split
      · exact .of_vm rfl rfl rfl hbudget.le
      · split
        · exact .of_vm rfl rfl rfl hbudget.le
        · rename_i c _
          have hannounced : Replayed maxInsns s
              (em.announce i { s with vm := { s.vm with cpu := c } }) :=
            .of_vm rfl rfl rfl hbudget.le
          have hexecuted := hannounced.trans (replayed_execute em i hbudget)
          simp only
          split
          · exact hexecuted.trans (replayed_handlerHalted hexecuted.budget)
          · split
            · exact hexecuted
            · have hadvanced := hexecuted.trans (replayed_advance i hexecuted.budget)
              split
              · exact hadvanced
              · split
                · exact hadvanced
                · exact hadvanced.trans (ih (not_le.mp ‹_›))

/-- A block with an instruction in it is not left as it was entered. -/
theorem moved_of_replayBlock {maxInsns : Nat} {insns : List Insn} (hne : insns ≠ [])
    {s s' : RunState σ} {b : Bool} (h : em.replayBlock maxInsns insns s = .left b s') :
    Moved s s' := by
  cases insns with
  | nil => exact absurd rfl hne
  | cons i rest =>
      rw [replayBlock] at h
      split at h
      · cases h
        exact .inr ‹_›
      · split at h
        · cases h
          exact .inr rfl
        · left
          simp only at h
          split at h
          · rw [executed_of_handlerHalted h]
            exact Nat.lt_succ_self _
          · split at h
            · cases h
              exact Nat.lt_succ_self _
            · split at h
              · cases h
              · split at h
                · cases h
                  exact Nat.lt_succ_self _
                · rename_i hleft
                  have hrest := replayed_replayBlock em rest (not_le.mp hleft)
                  rw [h] at hrest
                  exact Nat.lt_of_succ_le hrest.grown

/-! ### One turn -/

variable {P : MemoryProvider σ} {maxInsns : Nat} {s s' : RunState σ}

/-- What is fetched has an instruction in it. -/
theorem replayed_fetchBlock {pc : GuestAddr} {r : Except Status DecodedBlock}
    (hbudget : s.executed ≤ maxInsns) (hcache : s.cache.Decoded)
    (h : em.fetchBlock P pc s = some (r, s')) :
    Replayed maxInsns s s' ∧ s'.executed = s.executed ∧
      ∀ block, r = .ok block → block.insns ≠ [] := by
  unfold fetchBlock at h
  split at h
  · rename_i block hlookup
    cases h
    refine ⟨.of_vm rfl rfl rfl hbudget, rfl, ?_⟩
    intro b hb
    cases hb
    obtain ⟨mem, hblock⟩ := hcache pc block hlookup
    exact decodeBlock_insns_ne_nil hblock
  · obtain ⟨r', hdecode, hr⟩ := Option.map_eq_some_iff.mp h
    cases r' with
    | error e =>
        cases hr
        exact ⟨.of_vm rfl rfl rfl hbudget, rfl, fun _ hb => nomatch hb⟩
    | ok block =>
        cases hr
        refine ⟨⟨rfl, le_rfl, hbudget, fun hd => hd.insert hdecode⟩, rfl, ?_⟩
        intro b hb
        cases hb
        exact decodeBlock_insns_ne_nil hdecode

/-- The turn of a block keeps the budget; when the loop goes on, something has moved. -/
theorem replayed_blockTurn {t : Turn σ} (hbudget : s.executed < maxInsns)
    (hcache : s.cache.Decoded) (h : em.blockTurn P maxInsns s = some t) :
    Replayed maxInsns s t.state ∧ ∀ s', t = .goesOn s' → Moved s s' := by
  obtain ⟨⟨r, sFetched⟩, hfetch, ht⟩ := Option.map_eq_some_iff.mp h
  obtain ⟨hfetched, hexecuted, hne⟩ := replayed_fetchBlock hbudget.le hcache hfetch
  cases r with
  | error status =>
      cases ht
      exact ⟨hfetched, fun _ hs' => nomatch hs'⟩
  | ok block =>
      simp only at ht
      generalize hfired : sFetched.act (em.fireBlock s.vm.cpu.rip block.byteSize) = fired at ht
      have hbudget' : fired.executed < maxInsns := by
        rw [← hfired]
        exact hexecuted.trans_lt hbudget
      have hfire : Replayed maxInsns sFetched fired := by
        rw [← hfired]
        exact .of_vm rfl rfl rfl hfetched.budget
      have hreplay := hfetched.trans
        (hfire.trans (replayed_replayBlock em block.insns hbudget'))
      cases hexit : em.replayBlock maxInsns block.insns fired with
      | returned e' =>
          rw [hexit] at ht hreplay
          cases ht
          exact ⟨hreplay, fun _ hs' => nomatch hs'⟩
      | left b sLeft =>
          have hmoved := moved_of_replayBlock (hne block rfl) hexit
          rw [hexit] at ht hreplay
          simp only at ht
          split at ht
          · cases ht
            exact ⟨hreplay, fun _ hs' => nomatch hs'⟩
          · cases ht
            refine ⟨hreplay, ?_⟩
            intro s' hs'
            cases hs'
            rcases hmoved with hmore | hhalted
            · left
              calc s.executed = sFetched.executed := hexecuted.symm
                _ = fired.executed := by rw [← hfired]; rfl
                _ < sLeft.executed := hmore
            · exact .inr hhalted

/-! ### The loop -/

/-- RIP is where the loop looks for a stub. -/
def AtStub (em : Emulator σ) (s : RunState σ) : Prop :=
  em.iatStubs.isSome = true ∧ IatStubs.inRegion s.vm.cpu.rip = true

/-- What the loop relies on at the head of a turn: the decoder comes to an end on a block it
does not have yet, and a stub that returns does so to an address outside the stub region,
unless the run ends there. -/
structure Orderly (em : Emulator σ) (P : MemoryProvider σ) (s : RunState σ) : Prop where
  decodes : ¬ em.AtStub s → s.cache.lookup s.vm.cpu.rip = none →
    decodeBlock (codeBytes P s.vm.world.mem) s.vm.cpu.rip 1024 ≠ none
  leaves : ∀ stubs vm, em.iatStubs = some stubs → em.AtStub s →
    stubs.dispatch em.attached s.vm.cpu.rip s.vm = (true, vm) →
      IatStubs.inRegion vm.cpu.rip = false ∨ em.isStop vm.cpu.rip = true ∨
        vm.cpu.halted = true

/-- The states at the head of the turns of a run. -/
inductive Reaches (em : Emulator σ) (P : MemoryProvider σ) (maxInsns : Nat) (s : RunState σ) :
    RunState σ → Prop
  | start : Reaches em P maxInsns s s
  | turn {s' s'' : RunState σ} (h : Reaches em P maxInsns s s')
      (hturn : em.turn P maxInsns s' = some (.goesOn s'')) : Reaches em P maxInsns s s''

/-- What the next turn counts: a stub may come before a block. -/
def nextTurn (s : RunState σ) : Nat :=
  if s.vm.cpu.halted then 0 else if IatStubs.inRegion s.vm.cpu.rip then 2 else 1

/-- How much of a run is still to come: three for each instruction of the budget, and what the
next turn counts. -/
def toGo (maxInsns : Nat) (s : RunState σ) : Nat :=
  3 * (maxInsns - s.executed) + nextTurn s

theorem nextTurn_le (s : RunState σ) : nextTurn s ≤ 2 := by
  rw [nextTurn]
  split
  · exact Nat.zero_le 2
  · split
    · exact le_rfl
    · exact Nat.le_succ 1

theorem nextTurn_pos (hrunning : s.vm.cpu.halted = false) : 0 < nextTurn s := by
  rw [nextTurn, if_neg (by rw [hrunning]; exact Bool.false_ne_true)]
  split
  · exact Nat.zero_lt_two
  · exact Nat.one_pos

theorem nextTurn_halted (hhalted : s.vm.cpu.halted = true) : nextTurn s = 0 := by
  rw [nextTurn, if_pos hhalted]

/-- Every stub so far was followed by an instruction, except for a last one that has come
back from the region. -/
structure Balanced (maxInsns : Nat) (s : RunState σ) : Prop where
  budget : s.executed ≤ maxInsns
  decoded : s.cache.Decoded
  dispatched : s.dispatched ≤ s.executed ∨
    (s.dispatched = s.executed + 1 ∧
      (IatStubs.inRegion s.vm.cpu.rip = false ∨ s.vm.cpu.halted = true))

/-- The bound at the end of a run. -/
def Bounded (maxInsns : Nat) (e : RunEnd σ) : Prop :=
  e.state.executed ≤ maxInsns ∧ e.state.dispatched ≤ e.state.executed + 1

theorem Balanced.bounded (h : Balanced maxInsns s) : Bounded maxInsns s.finish := by
  refine ⟨h.budget, ?_⟩
  rcases h.dispatched with hle | ⟨heq, _⟩
  · exact Nat.le_succ_of_le hle
  · exact heq.le

/-- A block turn after which the loop goes on uses up an instruction or halts. -/
theorem Balanced.block (h : Balanced maxInsns s) (hreplayed : Replayed maxInsns s s')
    (hmoved : Moved s s') : Balanced maxInsns s' := by
  have hgrown := hreplayed.grown
  refine ⟨hreplayed.budget, hreplayed.decoded h.decoded, ?_⟩
  rw [hreplayed.dispatched]
  rcases hmoved with hmore | hhalted
  · rcases h.dispatched with hle | ⟨heq, _⟩
    · exact .inl (hle.trans hgrown)
    · exact .inl (by omega)
  · rcases h.dispatched with hle | ⟨heq, _⟩
    · exact .inl (hle.trans hgrown)
    · rcases hgrown.lt_or_eq with hlt | hsame
      · exact .inl (by omega)
      · exact .inr ⟨by omega, .inr hhalted⟩

theorem toGo_block (hrunning : s.vm.cpu.halted = false) (hreplayed : Replayed maxInsns s s')
    (hmoved : Moved s s') : toGo maxInsns s' < toGo maxInsns s := by
  have hgrown := hreplayed.grown
  have hbudget := hreplayed.budget
  have hpos := nextTurn_pos hrunning
  have hle := nextTurn_le s'
  rw [toGo, toGo]
  rcases hmoved with hmore | hhalted
  · omega
  · rw [nextTurn_halted hhalted]
    omega

/-- No stub is dispatched twice in a row. -/
theorem Balanced.atStub (h : Balanced maxInsns s) (hat : em.AtStub s)
    (hrunning : s.vm.cpu.halted = false) : s.dispatched ≤ s.executed := by
  rcases h.dispatched with hle | ⟨_, houtside | hhalted⟩
  · exact hle
  · rw [hat.2] at houtside
    cases houtside
  · rw [hrunning] at hhalted
    cases hhalted

/-- The state a stub turn leaves. -/
def afterStub (em : Emulator σ) (stubs : IatStubs σ) (s : RunState σ) : RunState σ :=
  { s.act (fun vm => (stubs.dispatch em.attached s.vm.cpu.rip vm).2) with
    dispatched := s.dispatched + 1 }

theorem stub_bounded (stubs : IatStubs σ) (hat : em.AtStub s)
    (hrunning : s.vm.cpu.halted = false) (h : Balanced maxInsns s) :
    (em.afterStub stubs s).executed ≤ maxInsns ∧
      (em.afterStub stubs s).dispatched ≤ (em.afterStub stubs s).executed + 1 :=
  ⟨h.budget, Nat.succ_le_succ (h.atStub hat hrunning)⟩

theorem stub_ends {stubs : IatStubs σ} {e : RunEnd σ} (hat : em.AtStub s)
    (hrunning : s.vm.cpu.halted = false) (h : Balanced maxInsns s)
    (hturn : em.stubTurn stubs s = .ends e) : Bounded maxInsns e := by
  have hbounded := stub_bounded stubs hat hrunning h
  rw [stubTurn] at hturn
  split at hturn
  · split at hturn
    · cases hturn
      exact hbounded
    · cases hturn
  · cases hturn
    exact hbounded

/-- A stub turn after which the loop goes on has left the region, or halts. -/
theorem stub_goesOn {stubs : IatStubs σ} (hstubs : em.iatStubs = some stubs)
    (horderly : em.Orderly P s) (hat : em.AtStub s) (hrunning : s.vm.cpu.halted = false)
    (h : Balanced maxInsns s) (hturn : em.stubTurn stubs s = .goesOn s') :
    Balanced maxInsns s' ∧ toGo maxInsns s' < toGo maxInsns s := by
  have hdispatched := h.atStub hat hrunning
  rw [stubTurn] at hturn
  split at hturn
  · rename_i hreturned
    split at hturn
    · cases hturn
    · rename_i hstop
      obtain rfl : em.afterStub stubs s = s' := Turn.goesOn.inj hturn
      have hleft : IatStubs.inRegion (em.afterStub stubs s).vm.cpu.rip = false ∨
          (em.afterStub stubs s).vm.cpu.halted = true := by
        rcases horderly.leaves stubs _ hstubs hat (Prod.ext hreturned rfl) with
          houtside | hstopped | hhalted
        · exact .inl houtside
        · exact absurd hstopped hstop
        · exact .inr hhalted
      constructor
      · refine ⟨h.budget, h.decoded, ?_⟩
        rcases hdispatched.lt_or_eq with hlt | heq
        · exact .inl hlt
        · exact .inr ⟨congrArg (· + 1) heq, hleft⟩
      · have hnow : nextTurn s = 2 := by
          rw [nextTurn, if_neg (by rw [hrunning]; exact Bool.false_ne_true), if_pos hat.2]
        have hnext : nextTurn (em.afterStub stubs s) ≤ 1 := by
          rw [nextTurn]
          rcases hleft with houtside | hhalted
          · rw [houtside]
            split
            · exact Nat.zero_le 1
            · exact le_rfl
          · rw [if_pos hhalted]
            exact Nat.zero_le 1
        calc toGo maxInsns (em.afterStub stubs s)
            = 3 * (maxInsns - s.executed) + nextTurn (em.afterStub stubs s) := rfl
          _ < 3 * (maxInsns - s.executed) + nextTurn s := by omega
  · cases hturn

theorem fetchBlock_ne_none (hat : ¬ em.AtStub s) (horderly : em.Orderly P s) :
    em.fetchBlock P s.vm.cpu.rip s ≠ none := by
  have hdecodes := horderly.decodes hat
  unfold fetchBlock
  split
  · exact Option.some_ne_none _
  · exact fun hnone => hdecodes ‹_› (Option.map_eq_none_iff.mp hnone)

/-- A turn that is not a stub's is a block's. -/
theorem turn_eq (em : Emulator σ) (P : MemoryProvider σ) (hbudget : s.executed < maxInsns)
    (hrunning : s.vm.cpu.halted = false) :
    (∃ stubs, em.iatStubs = some stubs ∧ em.AtStub s ∧
      em.turn P maxInsns s = some (em.stubTurn stubs s)) ∨
      (¬ em.AtStub s ∧ em.turn P maxInsns s = em.blockTurn P maxInsns s) := by
  rw [turn, if_neg (not_le.mpr hbudget), if_neg (by rw [hrunning]; exact Bool.false_ne_true)]
  cases hstubs : em.iatStubs with
  | none =>
      right
      refine ⟨fun hat => ?_, rfl⟩
      rw [AtStub, hstubs] at hat
      cases hat.1
  | some stubs =>
      by_cases hregion : IatStubs.inRegion s.vm.cpu.rip = true
      · exact .inl ⟨stubs, rfl, ⟨by rw [hstubs]; rfl, hregion⟩, if_pos hregion⟩
      · exact .inr ⟨fun hat => hregion hat.2, if_neg hregion⟩

/-- A turn of the loop: it ends the run within the bound, or leaves less to come. -/
theorem turn_cases (hrunning : s.executed < maxInsns → s.vm.cpu.halted = false → em.Orderly P s)
    (h : Balanced maxInsns s) :
    (∃ e, em.turn P maxInsns s = some (.ends e) ∧ Bounded maxInsns e) ∨
      ∃ s', em.turn P maxInsns s = some (.goesOn s') ∧ Balanced maxInsns s' ∧
        toGo maxInsns s' < toGo maxInsns s := by
  by_cases hbudget : s.executed < maxInsns
  · cases hhalted : s.vm.cpu.halted with
    | true =>
        left
        refine ⟨s.finish, ?_, h.bounded⟩
        rw [turn, if_neg (not_le.mpr hbudget), if_pos hhalted]
    | false =>
        have hs := hrunning hbudget hhalted
        rcases turn_eq em P hbudget hhalted with
          ⟨stubs, hstubs, hat, hturn⟩ | ⟨hat, hturn⟩
        · rw [hturn]
          cases hstub : em.stubTurn stubs s with
          | ends e => exact .inl ⟨e, rfl, stub_ends hat hhalted h hstub⟩
          | goesOn s' =>
              exact .inr ⟨s', rfl, stub_goesOn hstubs hs hat hhalted h hstub⟩
        · rw [hturn]
          obtain ⟨fetched, hfetched⟩ :=
            Option.ne_none_iff_exists'.mp (fetchBlock_ne_none hat hs)
          obtain ⟨t, ht⟩ : ∃ t, em.blockTurn P maxInsns s = some t :=
            ⟨_, by rw [blockTurn, hfetched]; rfl⟩
          rw [ht]
          obtain ⟨hreplayed, hmoved⟩ := replayed_blockTurn hbudget h.decoded ht
          cases t with
          | ends e =>
              have hended : Replayed maxInsns s e.state := hreplayed
              have hgrown := hended.grown
              refine .inl ⟨e, rfl, hended.budget, ?_⟩
              rw [hended.dispatched]
              rcases h.dispatched with hle | ⟨heq, _⟩
              · omega
              · omega
          | goesOn s' =>
              have hmoved := hmoved s' rfl
              exact .inr ⟨s', rfl, h.block hreplayed hmoved, toGo_block hhalted hreplayed hmoved⟩
  · left
    refine ⟨s.finish, ?_, h.bounded⟩
    rw [turn, if_pos (not_lt.mp hbudget)]

/-- A run whose turns are orderly ends within the bound. -/
theorem turns_bounded (s₀ : RunState σ)
    (horderly : ∀ s, em.Reaches P maxInsns s₀ s → s.executed < maxInsns →
      s.vm.cpu.halted = false → em.Orderly P s)
    (hreach : em.Reaches P maxInsns s₀ s) (h : Balanced maxInsns s) :
    ∃ fuel e, em.turns P maxInsns fuel s = some e ∧ Bounded maxInsns e := by
  induction hn : toGo maxInsns s using Nat.strong_induction_on generalizing s with
  | _ n ih =>
      subst hn
      rcases turn_cases (horderly s hreach) h with ⟨e, hturn, hbounded⟩ | ⟨s', hturn, hnext, hless⟩
      · exact ⟨1, e, by rw [turns, hturn], hbounded⟩
      · obtain ⟨fuel, e, hends, hbounded⟩ := ih _ hless (hreach.turn hturn) hnext rfl
        exact ⟨fuel + 1, e, by rw [turns, hturn]; exact hends, hbounded⟩

theorem cache_stubTurn (stubs : IatStubs σ) (s : RunState σ) :
    (em.stubTurn stubs s).state.cache = s.cache := by
  rw [stubTurn]
  split
  · split
    · rfl
    · rfl
  · rfl

theorem decoded_turn {t : Turn σ} (hcache : s.cache.Decoded)
    (h : em.turn P maxInsns s = some t) : t.state.cache.Decoded := by
  by_cases hrunning : s.executed < maxInsns ∧ s.vm.cpu.halted = false
  · rcases turn_eq em P hrunning.1 hrunning.2 with
      ⟨stubs, _, _, hturn⟩ | ⟨_, hturn⟩
    · obtain rfl : em.stubTurn stubs s = t := Option.some.inj (hturn.symm.trans h)
      rw [cache_stubTurn]
      exact hcache
    · exact (replayed_blockTurn hrunning.1 hcache (hturn.symm.trans h)).1.decoded hcache
  · rw [turn] at h
    split at h
    · cases h
      exact hcache
    · rename_i hbudget
      rw [if_pos] at h
      · cases h
        exact hcache
      · by_contra hhalted
        exact hrunning ⟨not_le.mp hbudget, Bool.eq_false_iff.mpr hhalted⟩

/-- The cache a run leaves still holds decoded blocks. -/
theorem decoded_of_turns {fuel : Nat} {e : RunEnd σ} (hcache : s.cache.Decoded)
    (h : em.turns P maxInsns fuel s = some e) : e.state.cache.Decoded := by
  induction fuel generalizing s with
  | zero => cases h
  | succ fuel ih =>
      rw [turns] at h
      cases hturn : em.turn P maxInsns s with
      | none =>
          rw [hturn] at h
          cases h
      | some t =>
          have hnext := decoded_turn hcache hturn
          rw [hturn] at h
          cases t with
          | ends e' =>
              cases h
              exact hnext
          | goesOn s' => exact ih hnext h

/-- A run of `run_with_cpu` ends, and executes at most `max_insns` instructions and dispatches
at most one stub more than that, when no stub returns into the stub region and every decode
comes to an end. -/
theorem run_bounded (em : Emulator σ) (vm : VmState σ) (cache : BlockCache) (entry : GuestAddr)
    (maxInsns : U64) (hcache : cache.Decoded)
    (horderly : ∀ P s, em.attached.memRead = some P →
      em.Reaches P maxInsns.toNat (enter vm cache entry) s →
        s.executed < maxInsns.toNat → s.vm.cpu.halted = false → em.Orderly P s) :
    ∃ e, em.Runs vm cache entry maxInsns e ∧
      e.state.executed + e.state.dispatched ≤ 2 * maxInsns.toNat + 1 := by
  cases hread : em.attached.memRead with
  | none =>
      refine ⟨_, ⟨0, by rw [runWithCpu, hread]⟩, ?_⟩
      exact Nat.zero_le _
  | some P =>
      have hstart : Balanced maxInsns.toNat (enter vm cache entry) :=
        ⟨Nat.zero_le _, hcache, .inl le_rfl⟩
      obtain ⟨fuel, e, hends, hexecuted, hdispatched⟩ :=
        turns_bounded (enter vm cache entry) (horderly P · hread) .start hstart
      refine ⟨e, ⟨fuel, by rw [runWithCpu, hread]; exact hends⟩, ?_⟩
      omega

/-! ### Two runs -/

/-- The state the loop goes on in. -/
def Turn.next : Turn σ → Option (RunState σ)
  | .ends _ => none
  | .goesOn s => some s

/-- `HLT` at 0x1000, and its address on the stack at 0x2000. -/
def stubMemory : FakeMemory where
  regions := [⟨0x1000, [0xF4], by decide⟩, ⟨0x2000, [0x00, 0x10, 0, 0, 0, 0, 0, 0], by decide⟩]
  disjoint := by
    refine List.pairwise_pair.mpr (FakeRegion.disjoint_of_not_overlaps ?_)
    decide

/-- One import without a handler. -/
def oneStub : Emulator FakeMemory where
  fp := default
  attached := { memRead := some FakeMemory.provider, memWrite := none }
  iatStubs := some { entries := [⟨"kernel32.dll", "Sleep"⟩] }

/-- The call has just been made. -/
def oneStubStart : RunState FakeMemory :=
  enter ⟨({} : Cpu).setR64 Reg.rsp 0x2000, { mem := stubMemory }⟩ (fun _ => none)
    IatStubs.kStubBase

theorem oneStub_reaches {s : RunState FakeMemory}
    (h : oneStub.Reaches FakeMemory.provider 1 oneStubStart s) :
    s = oneStubStart ∨
      ((oneStub.turn FakeMemory.provider 1 oneStubStart).bind Turn.next) = some s := by
  have hsecond : (((oneStub.turn FakeMemory.provider 1 oneStubStart).bind Turn.next).bind
      fun s => (oneStub.turn FakeMemory.provider 1 s).bind Turn.next).isNone = true := by
    decide +kernel
  induction h with
  | start => exact .inl rfl
  | turn h hturn ih =>
      rcases ih with rfl | hfirst
      · right
        rw [hturn]
        rfl
      · rw [hfirst, Option.bind_some, hturn] at hsecond
        cases hsecond

theorem run_bounded_oneStub :
    ∃ e, oneStub.Runs oneStubStart.vm (fun _ => none) IatStubs.kStubBase 1 e ∧
      e.state.executed + e.state.dispatched ≤ 3 := by
  refine run_bounded oneStub _ _ _ 1 BlockCache.decoded_empty ?_
  intro P s hP hreach _ _
  cases hP
  rcases oneStub_reaches hreach with rfl | hfirst
  · constructor
    · intro hat
      exact absurd ⟨rfl, by decide⟩ hat
    · intro stubs vm hstubs _ hdispatch
      cases hstubs
      left
      obtain rfl := congrArg Prod.snd hdispatch
      decide +kernel
  · have hnext : ((oneStub.turn FakeMemory.provider 1 oneStubStart).bind Turn.next).all (fun s =>
        !IatStubs.inRegion s.vm.cpu.rip &&
          (decodeBlock (codeBytes FakeMemory.provider s.vm.world.mem) s.vm.cpu.rip 1024).isSome) =
        true := by
      decide +kernel
    rw [hfirst, Option.all_some, Bool.and_eq_true, Bool.not_eq_true'] at hnext
    constructor
    · intro _ _
      exact Option.isSome_iff_ne_none.mp hnext.2
    · intro _ _ _ hat
      exact absurd hat.2 (Bool.eq_false_iff.mp hnext.1)

/-- The address of the first stub, on the stack at 0x2000. -/
def stubChain : FakeMemory where
  regions := [⟨0x2000, [0, 0, 0, 0xF0, 0xFE, 0x7F, 0, 0], by decide⟩]

/-- The import's handler resets the stack pointer. -/
def stackStubs : IatStubs FakeMemory where
  entries := [⟨"ntdll.dll", "RtlRestoreContext"⟩]
  defaultStub := some fun _ _ vm => vm.mapCpu fun c => c.setR64 Reg.rsp 0x2000

def stubLoop : Emulator FakeMemory where
  fp := default
  attached := { memRead := some FakeMemory.provider, memWrite := none }
  iatStubs := some stackStubs

theorem popRet_stubLoop (vm : VmState FakeMemory) (hrsp : vm.cpu.r Reg.rsp = 0x2000)
    (hmem : vm.world.mem = stubChain) :
    (vm.popRet stubLoop.attached).1 = true ∧
      (vm.popRet stubLoop.attached).2.cpu.rip = IatStubs.kStubBase ∧
      (vm.popRet stubLoop.attached).2.cpu.halted = vm.cpu.halted ∧
      (vm.popRet stubLoop.attached).2.world.mem = stubChain := by
  have hstatus : (stubChain.read 0x2000 8 fun _ => 0).1 = .ok () := by decide +kernel
  have htarget : loadLE (stubChain.read 0x2000 8 fun _ => 0).2 8 = IatStubs.kStubBase := by
    decide +kernel
  have hread : FakeMemory.provider.read (vm.cpu.r Reg.rsp) 8 (fun _ => 0) vm.world.mem =
      (.ok (), (stubChain.read 0x2000 8 fun _ => 0).2, stubChain) := by
    rw [hrsp, hmem, ← hstatus]
    rfl
  have hpop : vm.popRet stubLoop.attached =
      (true, { cpu := (vm.cpu.setR64 Reg.rsp (vm.cpu.r Reg.rsp + 8)).setRip IatStubs.kStubBase
               world := { vm.world with mem := stubChain } }) := by
    unfold VmState.popRet
    simp only [stubLoop, hread, htarget]
  rw [hpop]
  exact ⟨rfl, rfl, rfl, rfl⟩

theorem dispatch_stackStubs (at_ : Attached FakeMemory) (vm : VmState FakeMemory) :
    stackStubs.dispatch at_ IatStubs.kStubBase vm =
      (vm.mapCpu fun c => c.setR64 Reg.rsp 0x2000).popRet at_ := by
  rw [IatStubs.dispatch, if_neg (by decide)]
  rfl

theorem turn_stubLoop {s : RunState FakeMemory} (hrip : s.vm.cpu.rip = IatStubs.kStubBase)
    (hrunning : s.vm.cpu.halted = false) (hbudget : s.executed < 1)
    (hmem : s.vm.world.mem = stubChain) :
    ∃ s', stubLoop.turn FakeMemory.provider 1 s = some (.goesOn s') ∧
      s'.vm.cpu.rip = IatStubs.kStubBase ∧ s'.vm.cpu.halted = false ∧ s'.executed < 1 ∧
      s'.vm.world.mem = stubChain := by
  obtain ⟨hreturned, hback, hhalted, hkept⟩ :=
    popRet_stubLoop (s.vm.mapCpu fun c => c.setR64 Reg.rsp 0x2000) rfl hmem
  rw [← dispatch_stackStubs, ← hrip] at hreturned hback hhalted hkept
  rcases turn_eq stubLoop FakeMemory.provider hbudget hrunning with
    ⟨stubs, hstubs, _, hturn⟩ | ⟨hat, _⟩
  · cases hstubs
    refine ⟨stubLoop.afterStub stackStubs s, ?_, hback.trans hrip, hhalted.trans hrunning,
      hbudget, hkept⟩
    rw [hturn, stubTurn, if_pos hreturned, if_neg (by rw [isStop]; exact Bool.false_ne_true)]
    rfl
  · exact absurd ⟨rfl, by rw [hrip]; decide⟩ hat

/-- No function of the budget bounds every run. -/
theorem stub_chain_unbounded :
    ¬ ∃ f : Nat → Nat, ∀ (em : Emulator FakeMemory) (vm : VmState FakeMemory)
      (cache : BlockCache) (entry : GuestAddr) (maxInsns : U64), cache.Decoded →
        ∃ e, em.Runs vm cache entry maxInsns e ∧
          e.state.executed + e.state.dispatched ≤ f maxInsns.toNat := by
  rintro ⟨f, hbounded⟩
  obtain ⟨e, ⟨fuel, hrun⟩, _⟩ := hbounded stubLoop ⟨{}, { mem := stubChain }⟩ (fun _ => none)
    IatStubs.kStubBase 1 BlockCache.decoded_empty
  have hnone : ∀ (fuel : Nat) (s : RunState FakeMemory), s.vm.cpu.rip = IatStubs.kStubBase →
      s.vm.cpu.halted = false → s.executed < 1 → s.vm.world.mem = stubChain →
        stubLoop.turns FakeMemory.provider 1 fuel s = none := by
    intro fuel
    induction fuel with
    | zero => exact fun _ _ _ _ _ => rfl
    | succ fuel ih =>
        intro s hrip hrunning hbudget hmem
        obtain ⟨s', hturn, hrip', hrunning', hbudget', hmem'⟩ :=
          turn_stubLoop hrip hrunning hbudget hmem
        rw [turns, hturn]
        exact ih s' hrip' hrunning' hbudget' hmem'
  have hends : stubLoop.turns FakeMemory.provider 1 fuel
      (enter ⟨{}, { mem := stubChain }⟩ (fun _ => none) IatStubs.kStubBase) = some e := hrun
  rw [hnone fuel _ rfl rfl Nat.one_pos rfl] at hends
  cases hends

end Emulator

end PicoCpu
