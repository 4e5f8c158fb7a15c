import PicoCpu.AccessSizes.Handlers
import PicoCpu.Sessions

/-!
One dispatcher over two memories. A provider serves as another one does when it answers every
access of a handler or of the decoder alike and keeps its state in step. No handler asks for more
than 64 bytes, so emulators over two such providers, with callbacks that keep the states in step,
take their turns one for one and end alike.
-/

namespace PicoCpu

open Handlers

variable {σ τ : Type}

/-- The provider answers accesses of at most 64 bytes as `Q` does; `W` is how its states go with
those of `Q`. What a read leaves in the buffer is compared where it returns Ok. -/
structure MemoryProvider.ServesAs (W : σ → τ → Prop) (P : MemoryProvider σ)
    (Q : MemoryProvider τ) : Prop where
  readStatus : ∀ addr size s t, size ≤ 64 → W s t →
    (P.read addr size (fun _ => 0) s).1 = (Q.read addr size (fun _ => 0) t).1
  readBytes : ∀ addr size s t, size ≤ 64 → W s t →
    (Q.read addr size (fun _ => 0) t).1 = .ok () →
      (P.read addr size (fun _ => 0) s).2.1 = (Q.read addr size (fun _ => 0) t).2.1
  readState : ∀ addr size s t, size ≤ 64 → W s t →
    W (P.read addr size (fun _ => 0) s).2.2 (Q.read addr size (fun _ => 0) t).2.2
  writeStatus : ∀ addr size data s t, size ≤ 64 → W s t →
    (P.write addr size data s).1 = (Q.write addr size data t).1
  writeState : ∀ addr size data s t, size ≤ 64 → W s t →
    W (P.write addr size data s).2 (Q.write addr size data t).2

/-- The memories go together, and the host's counters are the same. -/
structure World.Over (W : σ → τ → Prop) (w : World σ) (w' : World τ) : Prop where
  mem : W w.mem w'.mem
  tsc : w.tsc = w'.tsc
  rand : w.rand = w'.rand

/-- The same CPU over memories that go together. -/
structure VmState.Over (W : σ → τ → Prop) (s : VmState σ) (t : VmState τ) : Prop where
  cpu : s.cpu = t.cpu
  world : s.world.Over W t.world

/-- The two callbacks keep machines together. -/
def Together (W : σ → τ → Prop) (f : VmState σ → VmState σ) (f' : VmState τ → VmState τ) : Prop :=
  ∀ s t, s.Over W t → (f s).Over W (f' t)

structure Attached.Together (W : σ → τ → Prop) (at_ : Attached σ) (at' : Attached τ) : Prop where
  memRead : Option.Rel (MemoryProvider.ServesAs W) at_.memRead at'.memRead
  memWrite : Option.Rel (MemoryProvider.ServesAs W) at_.memWrite at'.memWrite
  readHooks : at_.readHooks = at'.readHooks
  writeHooks : at_.writeHooks = at'.writeHooks

/-! ### Handlers -/

section Env

variable {W : σ → τ → Prop} {at_ : Attached σ} {at' : Attached τ}

theorem World.Over.withMem {w : World σ} {w' : World τ} (h : w.Over W w') {mem : σ} {mem' : τ}
    (hmem : W mem mem') : World.Over W { w with mem } { w' with mem := mem' } :=
  ⟨hmem, h.tsc, h.rand⟩

/-- A buffer is only kept where the read has returned Ok. -/
theorem MemoryProvider.ServesAs.answer {P : MemoryProvider σ} {Q : MemoryProvider τ}
    (h : P.ServesAs W Q) (addr : GuestAddr) {size : Nat} (hsize : size ≤ 64) {s : σ} {t : τ}
    (hst : W s t) :
    ((P.read addr size (fun _ => 0) s).1.map fun _ => (P.read addr size (fun _ => 0) s).2.1) =
      (Q.read addr size (fun _ => 0) t).1.map fun _ =>
        (Q.read addr size (fun _ => 0) t).2.1 := by
  rw [h.readStatus addr size s t hsize hst]
  cases hstatus : (Q.read addr size (fun _ => 0) t).1 with
  | error e => rfl
  | ok u => exact congrArg Except.ok (h.readBytes addr size s t hsize hst hstatus)

/-- A handler cannot tell the two environments apart. -/
theorem Attached.Together.matches (h : at_.Together W at') :
    Prog.Matches MachineOp.Narrow (World.Over W) at_.env at'.env where
  answer o w w' ho hw := by
    have hread := h.memRead
    have hwrite := h.memWrite
    cases o with
    | attached isWrite =>
        simp only [Attached.env]
        generalize at_.memRead = P, at'.memRead = Q at hread
        generalize at_.memWrite = P', at'.memWrite = Q' at hwrite
        cases isWrite with
        | false => cases hread <;> rfl
        | true => cases hwrite <;> rfl
    | read addr size =>
        simp only [Attached.env]
        generalize at_.memRead = P, at'.memRead = Q at hread
        cases hread with
        | none => rfl
        | some hserves => exact hserves.answer addr ho hw.mem
    | write addr size data =>
        simp only [Attached.env]
        generalize at_.memWrite = P, at'.memWrite = Q at hwrite
        cases hwrite with
        | none => rfl
        | some hserves => exact hserves.writeStatus addr size data _ _ ho hw.mem
    | memHooks addr size value isWrite =>
        simp only [Attached.env, h.readHooks, h.writeHooks]
        rfl
    | nextTsc => exact congrArg (· + 1) hw.tsc
    | nextRand =>
        simp only [Attached.env, hw.rand]
  world o w w' ho hw := by
    have hread := h.memRead
    have hwrite := h.memWrite
    cases o with
    | attached isWrite => exact hw
    | read addr size =>
        simp only [Attached.env]
        generalize at_.memRead = P, at'.memRead = Q at hread
        cases hread with
        | none => exact hw
        | some hserves => exact hw.withMem (hserves.readState addr size _ _ ho hw.mem)
    | write addr size data =>
        simp only [Attached.env]
        generalize at_.memWrite = P, at'.memWrite = Q at hwrite
        cases hwrite with
        | none => exact hw
        | some hserves => exact hw.withMem (hserves.writeState addr size data _ _ ho hw.mem)
    | memHooks addr size value isWrite => exact hw
    | nextTsc => exact ⟨hw.mem, congrArg (· + 1) hw.tsc, hw.rand⟩
    | nextRand => exact ⟨hw.mem, hw.tsc, congrArg randStep hw.rand⟩

theorem Insn.Narrow.runOn {i : Insn} (hi : i.Narrow) (fp : HostFp) (h : at_.Together W at')
    {s : VmState σ} {t : VmState τ} (hst : s.Over W t) :
    ((i.run fp).runOn at_ s.cpu s.world).value = ((i.run fp).runOn at' t.cpu t.world).value ∧
      ((i.run fp).runOn at_ s.cpu s.world).world.Over W
        ((i.run fp).runOn at' t.cpu t.world).world ∧
        ((i.run fp).runOn at_ s.cpu s.world).trace =
          ((i.run fp).runOn at' t.cpu t.world).trace := by
  rw [hst.cpu]
  exact ((NarrowAccess.callHandler fp i.handler hi).asks t.cpu).exec h.matches hst.world

end Env

/-! ### Blocks of narrow instructions -/

theorem Insn.Narrow.fold {i : Insn} (h : i.Narrow) : i.fold.Narrow := by
  unfold Insn.fold
  split
  · exact ⟨h.opSize, h.scale⟩
  · exact h

theorem Insn.Narrow.foldJcc {prev i : Insn} (h : i.Narrow) : (foldJcc prev i).Narrow := by
  unfold PicoCpu.foldJcc
  split
  · exact ⟨h.opSize, h.scale⟩
  · exact h

theorem narrow_foldJccFrom {insns : List Insn} (h : ∀ i ∈ insns, i.Narrow) (prev : Insn) :
    ∀ i ∈ foldJccFrom prev insns, i.Narrow := by
  induction insns generalizing prev with
  | nil => simp [foldJccFrom]
  | cons j rest ih =>
      obtain ⟨hj, hrest⟩ := List.forall_mem_cons.mp h
      rw [foldJccFrom]
      exact List.forall_mem_cons.mpr ⟨hj.foldJcc, ih hrest _⟩

theorem narrow_peepholeBlock {insns : List Insn} (h : ∀ i ∈ insns, i.Narrow) :
    ∀ i ∈ peepholeBlock insns, i.Narrow := by
  cases insns with
  | nil => simp [peepholeBlock, foldOpaqueJcc]
  | cons j rest =>
      obtain ⟨hj, hrest⟩ := List.forall_mem_cons.mp h
      rw [peepholeBlock, List.map_cons, foldOpaqueJcc]
      apply List.forall_mem_cons.mpr ⟨hj.fold, narrow_foldJccFrom ?_ _⟩
      intro i hi
      obtain ⟨i', hi', rfl⟩ := List.mem_map.mp hi
      exact (hrest i' hi').fold

theorem Straight.narrow {mem : CodeBytes} {cur : GuestAddr} {insns : List Insn}
    (h : Straight mem cur insns) : ∀ i ∈ insns, i.Narrow := by
  induction insns generalizing cur with
  | nil => simp
  | cons j rest ih => exact List.forall_mem_cons.mpr ⟨decodeOne_narrow h.1, ih h.2.2⟩

theorem Current.narrow {mem : CodeBytes} {pc : GuestAddr} {block : DecodedBlock}
    (h : Current mem pc block) : ∀ i ∈ block.insns, i.Narrow := by
  obtain ⟨insns, _, hinsns, hcode⟩ := h
  rw [hinsns]
  exact narrow_peepholeBlock hcode.narrow

/-- Every cached block holds instructions as the decoder makes them. -/
def BlockCache.Narrow (cache : BlockCache) : Prop :=
  ∀ pc block, cache.lookup pc = some block → ∀ i ∈ block.insns, i.Narrow

theorem BlockCache.narrow_empty : BlockCache.Narrow fun _ => none :=
  fun _ _ h => nomatch h

theorem BlockCache.Narrow.insert {cache : BlockCache} (h : cache.Narrow) {pc : GuestAddr}
    {block : DecodedBlock} (hblock : ∀ i ∈ block.insns, i.Narrow) :
    (cache.insert pc block).Narrow := by
  intro pc' block' hlookup
  rw [BlockCache.lookup, BlockCache.insert] at hlookup
  rcases eq_or_ne pc' pc with rfl | hne
  · rw [Function.update_self] at hlookup
    cases hlookup
    exact hblock
  · rw [Function.update_of_ne hne] at hlookup
    exact h pc' block' hlookup

theorem BlockCache.Narrow.invalidateRange {cache : BlockCache} (h : cache.Narrow)
    (addr : GuestAddr) (size : Nat) : (cache.invalidateRange addr size).Narrow := by
  intro pc block hlookup
  rw [BlockCache.lookup, BlockCache.invalidateRange] at hlookup
  split at hlookup
  · exact h pc block hlookup
  · exact h pc block (Option.filter_eq_some_iff.mp hlookup).1

theorem BlockCache.Narrow.heard {cache : BlockCache} (h : cache.Narrow) (em : Emulator σ)
    (e : machine.Event) : (em.heard cache e).Narrow := by
  unfold Emulator.heard
  split
  · split
    · exact h.invalidateRange _ _
    · exact h
  · exact h

theorem BlockCache.Narrow.cacheAfter {cache : BlockCache} (h : cache.Narrow) (em : Emulator σ)
    (i : Insn) (vm : VmState σ) : (em.cacheAfter i vm cache).Narrow := by
  rw [Emulator.cacheAfter]
  generalize ((i.run em.fp).runOn em.attached vm.cpu vm.world).trace = events
  induction events generalizing cache with
  | nil => exact h
  | cons e rest ih => exact ih (h.heard em e)

/-! ### Emulators -/

structure Hook.Together {α β : Type} (R : α → β → Prop) (h : Hook α) (h' : Hook β) : Prop where
  lo : h.lo = h'.lo
  hi : h.hi = h'.hi
  callback : R h.callback h'.callback

structure InsnHook.Together (W : σ → τ → Prop) (h : InsnHook σ) (h' : InsnHook τ) : Prop where
  hook : Hook.Together (fun f f' => ∀ i, PicoCpu.Together W (f i) (f' i)) h.toHook h'.toHook
  filterOp : h.filterOp = h'.filterOp

structure IatStubs.Together (W : σ → τ → Prop) (st : IatStubs σ) (st' : IatStubs τ) : Prop where
  entries : st.entries = st'.entries
  lookup : ∀ e, Option.Rel
    (fun fn fn' => ∀ dll name, PicoCpu.Together W (fn dll name) (fn' dll name))
    (st.lookup e) (st'.lookup e)

/-- Emulators that are called alike, with callbacks that keep the memories together. -/
structure Emulator.SameHost (W : σ → τ → Prop) (em : Emulator σ) (em' : Emulator τ) : Prop where
  fp : em.fp = em'.fp
  readHooks : em.attached.readHooks = em'.attached.readHooks
  writeHooks : em.attached.writeHooks = em'.attached.writeHooks
  blockHooks : List.Forall₂
    (Hook.Together fun f f' => ∀ pc n, PicoCpu.Together W (f pc n) (f' pc n))
    em.blockHooks em'.blockHooks
  codeHooks : List.Forall₂
    (Hook.Together fun f f' => ∀ pc n, PicoCpu.Together W (f pc n) (f' pc n))
    em.codeHooks em'.codeHooks
  insnHooks : List.Forall₂ (InsnHook.Together W) em.insnHooks em'.insnHooks
  faultHooks : List.Forall₂ (fun h h' => ∀ f, PicoCpu.Together W (h f) (h' f))
    em.faultHooks em'.faultHooks
  trace : em.trace = em'.trace
  recovery : Option.Rel
    (fun cb cb' => ∀ f s t, s.Over W t → (cb f s).1 = (cb' f t).1 ∧ (cb f s).2.Over W (cb' f t).2)
    em.recovery em'.recovery
  iatStubs : Option.Rel (IatStubs.Together W) em.iatStubs em'.iatStubs
  stopAddrs : em.stopAddrs = em'.stopAddrs
  listens : em.listens = em'.listens
  fetched : ∀ pc s t, W s t → W (em.fetched pc s) (em'.fetched pc t)

/-- The same emulator over memories that go together. -/
structure Emulator.Together (W : σ → τ → Prop) (em : Emulator σ) (em' : Emulator τ) : Prop
    extends Emulator.SameHost W em em' where
  memRead : Option.Rel (MemoryProvider.ServesAs W) em.attached.memRead em'.attached.memRead
  memWrite : Option.Rel (MemoryProvider.ServesAs W) em.attached.memWrite em'.attached.memWrite

theorem Emulator.Together.attached {W : σ → τ → Prop} {em : Emulator σ} {em' : Emulator τ}
    (h : em.Together W em') : em.attached.Together W em'.attached :=
  ⟨h.memRead, h.memWrite, h.readHooks, h.writeHooks⟩

/-- The same point of a run. -/
structure RunState.Over (W : σ → τ → Prop) (s : RunState σ) (t : RunState τ) : Prop where
  vm : s.vm.Over W t.vm
  cache : s.cache = t.cache
  narrow : t.cache.Narrow
  executed : s.executed = t.executed
  dispatched : s.dispatched = t.dispatched
  latched : s.latched = t.latched

structure RunEnd.Over (W : σ → τ → Prop) (e : RunEnd σ) (f : RunEnd τ) : Prop where
  result : e.result = f.result
  notified : e.notified = f.notified
  state : e.state.Over W f.state

namespace Emulator

inductive BlockExit.Over (W : σ → τ → Prop) : BlockExit σ → BlockExit τ → Prop
  | returned {e : RunEnd σ} {f : RunEnd τ} (h : e.Over W f) :
      BlockExit.Over W (.returned e) (.returned f)
  | left (branchOrHalt : Bool) {s : RunState σ} {t : RunState τ} (h : s.Over W t) :
      BlockExit.Over W (.left branchOrHalt s) (.left branchOrHalt t)

inductive Turn.Over (W : σ → τ → Prop) : Turn σ → Turn τ → Prop
  | ends {e : RunEnd σ} {f : RunEnd τ} (h : e.Over W f) : Turn.Over W (.ends e) (.ends f)
  | goesOn {s : RunState σ} {t : RunState τ} (h : s.Over W t) :
      Turn.Over W (.goesOn s) (.goesOn t)

end Emulator

section Callbacks

variable {W : σ → τ → Prop} {s : VmState σ} {t : VmState τ}

theorem VmState.Over.mapCpu (h : s.Over W t) (g : Cpu → Cpu) :
    (s.mapCpu g).Over W (t.mapCpu g) :=
  ⟨congrArg g h.cpu, h.world⟩

theorem VmState.Over.setFault (h : s.Over W t) (kind : FaultKind) (addr : GuestAddr)
    (reason : Status) (note : String) :
    (s.setFault kind addr reason note).Over W (t.setFault kind addr reason note) :=
  h.mapCpu _

theorem Together.latches {f : VmState σ → VmState σ} {f' : VmState τ → VmState τ}
    (hf : Together W f f') (h : s.Over W t) : Latches f s = Latches f' t := by
  rw [Latches, Latches, (hf _ _ (h.mapCpu Cpu.clearFault)).cpu]

/-- The return of a stub. -/
theorem VmState.Over.popRet {at_ : Attached σ} {at' : Attached τ} (hat : at_.Together W at')
    (h : s.Over W t) :
    (s.popRet at_).1 = (t.popRet at').1 ∧ (s.popRet at_).2.Over W (t.popRet at').2 := by
  have hread := hat.memRead
  unfold VmState.popRet
  simp only [h.cpu]
  generalize at_.memRead = P, at'.memRead = Q at hread
  cases hread with
  | none => exact ⟨rfl, h.setFault ..⟩
  | @some P Q hserves =>
      have hsize : 8 ≤ 64 := by omega
      have hstatus := hserves.readStatus (t.cpu.r Reg.rsp) 8 _ _ hsize h.world.mem
      have hbytes := hserves.readBytes (t.cpu.r Reg.rsp) 8 _ _ hsize h.world.mem
      have hstate := hserves.readState (t.cpu.r Reg.rsp) 8 _ _ hsize h.world.mem
      simp only
      revert hstatus hbytes hstate
      cases P.read (t.cpu.r Reg.rsp) 8 (fun _ => 0) s.world.mem with
      | mk r rest =>
          cases Q.read (t.cpu.r Reg.rsp) 8 (fun _ => 0) t.world.mem with
          | mk r' rest' =>
              intro hstatus hbytes hstate
              simp only at hstatus hbytes hstate
              have hworld := h.world.withMem hstate
              cases hstatus
              cases r with
              | error e =>
                  have hafter : VmState.Over W ⟨t.cpu, { s.world with mem := rest.2 }⟩
                      ⟨t.cpu, { t.world with mem := rest'.2 }⟩ := ⟨rfl, hworld⟩
                  exact ⟨rfl, hafter.setFault ..⟩
              | ok u =>
                  have hbuf : rest.1 = rest'.1 := hbytes rfl
                  simp only [hbuf]
                  exact ⟨trivial, rfl, hworld⟩

theorem IatStubs.Together.dispatch {st : IatStubs σ} {st' : IatStubs τ} (hst : st.Together W st')
    {at_ : Attached σ} {at' : Attached τ} (hat : at_.Together W at') (rip : GuestAddr)
    (h : s.Over W t) :
    (st.dispatch at_ rip s).1 = (st'.dispatch at' rip t).1 ∧
      (st.dispatch at_ rip s).2.Over W (st'.dispatch at' rip t).2 := by
  unfold IatStubs.dispatch
  rw [hst.entries]
  split
  · exact ⟨rfl, h⟩
  · split
    · exact ⟨rfl, h.setFault ..⟩
    · rename_i e _
      have hlookup := hst.lookup e
      generalize st.lookup e = fn, st'.lookup e = fn' at hlookup
      cases hlookup with
      | none => exact (h.mapCpu _).popRet hat
      | some hfn => exact (hfn e.dll e.name s t h).popRet hat

end Callbacks

namespace Emulator

variable {W : σ → τ → Prop} {em : Emulator σ} {em' : Emulator τ} {s : RunState σ} {t : RunState τ}

/-! ### Around an instruction -/

theorem over_resultWith (h : s.Over W t) (status : Status) :
    s.resultWith status = t.resultWith status := by
  rw [RunState.resultWith, RunState.resultWith, h.executed, h.vm.cpu]

theorem over_finish (h : s.Over W t) : s.finish.Over W t.finish :=
  ⟨over_resultWith h .ok, rfl, h⟩

theorem over_act {f : VmState σ → VmState σ} {f' : VmState τ → VmState τ}
    (hf : PicoCpu.Together W f f') (h : s.Over W t) : (s.act f).Over W (t.act f') where
  vm := hf _ _ h.vm
  cache := h.cache
  narrow := h.narrow
  executed := h.executed
  dispatched := h.dispatched
  latched := by simp [RunState.act, h.latched, hf.latches h.vm]

theorem over_withCpu (h : s.Over W t) (c : Cpu) :
    RunState.Over W { s with vm := { s.vm with cpu := c } }
      { t with vm := { t.vm with cpu := c } } :=
  ⟨⟨rfl, h.vm.world⟩, h.cache, h.narrow, h.executed, h.dispatched, h.latched⟩

theorem inRange_together {α β : Type} {R : α → β → Prop} {hook : Hook α} {hook' : Hook β}
    (h : hook.Together R hook') (addr : GuestAddr) : hook.inRange addr = hook'.inRange addr := by
  rw [Hook.inRange, Hook.inRange, h.lo, h.hi]

/-- A list of hooks, each of which may be skipped. -/
theorem together_foldl {α β : Type} {R : α → β → Prop} {hooks : List α} {hooks' : List β}
    (hhooks : List.Forall₂ R hooks hooks') {f : VmState σ → α → VmState σ}
    {f' : VmState τ → β → VmState τ}
    (hf : ∀ a b, R a b → PicoCpu.Together W (fun vm => f vm a) fun vm => f' vm b) :
    PicoCpu.Together W (fun vm => hooks.foldl f vm) fun vm => hooks'.foldl f' vm := by
  induction hhooks with
  | nil => exact fun vm vm' h => h
  | cons hhook _ ih => exact fun vm vm' h => ih _ _ (hf _ _ hhook vm vm' h)

theorem Together.fireBlock (hem : em.Together W em') (pc : GuestAddr) (byteSize : Nat) :
    PicoCpu.Together W (em.fireBlock pc byteSize) (em'.fireBlock pc byteSize) := by
  apply together_foldl hem.blockHooks
  intro hook hook' hhook vm vm' h
  rw [inRange_together hhook]
  split
  · exact hhook.callback pc byteSize vm vm' h
  · exact h

theorem Together.fireCode (hem : em.Together W em') (i : Insn) :
    PicoCpu.Together W (em.fireCode i) (em'.fireCode i) := by
  apply together_foldl hem.codeHooks
  intro hook hook' hhook vm vm' h
  rw [inRange_together hhook]
  split
  · exact hhook.callback i.rip i.len vm vm' h
  · exact h

theorem Together.fireInsn (hem : em.Together W em') (i : Insn) :
    PicoCpu.Together W (em.fireInsn i) (em'.fireInsn i) := by
  apply together_foldl hem.insnHooks
  intro hook hook' hhook vm vm' h
  rw [hhook.filterOp, inRange_together hhook.hook]
  split
  · exact hhook.hook.callback i vm vm' h
  · exact h

theorem Together.fireTrace (hem : em.Together W em') (i : Insn) :
    PicoCpu.Together W (em.fireTrace i) (em'.fireTrace i) := by
  intro vm vm' h
  rw [Emulator.fireTrace, Emulator.fireTrace, hem.trace]
  split
  · exact h.mapCpu _
  · exact h

theorem Together.announce (hem : em.Together W em') (i : Insn) (h : s.Over W t) :
    (em.announce i s).Over W (em'.announce i t) :=
  over_act (hem.fireTrace i) (over_act (hem.fireInsn i) (over_act (hem.fireCode i) h))

theorem Together.callInsn (hem : em.Together W em') {i : Insn} (hi : i.Narrow) :
    PicoCpu.Together W (em.callInsn i) (em'.callInsn i) := by
  intro vm vm' h
  obtain ⟨hvalue, hworld, _⟩ := hi.runOn em'.fp hem.attached h
  rw [Emulator.callInsn, Emulator.callInsn, hem.fp]
  exact ⟨congrArg Prod.snd hvalue, hworld⟩

theorem Together.heard (hem : em.Together W em') : em.heard = em'.heard := by
  funext cache e
  unfold Emulator.heard
  rw [hem.listens]

theorem Together.cacheAfter (hem : em.Together W em') {i : Insn} (hi : i.Narrow)
    {vm : VmState σ} {vm' : VmState τ} (h : vm.Over W vm') (cache : BlockCache) :
    em.cacheAfter i vm cache = em'.cacheAfter i vm' cache := by
  obtain ⟨_, _, htrace⟩ := hi.runOn em'.fp hem.attached h
  rw [Emulator.cacheAfter, Emulator.cacheAfter, hem.heard, hem.fp, htrace]

theorem Together.execute (hem : em.Together W em') {i : Insn} (hi : i.Narrow) (h : s.Over W t) :
    (em.execute i s).Over W (em'.execute i t) where
  vm := hem.callInsn hi _ _ h.vm
  cache := by
    change em.cacheAfter i s.vm s.cache = em'.cacheAfter i t.vm t.cache
    rw [h.cache, hem.cacheAfter hi h.vm]
  narrow := h.narrow.cacheAfter em' i t.vm
  executed := congrArg (· + 1) h.executed
  dispatched := h.dispatched
  latched := (over_act (hem.callInsn hi) h).latched

/-! ### A halted CPU -/

theorem Together.report (hem : em.Together W em') (h : s.Over W t) :
    (em.report s).Over W (em'.report t) := by
  have hhooks : PicoCpu.Together W
      (fun vm => em.faultHooks.foldl (fun vm hook => hook vm.cpu.fault vm) vm)
      fun vm => em'.faultHooks.foldl (fun vm hook => hook vm.cpu.fault vm) vm := by
    apply together_foldl hem.faultHooks
    intro hook hook' hhook vm vm' hvm
    simp only [hvm.cpu]
    exact hhook vm'.cpu.fault vm vm' hvm
  rw [Emulator.report, Emulator.report, h.vm.cpu]
  split
  · exact ⟨over_resultWith h _, rfl, hhooks _ _ h.vm, h.cache, h.narrow, h.executed,
      h.dispatched, h.latched⟩
  · exact over_finish h

theorem Together.handlerHalted (hem : em.Together W em') (h : s.Over W t) :
    BlockExit.Over W (em.handlerHalted s) (em'.handlerHalted t) := by
  have hrecovery := hem.recovery
  unfold Emulator.handlerHalted
  generalize em.recovery = cb, em'.recovery = cb' at hrecovery
  cases hrecovery with
  | none => exact .returned (hem.report h)
  | @some cb cb' hcb =>
      simp only [h.vm.cpu]
      split
      · obtain ⟨hanswers, hafter⟩ := hcb t.vm.cpu.fault s.vm t.vm h.vm
        revert hanswers hafter
        cases cb t.vm.cpu.fault s.vm with
        | mk consumed vm =>
            cases cb' t.vm.cpu.fault t.vm with
            | mk consumed' vm' =>
                rintro ⟨⟩ hafter
                cases consumed with
                | true =>
                    exact .left true ⟨hafter.mapCpu fun c => c.clearFault.unhalt, h.cache, h.narrow,
                      h.executed, h.dispatched, rfl⟩
                | false =>
                    exact .returned (hem.report ⟨hafter, h.cache, h.narrow, h.executed,
                      h.dispatched, h.latched⟩)
      · exact .returned (hem.report h)

/-! ### Blocks -/

theorem over_advance (i : Insn) (h : s.Over W t) : (advance i s).Over W (advance i t) :=
  ⟨h.vm.mapCpu fun c => c.setRip (i.rip + BitVec.ofNat 64 i.len), h.cache, h.narrow, h.executed,
    h.dispatched, h.latched⟩

theorem Together.isStop (hem : em.Together W em') (a : GuestAddr) : em.isStop a = em'.isStop a := by
  rw [Emulator.isStop, Emulator.isStop, hem.stopAddrs]

/-- The replay of a block, by induction on what is left of it. -/
theorem Together.replayBlock (hem : em.Together W em') (maxInsns : Nat) {insns : List Insn}
    (hinsns : ∀ i ∈ insns, i.Narrow) (h : s.Over W t) :
    BlockExit.Over W (em.replayBlock maxInsns insns s) (em'.replayBlock maxInsns insns t) := by
  induction insns generalizing s t with
  | nil => exact .left false h
  | cons i rest ih =>
      obtain ⟨hi, hrest⟩ := List.forall_mem_cons.mp hinsns
      rw [Emulator.replayBlock, Emulator.replayBlock, h.vm.cpu]
      split
      · exact .left true h
      · cases t.vm.cpu.clearBranch.execBreakpointAt i.rip with
        | mk hit c =>
            cases hit with
            | true =>
                exact .left true ⟨⟨rfl, h.vm.world⟩, h.cache, h.narrow, h.executed,
                  h.dispatched, rfl⟩
            | false =>
                have hafter := hem.execute hi (hem.announce i (over_withCpu h c))
                have hnext := over_advance i hafter
                simp only
                rw [hafter.vm.cpu, hnext.vm.cpu, hem.isStop, hnext.executed]
                split
                · exact hem.handlerHalted hafter
                · split
                  · exact .left true hafter
                  · split
                    · exact .returned (over_finish hnext)
                    · split
                      · exact .left true hnext
                      · exact ih hrest hnext

/-! ### Turns -/

theorem codeBytes_over {P : MemoryProvider σ} {Q : MemoryProvider τ} (hserves : P.ServesAs W Q)
    {mem : σ} {mem' : τ} (h : W mem mem') : codeBytes P mem = codeBytes Q mem' := by
  funext a
  have hsize : 1 ≤ 64 := by omega
  have hstatus := hserves.readStatus a 1 mem mem' hsize h
  have hbytes := hserves.readBytes a 1 mem mem' hsize h
  unfold codeBytes
  revert hstatus hbytes
  cases P.read a 1 (fun _ => 0) mem with
  | mk r rest =>
      cases Q.read a 1 (fun _ => 0) mem' with
      | mk r' rest' =>
          rintro ⟨⟩ hbytes
          cases r with
          | error e => rfl
          | ok u => exact congrArg (fun out : Buf => Except.ok (out 0)) (hbytes rfl)

/-- The block that is fetched, and the state after. -/
def Fetched (W : σ → τ → Prop) (x : Except Status DecodedBlock × RunState σ)
    (y : Except Status DecodedBlock × RunState τ) : Prop :=
  x.1 = y.1 ∧ x.2.Over W y.2 ∧ ∀ block, y.1 = .ok block → ∀ i ∈ block.insns, i.Narrow

theorem Together.fetchBlock (hem : em.Together W em') {P : MemoryProvider σ}
    {Q : MemoryProvider τ} (hserves : P.ServesAs W Q) (pc : GuestAddr) (h : s.Over W t) :
    Option.Rel (Fetched W) (em.fetchBlock P pc s) (em'.fetchBlock Q pc t) := by
  unfold Emulator.fetchBlock
  rw [h.cache, codeBytes_over hserves h.vm.world.mem]
  split
  · rename_i block hlookup
    refine .some ⟨rfl, h, ?_⟩
    rintro block' ⟨⟩
    exact h.narrow pc block hlookup
  · cases hdecode : decodeBlock (codeBytes Q t.vm.world.mem) pc 1024 with
    | none => exact .none
    | some r =>
        have hfetched := h.vm.world.withMem (hem.fetched pc _ _ h.vm.world.mem)
        cases r with
        | error e =>
            exact .some ⟨rfl, ⟨⟨h.vm.cpu, hfetched⟩, rfl, h.narrow, h.executed, h.dispatched,
              h.latched⟩, fun _ hok => nomatch hok⟩
        | ok block =>
            have hblock := (current_decodeBlock hdecode).narrow
            refine .some ⟨rfl, ⟨⟨h.vm.cpu, hfetched⟩, rfl, h.narrow.insert hblock, h.executed,
              h.dispatched, h.latched⟩, ?_⟩
            rintro block' ⟨⟩
            exact hblock

theorem Together.blockTurn (hem : em.Together W em') {P : MemoryProvider σ}
    {Q : MemoryProvider τ} (hserves : P.ServesAs W Q) (maxInsns : Nat) (h : s.Over W t) :
    Option.Rel (Turn.Over W) (em.blockTurn P maxInsns s) (em'.blockTurn Q maxInsns t) := by
  have hfetch := hem.fetchBlock hserves t.vm.cpu.rip h
  rw [blockTurn_eq, blockTurn_eq, h.vm.cpu]
  generalize em.fetchBlock P t.vm.cpu.rip s = x, em'.fetchBlock Q t.vm.cpu.rip t = y at hfetch
  cases hfetch with
  | none => exact .none
  | @some x y hxy =>
      obtain ⟨r, s'⟩ := x
      obtain ⟨r', t'⟩ := y
      obtain ⟨hr, hstate, hnarrow⟩ := hxy
      obtain rfl : r = r' := hr
      apply Option.Rel.some
      cases r with
      | error e =>
          refine .ends ⟨?_, rfl, hstate⟩
          rw [h.vm.cpu, over_resultWith h]
      | ok block =>
          have hfired := over_act (hem.fireBlock s.vm.cpu.rip block.byteSize) hstate
          have hreplay := hem.replayBlock maxInsns (hnarrow block rfl) hfired
          simp only [afterFetch, atBlock]
          rw [h.vm.cpu] at hreplay ⊢
          generalize em.replayBlock maxInsns block.insns _ = a,
            em'.replayBlock maxInsns block.insns _ = b at hreplay
          cases hreplay with
          | returned he => exact .ends he
          | left branchOrHalt hs =>
              rw [ofExit, ofExit, hs.vm.cpu, hem.isStop]
              split
              · exact .ends (over_finish hs)
              · exact .goesOn hs

theorem Together.stubTurn (hem : em.Together W em') {stubs : IatStubs σ} {stubs' : IatStubs τ}
    (hstubs : stubs.Together W stubs') (h : s.Over W t) :
    Turn.Over W (em.stubTurn stubs s) (em'.stubTurn stubs' t) := by
  have hdispatch : PicoCpu.Together W
      (fun vm => (stubs.dispatch em.attached t.vm.cpu.rip vm).2)
      fun vm => (stubs'.dispatch em'.attached t.vm.cpu.rip vm).2 :=
    fun vm vm' hvm => (hstubs.dispatch hem.attached t.vm.cpu.rip hvm).2
  have hreturned := (hstubs.dispatch hem.attached t.vm.cpu.rip h.vm).1
  have hacted := over_act hdispatch h
  have hafter : (em.afterStub stubs s).Over W (em'.afterStub stubs' t) := by
    rw [afterStub, afterStub, h.vm.cpu]
    exact ⟨hacted.vm, hacted.cache, hacted.narrow, hacted.executed,
      congrArg (· + 1) h.dispatched, hacted.latched⟩
  rw [stubTurn_eq, stubTurn_eq, h.vm.cpu, hreturned]
  split
  · rw [orStop, orStop, hafter.vm.cpu, hem.isStop]
    split
    · exact .ends (over_finish hafter)
    · exact .goesOn hafter
  · refine .ends ⟨?_, rfl, hafter⟩
    rw [hafter.vm.cpu, over_resultWith hafter]

theorem Together.turn (hem : em.Together W em') {P : MemoryProvider σ}
    {Q : MemoryProvider τ} (hserves : P.ServesAs W Q) (maxInsns : Nat) (h : s.Over W t) :
    Option.Rel (Turn.Over W) (em.turn P maxInsns s) (em'.turn Q maxInsns t) := by
  have hstubs := hem.iatStubs
  have hblock := hem.blockTurn hserves maxInsns h
  unfold Emulator.turn
  rw [h.executed, h.vm.cpu]
  split
  · exact .some (.ends (over_finish h))
  · split
    · exact .some (.ends (over_finish h))
    · generalize hs : em.iatStubs = stubs, hs' : em'.iatStubs = stubs' at hstubs
      cases hstubs with
      | none => exact hblock
      | some hst =>
          simp only
          split
          · exact .some (hem.stubTurn hst h)
          · exact hblock

/-- The two loops take their turns one for one. -/
theorem Together.lockstep (hem : em.Together W em') {P : MemoryProvider σ}
    {Q : MemoryProvider τ} (hserves : P.ServesAs W Q) (maxInsns : Nat) (s : RunState σ)
    (t : RunState τ) (h : s.Over W t) :
    Loops.Lockstep (RunState.Over W) (RunEnd.Over W) (em.loop P maxInsns s)
      (em'.loop Q maxInsns t) := by
  have hturn := hem.turn hserves maxInsns h
  rw [Emulator.loop, Emulator.loop]
  generalize em.turn P maxInsns s = x, em'.turn Q maxInsns t = y at hturn
  cases hturn with
  | none => exact .stuck
  | some hxy =>
      cases hxy with
      | ends he => exact .ends he
      | goesOn hs => exact .goesOn hs

theorem over_enter {vm : VmState σ} {vm' : VmState τ} (h : vm.Over W vm') {cache : BlockCache}
    (hcache : cache.Narrow) (entry : GuestAddr) :
    (enter vm cache entry).Over W (enter vm' cache entry) :=
  ⟨h.mapCpu fun c => (c.unhalt.clearBranch).setRip entry, rfl, hcache, rfl, rfl, rfl⟩

/-- The runs of the two emulators end on the same inputs, and alike. -/
theorem Together.runs (hem : em.Together W em') {vm : VmState σ} {vm' : VmState τ}
    (h : vm.Over W vm') {cache : BlockCache} (hcache : cache.Narrow) (entry : GuestAddr)
    (maxInsns : U64) :
    (∀ e, em.Runs vm cache entry maxInsns e →
      ∃ f, em'.Runs vm' cache entry maxInsns f ∧ e.Over W f) ∧
    ∀ f, em'.Runs vm' cache entry maxInsns f →
      ∃ e, em.Runs vm cache entry maxInsns e ∧ e.Over W f := by
  have hread := hem.memRead
  have hstart := over_enter h hcache entry
  generalize hP : em.attached.memRead = P, hQ : em'.attached.memRead = Q at hread
  cases hread with
  | none =>
      have hend : RunEnd.Over W
          { result := { status := .providerFailure }, state := enter vm cache entry }
          { result := { status := .providerFailure }, state := enter vm' cache entry } :=
        ⟨rfl, rfl, hstart⟩
      simp only [Runs, runWithCpu, hP, hQ]
      constructor
      · rintro e ⟨fuel, ⟨⟩⟩
        exact ⟨_, ⟨fuel, rfl⟩, hend⟩
      · rintro f ⟨fuel, ⟨⟩⟩
        exact ⟨_, ⟨fuel, rfl⟩, hend⟩
  | some hserves =>
      simp only [runs_iff hP, runs_iff hQ]
      exact Loops.ends_of_lockstep (hem.lockstep hserves maxInsns.toNat) hstart

/-! ### Sessions -/

structure Call.Together (W : σ → τ → Prop) (c : Call σ) (c' : Call τ) : Prop where
  prepare : PicoCpu.Together W c.prepare c'.prepare
  entry : c.entry = c'.entry
  maxInsns : c.maxInsns = c'.maxInsns

/-- Whole sessions end alike, by induction on the calls. -/
theorem Together.serves (hem : em.Together W em') {calls : List (Call σ)}
    {calls' : List (Call τ)} (hcalls : List.Forall₂ (Call.Together W) calls calls')
    {vm : VmState σ} {vm' : VmState τ} (h : vm.Over W vm') {cache : BlockCache}
    (hcache : cache.Narrow) :
    (∀ ends, em.Serves vm cache calls ends →
      ∃ ends', em'.Serves vm' cache calls' ends' ∧ List.Forall₂ (RunEnd.Over W) ends ends') ∧
    ∀ ends', em'.Serves vm' cache calls' ends' →
      ∃ ends, em.Serves vm cache calls ends ∧ List.Forall₂ (RunEnd.Over W) ends ends' := by
  induction hcalls generalizing vm vm' cache with
  | nil =>
      constructor
      · intro ends hserves
        cases hserves
        exact ⟨[], .done vm' cache, .nil⟩
      · intro ends' hserves
        cases hserves
        exact ⟨[], .done vm cache, .nil⟩
  | @cons c c' calls calls' hcall _ ih =>
      obtain ⟨hforth, hback⟩ := hem.runs (hcall.prepare vm vm' h) hcache c'.entry c'.maxInsns
      constructor
      · intro ends hserves
        cases hserves with
        | call hruns hserved =>
            rw [hcall.entry, hcall.maxInsns] at hruns
            obtain ⟨f, hf, hover⟩ := hforth _ hruns
            rw [hover.state.cache] at hserved
            obtain ⟨ends', hrest, hall⟩ := (ih hover.state.vm hover.state.narrow).1 _ hserved
            exact ⟨f :: ends', .call hf hrest, .cons hover hall⟩
      · intro ends' hserves
        cases hserves with
        | call hruns hserved =>
            obtain ⟨e, he, hover⟩ := hback _ hruns
            obtain ⟨ends, hrest, hall⟩ := (ih hover.state.vm hover.state.narrow).2 _ hserved
            rw [← hover.state.cache] at hrest
            rw [← hcall.entry, ← hcall.maxInsns] at he
            exact ⟨e :: ends, .call he hrest, .cons hover hall⟩

end Emulator

end PicoCpu
