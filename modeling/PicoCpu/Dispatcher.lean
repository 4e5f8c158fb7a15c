import PicoCpu.Replay

/-!
The dispatcher: `Emulator::run_with_cpu` with its block cache, hooks, stop addresses,
execute breakpoints, fault recovery and import stubs. Host callbacks are functions on the CPU
and the memory; the outer loop is one turn at a time, so that a run is a sequence of turns.
-/

namespace PicoCpu

/-! ### Import stubs -/

/-- A stub gets the names it was bound under and works on the CPU and the memory. -/
abbrev StubFn (σ : Type) := String → String → VmState σ → VmState σ

structure IatEntry where
  dll : String
  name : String

/-- `make_key`: the library name is matched without case. -/
def IatEntry.key (e : IatEntry) : String := e.dll.toLower ++ "|" ++ e.name

structure IatStubs (σ : Type) where
  /-- The bound imports, by the number of their slot. -/
  entries : List IatEntry := []
  /-- The registered handlers, by their key. -/
  stubs : String → Option (StubFn σ) := fun _ => none
  defaultStub : Option (StubFn σ) := none

namespace IatStubs

variable {σ : Type}

def kStubBase : GuestAddr := 0x00007FFEF0000000
def kStubSize : U64 := 64 * 1024
def kStubStride : U64 := 8

def inRegion (rip : GuestAddr) : Bool := kStubBase.ule rip && rip.ult (kStubBase + kStubSize)

/-- The handler under both names, else under the function name alone, else the default. -/
def lookup (st : IatStubs σ) (e : IatEntry) : Option (StubFn σ) :=
  match st.stubs e.key with
  | some fn => some fn
  | none =>
    match st.stubs (IatEntry.key { e with dll := "" }) with
    | some fn => some fn
    | none => st.defaultStub

end IatStubs

namespace VmState

variable {σ : Type}

def mapCpu (s : VmState σ) (f : Cpu → Cpu) : VmState σ := { s with cpu := f s.cpu }

def setFault (s : VmState σ) (kind : FaultKind) (addr : GuestAddr) (reason : Status)
    (note : String) : VmState σ :=
  s.mapCpu fun c => c.setFault kind addr reason (some note)

/-- The return every stub ends with: pop the address and go there. -/
def popRet (at_ : Attached σ) (s : VmState σ) : Bool × VmState σ :=
  let rsp := s.cpu.r Reg.rsp
  match at_.memRead with
  | none =>
    (false, s.setFault .providerFailure rsp .providerFailure "iat stub: no read provider")
  | some P =>
    match P.read rsp 8 (fun _ => 0) s.world.mem with
    | (.error e, _, mem) =>
      (false, ({ s with world := { s.world with mem } }).setFault .pageFault rsp e
        "iat stub: ret read")
    | (.ok _, buf, mem) =>
      (true, { cpu := (s.cpu.setR64 Reg.rsp (rsp + 8)).setRip (loadLE buf 8)
               world := { s.world with mem } })

end VmState

namespace IatStubs

variable {σ : Type}

/-- `dispatch`: whether the stub returned, and the state. -/
def dispatch (st : IatStubs σ) (at_ : Attached σ) (rip : GuestAddr) (s : VmState σ) :
    Bool × VmState σ :=
  if rip.ult kStubBase || (kStubBase + kStubSize).ule rip then (false, s)
  else
    match st.entries[((rip - kStubBase) / kStubStride).toNat]? with
    | none =>
      (false, s.setFault .invalidOpcode rip .unsupportedOpcode "iat stub idx out of range")
    | some e =>
      let s :=
        match st.lookup e with
        | some fn => fn e.dll e.name s
        | none => s.mapCpu fun c => c.setR64 Reg.rax 0
      s.popRet at_

end IatStubs

/-! ### The emulator -/

/-- A hook: an inclusive address range, "any" when `lo > hi`, and its callback. -/
structure Hook (α : Type) where
  lo : GuestAddr
  hi : GuestAddr
  callback : α

/-- `hook_in_range`. -/
def Hook.inRange {α : Type} (h : Hook α) (addr : GuestAddr) : Bool :=
  h.hi.ult h.lo || (h.lo.ule addr && addr.ule h.hi)

/-- An `Insn` hook; `invalid` filters nothing. -/
structure InsnHook (σ : Type) extends Hook (Insn → VmState σ → VmState σ) where
  filterOp : OpKind := .invalid

structure Emulator (σ : Type) where
  fp : HostFp
  attached : Attached σ
  blockHooks : List (Hook (GuestAddr → Nat → VmState σ → VmState σ)) := []
  codeHooks : List (Hook (GuestAddr → Nat → VmState σ → VmState σ)) := []
  insnHooks : List (InsnHook σ) := []
  faultHooks : List (Fault → VmState σ → VmState σ) := []
  /-- A trace callback is set. It sees the CPU only. -/
  trace : Bool := false
  recovery : Option (Fault → VmState σ → Bool × VmState σ) := none
  iatStubs : Option (IatStubs σ) := none
  stopAddrs : List GuestAddr := []
  /-- Which writes reach the write listener, which erases the blocks they overlap. -/
  listens : GuestAddr → Nat → Bool := fun _ _ => false
  /-- What decoding a block leaves of the provider's own state. -/
  fetched : GuestAddr → σ → σ := fun _ mem => mem

structure RunResult where
  status : Status := .ok
  insnsExecuted : Nat := 0
  finalRip : GuestAddr := 0
  finalRax : U64 := 0

/-- Between two steps of a run. The last two fields only record what happened: how many stubs
were dispatched, and whether a fault latched in this run has not been consumed. -/
structure RunState (σ : Type) where
  vm : VmState σ
  cache : BlockCache
  executed : Nat := 0
  dispatched : Nat := 0
  latched : Bool := false

/-- The end of a run: what is returned, the state it leaves, and the faults the fault hook and
the `Fault` hooks were invoked for. -/
structure RunEnd (σ : Type) where
  result : RunResult
  state : RunState σ
  notified : List Fault := []

section Dispatch

variable {σ : Type}

/-- The step latches a fault: it does when it starts with an empty latch. -/
def Latches (f : VmState σ → VmState σ) (s : VmState σ) : Bool :=
  (f (s.mapCpu Cpu.clearFault)).cpu.fault.isSet

/-- A step of a callback or a handler. -/
def RunState.act (s : RunState σ) (f : VmState σ → VmState σ) : RunState σ :=
  { s with vm := f s.vm, latched := s.latched || Latches f s.vm }

/-- The fields of the result, as every exit but two fills them. -/
def RunState.resultWith (s : RunState σ) (status : Status) : RunResult :=
  { status, insnsExecuted := s.executed, finalRip := s.vm.cpu.rip, finalRax := s.vm.cpu.r Reg.rax }

def RunState.finish (s : RunState σ) : RunEnd σ := { result := s.resultWith .ok, state := s }

namespace Emulator

variable (em : Emulator σ)

def isStop (a : GuestAddr) : Bool := em.stopAddrs.contains a

def fireBlock (pc : GuestAddr) (byteSize : Nat) (vm : VmState σ) : VmState σ :=
  em.blockHooks.foldl (fun vm h => if h.inRange pc then h.callback pc byteSize vm else vm) vm

def fireCode (i : Insn) (vm : VmState σ) : VmState σ :=
  em.codeHooks.foldl (fun vm h => if h.inRange i.rip then h.callback i.rip i.len vm else vm) vm

def fireInsn (i : Insn) (vm : VmState σ) : VmState σ :=
  em.insnHooks.foldl (fun vm h =>
    if (h.filterOp == .invalid || h.filterOp == i.kind) && h.inRange i.rip then h.callback i vm
    else vm) vm

/-- The trace callback is shown the address of the instruction. -/
def fireTrace (i : Insn) (vm : VmState σ) : VmState σ :=
  if em.trace then vm.mapCpu fun c => c.setRip i.rip else vm

/-- `insn.handler(cpu, insn)`. -/
def callInsn (i : Insn) (vm : VmState σ) : VmState σ :=
  let out := (i.run em.fp).runOn em.attached vm.cpu vm.world
  ⟨out.value.2, out.world⟩

/-- The write listener on one access of a handler. -/
def heard (cache : BlockCache) : machine.Event → BlockCache
  | ⟨.write addr size _, .ok _⟩ =>
    if em.listens addr size then cache.invalidateRange addr size else cache
  | _ => cache

/-- The cache after a handler. -/
def cacheAfter (i : Insn) (vm : VmState σ) (cache : BlockCache) : BlockCache :=
  ((i.run em.fp).runOn em.attached vm.cpu vm.world).trace.foldl em.heard cache

/-- How the replay of a block ends. -/
inductive BlockExit (σ : Type) where
  | returned (e : RunEnd σ)
  | left (branchOrHalt : Bool) (s : RunState σ)

/-- The state a block is left in. -/
def BlockExit.state : BlockExit σ → RunState σ
  | .returned e => e.state
  | .left _ s => s

/-- The status of a fault whose reason is `Ok`. -/
def faultStatus (f : Fault) : Status := if f.reason ≠ .ok then f.reason else .internal

/-- The exit after a handler that leaves the CPU halted, when nothing recovers. -/
def report (s : RunState σ) : RunEnd σ :=
  if s.vm.cpu.fault.isSet then
    { result := s.resultWith (faultStatus s.vm.cpu.fault)
      state := { s with vm := em.faultHooks.foldl (fun vm h => h vm.cpu.fault vm) s.vm }
      notified := [s.vm.cpu.fault] }
  else s.finish

/-- A handler has left the CPU halted: the recovery callback may consume the fault. -/
def handlerHalted (s : RunState σ) : BlockExit σ :=
  match em.recovery with
  | none => .returned (em.report s)
  | some cb =>
    if s.vm.cpu.fault.isSet then
      match cb s.vm.cpu.fault s.vm with
      | (true, vm) =>
        .left true { s with vm := vm.mapCpu fun c => c.clearFault.unhalt, latched := false }
      | (false, vm) => .returned (em.report { s with vm })
    else .returned (em.report s)

/-- What precedes the handler: the `Code` and `Insn` hooks and the trace. -/
def announce (i : Insn) (s : RunState σ) : RunState σ :=
  ((s.act (em.fireCode i)).act (em.fireInsn i)).act (em.fireTrace i)

/-- The handler, counted. -/
def execute (i : Insn) (s : RunState σ) : RunState σ :=
  { s.act (em.callInsn i) with
    cache := em.cacheAfter i s.vm s.cache
    executed := s.executed + 1 }

/-- An execute breakpoint stops the block with a fault. -/
def breakpointHit (i : Insn) (c : Cpu) (s : RunState σ) : RunState σ :=
  { s with
    vm := { s.vm with cpu := c.setFault .breakpoint i.rip .ok (some "DR execute breakpoint") }
    latched := true }

/-- The straight-line advance past an instruction. -/
def advance (i : Insn) (s : RunState σ) : RunState σ :=
  { s with vm := s.vm.mapCpu fun c => c.setRip (i.rip + BitVec.ofNat 64 i.len) }

/-- `for (const Insn& insn : block->insns)`. -/
def replayBlock (maxInsns : Nat) : List Insn → RunState σ → BlockExit σ
  | [], s => .left false s
  | i :: rest, s =>
    if s.vm.cpu.halted then .left true s
    else
      match (s.vm.cpu.clearBranch).execBreakpointAt i.rip with
      | (true, c) => .left true (breakpointHit i c s)
      | (false, c) =>
        let s := em.execute i (em.announce i { s with vm := { s.vm with cpu := c } })
        if s.vm.cpu.halted then em.handlerHalted s
        else if s.vm.cpu.branchTaken then .left true s
        else
          let s := advance i s
          if em.isStop s.vm.cpu.rip then .returned s.finish
          else if maxInsns ≤ s.executed then .left true s
          else replayBlock maxInsns rest s

/-- The provider as the decoder reads it. -/
def codeBytes (P : MemoryProvider σ) (mem : σ) : CodeBytes := fun a =>
  match P.read a 1 (fun _ => 0) mem with
  | (.ok _, out, _) => .ok (out 0)
  | (.error s, _, _) => .error s

/-- The block at `pc`, from the cache or freshly decoded; `none` when the decoder does not
end. -/
def fetchBlock (P : MemoryProvider σ) (pc : GuestAddr) (s : RunState σ) :
    Option (Except Status DecodedBlock × RunState σ) :=
  match s.cache.lookup pc with
  | some block => some (.ok block, s)
  | none =>
    (decodeBlock (codeBytes P s.vm.world.mem) pc 1024).map fun r =>
      let world := { s.vm.world with mem := em.fetched pc s.vm.world.mem }
      let s := { s with vm := { s.vm with world } }
      match r with
      | .error e => (.error e, s)
      | .ok block => (.ok block, { s with cache := s.cache.insert pc block })

/-- One turn of the outer loop. -/
inductive Turn (σ : Type) where
  | ends (e : RunEnd σ)
  | goesOn (s : RunState σ)

/-- The state a turn leaves. -/
def Turn.state : Turn σ → RunState σ
  | .ends e => e.state
  | .goesOn s => s

/-- The turn of a block: fetch it, fire the `Block` hooks, replay it. -/
def blockTurn (P : MemoryProvider σ) (maxInsns : Nat) (s : RunState σ) : Option (Turn σ) :=
  (em.fetchBlock P s.vm.cpu.rip s).map fun
    | (.error e, s') =>
      .ends
        { result := { s.resultWith e with finalRip := s.vm.cpu.rip }
          state := s' }
    | (.ok block, s') =>
      match em.replayBlock maxInsns block.insns
          (s'.act (em.fireBlock s.vm.cpu.rip block.byteSize)) with
      | .returned e => .ends e
      | .left branchOrHalt s'' =>
        if branchOrHalt && em.isStop s''.vm.cpu.rip then .ends s''.finish else .goesOn s''

/-- The turn of a stub. -/
def stubTurn (stubs : IatStubs σ) (s : RunState σ) : Turn σ :=
  let pc := s.vm.cpu.rip
  let s' : RunState σ :=
    { s.act (fun vm => (stubs.dispatch em.attached pc vm).2) with dispatched := s.dispatched + 1 }
  if (stubs.dispatch em.attached pc s.vm).1 then
    if em.isStop s'.vm.cpu.rip then .ends s'.finish else .goesOn s'
  else .ends { result := { s'.resultWith s'.vm.cpu.fault.reason with finalRip := pc }, state := s' }

/-- `while (executed < max_insns)`, one turn. -/
def turn (P : MemoryProvider σ) (maxInsns : Nat) (s : RunState σ) : Option (Turn σ) :=
  if maxInsns ≤ s.executed then some (.ends s.finish)
  else if s.vm.cpu.halted then some (.ends s.finish)
  else
    match em.iatStubs with
    | some stubs =>
      if IatStubs.inRegion s.vm.cpu.rip then some (em.stubTurn stubs s)
      else em.blockTurn P maxInsns s
    | none => em.blockTurn P maxInsns s

/-- The turns of a run, with fuel; `none` when it is used up or a decode does not end. -/
def turns (P : MemoryProvider σ) (maxInsns : Nat) : Nat → RunState σ → Option (RunEnd σ)
  | 0, _ => none
  | fuel + 1, s =>
    match em.turn P maxInsns s with
    | none => none
    | some (.ends e) => some e
    | some (.goesOn s') => turns P maxInsns fuel s'

/-- The state the loop starts in. -/
def enter (vm : VmState σ) (cache : BlockCache) (entry : GuestAddr) : RunState σ :=
  { vm := vm.mapCpu fun c => (c.unhalt.clearBranch).setRip entry, cache }

/-- `run_with_cpu`, with fuel for its turns. -/
def runWithCpu (fuel : Nat) (vm : VmState σ) (cache : BlockCache) (entry : GuestAddr)
    (maxInsns : U64) : Option (RunEnd σ) :=
  match em.attached.memRead with
  | none =>
    some { result := { status := .providerFailure }, state := enter vm cache entry }
  | some P => em.turns P maxInsns.toNat fuel (enter vm cache entry)

/-- The run ends so. -/
def Runs (vm : VmState σ) (cache : BlockCache) (entry : GuestAddr) (maxInsns : U64)
    (e : RunEnd σ) : Prop :=
  ∃ fuel, em.runWithCpu fuel vm cache entry maxInsns = some e

end Emulator

end Dispatch

end PicoCpu
