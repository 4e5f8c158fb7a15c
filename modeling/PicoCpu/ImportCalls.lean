import PicoCpu.CachedRuns
import PicoCpu.ImportStubs
import PicoCpu.Memory.Chain
import PicoCpu.Stack

/-!
Imports as the guest calls them. Binding puts the address of every import's slot into its entry of
the IAT. A call through the entry pushes its return address and enters the slot, where the handler
runs and the stub returns: on the whole the handler is called by the guest as a function of the
host, in one step.
-/

namespace PicoCpu

open Granule Handlers

/-! ### The IAT after the binds -/

namespace ShadowPages

theorem SameSetup.writable {sp sp' : ShadowPages} (h : SameSetup sp sp') (addr : GuestAddr)
    (size : Nat) : sp'.writable addr size = sp.writable addr size := by
  unfold ShadowPages.writable permOf ShadowPages.rangeIsPrivate
  rw [h.2.2.2, h.2.1]

/-- The byte of a page, or the one it would be made with. -/
def held (sp : ShadowPages) (a : GuestAddr) : U8 :=
  sp.getOrMakePage (base pageShift a) (off pageShift a)

/-- The number stands in pages that have been made. -/
def HoldsNumber (sp : ShadowPages) (addr : GuestAddr) (v : U64) : Prop :=
  ∀ k < 8, sp.pages (base pageShift (addr + BitVec.ofNat 64 k)) ≠ none ∧
    sp.held (addr + BitVec.ofNat 64 k) = storeLE v k

theorem WrittenPages.held {addr : GuestAddr} {size : Nat} {data : Buf} {sp sp' : ShadowPages}
    (h : WrittenPages addr size data sp sp') (a : GuestAddr) :
    sp'.held a = if InRange addr size a then data (a - addr).toNat else sp.held a := by
  have hbyte := h.contents _ (base_base pageShift a) _ (off_lt pageShift a)
  rw [base_add_off] at hbyte
  exact hbyte

theorem WrittenPages.holdsNumber {addr : GuestAddr} {v : U64} {sp sp' : ShadowPages}
    (h : WrittenPages addr 8 (storeLE v) sp sp') : sp'.HoldsNumber addr v := by
  intro k hk
  have hin : InRange addr 8 (addr + BitVec.ofNat 64 k) := inRange_add addr 8 k hk (by omega)
  constructor
  · intro hnone
    exact ((h.made _).mp hnone).2 ⟨_, hin, rfl⟩
  · rw [h.held, if_pos hin, toNat_add_sub_self addr k (by omega)]

/-- A write beside a number leaves it. -/
theorem HoldsNumber.apart {addr b : GuestAddr} {v : U64} {n : Nat} {data : Buf}
    {sp sp' : ShadowPages} (h : sp.HoldsNumber addr v) (hwritten : WrittenPages b n data sp sp')
    (hapart : Apart addr 8 b n) : sp'.HoldsNumber addr v := by
  intro k hk
  obtain ⟨hmade, hbyte⟩ := h k hk
  constructor
  · exact fun hnone => hmade ((hwritten.made _).mp hnone).1
  · rw [hwritten.held, if_neg (hapart k hk)]
    exact hbyte

/-- It is read back, whatever the backing. -/
theorem HoldsNumber.read {addr : GuestAddr} {v : U64} {sp : ShadowPages}
    (h : sp.HoldsNumber addr v) (out : Buf) :
    (sp.read addr 8 out).1 = .ok () ∧ ∀ k < 8, (sp.read addr 8 out).2 k = storeLE v k := by
  have hleaves : Leaves 8 (fun done (out' : Buf) => ∀ k < done, out' k = storeLE v k)
      (fun _ _ => False) (sp.read addr 8 out) := by
    refine walkRange_rule pageShift _ addr 8 _ _ ?_ out fun k hk => absurd hk (Nat.not_lt_zero k)
    intro done n out' hdone hpos hle hfit
    rw [serve_of_page n done out' (h done (by omega)).1]
    intro k hk
    rw [overwrite]
    split
    · rename_i hnew
      have hplace : addr + BitVec.ofNat 64 done + BitVec.ofNat 64 (k - done) =
          addr + BitVec.ofNat 64 k := by
        rw [add_add_ofNat, Nat.add_sub_cancel' hnew.1]
      have hbyte := (h k (by omega)).2
      rw [ShadowPages.held, ← hplace, base_add pageShift (by decide) _ _ (by omega),
        off_add pageShift (by decide) _ _ (by omega)] at hbyte
      exact hbyte
    · exact hdone k (by omega)
  revert hleaves
  cases sp.read addr 8 out with
  | mk r out' =>
      cases r with
      | error e => exact False.elim
      | ok u => exact fun hbytes => ⟨rfl, hbytes⟩

end ShadowPages

namespace IatStubs

variable {σ : Type}

/-- The entry of the IAT that a call patches. -/
def Call.patched : Call σ → Option GuestAddr
  | .bind iatAddr _ _ => some iatAddr
  | .setStub .. => none

/-- The patched entries, in order. -/
def iatAddrs (calls : List (Call σ)) : List GuestAddr := calls.filterMap Call.patched

theorem iatAddrs_length (calls : List (Call σ)) :
    (iatAddrs calls).length = (imports calls).length := by
  induction calls with
  | nil => rfl
  | cons call calls ih =>
      cases call with
      | bind iatAddr dll name => exact congrArg (· + 1) ih
      | setStub dll name fn => exact ih

/-- No later bind patches a byte of an entry. -/
def EntriesApart (addrs : List GuestAddr) : Prop :=
  ∀ j k, j < k → k < capacity → ∀ a b, addrs[j]? = some a → addrs[k]? = some b → Apart a 8 b 8

/-- What the binds have made of the memory: every entry with a slot holds the address of the slot,
and all bytes outside these entries are as they were. -/
structure Linked (sp sp' : ShadowPages) (addrs : List GuestAddr) : Prop where
  setup : ShadowPages.SameSetup sp sp'
  slots : EntriesApart addrs → ∀ k a, addrs[k]? = some a → k < capacity →
    sp'.HoldsNumber a (slotAddr k)
  others : ∀ x, (∀ a ∈ addrs.take capacity, ¬ InRange a 8 x) → sp'.held x = sp.held x

theorem EntriesApart.init {addrs : List GuestAddr} {a : GuestAddr}
    (h : EntriesApart (addrs ++ [a])) : EntriesApart addrs := by
  intro j k hjk hk b c hb hc
  have hj := (List.getElem?_eq_some_iff.mp hb).1
  have hlt := (List.getElem?_eq_some_iff.mp hc).1
  apply h j k hjk hk b c
  · rw [List.getElem?_append_left hj]
    exact hb
  · rw [List.getElem?_append_left hlt]
    exact hc

variable {sp sp₁ sp₂ : ShadowPages} {addrs : List GuestAddr} {a : GuestAddr}

theorem linked_nil (sp : ShadowPages) : Linked sp sp [] :=
  ⟨.refl sp, fun _ _ _ h => by simp at h, fun _ _ => rfl⟩

/-- A bind without a slot patches nothing. -/
theorem Linked.full (h : Linked sp sp₁ addrs) (hfull : capacity ≤ addrs.length) :
    Linked sp sp₁ (addrs ++ [a]) := by
  refine ⟨h.setup, ?_, ?_⟩
  · intro hapart k b hb hk
    rw [List.getElem?_append_left (by omega)] at hb
    exact h.slots hapart.init k b hb hk
  · intro x hx
    rw [List.take_append_of_le_length hfull] at hx
    exact h.others x hx

/-- A bind with a slot writes its address into the entry. -/
theorem Linked.bind (h : Linked sp sp₁ addrs) (hroom : addrs.length < capacity)
    (hwritten : ShadowPages.WrittenPages a 8 (storeLE (slotAddr addrs.length)) sp₁ sp₂) :
    Linked sp sp₂ (addrs ++ [a]) := by
  refine ⟨h.setup.trans hwritten.setup, ?_, ?_⟩
  · intro hapart k b hb hk
    rcases Nat.lt_or_ge k addrs.length with hold | hnew
    · have hbefore := hb
      rw [List.getElem?_append_left hold] at hbefore
      apply (h.slots hapart.init k b hbefore hk).apart hwritten
      exact hapart k addrs.length hold hroom b a hb List.getElem?_concat_length
    · have hlast := (List.getElem?_eq_some_iff.mp hb).1
      rw [List.length_append, List.length_singleton] at hlast
      obtain rfl : k = addrs.length := by omega
      rw [List.getElem?_concat_length, Option.some.injEq] at hb
      subst hb
      exact hwritten.holdsNumber
  · intro x hx
    have htake : (addrs ++ [a]).take capacity = addrs.take capacity ++ [a] := by
      rw [List.take_of_length_le (by simp; omega), List.take_of_length_le (by omega)]
    simp only [htake, List.forall_mem_append, List.forall_mem_singleton] at hx
    rw [hwritten.held, if_neg hx.2]
    exact h.others x hx.1

/-- Two imports whose entries are next to each other. -/
def adjacent : List (Call Unit) :=
  [.bind 0x3000 "kernel32.dll" "Sleep", .bind 0x3008 "kernel32.dll" "GetTickCount"]

theorem inRegion_slotAddr {k : Nat} (hk : k < capacity) : inRegion (slotAddr k) = true := by
  have hcapacity : capacity = 8192 := rfl
  have hbase : kStubBase.toNat = 0x7FFEF0000000 := by decide
  have hend : (kStubBase + kStubSize).toNat = 0x7FFEF0000000 + 65536 := by decide
  have haddr := slotAddr_toNat (le_of_lt hk)
  rw [inRegion, Bool.and_eq_true, BitVec.ule, BitVec.ult, decide_eq_true_eq, decide_eq_true_eq,
    hend, haddr, hbase]
  omega

/-- The import whose slot has this address. -/
def slotEntry (entries : List IatEntry) (a : GuestAddr) : Option IatEntry :=
  let k := (a - kStubBase).toNat / 8
  if k < capacity ∧ slotAddr k = a then entries[k]? else none

theorem slotEntry_eq_some {entries : List IatEntry} {a : GuestAddr} {e : IatEntry}
    (h : slotEntry entries a = some e) :
    ∃ k, k < capacity ∧ slotAddr k = a ∧ entries[k]? = some e := by
  rw [slotEntry] at h
  split at h
  · rename_i hslot
    exact ⟨_, hslot.1, hslot.2, h⟩
  · cases h

/-- The import that an instruction calls: its operand in memory holds the address of the slot. -/
def callee (P : MemoryProvider σ) (entries : List IatEntry) (i : Insn) (s : VmState σ) :
    Option IatEntry :=
  if i.handler = .opCall ∧ i.dst.isMem = true then
    match P.read (ea s.cpu i i.dst) 8 (fun _ => 0) s.world.mem with
    | (.ok _, buf, _) => slotEntry entries (loadLE buf 8)
    | (.error _, _, _) => none
  else none

/-! ### The call of a handler -/

/-- The handler of an import as a function that the guest calls: it goes on at the return address,
with the stack pointer as it was before the call. -/
def hostCall (fn : Option (StubFn σ)) (e : IatEntry) (ret : GuestAddr) (rsp : U64)
    (s : VmState σ) : VmState σ :=
  (invoke fn e s).mapCpu fun c => (c.setR64 Reg.rsp rsp).setRip ret

/-- The handler, called in this state, keeps the stack pointer and the return address there, which
can be read. -/
structure Returns (P : MemoryProvider σ) (Inv : σ → Prop) (mem : σ → ByteMap)
    (fn : Option (StubFn σ)) (e : IatEntry) (s : VmState σ) : Prop where
  rsp : (invoke fn e s).cpu.r Reg.rsp = s.cpu.r Reg.rsp
  inv : Inv (invoke fn e s).world.mem
  slot : ∀ k < 8, mem (invoke fn e s).world.mem (s.cpu.r Reg.rsp + BitVec.ofNat 64 k) =
    mem s.world.mem (s.cpu.r Reg.rsp + BitVec.ofNat 64 k)
  read : (P.read (s.cpu.r Reg.rsp) 8 (fun _ => 0) (invoke fn e s).world.mem).1 = .ok ()

end IatStubs

/-- Reads leave the provider as it is. -/
def MemoryProvider.Still {σ : Type} (P : MemoryProvider σ) : Prop :=
  ∀ addr size out s, (P.read addr size out s).2.2 = s

theorem ShadowPages.still : ShadowPages.provider.Still := fun _ _ _ _ => rfl

namespace IatStubs

variable {σ : Type} {at_ : Attached σ} {P : MemoryProvider σ} {Inv : σ → Prop}
  {mem : σ → ByteMap} {fn : Option (StubFn σ)} {e : IatEntry} {s : VmState σ}

/-- The stub returns as the function of the host does. -/
theorem popRet_hostCall (hread : at_.memRead = some P) (hrep : at_.Represents Inv mem)
    (hstill : P.Still) (hreturns : Returns P Inv mem fn e s) {ret : GuestAddr} {rsp : U64}
    (hrsp : s.cpu.r Reg.rsp + 8 = rsp)
    (hret : NumberAt (mem s.world.mem) (s.cpu.r Reg.rsp) 8 ret) :
    (invoke fn e s).popRet at_ = (true, hostCall fn e ret rsp s) := by
  have hkept : NumberAt (mem (invoke fn e s).world.mem) (s.cpu.r Reg.rsp) 8 ret :=
    fun k hk => (hreturns.slot k hk).trans (hret k hk)
  have hok := hreturns.read
  have hsame := hstill (s.cpu.r Reg.rsp) 8 (fun _ => 0) (invoke fn e s).world.mem
  have hbytes := (hrep.read P hread).read_ok _ 8 (fun _ => 0) _ (by omega) hreturns.inv hok
  rw [VmState.popRet, hread]
  simp only [hreturns.rsp]
  rcases hanswer : P.read (s.cpu.r Reg.rsp) 8 (fun _ => 0) (invoke fn e s).world.mem with
    ⟨r, buf, mem'⟩
  rw [hanswer] at hok hsame hbytes
  obtain rfl : r = .ok () := hok
  obtain rfl : mem' = (invoke fn e s).world.mem := hsame
  have hnumber : NumberAt (mem (invoke fn e s).world.mem) (s.cpu.r Reg.rsp) 8 (loadLE buf 8) := by
    intro k hk
    rw [storeLE_loadLE buf hk (Nat.le_refl 8)]
    exact hbytes k hk
  simp only [hrsp, hnumber.unique hkept]
  rfl

end IatStubs

namespace Emulator

variable {σ : Type}

/-! ### The loop with atomic imports -/

section Atomic

variable (em : Emulator σ) (P : MemoryProvider σ) (maxInsns : Nat)
  (calls : List (IatStubs.Call σ)) (default : Option (StubFn σ))

/-- The instruction completes, and the loop goes on after it with some of the budget left. -/
def completes (i : Insn) (s : RunState σ) : Bool :=
  !(s.vm.cpu.clearBranch.execBreakpointAt i.rip).1 && !(em.afterInsn i s).vm.cpu.halted &&
    !em.isStop (em.afterInsn i s).vm.cpu.rip && decide ((em.afterInsn i s).executed < maxInsns)

/-- After the instruction, the import has been called. -/
def afterImport (fn : Option (StubFn σ)) (e : IatEntry) (i : Insn) (s : RunState σ) : RunState σ :=
  { (em.afterInsn i s).act
      (IatStubs.hostCall fn e (nextRip i) ((em.atHandler i s).vm.cpu.r Reg.rsp)) with
    dispatched := s.dispatched + 1 }

/-- The import that the instruction is about to call. -/
def imported (i : Insn) (s : RunState σ) : Option IatEntry :=
  IatStubs.callee P ((IatStubs.imports calls).take IatStubs.capacity) i (em.atHandler i s).vm

/-- One instruction; a call of an import takes the call of its handler with it. -/
def atomicStep (i : Insn) (s : RunState σ) : Turn σ :=
  match em.imported P calls i s with
  | none => em.stepOnce i s
  | some e =>
    if em.completes maxInsns i s then
      em.orStop (em.afterImport (IatStubs.handler calls default e) e i s)
    else em.stepOnce i s

/-- A turn of the loop in which imports are functions of the host. -/
def atomicTurn (s : RunState σ) : Option (Turn σ) :=
  if maxInsns ≤ s.executed then some (.ends s.finish)
  else if s.vm.cpu.halted then some (.ends s.finish)
  else
    match em.iatStubs with
    | some stubs =>
      if IatStubs.inRegion s.vm.cpu.rip then some (em.stubTurn stubs s)
      else
        (decodeOne (codeBytes P s.vm.world.mem) s.vm.cpu.rip prefixFuel).map fun
          | .error e => .ends { result := { s.resultWith e with finalRip := s.vm.cpu.rip }
                                state := s }
          | .ok i => em.atomicStep P maxInsns calls default i s
    | none => em.insnTurn P s

def atomicLoop : Loops.Next (RunState σ) (RunEnd σ) :=
  fun s => (em.atomicTurn P maxInsns calls default s).map Turn.outcome

/-- At this state the instruction calls an import, with some of the budget left. -/
structure CallsImport (e : IatEntry) (i : Insn) (s : RunState σ) : Prop where
  decoded : decodeOne (codeBytes P s.vm.world.mem) s.vm.cpu.rip prefixFuel = some (.ok i)
  imported : em.imported P calls i s = some e
  completes : em.completes maxInsns i s = true

/-- What a call of an import relies on: RSP and the return address are no part of its target, and
the handler keeps them, whatever else the CPU holds. -/
structure SafeImport (Inv : σ → Prop) (mem : σ → ByteMap) (fn : Option (StubFn σ)) (e : IatEntry)
    (i : Insn) (s : RunState σ) : Prop where
  inv : Inv (em.atHandler i s).vm.world.mem
  target : TargetSafe i (em.atHandler i s).vm.cpu
  returns : ∀ c : Cpu, c.gpr = (em.afterInsn i s).vm.cpu.gpr →
    IatStubs.Returns P Inv mem fn e ⟨c, (em.afterInsn i s).vm.world⟩

/-- Every call of an import that the loop comes to is safe. -/
def SafeImports (Inv : σ → Prop) (mem : σ → ByteMap) (s₀ : RunState σ) : Prop :=
  ∀ s, Loops.Reached (em.atomicLoop P maxInsns calls default) s₀ s → ∀ e i,
    em.CallsImport P maxInsns calls e i s →
      em.SafeImport P Inv mem (IatStubs.handler calls default e) e i s

end Atomic

section Simulation

variable {em : Emulator σ} {P : MemoryProvider σ} {Inv : σ → Prop} {mem : σ → ByteMap}
  {maxInsns : Nat} {calls : List (IatStubs.Call σ)} {default : Option (StubFn σ)} {e : IatEntry}
  {i : Insn} {s : RunState σ}

/-- Where a call of an import leaves the guest. -/
structure AtSlot (mem : σ → ByteMap) (k : Nat) (i : Insn) (h s : VmState σ) : Prop where
  rip : s.cpu.rip = IatStubs.slotAddr k
  branch : s.cpu.branchTaken = true
  rsp : s.cpu.r Reg.rsp + 8 = h.cpu.r Reg.rsp
  ret : NumberAt (mem s.world.mem) (s.cpu.r Reg.rsp) 8 (nextRip i)

/-- A call through the entry of an import goes to the slot of the import. -/
theorem CallsImport.atSlot (h : em.CallsImport P maxInsns calls e i s)
    (hread : em.attached.memRead = some P) (hrep : em.attached.Represents Inv mem)
    (hhooks : em.attached.HooksFollow Cpu.Undisturbed) (hinv : Inv (em.atHandler i s).vm.world.mem)
    (htarget : TargetSafe i (em.atHandler i s).vm.cpu) :
    ∃ k, k < IatStubs.capacity ∧ (IatStubs.imports calls)[k]? = some e ∧
      AtSlot mem k i (em.atHandler i s).vm (em.afterInsn i s).vm := by
  have hcallee := h.imported
  rw [Emulator.imported, IatStubs.callee] at hcallee
  split at hcallee
  · rename_i hcall
    obtain ⟨hhandler, hmem⟩ := hcall
    have hok := (hrep.read P hread).read_ok (ea (em.atHandler i s).vm.cpu i i.dst) 8 (fun _ => 0)
      _ (by omega) hinv
    split at hcallee
    · rename_i u buf mem' hanswer
      rw [hanswer] at hok
      obtain ⟨k, hk, hslot, hentry⟩ := IatStubs.slotEntry_eq_some hcallee
      have hnumber : NumberAt (mem (em.atHandler i s).vm.world.mem)
          (ea (em.atHandler i s).vm.cpu i i.dst) 8 (IatStubs.slotAddr k) := by
        intro j hj
        rw [hslot, storeLE_loadLE buf hj (Nat.le_refl 8)]
        exact hok rfl j hj
      have hends : (i.run em.fp).EndsIn em.attached (em.atHandler i s).vm.cpu
          (em.atHandler i s).vm.world _ (em.afterInsn i s).vm.cpu (em.afterInsn i s).vm.world :=
        ⟨_, rfl⟩
      have hrunning : (em.afterInsn i s).vm.cpu.halted = false := by
        have hcompletes := h.completes
        simp only [Emulator.completes, Bool.and_eq_true, Bool.not_eq_true'] at hcompletes
        exact hcompletes.1.1.2
      have hreference := call_exact em.fp (decodeOne_accepted h.decoded).fits hhandler htarget σ
        em.attached Inv mem _ _ _ _ hrep hhooks hinv hends hrunning
      have htargets : i.Targets (em.atHandler i s).vm.cpu (mem (em.atHandler i s).vm.world.mem)
          (IatStubs.slotAddr k) := by
        rw [Operand.isMem, Bool.or_eq_true, beq_iff_eq, beq_iff_eq] at hmem
        unfold Insn.Targets
        rcases hmem with hkind | hkind
        · rw [hkind]
          exact hnumber
        · rw [hkind]
          exact hnumber
      rw [StackReference, hhandler] at hreference
      obtain ⟨hgpr, hwritten, hrip, hbranch⟩ := hreference _ htargets
      have hrsp : (em.afterInsn i s).vm.cpu.r Reg.rsp = (em.atHandler i s).vm.cpu.slot 8 :=
        (congrFun hgpr Reg.rsp).trans (Cpu.r_setR _ Reg.rsp _)
      refine ⟨k, hk, ?_, hrip, hbranch, ?_, ?_⟩
      · rw [← List.getElem?_take_of_lt hk]
        exact hentry
      · rw [hrsp]
        exact BitVec.sub_add_cancel ..
      · rw [hrsp]
        exact NumberAt.of_written (Nat.le_refl 8) hwritten
    · cases hcallee
  · cases hcallee

/-- In the slot, the stub is the call of the handler. -/
theorem AtSlot.stubTurn {shadow : ShadowPages} {k : Nat}
    (hat : AtSlot mem k i (em.atHandler i s).vm (em.afterInsn i s).vm)
    (hread : em.attached.memRead = some P) (hrep : em.attached.Represents Inv mem)
    (hstill : P.Still) (hk : k < IatStubs.capacity)
    (he : (IatStubs.imports calls)[k]? = some e) (hclear : IatStubs.Unambiguous calls e)
    (hsafe : em.SafeImport P Inv mem (IatStubs.handler calls default e) e i s) :
    em.stubTurn (IatStubs.afterCalls calls default shadow).stubs (em.afterInsn i s) =
      em.orStop (em.afterImport (IatStubs.handler calls default e) e i s) := by
  have hentry : (IatStubs.afterCalls calls default shadow).stubs.entries[k]? = some e := by
    rw [(IatStubs.laid_afterCalls calls default shadow).entries, List.getElem?_take_of_lt hk]
    exact he
  have hdispatch (c : Cpu) (hc : c.gpr = (em.afterInsn i s).vm.cpu.gpr) :
      (IatStubs.afterCalls calls default shadow).stubs.dispatch em.attached
        (em.afterInsn i s).vm.cpu.rip ⟨c, (em.afterInsn i s).vm.world⟩ =
      (true, IatStubs.hostCall (IatStubs.handler calls default e) e (nextRip i)
        ((em.atHandler i s).vm.cpu.r Reg.rsp) ⟨c, (em.afterInsn i s).vm.world⟩) := by
    have hrsp : c.r Reg.rsp = (em.afterInsn i s).vm.cpu.r Reg.rsp := congrFun hc Reg.rsp
    rw [hat.rip, IatStubs.dispatch_slot hk hentry, IatStubs.lookup_eq_handler hclear]
    apply IatStubs.popRet_hostCall hread hrep hstill (hsafe.returns c hc)
    · rw [hrsp]
      exact hat.rsp
    · rw [hrsp]
      exact hat.ret
  have hstate : em.afterStub (IatStubs.afterCalls calls default shadow).stubs (em.afterInsn i s) =
      em.afterImport (IatStubs.handler calls default e) e i s := by
    have hlatch := hdispatch (em.afterInsn i s).vm.cpu.clearFault rfl
    simp only [afterStub, afterImport, RunState.act, Latches, VmState.mapCpu, hlatch,
      hdispatch _ rfl]
    rfl
  rw [stubTurn_eq, hstate, if_pos (congrArg Prod.fst (hdispatch _ rfl))]

/-- The loop takes two turns for it: one for the instruction and one for the stub. -/
theorem CallsImport.turns {shadow : ShadowPages} (h : em.CallsImport P maxInsns calls e i s)
    (hread : em.attached.memRead = some P) (hrep : em.attached.Represents Inv mem)
    (hhooks : em.attached.HooksFollow Cpu.Undisturbed) (hstill : P.Still)
    (hstubs : em.iatStubs = some (IatStubs.afterCalls calls default shadow).stubs)
    (hclear : IatStubs.Unambiguous calls e)
    (hsafe : em.SafeImport P Inv mem (IatStubs.handler calls default e) e i s) :
    em.stepOnce i s = .goesOn (em.afterInsn i s) ∧
      em.plainTurn P maxInsns (em.afterInsn i s) =
        some (em.orStop (em.afterImport (IatStubs.handler calls default e) e i s)) := by
  obtain ⟨k, hk, he, hat⟩ := h.atSlot hread hrep hhooks hsafe.inv hsafe.target
  have hcompletes := h.completes
  simp only [Emulator.completes, Bool.and_eq_true, Bool.not_eq_true', decide_eq_true_eq]
    at hcompletes
  obtain ⟨⟨⟨hpasses, hrunning⟩, hstop⟩, hbudget⟩ := hcompletes
  constructor
  · simp [stepOnce, hpasses, hrunning, hat.branch, orStop, hstop]
  · have hregion := IatStubs.inRegion_slotAddr hk
    rw [← hat.rip] at hregion
    rw [plainTurn, if_neg (not_le.mpr hbudget), if_neg (by simp [hrunning]), hstubs]
    simp only [if_pos hregion]
    rw [hat.stubTurn hread hrep hstill hk he hclear hsafe]

/-- A turn of the loop with atomic imports is one of the loop, or calls an import. -/
theorem atomicTurn_eq (em : Emulator σ) (P : MemoryProvider σ) (maxInsns : Nat)
    (calls : List (IatStubs.Call σ)) (default : Option (StubFn σ)) (s : RunState σ) :
    em.atomicTurn P maxInsns calls default s = em.plainTurn P maxInsns s ∨
      ∃ e i, em.CallsImport P maxInsns calls e i s ∧
        em.plainTurn P maxInsns s = some (em.stepOnce i s) ∧
        em.atomicTurn P maxInsns calls default s =
          some (em.orStop (em.afterImport (IatStubs.handler calls default e) e i s)) := by
  unfold atomicTurn plainTurn
  split
  · exact .inl rfl
  · split
    · exact .inl rfl
    · cases em.iatStubs with
      | none => exact .inl rfl
      | some stubs =>
          simp only
          split
          · exact .inl rfl
          · rw [insnTurn]
            cases hd : decodeOne (codeBytes P s.vm.world.mem) s.vm.cpu.rip prefixFuel with
            | none => exact .inl rfl
            | some r =>
                cases r with
                | error e => exact .inl rfl
                | ok i =>
                    simp only [Option.map_some, atomicStep]
                    cases himported : em.imported P calls i s with
                    | none => exact .inl rfl
                    | some e =>
                        cases hcompletes : em.completes maxInsns i s with
                        | false => exact .inl rfl
                        | true => exact .inr ⟨e, i, ⟨hd, himported, hcompletes⟩, rfl, rfl⟩

/-- The loop catches up with the loop in which imports are atomic. -/
theorem atomic_batches {shadow : ShadowPages} {s₀ : RunState σ}
    (hread : em.attached.memRead = some P) (hrep : em.attached.Represents Inv mem)
    (hhooks : em.attached.HooksFollow Cpu.Undisturbed) (hstill : P.Still)
    (hstubs : em.iatStubs = some (IatStubs.afterCalls calls default shadow).stubs)
    (hclear : ∀ e ∈ IatStubs.imports calls, IatStubs.Unambiguous calls e)
    (hsafe : em.SafeImports P maxInsns calls default Inv mem s₀) :
    Loops.Batches (em.atomicLoop P maxInsns calls default) (em.plainLoop P maxInsns)
      (fun s t => s = t ∧ Loops.Reached (em.atomicLoop P maxInsns calls default) s₀ s) Eq := by
  constructor
  · rintro s _ ⟨rfl, hreached⟩ hturn
    rcases atomicTurn_eq em P maxInsns calls default s with hsame | ⟨e, i, _, _, hatomic⟩
    · rw [atomicLoop, hsame]
      exact hturn
    · rw [atomicLoop, hatomic]
      exact Option.some_ne_none _
  · rintro s _ x ⟨rfl, hreached⟩ hturn
    have hnext (s' : RunState σ) (hx : x = .inl s') : s' = s' ∧
        Loops.Reached (em.atomicLoop P maxInsns calls default) s₀ s' :=
      ⟨rfl, hreached.turn (hx ▸ hturn)⟩
    rcases atomicTurn_eq em P maxInsns calls default s with hsame | ⟨e, i, hcall, hplain, hatomic⟩
    · rw [atomicLoop, hsame] at hturn
      exact .own hturn hnext
    · obtain ⟨k, hk, he, _⟩ := hcall.atSlot hread hrep hhooks
        (hsafe s hreached e i hcall).inv (hsafe s hreached e i hcall).target
      obtain ⟨hstep, hstub⟩ := hcall.turns hread hrep hhooks hstill hstubs
        (hclear e (List.mem_of_getElem? he)) (hsafe s hreached e i hcall)
      rw [atomicLoop, hatomic] at hturn
      have hfirst : em.plainLoop P maxInsns s = some (.inl (em.afterInsn i s)) := by
        rw [plainLoop, hplain, hstep]
        rfl
      have hsecond : em.plainLoop P maxInsns (em.afterInsn i s) = some x := by
        rw [plainLoop, hstub]
        exact hturn
      exact .turn hfirst (.own hsecond hnext)

/-- Imports are functions of the host: as long as the calls of imports are safe, a run through the
stub region ends exactly when the run does in which a call of an import is one step, and with the
same end. -/
theorem import_calls_atomic (em : Emulator σ) (P : MemoryProvider σ) (Inv : σ → Prop)
    (mem : σ → ByteMap) (maxInsns : Nat) (calls : List (IatStubs.Call σ))
    (default : Option (StubFn σ)) (shadow : ShadowPages) (s : RunState σ)
    (hread : em.attached.memRead = some P) (hrep : em.attached.Represents Inv mem)
    (hhooks : em.attached.HooksFollow Cpu.Undisturbed) (hstill : P.Still)
    (hstubs : em.iatStubs = some (IatStubs.afterCalls calls default shadow).stubs)
    (hclear : ∀ e ∈ IatStubs.imports calls, IatStubs.Unambiguous calls e)
    (hsafe : em.SafeImports P maxInsns calls default Inv mem s) (e : RunEnd σ) :
    Loops.Ends (em.plainLoop P maxInsns) s e ↔
      Loops.Ends (em.atomicLoop P maxInsns calls default) s e := by
  have hbatches := atomic_batches hread hrep hhooks hstill hstubs hclear hsafe
  constructor
  · intro hends
    obtain ⟨f, hf, rfl⟩ := hbatches.ends_of_small ⟨rfl, .refl s⟩ hends
    exact hf
  · intro hends
    obtain ⟨f, hf, rfl⟩ := hbatches.ends ⟨rfl, .refl s⟩ hends
    exact hf

end Simulation

/-! ### A call of an import -/

/-- A handler that puts a count into RAX. -/
def ticks : StubFn ShadowPages := fun _ _ s => s.mapCpu fun c => c.setR64 Reg.rax 7

def tickCalls : List (IatStubs.Call ShadowPages) :=
  [.setStub "" "GetTickCount" ticks, .bind 0x2008 "kernel32.DLL" "Sleep",
    .bind 0x2000 "kernel32.DLL" "GetTickCount"]

/-- A page with a call through the entry at 0x2000, and private pages for the IAT and the stack. -/
def callPages : ShadowPages where
  pages p := if p = 0x1000 then some fun i => [0xFF, 0x15, 0xFA, 0x0F].getD i 0 else none
  privateRanges := [⟨0x2000, 0x2000⟩]

theorem callPages_backed : callPages.Backed fun _ => none := fun _ h => nomatch h

def tickBound : IatStubs.Bound ShadowPages := IatStubs.afterCalls tickCalls none callPages

def callMachine : Emulator ShadowPages where
  fp := default
  attached := { memRead := some ShadowPages.provider, memWrite := some ShadowPages.provider }
  iatStubs := some tickBound.stubs
  stopAddrs := [0x1006]

def callStart : RunState ShadowPages :=
  enter ⟨({} : Cpu).setR64 Reg.rsp 0x3008, { mem := tickBound.shadow }⟩ (fun _ => none) 0x1000

theorem callMachine_represents : callMachine.attached.Represents
    (ShadowPages.Backed fun _ => none) (ShadowPages.byteMap fun _ => none) where
  read := by
    intro P hP
    cases hP
    exact ShadowPages.represents
  write := by
    intro P hP
    cases hP
    exact ShadowPages.represents

theorem returns_tickCalls {e : IatEntry} {s : VmState ShadowPages}
    (hbacked : s.world.mem.Backed fun _ => none)
    (hread : (ShadowPages.provider.read (s.cpu.r Reg.rsp) 8 (fun _ => 0) s.world.mem).1 = .ok ()) :
    IatStubs.Returns ShadowPages.provider (ShadowPages.Backed fun _ => none)
      (ShadowPages.byteMap fun _ => none) (IatStubs.handler tickCalls none e) e s := by
  have hkeep (v : U64) : (s.cpu.setR64 Reg.rax v).r Reg.rsp = s.cpu.r Reg.rsp := rfl
  have hregistered (e : IatEntry) : IatStubs.registered tickCalls e = some ticks ∨
      IatStubs.registered tickCalls e = none := by
    simp only [IatStubs.registered, tickCalls, List.filterMap_cons, List.filterMap_nil,
      IatStubs.Call.fnFor]
    split
    · exact .inr rfl
    · rename_i fn hfn
      split at hfn
      · cases hfn
        exact .inl rfl
      · cases hfn
  have hhandler : IatStubs.handler tickCalls none e = some ticks ∨
      IatStubs.handler tickCalls none e = none := by
    rw [IatStubs.handler]
    rcases hregistered e with hown | hown
    · rw [hown]
      exact .inl rfl
    · rw [hown]
      rcases hregistered { e with dll := "" } with hany | hany
      · rw [hany]
        exact .inl rfl
      · rw [hany]
        exact .inr rfl
  rcases hhandler with hticks | hnone
  · rw [hticks]
    exact ⟨hkeep 7, hbacked, fun _ _ => rfl, hread⟩
  · rw [hnone]
    exact ⟨hkeep 0, hbacked, fun _ _ => rfl, hread⟩

/-- The run with atomic imports ends with its first turn, behind the call. -/
theorem callStart_ends :
    (callMachine.atomicLoop ShadowPages.provider 2 tickCalls none callStart).any
      (Sum.elim (fun _ => false)
        fun e => e.result.finalRip == 0x1006 && e.result.finalRax == 7) = true := by
  decide +kernel

theorem eq_callStart {s : RunState ShadowPages}
    (h : Loops.Reached (callMachine.atomicLoop ShadowPages.provider 2 tickCalls none) callStart s) :
    s = callStart := by
  obtain ⟨n, hgoes⟩ := h
  cases hgoes with
  | refl => rfl
  | turn hturn =>
      have hends := callStart_ends
      rw [hturn] at hends
      cases hends

/-- What is checked of the instruction that the run starts with. -/
def callFits (i : Insn) : Bool :=
  i.dst.kind == .ripRelMem &&
    decide (Apart (ea (callMachine.atHandler i callStart).vm.cpu i i.dst) 8
      ((callMachine.atHandler i callStart).vm.cpu.slot 8) 8) &&
    (callMachine.atHandler i callStart).vm.world.mem.backing.isNone &&
    (callMachine.afterInsn i callStart).vm.world.mem.backing.isNone &&
    (ShadowPages.provider.read ((callMachine.afterInsn i callStart).vm.cpu.r Reg.rsp) 8
      (fun _ => 0) (callMachine.afterInsn i callStart).vm.world.mem).1.toBool

theorem callFits_decoded : (decodeOne (codeBytes ShadowPages.provider callStart.vm.world.mem)
    callStart.vm.cpu.rip prefixFuel).any (fun r => r.toOption.any callFits) = true := by
  decide +kernel

theorem ok_of_toBool {ε : Type} {r : Except ε Unit} (h : r.toBool = true) : r = .ok () := by
  cases r with
  | ok u => rfl
  | error e => cases h

theorem safe_tickCalls : callMachine.SafeImports ShadowPages.provider 2 tickCalls none
    (ShadowPages.Backed fun _ => none) (ShadowPages.byteMap fun _ => none) callStart := by
  intro s hreached e i hcall
  obtain rfl := eq_callStart hreached
  have hfits := callFits_decoded
  rw [hcall.decoded] at hfits
  have hfits : callFits i = true := hfits
  simp only [callFits, Bool.and_eq_true, beq_iff_eq, decide_eq_true_eq,
    Option.isNone_iff_eq_none] at hfits
  obtain ⟨⟨⟨⟨hkind, hapart⟩, hbefore⟩, hafter⟩, hread⟩ := hfits
  have hread := ok_of_toBool hread
  have hbacked {sp : ShadowPages} (hnone : sp.backing = none) : sp.Backed fun _ => none := by
    intro backing hsome
    rw [hnone] at hsome
    cases hsome
  have hea (c d : Cpu) : ea c i i.dst = ea d i i.dst := by
    rw [ea, ea, if_pos hkind, if_pos hkind]
  constructor
  · exact hbacked hbefore
  · unfold TargetSafe
    rw [hkind]
    exact fun _ => ⟨hea _ _, hapart⟩
  · intro c hc
    have hrsp : c.r Reg.rsp = (callMachine.afterInsn i callStart).vm.cpu.r Reg.rsp :=
      congrFun hc Reg.rsp
    refine returns_tickCalls (hbacked hafter) ?_
    rw [hrsp]
    exact hread

theorem unambiguous_tickCalls (e : IatEntry) (he : e ∈ IatStubs.imports tickCalls) :
    IatStubs.Unambiguous tickCalls e := by
  apply IatStubs.unambiguous_of_barless
  · intro dll name fn hcall
    simp only [tickCalls, List.mem_cons, List.not_mem_nil, or_false] at hcall
    rcases hcall with hset | hbind | hbind
    · cases hset
      decide
    · cases hbind
    · cases hbind
  · obtain ⟨call, hcall, hentry⟩ := List.mem_filterMap.mp he
    simp only [tickCalls, List.mem_cons, List.not_mem_nil, or_false] at hcall
    rcases hcall with rfl | rfl | rfl
    · cases hentry
    · cases hentry
      decide
    · cases hentry
      decide

theorem import_calls_atomic_tickCount :
    ∃ e, Loops.Ends (callMachine.plainLoop ShadowPages.provider 2) callStart e ∧
      e.result.finalRip = 0x1006 ∧ e.result.finalRax = 7 := by
  have hatomic := import_calls_atomic callMachine ShadowPages.provider
    (ShadowPages.Backed fun _ => none) (ShadowPages.byteMap fun _ => none) 2 tickCalls none
    callPages callStart rfl callMachine_represents
    ⟨fun _ h => (List.not_mem_nil h).elim, fun _ h => (List.not_mem_nil h).elim⟩
    ShadowPages.still rfl unambiguous_tickCalls safe_tickCalls
  have hends := callStart_ends
  cases hturn : callMachine.atomicLoop ShadowPages.provider 2 tickCalls none callStart with
  | none =>
      rw [hturn] at hends
      cases hends
  | some x =>
      rw [hturn] at hends
      cases x with
      | inl s => cases hends
      | inr e =>
          have hresult : (e.result.finalRip == 0x1006 && e.result.finalRax == 7) = true := hends
          rw [Bool.and_eq_true, beq_iff_eq, beq_iff_eq] at hresult
          exact ⟨e, (hatomic e).mpr ⟨0, Loops.endsIn_zero hturn⟩, hresult⟩

end Emulator

end PicoCpu
