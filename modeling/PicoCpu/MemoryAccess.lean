import PicoCpu.OperandRuns
import PicoCpu.Faults
import PicoCpu.LazySync

/-!
What a program that gets through its accesses to memory has done: which addresses the providers were
asked for, what they answered, and what the hooks made of the CPU.
-/

namespace PicoCpu

open H Proc Granule

variable {σ : Type}

namespace Attached

variable (at_ : Attached σ)

/-- A read of a number answered by the provider. -/
def Reads (addr : GuestAddr) (size : Nat) (w : World σ) (v : U64) (w' : World σ) : Prop :=
  ∃ buf, at_.env (.read addr size) w = ((.ok buf : Except Status Buf), w') ∧ v = loadLE buf size

/-- A write of a number taken by the provider. -/
def Writes (addr : GuestAddr) (size : Nat) (v : U64) (w w' : World σ) : Prop :=
  at_.env (.write addr size (storeLE v)) w = ((.ok () : Except Status Unit), w')

/-- What the hooks of an access make of the CPU. -/
def hooked (isWrite : Bool) (addr : GuestAddr) (size : Nat) (value : U64) (c : Cpu) : Cpu :=
  runMemHooks (if isWrite then at_.writeHooks else at_.readHooks) addr size value isWrite c

end Attached

section Accesses

variable {at_ : Attached σ} {c c' : Cpu} {w w' : World σ} {addr : GuestAddr} {size : Nat}

theorem Attached.Reads.unique {v v' : U64} {w'' : World σ} (h : at_.Reads addr size w v w')
    (h' : at_.Reads addr size w v' w'') : v = v' ∧ w' = w'' := by
  obtain ⟨buf, hread, rfl⟩ := h
  obtain ⟨buf', hread', rfl⟩ := h'
  cases hread.symm.trans hread'
  exact ⟨rfl, rfl⟩

theorem endsIn_requireAttached {isWrite : Bool} {note : String}
    (h : (if isWrite then at_.memWrite else at_.memRead).isSome = true) :
    (requireAttached isWrite addr note).EndsIn at_ c w (some ()) c w := by
  refine ⟨[⟨MachineOp.attached isWrite, true⟩], ?_⟩
  rw [requireAttached, run_bind, run_attached, h]
  rfl

/-- Without a provider nothing is asked of it. -/
theorem not_endsIn_requireAttached {isWrite : Bool} {note : String}
    (h : (if isWrite then at_.memWrite else at_.memRead).isSome = false) :
    ¬ (requireAttached isWrite addr note).EndsIn at_ c w (some ()) c' w' := by
  rintro ⟨tr, hrun⟩
  rw [requireAttached, run_bind, run_attached, h] at hrun
  cases hrun

theorem requireAttached_bind_iff {β : Type} {isWrite : Bool} {note : String} {p : H β} {b : β} :
    (requireAttached isWrite addr note >>= fun _ => p).EndsIn at_ c w (some b) c' w' ↔
      (if isWrite then at_.memWrite else at_.memRead).isSome = true ∧
        p.EndsIn at_ c w (some b) c' w' := by
  cases h : (if isWrite then at_.memWrite else at_.memRead).isSome with
  | true =>
      rw [(endsIn_requireAttached h).bind_iff]
      exact ⟨fun hp => ⟨rfl, hp⟩, And.right⟩
  | false =>
      constructor
      · intro hends
        obtain ⟨_, _, _, hends, _⟩ := hends.of_bind
        exact absurd hends (not_endsIn_requireAttached h)
      · rintro ⟨hfalse, _⟩
        cases hfalse

theorem checkDataBreakpoint_bind_iff {β : Type} {isWrite : Bool} {note : String} {p : H β} {b : β} :
    (checkDataBreakpoint addr isWrite size note >>= fun _ => p).EndsIn at_ c w (some b) c' w' ↔
      (c.dataBreakpointAt addr isWrite size).1 = false ∧ p.EndsIn at_ c w (some b) c' w' := by
  cases h : (c.dataBreakpointAt addr isWrite size).1 with
  | true =>
      constructor
      · intro hends
        obtain ⟨_, _, _, ⟨tr, hrun⟩, _⟩ := hends.of_bind
        rw [checkDataBreakpoint, run_gets_bind, run_modify_bind, h] at hrun
        cases hrun
      · rintro ⟨hfalse, _⟩
        cases hfalse
  | false =>
      have hmiss : (checkDataBreakpoint addr isWrite size note).EndsIn at_ c w (some ()) c w := by
        refine ⟨[], ?_⟩
        rw [checkDataBreakpoint, run_gets_bind, run_modify_bind, h, Cpu.dataBreakpointAt_miss h]
        rfl
      rw [hmiss.bind_iff]
      exact ⟨fun hp => ⟨rfl, hp⟩, And.right⟩

theorem endsIn_fireMemHooks {value : U64} {isWrite : Bool} :
    (fireMemHooks addr size value isWrite).EndsIn at_ c w (some ())
      (at_.hooked isWrite addr size value c) w := ⟨[_], rfl⟩

theorem load_bind_iff {β : Type} {kind : Status → FaultKind} {note : String} {f : Buf → H β}
    {b : β} :
    (load addr size kind note >>= f).EndsIn at_ c w (some b) c' w' ↔
      ∃ buf w₁, at_.env (.read addr size) w = ((.ok buf : Except Status Buf), w₁) ∧
        (f buf).EndsIn at_ c w₁ (some b) c' w' := by
  rcases hread : at_.env (.read addr size) w with ⟨s | buf, w₁⟩
  · constructor
    · intro hends
      obtain ⟨_, _, _, ⟨tr, hrun⟩, _⟩ := hends.of_bind
      rw [load, run_bind, run_askRead, hread] at hrun
      cases hrun
    · rintro ⟨buf, w₂, hok, _⟩
      cases hok
  · have hload : (load addr size kind note).EndsIn at_ c w (some buf) c w₁ := by
      refine ⟨[⟨MachineOp.read addr size, .ok buf⟩], ?_⟩
      rw [load, run_bind, run_askRead, hread]
      rfl
    rw [hload.bind_iff]
    constructor
    · exact fun hf => ⟨buf, w₁, rfl, hf⟩
    · rintro ⟨buf', w₂, hok, hf⟩
      cases hok
      exact hf

theorem store_iff {kind : Status → FaultKind} {note : String} {data : Buf} :
    (store addr size data kind note).EndsIn at_ c w (some ()) c' w' ↔
      at_.env (.write addr size data) w = ((.ok () : Except Status Unit), w') ∧ c' = c := by
  rcases hwrite : at_.env (.write addr size data) w with ⟨s | u, w₁⟩
  · constructor
    · rintro ⟨tr, hrun⟩
      rw [store, run_bind, run_askWrite, hwrite] at hrun
      cases hrun
    · rintro ⟨hok, _⟩
      cases hok
  · have hstore : (store addr size data kind note).EndsIn at_ c w (some ()) c w₁ := by
      refine ⟨[⟨MachineOp.write addr size data, .ok ()⟩], ?_⟩
      rw [store, run_bind, run_askWrite, hwrite]
      rfl
    constructor
    · intro hends
      obtain ⟨_, rfl, rfl⟩ := hstore.unique hends
      exact ⟨rfl, rfl⟩
    · rintro ⟨hok, rfl⟩
      cases hok
      exact hstore

theorem readMemBytes_iff {missing note : String} {v : U64} :
    (readMemBytes missing note addr size).EndsIn at_ c w (some v) c' w' ↔
      at_.Reads addr size w v w' ∧ c' = c := by
  rw [readMemBytes, requireAttached_bind_iff, load_bind_iff]
  constructor
  · rintro ⟨_, buf, w₁, hread, hpure⟩
    obtain ⟨hv, rfl, rfl⟩ := hpure.unique (endsIn_pure _)
    exact ⟨⟨buf, hread, Option.some.inj hv⟩, rfl⟩
  · rintro ⟨⟨buf, hread, rfl⟩, rfl⟩
    exact ⟨Attached.memRead_isSome hread, buf, w', hread, endsIn_pure _⟩

theorem writeMemBytes_iff {missing note : String} {v : U64} :
    (writeMemBytes missing note addr size v).EndsIn at_ c w (some ()) c' w' ↔
      at_.Writes addr size v w w' ∧ c' = c := by
  rw [writeMemBytes, requireAttached_bind_iff, store_iff]
  constructor
  · exact And.right
  · exact fun h => ⟨Attached.memWrite_isSome h.1, h⟩

end Accesses

section Operands

variable {at_ : Attached σ} {c c' : Cpu} {w w' : World σ} {insn : Insn} {op : Operand} {size : Nat}

/-- A memory operand is read where no breakpoint watches it and the provider answers; the hooks
come before the read. -/
theorem readOperand_mem_iff (hop : op.isMem = true) {v : U64} :
    (readOperand insn op size).EndsIn at_ c w (some v) c' w' ↔
      (c.dataBreakpointAt (ea c insn op) false size).1 = false ∧
        at_.Reads (ea c insn op) size w v w' ∧ c' = at_.hooked false (ea c insn op) size 0 c := by
  have hmem : H.EndsIn (do
      let rip ← gets Cpu.rip
      requireAttached false rip "no read provider"
      let addr ← gets fun c => ea c insn op
      checkDataBreakpoint addr false size "DR data load breakpoint"
      fireMemHooks addr size 0 false
      let buf ← load addr size pageFault "operand read"
      pure (loadLE buf size)) at_ c w (some v) c' w' ↔
      (c.dataBreakpointAt (ea c insn op) false size).1 = false ∧
        at_.Reads (ea c insn op) size w v w' ∧ c' = at_.hooked false (ea c insn op) size 0 c := by
    rw [(endsIn_gets _).bind_iff, requireAttached_bind_iff, (endsIn_gets _).bind_iff,
      checkDataBreakpoint_bind_iff, endsIn_fireMemHooks.bind_iff, load_bind_iff]
    constructor
    · rintro ⟨_, hmiss, buf, w₁, hread, hpure⟩
      obtain ⟨hv, rfl, rfl⟩ := hpure.unique (endsIn_pure _)
      exact ⟨hmiss, ⟨buf, hread, Option.some.inj hv⟩, rfl⟩
    · rintro ⟨hmiss, ⟨buf, hread, rfl⟩, rfl⟩
      exact ⟨Attached.memRead_isSome hread, hmiss, buf, w', hread, endsIn_pure _⟩
  unfold readOperand
  cases hkind : op.kind with
  | none | reg | imm | rel | xmm =>
      rw [Operand.isMem, hkind] at hop
      cases hop
  | mem => exact hmem
  | ripRelMem => exact hmem

theorem writeOperand_mem_iff (hop : op.isMem = true) {v : U64} :
    (writeOperand insn op size v).EndsIn at_ c w (some ()) c' w' ↔
      (c.dataBreakpointAt (ea c insn op) true size).1 = false ∧
        at_.Writes (ea c insn op) size v w w' ∧ c' = at_.hooked true (ea c insn op) size v c := by
  have hmem : H.EndsIn (do
      let addr ← gets fun c => ea c insn op
      requireAttached true addr "no write provider"
      checkDataBreakpoint addr true size "DR data store breakpoint"
      fireMemHooks addr size v true
      store addr size (storeLE v) kindFromStatus "operand write") at_ c w (some ()) c' w' ↔
      (c.dataBreakpointAt (ea c insn op) true size).1 = false ∧
        at_.Writes (ea c insn op) size v w w' ∧ c' = at_.hooked true (ea c insn op) size v c := by
    rw [(endsIn_gets _).bind_iff, requireAttached_bind_iff, checkDataBreakpoint_bind_iff,
      endsIn_fireMemHooks.bind_iff, store_iff]
    constructor
    · exact fun ⟨_, hmiss, hwrite⟩ => ⟨hmiss, hwrite⟩
    · exact fun ⟨hmiss, hwrite, hc⟩ => ⟨Attached.memWrite_isSome hwrite, hmiss, hwrite, hc⟩
  unfold writeOperand
  cases hkind : op.kind with
  | none | reg | imm | rel | xmm =>
      rw [Operand.isMem, hkind] at hop
      cases hop
  | mem => exact hmem
  | ripRelMem => exact hmem

end Operands

/-! ### Represented memory -/

/-- The attached providers behave as one byte memory of the state they share. -/
structure Attached.Represents (at_ : Attached σ) (Inv : σ → Prop) (mem : σ → ByteMap) : Prop where
  read : ∀ P ∈ at_.memRead, PicoCpu.Represents P Inv mem
  write : ∀ P ∈ at_.memWrite, PicoCpu.Represents P Inv mem

/-- The low bytes of a number stand at an address. -/
def NumberAt (m : ByteMap) (addr : GuestAddr) (size : Nat) (v : U64) : Prop :=
  ∀ k < size, m (addr + BitVec.ofNat 64 k) = some (storeLE v k)

/-- The two ranges have no byte in common. -/
def Apart (a : GuestAddr) (n : Nat) (b : GuestAddr) (size : Nat) : Prop :=
  ∀ k < n, ¬ InRange b size (a + BitVec.ofNat 64 k)

instance (a : GuestAddr) (n : Nat) (b : GuestAddr) (size : Nat) : Decidable (Apart a n b size) :=
  inferInstanceAs (Decidable (∀ k < n, _))

section Represented

variable {at_ : Attached σ} {Inv : σ → Prop} {mem : σ → ByteMap} {w w' : World σ}
  {addr : GuestAddr} {size : Nat} {v v' : U64} {m m' : ByteMap}

theorem storeLE_loadLE (buf : Buf) {k : Nat} (hk : k < size) (hsize : size ≤ 8) :
    storeLE (loadLE buf size) k = buf k := by
  apply BitVec.eq_of_getLsbD_eq
  intro n hn
  have hdiv : (8 * k + n) / 8 = k := by omega
  have hmod : (8 * k + n) % 8 = n := by omega
  rw [storeLE, BitVec.getLsbD_setWidth, BitVec.getLsbD_ushiftRight,
    getLsbD_loadLE _ _ _ (by omega), hdiv, hmod, decide_eq_true hn, decide_eq_true (by omega)]
  rfl

theorem NumberAt.masked (hsize : IsOpSize size) (h : NumberAt m addr size v)
    (h' : NumberAt m addr size v') : v &&& maskFor size = v' &&& maskFor size := by
  apply BitVec.eq_of_getLsbD_eq
  intro n hn
  rw [getLsbD_and_maskFor size hsize, getLsbD_and_maskFor size hsize]
  by_cases hlt : n < 8 * size
  · have hbyte : n / 8 < size := by omega
    have hbit : storeLE v (n / 8) = storeLE v' (n / 8) :=
      Option.some.inj ((h _ hbyte).symm.trans (h' _ hbyte))
    have hbit' := congrArg (fun b : U8 => b.getLsbD (n % 8)) hbit
    simp only [storeLE, BitVec.getLsbD_setWidth, BitVec.getLsbD_ushiftRight,
      Nat.div_add_mod, decide_eq_true (Nat.mod_lt n (Nat.succ_pos 7)), Bool.true_and] at hbit'
    rw [hbit']
  · rw [decide_eq_false hlt, Bool.and_false, Bool.and_false]

theorem NumberAt.unique (h : NumberAt m addr 8 v) (h' : NumberAt m addr 8 v') : v = v' := by
  have hwhole (x : U64) : x &&& maskFor 8 = x := BitVec.and_allOnes
  have hmasked := h.masked (by decide) h'
  rwa [hwhole, hwhole] at hmasked

/-- What the provider answered stands in the memory. -/
theorem Attached.stored_of_ok (hrep : at_.Represents Inv mem) (hinv : Inv w.mem)
    (hsize : size ≤ 2 ^ 64) {buf : Buf}
    (h : at_.env (.read addr size) w = ((.ok buf : Except Status Buf), w')) :
    (∀ k < size, mem w.mem (addr + BitVec.ofNat 64 k) = some (buf k)) ∧ mem w'.mem = mem w.mem ∧
      Inv w'.mem := by
  cases hprovider : at_.memRead with
  | none =>
      have hsome := memRead_isSome h
      rw [hprovider] at hsome
      cases hsome
  | some P =>
      have hP := hrep.read P hprovider
      have hok := hP.read_ok addr size (fun _ => 0) w.mem hsize hinv
      have hmem := hP.read_mem addr size (fun _ => 0) w.mem hsize hinv
      have hkeep := hP.read_inv addr size (fun _ => 0) w.mem hsize hinv
      rcases hanswer : P.read addr size (fun _ => 0) w.mem with ⟨status, data, s⟩
      simp only [Attached.env, hprovider, hanswer] at h
      rw [hanswer] at hok hmem hkeep
      cases status with
      | error e => cases h
      | ok u =>
          cases h
          exact ⟨hok rfl, hmem, hkeep⟩

theorem Attached.Reads.numberAt (hrep : at_.Represents Inv mem) (hinv : Inv w.mem) (hsize : size ≤ 8)
    (h : at_.Reads addr size w v w') :
    NumberAt (mem w.mem) addr size v ∧ mem w'.mem = mem w.mem ∧ Inv w'.mem := by
  obtain ⟨buf, hread, rfl⟩ := h
  obtain ⟨hstored, hkept⟩ := at_.stored_of_ok hrep hinv (by omega) hread
  refine ⟨fun k hk => ?_, hkept⟩
  rw [storeLE_loadLE _ hk hsize]
  exact hstored k hk

/-- What the provider took has been written, and nothing else. -/
theorem Attached.written_of_ok (hrep : at_.Represents Inv mem) (hinv : Inv w.mem)
    (hsize : size ≤ 2 ^ 64) {data : Buf}
    (h : at_.env (.write addr size data) w = ((.ok () : Except Status Unit), w')) :
    Written (mem w.mem) (mem w'.mem) addr size data ∧ Inv w'.mem := by
  cases hprovider : at_.memWrite with
  | none =>
      have hsome := memWrite_isSome h
      rw [hprovider] at hsome
      cases hsome
  | some P =>
      have hP := hrep.write P hprovider
      have hok := hP.write_ok addr size data w.mem hsize hinv
      have hkeep := hP.write_inv addr size data w.mem hsize hinv
      rcases hanswer : P.write addr size data w.mem with ⟨status, s⟩
      simp only [Attached.env, hprovider, hanswer] at h
      rw [hanswer] at hok hkeep
      cases status with
      | error e => cases h
      | ok u =>
          cases h
          exact ⟨hok rfl, hkeep⟩

theorem Attached.Writes.written (hrep : at_.Represents Inv mem) (hinv : Inv w.mem)
    (hsize : size ≤ 8) (h : at_.Writes addr size v w w') :
    Written (mem w.mem) (mem w'.mem) addr size (storeLE v) ∧ Inv w'.mem :=
  written_of_ok hrep hinv (by omega) h

theorem NumberAt.of_written (hsize : size ≤ 8) (h : Written m m' addr size (storeLE v)) :
    NumberAt m' addr size v := by
  intro k hk
  have hsmall : k < 2 ^ 64 := by omega
  have hbyte := (h (addr + BitVec.ofNat 64 k)).1 (inRange_add addr size k hk hsmall)
  have hoffset : (addr + BitVec.ofNat 64 k - addr).toNat = k := by
    rw [BitVec.add_comm, BitVec.add_sub_cancel, BitVec.toNat_ofNat, Nat.mod_eq_of_lt hsmall]
  rwa [hoffset] at hbyte

/-- A write beside a number leaves it. -/
theorem NumberAt.written_apart {b : GuestAddr} {n : Nat} {data : Buf} (h : NumberAt m addr size v)
    (hwritten : Written m m' b n data) (hapart : Apart addr size b n) : NumberAt m' addr size v :=
  fun k hk => (hwritten _).2 (hapart k hk) _ (h k hk)

end Represented

/-! ### Flat memory -/

/-- A machine with every address in its memory and nothing hooked. -/
def flatMachine : Attached (GuestAddr → U8) where
  memRead := some flatMemory
  memWrite := some flatMemory

section FlatMachine

variable (w : World (GuestAddr → U8)) (addr : GuestAddr) (size : Nat)

/-- The number at an address. -/
def flatWord : BitVec (8 * size) :=
  (loadLE (fun k => w.mem (addr + BitVec.ofNat 64 k)) size).setWidth (8 * size)

/-- The memory after a number has been stored. -/
def flatStore (v : U64) : World (GuestAddr → U8) :=
  { w with
    mem := fun a => if (a - addr).toNat < size then storeLE v (a - addr).toNat else w.mem a }

theorem getLsbD_flatWord {n : Nat} (hn : n < 8 * size) (hle : n < 64) :
    (flatWord w addr size).getLsbD n =
      (w.mem (addr + BitVec.ofNat 64 (n / 8))).getLsbD (n % 8) := by
  rw [flatWord, BitVec.getLsbD_setWidth, getLsbD_loadLE _ _ _ hle, decide_eq_true hn,
    Bool.true_and, Bool.true_and]

theorem flatMachine_reads :
    flatMachine.Reads addr size w ((flatWord w addr size).setWidth 64) w := by
  refine ⟨fun k => if k < size then w.mem (addr + BitVec.ofNat 64 k) else 0, rfl, ?_⟩
  apply BitVec.eq_of_getLsbD_eq
  intro n hn
  rw [getLsbD_loadLE _ _ _ hn, BitVec.getLsbD_setWidth, decide_eq_true hn, Bool.true_and]
  by_cases hsmall : n < 8 * size
  · have hbyte : n / 8 < size := by omega
    rw [getLsbD_flatWord w addr size hsmall hn, if_pos hbyte, decide_eq_true hsmall, Bool.true_and]
  · rw [BitVec.getLsbD_of_ge _ _ (by omega), decide_eq_false hsmall, Bool.false_and]

theorem flatMachine_writes (v : U64) :
    flatMachine.Writes addr size v w (flatStore w addr size v) := rfl

theorem flatMachine_hooked (isWrite : Bool) (value : U64) (c : Cpu) :
    flatMachine.hooked isWrite addr size value c = c := by
  cases isWrite <;> rfl

theorem flatMachine_hooksFollow (R : Cpu → Cpu → Prop) : flatMachine.HooksFollow R where
  read _ hh := (List.not_mem_nil hh).elim
  write _ hh := (List.not_mem_nil hh).elim

/-- Flat memory as a byte memory. -/
def flatBytes (mem : GuestAddr → U8) : ByteMap := fun a => some (mem a)

theorem flatMemory_represents : Represents flatMemory (fun _ => True) flatBytes where
  read_inv _ _ _ _ _ _ := trivial
  read_mem _ _ _ _ _ _ := rfl
  read_frame _ _ _ _ _ _ _ hi := if_neg (Nat.not_lt.mpr hi)
  read_ok _ _ _ _ _ _ _ _ hi := congrArg some (if_pos hi).symm
  write_inv _ _ _ _ _ _ := trivial
  write_error _ _ _ _ _ _ _ h := nomatch h
  write_ok _ _ _ _ _ _ _ _ :=
    ⟨fun hin => congrArg some (if_pos hin), fun hout _ hv => (congrArg some (if_neg hout)).trans hv⟩

theorem flatMachine_represents : flatMachine.Represents (fun _ => True) flatBytes where
  read _ hP := Option.some.inj hP ▸ flatMemory_represents
  write _ hP := Option.some.inj hP ▸ flatMemory_represents

end FlatMachine

/-! ### Registers kept -/

/-- The registers that addresses and breakpoints are computed from. -/
structure Cpu.SameRegisters (c d : Cpu) : Prop where
  gpr : d.gpr = c.gpr
  fsBase : d.fsBase = c.fsBase
  gsBase : d.gsBase = c.gsBase
  dr : d.dr = c.dr

namespace Cpu.SameRegisters

variable {c d : Cpu} (h : c.SameRegisters d)

omit h in
theorem refl (c : Cpu) : c.SameRegisters c := ⟨rfl, rfl, rfl, rfl⟩

omit h in
theorem trans {e : Cpu} (h : c.SameRegisters d) (h' : d.SameRegisters e) : c.SameRegisters e :=
  ⟨h'.gpr.trans h.gpr, h'.fsBase.trans h.fsBase, h'.gsBase.trans h.gsBase, h'.dr.trans h.dr⟩

include h

theorem r (idx : Nat) : d.r idx = c.r idx := congrFun h.gpr idx

theorem ea (insn : Insn) (op : Operand) : PicoCpu.ea d insn op = PicoCpu.ea c insn op := by
  unfold PicoCpu.ea
  simp only [h.r, h.fsBase, h.gsBase]

theorem dataBreakpointAt (addr : GuestAddr) (isWrite : Bool) (size : Nat) :
    (d.dataBreakpointAt addr isWrite size).1 = (c.dataBreakpointAt addr isWrite size).1 := by
  have hdr : d.dr = c.dr := h.dr
  unfold Cpu.dataBreakpointAt Cpu.firstDr Cpu.drEnabled Cpu.drCond Cpu.drLen
  rw [hdr]
  split <;> rfl

end Cpu.SameRegisters

theorem Attached.HooksFollow.mono {at_ : Attached σ} {R S : Cpu → Cpu → Prop}
    (h : at_.HooksFollow R) (hRS : ∀ c d, R c d → S c d) : at_.HooksFollow S where
  read hook hh addr size value isWrite c := hRS _ _ (h.read hook hh addr size value isWrite c)
  write hook hh addr size value isWrite c := hRS _ _ (h.write hook hh addr size value isWrite c)

/-- Hooks that keep the registers one by one keep them together. -/
theorem Attached.HooksFollow.hooked {at_ : Attached σ} (h : at_.HooksFollow Cpu.SameRegisters)
    (isWrite : Bool) (addr : GuestAddr) (size : Nat) (value : U64) (c : Cpu) :
    c.SameRegisters (at_.hooked isWrite addr size value c) := by
  have hall : ∀ hooks : List MemHook, (∀ h ∈ hooks, ∀ addr size value isWrite c,
      Cpu.SameRegisters c (h.callback addr size value isWrite c)) → ∀ c,
      Cpu.SameRegisters c (runMemHooks hooks addr size value isWrite c) := by
    intro hooks
    induction hooks with
    | nil => exact fun _ c => Cpu.SameRegisters.refl c
    | cons hook rest ih =>
        intro hkeep c
        have hrest := ih fun h' hh' => hkeep h' (List.mem_cons_of_mem _ hh')
        unfold runMemHooks at hrest ⊢
        rw [List.foldl_cons]
        split
        · exact (hkeep hook (List.mem_cons_self ..) addr size value isWrite c).trans (hrest _)
        · exact hrest c
  unfold Attached.hooked
  cases isWrite with
  | true => exact hall _ h.write c
  | false => exact hall _ h.read c

end PicoCpu
