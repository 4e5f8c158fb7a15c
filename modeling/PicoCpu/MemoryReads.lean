import PicoCpu.MemoryAccess

/-!
The reads of memory that a program makes, in order, together with where it ends.
-/

namespace PicoCpu

open H Proc

/-- The read that an operation asks for. -/
def MachineOp.readOf : MachineOp → Option (GuestAddr × Nat)
  | .read addr size => some (addr, size)
  | .attached _ => none
  | .write _ _ _ => none
  | .memHooks _ _ _ _ => none
  | .nextTsc => none
  | .nextRand => none

/-- The reads of memory in a trace. -/
def readsOf (tr : List machine.Event) : List (GuestAddr × Nat) :=
  tr.filterMap fun e => MachineOp.readOf e.1

/-- The program ends as `EndsIn` says, after these reads of memory. -/
def H.EndsReading {σ α : Type} (p : H α) (at_ : Attached σ) (c : Cpu) (w : World σ)
    (rs : List (GuestAddr × Nat)) (r : Option α) (c' : Cpu) (w' : World σ) : Prop :=
  ∃ tr, p.run at_.env c w = ⟨(r, c'), w', tr⟩ ∧ readsOf tr = rs

section Reading

variable {σ α β : Type} {at_ : Attached σ} {c c' c'' : Cpu} {w w' w'' : World σ}
  {rs rs' : List (GuestAddr × Nat)}

theorem H.EndsReading.bind {p : H α} {f : α → H β} {a : α} {r : Option β}
    (hp : p.EndsReading at_ c w rs (some a) c' w')
    (hf : (f a).EndsReading at_ c' w' rs' r c'' w'') :
    (p >>= f).EndsReading at_ c w (rs ++ rs') r c'' w'' := by
  obtain ⟨tr, hp, hrs⟩ := hp
  obtain ⟨tr', hf, hrs'⟩ := hf
  refine ⟨tr ++ tr', ?_, ?_⟩
  · rw [run_bind, hp, andThen_some, hf]
  · rw [readsOf, List.filterMap_append, ← readsOf, ← readsOf, hrs, hrs']

theorem H.EndsReading.stop {p : H α} {f : α → H β} (hp : p.EndsReading at_ c w rs none c' w') :
    (p >>= f).EndsReading at_ c w rs none c' w' := by
  obtain ⟨tr, hp, hrs⟩ := hp
  refine ⟨tr, ?_, hrs⟩
  rw [run_bind, hp, andThen_none]

theorem H.EndsReading.runOn {p : H Unit} {r : Option Unit}
    (h : p.EndsReading at_ c w rs r c' w') :
    (p.runOn at_ c w).value = (r, c') ∧ (p.runOn at_ c w).world = w' ∧
      readsOf (p.runOn at_ c w).trace = rs := by
  obtain ⟨tr, h, hrs⟩ := h
  have hrun : p.runOn at_ c w = ⟨(r, c'), w', tr⟩ := h
  rw [hrun]
  exact ⟨rfl, rfl, hrs⟩

theorem H.EndsReading.unique {p : H α} {r r' : Option α} (h : p.EndsReading at_ c w rs r c' w')
    (h' : p.EndsReading at_ c w rs' r' c'' w'') : rs = rs' ∧ r = r' ∧ c' = c'' ∧ w' = w'' := by
  obtain ⟨tr, h, rfl⟩ := h
  obtain ⟨tr', h', rfl⟩ := h'
  cases h.symm.trans h'
  exact ⟨rfl, rfl, rfl, rfl⟩

theorem endsReading_gets (f : Cpu → α) : (gets f).EndsReading at_ c w [] (some (f c)) c w :=
  ⟨[], rfl, rfl⟩

theorem endsReading_modify (f : Cpu → Cpu) :
    H.EndsReading (Proc.modify f) at_ c w [] (some ()) (f c) w := ⟨[], rfl, rfl⟩

theorem endsReading_pure (a : α) : (pure a : H α).EndsReading at_ c w [] (some a) c w :=
  ⟨[], rfl, rfl⟩

theorem endsReading_attached {addr : GuestAddr} {note : String}
    (h : at_.memRead.isSome = true) :
    (requireAttached false addr note).EndsReading at_ c w [] (some ()) c w := by
  refine ⟨[⟨MachineOp.attached false, true⟩], ?_, rfl⟩
  have hpresent : (if false then at_.memWrite else at_.memRead).isSome = true := h
  rw [requireAttached, run_bind, run_attached, hpresent]
  rfl

theorem endsReading_attached_none {addr : GuestAddr} {note : String}
    (h : at_.memRead.isSome = false) :
    (requireAttached false addr note).EndsReading at_ c w [] none
      (c.setFault .providerFailure addr .providerFailure (some note)) w := by
  refine ⟨[⟨MachineOp.attached false, false⟩], ?_, rfl⟩
  have hmissing : (if false then at_.memWrite else at_.memRead).isSome = false := h
  rw [requireAttached, run_bind, run_attached, hmissing]
  rfl

section Load

variable {addr : GuestAddr} {size : Nat} {kind : Status → FaultKind} {note : String}

theorem endsReading_load {buf : Buf}
    (h : at_.env (.read addr size) w = ((.ok buf : Except Status Buf), w')) :
    (load addr size kind note).EndsReading at_ c w [(addr, size)] (some buf) c w' := by
  refine ⟨[⟨MachineOp.read addr size, .ok buf⟩], ?_, rfl⟩
  rw [load, run_bind, run_askRead, h]
  rfl

theorem endsReading_load_fails {s : Status}
    (h : at_.env (.read addr size) w = ((.error s : Except Status Buf), w')) :
    (load addr size kind note).EndsReading at_ c w [(addr, size)] none
      (c.setFault (kind s) addr s (some note)) w' := by
  refine ⟨[⟨MachineOp.read addr size, .error s⟩], ?_, rfl⟩
  rw [load, run_bind, run_askRead, h]
  rfl

end Load

/-- What a read has answered stands in the memory, and the read has changed no byte. -/
theorem Attached.bytes_of_read {Inv : σ → Prop} {mem : σ → ByteMap}
    (hrep : at_.Represents Inv mem) (hinv : Inv w.mem) {addr : GuestAddr} {size : Nat}
    (hsize : size ≤ 8) {buf : Buf}
    (h : at_.env (.read addr size) w = ((.ok buf : Except Status Buf), w')) :
    (∀ k < size, mem w.mem (addr + BitVec.ofNat 64 k) = some (buf k)) ∧ mem w'.mem = mem w.mem ∧
      Inv w'.mem := by
  obtain ⟨hnumber, hmem, hinv'⟩ := Attached.Reads.numberAt hrep hinv hsize ⟨buf, h, rfl⟩
  refine ⟨fun k hk => ?_, hmem, hinv'⟩
  rw [hnumber k hk, storeLE_loadLE buf hk hsize]

end Reading

end PicoCpu
