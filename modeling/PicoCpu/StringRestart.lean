import Mathlib.Logic.Relation
import PicoCpu.StringRuns

/-!
String instructions interrupted by a fault. An access comes before every update of a register, so
the fault leaves the CPU and the memory as the last complete element left them, and the instruction
goes on from there once the access succeeds.
-/

namespace PicoCpu

open H Proc Handlers Granule

/-! ### Reference -/

section Completion

variable {σ τ : Type}

/-- An access that changes no byte: a read, or one that fails. -/
inductive Attached.QuietStep (at_ : Attached σ) : World σ → World σ → Prop where
  | read {addr size v w w'} (hsize : size ≤ 8) (h : at_.Reads addr size w v w') : QuietStep at_ w w'
  | readFails {addr size s w w'} (hsize : size ≤ 8)
      (h : at_.env (.read addr size) w = ((.error s : Except Status Buf), w')) : QuietStep at_ w w'
  | writeFails {addr size data s w w'} (hsize : size ≤ 8)
      (h : at_.env (.write addr size data) w = ((.error s : Except Status Unit), w')) :
      QuietStep at_ w w'

/-- The first machine with more accesses that succeed: the second does what the first does, in the
worlds that complete the first's. Accesses that change no byte lead to worlds that the same ones
complete, and the worlds that complete one are alike to the second machine. -/
structure Completes (at_ : Attached σ) (at_' : Attached τ) (Completed : World σ → World τ → Prop)
    (Like : World τ → World τ → Prop) : Prop where
  reads {addr size v w w' u} : at_.Reads addr size w v w' → Completed w u →
    ∃ u', at_'.Reads addr size u v u' ∧ Completed w' u'
  writes {addr size v w w' u} : at_.Writes addr size v w w' → Completed w u →
    ∃ u', at_'.Writes addr size v u u' ∧ Completed w' u'
  quiet {w w' u} : at_.QuietStep w w' → Completed w u → Completed w' u
  like {w u u'} : Completed w u → Completed w u' → Like u u'
  alike : Prog.Alike (fun _ => True) (fun _ _ => True) Like at_'.env

end Completion

/-- The CPU a fault has stopped, put back to run as `c` did. -/
def Cpu.resumed (c₁ c : Cpu) : Cpu := { c₁ with fault := c.fault, halted := c.halted }

/-- The state a fault leaves: some complete elements, without a repeat none, and the fault. -/
def LeftAfter (i : Insn) (op : StringOp) (c : Cpu) (m : ByteMap) (c₁ : Cpu) (m₁ : ByteMap) : Prop :=
  ∃ found d, op.Repeats i.opSize found c m d m₁ ∧ (hasRep i = false → found = []) ∧
    ∃ kind addr s note, c₁ = d.setFault kind addr s note

/-- Executing the instruction again on a machine that completes the first ends as an execution
without the fault does. -/
def Restarts (fp : HostFp) (i : Insn) {σ : Type} (at_ : Attached σ) (c : Cpu) (w : World σ)
    (c₁ : Cpu) (w₁ : World σ) : Prop :=
  ∀ (τ : Type) (at_' : Attached τ) (Completed : World σ → World τ → Prop)
    (Like : World τ → World τ → Prop) (u u₁ : World τ), Completes at_ at_' Completed Like →
    Completed w u → Completed w₁ u₁ → ∀ r c' u', (i.run fp).EndsIn at_' c u r c' u' →
    ∃ u₁', (i.run fp).EndsIn at_' (c₁.resumed c) u₁ r c' u₁' ∧ Like u' u₁'

/-! ### Failing accesses -/

section Fails

variable {σ : Type} {at_ : Attached σ} {c c' : Cpu} {w w' : World σ} {addr : GuestAddr}
  {size : Nat}

/-- What gives up leaves the CPU with a fault, after accesses that changed no byte. -/
def Gives (at_ : Attached σ) (c : Cpu) (w : World σ) (c' : Cpu) (w' : World σ) : Prop :=
  (∃ kind addr s note, c' = c.setFault kind addr s note) ∧
    Relation.ReflTransGen at_.QuietStep w w'

theorem raise_gives {α : Type} {kind : FaultKind} {s : Status} {note : String}
    (h : (raise kind addr s note : H α).EndsIn at_ c w none c' w') : Gives at_ c w c' w' := by
  obtain ⟨_, rfl, rfl⟩ := h.unique ⟨_, run_raise ..⟩
  exact ⟨⟨kind, addr, s, some note, rfl⟩, .refl⟩

/-- Without a provider the handler faults. -/
theorem endsIn_requireAttached_none {isWrite : Bool} {note : String}
    (h : (if isWrite then at_.memWrite else at_.memRead).isSome = false) :
    (requireAttached isWrite addr note).EndsIn at_ c w none
      (c.setFault .providerFailure addr .providerFailure (some note)) w := by
  refine ⟨[⟨MachineOp.attached isWrite, false⟩], ?_⟩
  rw [requireAttached, run_bind, run_attached, h]
  rfl

theorem requireAttached_gives {isWrite : Bool} {note : String}
    (h : (requireAttached isWrite addr note).EndsIn at_ c w none c' w') : Gives at_ c w c' w' := by
  cases hpresent : (if isWrite then at_.memWrite else at_.memRead).isSome with
  | true => cases (h.unique (endsIn_requireAttached hpresent)).1
  | false =>
      obtain ⟨_, rfl, rfl⟩ := h.unique (endsIn_requireAttached_none hpresent)
      exact ⟨⟨_, _, _, _, rfl⟩, .refl⟩

theorem H.EndsIn.of_requireAttached {isWrite : Bool} {note : String} {x : Unit}
    (h : (requireAttached isWrite addr note).EndsIn at_ c w (some x) c' w') : c' = c ∧ w' = w := by
  cases hpresent : (if isWrite then at_.memWrite else at_.memRead).isSome with
  | true => exact (h.unique (endsIn_requireAttached hpresent)).2
  | false => exact absurd h (not_endsIn_requireAttached hpresent)

theorem load_gives {kind : Status → FaultKind} {note : String} (hsize : size ≤ 8)
    (h : (load addr size kind note).EndsIn at_ c w none c' w') : Gives at_ c w c' w' := by
  rcases h.of_bind_none with ⟨tr, hask⟩ | ⟨answer, d, w₁, ⟨tr, hask⟩, h⟩
  · rw [run_askRead] at hask
    cases hask
  · rw [run_askRead] at hask
    rcases hread : at_.env (.read addr size) w with ⟨s | buf, w₂⟩
    · rw [hread] at hask
      cases hask
      obtain ⟨hfault, hquiet⟩ := raise_gives h
      exact ⟨hfault, .head (.readFails hsize hread) hquiet⟩
    · rw [hread] at hask
      cases hask
      cases (h.unique (endsIn_pure _)).1

theorem store_gives {kind : Status → FaultKind} {note : String} {data : Buf} (hsize : size ≤ 8)
    (h : (store addr size data kind note).EndsIn at_ c w none c' w') : Gives at_ c w c' w' := by
  rcases h.of_bind_none with ⟨tr, hask⟩ | ⟨answer, d, w₁, ⟨tr, hask⟩, h⟩
  · rw [run_askWrite] at hask
    cases hask
  · rw [run_askWrite] at hask
    rcases hwrite : at_.env (.write addr size data) w with ⟨s | u, w₂⟩
    · rw [hwrite] at hask
      cases hask
      obtain ⟨hfault, hquiet⟩ := raise_gives h
      exact ⟨hfault, .head (.writeFails hsize hwrite) hquiet⟩
    · rw [hwrite] at hask
      cases hask
      cases (h.unique (endsIn_pure _)).1

theorem readMemBytes_gives {missing note : String} (hsize : size ≤ 8)
    (h : (readMemBytes missing note addr size).EndsIn at_ c w none c' w') :
    Gives at_ c w c' w' := by
  rw [readMemBytes] at h
  rcases h.of_bind_none with hattached | ⟨_, d, w₁, hattached, hrest⟩
  · exact requireAttached_gives hattached
  · obtain ⟨rfl, rfl⟩ := hattached.of_requireAttached
    rcases hrest.of_bind_none with hload | ⟨buf, d, w₁, _, hpure⟩
    · exact load_gives hsize hload
    · cases (hpure.unique (endsIn_pure _)).1

theorem writeMemBytes_gives {missing note : String} {v : U64} (hsize : size ≤ 8)
    (h : (writeMemBytes missing note addr size v).EndsIn at_ c w none c' w') :
    Gives at_ c w c' w' := by
  rw [writeMemBytes] at h
  rcases h.of_bind_none with hattached | ⟨_, d, w₁, hattached, hstore⟩
  · exact requireAttached_gives hattached
  · obtain ⟨rfl, rfl⟩ := hattached.of_requireAttached
    exact store_gives hsize hstore

end Fails

section Steps

variable {σ : Type} {at_ : Attached σ} {c c' : Cpu} {w w' : World σ} {size : Nat}

/-- What ends with a value is not given up. -/
theorem not_gives_up {α : Type} {p : H α} {a : α} {d : Cpu} {w₁ : World σ}
    (h : p.EndsIn at_ c w none c' w') (hp : p.EndsIn at_ c w (some a) d w₁) : False := by
  cases (h.unique hp).1

theorem codeStep_gives {op : StringOp} (hsize : size ≤ 8)
    (h : (op.codeStep size).EndsIn at_ c w none c' w') : Gives at_ c w c' w' := by
  cases op with
  | movs =>
      change (movsStep size).EndsIn at_ c w none c' w' at h
      rw [movsStep, (endsIn_gets _).bind_iff, (endsIn_gets _).bind_iff] at h
      rcases h.of_bind_none with hread | ⟨v, d, w₁, hread, hrest⟩
      · exact readMemBytes_gives hsize hread
      · obtain ⟨hreads, rfl⟩ := readMemBytes_iff.mp hread
        rcases hrest.of_bind_none with hwrite | ⟨_, d, w₂, hwrite, hrest⟩
        · obtain ⟨hfault, hquiet⟩ := writeMemBytes_gives hsize hwrite
          exact ⟨hfault, .head (.read hsize hreads) hquiet⟩
        · obtain ⟨_, rfl⟩ := writeMemBytes_iff.mp hwrite
          exact (not_gives_up hrest (endsIn_advances rfl rfl false)).elim
  | stos =>
      change (stosStep size).EndsIn at_ c w none c' w' at h
      rw [stosStep, (endsIn_gets _).bind_iff, (endsIn_gets _).bind_iff] at h
      rcases h.of_bind_none with hwrite | ⟨_, d, w₁, hwrite, hrest⟩
      · exact writeMemBytes_gives hsize hwrite
      · obtain ⟨_, rfl⟩ := writeMemBytes_iff.mp hwrite
        exact (not_gives_up hrest ((endsIn_advance rfl).bind (endsIn_pure false))).elim
  | lods =>
      change (lodsStep size).EndsIn at_ c w none c' w' at h
      rw [lodsStep, (endsIn_gets _).bind_iff] at h
      rcases h.of_bind_none with hread | ⟨v, d, w₁, hread, hrest⟩
      · exact readMemBytes_gives hsize hread
      · obtain ⟨_, rfl⟩ := readMemBytes_iff.mp hread
        rw [(endsIn_modify _).bind_iff] at hrest
        exact (not_gives_up hrest
          ((endsIn_advance (r_rsi_loaded ..)).bind (endsIn_pure false))).elim
  | scas =>
      change (scasStep size).EndsIn at_ c w none c' w' at h
      rw [scasStep, (endsIn_gets _).bind_iff] at h
      rcases h.of_bind_none with hread | ⟨v, d, w₁, hread, hrest⟩
      · exact readMemBytes_gives hsize hread
      · obtain ⟨_, rfl⟩ := readMemBytes_iff.mp hread
        rw [(endsIn_modify _).bind_iff, (endsIn_getsSynced _).bind_iff] at hrest
        exact (not_gives_up hrest ((endsIn_advance (r_syncedStash ..)).bind (endsIn_pure _))).elim
  | cmps =>
      change (cmpsStep size).EndsIn at_ c w none c' w' at h
      rw [cmpsStep, (endsIn_gets _).bind_iff, (endsIn_gets _).bind_iff] at h
      rcases h.of_bind_none with hread | ⟨a, d, w₁, hread, hrest⟩
      · exact readMemBytes_gives hsize hread
      · obtain ⟨hreads, rfl⟩ := readMemBytes_iff.mp hread
        rcases hrest.of_bind_none with hread' | ⟨b, d, w₂, hread', hrest⟩
        · obtain ⟨hfault, hquiet⟩ := readMemBytes_gives hsize hread'
          exact ⟨hfault, .head (.read hsize hreads) hquiet⟩
        · obtain ⟨_, rfl⟩ := readMemBytes_iff.mp hread'
          rw [(endsIn_modify _).bind_iff, (endsIn_getsSynced _).bind_iff] at hrest
          exact (not_gives_up hrest
            (endsIn_advances (r_syncedStash ..) (r_syncedStash ..) _)).elim

section Represented

variable {Inv : σ → Prop} {mem : σ → ByteMap} (hrep : at_.Represents Inv mem) (hinv : Inv w.mem)
include hrep hinv

/-- A read that fails changes no byte. -/
theorem mem_of_readFails {addr : GuestAddr} {s : Status} (hsize : size ≤ 8)
    (h : at_.env (.read addr size) w = ((.error s : Except Status Buf), w')) :
    mem w'.mem = mem w.mem ∧ Inv w'.mem := by
  have h64 : size ≤ 2 ^ 64 := by omega
  cases hprovider : at_.memRead with
  | none =>
      simp only [Attached.env, hprovider] at h
      obtain ⟨_, rfl⟩ := Prod.mk.inj h
      exact ⟨rfl, hinv⟩
  | some P =>
      have hP := hrep.read P hprovider
      simp only [Attached.env, hprovider] at h
      obtain ⟨_, rfl⟩ := Prod.mk.inj h
      exact ⟨hP.read_mem addr size _ w.mem h64 hinv, hP.read_inv addr size _ w.mem h64 hinv⟩

/-- A write that fails changes no byte. -/
theorem mem_of_writeFails {addr : GuestAddr} {s : Status} {data : Buf} (hsize : size ≤ 8)
    (h : at_.env (.write addr size data) w = ((.error s : Except Status Unit), w')) :
    mem w'.mem = mem w.mem ∧ Inv w'.mem := by
  have h64 : size ≤ 2 ^ 64 := by omega
  cases hprovider : at_.memWrite with
  | none =>
      simp only [Attached.env, hprovider] at h
      obtain ⟨_, rfl⟩ := Prod.mk.inj h
      exact ⟨rfl, hinv⟩
  | some P =>
      have hP := hrep.write P hprovider
      simp only [Attached.env, hprovider] at h
      obtain ⟨hstatus, rfl⟩ := Prod.mk.inj h
      exact ⟨hP.write_error addr size data w.mem s h64 hinv hstatus,
        hP.write_inv addr size data w.mem h64 hinv⟩

end Represented

/-- Quiet accesses keep every byte of a represented memory. -/
theorem mem_of_quiet {Inv : σ → Prop} {mem : σ → ByteMap} (hrep : at_.Represents Inv mem)
    (h : Relation.ReflTransGen at_.QuietStep w w') (hinv : Inv w.mem) :
    mem w'.mem = mem w.mem ∧ Inv w'.mem := by
  induction h with
  | refl => exact ⟨rfl, hinv⟩
  | tail _ hstep ih =>
      obtain ⟨hmem, hinv₁⟩ := ih
      cases hstep with
      | read hsize hreads =>
          obtain ⟨_, hmem', hinv'⟩ := hreads.numberAt hrep hinv₁ hsize
          exact ⟨hmem'.trans hmem, hinv'⟩
      | readFails hsize hfails =>
          obtain ⟨hmem', hinv'⟩ := mem_of_readFails hrep hinv₁ hsize hfails
          exact ⟨hmem'.trans hmem, hinv'⟩
      | writeFails hsize hfails =>
          obtain ⟨hmem', hinv'⟩ := mem_of_writeFails hrep hinv₁ hsize hfails
          exact ⟨hmem'.trans hmem, hinv'⟩

end Steps

/-! ### Executing the instruction again -/

section Runs

variable {σ : Type} {at_ : Attached σ} {c c' d : Cpu} {w w' w₁ : World σ} {op : StringOp}
  {zfs : List Bool} {r : Option Unit}

/-- The run of the loop is its run from where turns that go on have led. -/
theorem Passes.repLoop_iff {insn : Insn} {step : H Bool}
    (hkeeps : ∀ c w zf d w', step.EndsIn at_ c w (some zf) d w' → d.r Reg.rcx = c.r Reg.rcx)
    (h : Passes step at_ zfs c w d w₁) (hgo : ∀ zf ∈ zfs, View.stops insn zf = false) :
    (repLoop insn step (c.r Reg.rcx).toNat).EndsIn at_ c w r c' w' ↔
      (repLoop insn step (d.r Reg.rcx).toNat).EndsIn at_ d w₁ r c' w' := by
  induction h with
  | none => exact Iff.rfl
  | @next zf rest c w e w₂ d w₁ hcount hrun hstep _ ih =>
      have hpos : (c.r Reg.rcx).toNat ≠ 0 := fun h => hcount (BitVec.eq_of_toNat_eq h)
      have hsucc := Nat.succ_pred hpos
      have hlater := toNat_counted hcount hsucc (hkeeps _ _ _ _ _ hstep)
      have hmore : (c.r Reg.rcx != 0 && !c.halted) = true := by
        rw [hrun, bne_iff_ne.mpr hcount]
        rfl
      have hgoes : ((insn.flags.rep && !zf) || (insn.flags.repne && zf)) ≠ true :=
        ne_true_of_eq_false (hgo zf (List.mem_cons_self ..))
      rw [← ih fun zf hzf => hgo zf (List.mem_cons_of_mem _ hzf), ← hsucc, repLoop,
        (endsIn_gets _).bind_iff, if_pos hmore, hstep.bind_iff, (endsIn_modify _).bind_iff,
        if_neg hgoes, hlater]
      exact Iff.rfl

variable {fp : HostFp} {i : Insn}

/-- So is the run of the instruction. -/
theorem Passes.run_iff (hop : i.handler = (ImplicitOp.string op).handler)
    (h : Passes (op.codeStep i.opSize) at_ zfs c w d w₁)
    (hgo : ∀ zf ∈ zfs, View.stops i zf = false) (hnone : hasRep i = false → zfs = []) :
    (i.run fp).EndsIn at_ c w r c' w' ↔ (i.run fp).EndsIn at_ d w₁ r c' w' := by
  have hcode : i.run fp = runString i (op.codeStep i.opSize) :=
    ImplicitOp.run_eq (.string op) fp i hop
  cases hrep : hasRep i with
  | true =>
      rw [hcode, runString, if_pos hrep, (endsIn_gets _).bind_iff, (endsIn_gets _).bind_iff]
      exact h.repLoop_iff (fun _ _ _ _ _ => codeStep_rcx) hgo
  | false =>
      cases hnone hrep
      cases h
      exact Iff.rfl

/-- A fault comes from the step after some turns. -/
theorem string_fault (hop : i.handler = (ImplicitOp.string op).handler) (hrun : c.halted = false)
    {Inv : σ → Prop} {mem : σ → ByteMap} (hrep : at_.Represents Inv mem) (hinv : Inv w.mem)
    (hsize : IsOpSize i.opSize) (h : (i.run fp).EndsIn at_ c w r c' w')
    (hfault : c'.halted = true) :
    ∃ zfs d w₁, Passes (op.codeStep i.opSize) at_ zfs c w d w₁ ∧
      (∀ zf ∈ zfs, View.stops i zf = false) ∧ (hasRep i = false → zfs = []) ∧
      (op.codeStep i.opSize).EndsIn at_ d w₁ none c' w' := by
  cases hsplit : hasRep i with
  | true =>
      obtain ⟨zfs, d, w₁, hpasses, hgo, hlast⟩ := repString_ends hop hsplit h
      obtain ⟨hrepeats, hinv₁, _⟩ := hpasses.repeats hrep hinv hsize
      have hrunning : d.halted = false := (hrepeats.advanced hsize).halted.trans hrun
      refine ⟨zfs, d, w₁, hpasses, hgo, (fun h => nomatch h), ?_⟩
      cases hlast with
      | idle =>
          rw [hrunning] at hfault
          cases hfault
      | stops _ _ hstep =>
          obtain ⟨helement, _⟩ := codeStep_element hrep hinv₁ hsize hstep
          rw [(helement.advanced hsize).halted, hrunning] at hfault
          cases hfault
      | fails _ _ hstep => exact hstep
  | false =>
      have hcode : i.run fp = runString i (op.codeStep i.opSize) :=
        ImplicitOp.run_eq (.string op) fp i hop
      have hnot : ¬ hasRep i = true := by
        rw [hsplit]
        exact Bool.false_ne_true
      rw [hcode, runString, if_neg hnot] at h
      refine ⟨[], c, w, .none, fun _ hmem => (List.not_mem_nil hmem).elim, fun _ => rfl, ?_⟩
      obtain ⟨zf, d, w₁, hstep⟩ := (op.codeStep i.opSize).ends at_ c w
      cases zf with
      | none =>
          obtain ⟨_, rfl, rfl⟩ := h.unique hstep.stop
          exact hstep
      | some zf =>
          rw [hstep.bind_iff] at h
          obtain ⟨_, rfl, rfl⟩ := h.unique (endsIn_pure ())
          obtain ⟨helement, _⟩ := codeStep_element hrep hinv hsize hstep
          have hhalted : c'.halted = c.halted := (helement.advanced hsize).halted
          rw [hhalted, hrun] at hfault
          cases hfault

end Runs

section Completed

variable {σ τ : Type} {at_ : Attached σ} {at_' : Attached τ} {Completed : World σ → World τ → Prop}
  {Like : World τ → World τ → Prop} (hcompletes : Completes at_ at_' Completed Like)
  {op : StringOp} {size : Nat} {c c' d : Cpu} {w w' : World σ} {u u' : World τ} {zf : Bool}

include hcompletes

theorem StringOp.Accesses.completed (h : op.Accesses size at_ c w zf d w') (hu : Completed w u) :
    ∃ u', op.Accesses size at_' c u zf d u' ∧ Completed w' u' := by
  cases op with
  | movs =>
      obtain ⟨v, w₁, hreads, hwrites, hrest⟩ := h
      obtain ⟨u₁, hreads', hu₁⟩ := hcompletes.reads hreads hu
      obtain ⟨u₂, hwrites', hu₂⟩ := hcompletes.writes hwrites hu₁
      exact ⟨u₂, ⟨v, u₁, hreads', hwrites', hrest⟩, hu₂⟩
  | stos =>
      obtain ⟨hwrites, hrest⟩ := h
      obtain ⟨u₁, hwrites', hu₁⟩ := hcompletes.writes hwrites hu
      exact ⟨u₁, ⟨hwrites', hrest⟩, hu₁⟩
  | lods =>
      obtain ⟨v, hreads, hrest⟩ := h
      obtain ⟨u₁, hreads', hu₁⟩ := hcompletes.reads hreads hu
      exact ⟨u₁, ⟨v, hreads', hrest⟩, hu₁⟩
  | scas =>
      obtain ⟨v, hreads, hrest⟩ := h
      obtain ⟨u₁, hreads', hu₁⟩ := hcompletes.reads hreads hu
      exact ⟨u₁, ⟨v, hreads', hrest⟩, hu₁⟩
  | cmps =>
      obtain ⟨a, b, w₁, hreads, hreads₂, hrest⟩ := h
      obtain ⟨u₁, hreads', hu₁⟩ := hcompletes.reads hreads hu
      obtain ⟨u₂, hreads₂', hu₂⟩ := hcompletes.reads hreads₂ hu₁
      exact ⟨u₂, ⟨a, b, u₁, hreads', hreads₂', hrest⟩, hu₂⟩

theorem codeStep_completed (h : (op.codeStep size).EndsIn at_ c w (some zf) c' w')
    (hu : Completed w u) :
    ∃ u', (op.codeStep size).EndsIn at_' c u (some zf) c' u' ∧ Completed w' u' := by
  obtain ⟨d, haccesses, rfl⟩ := (codeStep_iff op).mp h
  obtain ⟨u', haccesses', hu'⟩ := haccesses.completed hcompletes hu
  exact ⟨u', (codeStep_iff op).mpr ⟨d, haccesses', rfl⟩, hu'⟩

theorem Passes.completed {zfs : List Bool} (h : Passes (op.codeStep size) at_ zfs c w d w')
    (hu : Completed w u) :
    ∃ u', Passes (op.codeStep size) at_' zfs c u d u' ∧ Completed w' u' := by
  induction h generalizing u with
  | none => exact ⟨u, .none, hu⟩
  | next hcount hrun hstep _ ih =>
      obtain ⟨u₁, hstep', hu₁⟩ := codeStep_completed hcompletes hstep hu
      obtain ⟨u₂, hrest', hu₂⟩ := ih hu₁
      exact ⟨u₂, .next hcount hrun hstep' hrest', hu₂⟩

theorem Completes.quiets (h : Relation.ReflTransGen at_.QuietStep w w') (hu : Completed w u) :
    Completed w' u := by
  induction h with
  | refl => exact hu
  | tail _ hstep ih => exact hcompletes.quiet hstep ih

omit hcompletes in
/-- Runs from worlds that are alike end alike. -/
theorem H.EndsIn.alike {α : Type} {p : H α} {r : Option α}
    (halike : Prog.Alike (fun _ => True) (fun _ _ => True) Like at_'.env) {u₁ : World τ}
    (hlike : Like u u₁) (h : p.EndsIn at_' c u r c' u') :
    ∃ u₁', p.EndsIn at_' c u₁ r c' u₁' ∧ Like u' u₁' := by
  obtain ⟨tr, h⟩ := h
  have hrelated := (Prog.Related.refl (p c)).exec halike hlike
  change (p c).exec at_'.env u = _ at h
  rw [h] at hrelated
  obtain ⟨hvalue, hworld, _⟩ := hrelated
  refine ⟨((p c).exec at_'.env u₁).world, ⟨((p c).exec at_'.env u₁).trace, ?_⟩, hworld⟩
  rw [Prog.outcome_eq_iff]
  exact ⟨hvalue.symm, rfl, rfl⟩

end Completed

/-- The CPU a fault has left goes on as the last complete element left it. -/
theorem setFault_resumed {c d : Cpu} (hfault : d.fault = c.fault) (hhalted : d.halted = c.halted)
    (kind : FaultKind) (addr : GuestAddr) (s : Status) (note : Option String) :
    (d.setFault kind addr s note).resumed c = d := by
  have hresumed : (d.setFault kind addr s note).resumed c =
      { d with fault := c.fault, halted := c.halted } := rfl
  rw [hresumed, ← hfault, ← hhalted]

/-- A string instruction that faults has done complete elements and nothing else, and goes on with
the rest when it is executed again. -/
theorem string_restart (fp : HostFp) {i : Insn} {op : StringOp}
    (hop : i.handler = (ImplicitOp.string op).handler) (hsize : IsOpSize i.opSize) {σ : Type}
    {at_ : Attached σ} {Inv : σ → Prop} {mem : σ → ByteMap} (hrep : at_.Represents Inv mem)
    {c c₁ : Cpu} {w w₁ : World σ} (hinv : Inv w.mem) (hrun : c.halted = false) {r : Option Unit}
    (h : (i.run fp).EndsIn at_ c w r c₁ w₁) (hfault : c₁.halted = true) :
    LeftAfter i op c (mem w.mem) c₁ (mem w₁.mem) ∧ Restarts fp i at_ c w c₁ w₁ := by
  have hle : i.opSize ≤ 8 := by
    rcases hsize with hsize | hsize | hsize | hsize <;> omega
  obtain ⟨zfs, d, w₂, hpasses, hgo, hnone, hstep⟩ := string_fault hop hrun hrep hinv hsize h hfault
  obtain ⟨hrepeats, hinv₂, _⟩ := hpasses.repeats hrep hinv hsize
  have hadvanced := hrepeats.advanced hsize
  obtain ⟨⟨kind, addr, s, note, rfl⟩, hquiet⟩ := codeStep_gives hle hstep
  constructor
  · obtain ⟨hmem, _⟩ := mem_of_quiet hrep hquiet hinv₂
    rw [hmem]
    exact ⟨zfs, d, hrepeats, hnone, kind, addr, s, note, rfl⟩
  · intro τ at_' Completed Like u u₁ hcompletes hu hu₁ r' c' u' hends
    rw [setFault_resumed hadvanced.fault hadvanced.halted]
    obtain ⟨u₂, hpasses', hu₂⟩ := hpasses.completed hcompletes hu
    have hlike := hcompletes.like (hcompletes.quiets hquiet hu₂) hu₁
    exact ((hpasses'.run_iff hop hgo hnone).mp hends).alike hcompletes.alike hlike

/-! ### A page that is not there yet -/

/-- Flat memory whose upper part is not mapped. -/
def lowerMemory (limit : Nat) : MemoryProvider (GuestAddr → U8) where
  read addr size out m :=
    if addr.toNat + size ≤ limit then flatMemory.read addr size out m
    else (.error .unmappedRead, out, m)
  write addr size data m :=
    if addr.toNat + size ≤ limit then flatMemory.write addr size data m
    else (.error .unmappedWrite, m)

def lowerMachine (limit : Nat) : Attached (GuestAddr → U8) where
  memRead := some (lowerMemory limit)
  memWrite := some (lowerMemory limit)

section LowerMachine

variable {limit : Nat} {w w' : World (GuestAddr → U8)} {addr : GuestAddr} {size : Nat}

theorem lowerMachine_read (hin : addr.toNat + size ≤ limit) :
    (lowerMachine limit).env (.read addr size) w = flatMachine.env (.read addr size) w := by
  have hread (out : Buf) (m : GuestAddr → U8) :
      (lowerMemory limit).read addr size out m = flatMemory.read addr size out m := if_pos hin
  simp only [Attached.env, lowerMachine, flatMachine, hread]

theorem lowerMachine_read_fails (hout : ¬ addr.toNat + size ≤ limit) :
    (lowerMachine limit).env (.read addr size) w =
      ((.error .unmappedRead : Except Status Buf), w) := by
  have hread (out : Buf) (m : GuestAddr → U8) :
      (lowerMemory limit).read addr size out m = (.error .unmappedRead, out, m) := if_neg hout
  simp only [Attached.env, lowerMachine, hread]
  rfl

theorem lowerMachine_write (hin : addr.toNat + size ≤ limit) (data : Buf) :
    (lowerMachine limit).env (.write addr size data) w =
      flatMachine.env (.write addr size data) w := by
  have hwrite (m : GuestAddr → U8) :
      (lowerMemory limit).write addr size data m = flatMemory.write addr size data m := if_pos hin
  simp only [Attached.env, lowerMachine, flatMachine, hwrite]

theorem lowerMachine_write_fails (hout : ¬ addr.toNat + size ≤ limit) (data : Buf) :
    (lowerMachine limit).env (.write addr size data) w =
      ((.error .unmappedWrite : Except Status Unit), w) := by
  have hwrite (m : GuestAddr → U8) :
      (lowerMemory limit).write addr size data m = (.error .unmappedWrite, m) := if_neg hout
  simp only [Attached.env, lowerMachine, hwrite]
  rfl

theorem lowerMemory_represents (limit : Nat) :
    Represents (lowerMemory limit) (fun _ => True) flatBytes where
  read_inv _ _ _ _ _ _ := trivial
  write_inv _ _ _ _ _ _ := trivial
  read_mem addr size out m hsize _ := by
    simp only [lowerMemory]
    split <;> rfl
  read_frame addr size out m hsize hinv i hi := by
    simp only [lowerMemory]
    split
    · exact flatMemory_represents.read_frame addr size out m hsize hinv i hi
    · rfl
  read_ok addr size out m hsize hinv hok i hi := by
    simp only [lowerMemory] at hok ⊢
    split
    · exact flatMemory_represents.read_ok addr size out m hsize hinv rfl i hi
    · rename_i hout
      rw [if_neg hout] at hok
      cases hok
  write_error addr size data m e hsize hinv he := by
    simp only [lowerMemory] at he ⊢
    split
    · rename_i hin
      rw [if_pos hin] at he
      cases he
    · rfl
  write_ok addr size data m hsize hinv hok := by
    simp only [lowerMemory] at hok ⊢
    split
    · exact flatMemory_represents.write_ok addr size data m hsize hinv rfl
    · rename_i hout
      rw [if_neg hout] at hok
      cases hok

theorem lowerMachine_represents (limit : Nat) :
    (lowerMachine limit).Represents (fun _ => True) flatBytes where
  read _ hP := Option.some.inj hP ▸ lowerMemory_represents limit
  write _ hP := Option.some.inj hP ▸ lowerMemory_represents limit

/-- Mapping the upper part completes the machine. -/
theorem flatMachine_completes (limit : Nat) : Completes (lowerMachine limit) flatMachine Eq Eq where
  reads := by
    rintro addr size v w w' u ⟨buf, hread, rfl⟩ rfl
    by_cases hin : addr.toNat + size ≤ limit
    · rw [lowerMachine_read hin] at hread
      exact ⟨w', ⟨buf, hread, rfl⟩, rfl⟩
    · rw [lowerMachine_read_fails hin] at hread
      cases hread
  writes := by
    intro addr size v w w' u hwrites hu
    subst hu
    unfold Attached.Writes at hwrites
    by_cases hin : addr.toNat + size ≤ limit
    · rw [lowerMachine_write hin] at hwrites
      exact ⟨w', hwrites, rfl⟩
    · rw [lowerMachine_write_fails hin] at hwrites
      cases hwrites
  quiet := by
    intro w w' u hstep hu
    subst hu
    cases hstep with
    | @read addr size v _ _ hsize hreads =>
        obtain ⟨buf, hread, _⟩ := hreads
        by_cases hin : addr.toNat + size ≤ limit
        · rw [lowerMachine_read hin] at hread
          cases hread
          rfl
        · rw [lowerMachine_read_fails hin] at hread
          cases hread
    | @readFails addr size s _ _ hsize hfails =>
        by_cases hin : addr.toNat + size ≤ limit
        · rw [lowerMachine_read hin] at hfails
          cases hfails
        · rw [lowerMachine_read_fails hin] at hfails
          cases hfails
          rfl
    | @writeFails addr size data s _ _ hsize hfails =>
        by_cases hin : addr.toNat + size ≤ limit
        · rw [lowerMachine_write hin] at hfails
          cases hfails
        · rw [lowerMachine_write_fails hin] at hfails
          cases hfails
          rfl
  like := by
    intro w u u' hu hu'
    exact hu.symm.trans hu'
  alike :=
    { keeps := fun _ _ => trivial
      answer := fun o w w' _ h => by rw [h]
      world := fun o w w' _ h => by rw [h] }

end LowerMachine

/-- `repne stosb`, two bytes from the last mapped one on. -/
def repneStosb : Insn := { handler := .opStos, opSize := 1, flags := { repne := true } }

def acrossLimit : Cpu := (({} : Cpu).setR Reg.rcx 2).setR Reg.rdi 0xFFF

/-- An empty memory. -/
def emptyWorld : World (GuestAddr → U8) := { mem := fun _ => 0 }

theorem string_restart_stosb : ∃ r c₁ w₁,
    (repneStosb.run default).EndsIn (lowerMachine 0x1000) acrossLimit emptyWorld r c₁ w₁ ∧
    c₁.r Reg.rcx = 1 ∧ c₁.r Reg.rdi = 0x1000 ∧
    LeftAfter repneStosb .stos acrossLimit (flatBytes emptyWorld.mem) c₁ (flatBytes w₁.mem) ∧
    ∃ c' w', (repneStosb.run default).EndsIn flatMachine (c₁.resumed acrossLimit) w₁
        (some ()) c' w' ∧
      c'.r Reg.rcx = 0 ∧ c'.r Reg.rdi = 0x1001 := by
  have hends : (repneStosb.run default).EndsIn (lowerMachine 0x1000) acrossLimit emptyWorld
      ((repneStosb.run default).run (lowerMachine 0x1000).env acrossLimit emptyWorld).value.1
      ((repneStosb.run default).run (lowerMachine 0x1000).env acrossLimit emptyWorld).value.2
      ((repneStosb.run default).run (lowerMachine 0x1000).env acrossLimit emptyWorld).world :=
    ⟨_, rfl⟩
  have hflat : (repneStosb.run default).EndsIn flatMachine acrossLimit emptyWorld (some ())
      ((repneStosb.run default).run flatMachine.env acrossLimit emptyWorld).value.2
      ((repneStosb.run default).run flatMachine.env acrossLimit emptyWorld).world := ⟨_, rfl⟩
  have hop : repneStosb.handler = (ImplicitOp.string .stos).handler := rfl
  obtain ⟨hleft, hrestarts⟩ := string_restart default hop (by decide)
    (lowerMachine_represents 0x1000) trivial rfl hends rfl
  refine ⟨_, _, _, hends, rfl, rfl, hleft, ?_⟩
  obtain ⟨w', hagain, _⟩ := hrestarts _ _ _ _ _ _ (flatMachine_completes 0x1000) rfl rfl _ _ _ hflat
  exact ⟨_, w', hagain, rfl, rfl⟩

end PicoCpu
