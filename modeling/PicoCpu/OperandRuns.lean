import PicoCpu.Registers
import PicoCpu.Execute

/-!
Where the run of a handler ends, given where the reads of its operands ended. A read of a register
or an immediate ends at once; one of memory may fault, or change the CPU through its hooks.
-/

namespace PicoCpu

open H Proc

variable {σ α β : Type}

/-- The program ends in a state and a world, with a value or early. -/
def H.EndsIn (p : H α) (at_ : Attached σ) (c : Cpu) (w : World σ) (r : Option α) (c' : Cpu)
    (w' : World σ) : Prop :=
  ∃ tr, p.run at_.env c w = ⟨(r, c'), w', tr⟩

section Rules

variable {p : H α} {f : α → H β} {at_ : Attached σ} {c c' c'' : Cpu} {w w' w'' : World σ}

theorem H.EndsIn.bind {a : α} {r : Option β} (hp : p.EndsIn at_ c w (some a) c' w')
    (hf : (f a).EndsIn at_ c' w' r c'' w'') : (p >>= f).EndsIn at_ c w r c'' w'' := by
  obtain ⟨tr, hp⟩ := hp
  obtain ⟨tr', hf⟩ := hf
  refine ⟨tr ++ tr', ?_⟩
  rw [run_bind, hp, andThen_some, hf]

theorem H.EndsIn.stop (hp : p.EndsIn at_ c w none c' w') :
    (p >>= f).EndsIn at_ c w none c' w' := by
  obtain ⟨tr, hp⟩ := hp
  refine ⟨tr, ?_⟩
  rw [run_bind, hp, andThen_none]

theorem H.EndsIn.runOn {q : H Unit} {r : Option Unit} (h : q.EndsIn at_ c w r c' w') :
    (q.runOn at_ c w).value = (r, c') ∧ (q.runOn at_ c w).world = w' := by
  obtain ⟨tr, h⟩ := h
  have hrun : q.runOn at_ c w = ⟨(r, c'), w', tr⟩ := h
  rw [hrun]
  exact ⟨rfl, rfl⟩

theorem endsIn_pure (a : α) : (pure a : H α).EndsIn at_ c w (some a) c w := ⟨[], rfl⟩

theorem endsIn_modify (g : Cpu → Cpu) : H.EndsIn (Proc.modify g) at_ c w (some ()) (g c) w :=
  ⟨[], rfl⟩

theorem endsIn_gets (g : Cpu → α) : (gets g).EndsIn at_ c w (some (g c)) c w := ⟨[], rfl⟩

theorem endsIn_raiseAtRip (kind : FaultKind) (s : Status) (note : String) :
    (raiseAtRip kind s note : H α).EndsIn at_ c w none (c.setFault kind c.rip s (some note)) w :=
  ⟨[], rfl⟩

/-- A program has one end. -/
theorem H.EndsIn.unique {r r' : Option α} (h : p.EndsIn at_ c w r c' w')
    (h' : p.EndsIn at_ c w r' c'' w'') : r = r' ∧ c' = c'' ∧ w' = w'' := by
  obtain ⟨tr, h⟩ := h
  obtain ⟨tr', h'⟩ := h'
  cases h.symm.trans h'
  exact ⟨rfl, rfl, rfl⟩

/-- The ends of a program are those of what follows its first part. -/
theorem H.EndsIn.bind_iff {a : α} {r : Option β} (hp : p.EndsIn at_ c w (some a) c' w') :
    (p >>= f).EndsIn at_ c w r c'' w'' ↔ (f a).EndsIn at_ c' w' r c'' w'' := by
  refine ⟨?_, hp.bind⟩
  obtain ⟨tr, hp⟩ := hp
  rintro ⟨tr', h⟩
  rw [run_bind, hp, andThen_some] at h
  refine ⟨((f a).run at_.env c' w').trace, ?_⟩
  have hvalue := congrArg Prog.Outcome.value h
  have hworld := congrArg Prog.Outcome.world h
  rw [Prog.outcome_eq_iff]
  exact ⟨hvalue, hworld, rfl⟩

/-- A bind that ends with a value went through its first part. -/
theorem H.EndsIn.of_bind {b : β} (h : (p >>= f).EndsIn at_ c w (some b) c'' w'') :
    ∃ a c' w', p.EndsIn at_ c w (some a) c' w' ∧ (f a).EndsIn at_ c' w' (some b) c'' w'' := by
  generalize hout : p.run at_.env c w = out
  rcases out with ⟨⟨_ | a, c'⟩, w', tr'⟩
  · obtain ⟨tr, h⟩ := h
    rw [run_bind, hout] at h
    cases h
  · have hp : p.EndsIn at_ c w (some a) c' w' := ⟨tr', hout⟩
    exact ⟨a, c', w', hp, hp.bind_iff.mp h⟩

theorem endsIn_getsSynced (g : Cpu → α) :
    (getsSynced g).EndsIn at_ c w (some (g c.syncFlags)) c.syncFlags w := ⟨[], rfl⟩

/-- Every program has an end. -/
theorem H.ends (p : H α) (at_ : Attached σ) (c : Cpu) (w : World σ) :
    ∃ r c' w', p.EndsIn at_ c w r c' w' := by
  rcases hrun : p.run at_.env c w with ⟨⟨r, c'⟩, w', tr⟩
  exact ⟨r, c', w', tr, hrun⟩

/-- A bind that gives up does so in one of its parts. -/
theorem H.EndsIn.of_bind_none (h : (p >>= f).EndsIn at_ c w none c' w') :
    p.EndsIn at_ c w none c' w' ∨
      ∃ a d w₁, p.EndsIn at_ c w (some a) d w₁ ∧ (f a).EndsIn at_ d w₁ none c' w' := by
  obtain ⟨a, d, w₁, hp⟩ := p.ends at_ c w
  cases a with
  | none =>
      obtain ⟨_, rfl, rfl⟩ := h.unique hp.stop
      exact .inl hp
  | some a => exact .inr ⟨a, d, w₁, hp, hp.bind_iff.mp h⟩

theorem H.EndsIn.of_attempt {a : Option α}
    (h : H.EndsIn (Proc.attempt p) at_ c w (some a) c' w') : p.EndsIn at_ c w a c' w' := by
  obtain ⟨tr, h⟩ := h
  rcases hrun : p.run at_.env c w with ⟨⟨r, c₁⟩, w₁, tr₁⟩
  rw [run_attempt, hrun] at h
  cases h
  exact ⟨_, hrun⟩

theorem endsIn_attempt {a : Option α} (h : p.EndsIn at_ c w a c' w') :
    H.EndsIn (Proc.attempt p) at_ c w (some a) c' w' := by
  obtain ⟨tr, h⟩ := h
  exact ⟨tr, by rw [run_attempt, h]⟩

end Rules

section Operands

variable {at_ : Attached σ} {c c' : Cpu} {w w' : World σ} {insn : Insn} {op : Operand} {size : Nat}

theorem readOperand_of_reg (hop : op.kind = .reg) :
    (readOperand insn op size).EndsIn at_ c w (some (c.readGpr op.reg size)) c w := by
  unfold readOperand
  rw [hop]
  exact endsIn_gets _

theorem readOperand_of_imm (hop : op.kind = .imm) :
    (readOperand insn op size).EndsIn at_ c w (some (op.imm &&& maskFor size)) c w := by
  unfold readOperand
  rw [hop]
  exact endsIn_pure _

theorem writeOperand_of_reg (hop : op.kind = .reg) (hsize : IsOpSize size) (v : U64) :
    (writeOperand insn op size v).EndsIn at_ c w (some ()) (c.writeGpr op.reg size v) w := by
  unfold writeOperand
  rw [hop]
  simp only [if_pos hsize]
  exact endsIn_modify _

theorem loadLE_masked (buf : Buf) (hsize : IsOpSize size) :
    loadLE buf size &&& maskFor size = loadLE buf size := by
  apply BitVec.eq_of_getLsbD_eq
  intro i hi
  rw [getLsbD_and_maskFor size hsize, getLsbD_loadLE buf size i hi]
  cases decide (i < 8 * size) <;> simp

/-- What is read of an operand has its size. -/
theorem readOperand_masked (hsize : IsOpSize size) (hop : op.kind ≠ .rel) {v : U64}
    (h : (readOperand insn op size).EndsIn at_ c w (some v) c' w') : v &&& maskFor size = v := by
  have hmem {p : GuestAddr → H Unit} {q : GuestAddr → H Unit} {r : GuestAddr → H Buf}
      (h : H.EndsIn (do
        let rip ← gets Cpu.rip
        p rip
        let addr ← gets fun c => ea c insn op
        q addr
        fireMemHooks addr size 0 false
        let buf ← r addr
        pure (loadLE buf size)) at_ c w (some v) c' w') : v &&& maskFor size = v := by
    obtain ⟨_, _, _, _, h⟩ := h.of_bind
    obtain ⟨_, _, _, _, h⟩ := h.of_bind
    obtain ⟨_, _, _, _, h⟩ := h.of_bind
    obtain ⟨_, _, _, _, h⟩ := h.of_bind
    obtain ⟨_, _, _, _, h⟩ := h.of_bind
    obtain ⟨buf, _, _, _, h⟩ := h.of_bind
    obtain ⟨hv, _⟩ := h.unique (endsIn_pure (loadLE buf size))
    rw [Option.some.inj hv]
    exact loadLE_masked buf hsize
  unfold readOperand at h
  cases hkind : op.kind with
  | none =>
      rw [hkind] at h
      obtain ⟨hv, _⟩ := h.unique (endsIn_pure _)
      rw [Option.some.inj hv]
      exact BitVec.zero_and
  | reg =>
      rw [hkind] at h
      obtain ⟨hv, _⟩ := h.unique (endsIn_gets _)
      rw [Option.some.inj hv, Cpu.readGpr_eq, and_maskFor_idem]
  | imm =>
      rw [hkind] at h
      obtain ⟨hv, _⟩ := h.unique (endsIn_pure _)
      rw [Option.some.inj hv, and_maskFor_idem]
  | rel => exact absurd hkind hop
  | xmm =>
      rw [hkind] at h
      obtain ⟨tr, h⟩ := h
      cases h
  | mem =>
      rw [hkind] at h
      exact hmem h
  | ripRelMem =>
      rw [hkind] at h
      exact hmem h

end Operands

/-- A BMI instruction whose source reads as `b` and whose destination is a register. -/
theorem bmiOp_ends {at_ : Attached σ} {c c₁ : Cpu} {w w₁ : World σ} {insn : Insn} {b : U64}
    {f : Insn → U64 → U64 → U64} {flags : Insn → U64 → U64 → U64 → Cpu → Cpu}
    (hsize : IsOpSize insn.opSize) (hdst : insn.dst.kind = .reg)
    (hread : (readOperand insn insn.src insn.opSize).EndsIn at_ c w (some b) c₁ w₁) :
    (Handlers.bmiOp f flags insn).EndsIn at_ c w (some ())
      (flags insn b (Handlers.readVvvv insn c₁) (f insn b (Handlers.readVvvv insn c₁))
        (c₁.writeGpr insn.dst.reg insn.opSize (f insn b (Handlers.readVvvv insn c₁)))) w₁ := by
  rw [Handlers.bmiOp, hread.bind_iff, (endsIn_gets _).bind_iff]
  exact (endsIn_attempt (writeOperand_of_reg hdst hsize _)).bind (endsIn_modify _)

end PicoCpu
