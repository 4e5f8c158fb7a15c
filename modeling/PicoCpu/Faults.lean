import PicoCpu.Discipline.Handlers

/-!
What an access that fails does to a handler, and what a handler does to the control state. A
relation between CPUs that quiet updates, faults, branches and the memory hooks follow is
followed by every handler; and a handler that looks at its statuses ends with a fault latched
when one of its accesses has failed.
-/

namespace PicoCpu

open H Proc

/-- A read or write that the provider answered with a failing status. -/
def Failed : machine.Event → Prop
  | ⟨.read _ _, .error _⟩ => True
  | ⟨.write _ _ _, .error _⟩ => True
  | _ => False

/-- Some access failed. -/
def SomeFailed (tr : List machine.Event) : Prop := ∃ e ∈ tr, Failed e

theorem someFailed_append {tr tr' : List machine.Event} :
    SomeFailed (tr ++ tr') ↔ SomeFailed tr ∨ SomeFailed tr' := by
  simp only [SomeFailed, List.mem_append, or_and_right, exists_or]

theorem not_someFailed_nil : ¬ SomeFailed [] := by
  rintro ⟨e, he, _⟩
  exact List.not_mem_nil he

theorem someFailed_cons {e : machine.Event} {tr : List machine.Event} :
    SomeFailed (e :: tr) ↔ Failed e ∨ SomeFailed tr := by
  simp only [SomeFailed, List.mem_cons, or_and_right, exists_or, exists_eq_left]

theorem someFailed_singleton {e : machine.Event} : SomeFailed [e] ↔ Failed e := by
  simp only [SomeFailed, List.mem_singleton, exists_eq_left]

/-- A fault is latched, and the CPU stands still. -/
def Cpu.Latched (c : Cpu) : Prop := c.fault.isSet = true ∧ c.halted = true

theorem latched_setFault (c : Cpu) {kind : FaultKind} (hkind : kind ≠ .none) (addr : GuestAddr)
    (reason : Status) (note : Option String) : (c.setFault kind addr reason note).Latched :=
  ⟨decide_eq_true hkind, rfl⟩

theorem Cpu.Latched.of_control {c c' : Cpu} (h : c.Latched) (hfault : c'.fault = c.fault)
    (hhalted : c'.halted = c.halted) : c'.Latched := by
  rw [Cpu.Latched, hfault, hhalted]
  exact h

/-- A relation along which the control state may change. -/
structure Follows (branches : Prop) (R : Cpu → Cpu → Prop) : Prop where
  refl : ∀ c, R c c
  trans : ∀ {c d e}, R c d → R d e → R c e
  quiet : ∀ {c d : Cpu}, d.control = c.control → R c d
  fault : ∀ (c : Cpu) {kind : FaultKind} (_ : kind ≠ .none) (addr : GuestAddr) (reason : Status)
    (note : Option String), R c (c.setFault kind addr reason note)
  branch : branches → ∀ (c : Cpu) (target : GuestAddr), R c (c.takeBranch target)

/-- The memory hooks follow the relation; every other answer is arbitrary. -/
def hooksFollow (R : Cpu → Cpu → Prop) : machine.Rely
  | .memHooks _ _ _ _, f => ∀ c : Cpu, R c (f c)
  | .attached _, _ => True
  | .read _ _, _ => True
  | .write _ _ _, _ => True
  | .nextTsc, _ => True
  | .nextRand, _ => True

/-- The program follows the relation, and gives up with a fault latched when an access has
failed, unless it is one that drops statuses. -/
structure Sound (R : Cpu → Cpu → Prop) (drops : Prop) {α : Type} (p : H α) : Prop where
  post : ∀ c, p.Post (hooksFollow R) c fun tr a c' =>
    R c c' ∧ (SomeFailed tr → drops ∨ (a = none ∧ c'.Latched))

namespace Sound

variable {α β : Type} {branches drops : Prop} {R : Cpu → Cpu → Prop}

/-- A program that asks nothing. -/
theorem of_silent {p : H α} (h : ∀ c, p.Post (hooksFollow R) c fun tr _ c' => tr = [] ∧ R c c') :
    Sound R drops p := by
  refine ⟨fun c => (h c).mono ?_⟩
  rintro tr a c' ⟨rfl, hR⟩
  exact ⟨hR, fun hfailed => absurd hfailed not_someFailed_nil⟩

section Basic

variable (hR : Follows branches R)

include hR

theorem ret (a : α) : Sound R drops (pure a : H α) := of_silent fun c => ⟨rfl, hR.refl c⟩

theorem exit : Sound R drops (Proc.exit : H α) := of_silent fun c => ⟨rfl, hR.refl c⟩

theorem gets (f : Cpu → α) : Sound R drops (H.gets f) := of_silent fun c => ⟨rfl, hR.refl c⟩

theorem modify {f : Cpu → Cpu} (hf : Cpu.Quiet f) : Sound R drops (Proc.modify f) :=
  of_silent fun c => ⟨rfl, hR.quiet (hf.control c)⟩

theorem fault {kind : FaultKind} (hkind : kind ≠ .none) (addr : Cpu → GuestAddr)
    (reason : Status) (note : Option String) :
    Sound R drops (Proc.modify fun c => c.setFault kind (addr c) reason note) :=
  of_silent fun c => ⟨rfl, hR.fault c hkind (addr c) reason note⟩

theorem branch (h : branches) (target : GuestAddr) :
    Sound R drops (Proc.modify fun c => c.takeBranch target) :=
  of_silent fun c => ⟨rfl, hR.branch h c target⟩

/-- An operation whose answer tells of no failed access. -/
theorem ask {o : MachineOp} (h : ∀ r, ¬ Failed ⟨o, r⟩) :
    Sound R drops (Proc.ask (S := machine) o : H (machine.Answer o)) := by
  refine ⟨fun c r _ => ⟨hR.refl c, fun hfailed => ?_⟩⟩
  exact absurd (someFailed_singleton.mp hfailed) (h r)

theorem bind {p : H α} {f : α → H β} (hp : Sound R drops p) (hf : ∀ a, Sound R drops (f a)) :
    Sound R drops (p >>= f) := by
  refine ⟨fun c => post_bind.mpr ((hp.post c).mono ?_)⟩
  rintro tr a c' ⟨hc, hfailed⟩
  cases a with
  | none =>
      refine ⟨hc, fun hsome => ?_⟩
      rcases hfailed hsome with hdrops | ⟨_, hlatched⟩
      · exact .inl hdrops
      · exact .inr ⟨rfl, hlatched⟩
  | some a =>
      refine ((hf a).post c').mono ?_
      rintro tr' b c'' ⟨hc', hfailed'⟩
      refine ⟨hR.trans hc hc', fun hsome => ?_⟩
      rcases someFailed_append.mp hsome with hfirst | hrest
      · rcases hfailed hfirst with hdrops | ⟨hnone, _⟩
        · exact .inl hdrops
        · cases hnone
      · exact hfailed' hrest

theorem raise {kind : FaultKind} (hkind : kind ≠ .none) (addr : GuestAddr) (reason : Status)
    (note : String) : Sound R drops (H.raise kind addr reason note : H α) :=
  bind hR (fault hR hkind (fun _ => addr) reason note) fun _ => exit hR

omit hR in
/-- The hooks follow the relation by assumption. -/
theorem fireMemHooks (addr : GuestAddr) (size : Nat) (value : U64) (isWrite : Bool) :
    Sound R drops (H.fireMemHooks addr size value isWrite) := by
  refine ⟨fun c => post_bind.mpr fun f hf => ?_⟩
  refine ⟨hf c, fun hfailed => ?_⟩
  exact absurd (someFailed_singleton.mp hfailed) id

/-- The program of a failed access. -/
theorem of_reports {p : Status → H α} (h : Reports p) (s : Status) (c : Cpu) :
    (p s).Post (hooksFollow R) c fun tr a c' => tr = [] ∧ R c c' ∧ a = none ∧ c'.Latched := by
  obtain ⟨kind, addr, reason, note, hkind, hp⟩ := h.raises s
  rw [hp]
  exact ⟨rfl, hR.fault c hkind (addr c) reason note, rfl,
    latched_setFault c hkind (addr c) reason note⟩

theorem read (addr : GuestAddr) (size : Nat) {k : Except Status Buf → H α}
    (hok : ∀ buf, Sound R drops (k (.ok buf))) (herror : Reports fun s => k (.error s)) :
    Sound R drops (askRead addr size >>= k) := by
  refine ⟨fun c => post_ask_bind.mpr fun r _ => ?_⟩
  cases r with
  | ok buf =>
      refine ((hok buf).post c).mono ?_
      rintro tr a c' ⟨hc, hfailed⟩
      refine ⟨hc, fun hsome => hfailed ?_⟩
      exact (someFailed_cons.mp hsome).resolve_left id
  | error s =>
      refine (of_reports hR herror s c).mono ?_
      rintro tr a c' ⟨_, hc, hnone, hlatched⟩
      exact ⟨hc, fun _ => .inr ⟨hnone, hlatched⟩⟩

theorem write (addr : GuestAddr) (size : Nat) (data : Buf) {k : Except Status Unit → H α}
    (hok : Sound R drops (k (.ok ()))) (herror : Reports fun s => k (.error s)) :
    Sound R drops (askWrite addr size data >>= k) := by
  refine ⟨fun c => post_ask_bind.mpr fun r _ => ?_⟩
  cases r with
  | ok u =>
      refine (hok.post c).mono ?_
      rintro tr a c' ⟨hc, hfailed⟩
      refine ⟨hc, fun hsome => hfailed ?_⟩
      exact (someFailed_cons.mp hsome).resolve_left id
  | error s =>
      refine (of_reports hR herror s c).mono ?_
      rintro tr a c' ⟨_, hc, hnone, hlatched⟩
      exact ⟨hc, fun _ => .inr ⟨hnone, hlatched⟩⟩

omit hR in
theorem drop (hdrops : drops) (addr : GuestAddr) (size : Nat) (data : Buf)
    {k : Except Status Unit → H α} (hk : ∀ r, Sound R drops (k r)) :
    Sound R drops (askWrite addr size data >>= k) := by
  refine ⟨fun c => post_ask_bind.mpr fun r _ => ?_⟩
  refine ((hk r).post c).mono ?_
  rintro tr a c' ⟨hc, _⟩
  exact ⟨hc, fun _ => .inl hdrops⟩

/-! ### The operand helpers -/

theorem requireAttached (isWrite : Bool) (addr : GuestAddr) (note : String) :
    Sound R drops (PicoCpu.requireAttached isWrite addr note) := by
  refine bind hR (ask hR fun _ => id) fun present => ?_
  split
  · exact raise hR FaultKind.noConfusion addr .providerFailure note
  · exact ret hR ()

theorem checkDataBreakpoint (addr : GuestAddr) (isWrite : Bool) (size : Nat) (note : String) :
    Sound R drops (H.checkDataBreakpoint addr isWrite size note) := by
  refine bind hR (gets hR _) fun hit => ?_
  refine bind hR (modify hR (.dataBreakpointAt addr isWrite size)) fun _ => ?_
  split
  · exact raise hR FaultKind.noConfusion addr .ok note
  · exact ret hR ()

theorem readOperand (insn : Insn) (op : Operand) (size : Nat) :
    Sound R drops (PicoCpu.readOperand insn op size) := by
  have hmem : Sound R drops (do
      let rip ← H.gets Cpu.rip
      PicoCpu.requireAttached false rip "no read provider"
      let addr ← H.gets fun c => ea c insn op
      H.checkDataBreakpoint addr false size "DR data load breakpoint"
      H.fireMemHooks addr size 0 false
      let buf ← H.load addr size pageFault "operand read"
      pure (loadLE buf size)) := by
    refine bind hR (gets hR Cpu.rip) fun rip => ?_
    refine bind hR (requireAttached hR false rip _) fun _ => ?_
    refine bind hR (gets hR _) fun addr => ?_
    refine bind hR (checkDataBreakpoint hR addr false size _) fun _ => ?_
    refine bind hR (fireMemHooks addr size 0 false) fun _ => ?_
    refine bind hR (read hR addr size (ret hR) ⟨fun s => ?_⟩) fun buf => ret hR _
    exact ⟨.pageFault, fun _ => addr, s, _, FaultKind.noConfusion, rfl⟩
  unfold PicoCpu.readOperand
  cases op.kind with
  | none => exact ret hR 0
  | reg => exact gets hR _
  | imm => exact ret hR _
  | rel => exact ret hR _
  | xmm => exact exit hR
  | mem => exact hmem
  | ripRelMem => exact hmem

theorem writeOperand (insn : Insn) (op : Operand) (size : Nat) (value : U64) :
    Sound R drops (PicoCpu.writeOperand insn op size value) := by
  have hbad {note : String} :
      Sound R drops (H.raiseAtRip .internalError .internal note : H Unit) :=
    bind hR (gets hR Cpu.rip) fun rip => raise hR FaultKind.noConfusion rip .internal note
  have hmem : Sound R drops (do
      let addr ← H.gets fun c => ea c insn op
      PicoCpu.requireAttached true addr "no write provider"
      H.checkDataBreakpoint addr true size "DR data store breakpoint"
      H.fireMemHooks addr size value true
      H.store addr size (storeLE value) kindFromStatus "operand write") := by
    refine bind hR (gets hR _) fun addr => ?_
    refine bind hR (requireAttached hR true addr _) fun _ => ?_
    refine bind hR (checkDataBreakpoint hR addr true size _) fun _ => ?_
    refine bind hR (fireMemHooks addr size value true) fun _ => ?_
    refine write hR addr size _ (ret hR ()) ⟨fun s => ?_⟩
    exact ⟨kindFromStatus s, fun _ => addr, s, _, kindFromStatus_ne_none s, rfl⟩
  unfold PicoCpu.writeOperand
  cases op.kind with
  | none => exact hbad
  | reg =>
      dsimp only
      split
      · exact modify hR (.writeGpr ..)
      · exact hbad
  | imm => exact hbad
  | rel => exact hbad
  | xmm => exact exit hR
  | mem => exact hmem
  | ripRelMem => exact hmem

end Basic

end Sound

/-! ### All handlers -/

section Handlers

variable {α : Type} {g : Grade} {R : Cpu → Cpu → Prop} (hR : Follows g.branches R)

include hR

theorem Within.sound {p : H α} (h : Within g p) : Sound R g.drops p := by
  induction h with
  | ret a => exact .ret hR a
  | exit => exact .exit hR
  | gets f => exact .gets hR f
  | modify hf => exact .modify hR hf
  | fault hkind addr reason note => exact .fault hR hkind addr reason note
  | branch h target => exact .branch hR h target
  | bind _ _ ihp ihf => exact .bind hR ihp ihf
  | attached isWrite => exact .ask hR fun _ => id
  | nextTsc => exact .ask hR fun _ => id
  | nextRand => exact .ask hR fun _ => id
  | readOperand insn _ => exact .readOperand hR insn _ _
  | writeOperand insn _ v => exact .writeOperand hR insn _ _ v
  | read _ addr size _ herror ihok => exact .read hR addr size ihok herror
  | write _ addr size data _ herror ihok => exact .write hR addr size data ihok herror
  | drop _ hdrops addr size data _ ihk => exact .drop hdrops addr size data ihk

/-- Silent work leaves a latched fault latched. -/
theorem Silent.follows {p : H α} (h : Silent g.branches p) (c : Cpu) :
    p.Post (hooksFollow R) c fun tr _ c' =>
      tr = [] ∧ R c c' ∧ (c.Latched → c'.Latched) := by
  induction h generalizing c with
  | ret a => exact ⟨rfl, hR.refl c, id⟩
  | gets f => exact ⟨rfl, hR.refl c, id⟩
  | modify hf =>
      have hcontrol := hf.control c
      refine ⟨rfl, hR.quiet hcontrol, fun hlatched => ?_⟩
      exact hlatched.of_control (congrArg Control.fault hcontrol) (congrArg Control.halted hcontrol)
  | branch h target => exact ⟨rfl, hR.branch h c target, fun hlatched => hlatched⟩
  | bind _ _ ihp ihf =>
      refine post_bind.mpr ((ihp c).mono ?_)
      rintro tr a c' ⟨rfl, hc, hkeeps⟩
      cases a with
      | none => exact ⟨rfl, hc, hkeeps⟩
      | some a =>
          refine (ihf a c').mono ?_
          rintro tr' b c'' ⟨rfl, hc', hkeeps'⟩
          exact ⟨rfl, hR.trans hc hc', fun hlatched => hkeeps' (hkeeps hlatched)⟩

/-- A handler follows the relation, and ends with a fault latched when an access has failed. -/
theorem Ends.sound {p : H α} (h : Ends g p) (c : Cpu) :
    p.Post (hooksFollow R) c fun tr _ c' =>
      R c c' ∧ (SomeFailed tr → g.drops ∨ c'.Latched) := by
  induction h generalizing c with
  | of hp =>
      refine ((hp.sound hR).post c).mono ?_
      rintro tr a c' ⟨hc, hfailed⟩
      exact ⟨hc, fun hsome => (hfailed hsome).imp_right And.right⟩
  | bind hp _ ihf =>
      refine post_bind.mpr (((hp.sound hR).post c).mono ?_)
      rintro tr a c' ⟨hc, hfailed⟩
      cases a with
      | none => exact ⟨hc, fun hsome => (hfailed hsome).imp_right And.right⟩
      | some a =>
          refine (ihf a c').mono ?_
          rintro tr' b c'' ⟨hc', hfailed'⟩
          refine ⟨hR.trans hc hc', fun hsome => ?_⟩
          rcases someFailed_append.mp hsome with hfirst | hrest
          · rcases hfailed hfirst with hdrops | ⟨hnone, _⟩
            · exact .inl hdrops
            · cases hnone
          · exact hfailed' hrest
  | attempt hp hk =>
      refine post_bind.mpr (post_attempt.mpr (((hp.sound hR).post c).mono ?_))
      rintro tr a c' ⟨hc, hfailed⟩
      refine ((hk a).follows hR c').mono ?_
      rintro tr' b c'' ⟨rfl, hc', hkeeps⟩
      refine ⟨hR.trans hc hc', fun hsome => ?_⟩
      rw [List.append_nil] at hsome
      exact (hfailed hsome).imp_right fun hlatched => hkeeps hlatched.2

end Handlers

/-! ### Runs -/

/-- The attached memory hooks follow the relation. -/
structure Attached.HooksFollow {σ : Type} (at_ : Attached σ) (R : Cpu → Cpu → Prop) : Prop where
  read : ∀ h ∈ at_.readHooks, ∀ addr size value isWrite c,
    R c (h.callback addr size value isWrite c)
  write : ∀ h ∈ at_.writeHooks, ∀ addr size value isWrite c,
    R c (h.callback addr size value isWrite c)

section Runs

variable {σ : Type} {branches : Prop} {R : Cpu → Cpu → Prop} (hR : Follows branches R)

include hR

theorem Follows.runMemHooks {hooks : List MemHook} {addr : GuestAddr} {size : Nat} {value : U64}
    {isWrite : Bool}
    (hhooks : ∀ h ∈ hooks, ∀ addr size value isWrite c, R c (h.callback addr size value isWrite c))
    (c : Cpu) : R c (PicoCpu.runMemHooks hooks addr size value isWrite c) := by
  unfold PicoCpu.runMemHooks
  induction hooks generalizing c with
  | nil => exact hR.refl c
  | cons h rest ih =>
      have hrest := ih fun h' hh' => hhooks h' (List.mem_cons_of_mem _ hh')
      rw [List.foldl_cons]
      split
      · exact hR.trans (hhooks h (List.mem_cons_self ..) addr size value isWrite c) (hrest _)
      · exact hrest c

theorem Follows.env {at_ : Attached σ} (hhooks : at_.HooksFollow R) (o : MachineOp) (w : World σ) :
    hooksFollow R o (at_.env o w).1 := by
  cases o with
  | memHooks addr size value isWrite =>
      intro c
      cases isWrite with
      | false => exact hR.runMemHooks hhooks.read c
      | true => exact hR.runMemHooks hhooks.write c
  | attached isWrite => exact trivial
  | read addr size => exact trivial
  | write addr size data => exact trivial
  | nextTsc => exact trivial
  | nextRand => exact trivial

omit hR in
/-- A whole handler, run with hooks that follow the relation. -/
theorem Follows.runOn (fp : HostFp) (i : Insn) (hR : Follows i.handler.branches R)
    {at_ : Attached σ} (hhooks : at_.HooksFollow R) (c : Cpu) (w : World σ) :
    R c ((i.run fp).runOn at_ c w).value.2 :=
  (Prog.All.exec ((Within.callHandler fp i.handler i).sound hR c) (hR.env hhooks) w).1

end Runs

end PicoCpu
