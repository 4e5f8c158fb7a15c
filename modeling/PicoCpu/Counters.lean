import PicoCpu.Handlers.StringOps

/-!
The counter and the two pointers that string instructions, LOOP and JRCXZ use without naming
them, as a part of the CPU of their own; and the plain memory accesses, whose address shows in
what they leave behind.
-/

namespace PicoCpu

open H Handlers Proc

variable {σ α : Type}

/-! ### Runs of the plain accesses -/

section Access

variable (at_ : Attached σ) (c : Cpu) (w : World σ)

theorem run_readMemBytes (missing note : String) (a : GuestAddr) (size : Nat) :
    (readMemBytes missing note a size).run at_.env c w =
      if at_.memRead.isSome then
        match at_.env (.read a size) w with
        | (.ok buf, w') => ⟨(some (loadLE buf size), c), w',
            [⟨MachineOp.attached false, (true : Bool)⟩,
              ⟨MachineOp.read a size, (.ok buf : Except Status Buf)⟩]⟩
        | (.error s, w') => ⟨(none, c.setFault .pageFault a s (some note)), w',
            [⟨MachineOp.attached false, (true : Bool)⟩,
              ⟨MachineOp.read a size, (.error s : Except Status Buf)⟩]⟩
      else ⟨(none, c.setFault .providerFailure a .providerFailure (some missing)), w,
          [⟨MachineOp.attached false, (false : Bool)⟩]⟩ := by
  cases hread : at_.memRead.isSome with
  | false => simp [readMemBytes, requireAttached, hread]
  | true =>
      simp only [readMemBytes, requireAttached, load, run_bind, run_attached, andThen_some, hread,
        if_true, if_false, Bool.not_true, Bool.false_eq_true, run_pure, run_askRead]
      rcases at_.env (.read a size) w with ⟨s | buf, w'⟩
      · simp [pageFault]
      · simp

theorem run_writeMemBytes (missing note : String) (a : GuestAddr) (size : Nat) (v : U64) :
    (writeMemBytes missing note a size v).run at_.env c w =
      if at_.memWrite.isSome then
        match at_.env (.write a size (storeLE v)) w with
        | (.ok (), w') => ⟨(some (), c), w',
            [⟨MachineOp.attached true, (true : Bool)⟩,
              ⟨MachineOp.write a size (storeLE v), (.ok () : Except Status Unit)⟩]⟩
        | (.error s, w') => ⟨(none, c.setFault (kindFromStatus s) a s (some note)), w',
            [⟨MachineOp.attached true, (true : Bool)⟩,
              ⟨MachineOp.write a size (storeLE v), (.error s : Except Status Unit)⟩]⟩
      else ⟨(none, c.setFault .providerFailure a .providerFailure (some missing)), w,
          [⟨MachineOp.attached true, (false : Bool)⟩]⟩ := by
  cases hwrite : at_.memWrite.isSome with
  | false => simp [writeMemBytes, requireAttached, hwrite]
  | true =>
      simp only [writeMemBytes, requireAttached, store, run_bind, run_attached, andThen_some,
        hwrite, if_true, if_false, Bool.not_true, Bool.false_eq_true, run_pure, run_askWrite]
      rcases at_.env (.write a size (storeLE v)) w with ⟨s | _, w'⟩
      · simp
      · simp

theorem readBytes_trace (a : GuestAddr) (size : Nat) :
    ((readBytes a size).run at_.env c w).trace ≠ [] := by
  rw [readBytes, run_readMemBytes]
  split
  · rcases at_.env (.read a size) w with ⟨_ | _, _⟩
    · exact List.cons_ne_nil _ _
    · exact List.cons_ne_nil _ _
  · exact List.cons_ne_nil _ _

theorem writeBytes_trace (a : GuestAddr) (size : Nat) (v : U64) :
    ((writeBytes a size v).run at_.env c w).trace ≠ [] := by
  rw [writeBytes, run_writeMemBytes]
  split
  · rcases at_.env (.write a size (storeLE v)) w with ⟨_ | _, _⟩
    · exact List.cons_ne_nil _ _
    · exact List.cons_ne_nil _ _
  · exact List.cons_ne_nil _ _

end Access

/-! ### The three registers -/

/-- The counter and the two pointers. -/
structure Counters where
  rcx : U64
  rsi : U64
  rdi : U64

/-- The CPU with these counter and pointers. -/
def Counters.into (n : Counters) (c : Cpu) : Cpu :=
  { c with
    gpr := fun i =>
      if i = Reg.rcx then n.rcx
      else if i = Reg.rsi then n.rsi
      else if i = Reg.rdi then n.rdi
      else c.gpr i }

def Counters.of (c : Cpu) : Counters := ⟨c.r Reg.rcx, c.r Reg.rsi, c.r Reg.rdi⟩

namespace Counters

@[simp] theorem rcx_into (n : Counters) (c : Cpu) : (n.into c).r Reg.rcx = n.rcx := rfl
@[simp] theorem rsi_into (n : Counters) (c : Cpu) : (n.into c).r Reg.rsi = n.rsi := rfl
@[simp] theorem rdi_into (n : Counters) (c : Cpu) : (n.into c).r Reg.rdi = n.rdi := rfl
@[simp] theorem rax_into (n : Counters) (c : Cpu) : (n.into c).r Reg.rax = c.r Reg.rax := rfl

theorem of_into (c : Cpu) : (of c).into c = c := by
  have hgpr : ((of c).into c).gpr = c.gpr := by
    funext i
    simp only [into, of, Cpu.r]
    split
    · rename_i h; rw [h]
    · split
      · rename_i h; rw [h]
      · split
        · rename_i h; rw [h]
        · rfl
  exact congrArg (fun g => { c with gpr := g }) hgpr

theorem into_inj {n n' : Counters} {c : Cpu} : n.into c = n'.into c ↔ n = n' := by
  constructor
  · intro h
    have hrcx : n.rcx = n'.rcx := congrArg (fun d : Cpu => d.r Reg.rcx) h
    have hrsi : n.rsi = n'.rsi := congrArg (fun d : Cpu => d.r Reg.rsi) h
    have hrdi : n.rdi = n'.rdi := congrArg (fun d : Cpu => d.r Reg.rdi) h
    rcases n with ⟨_, _, _⟩
    rcases n' with ⟨_, _, _⟩
    cases hrcx; cases hrsi; cases hrdi
    rfl
  · intro h
    rw [h]

/-- LODS loads into RAX, which is none of the three. -/
theorem load_into (n : Counters) (size : Nat) (v : U64) (c : Cpu) :
    (if IsOpSize size then (n.into c).writeGpr Reg.rax size v else n.into c) =
      n.into (if IsOpSize size then c.writeGpr Reg.rax size v else c) := by
  have hset (x : U64) : (n.into c).setR Reg.rax x = n.into (c.setR Reg.rax x) := by
    have hgpr : Function.update (n.into c).gpr Reg.rax x = (n.into (c.setR Reg.rax x)).gpr := by
      funext i
      simp only [Function.update_apply, into, Cpu.setR]
      split
      · rename_i h; rw [h]; rfl
      · rfl
    exact congrArg (fun g => { n.into c with gpr := g }) hgpr
  by_cases hsize : IsOpSize size
  · rw [if_pos hsize, if_pos hsize]
    apply hsize.cases
    · exact hset _
    · exact hset _
    · exact hset _
    · exact hset _
  · rw [if_neg hsize, if_neg hsize]

/-- Comparing leaves the three alone. -/
theorem stashSub_into (n : Counters) (size : Nat) (b r : U64) (c : Cpu) :
    (n.into c).stashSub size b r = n.into (c.stashSub size b r) := rfl

theorem syncFlags_into (n : Counters) (c : Cpu) : (n.into c).syncFlags = n.into c.syncFlags := by
  have hop : (n.into c).ccOp = c.ccOp := rfl
  rw [Cpu.syncFlags, Cpu.syncFlags, hop]
  split <;> rfl

theorem of_syncFlags (c : Cpu) : of c.syncFlags = of c := by
  rw [Cpu.syncFlags]
  split <;> rfl

theorem zf_into (n : Counters) (c : Cpu) : (n.into c).zf = c.zf := by
  rw [Cpu.zf, Cpu.flag, syncFlags_into]
  rfl

theorem setFault_into_inj {n n' : Counters} {c : Cpu} {kind : FaultKind} {a a' : GuestAddr}
    {s : Status} {note : Option String} :
    (n.into c).setFault kind a s note = (n'.into c).setFault kind a' s note ↔ a = a' ∧ n = n' := by
  constructor
  · intro h
    have haddr : a = a' := congrArg (fun d : Cpu => d.fault.addr) h
    have hregs : n.into (c.setFault kind a s note) = n'.into (c.setFault kind a s note) := by
      rw [← haddr] at h
      exact h
    exact ⟨haddr, into_inj.mp hregs⟩
  · rintro ⟨rfl, rfl⟩
    rfl

end Counters


/-! ### Accesses -/

/-- Whether a read finds a provider and its bytes. -/
def Attached.readable (at_ : Attached σ) (a : GuestAddr) (size : Nat) (w : World σ) : Bool :=
  at_.memRead.isSome && (at_.env (.read a size) w).1.isOk

theorem readable_eq (at_ : Attached σ) (missing note : String) (a : GuestAddr) (size : Nat)
    (c : Cpu) (w : World σ) :
    at_.readable a size w =
      ((readMemBytes missing note a size).run at_.env c w).value.1.isSome := by
  rw [Attached.readable, run_readMemBytes]
  cases at_.memRead.isSome with
  | false => rfl
  | true =>
      simp only [Bool.true_and, if_true]
      rcases at_.env (.read a size) w with ⟨_ | _, _⟩
      · rfl
      · rfl

/-- An access to memory: its address shows in the trace or in the fault, and apart from its
fault it leaves the CPU alone. -/
structure IsAccess (at_ : Attached σ) (p : GuestAddr → H α) : Prop where
  keeps : ∀ (a : GuestAddr) (c : Cpu) (w : World σ) (x : α),
    ((p a).run at_.env c w).value.1 = some x → ((p a).run at_.env c w).value.2 = c
  pair : ∀ {β : Type} (a a' : GuestAddr) (n n' : Counters) (c : Cpu) (w : World σ)
    (k k' : α → H β),
    (p a >>= k).run at_.env (n.into c) w = (p a' >>= k').run at_.env (n'.into c) w ↔
      a = a' ∧
        match ((p a).run at_.env c w).value.1 with
        | none => n = n'
        | some x =>
          (k x).run at_.env (n.into c) ((p a).run at_.env c w).world =
            (k' x).run at_.env (n'.into c) ((p a).run at_.env c w).world

/-- An access fails or hands on its answer with the CPU as it was. -/
theorem IsAccess.fails_or_answers {at_ : Attached σ} {p : GuestAddr → H α} (h : IsAccess at_ p)
    (a : GuestAddr) (c : Cpu) (w : World σ) :
    (∃ d w' tr, (p a).run at_.env c w = ⟨(none, d), w', tr⟩) ∨
      ∃ x w' tr, (p a).run at_.env c w = ⟨(some x, c), w', tr⟩ := by
  have hkeeps := h.keeps a c w
  rcases hrun : (p a).run at_.env c w with ⟨⟨_ | x, d⟩, w', tr⟩
  · exact Or.inl ⟨d, w', tr, rfl⟩
  · rw [hrun] at hkeeps
    have hd : d = c := hkeeps x rfl
    exact Or.inr ⟨x, w', tr, by rw [hd]⟩

theorem read_event_ne {a a' : GuestAddr} (ha : a ≠ a') (size : Nat) (x y : Except Status Buf) :
    (⟨MachineOp.read a size, x⟩ : machine.Event) ≠ ⟨MachineOp.read a' size, y⟩ := by
  intro h
  have hop : MachineOp.read a size = MachineOp.read a' size := congrArg Sigma.fst h
  cases hop
  exact ha rfl

theorem write_event_ne {a a' : GuestAddr} (ha : a ≠ a') (size : Nat) (data : Buf)
    (x y : Except Status Unit) :
    (⟨MachineOp.write a size data, x⟩ : machine.Event) ≠ ⟨MachineOp.write a' size data, y⟩ := by
  intro h
  have hop : MachineOp.write a size data = MachineOp.write a' size data := congrArg Sigma.fst h
  cases hop
  exact ha rfl

theorem readMemBytes_isAccess (at_ : Attached σ) (missing note : String) (size : Nat) :
    IsAccess at_ fun a => readMemBytes missing note a size := by
  refine ⟨fun a c w x hx => ?_, fun a a' n n' c w k k' => ?_⟩
  · rw [run_readMemBytes] at hx ⊢
    split at hx
    · rename_i hread
      rw [if_pos hread]
      revert hx
      rcases at_.env (.read a size) w with ⟨_ | _, _⟩
      · intro hx; cases hx
      · exact fun _ => rfl
    · cases hx
  simp only [run_bind, run_readMemBytes]
  cases hread : at_.memRead.isSome with
  | false => simp [Counters.setFault_into_inj, Prog.Outcome.mk.injEq]
  | true =>
      simp only [if_true]
      by_cases ha : a = a'
      · subst ha
        rcases at_.env (.read a size) w with ⟨s | buf, w'⟩
        · simp [Counters.setFault_into_inj]
        · simp [Prog.outcome_eq_iff]
      · refine iff_of_false ?_ fun h => ha h.1
        intro h
        generalize at_.env (.read a size) w = out, at_.env (.read a' size) w = out' at h
        rcases out with ⟨_ | _, _⟩ <;> rcases out' with ⟨_ | _, _⟩ <;>
        simp [read_event_ne ha] at h

theorem writeMemBytes_isAccess (at_ : Attached σ) (missing note : String) (size : Nat) (v : U64) :
    IsAccess at_ fun a => writeMemBytes missing note a size v := by
  refine ⟨fun a c w x hx => ?_, fun a a' n n' c w k k' => ?_⟩
  · rw [run_writeMemBytes] at hx ⊢
    split at hx
    · rename_i hread
      rw [if_pos hread]
      revert hx
      rcases at_.env (.write a size (storeLE v)) w with ⟨_ | _, _⟩
      · intro hx; cases hx
      · exact fun _ => rfl
    · cases hx
  simp only [run_bind, run_writeMemBytes]
  cases hwrite : at_.memWrite.isSome with
  | false => simp [Counters.setFault_into_inj, Prog.Outcome.mk.injEq]
  | true =>
      simp only [if_true]
      by_cases ha : a = a'
      · subst ha
        rcases at_.env (.write a size (storeLE v)) w with ⟨s | buf, w'⟩
        · simp [Counters.setFault_into_inj]
        · simp [Prog.outcome_eq_iff]
      · refine iff_of_false ?_ fun h => ha h.1
        intro h
        generalize at_.env (.write a size (storeLE v)) w = out,
          at_.env (.write a' size (storeLE v)) w = out' at h
        rcases out with ⟨_ | _, _⟩ <;> rcases out' with ⟨_ | _, _⟩ <;>
        simp [write_event_ne ha] at h

end PicoCpu
