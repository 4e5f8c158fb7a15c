import PicoCpu.Counters
import PicoCpu.Decoder.EntryPoints
import PicoCpu.Execute

/-!
String instructions, LOOP and JRCXZ against the prefixes they were decoded with. The view of
the prefixes says which registers, at which width, and which segment base the instruction is
to use; the handlers never look, and the states in which that shows are found.
-/

namespace PicoCpu

open H Handlers Proc

variable {σ α : Type}

/-! ### What the prefixes say -/

/-- The address size and the segment that govern the implicit operands. -/
structure View where
  narrow : Bool := false
  seg : Seg := .ds

namespace View

/-- A further prefix byte. Of several segment overrides the last one counts. -/
def after (v : View) (b : U8) : View :=
  match b.toNat with
  | 0x67 => { v with narrow := true }
  | 0x26 => { v with seg := .es }
  | 0x2E => { v with seg := .cs }
  | 0x36 => { v with seg := .ss }
  | 0x3E => { v with seg := .ds }
  | 0x64 => { v with seg := .fs }
  | 0x65 => { v with seg := .gs }
  | _ => v

def ofBytes (bytes : List U8) : View := bytes.foldl after {}

/-- A counter or pointer register as this address size has it. -/
def ptr (v : View) (x : U64) : U64 := if v.narrow then x &&& 0xFFFFFFFF else x

/-- Write a counter or pointer register at this address size. -/
def put (v : View) (reg : Nat) (x : U64) (c : Cpu) : Cpu :=
  if v.narrow then c.setR32 reg x else c.setR64 reg x

theorem put_eq (v : View) (reg : Nat) (x : U64) (c : Cpu) :
    v.put reg x c = c.setR64 reg (v.ptr x) := by
  cases hnarrow : v.narrow <;> simp [put, ptr, hnarrow, Cpu.setR32, Cpu.setR64]

@[simp] theorem ptr_zero (v : View) : v.ptr 0 = 0 := by
  unfold ptr
  split <;> rfl

/-- Only FS and GS have a base. -/
def base (v : View) (c : Cpu) : U64 :=
  match v.seg with
  | .fs => c.fsBase
  | .gs => c.gsBase
  | _ => 0

end View

inductive StringOp where
  | movs | stos | lods | scas | cmps
  deriving DecidableEq

namespace StringOp

def usesSource : StringOp → Bool
  | .movs | .lods | .cmps => true
  | .stos | .scas => false

def usesDest : StringOp → Bool
  | .lods => false
  | .movs | .stos | .scas | .cmps => true

/-- One element at the given addresses; the answer is the zero flag a repeat looks at. -/
def element (op : StringOp) (size : Nat) (src dst : GuestAddr) : H Bool :=
  match op with
  | .movs => do
    let v ← readBytes src size
    writeBytes dst size v
    pure false
  | .stos => do
    let v ← gets fun c => c.r Reg.rax &&& maskFor size
    writeBytes dst size v
    pure false
  | .lods => do
    let v ← readBytes src size
    Proc.modify fun c => if IsOpSize size then c.writeGpr Reg.rax size v else c
    pure false
  | .scas => do
    let v ← readBytes dst size
    Proc.modify fun c => c.stashSub size v ((c.r Reg.rax &&& maskFor size) - v &&& maskFor size)
    getsSynced Cpu.zf
  | .cmps => do
    let vs ← readBytes src size
    let vd ← readBytes dst size
    Proc.modify fun c => c.stashSub size vd (vs - vd &&& maskFor size)
    getsSynced Cpu.zf

/-- The step the handler of the operation runs. -/
def codeStep (op : StringOp) (size : Nat) : H Bool :=
  match op with
  | .movs => movsStep size
  | .stos => stosStep size
  | .lods => lodsStep size
  | .scas => scasStep size
  | .cmps => cmpsStep size

end StringOp

namespace View

/-- The pointers move on from where they were. -/
def updates (v : View) (op : StringOp) (size : Nat) (rsi rdi : U64) : H Unit := do
  if op.usesSource then Proc.modify fun c => v.put Reg.rsi (rsi + dirStep c size) c
  if op.usesDest then Proc.modify fun c => v.put Reg.rdi (rdi + dirStep c size) c

/-- The step with the operands the view selects. -/
def step (v : View) (op : StringOp) (size : Nat) : H Bool := do
  let rsi ← gets fun c => v.ptr (c.r Reg.rsi)
  let rdi ← gets fun c => v.ptr (c.r Reg.rdi)
  let base ← gets v.base
  let zf ← op.element size (rsi + base) rdi
  v.updates op size rsi rdi
  pure zf

/-- Whether a repeat prefix ends the loop on this zero flag. -/
def stops (insn : Insn) (zf : Bool) : Bool := (insn.flags.rep && !zf) || (insn.flags.repne && zf)

/-- The repeat loop with the view's counter. -/
def loop (v : View) (op : StringOp) (insn : Insn) : Nat → H Unit
  | 0 => pure ()
  | fuel + 1 => do
    let more ← gets fun c => v.ptr (c.r Reg.rcx) != 0 && !c.halted
    if more then
      let zf ← v.step op insn.opSize
      Proc.modify fun c => v.put Reg.rcx (v.ptr (c.r Reg.rcx) - 1) c
      if stops insn zf then pure () else v.loop op insn fuel

/-- A string instruction under the view. The whole RCX bounds the narrow count too. -/
def string (v : View) (op : StringOp) (insn : Insn) : H Unit := do
  if hasRep insn then
    let rcx ← gets fun c => c.r Reg.rcx
    v.loop op insn rcx.toNat
  else
    let _ ← v.step op insn.opSize

end View

theorem gets_const_bind {β : Type} (x : α) (k : α → H β) : (gets fun _ => x) >>= k = k x := rfl

theorem gets_unused_bind {β : Type} (f : Cpu → α) (k : H β) : (gets f >>= fun _ => k) = k := rfl

theorem base_plain : View.base {} = fun _ => 0 := rfl

namespace StringOp

theorem codeStep_eq (op : StringOp) (size : Nat) : op.codeStep size = View.step {} op size := by
  cases op <;>
    simp [codeStep, movsStep, stosStep, lodsStep, scasStep, cmpsStep, View.step, View.updates,
      element, usesSource, usesDest, advance, View.ptr, View.put, base_plain, gets_const_bind,
      gets_unused_bind]

theorem repLoop_eq (op : StringOp) (insn : Insn) (n : Nat) :
    repLoop insn (op.codeStep insn.opSize) n = View.loop {} op insn n := by
  induction n with
  | zero => rfl
  | succ n ih =>
      rw [repLoop, View.loop, ih, codeStep_eq]
      rfl

/-- The handler runs the step with nothing but the plain 64-bit registers. -/
theorem runString_eq (op : StringOp) (insn : Insn) :
    runString insn (op.codeStep insn.opSize) = View.string {} op insn := by
  rw [runString, View.string, codeStep_eq]
  simp only [← codeStep_eq, repLoop_eq]

end StringOp

namespace Counters

/-! ### The three registers under an update -/

/-- Writing one of them through the view. -/
theorem put_into (v : View) (reg : Nat) (x : U64) (n n' : Counters) (c : Cpu)
    (h : ∀ i, Function.update (n.into c).gpr reg (v.ptr x) i = (n'.into c).gpr i) :
    v.put reg x (n.into c) = n'.into c := by
  rw [View.put_eq, Cpu.setR64, Cpu.setR, funext h]
  rfl

theorem put_rcx (v : View) (x : U64) (n : Counters) (c : Cpu) :
    v.put Reg.rcx x (n.into c) = ({ n with rcx := v.ptr x } : Counters).into c := by
  refine put_into v _ x n _ c fun i => ?_
  simp only [Function.update_apply, into]
  split <;> rfl

theorem put_rsi (v : View) (x : U64) (n : Counters) (c : Cpu) :
    v.put Reg.rsi x (n.into c) = ({ n with rsi := v.ptr x } : Counters).into c := by
  refine put_into v _ x n _ c fun i => ?_
  simp only [Function.update_apply, into]
  split
  · rename_i h; rw [h]; rfl
  · rfl

theorem put_rdi (v : View) (x : U64) (n : Counters) (c : Cpu) :
    v.put Reg.rdi x (n.into c) = ({ n with rdi := v.ptr x } : Counters).into c := by
  refine put_into v _ x n _ c fun i => ?_
  simp only [Function.update_apply, into]
  split
  · rename_i h; rw [h]; rfl
  · rfl

/-- The registers after one element of step `d`, the count left alone. -/
def next (v : View) (op : StringOp) (d : U64) (n : Counters) : Counters where
  rcx := n.rcx
  rsi := if op.usesSource then v.ptr (v.ptr n.rsi + d) else n.rsi
  rdi := if op.usesDest then v.ptr (v.ptr n.rdi + d) else n.rdi

end Counters

namespace StringOp

/-- Whether the two pairs of addresses agree as far as the element gets: the destination of an
operation with a source counts only once the source is read. -/
def AddrsAgree (op : StringOp) (size : Nat) (at_ : Attached σ) (src dst src' dst' : GuestAddr)
    (w : World σ) : Prop :=
  (op.usesSource → src = src') ∧
    (op.usesDest → (op.usesSource → at_.readable src size w) → dst = dst')

theorem element_pair {β : Type} (op : StringOp) (size : Nat) (at_ : Attached σ)
    (src dst src' dst' : GuestAddr) (n n' : Counters) (c : Cpu) (w : World σ)
    (k k' : Bool → H β) :
    (op.element size src dst >>= k).run at_.env (n.into c) w =
        (op.element size src' dst' >>= k').run at_.env (n'.into c) w ↔
      op.AddrsAgree size at_ src dst src' dst' w ∧
        match ((op.element size src dst).run at_.env c w).value with
        | (none, _) => n = n'
        | (some zf, d) =>
          (k zf).run at_.env (n.into d) ((op.element size src dst).run at_.env c w).world =
            (k' zf).run at_.env (n'.into d) ((op.element size src dst).run at_.env c w).world := by
  have hread : IsAccess at_ fun a => readBytes a size := readMemBytes_isAccess at_ _ _ size
  have hreadable : at_.readable src size w = ((readBytes src size).run at_.env c w).value.1.isSome :=
    readable_eq at_ _ _ src size c w
  have hwrite (v : U64) : IsAccess at_ fun a => writeBytes a size v :=
    writeMemBytes_isAccess at_ _ _ size v
  cases op with
  | movs =>
      simp only [element, bind_assoc, pure_bind]
      rw [hread.pair src src' n n' c w]
      rcases hread.fails_or_answers src c w with ⟨d, w', tr, hrun⟩ | ⟨v, w', tr, hrun⟩
      · simp [AddrsAgree, usesSource, usesDest, hreadable, hrun]
      · simp only [hrun]
        rw [(hwrite v).pair dst dst' n n' c w']
        rcases (hwrite v).fails_or_answers dst c w' with ⟨d, w'', tr', hrun'⟩ | ⟨_, w'', tr', hrun'⟩
        · simp [AddrsAgree, usesSource, usesDest, hreadable, hrun, hrun', and_assoc]
        · simp [AddrsAgree, usesSource, usesDest, hreadable, hrun, hrun', and_assoc]
  | stos =>
      have hrax (k : U64 → H β) (n : Counters) :
          (gets (fun c => c.r Reg.rax &&& maskFor size) >>= k).run at_.env (n.into c) w =
            (k (c.r Reg.rax &&& maskFor size)).run at_.env (n.into c) w := rfl
      simp only [element, bind_assoc, pure_bind]
      rw [hrax, hrax, (hwrite _).pair dst dst' n n' c w]
      rcases (hwrite (c.r Reg.rax &&& maskFor size)).fails_or_answers dst c w with
        ⟨d, w', tr, hrun⟩ | ⟨_, w', tr, hrun⟩
      · simp [AddrsAgree, usesSource, usesDest, hreadable, hrun]
      · simp [AddrsAgree, usesSource, usesDest, hreadable, hrun]
  | lods =>
      simp only [element, bind_assoc, pure_bind]
      rw [hread.pair src src' n n' c w]
      rcases hread.fails_or_answers src c w with ⟨d, w', tr, hrun⟩ | ⟨v, w', tr, hrun⟩
      · simp [AddrsAgree, usesSource, usesDest, hreadable, hrun]
      · simp [AddrsAgree, usesSource, usesDest, hreadable, hrun, Counters.load_into,
          Prog.outcome_eq_iff]
  | scas =>
      simp only [element, bind_assoc]
      rw [hread.pair dst dst' n n' c w]
      rcases hread.fails_or_answers dst c w with ⟨d, w', tr, hrun⟩ | ⟨v, w', tr, hrun⟩
      · simp [AddrsAgree, usesSource, usesDest, hreadable, hrun]
      · simp [AddrsAgree, usesSource, usesDest, hreadable, hrun, Counters.stashSub_into, getsSynced,
          Counters.syncFlags_into, Counters.zf_into, Prog.outcome_eq_iff]
  | cmps =>
      simp only [element, bind_assoc]
      rw [hread.pair src src' n n' c w]
      rcases hread.fails_or_answers src c w with ⟨d, w', tr, hrun⟩ | ⟨vs, w', tr, hrun⟩
      · simp [AddrsAgree, usesSource, usesDest, hreadable, hrun]
      · simp only [hrun]
        rw [hread.pair dst dst' n n' c w']
        rcases hread.fails_or_answers dst c w' with ⟨d, w'', tr', hrun'⟩ | ⟨vd, w'', tr', hrun'⟩
        · simp [AddrsAgree, usesSource, usesDest, hreadable, hrun, hrun', and_assoc]
        · simp [AddrsAgree, usesSource, usesDest, hreadable, hrun, hrun', and_assoc,
            Counters.stashSub_into, getsSynced, Counters.syncFlags_into, Counters.zf_into,
            Prog.outcome_eq_iff]

end StringOp

namespace View

/-- Where the code's addresses and the view's agree. -/
def Aimed (v : View) (op : StringOp) (size : Nat) (at_ : Attached σ) (c : Cpu) (w : World σ) : Prop :=
  op.AddrsAgree size at_ (c.r Reg.rsi) (c.r Reg.rdi) (v.ptr (c.r Reg.rsi) + v.base c)
    (v.ptr (c.r Reg.rdi)) w

theorem ptr_ptr (v : View) (x : U64) : v.ptr (v.ptr x) = v.ptr x := by
  cases hnarrow : v.narrow with
  | false => simp [ptr, hnarrow]
  | true =>
      simp only [ptr, hnarrow, if_true]
      exact and_maskFor_idem 4 x

theorem ptr_ptr_add (v : View) (x d : U64) : v.ptr (v.ptr x + d) = v.ptr (x + d) := by
  cases hnarrow : v.narrow with
  | false => simp [ptr, hnarrow]
  | true =>
      simp only [ptr, hnarrow, if_true]
      exact masked_add_left 4 (by decide) x d

theorem ptr_ptr_sub (v : View) (x d : U64) : v.ptr (v.ptr x - d) = v.ptr (x - d) := by
  cases hnarrow : v.narrow with
  | false => simp [ptr, hnarrow]
  | true =>
      simp only [ptr, hnarrow, if_true]
      exact masked_sub_left 4 (by decide) x d

theorem run_updates (v : View) (op : StringOp) (size : Nat) (at_ : Attached σ) (n : Counters)
    (d : Cpu) (w : World σ) :
    (v.updates op size (v.ptr n.rsi) (v.ptr n.rdi)).run at_.env (n.into d) w =
      ⟨(some (), (n.next v op (dirStep d size)).into d), w, []⟩ := by
  have hdir (n : Counters) : dirStep (n.into d) size = dirStep d size := rfl
  cases op <;>
    simp [updates, StringOp.usesSource, StringOp.usesDest, Counters.put_rsi, Counters.put_rdi,
      Counters.next, hdir]

theorem step_run {β : Type} (v : View) (op : StringOp) (size : Nat) (at_ : Attached σ)
    (n : Counters) (c : Cpu) (w : World σ) (k : Bool → H β) :
    (v.step op size >>= k).run at_.env (n.into c) w =
      (op.element size (v.ptr n.rsi + v.base c) (v.ptr n.rdi) >>= fun zf =>
        v.updates op size (v.ptr n.rsi) (v.ptr n.rdi) >>= fun _ => k zf).run at_.env (n.into c) w := by
  have hbase : v.base (n.into c) = v.base c := by
    unfold base
    split <;> rfl
  simp only [step, bind_assoc, pure_bind]
  rw [← hbase]
  rfl

/-- The pointers the operation moves have no bits the view does not keep. -/
structure PointersSettled (v : View) (op : StringOp) (c : Cpu) : Prop where
  rsi : op.usesSource → v.ptr (c.r Reg.rsi) = c.r Reg.rsi
  rdi : op.usesDest → v.ptr (c.r Reg.rdi) = c.r Reg.rdi

/-- The same, with the counter. -/
structure Settled (v : View) (op : StringOp) (c : Cpu) : Prop extends v.PointersSettled op c where
  rcx : v.ptr (c.r Reg.rcx) = c.r Reg.rcx

/-- The loop of the code stays on the loop of the view from state `c` on: at every pass the
counters are both spent or both not, the addresses agree, and where the loop ends after the
first pass (`fresh` is false) the registers are the ones the view leaves. -/
def Follows (v : View) (op : StringOp) (insn : Insn) (at_ : Attached σ) :
    Nat → Bool → Cpu → World σ → Prop
  | 0, fresh, c, _ => fresh ∨ v.Settled op c
  | fuel + 1, fresh, c, w =>
    if c.r Reg.rcx ≠ 0 ∧ c.halted = false then
      v.ptr (c.r Reg.rcx) ≠ 0 ∧ v.Aimed op insn.opSize at_ c w ∧
        match (op.codeStep insn.opSize).run at_.env c w with
        | ⟨(none, _), _, _⟩ => fresh ∨ v.Settled op c
        | ⟨(some zf, d), w', _⟩ =>
          let d' := d.setR64 Reg.rcx (d.r Reg.rcx - 1)
          if stops insn zf then v.Settled op d'
          else v.Follows op insn at_ fuel false d' w'
    else fresh ∨ v.Settled op c

/-- The view's registers against the code's. -/
structure Related (v : View) (op : StringOp) (n n' : Counters) : Prop where
  rcx : v.ptr n'.rcx = v.ptr n.rcx
  rsi : v.ptr n'.rsi = v.ptr n.rsi
  rdi : v.ptr n'.rdi = v.ptr n.rdi
  source : op.usesSource = false → n'.rsi = n.rsi
  dest : op.usesDest = false → n'.rdi = n.rdi

theorem Related.refl (v : View) (op : StringOp) (n : Counters) : v.Related op n n :=
  ⟨rfl, rfl, rfl, fun _ => rfl, fun _ => rfl⟩

end View

namespace Counters

/-- One less to go. -/
def count (v : View) (n : Counters) : Counters := { n with rcx := v.ptr (v.ptr n.rcx - 1) }

theorem count_code (n : Counters) (c : Cpu) :
    (n.into c).setR64 Reg.rcx (n.rcx - 1) = (count {} n).into c := put_rcx {} _ n c

theorem into_into (n m : Counters) (c : Cpu) : n.into (m.into c) = n.into c := by
  have hgpr : (n.into (m.into c)).gpr = (n.into c).gpr := by
    funext i
    simp only [into]
    grind
  exact congrArg (fun g => { c with gpr := g }) hgpr

theorem eq_iff {n n' : Counters} :
    n = n' ↔ n.rcx = n'.rcx ∧ n.rsi = n'.rsi ∧ n.rdi = n'.rdi := by
  rcases n with ⟨_, _, _⟩
  rcases n' with ⟨_, _, _⟩
  simp

section Next

variable {v : View} {op : StringOp} {n n' : Counters} (h : v.Related op n n') (d : U64)

include h

/-- The view moves its source pointer to where the code moves its own, as the view sees it. -/
theorem next_rsi : (n'.next v op d).rsi =
    if op.usesSource then v.ptr (n.next {} op d).rsi else (n.next {} op d).rsi := by
  cases hsource : op.usesSource with
  | false =>
      simp only [next, hsource, Bool.false_eq_true, if_false]
      exact h.source hsource
  | true =>
      simp only [next, hsource, if_true]
      rw [h.rsi, View.ptr_ptr_add]
      rfl

theorem next_rdi : (n'.next v op d).rdi =
    if op.usesDest then v.ptr (n.next {} op d).rdi else (n.next {} op d).rdi := by
  cases hdest : op.usesDest with
  | false =>
      simp only [next, hdest, Bool.false_eq_true, if_false]
      exact h.dest hdest
  | true =>
      simp only [next, hdest, if_true]
      rw [h.rdi, View.ptr_ptr_add]
      rfl

theorem count_rcx : (count v (n'.next v op d)).rcx = v.ptr (count {} (n.next {} op d)).rcx := by
  simp only [count, next]
  rw [h.rcx, View.ptr_ptr_sub]
  rfl

theorem related_next : v.Related op (count {} (n.next {} op d)) (count v (n'.next v op d)) where
  rcx := by rw [count_rcx h, View.ptr_ptr]
  rsi := by
    have hrsi := next_rsi h d
    simp only [count]
    rw [hrsi]
    split
    · exact View.ptr_ptr v _
    · rfl
  rdi := by
    have hrdi := next_rdi h d
    simp only [count]
    rw [hrdi]
    split
    · exact View.ptr_ptr v _
    · rfl
  source := by
    intro hsource
    have hrsi := next_rsi h d
    rw [hsource] at hrsi
    exact hrsi
  dest := by
    intro hdest
    have hrdi := next_rdi h d
    rw [hdest] at hrdi
    exact hrdi

theorem next_eq_iff (hrcx : n.rcx = n'.rcx) (c : Cpu) :
    n.next {} op d = n'.next v op d ↔ v.PointersSettled op ((n.next {} op d).into c) := by
  have hrcx' : (n.next {} op d).rcx = (n'.next v op d).rcx := hrcx
  rw [eq_iff, next_rsi h, next_rdi h]
  constructor
  · rintro ⟨_, hrsi, hrdi⟩
    refine ⟨fun hsource => ?_, fun hdest => ?_⟩
    · rw [if_pos hsource] at hrsi
      exact hrsi.symm
    · rw [if_pos hdest] at hrdi
      exact hrdi.symm
  · rintro ⟨hrsi, hrdi⟩
    refine ⟨hrcx', ?_, ?_⟩
    · split
      · rename_i hsource
        exact (hrsi hsource).symm
      · rfl
    · split
      · rename_i hdest
        exact (hrdi hdest).symm
      · rfl

theorem count_eq_iff (c : Cpu) :
    count {} (n.next {} op d) = count v (n'.next v op d) ↔
      v.Settled op ((count {} (n.next {} op d)).into c) := by
  have hrsi : (count v (n'.next v op d)).rsi = _ := next_rsi h d
  have hrdi : (count v (n'.next v op d)).rdi = _ := next_rdi h d
  rw [eq_iff, count_rcx h, hrsi, hrdi]
  constructor
  · rintro ⟨hrcx, hrsi, hrdi⟩
    refine ⟨⟨fun hsource => ?_, fun hdest => ?_⟩, hrcx.symm⟩
    · rw [if_pos hsource] at hrsi
      exact hrsi.symm
    · rw [if_pos hdest] at hrdi
      exact hrdi.symm
  · rintro ⟨⟨hrsi, hrdi⟩, hrcx⟩
    refine ⟨hrcx.symm, ?_, ?_⟩
    · split
      · rename_i hsource
        exact (hrsi hsource).symm
      · rfl
    · split
      · rename_i hdest
        exact (hrdi hdest).symm
      · rfl

end Next

end Counters

namespace StringOp

theorem element_keeps (op : StringOp) (size : Nat) (at_ : Attached σ) (src dst : GuestAddr)
    (c : Cpu) (w : World σ) (zf : Bool) (d : Cpu)
    (h : ((op.element size src dst).run at_.env c w).value = (some zf, d)) :
    Counters.of d = Counters.of c := by
  have hread : IsAccess at_ fun a => readBytes a size := readMemBytes_isAccess at_ _ _ size
  have hwrite (v : U64) : IsAccess at_ fun a => writeBytes a size v :=
    writeMemBytes_isAccess at_ _ _ size v
  cases op with
  | movs =>
      rcases hread.fails_or_answers src c w with ⟨e, w', tr, hrun⟩ | ⟨v, w', tr, hrun⟩
      · simp [element, hrun] at h
      · rcases (hwrite v).fails_or_answers dst c w' with ⟨e, w'', tr', hrun'⟩ | ⟨_, w'', tr', hrun'⟩
        · simp [element, hrun, hrun'] at h
        · simp [element, hrun, hrun'] at h
          rw [h.2]
  | stos =>
      rcases (hwrite (c.r Reg.rax &&& maskFor size)).fails_or_answers dst c w with
        ⟨e, w', tr, hrun⟩ | ⟨_, w', tr, hrun⟩
      · simp [element, hrun] at h
      · simp [element, hrun] at h
        rw [h.2]
  | lods =>
      rcases hread.fails_or_answers src c w with ⟨e, w', tr, hrun⟩ | ⟨v, w', tr, hrun⟩
      · simp [element, hrun] at h
      · simp [element, hrun] at h
        have hload := Counters.load_into (Counters.of c) size v c
        rw [Counters.of_into] at hload
        rw [← h.2, hload]
        rfl
  | scas =>
      rcases hread.fails_or_answers dst c w with ⟨e, w', tr, hrun⟩ | ⟨v, w', tr, hrun⟩
      · simp [element, hrun] at h
      · simp [element, hrun, getsSynced] at h
        rw [← h.2, Counters.of_syncFlags]
        rfl
  | cmps =>
      rcases hread.fails_or_answers src c w with ⟨e, w', tr, hrun⟩ | ⟨v, w', tr, hrun⟩
      · simp [element, hrun] at h
      · rcases hread.fails_or_answers dst c w' with ⟨e, w'', tr', hrun'⟩ | ⟨v', w'', tr', hrun'⟩
        · simp [element, hrun, hrun'] at h
        · simp [element, hrun, hrun', getsSynced] at h
          rw [← h.2, Counters.of_syncFlags]
          rfl

theorem codeStep_run (op : StringOp) (size : Nat) (at_ : Attached σ) (c : Cpu) (w : World σ) :
    (op.codeStep size).run at_.env c w =
      andThen ((op.element size (c.r Reg.rsi) (c.r Reg.rdi)).run at_.env c w) fun zf d w' =>
        ⟨(some zf, ((Counters.of c).next {} op (dirStep d size)).into d), w', []⟩ := by
  have hrun := View.step_run {} op size at_ (Counters.of c) c w pure
  have hsrc : ({} : View).ptr (Counters.of c).rsi + ({} : View).base c = c.r Reg.rsi :=
    BitVec.add_zero _
  rw [bind_pure, ← codeStep_eq, Counters.of_into, hsrc] at hrun
  rw [hrun, run_bind]
  have hkeeps := element_keeps op size at_ (c.r Reg.rsi) (c.r Reg.rdi) c w
  change andThen ((op.element size (c.r Reg.rsi) (c.r Reg.rdi)).run at_.env c w) _ = _
  rcases hout : (op.element size (c.r Reg.rsi) (c.r Reg.rdi)).run at_.env c w with
    ⟨⟨_ | zf, d⟩, w', tr⟩
  · rfl
  · have hd : (Counters.of c).into d = d := by
      rw [← hkeeps zf d (by rw [hout]), Counters.of_into]
    have hupdates := View.run_updates {} op size at_ (Counters.of c) d w'
    rw [hd] at hupdates
    rw [andThen_some, andThen_some, run_bind, hupdates]
    rfl

end StringOp

namespace View

theorem step_pair {β : Type} (v : View) (op : StringOp) (size : Nat) (at_ : Attached σ)
    (n' : Counters) (c : Cpu) (w : World σ) (k k' : Bool → H β)
    (hrel : v.Related op (Counters.of c) n') :
    (op.codeStep size >>= k).run at_.env c w = (v.step op size >>= k').run at_.env (n'.into c) w ↔
      v.Aimed op size at_ c w ∧
        match (op.element size (c.r Reg.rsi) (c.r Reg.rdi)).run at_.env c w with
        | ⟨(none, _), _, _⟩ => Counters.of c = n'
        | ⟨(some zf, d), w', _⟩ =>
          (k zf).run at_.env (((Counters.of c).next {} op (dirStep d size)).into d) w' =
            (k' zf).run at_.env ((n'.next v op (dirStep d size)).into d) w' := by
  have hsrc : ({} : View).ptr (Counters.of c).rsi + ({} : View).base c = c.r Reg.rsi :=
    BitVec.add_zero _
  have hcode := step_run {} op size at_ (Counters.of c) c w k
  rw [← StringOp.codeStep_eq, Counters.of_into, hsrc] at hcode
  have hpair := op.element_pair size at_ (c.r Reg.rsi) (c.r Reg.rdi)
    (v.ptr n'.rsi + v.base c) (v.ptr n'.rdi) (Counters.of c) n' c w
    (fun zf => updates {} op size (({} : View).ptr (Counters.of c).rsi)
      (({} : View).ptr (Counters.of c).rdi) >>= fun _ => k zf)
    (fun zf => v.updates op size (v.ptr n'.rsi) (v.ptr n'.rdi) >>= fun _ => k' zf)
  rw [Counters.of_into] at hpair
  rw [step_run, hcode]
  refine hpair.trans ?_
  rw [hrel.rsi, hrel.rdi]
  refine and_congr Iff.rfl ?_
  rcases (op.element size (c.r Reg.rsi) (c.r Reg.rdi)).run at_.env c w with ⟨⟨_ | zf, d⟩, w', tr⟩
  · rfl
  · have hplain := run_updates {} op size at_ (Counters.of c) d w'
    have hview := v.run_updates op size at_ n' d w'
    rw [hrel.rsi, hrel.rdi] at hview
    simp only [run_bind, hplain, hview, andThen_some, List.nil_append]

/-- An element always asks for a provider first. -/
theorem step_trace {β : Type} (op : StringOp) (size : Nat) (at_ : Attached σ) (c : Cpu)
    (w : World σ) (k : Bool → H β) : ((op.codeStep size >>= k).run at_.env c w).trace ≠ [] := by
  rw [run_bind, StringOp.codeStep_run]
  refine andThen_trace_ne (andThen_trace_ne ?_)
  cases op with
  | movs =>
      rw [StringOp.element, run_bind]
      exact andThen_trace_ne (readBytes_trace at_ c w _ size)
  | stos =>
      rw [StringOp.element, run_gets_bind, run_bind]
      exact andThen_trace_ne (writeBytes_trace at_ c w _ size _)
  | lods =>
      rw [StringOp.element, run_bind]
      exact andThen_trace_ne (readBytes_trace at_ c w _ size)
  | scas =>
      rw [StringOp.element, run_bind]
      exact andThen_trace_ne (readBytes_trace at_ c w _ size)
  | cmps =>
      rw [StringOp.element, run_bind]
      exact andThen_trace_ne (readBytes_trace at_ c w _ size)

theorem loop_pair (v : View) (op : StringOp) (insn : Insn) (at_ : Attached σ) (fuel : Nat)
    (fresh : Bool) (n' : Counters) (c : Cpu) (w : World σ)
    (hrel : v.Related op (Counters.of c) n')
    (hfresh : Counters.of c = n' ↔ (fresh ∨ v.Settled op c)) :
    (repLoop insn (op.codeStep insn.opSize) fuel).run at_.env c w =
        (v.loop op insn fuel).run at_.env (n'.into c) w ↔
      v.Follows op insn at_ fuel fresh c w := by
  induction fuel generalizing fresh n' c w with
  | zero =>
      have heq : c = n'.into c ↔ (fresh ∨ v.Settled op c) := by
        rw [← hfresh, ← Counters.into_inj (c := c), Counters.of_into]
      rw [Follows, ← heq]
      simp [repLoop, loop]
  | succ fuel ih =>
      have heq : c = n'.into c ↔ (fresh ∨ v.Settled op c) := by
        rw [← hfresh, ← Counters.into_inj (c := c), Counters.of_into]
      have hcounter : v.ptr ((n'.into c).r Reg.rcx) = v.ptr (c.r Reg.rcx) := hrel.rcx
      have hhalted : (n'.into c).halted = c.halted := rfl
      rw [Follows, repLoop, loop, run_gets_bind, run_gets_bind, hcounter, hhalted]
      by_cases hmore : c.r Reg.rcx ≠ 0 ∧ c.halted = false
      · have hcode : (c.r Reg.rcx != 0 && !c.halted) = true := by
          rw [hmore.2, bne_iff_ne.mpr hmore.1]
          rfl
        rw [if_pos hmore, hcode, if_pos rfl]
        by_cases hcount : v.ptr (c.r Reg.rcx) = 0
        · rw [hcount]
          refine iff_of_false (fun h => ?_) fun h => h.1 rfl
          exact step_trace op insn.opSize at_ c w _ (congrArg Prog.Outcome.trace h)
        · have hview : (v.ptr (c.r Reg.rcx) != 0 && !c.halted) = true := by
            rw [hmore.2, bne_iff_ne.mpr hcount]
            rfl
          rw [hview, if_pos rfl, step_pair v op insn.opSize at_ n' c w _ _ hrel,
            StringOp.codeStep_run, and_iff_right hcount]
          refine and_congr Iff.rfl ?_
          rcases (op.element insn.opSize (c.r Reg.rsi) (c.r Reg.rdi)).run at_.env c w with
            ⟨⟨_ | zf, d⟩, w', tr⟩
          · exact hfresh
          · have hsettled := Counters.count_eq_iff hrel (dirStep d insn.opSize) d
            have hrelated := Counters.related_next hrel (dirStep d insn.opSize)
            have hcode := Counters.count_code ((Counters.of c).next {} op (dirStep d insn.opSize)) d
            have hview := Counters.put_rcx v (v.ptr (n'.next v op (dirStep d insn.opSize)).rcx - 1)
              (n'.next v op (dirStep d insn.opSize)) d
            simp only [run_modify_bind, andThen_some, Counters.rcx_into]
            rw [hview]
            rw [hcode]
            generalize hm : Counters.count {} ((Counters.of c).next {} op (dirStep d insn.opSize)) = m
              at hsettled hrelated ⊢
            change _ = (if stops insn zf = true then pure () else v.loop op insn fuel).run at_.env
              ((Counters.count v (n'.next v op (dirStep d insn.opSize))).into d) w' ↔ _
            generalize Counters.count v (n'.next v op (dirStep d insn.opSize)) = m'
              at hsettled hrelated ⊢
            rw [← Counters.into_into m' m d]
            have hdone : m.into d = m'.into (m.into d) ↔ v.Settled op (m.into d) := by
              rw [Counters.into_into, Counters.into_inj, hsettled]
            by_cases hstop : stops insn zf = true
            · have hcodeStop : (insn.flags.rep && !zf || insn.flags.repne && zf) = true := hstop
              rw [if_pos hstop, if_pos hstop, if_pos hcodeStop, ← hdone]
              simp
            · have hcodeStop : ¬(insn.flags.rep && !zf || insn.flags.repne && zf) = true := hstop
              rw [if_neg hstop, if_neg hstop, if_neg hcodeStop]
              have hof : Counters.of (m.into d) = m := rfl
              refine ih false m' (m.into d) w' hrelated ?_
              rw [hof, hsettled]
              simp
      · have hcode : (c.r Reg.rcx != 0 && !c.halted) = false := by
          cases hhalt : c.halted with
          | false => simpa [hhalt] using hmore
          | true => simp
        have hview : (v.ptr (c.r Reg.rcx) != 0 && !c.halted) = false := by
          cases hhalt : c.halted with
          | false =>
              have hrcx : c.r Reg.rcx = 0 := by simpa [hhalt] using hmore
              rw [hrcx, ptr_zero]
              rfl
          | true => simp
        rw [if_neg hmore, hcode, hview, ← heq]
        simp

/-- The branch of a LOOP whose counter came down to `count`. -/
def loopBranch (insn : Insn) (count : U64) : H Unit := do
  let take ←
    if count = 0 then pure false
    else if insn.cond = .none then pure true
    else getsSynced fun c => c.condHolds insn.cond
  if take then Proc.modify fun c => c.takeBranch (nextRip insn + insn.dst.imm)

/-- LOOP, LOOPE and LOOPNE with the view's counter. -/
def opLoop (v : View) (insn : Insn) : H Unit := do
  let count ← gets fun c => v.ptr (v.ptr (c.r Reg.rcx) - 1)
  Proc.modify (v.put Reg.rcx count)
  loopBranch insn count

/-- JRCXZ, or JECXZ, by the view's counter. -/
def opJcxz (v : View) (insn : Insn) : H Unit := do
  let count ← gets fun c => v.ptr (c.r Reg.rcx)
  if count = 0 then Proc.modify fun c => c.takeBranch (nextRip insn + insn.dst.imm)

end View

/-- The instructions with a counter or a pointer that no operand names. -/
inductive ImplicitOp where
  | string (op : StringOp)
  | loop
  | jcxz
  deriving DecidableEq

namespace ImplicitOp

def handler : ImplicitOp → Handler
  | .string .movs => .opMovs
  | .string .stos => .opStos
  | .string .lods => .opLods
  | .string .scas => .opScas
  | .string .cmps => .opCmps
  | .loop => .opLoop
  | .jcxz => .opJcxz

/-- The instruction as its address-size prefix and segment override govern it. -/
def governed (op : ImplicitOp) (v : View) (insn : Insn) : H Unit :=
  match op with
  | .string op => v.string op insn
  | .loop => v.opLoop insn
  | .jcxz => v.opJcxz insn

/-- The prefixes make no difference from this state on. -/
def Harmless (op : ImplicitOp) (v : View) (insn : Insn) (at_ : Attached σ) (c : Cpu)
    (w : World σ) : Prop :=
  match op with
  | .string op =>
    if hasRep insn then v.Follows op insn at_ (c.r Reg.rcx).toNat true c w
    else
      v.Aimed op insn.opSize at_ c w ∧
        ∀ zf d w' tr, (op.codeStep insn.opSize).run at_.env c w = ⟨(some zf, d), w', tr⟩ →
          v.PointersSettled op d
  | .loop => v.ptr (c.r Reg.rcx - 1) = c.r Reg.rcx - 1
  | .jcxz => v.ptr (c.r Reg.rcx) = 0 → c.r Reg.rcx = 0

theorem string_iff (op : StringOp) (v : View) (insn : Insn) (at_ : Attached σ) (c : Cpu)
    (w : World σ) :
    (runString insn (op.codeStep insn.opSize)).run at_.env c w =
        (v.string op insn).run at_.env c w ↔
      (ImplicitOp.string op).Harmless v insn at_ c w := by
  have hself : (Counters.of c).into c = c := Counters.of_into c
  rw [runString, View.string, Harmless]
  by_cases hrep : hasRep insn = true
  · rw [if_pos hrep, if_pos hrep, if_pos hrep, run_gets_bind, run_gets_bind]
    have hloop := v.loop_pair op insn at_ (c.r Reg.rcx).toNat true (Counters.of c) c w
      (View.Related.refl v op _) (by simp)
    rw [hself] at hloop
    exact hloop
  · rw [if_neg hrep, if_neg hrep, if_neg hrep]
    have hstep := v.step_pair op insn.opSize at_ (Counters.of c) c w (fun _ => pure ())
      (fun _ => pure ()) (View.Related.refl v op _)
    rw [hself] at hstep
    refine hstep.trans (and_congr Iff.rfl ?_)
    rw [StringOp.codeStep_run]
    rcases (op.element insn.opSize (c.r Reg.rsi) (c.r Reg.rdi)).run at_.env c w with
      ⟨⟨_ | zf, d⟩, w', tr⟩
    · simp
    · have hnext := Counters.next_eq_iff (View.Related.refl v op (Counters.of c))
        (dirStep d insn.opSize) rfl d
      simp only [run_pure, andThen_some]
      constructor
      · intro h zf' d' w'' tr' hrun
        cases hrun
        have hinto := congrArg (fun o => o.value.2) h
        exact hnext.mp (Counters.into_inj.mp hinto)
      · intro h
        rw [← hnext.mpr (h _ _ _ _ rfl)]

theorem opLoop_eq (insn : Insn) :
    Handlers.opLoop insn = (do
      let count ← gets fun c => c.r Reg.rcx - 1
      Proc.modify fun c => c.setR64 Reg.rcx count
      View.loopBranch insn count) := rfl

/-- The branch leaves the counter as it is. -/
theorem loopBranch_rcx (insn : Insn) (count : U64) (at_ : Attached σ) (c : Cpu) (w : World σ) :
    ((View.loopBranch insn count).run at_.env c w).value.2.r Reg.rcx = c.r Reg.rcx := by
  have hsync : c.syncFlags.r Reg.rcx = c.r Reg.rcx :=
    congrArg Counters.rcx (Counters.of_syncFlags c)
  rw [View.loopBranch]
  split
  · rfl
  · split
    · rfl
    · simp only [run_bind, getsSynced, run_modify, run_gets, andThen_some]
      split
      · exact hsync
      · exact hsync

theorem loop_iff (v : View) (insn : Insn) (at_ : Attached σ) (c : Cpu) (w : World σ) :
    (Handlers.opLoop insn).run at_.env c w = (v.opLoop insn).run at_.env c w ↔
      ImplicitOp.loop.Harmless v insn at_ c w := by
  rw [opLoop_eq, View.opLoop, run_gets_bind, run_gets_bind, run_modify_bind, run_modify_bind,
    View.ptr_ptr_sub, Harmless, View.put_eq, View.ptr_ptr]
  constructor
  · intro h
    have hrcx := congrArg (fun o => o.value.2.r Reg.rcx) h
    simp only [loopBranch_rcx] at hrcx
    exact hrcx.symm
  · intro h
    rw [h]

theorem jcxz_iff (v : View) (insn : Insn) (at_ : Attached σ) (c : Cpu) (w : World σ)
    (hbranch : c.branchTaken = false) :
    (Handlers.opJcxz insn).run at_.env c w = (v.opJcxz insn).run at_.env c w ↔
      ImplicitOp.jcxz.Harmless v insn at_ c w := by
  rw [Handlers.opJcxz, View.opJcxz, run_gets_bind, run_gets_bind, Harmless]
  by_cases hview : v.ptr (c.r Reg.rcx) = 0
  · rw [if_pos hview]
    by_cases hcode : c.r Reg.rcx = 0
    · rw [if_pos hcode]
      exact iff_of_true rfl fun _ => hcode
    · rw [if_neg hcode]
      refine iff_of_false (fun h => ?_) fun h => hcode (h hview)
      have htaken : c.branchTaken = true := congrArg (fun o => o.value.2.branchTaken) h
      rw [hbranch] at htaken
      cases htaken
  · have hcode : c.r Reg.rcx ≠ 0 := fun hrcx => hview (by rw [hrcx, View.ptr_zero])
    rw [if_neg hview, if_neg hcode]
    exact iff_of_true rfl fun h => absurd h hview

/-- What the handler of the operation runs. -/
def code (op : ImplicitOp) (insn : Insn) : H Unit :=
  match op with
  | .string op => runString insn (op.codeStep insn.opSize)
  | .loop => Handlers.opLoop insn
  | .jcxz => Handlers.opJcxz insn

theorem run_eq (op : ImplicitOp) (fp : HostFp) (insn : Insn) (hop : insn.handler = op.handler) :
    insn.run fp = op.code insn := by
  rw [Insn.run, hop]
  cases op with
  | string op => cases op <;> rfl
  | loop => rfl
  | jcxz => rfl

end ImplicitOp

/-- The bytes before the opcode. -/
def prefixBytes (fetch : Fetch) (p : Nat) : List U8 :=
  (List.range p).map fun i =>
    match fetch (BitVec.ofNat 8 i) with
    | .ok b => b
    | .error _ => 0

/-- Whatever is decoded behind `p` prefix bytes, an instruction with implicit operands runs as
these bytes govern it exactly from the states in which they make no difference. -/
theorem prefixes_govern_iff (fp : HostFp) (fetch : Fetch) (rip : GuestAddr) (fuel : Nat)
    (insn : Insn) (hdecoded : decodeWithSource fetch rip fuel = some (.ok insn)) (op : ImplicitOp)
    (hop : insn.handler = op.handler) :
    ∃ p, PrefixRun fetch p ∧ ∀ (at_ : Attached σ) (c : Cpu) (w : World σ),
      ((insn.run fp).runOn at_ c.clearBranch w =
          (op.governed (View.ofBytes (prefixBytes fetch p)) insn).runOn at_ c.clearBranch w ↔
        op.Harmless (View.ofBytes (prefixBytes fetch p)) insn at_ c.clearBranch w) := by
  obtain ⟨p, bs, hanswer⟩ := answers_of_decodes hdecoded
  refine ⟨p, hanswer.prefixes, fun at_ c w => ?_⟩
  rw [op.run_eq fp insn hop]
  generalize View.ofBytes (prefixBytes fetch p) = v
  cases op with
  | string op => exact ImplicitOp.string_iff op v insn at_ c.clearBranch w
  | loop => exact ImplicitOp.loop_iff v insn at_ c.clearBranch w
  | jcxz => exact ImplicitOp.jcxz_iff v insn at_ c.clearBranch w rfl

/-- The bytes of `JECXZ +5`. -/
def jecxzBytes : Fetch := memFetch (holdingAt 0 [0x67, 0xE3, 0x05] .unmappedRead) 0

theorem jecxzBytes_prefixes : PrefixRun jecxzBytes 1 := by
  refine ⟨by decide, fun i hi => ?_, ?_⟩
  · obtain rfl : i = 0 := by omega
    exact ⟨0x67, rfl, by decide⟩
  · rintro ⟨b, hb, hlegacy⟩
    obtain rfl : b = 0xE3 := (Except.ok.inj hb).symm
    exact absurd hlegacy (by decide)

/-- What the decoder makes of them. -/
def jecxzInsn : Insn :=
  { handler := .opJcxz, kind := .jcxz, opSize := 1, len := 3, cond := .none,
    flags := { controlFlow := true, addrsizePfx := true },
    dst := { kind := .rel, imm := 5 } }

/-- With `RCX = 2^32`, `ECX` is zero and JECXZ is to branch; the handler sees all of RCX. -/
theorem jecxz_tests_rcx :
    ¬ ∀ (fp : HostFp) (fetch : Fetch) (rip : GuestAddr) (fuel : Nat) (insn : Insn),
      decodeWithSource fetch rip fuel = some (.ok insn) →
      ∀ op : ImplicitOp, insn.handler = op.handler →
      ∃ p, PrefixRun fetch p ∧ ∀ (at_ : Attached Unit) (c : Cpu) (w : World Unit),
        (insn.run fp).runOn at_ c.clearBranch w =
          (op.governed (View.ofBytes (prefixBytes fetch p)) insn).runOn at_ c.clearBranch w := by
  intro h
  obtain ⟨p, hp, hruns⟩ := h default jecxzBytes 0 4 jecxzInsn rfl .jcxz rfl
  obtain rfl := hp.unique jecxzBytes_prefixes
  have hrun := hruns ⟨none, none, [], []⟩ { gpr := fun _ => 0x100000000 } { mem := () }
  have htaken := congrArg (fun o => o.value.2.branchTaken) hrun
  exact absurd htaken (by decide)

theorem prefixes_govern_iff_jecxz :
    ∃ p, PrefixRun jecxzBytes p ∧ ∀ (at_ : Attached Unit) (c : Cpu) (w : World Unit),
      ((jecxzInsn.run default).runOn at_ c.clearBranch w =
          (ImplicitOp.jcxz.governed (View.ofBytes (prefixBytes jecxzBytes p))
            jecxzInsn).runOn at_ c.clearBranch w ↔
        ImplicitOp.jcxz.Harmless (View.ofBytes (prefixBytes jecxzBytes p)) jecxzInsn at_
          c.clearBranch w) :=
  prefixes_govern_iff default jecxzBytes 0 4 jecxzInsn rfl .jcxz rfl

end PicoCpu
