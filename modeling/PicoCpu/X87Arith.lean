import PicoCpu.DoubleShifts
import PicoCpu.OperandRuns

/-!
The x87 arithmetic on stack registers: which register each string of D8, DC and DE writes, in which
order it takes the operands, and from which states the decoder and the handlers agree.
-/

namespace PicoCpu

open H Proc Handlers Decode

/-! ### The strings -/

inductive X87Op where
  | add | mul | sub | div
  deriving DecidableEq, Repr

/-- Where the result goes: `ST(0)`, `ST(i)`, or `ST(i)` before the stack is popped. -/
inductive X87Dest where
  | top | element | popped
  deriving DecidableEq, Repr

/-- What a string says. The reversed form takes the destination as its second operand. -/
structure X87Arith where
  dest : X87Dest
  op : X87Op
  reversed : Bool
  index : Nat
  deriving DecidableEq, Repr

/-- The rows of an opcode byte; behind DC and DE the two subtractions and the two divisions stand the
other way round. -/
def x87Row (reg : Nat) (swapped : Bool) : Option (X87Op × Bool) :=
  match reg with
  | 0 => some (.add, false)
  | 1 => some (.mul, false)
  | 4 => some (.sub, swapped)
  | 5 => some (.sub, !swapped)
  | 6 => some (.div, swapped)
  | 7 => some (.div, !swapped)
  | _ => none

def x87Arith (opc : U8) (m : ModRm) : Option X87Arith :=
  match opc.toNat with
  | 0xD8 => (x87Row m.reg false).map fun row => ⟨.top, row.1, row.2, m.rm⟩
  | 0xDC => (x87Row m.reg true).map fun row => ⟨.element, row.1, row.2, m.rm⟩
  | 0xDE => (x87Row m.reg true).map fun row => ⟨.popped, row.1, row.2, m.rm⟩
  | _ => none

/-- The two bytes of a register form follow the prefixes. -/
structure X87ArithAt (fetch : Fetch) (fuel : Nat) (f : X87Arith) (px : Prefixes) (at_ opc mb : U8) :
    Prop where
  scan : scanPrefixes fetch fuel 0 {} = some (.ok (px, at_))
  legacy : px.isVex = false
  bytes : Parse.Holds fetch at_ [opc, mb]
  register : (splitModrm mb).mod = 3
  row : x87Arith opc (splitModrm mb) = some f

/-! ### Decoding -/

/-- Addition and multiplication have no reversed form. -/
def X87Op.ordered : X87Op → Bool
  | .add | .mul => false
  | .sub | .div => true

/-- The handlers with one operand in `ST(0)`, and those that pop. -/
def X87Arith.handler (f : X87Arith) : Handler :=
  match f.dest, f.op with
  | .popped, .add => .opFaddp
  | .popped, .mul => .opFmulp
  | .popped, .sub => .opFsubp
  | .popped, .div => .opFdivp
  | _, .add => .opFadd
  | _, .mul => .opFmul
  | _, .sub => .opFsub
  | _, .div => .opFdiv

/-- What the decoder makes of a string it accepts; it accepts one order of the operands. -/
structure DecodedArith (f : X87Arith) (i : Insn) : Prop where
  handler : i.handler = f.handler
  index : i.dst.index = f.index
  small : f.index < 8
  source : i.src.isMem = false
  order : f.reversed = (f.op.ordered && decide (f.dest ≠ .top))

section Decoding

variable {fetch : Fetch} {p opc mb : U8} {px : Prefixes} {out i : Insn} {f : X87Arith} {rest : U8}

/-- The decoder's rows are those of the strings with the operands in one order. -/
theorem x87RegTable_arith {m : ModRm} {kind : OpKind} {handler : Handler}
    (hrow : x87Arith opc m = some f) (htable : x87RegTable opc m mb = some (kind, handler)) :
    handler = f.handler ∧ f.index = m.rm ∧ f.reversed = (f.op.ordered && decide (f.dest ≠ .top)) := by
  unfold x87Arith at hrow
  unfold x87RegTable at htable
  split at hrow
  case h_4 => cases hrow
  all_goals
    rename_i hopc
    rw [hopc] at htable
    unfold x87Row at hrow
    split at hrow <;> rename_i hreg <;> simp only [hreg] at htable <;> cases hrow <;>
      cases htable <;> exact ⟨rfl, rfl, rfl⟩

theorem decodeX87_decoded (hmb : fetch p = .ok mb) (hmod : (splitModrm mb).mod = 3)
    (hrow : x87Arith opc (splitModrm mb) = some f) (hdst : out.src.isMem = false)
    (hrun : (decodeX87 px opc out).run fetch p = .ok (i, rest)) : DecodedArith f i := by
  have hnot : opc ≠ 0xDF := by
    rintro rfl
    cases hrow
  rw [decodeX87, readByte, Parse.symbol_bind, Parse.run, hmb] at hrun
  dsimp only at hrun
  rw [if_pos hmod] at hrun
  split at hrun
  next kind handler htable =>
    obtain ⟨hhandler, hindex, horder⟩ := x87RegTable_arith hrow htable
    cases hrun
    refine ⟨hhandler, hindex.symm, ?_, hdst, horder⟩
    rw [hindex]
    exact splitModrm_rm_lt mb
  next =>
    rw [if_neg fun h => hnot h.1] at hrun
    cases hrun

/-- The opcode bytes of the unit. -/
theorem decodePrimary_x87 (hopc : fetch p = .ok opc) (hrow : (x87Arith opc (splitModrm mb)).isSome) :
    (decodePrimary px out).run fetch p = (decodeX87 px opc out).run fetch (p + 1) := by
  rw [decodePrimary, readByte, Parse.symbol_bind, Parse.run, hopc]
  unfold x87Arith at hrow
  split at hrow
  next hn => obtain rfl := eq_ofNat_of_toNat hn; rfl
  next hn => obtain rfl := eq_ofNat_of_toNat hn; rfl
  next hn => obtain rfl := eq_ofNat_of_toNat hn; rfl
  next => cases hrow

theorem X87ArithAt.decoded {rip : GuestAddr} {fuel : Nat} (h : X87ArithAt fetch fuel f px p opc mb)
    (hdecode : decodeWithSource fetch rip fuel = some (.ok i)) : DecodedArith f i := by
  obtain ⟨hopc, hmb, _⟩ := h.bytes
  have hrow : (x87Arith opc (splitModrm mb)).isSome := by
    rw [h.row]
    rfl
  rw [decodeWithSource, h.scan] at hdecode
  dsimp only at hdecode
  rw [decodeAfterPrefixes, h.legacy, if_neg Bool.false_ne_true,
    decodePrimary_x87 hopc hrow] at hdecode
  split at hdecode
  · cases hdecode
  · rename_i out rest hrun
    have harith := decodeX87_decoded hmb h.register h.row rfl hrun
    cases hdecode
    exact ⟨harith.handler, harith.index, harith.small, harith.source, harith.order⟩

end Decoding

/-! ### The law -/

/-- The register that holds an element of the stack. -/
def Cpu.physical (c : Cpu) (i : Nat) : Nat := (c.fpuTop + i) % 8

namespace X87Arith

variable (f : X87Arith)

/-- The host's operation. -/
def apply (fp : HostFp) : U64 → U64 → U64 :=
  match f.op with
  | .add => (fp.f64 .current).add
  | .mul => (fp.f64 .current).mul
  | .sub => (fp.f64 .current).sub
  | .div => (fp.f64 .current).div

/-- The elements that the result is written to and that is the other operand. -/
def written : Nat := if f.dest = .top then 0 else f.index
def other : Nat := if f.dest = .top then f.index else 0

/-- The result, in the order of the form. -/
def result (fp : HostFp) (c : Cpu) : U64 :=
  if f.reversed then f.apply fp (c.st f.other) (c.st f.written)
  else f.apply fp (c.st f.written) (c.st f.other)

end X87Arith

/-- The result is in its register, the stack is popped once or not at all, and nothing else has
changed. -/
structure ArithLaw (fp : HostFp) (f : X87Arith) (c c' : Cpu) : Prop where
  written : c'.fpuSt (c.physical f.written) = f.result fp c
  others : ∀ r, r ≠ c.physical f.written → c'.fpuSt r = c.fpuSt r
  top : c'.fpuTop = if f.dest = .popped then (c.fpuTop + 1) % 8 else c.fpuTop
  rest : c' = { c with fpuSt := c'.fpuSt, fpuTop := c'.fpuTop }

/-- The forms behind D8 are always right, those behind DC where `ST(i)` is `ST(0)`, and those behind DE
where the order of the operands does not matter. -/
def X87Arith.Right (f : X87Arith) (c : Cpu) : Prop :=
  match f.dest with
  | .top => True
  | .element => f.index = 0
  | .popped => f.op.ordered = false ∨ c.st f.index = c.st 0

instance (f : X87Arith) (c : Cpu) : Decidable (f.Right c) := by
  unfold X87Arith.Right
  split <;> infer_instance

/-! ### The agreement -/

/-- What the handlers leave: those that pop write `ST(i)`, the others `ST(0)`. -/
def X87Arith.after (fp : HostFp) (f : X87Arith) (c : Cpu) : Cpu :=
  if f.dest = .popped then
    (c.setSt f.index (f.apply fp (c.st f.index) (c.st 0))).fpuPop
  else c.setSt 0 (f.apply fp (c.st 0) (c.st f.index))

section Agreement

variable {σ : Type} {at_ : Attached σ} {c c' : Cpu} {w : World σ} {f : X87Arith} {i : Insn}

theorem fpOpWith_ends (fp : HostFp) (g : U64 → U64 → U64) (hsrc : i.src.isMem = false) :
    (fpOpWith fp g i).EndsIn at_ c w (some ()) (c.setSt 0 (g (c.st 0) (c.st i.dst.index))) w := by
  rw [fpOpWith, fpOperand, hsrc, if_neg Bool.false_ne_true]
  exact (endsIn_gets _).bind (endsIn_modify _)

theorem DecodedArith.ends (h : DecodedArith f i) (fp : HostFp) :
    (i.run fp).EndsIn at_ c w (some ()) (f.after fp c) w := by
  have hwith (g : U64 → U64 → U64) : (fpOpWith fp g i).EndsIn at_ c w (some ())
      (c.setSt 0 (g (c.st 0) (c.st i.dst.index))) w := fpOpWith_ends fp g h.source
  have hpop (g : U64 → U64 → U64) : (fpOpPop g i).EndsIn at_ c w (some ())
      ((c.setSt i.dst.index (g (c.st i.dst.index) (c.st 0))).fpuPop) w := endsIn_modify _
  rw [h.index] at hwith hpop
  rw [Insn.run, h.handler, X87Arith.handler, X87Arith.after, X87Arith.apply]
  rcases f with ⟨dest, op, reversed, index⟩
  cases dest with
  | top | element => cases op <;> exact hwith _
  | popped => cases op <;> exact hpop _

theorem fpuSt_setSt (c : Cpu) (n : Nat) (v : U64) : (c.setSt n v).fpuSt (c.physical n) = v :=
  Function.update_self _ _ _

theorem arithLaw_setSt {fp : HostFp} (hdest : f.dest ≠ .popped) {v : U64} (hv : v = f.result fp c) :
    ArithLaw fp f c (c.setSt f.written v) := by
  refine ⟨?_, fun r hr => Function.update_of_ne hr _ _, ?_, rfl⟩
  · rw [← hv]
    exact fpuSt_setSt c f.written v
  · rw [if_neg hdest]
    rfl

theorem arithLaw_pop {fp : HostFp} (hdest : f.dest = .popped) {v : U64} (hv : v = f.result fp c) :
    ArithLaw fp f c (c.setSt f.written v).fpuPop := by
  refine ⟨?_, fun r hr => Function.update_of_ne hr _ _, ?_, rfl⟩
  · rw [← hv]
    exact fpuSt_setSt c f.written v
  · rw [if_pos hdest]
    rfl

/-- A host with one operation for all four. -/
def uniformHost (g : U64 → U64 → U64) : HostFp :=
  { (default : HostFp) with
    f64 := fun _ => { (default : FpOps 64) with add := g, sub := g, mul := g, div := g } }

theorem apply_uniformHost (f : X87Arith) (g : U64 → U64 → U64) : f.apply (uniformHost g) = g := by
  rcases f with ⟨dest, op, reversed, index⟩
  cases op <;> rfl

theorem physical_ne {n : Nat} (hpos : n ≠ 0) (hlt : n < 8) : c.physical 0 ≠ c.physical n := by
  rw [Cpu.physical, Cpu.physical]
  omega

theorem law_iff_top (h : DecodedArith f i) (hdest : f.dest = .top) :
    (∀ fp, ArithLaw fp f c (f.after fp c)) ↔ f.Right c := by
  have horder := h.order
  rw [hdest, decide_eq_false (by decide), Bool.and_false] at horder
  have hwritten : f.written = 0 := if_pos hdest
  have hother : f.other = f.index := if_pos hdest
  have hright : f.Right c ↔ True := by rw [X87Arith.Right, hdest]
  refine ⟨fun _ => hright.mpr trivial, fun _ fp => ?_⟩
  have hresult : f.apply fp (c.st 0) (c.st f.index) = f.result fp c := by
    rw [X87Arith.result, horder, if_neg Bool.false_ne_true, hwritten, hother]
  have hlaw := arithLaw_setSt (by rw [hdest]; decide) hresult
  rw [hwritten] at hlaw
  rw [X87Arith.after, if_neg (by rw [hdest]; decide)]
  exact hlaw

theorem law_iff_element (h : DecodedArith f i) (hdest : f.dest = .element) :
    (∀ fp, ArithLaw fp f c (f.after fp c)) ↔ f.Right c := by
  have hwritten : f.written = f.index := if_neg (by rw [hdest]; decide)
  have hother : f.other = 0 := if_neg (by rw [hdest]; decide)
  have hright : f.Right c ↔ f.index = 0 := by rw [X87Arith.Right, hdest]
  have hafter (fp : HostFp) : f.after fp c = c.setSt 0 (f.apply fp (c.st 0) (c.st f.index)) := by
    rw [X87Arith.after, if_neg (by rw [hdest]; decide)]
  rw [hright]
  constructor
  · intro hlaw
    by_contra hindex
    -- A result that differs from what `ST(0)` held shows in `ST(0)`.
    have hkept := (hlaw (uniformHost fun x _ => x + 1)).others (c.physical 0)
      (by rw [hwritten]; exact physical_ne hindex h.small)
    rw [hafter, apply_uniformHost, fpuSt_setSt] at hkept
    have hself : (c.st 0).toNat = (c.st 0 + 1).toNat := congrArg BitVec.toNat hkept.symm
    have hone : (1 : U64).toNat = 1 := rfl
    rw [BitVec.toNat_add, hone] at hself
    omega
  · intro hindex fp
    have hresult : f.apply fp (c.st 0) (c.st f.index) = f.result fp c := by
      rw [X87Arith.result, hwritten, hother, hindex, ite_self]
    have hlaw := arithLaw_setSt (by rw [hdest]; decide) hresult
    rw [hwritten, hindex] at hlaw
    rw [hafter, hindex]
    exact hlaw

theorem law_iff_popped (h : DecodedArith f i) (hdest : f.dest = .popped) :
    (∀ fp, ArithLaw fp f c (f.after fp c)) ↔ f.Right c := by
  have horder := h.order
  rw [hdest, decide_eq_true (by decide), Bool.and_true] at horder
  have hwritten : f.written = f.index := if_neg (by rw [hdest]; decide)
  have hother : f.other = 0 := if_neg (by rw [hdest]; decide)
  have hright : f.Right c ↔ f.op.ordered = false ∨ c.st f.index = c.st 0 := by
    rw [X87Arith.Right, hdest]
  have hafter (fp : HostFp) : f.after fp c =
      (c.setSt f.index (f.apply fp (c.st f.index) (c.st 0))).fpuPop := if_pos hdest
  rw [hright]
  constructor
  · intro hlaw
    cases hordered : f.op.ordered with
    | false => exact .inl rfl
    | true =>
        rw [hordered] at horder
        have hresult := (hlaw (uniformHost fun x _ => x)).written
        rw [hafter, apply_uniformHost, X87Arith.result, horder, if_pos rfl, apply_uniformHost,
          hwritten, hother] at hresult
        exact .inr ((fpuSt_setSt c f.index (c.st f.index)).symm.trans hresult)
  · intro hcase fp
    have hresult : f.apply fp (c.st f.index) (c.st 0) = f.result fp c := by
      rw [X87Arith.result, hwritten, hother]
      rcases hcase with hordered | hsame
      · rw [horder, hordered, if_neg Bool.false_ne_true]
      · rw [hsame, ite_self]
    have hlaw := arithLaw_pop hdest hresult
    rw [hwritten] at hlaw
    rw [hafter]
    exact hlaw

/-- With the operation left uninterpreted the handlers do what the string says exactly where it is
right. -/
theorem DecodedArith.law_iff (h : DecodedArith f i) :
    (∀ fp, ArithLaw fp f c (f.after fp c)) ↔ f.Right c := by
  cases hdest : f.dest with
  | top => exact law_iff_top h hdest
  | element => exact law_iff_element h hdest
  | popped => exact law_iff_popped h hdest

end Agreement

/-- An accepted addition, multiplication, subtraction or division of stack registers, whatever the
operations of the host are, does what its bytes say exactly from the states that are right for its
form. -/
theorem x87_arith_iff {fetch : Fetch} {rip : GuestAddr} {fuel : Nat} {f : X87Arith} {px : Prefixes}
    {p opc mb : U8} {i : Insn} (hbytes : X87ArithAt fetch fuel f px p opc mb)
    (hdecode : decodeWithSource fetch rip fuel = some (.ok i)) {σ : Type} (at_ : Attached σ) (c : Cpu)
    (w : World σ) :
    (∀ fp, ∃ c', (i.run fp).EndsIn at_ c w (some ()) c' w ∧ ArithLaw fp f c c') ↔ f.Right c := by
  have h := hbytes.decoded hdecode
  rw [← h.law_iff]
  constructor
  · intro hlaw fp
    obtain ⟨c', hends, hlaw⟩ := hlaw fp
    obtain ⟨_, rfl, _⟩ := hends.unique (h.ends fp)
    exact hlaw
  · exact fun hlaw fp => ⟨_, h.ends fp, hlaw fp⟩

/-! ### Two encodings -/

/-- `fadd st(0), st(1)`. -/
def faddInsn : Insn :=
  { handler := .opFadd, kind := .fadd, opSize := 4, len := 2, cond := .none, dst := { index := 1 } }

theorem faddInsn_at :
    X87ArithAt (codeAt [0xD8, 0xC1]) 2 ⟨.top, .add, false, 1⟩ {} 0 0xD8 0xC1 :=
  ⟨rfl, rfl, ⟨rfl, rfl, trivial⟩, rfl, rfl⟩

theorem faddInsn_decoded :
    decodeWithSource (codeAt [0xD8, 0xC1]) 0 2 = some (.ok faddInsn) := rfl

theorem x87_arith_iff_fadd :
    (∀ fp, ∃ c', (faddInsn.run fp).EndsIn flatMachine {} { mem := fun _ => 0 } (some ()) c'
      { mem := fun _ => 0 } ∧ ArithLaw fp ⟨.top, .add, false, 1⟩ {} c') ↔
      X87Arith.Right ⟨.top, .add, false, 1⟩ {} :=
  x87_arith_iff faddInsn_at faddInsn_decoded flatMachine {} { mem := fun _ => 0 }

/-- `fsubrp st(1), st(0)`. -/
def fsubrpInsn : Insn :=
  { handler := .opFsubp, kind := .fsubp, opSize := 2, len := 2, cond := .none, dst := { index := 1 } }

theorem fsubrpInsn_at :
    X87ArithAt (codeAt [0xDE, 0xE1]) 2 ⟨.popped, .sub, true, 1⟩ {} 0 0xDE 0xE1 :=
  ⟨rfl, rfl, ⟨rfl, rfl, trivial⟩, rfl, rfl⟩

theorem fsubrpInsn_decoded :
    decodeWithSource (codeAt [0xDE, 0xE1]) 0 2 = some (.ok fsubrpInsn) := rfl

/-- `ST(0)` is taken from `ST(1)`, where the string says the reverse. -/
theorem fsubrp_reversed :
    decodeWithSource (codeAt [0xDE, 0xE1]) 0 2 = some (.ok fsubrpInsn) ∧
    ¬ ∀ fp, ∃ c', (fsubrpInsn.run fp).EndsIn flatMachine { fpuSt := fun r => BitVec.ofNat 64 r }
      { mem := fun _ => 0 } (some ()) c' { mem := fun _ => 0 } ∧
      ArithLaw fp ⟨.popped, .sub, true, 1⟩ { fpuSt := fun r => BitVec.ofNat 64 r } c' := by
  have h : DecodedArith ⟨.popped, .sub, true, 1⟩ fsubrpInsn :=
    fsubrpInsn_at.decoded fsubrpInsn_decoded
  refine ⟨fsubrpInsn_decoded, fun hlaw => ?_⟩
  have hafter : ∀ fp, ArithLaw fp ⟨.popped, .sub, true, 1⟩ { fpuSt := fun r => BitVec.ofNat 64 r }
      (X87Arith.after fp ⟨.popped, .sub, true, 1⟩ { fpuSt := fun r => BitVec.ofNat 64 r }) := by
    intro fp
    obtain ⟨c', hends, harith⟩ := hlaw fp
    obtain ⟨_, rfl, _⟩ := hends.unique (h.ends fp)
    exact harith
  exact absurd (h.law_iff.mp hafter) (by decide)

end PicoCpu
