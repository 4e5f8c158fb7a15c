import PicoCpu.RegisterForms
import PicoCpu.Lib.LaneMachine

/-!
Programs of two-operand vector instructions on registers, as programs of the lane machine: an
instruction changes the low sixteen bytes of its destination, which are four lanes.
-/

namespace PicoCpu

open H Proc Handlers Lanes

/-! ### Lanes of a buffer -/

/-- A word from its bytes. -/
theorem append_bytes (x : U32) : (x >>> 24).setWidth 8 ++ (x >>> 16).setWidth 8 ++
    (x >>> 8).setWidth 8 ++ x.setWidth 8 = x := by
  apply BitVec.eq_of_getLsbD_eq
  intro i hi
  simp only [BitVec.getLsbD_append, BitVec.getLsbD_setWidth, BitVec.getLsbD_ushiftRight]
  grind

theorem laneU32_packU32 (f : Nat → U32) (i : Nat) : laneU32 (packU32 f) i = f i := by
  have hbyte (j : Nat) (hj : j < 4) : packU32 f (4 * i + j) = (f i >>> (8 * j)).setWidth 8 := by
    have hdiv : (4 * i + j) / 4 = i := by omega
    have hmod : (4 * i + j) % 4 = j := by omega
    rw [packU32, hdiv, hmod]
  have hlow := hbyte 0 (by decide)
  rw [Nat.add_zero] at hlow
  rw [laneU32, hlow, hbyte 1 (by decide), hbyte 2 (by decide), hbyte 3 (by decide)]
  exact append_bytes (f i)

/-- The low sixteen bytes as four lanes. -/
def Buf.quad (b : Buf) : Quad := ⟨laneU32 b 3, laneU32 b 2, laneU32 b 1, laneU32 b 0⟩

/-- The buffer of four lanes. -/
def quadBuf (q : Quad) : Buf := lanes32 q.l0 q.l1 q.l2 q.l3

section Quads

variable (a b : Buf)

theorem quad_packU32 (f : Nat → U32) : Buf.quad (packU32 f) = ⟨f 3, f 2, f 1, f 0⟩ := by
  simp only [Buf.quad, laneU32_packU32]

theorem quad_lanes32 (l0 l1 l2 l3 : U32) : Buf.quad (lanes32 l0 l1 l2 l3) = ⟨l3, l2, l1, l0⟩ :=
  quad_packU32 _

theorem quad_map32 (f : U32 → U32 → U32) :
    Buf.quad (map32 f a b) = (Buf.quad a).map₂ f (Buf.quad b) := quad_packU32 _

theorem laneU32_map8_xor (i : Nat) :
    laneU32 (map8 (fun x y => x ^^^ y) a b) i = laneU32 a i ^^^ laneU32 b i := by
  simp only [laneU32, map8]
  apply BitVec.eq_of_getLsbD_eq
  intro j hj
  simp only [BitVec.getLsbD_append, BitVec.getLsbD_xor]
  split_ifs
  · rfl
  · rfl
  · rfl
  · rfl

theorem quad_map8_xor : Buf.quad (map8 (fun x y => x ^^^ y) a b) =
    (Buf.quad a).map₂ (· ^^^ ·) (Buf.quad b) := by
  simp only [Buf.quad, Quad.map₂, laneU32_map8_xor]

/-- Lane `i` of a buffer, by its quad. -/
theorem lane_quad {i : Nat} (hi : i < 4) : (Buf.quad b).lane i = laneU32 b i := by
  rcases (by omega : i = 0 ∨ i = 1 ∨ i = 2 ∨ i = 3) with rfl | rfl | rfl | rfl
  · rfl
  · rfl
  · rfl
  · rfl

theorem laneU32_quadBuf (q : Quad) {i : Nat} (hi : i < 4) : laneU32 (quadBuf q) i = q.lane i := by
  rw [← lane_quad _ hi, quadBuf, quad_lanes32]

variable {a b}

theorem quad_congr (h : ∀ i < 16, a i = b i) : Buf.quad a = Buf.quad b := by
  have hlane (i : Nat) (hi : i < 4) : laneU32 a i = laneU32 b i := by
    rw [laneU32, laneU32, h _ (by omega), h _ (by omega), h _ (by omega), h _ (by omega)]
  rw [Buf.quad, Buf.quad, hlane 0 (by decide), hlane 1 (by decide), hlane 2 (by decide),
    hlane 3 (by decide)]

end Quads

/-- A word of a message block, its first byte the most significant. -/
def blockWord (block : Nat → U8) (i : Nat) : U32 :=
  block (4 * i) ++ block (4 * i + 1) ++ block (4 * i + 2) ++ block (4 * i + 3)

theorem blockWord_zero : blockWord (fun _ => 0) = fun _ => 0 := by
  funext i
  change 0#8 ++ 0#8 ++ 0#8 ++ 0#8 = 0#32
  decide

/-! ### Programs -/

/-- The vector registers, as the lane machine has them. -/
def Cpu.lanes (c : Cpu) : Regs := fun r => Buf.quad (c.zmm r)

theorem Cpu.lanes_setZmmBytes (c : Cpu) (dst : Nat) (v : Buf) :
    (c.setZmmBytes dst 0 16 v).lanes = Function.update c.lanes dst (Buf.quad v) := by
  funext r
  by_cases hr : r = dst
  · subst hr
    rw [Function.update_self]
    exact quad_congr fun i hi => Cpu.zmm_setZmmBytes_low c r 16 v hi
  · rw [Function.update_of_ne hr]
    exact congrArg Buf.quad (Cpu.zmm_setZmmBytes_of_ne c hr 0 16 v)

/-- An instruction of two vector registers and an immediate. -/
def onXmm (handler : Handler) (imm : U64) (dst src : Nat) : Insn :=
  { handler, opSize := 16, immExtra := imm
    dst := { kind := .xmm, reg := dst }, src := { kind := .xmm, reg := src } }

theorem onXmm_onRegisters (handler : Handler) (imm : U64) (dst src : Nat) :
    (onXmm handler imm dst src).OnRegisters dst src :=
  ⟨⟨rfl, rfl⟩, ⟨rfl, rfl⟩⟩

section Programs

variable {Op : Type} {m : Meaning Op} {p q : H Unit} {s s' : List (Step Op)}

/-- The program runs through on every CPU, and the lanes go through the steps. -/
structure Simulates (m : Meaning Op) (s : List (Step Op)) (p : H Unit) : Prop where
  runs : ∃ g : Cpu → Cpu, p.Updates g ∧ ∀ c, (g c).lanes = run m s c.lanes

namespace Simulates

theorem nil : Simulates m [] (pure ()) := ⟨id, ⟨rfl⟩, fun _ => rfl⟩

theorem append (hp : Simulates m s p) (hq : Simulates m s' q) :
    Simulates m (s ++ s') (p >>= fun _ => q) := by
  obtain ⟨g, hg, hlanes⟩ := hp.runs
  obtain ⟨g', hg', hlanes'⟩ := hq.runs
  refine ⟨fun c => g' (g c), hg.bind hg', fun c => ?_⟩
  rw [hlanes', hlanes, run_append]

theorem of_update {dst : Nat} {v : Cpu → Buf} {s : Step Op}
    (h : p.Updates fun c => c.setZmmBytes dst 0 16 (v c))
    (hv : ∀ c, Function.update c.lanes dst (Buf.quad (v c)) = s.apply m c.lanes) :
    Simulates m [s] p :=
  ⟨_, h, fun c => (c.lanes_setZmmBytes dst (v c)).trans (hv c)⟩

theorem runOn (h : Simulates m s p) {σ : Type} (at_ : Attached σ) (c : Cpu) (w : World σ) :
    (p.runOn at_ c w).value.2.lanes = run m s c.lanes := by
  obtain ⟨g, hg, hlanes⟩ := h.runs
  rw [hg.runOn]
  exact hlanes c

end Simulates

/-- A step as a program: the instruction of the operation, or a constant into a register. -/
def stepProgram (fp : HostFp) (code : Op → Handler × U64) : Step Op → H Unit
  | .op o dst src => (onXmm (code o).1 (code o).2 dst src).run fp
  | .load dst v => Proc.modify fun c => c.setZmmBytes dst 0 16 (quadBuf v)

def stepsProgram (fp : HostFp) (code : Op → Handler × U64) (s : List (Step Op)) : H Unit :=
  s.forM (stepProgram fp code)

/-- Where every instruction computes its operation, every program of them simulates the lane
machine. -/
theorem simulates_steps {fp : HostFp} {code : Op → Handler × U64}
    (h : ∀ o dst src, Simulates m [.op o dst src] (stepProgram fp code (.op o dst src)))
    (s : List (Step Op)) : Simulates m s (stepsProgram fp code s) := by
  induction s with
  | nil => exact .nil
  | cons step rest ih =>
      have hstep : Simulates m [step] (stepProgram fp code step) := by
        cases step with
        | op o dst src => exact h o dst src
        | load dst v =>
            apply Simulates.of_update ⟨rfl⟩
            intro c
            rw [quadBuf, quad_lanes32]
            rfl
      exact hstep.append ih

end Programs

/-- An instruction that computes its destination. -/
theorem simulates_op {Op : Type} {m : Meaning Op} {o : Op} {dst src : Nat} {p : H Unit}
    {v : Cpu → Buf} (hrun : p.Updates fun c => c.setZmmBytes dst 0 16 (v c))
    (hv : ∀ c, Buf.quad (v c) = m o (c.lanes 0) (c.lanes dst) (c.lanes src)) :
    Simulates m [.op o dst src] p := by
  apply Simulates.of_update hrun
  intro c
  rw [hv c]
  rfl

/-- An instruction of `phase10.cpp` without a VEX prefix. -/
theorem simulates_shaBinary {Op : Type} {m : Meaning Op} {o : Op} {dst src : Nat} {fp : HostFp}
    {h : Handler} {imm : U64} {f : Insn → Buf → Buf → Buf} (heq : callHandler fp h = shaBinary f)
    (hf : ∀ x a b, Buf.quad (f (onXmm h imm dst src) a b) = m o x (Buf.quad a) (Buf.quad b)) :
    Simulates m [.op o dst src] ((onXmm h imm dst src).run fp) := by
  have hrun : (onXmm h imm dst src).run fp = shaBinary f (onXmm h imm dst src) := congrFun heq _
  rw [hrun]
  exact simulates_op ((onXmm_onRegisters h imm dst src).shaBinary f rfl) fun c => hf ..

end PicoCpu
