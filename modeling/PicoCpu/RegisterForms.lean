import PicoCpu.Execute

/-!
Vector handlers whose operands are registers. Such a handler asks nothing of its environment: it
is one update of the CPU.
-/

namespace PicoCpu

open H Proc Handlers

/-! ### Vector registers -/

namespace Cpu

theorem zmm_setZmmBytes (c : Cpu) (reg off size : Nat) (v : Buf) (i : Nat) :
    (c.setZmmBytes reg off size v).zmm reg i =
      if off ≤ i ∧ i < off + size then v (i - off) else c.zmm reg i := by
  have hreg : (c.setZmmBytes reg off size v).zmm reg = fun i =>
      if off ≤ i ∧ i < off + size then v (i - off) else c.zmm reg i :=
    Function.update_self ..
  exact congrFun hreg i

theorem zmm_setZmmBytes_of_ne (c : Cpu) {reg r : Nat} (h : r ≠ reg) (off size : Nat) (v : Buf) :
    (c.setZmmBytes reg off size v).zmm r = c.zmm r :=
  Function.update_of_ne h ..

theorem zmm_setZmmBytes_low (c : Cpu) (reg size : Nat) (v : Buf) {i : Nat} (hi : i < size) :
    (c.setZmmBytes reg 0 size v).zmm reg i = v i := by
  rw [zmm_setZmmBytes, if_pos ⟨Nat.zero_le i, by omega⟩, Nat.sub_zero]

theorem zmm_setZmmBytes_below (c : Cpu) (reg off size : Nat) (v : Buf) {i : Nat} (hi : i < off) :
    (c.setZmmBytes reg off size v).zmm reg i = c.zmm reg i := by
  rw [zmm_setZmmBytes, if_neg (by omega)]

end Cpu

/-- The program only updates the CPU. -/
structure H.Updates (p : H Unit) (g : Cpu → Cpu) : Prop where
  eq : p = Proc.modify g

namespace H.Updates

variable {p q : H Unit} {g h : Cpu → Cpu}

theorem bind (hp : Updates p g) (hq : Updates q h) : Updates (p >>= fun _ => q) fun c => h (g c) := by
  constructor
  rw [hp.eq, hq.eq]
  rfl

/-- One update an element, over a list. -/
theorem forM {α : Type} {f : α → H Unit} {u : α → Cpu → Cpu} (hf : ∀ a, Updates (f a) (u a))
    (as : List α) : Updates (as.forM f) fun c => as.foldl (fun c a => u a c) c := by
  induction as with
  | nil => exact ⟨rfl⟩
  | cons a as ih => exact (hf a).bind ih

theorem runOn (hp : Updates p g) {σ : Type} (at_ : Attached σ) (c : Cpu) (w : World σ) :
    p.runOn at_ c w = ⟨(some (), g c), w, []⟩ := by
  rw [hp.eq]
  rfl

end H.Updates

/-! ### Handlers on registers -/

/-- Destination and source are vector registers. -/
structure Insn.OnRegisters (insn : Insn) (dst src : Nat) : Prop where
  dst : insn.dst.kind = .xmm ∧ insn.dst.reg = dst
  src : insn.src.kind = .xmm ∧ insn.src.reg = src

theorem VecIo.read_xmm (io : VecIo) (insn : Insn) {op : Operand} (h : op.kind = .xmm)
    (size : Nat) : io.read insn op size = gets fun c => c.zmm op.reg := by
  unfold VecIo.read
  rw [h]

theorem VecIo.write_xmm (io : VecIo) (insn : Insn) {op : Operand} (h : op.kind = .xmm)
    (size : Nat) (v : Buf) :
    io.write insn op size v = Proc.modify fun c => c.setZmmBytes op.reg 0 size v := by
  unfold VecIo.write
  rw [h]

namespace Insn.OnRegisters

variable {insn : Insn} {dst src : Nat} (h : insn.OnRegisters dst src)

include h

theorem xmmBinary (io : VecIo) (f : Insn → Buf → Buf → Buf) :
    (xmmBinary io f insn).Updates fun c =>
      c.setZmmBytes dst 0 16 (f insn (c.zmm dst) (c.zmm src)) := by
  obtain ⟨⟨hdst, rfl⟩, ⟨hsrc, rfl⟩⟩ := h
  constructor
  unfold PicoCpu.xmmBinary
  rw [io.read_xmm insn hdst, io.read_xmm insn hsrc]
  simp only [io.write_xmm insn hdst]
  rfl

theorem xmmUnary (io : VecIo) (f : Insn → Buf → Buf) :
    (xmmUnary io f insn).Updates fun c => c.setZmmBytes dst 0 16 (f insn (c.zmm src)) := by
  obtain ⟨⟨hdst, rfl⟩, ⟨hsrc, rfl⟩⟩ := h
  constructor
  unfold PicoCpu.xmmUnary
  rw [io.read_xmm insn hsrc]
  simp only [io.write_xmm insn hdst]
  rfl

/-- A write of the file `phase10.cpp`. -/
theorem write16To (v : Buf) :
    (write16To insn insn.dst v).Updates fun c =>
      if insn.flags.vex then (c.setZmmBytes dst 0 16 v).zeroYmmUpper dst
      else c.setZmmBytes dst 0 16 v := by
  obtain ⟨⟨hdst, rfl⟩, _⟩ := h
  constructor
  unfold Handlers.write16To
  rw [VecIo.write_xmm _ insn hdst]
  cases hvex : insn.flags.vex with
  | true => rw [if_pos ⟨hdst, rfl⟩]; rfl
  | false => rw [if_neg fun hand => Bool.noConfusion hand.2]; rfl

theorem vexBinopXmm (f : Insn → Buf → Buf → Buf) (hvex : insn.flags.vex = true) :
    (vexBinopXmm f insn).Updates fun c =>
      (c.setZmmBytes dst 0 16 (f insn (c.zmm insn.dst.index) (c.zmm src))).zeroYmmUpper dst := by
  have hwrite := h.write16To
  obtain ⟨_, ⟨hsrc, rfl⟩⟩ := h
  constructor
  unfold Handlers.vexBinopXmm
  rw [VecIo.read_xmm _ insn hsrc]
  simp only [(hwrite _).eq, hvex, if_true]
  rfl

theorem shaBinary (f : Insn → Buf → Buf → Buf) (hvex : insn.flags.vex = false) :
    (shaBinary f insn).Updates fun c =>
      c.setZmmBytes dst 0 16 (f insn (c.zmm dst) (c.zmm src)) := by
  have hwrite := h.write16To
  obtain ⟨⟨hdst, rfl⟩, ⟨hsrc, rfl⟩⟩ := h
  constructor
  unfold Handlers.shaBinary
  rw [VecIo.read_xmm _ insn hdst, VecIo.read_xmm _ insn hsrc]
  simp only [(hwrite _).eq, hvex, Bool.false_eq_true, if_false]
  rfl

theorem vexBinop (f : Buf → Buf → Buf) :
    (vexBinop f insn).Updates fun c =>
      let c' := c.setZmmBytes dst 0 insn.opSize (f (c.zmm insn.dst.index) (c.zmm src))
      if insn.opSize = 16 then c'.zeroYmmUpper dst else c' := by
  obtain ⟨⟨hdst, rfl⟩, ⟨hsrc, rfl⟩⟩ := h
  constructor
  unfold Handlers.vexBinop Handlers.writeVec
  rw [VecIo.read_xmm _ insn hsrc]
  simp only [VecIo.write_xmm _ insn hdst]
  by_cases hsize : insn.opSize = 16
  · simp only [hsize, hdst, and_self, if_true]
    rfl
  · simp only [hsize, and_false, if_false]
    rfl

theorem maskedBinop (size : Nat) (f : Buf → Buf → Buf) :
    (maskedBinop size f insn).Updates fun c =>
      (c.setZmmBytes dst 0 insn.opSize (maskLanes size insn (maskBits insn c)
        (f (c.zmm insn.dst.index) (c.zmm src)) (c.zmm dst))).zeroZmmUpper dst insn.opSize := by
  obtain ⟨⟨hdst, rfl⟩, ⟨hsrc, rfl⟩⟩ := h
  constructor
  unfold Handlers.maskedBinop
  rw [VecIo.read_xmm _ insn hsrc]
  rfl

end Insn.OnRegisters

end PicoCpu
