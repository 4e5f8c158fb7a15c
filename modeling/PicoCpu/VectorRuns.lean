import PicoCpu.MemoryAccess
import PicoCpu.RegisterForms

/-!
Where the run of a vector handler ends, given what its source reads as: a register, or the bytes the
provider answers for the operand's address.
-/

namespace PicoCpu

open H Proc Handlers

variable {σ : Type}

/-- The vector operand reads as the buffer: the contents of its register, or what the provider
answers for the bytes at its address. -/
def Insn.ReadsVec (insn : Insn) (op : Operand) (size : Nat) (at_ : Attached σ) (c : Cpu)
    (w : World σ) (b : Buf) (w' : World σ) : Prop :=
  (op.kind = .xmm ∧ c.zmm op.reg = b ∧ w' = w) ∨
    (op.isMem = true ∧
      at_.env (.read (ea c insn op) size) w = ((.ok b : Except Status Buf), w'))

section Runs

variable {at_ : Attached σ} {c : Cpu} {w w' : World σ} {insn : Insn} {op : Operand} {size : Nat}
  {b : Buf}

/-- The two forms of memory operands. -/
theorem VecIo.read_mem (io : VecIo) (hop : op.isMem = true) :
    io.read insn op size = (do
      let rip ← gets Cpu.rip
      requireAttached false rip io.readNote
      let addr ← gets fun c => ea c insn op
      load addr size pageFault io.readNote) := by
  rw [Operand.isMem, Bool.or_eq_true, beq_iff_eq, beq_iff_eq] at hop
  unfold VecIo.read
  rcases hop with h | h <;> rw [h]

theorem VecIo.read_ends (io : VecIo) (h : insn.ReadsVec op size at_ c w b w') :
    (io.read insn op size).EndsIn at_ c w (some b) c w' := by
  rcases h with ⟨hkind, rfl, rfl⟩ | ⟨hmem, hread⟩
  · rw [io.read_xmm insn hkind]
    exact endsIn_gets _
  · have hload : (load (ea c insn op) size pageFault io.readNote >>= pure).EndsIn at_ c w
        (some b) c w' :=
      load_bind_iff.mpr ⟨b, w', hread, endsIn_pure b⟩
    rw [bind_pure] at hload
    rw [io.read_mem hmem, (endsIn_gets _).bind_iff, requireAttached_bind_iff,
      (endsIn_gets _).bind_iff]
    exact ⟨Attached.memRead_isSome hread, hload⟩

/-! ### Handlers -/

variable (hdst : insn.dst.kind = .xmm)
include hdst

theorem VecIo.write_ends (io : VecIo) (v : Buf) :
    (io.write insn insn.dst size v).EndsIn at_ c w (some ())
      (c.setZmmBytes insn.dst.reg 0 size v) w := by
  rw [io.write_xmm insn hdst]
  exact endsIn_modify _

variable (hread : insn.ReadsVec insn.src 16 at_ c w b w')
include hread

theorem xmmBinary_ends (io : VecIo) (f : Insn → Buf → Buf → Buf) :
    (xmmBinary io f insn).EndsIn at_ c w (some ())
      (c.setZmmBytes insn.dst.reg 0 16 (f insn (c.zmm insn.dst.reg) b)) w' := by
  rw [xmmBinary, io.read_xmm insn hdst, (endsIn_gets _).bind_iff, (io.read_ends hread).bind_iff]
  exact io.write_ends hdst _

theorem xmmUnary_ends (io : VecIo) (f : Insn → Buf → Buf) :
    (xmmUnary io f insn).EndsIn at_ c w (some ())
      (c.setZmmBytes insn.dst.reg 0 16 (f insn b)) w' := by
  rw [xmmUnary, (io.read_ends hread).bind_iff]
  exact io.write_ends hdst _

/-- A VEX.128 form clears its destination above the result. -/
theorem vexBinopXmm_ends (f : Insn → Buf → Buf → Buf) (hvex : insn.flags.vex = true) :
    (vexBinopXmm f insn).EndsIn at_ c w (some ())
      ((c.setZmmBytes insn.dst.reg 0 16
        (f insn (c.zmm insn.dst.index) b)).zeroYmmUpper insn.dst.reg) w' := by
  rw [vexBinopXmm, (endsIn_gets _).bind_iff, (sse4Io.read_ends hread).bind_iff, write16To,
    (sse4Io.write_ends hdst _).bind_iff, if_pos ⟨hdst, hvex⟩]
  exact endsIn_modify _

end Runs

/-- Only the bytes written matter. -/
theorem Cpu.setZmmBytes_congr (c : Cpu) (reg size : Nat) {v v' : Buf} (h : ∀ j < size, v j = v' j) :
    c.setZmmBytes reg 0 size v = c.setZmmBytes reg 0 size v' := by
  unfold Cpu.setZmmBytes
  congr 1
  funext j
  by_cases hj : 0 ≤ j ∧ j < 0 + size
  · rw [if_pos hj, if_pos hj, h _ (by omega)]
  · rw [if_neg hj, if_neg hj]

end PicoCpu
