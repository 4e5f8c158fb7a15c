import PicoCpu.Sha
import PicoCpu.Lib.Sha256

/-!
The SHA-256 instructions. SHA256MSG1 works on its destination in place and takes its neighbours
from the wrong side; the others are as they are meant. There is no PALIGNR, so the words between
the message instructions are shifted by PSHUFD and INSERTPS.
-/

namespace PicoCpu

open H Proc Handlers Lanes Sha256

/-! ### The instructions -/

/-- The instruction of an operation of the schedule, with its immediate. -/
def sha256Code : Sha256.Op → Handler × U64
  | .paddd => (.opPaddd, 0)
  | .pshufd imm => (.opPshufd, imm.setWidth 64)
  | .insertTop => (.opInsertps, 0x30)
  | .rnds2 => (.opSha256rnds2, 0)
  | .msg1 => (.opSha256msg1, 0)
  | .msg2 => (.opSha256msg2, 0)

/-- What the handlers compute. -/
def coded256 : Sha256.Ops where
  rnds2 := standard.rnds2
  msg1 d s :=
    let l0 := d.l0 + Sha256.sigma0 s.l3
    let l1 := d.l1 + Sha256.sigma0 l0
    let l2 := d.l2 + Sha256.sigma0 l1
    ⟨d.l3 + Sha256.sigma0 l2, l2, l1, l0⟩
  msg2 := standard.msg2

theorem quad_insertps (d s : Buf) :
    Buf.quad (insertps 0x30 d s) = { Buf.quad d with l3 := (Buf.quad s).l0 } :=
  quad_packU32 _

theorem quad_shuffled (imm : U8) (s : Buf) :
    Buf.quad (packU32 fun lane => laneU32 s ((imm >>> (lane * 2)) &&& 3).toNat) =
      (Buf.quad s).shuffle imm := by
  have hlane (i : Nat) : laneU32 s ((imm >>> (i * 2)) &&& 3).toNat =
      (Buf.quad s).lane ((imm >>> (i * 2)) &&& 3).toNat := by
    have hsmall : ((imm >>> (i * 2)) &&& 3).toNat < 4 := by
      rw [BitVec.toNat_and]
      exact Nat.and_lt_two_pow _ (by decide : 3 < 2 ^ 2)
    exact (lane_quad s hsmall).symm
  rw [quad_packU32, hlane, hlane, hlane, hlane]
  rfl

/-- The handler's variables as those of the compression function. -/
def fipsVars (v : Sha256Vars) : Sha256.Vars := ⟨v.a, v.b, v.c, v.d, v.e, v.f, v.g, v.h⟩

theorem fipsVars_round (v : Sha256Vars) (wk : U32) :
    fipsVars (v.round wk) = (fipsVars v).round 0 wk := by
  have ht1 (x y z : U32) : x + y + z + 0 + wk = x + y + z + wk :=
    congrArg (· + wk) (BitVec.add_zero _)
  simp only [fipsVars, Sha256Vars.round, Vars.round, Vars.t1, ht1]
  rfl

/-- The round instruction also reads `XMM0`. -/
theorem updates_opSha256rnds2 (dst src : Nat) :
    (opSha256rnds2 (onXmm .opSha256rnds2 0 dst src)).Updates fun c =>
      c.setZmmBytes dst 0 16 (quadBuf (standard.rnds2 (c.lanes dst) (c.lanes src) (c.lanes 0))) := by
  have hrounds (v : Sha256Vars) (x y : U32) :
      lanes32 ((v.round x).round y).f ((v.round x).round y).e ((v.round x).round y).b
        ((v.round x).round y).a = quadBuf ((((fipsVars v).round 0 x).round 0 y).abef) := by
    rw [← fipsVars_round, ← fipsVars_round]
    rfl
  have heq : opSha256rnds2 (onXmm .opSha256rnds2 0 dst src) = Proc.modify fun c =>
      c.setZmmBytes dst 0 16 (
        let v : Sha256Vars := ⟨laneU32 (c.zmm src) 3, laneU32 (c.zmm src) 2,
          laneU32 (c.zmm dst) 3, laneU32 (c.zmm dst) 2, laneU32 (c.zmm src) 1,
          laneU32 (c.zmm src) 0, laneU32 (c.zmm dst) 1, laneU32 (c.zmm dst) 0⟩
        let v := (v.round (laneU32 (c.zmm 0) 0)).round (laneU32 (c.zmm 0) 1)
        lanes32 v.f v.e v.b v.a) := rfl
  constructor
  rw [heq]
  simp only [hrounds]
  rfl

theorem simulates_sha256 (fp : HostFp) (o : Sha256.Op) (dst src : Nat) :
    Simulates coded256.meaning [.op o dst src] (stepProgram fp sha256Code (.op o dst src)) := by
  have honReg (h : Handler) (imm : U64) := onXmm_onRegisters h imm dst src
  cases o with
  | paddd =>
      exact simulates_op ((honReg .opPaddd 0).xmmBinary sseIo fun _ => map32 fun a b => a + b)
        fun c => quad_map32 ..
  | pshufd imm =>
      have himm : imm8 (onXmm .opPshufd (imm.setWidth 64) dst src) = imm := by
        simp [imm8, onXmm]
      have hrun := (honReg .opPshufd (imm.setWidth 64)).xmmUnary sseIo fun insn s =>
        packU32 fun lane => laneU32 s ((imm8 insn >>> (lane * 2)) &&& 3).toNat
      rw [himm] at hrun
      exact simulates_op hrun fun c => quad_shuffled imm _
  | insertTop =>
      exact simulates_op ((honReg .opInsertps 0x30).xmmBinary sse4Io fun insn =>
        insertps (imm8 insn)) fun c => quad_insertps ..
  | rnds2 =>
      apply simulates_op (updates_opSha256rnds2 dst src)
      intro c
      rw [quadBuf, quad_lanes32]
      rfl
  | msg1 => exact simulates_shaBinary rfl fun _ _ _ => quad_lanes32 ..
  | msg2 => exact simulates_shaBinary rfl fun _ _ _ => quad_lanes32 ..

/-! ### Runs of the schedule -/

/-- The words that SHA256MSG1 takes in group `k` have the schedule functions of those that it
should take. -/
structure Interchangeable (M : Nat → Sha256.Word) (k : Nat) : Prop where
  lane0 : Sha256.sigma0 (w M (4 * k + 3)) = Sha256.sigma0 (w M (4 * k - 3))
  lane1 : Sha256.sigma0 (w M (4 * k - 4) + Sha256.sigma0 (w M (4 * k - 3))) =
    Sha256.sigma0 (w M (4 * k - 2))
  lane2 : Sha256.sigma0 (w M (4 * k - 3) + Sha256.sigma0 (w M (4 * k - 2))) =
    Sha256.sigma0 (w M (4 * k - 1))
  lane3 : Sha256.sigma0 (w M (4 * k - 2) + Sha256.sigma0 (w M (4 * k - 1))) =
    Sha256.sigma0 (w M (4 * k))

/-- A sum determines its second summand. -/
theorem msg1_iff_interchangeable (M : Nat → Sha256.Word) {k : Nat} (hk : 1 ≤ k) :
    coded256.msg1 (words M (k - 1)) (words M k) = standard.msg1 (words M (k - 1)) (words M k) ↔
      Interchangeable M k := by
  have h0 : 4 * (k - 1) = 4 * k - 4 := by omega
  have h1 : 4 * (k - 1) + 1 = 4 * k - 3 := by omega
  have h2 : 4 * (k - 1) + 2 = 4 * k - 2 := by omega
  have h3 : 4 * (k - 1) + 3 = 4 * k - 1 := by omega
  simp only [coded256, standard, Quad.mk.injEq, words, h1, h2, h3, BitVec.add_right_inj]
  rw [h0]
  constructor
  · rintro ⟨hl3, hl2, hl1, hl0⟩
    rw [hl0] at hl1 hl2 hl3
    rw [hl1] at hl2 hl3
    rw [hl2] at hl3
    exact ⟨hl0, hl1, hl2, hl3⟩
  · rintro ⟨hl0, hl1, hl2, hl3⟩
    rw [hl0, hl1, hl2, hl3]
    exact ⟨rfl, rfl, rfl, rfl⟩

theorem meets_iff_interchangeable (H : Sha256.Vars) (M : Nat → Sha256.Word) (k : Nat) :
    Meets H M coded256 k ↔ (1 ≤ k → k ≤ 12 → Interchangeable M k) := by
  have hstandard := standard_meets H M k
  constructor
  · intro hmeets h1 h12
    exact (msg1_iff_interchangeable M h1).mp
      ((hmeets.msg1 h1 h12).trans (hstandard.msg1 h1 h12).symm)
  · intro hsame
    refine ⟨hstandard.rnds2, hstandard.rnds2', fun h1 h12 => ?_, hstandard.msg2⟩
    exact ((msg1_iff_interchangeable M h1).mpr (hsame h1 h12)).trans (hstandard.msg1 h1 h12)

/-- The registers after a program, from a CPU into which the chaining state and the block have been
loaded. -/
def sha256After {σ : Type} (fp : HostFp) (H : Sha256.Vars) (block : Nat → U8)
    (s : List (Step Sha256.Op)) (at_ : Attached σ) (c : Cpu) (w : World σ) : Regs :=
  ((stepsProgram fp sha256Code (setup H (blockWord block) ++ s)).runOn at_ c w).value.2.lanes

theorem sha256After_eq {σ : Type} (fp : HostFp) (H : Sha256.Vars) (block : Nat → U8)
    (s : List (Step Sha256.Op)) (at_ : Attached σ) (c : Cpu) (w : World σ) :
    sha256After fp H block s at_ c w =
      run coded256.meaning s (run coded256.meaning (setup H (blockWord block)) c.lanes) := by
  rw [← run_append]
  exact (simulates_steps (simulates_sha256 fp) _).runOn at_ c w

/-- The registers keep to the working variables and words of FIPS 180-4, and end with the
compression of the block, exactly where SHA256MSG1 never makes a difference. -/
theorem sha256_follows_iff {σ : Type} (fp : HostFp) (H : Sha256.Vars) (block : Nat → U8)
    (at_ : Attached σ) (c : Cpu) (w : World σ) :
    ((∀ k ≤ 16, Sha256.Holds H (blockWord block) k (sha256After fp H block (groups k) at_ c w)) ∧
      Sha256.Compressed H (blockWord block)
        (sha256After fp H block (groups 16 ++ finish) at_ c w)) ↔
      ∀ k, 1 ≤ k → k ≤ 12 → Interchangeable (blockWord block) k := by
  have hgroups : _ ↔ ∀ k < 16, Meets H (blockWord block) coded256 k :=
    holds_groups_iff (holds_setup H (blockWord block) coded256.meaning c.lanes) (Nat.le_refl 16)
  simp only [sha256After_eq]
  constructor
  · rintro ⟨hholds, _⟩ k h1 h12
    exact (meets_iff_interchangeable H _ k).mp (hgroups.mp hholds k (by omega)) h1 h12
  · intro hsame
    have hholds := hgroups.mpr fun k _ => (meets_iff_interchangeable H _ k).mpr (hsame k)
    refine ⟨hholds, ?_⟩
    rw [run_append]
    exact compressed_of_holds (hholds 16 (Nat.le_refl 16))

/-- The block of zeros is such a block. -/
theorem sha256_follows_iff_zeros :
    Sha256.Compressed ⟨1, 2, 3, 4, 5, 6, 7, 8⟩ (blockWord fun _ => 0)
      (sha256After default ⟨1, 2, 3, 4, 5, 6, 7, 8⟩ (fun _ => 0) (groups 16 ++ finish)
        ⟨none, none, [], []⟩ {} ({ mem := () } : World Unit)) := by
  apply ((sha256_follows_iff default _ _ _ _ _).mpr fun k _ _ => ?_).2
  have hzero : Sha256.sigma0 0 = 0 := by decide
  have hadd : (0 : Sha256.Word) + 0 = 0 := by decide
  have hw (t : Nat) : w (fun _ => 0) t = 0 := by
    induction t using Nat.strong_induction_on with
    | _ t ih =>
        rw [w]
        split
        · rfl
        · rw [ih _ (by omega), ih _ (by omega), ih _ (by omega), ih _ (by omega)]
          decide
  rw [blockWord_zero]
  constructor
  · simp only [hw]
  · simp only [hw, hzero, hadd]
  · simp only [hw, hzero, hadd]
  · simp only [hw, hzero, hadd]

/-- On the block that pads `abc`, from the initial hash value, the schedule misses the
compression. -/
theorem not_sha256_compresses :
    ¬ ∀ (fp : HostFp) (H : Sha256.Vars) (block : Nat → U8) (σ : Type) (at_ : Attached σ) (c : Cpu)
      (w : World σ), Sha256.Compressed H (blockWord block)
        (sha256After fp H block (groups 16 ++ finish) at_ c w) := by
  intro hall
  let H : Sha256.Vars := ⟨0x6a09e667, 0xbb67ae85, 0x3c6ef372, 0xa54ff53a, 0x510e527f, 0x9b05688c,
    0x1f83d9ab, 0x5be0cd19⟩
  let block (i : Nat) : U8 := if i = 0 then 0x61 else if i = 1 then 0x62 else if i = 2 then 0x63
    else if i = 3 then 0x80 else if i = 63 then 0x18 else 0
  have hcompressed := hall default H block Unit ⟨none, none, [], []⟩ {} { mem := () }
  have hfirst := hcompressed.first
  rw [sha256After_eq, compress, vars_eq_varsOn H _ (Nat.le_refl 64)] at hfirst
  exact absurd hfirst (by decide +kernel)

end PicoCpu
