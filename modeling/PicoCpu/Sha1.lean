import PicoCpu.Sha
import PicoCpu.Lib.Sha1

/-!
The SHA-1 instructions. SHA1RNDS4 leaves `e` out of the last three of its rounds, and SHA1MSG1
takes two words of its source for others; SHA1NEXTE and SHA1MSG2 are as they are meant.
-/

namespace PicoCpu

open H Proc Handlers Lanes Sha1

/-! ### The instructions -/

/-- The instruction of an operation of the schedule, with its immediate. -/
def sha1Code : Sha1.Op → Handler × U64
  | .paddd => (.opPaddd, 0)
  | .movdqa => (.opMovdqa, 0)
  | .pxor => (.opPxor, 0)
  | .rnds4 group => (.opSha1rnds4, BitVec.ofNat 64 group)
  | .nexte => (.opSha1nexte, 0)
  | .msg1 => (.opSha1msg1, 0)
  | .msg2 => (.opSha1msg2, 0)

/-- What the handlers compute. -/
def coded : Sha1.Ops where
  rnds4 group s we :=
    let v := sha1Rounds (quadBuf we) (group % 4 * 20) 4 0 (s.l3, s.l2, s.l1, s.l0)
    ⟨v.1, v.2.1, v.2.2.1, v.2.2.2⟩
  nexte d s := { s with l3 := s.l3 + d.l3.rotateLeft 30 }
  msg1 d s := ⟨d.l3 ^^^ s.l3, d.l2 ^^^ d.l0, d.l1, d.l0⟩
  msg2 d s :=
    let w16 := (d.l3 ^^^ s.l2).rotateLeft 1
    ⟨w16, (d.l2 ^^^ s.l1).rotateLeft 1, (d.l1 ^^^ s.l0).rotateLeft 1,
      (d.l0 ^^^ w16).rotateLeft 1⟩

theorem sha1Rounds_congr {a b : Buf} (h : Buf.quad a = Buf.quad b) (t : Nat)
    (v : U32 × U32 × U32 × U32) : sha1Rounds a t 4 0 v = sha1Rounds b t 4 0 v := by
  have hlane (i : Nat) (hi : i < 4) : laneU32 a i = laneU32 b i := by
    rw [← lane_quad a hi, ← lane_quad b hi, h]
  simp only [sha1Rounds, hlane _ (by decide : 3 - 0 < 4), hlane _ (by decide : 3 - (0 + 1) < 4),
    hlane _ (by decide : 3 - (0 + 1 + 1) < 4), hlane _ (by decide : 3 - (0 + 1 + 1 + 1) < 4)]

theorem simulates_sha1 (fp : HostFp) (o : Sha1.Op) (dst src : Nat) :
    Simulates coded.meaning [.op o dst src] (stepProgram fp sha1Code (.op o dst src)) := by
  have honReg (h : Handler) (imm : U64) := onXmm_onRegisters h imm dst src
  cases o with
  | paddd =>
      exact simulates_op ((honReg .opPaddd 0).xmmBinary sseIo fun _ => map32 fun a b => a + b)
        fun c => quad_map32 ..
  | movdqa =>
      exact simulates_op ((honReg .opMovdqa 0).xmmUnary sseIo fun _ v => v) fun c => rfl
  | pxor =>
      exact simulates_op ((honReg .opPxor 0).xmmBinary sseIo fun _ => map8 fun a b => a ^^^ b)
        fun c => quad_map8_xor ..
  | rnds4 group =>
      have hquad (x : Quad) (a b : Buf) : Buf.quad
          (let v := sha1Rounds b ((imm8 (onXmm .opSha1rnds4 (.ofNat 64 group) dst src) &&& 3).toNat *
            20) 4 0 (laneU32 a 3, laneU32 a 2, laneU32 a 1, laneU32 a 0)
          lanes32 v.2.2.2 v.2.2.1 v.2.1 v.1) =
          coded.meaning (.rnds4 group) x (Buf.quad a) (Buf.quad b) := by
        have hgroup : (imm8 (onXmm .opSha1rnds4 (.ofNat 64 group) dst src) &&& 3).toNat =
            group % 4 := by
          have hand (n : Nat) : n &&& 3 = n % 4 := Nat.and_two_pow_sub_one_eq_mod n 2
          have himm : (imm8 (onXmm .opSha1rnds4 (.ofNat 64 group) dst src)).toNat = group % 256 := by
            simp only [imm8, onXmm, BitVec.toNat_setWidth, BitVec.toNat_ofNat]
            omega
          rw [BitVec.toNat_and, himm]
          change (group % 256) &&& 3 = group % 4
          rw [hand]
          omega
        have hsame : Buf.quad b = Buf.quad (quadBuf (Buf.quad b)) := by
          rw [quadBuf, quad_lanes32]
        rw [hgroup, quad_lanes32, sha1Rounds_congr hsame]
        rfl
      exact simulates_shaBinary rfl hquad
  | nexte => exact simulates_shaBinary rfl fun _ _ _ => quad_lanes32 ..
  | msg1 => exact simulates_shaBinary rfl fun _ _ _ => quad_lanes32 ..
  | msg2 => exact simulates_shaBinary rfl fun _ _ _ => quad_lanes32 ..

/-! ### Against the instructions as they are meant -/

theorem sha1F_eq (b c d : U32) {t t' : Nat} (h : t / 20 = t' / 20) : sha1F b c d t = f t' b c d := by
  have hch : (b &&& c) ||| (~~~b &&& d) = Sha1.ch b c d := by
    apply BitVec.eq_of_getLsbD_eq
    intro i hi
    simp only [Sha1.ch, BitVec.getLsbD_or, BitVec.getLsbD_and, BitVec.getLsbD_not, BitVec.getLsbD_xor]
    cases b.getLsbD i <;> simp
  have hmaj : (b &&& c) ||| (b &&& d) ||| (c &&& d) = Sha1.maj b c d := by
    apply BitVec.eq_of_getLsbD_eq
    intro i hi
    simp only [Sha1.maj, BitVec.getLsbD_or, BitVec.getLsbD_and, BitVec.getLsbD_xor]
    cases b.getLsbD i <;> cases c.getLsbD i <;> cases d.getLsbD i <;> rfl
  rw [← f_congr h, sha1F, hch, hmaj, f]
  split_ifs
  · rfl
  · rfl
  · rfl
  · rfl

theorem sha1K_eq {t t' : Nat} (h : t / 20 = t' / 20) : sha1K t = k t' := k_congr h

/-- The new first variable of a round, without `e`. -/
def mix (t : Nat) (a b c d w : U32) : U32 := a.rotateLeft 5 + f t b c d + k t + w

theorem round_eq_mix (v : Sha1.Vars) (t : Nat) (w : U32) :
    v.round t w = ⟨mix t v.a v.b v.c v.d w + v.e, v.a, v.b.rotateLeft 30, v.c, v.d⟩ := by
  rw [Vars.round, Vars.mk.injEq]
  refine ⟨?_, rfl, rfl, rfl, rfl⟩
  simp only [mix]
  ac_rfl

/-- Four rounds, with an addend in each but the first. -/
def fourRounds (t : Nat) (s we : Quad) (e1 e2 e3 : U32) : Quad :=
  let b := s.l2.rotateLeft 30
  let a1 := mix t s.l3 s.l2 s.l1 s.l0 we.l3
  let a2 := mix t a1 s.l3 b s.l1 we.l2 + e1
  let a3 := mix t a2 a1 (s.l3.rotateLeft 30) b we.l1 + e2
  ⟨mix t a3 a2 (a1.rotateLeft 30) (s.l3.rotateLeft 30) we.l0 + e3, a3, a2.rotateLeft 30,
    a1.rotateLeft 30⟩

theorem standard_eq_fourRounds (group : Nat) (s we : Quad) :
    standard.rnds4 group s we =
      fourRounds (20 * group) s we s.l0 s.l1 (s.l2.rotateLeft 30) := by
  simp only [standard, round_eq_mix, Vars.quad, fourRounds, BitVec.ofNat_eq_ofNat, BitVec.add_zero]

/-- The handler adds nothing. -/
theorem coded_eq_fourRounds {group : Nat} (hgroup : group < 4) (s we : Quad) :
    coded.rnds4 group s we = fourRounds (20 * group) s we 0 0 0 := by
  have hround (i : Nat) (hi : i < 4) (a b c d w : U32) :
      a.rotateLeft 5 + sha1F b c d (group % 4 * 20 + i) + sha1K (group % 4 * 20 + i) + w =
        mix (20 * group) a b c d w := by
    have hsame : (group % 4 * 20 + i) / 20 = 20 * group / 20 := by omega
    rw [sha1F_eq b c d hsame, sha1K_eq hsame]
    rfl
  have hlane (i : Nat) (hi : i < 4) : laneU32 (quadBuf we) i = we.lane i := laneU32_quadBuf we hi
  simp only [coded, sha1Rounds, hround _ (by decide : 0 < 4), hround _ (by decide : 0 + 1 < 4),
    hround _ (by decide : 0 + 1 + 1 < 4), hround _ (by decide : 0 + 1 + 1 + 1 < 4),
    hlane _ (by decide : 3 - 0 < 4), hlane _ (by decide : 3 - (0 + 1) < 4),
    hlane _ (by decide : 3 - (0 + 1 + 1) < 4), hlane _ (by decide : 3 - (0 + 1 + 1 + 1) < 4),
    fourRounds, BitVec.ofNat_eq_ofNat, BitVec.add_zero]
  rfl

theorem rotateLeft_inj {x y : U32} (h : x.rotateLeft 30 = y.rotateLeft 30) : x = y := by
  apply BitVec.eq_of_getLsbD_eq
  intro i hi
  have hbit := congrArg (fun v => v.getLsbD ((i + 30) % 32)) h
  simp only [BitVec.getLsbD_rotateLeft] at hbit
  grind

/-- SHA1RNDS4 is right exactly where what it leaves out is zero. -/
theorem rnds4_iff {group : Nat} (hgroup : group < 4) (s we : Quad) :
    coded.rnds4 group s we = standard.rnds4 group s we ↔ s.l2 = 0 ∧ s.l1 = 0 ∧ s.l0 = 0 := by
  rw [coded_eq_fourRounds hgroup, standard_eq_fourRounds]
  have hzero {x y : U32} (h : x + 0 = x + y) : y = 0 := ((BitVec.add_right_inj x).mp h).symm
  constructor
  · intro heq
    rw [fourRounds, fourRounds, Quad.mk.injEq] at heq
    obtain ⟨h3, h2, h1, _⟩ := heq
    have hl0 := hzero (rotateLeft_inj h1)
    rw [hl0] at h2 h3
    have hl1 := hzero h2
    rw [hl1] at h3
    have hl2 : s.l2.rotateLeft 30 = (0 : U32).rotateLeft 30 := hzero h3
    exact ⟨rotateLeft_inj hl2, hl1, hl0⟩
  · rintro ⟨hl2, hl1, hl0⟩
    have hrotate : s.l2.rotateLeft 30 = 0 := by
      rw [hl2]
      rfl
    rw [hrotate, hl1, hl0]

/-- SHA1MSG1 is right exactly where the three words that it confuses are zero. -/
theorem msg1_iff (d s : Quad) :
    coded.msg1 d s = standard.msg1 d s ↔ d.l1 = 0 ∧ s.l3 = 0 ∧ s.l2 = 0 := by
  simp only [coded, standard, Quad.mk.injEq]
  have hself {x y : U32} (h : x = x ^^^ y) : y = 0 := by
    apply (BitVec.xor_right_inj x).mp
    rw [← h]
    exact BitVec.xor_zero.symm
  constructor
  · rintro ⟨h3, _, h1, h0⟩
    have hs3 : s.l3 = 0 := hself h1
    refine ⟨?_, hs3, hself h0⟩
    rw [← hs3]
    exact ((BitVec.xor_right_inj d.l3).mp h3).symm
  · rintro ⟨hd, hs3, hs2⟩
    rw [hd, hs3, hs2]
    simp

/-! ### Runs of the schedule -/

section Runs

variable {H : Sha1.Vars} {M : Nat → Sha1.Word}

/-- What the handlers leave out or confuse in group `k` is zero. -/
structure Harmless (H : Sha1.Vars) (M : Nat → Sha1.Word) (k : Nat) : Prop where
  addends : (vars H M (4 * k)).b = 0 ∧ (vars H M (4 * k)).c = 0 ∧ (vars H M (4 * k)).d = 0
  words : 1 ≤ k → k ≤ 16 → w M (4 * (k - 1) + 2) = 0 ∧ w M (4 * k) = 0 ∧ w M (4 * k + 1) = 0

theorem meets_iff_harmless {k : Nat} (hk : k < 20) : Meets H M coded k ↔ Harmless H M k := by
  have hstandard := standard_meets H M k
  constructor
  · intro hmeets
    refine ⟨?_, fun h1 h16 => ?_⟩
    · exact (rnds4_iff (by omega) _ _).mp (hmeets.rnds4.trans hstandard.rnds4.symm)
    · exact (msg1_iff _ _).mp ((hmeets.msg1 h1 h16).trans (hstandard.msg1 h1 h16).symm)
  · intro hharmless
    refine ⟨hstandard.nexte, ?_, fun h1 h16 => ?_, hstandard.msg2⟩
    · exact ((rnds4_iff (by omega) _ _).mpr hharmless.addends).trans hstandard.rnds4
    · exact ((msg1_iff _ _).mpr (hharmless.words h1 h16)).trans (hstandard.msg1 h1 h16)

/-- Where three of the first four new variables vanish, so that nothing is lost in the second
group, the third is the constant of its round. -/
theorem not_harmless_one (h0 : Harmless H M 0) (h1 : Harmless H M 1) : False := by
  obtain ⟨hb, hc, hd⟩ := h0.addends
  obtain ⟨hb4, hc4, hd4⟩ := h1.addends
  obtain ⟨hw2, _, _⟩ := h1.words (Nat.le_refl 1) (by decide)
  have ha1 : (vars H M 1).a = 0 := rotateLeft_inj hd4
  have ha2 : (vars H M 2).a = 0 := rotateLeft_inj hc4
  have hv2 : vars H M 2 = ⟨0, 0, H.a.rotateLeft 30, 0, 0⟩ := by
    ext1
    · exact ha2
    · exact ha1
    · rfl
    · change H.b.rotateLeft 30 = 0
      rw [show H.b = 0 from hb]
      rfl
    · exact hc
  have ha3 : (vars H M 3).a = ((⟨0, 0, H.a.rotateLeft 30, 0, 0⟩ : Sha1.Vars).round 2 0).a := by
    rw [← hv2, ← hw2]
    rfl
  have hvalue (x : U32) : ((⟨0, 0, x, 0, 0⟩ : Sha1.Vars).round 2 0).a = 0x5A827999 := by
    simp [Vars.round, f, Sha1.ch, k]
  rw [hvalue] at ha3
  exact absurd (ha3.symm.trans hb4) (by decide)

theorem harmless_iff (n : Nat) :
    (∀ k < n, Harmless H M k) ↔ n = 0 ∨ n = 1 ∧ H.b = 0 ∧ H.c = 0 ∧ H.d = 0 := by
  constructor
  · intro hall
    rcases (by omega : n = 0 ∨ n = 1 ∨ 2 ≤ n) with h0 | h1 | h2
    · exact .inl h0
    · exact .inr ⟨h1, (hall 0 (by omega)).addends⟩
    · exact (not_harmless_one (hall 0 (by omega)) (hall 1 (by omega))).elim
  · rintro (rfl | ⟨rfl, hzero⟩) k hk
    · exact absurd hk (Nat.not_lt_zero k)
    · obtain rfl : k = 0 := by omega
      exact ⟨hzero, fun h1 => absurd h1 (by decide)⟩

theorem coded_carries : coded.Carries := fun _ _ => rfl

end Runs

/-- The registers after the instructions of the first `n` groups, from a CPU into which the chaining
state and the block have been loaded. -/
def sha1Groups {σ : Type} (fp : HostFp) (H : Sha1.Vars) (block : Nat → U8) (n : Nat)
    (at_ : Attached σ) (c : Cpu) (w : World σ) : Regs :=
  ((stepsProgram fp sha1Code (setup H (blockWord block) ++ groups n)).runOn at_ c w).value.2.lanes

/-- The registers keep to the working variables and words of FIPS 180-4 for the first group at most,
and through that one only from a state with `b`, `c` and `d` zero. -/
theorem sha1_follows_iff {σ : Type} (fp : HostFp) (H : Sha1.Vars) (block : Nat → U8) {n : Nat}
    (hn : n ≤ 20) (at_ : Attached σ) (c : Cpu) (w : World σ) :
    (∀ k ≤ n, Sha1.Holds H (blockWord block) k (sha1Groups fp H block k at_ c w)) ↔
      n = 0 ∨ n = 1 ∧ H.b = 0 ∧ H.c = 0 ∧ H.d = 0 := by
  have hrun (k : Nat) : sha1Groups fp H block k at_ c w =
      run coded.meaning (groups k) (run coded.meaning (setup H (blockWord block)) c.lanes) := by
    rw [← run_append]
    exact (simulates_steps (simulates_sha1 fp) _).runOn at_ c w
  simp only [hrun]
  rw [holds_groups_iff coded_carries (holds_setup H (blockWord block) _ _) hn, ← harmless_iff]
  constructor
  · intro hall k hk
    exact (meets_iff_harmless (by omega)).mp (hall k hk)
  · intro hall k hk
    exact (meets_iff_harmless (by omega)).mpr (hall k hk)

theorem sha1_follows_iff_first :
    (1 ≤ 20 ∧ ∀ k ≤ 1, Sha1.Holds ⟨1, 0, 0, 0, 2⟩ (blockWord fun _ => 7) k
      (sha1Groups default ⟨1, 0, 0, 0, 2⟩ (fun _ => 7) k ⟨none, none, [], []⟩ {} { mem := () })) :=
  ⟨by decide, (sha1_follows_iff default ⟨1, 0, 0, 0, 2⟩ (fun _ => 7) (by decide) _ _ _).mpr
    (.inr ⟨rfl, rfl, rfl, rfl⟩)⟩

/-- On the block of zeros, from the initial hash value, the whole schedule misses the
compression. -/
theorem not_sha1_compresses :
    ¬ ∀ (fp : HostFp) (H : Sha1.Vars) (block : Nat → U8) (σ : Type) (at_ : Attached σ) (c : Cpu)
      (w : World σ), Sha1.Compressed H (blockWord block) ((stepsProgram fp sha1Code
        (setup H (blockWord block) ++ groups 20 ++ finish)).runOn at_ c w).value.2.lanes := by
  intro hall
  let H : Sha1.Vars := ⟨0x67452301, 0xEFCDAB89, 0x98BADCFE, 0x10325476, 0xC3D2E1F0⟩
  have hcompressed := hall default H (fun _ => 0) Unit ⟨none, none, [], []⟩ {} { mem := () }
  have hstate := hcompressed.state
  rw [(simulates_steps (simulates_sha1 default) _).runOn] at hstate
  have hw (t : Nat) : w (fun _ => 0) t = 0 := by
    induction t using Nat.strong_induction_on with
    | _ t ih =>
        rw [w]
        split
        · rfl
        · rw [ih _ (by omega), ih _ (by omega), ih _ (by omega), ih _ (by omega)]
          rfl
  have hvars (t : Nat) : vars H (fun _ => 0) t =
      (List.range t).foldl (fun v t => v.round t 0) H := by
    induction t with
    | zero => rfl
    | succ t ih =>
        rw [vars, ih, hw, List.range_succ, List.foldl_append]
        rfl
  rw [blockWord_zero, compress, hvars] at hstate
  exact absurd hstate (by decide +kernel)

end PicoCpu
