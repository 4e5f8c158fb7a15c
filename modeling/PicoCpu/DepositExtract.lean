import PicoCpu.OperandRuns
import PicoCpu.Shifts
import PicoCpu.Lib.SetBits

/-!
PDEP and PEXT: the loops over the set bits of the mask, as the deposit and the extraction of bits,
which undo each other on the bits the mask has.
-/

namespace PicoCpu

open H Proc Handlers SetBits

/-! ### The loops -/

section Loops

variable (src : U64)

/-- The deposit loop from a bit on adds the bits of the source at the remaining positions of the
mask. -/
theorem pdepLoop_spec (m : U64) (fuel bit : Nat) (r : U64) (hfuel : (setBits m).length ≤ fuel) :
    (∀ i k, (setBits m)[i]? = some k →
      (pdepLoop src fuel m bit r).getLsbD k = (r.getLsbD k || src.getLsbD (bit + i))) ∧
    ∀ k, m.getLsbD k = false → (pdepLoop src fuel m bit r).getLsbD k = r.getLsbD k := by
  induction m using peel generalizing fuel bit r with
  | zero =>
      have hdone : pdepLoop src fuel 0 bit r = r := by
        cases fuel with
        | zero => rfl
        | succ fuel => rfl
      rw [hdone, setBits_zero]
      exact ⟨fun i k hk => (nomatch hk), fun _ _ => rfl⟩
  | step m p hp ih =>
      rw [hp.setBits_eq, List.length_cons] at hfuel
      obtain ⟨fuel, rfl⟩ : ∃ n, fuel = n + 1 := ⟨fuel - 1, by omega⟩
      have hstep : pdepLoop src (fuel + 1) m bit r = pdepLoop src fuel (m &&& (m - 1)) (bit + 1)
          (if bitAt src bit then r ||| BitVec.twoPow 64 p else r) := by
        rw [pdepLoop, if_neg hp.ne_zero, hp.and_neg]
      have hadded (k : Nat) : (if bitAt src bit then r ||| BitVec.twoPow 64 p else r).getLsbD k =
          (r.getLsbD k || (src.getLsbD bit && decide (p = k))) := by
        rw [bitAt_eq]
        cases src.getLsbD bit with
        | false => rw [if_neg Bool.false_ne_true, Bool.false_and, Bool.or_false]
        | true =>
            rw [if_pos rfl, BitVec.getLsbD_or, BitVec.getLsbD_twoPow, decide_eq_true hp.lt]
      obtain ⟨hplaced, hkept⟩ := ih fuel (bit + 1)
        (if bitAt src bit then r ||| BitVec.twoPow 64 p else r) (by omega)
      rw [hstep, hp.setBits_eq]
      constructor
      · intro i k hk
        cases i with
        | zero =>
            obtain rfl : p = k := Option.some.inj hk
            have hcleared : (m &&& (m - 1)).getLsbD p = false := by
              rw [hp.getLsbD_clear, decide_eq_false (fun h => h rfl), Bool.and_false]
            rw [hkept p hcleared, hadded, decide_eq_true rfl, Bool.and_true, Nat.add_zero]
        | succ i =>
            have hnot : p ≠ k := by
              have hmem := mem_setBits.mp (List.mem_of_getElem? hk)
              rw [hp.getLsbD_clear, Bool.and_eq_true, decide_eq_true_eq] at hmem
              exact hmem.2.symm
            rw [hplaced i k hk, hadded, decide_eq_false hnot, Bool.and_false, Bool.or_false,
              Nat.succ_add_eq_add_succ]
      · intro k hk
        have hnot : p ≠ k := by
          rintro rfl
          rw [hp.set] at hk
          cases hk
        have hcleared : (m &&& (m - 1)).getLsbD k = false := by
          rw [hp.getLsbD_clear, hk, Bool.false_and]
        rw [hkept k hcleared, hadded, decide_eq_false hnot, Bool.and_false, Bool.or_false]

/-- The extraction loop from a bit on appends the bits of the source at the remaining positions of
the mask. -/
theorem pextLoop_spec (m : U64) (fuel bit : Nat) (r : U64) (hfuel : (setBits m).length ≤ fuel)
    (hroom : bit + (setBits m).length ≤ 64) :
    (∀ i k, (setBits m)[i]? = some k → (pextLoop src fuel m bit r).getLsbD (bit + i) =
      (r.getLsbD (bit + i) || src.getLsbD k)) ∧
    ∀ j, j < bit ∨ bit + (setBits m).length ≤ j →
      (pextLoop src fuel m bit r).getLsbD j = r.getLsbD j := by
  induction m using peel generalizing fuel bit r with
  | zero =>
      have hdone : pextLoop src fuel 0 bit r = r := by
        cases fuel with
        | zero => rfl
        | succ fuel => rfl
      rw [hdone, setBits_zero]
      exact ⟨fun i k hk => (nomatch hk), fun _ _ => rfl⟩
  | step m p hp ih =>
      rw [hp.setBits_eq, List.length_cons] at hfuel hroom
      obtain ⟨fuel, rfl⟩ : ∃ n, fuel = n + 1 := ⟨fuel - 1, by omega⟩
      have hbit : bit < 64 := by omega
      have hstep : pextLoop src (fuel + 1) m bit r = pextLoop src fuel (m &&& (m - 1)) (bit + 1)
          (if src.getLsbD p then r ||| BitVec.twoPow 64 bit else r) := by
        rw [pextLoop, if_neg hp.ne_zero, hp.and_neg]
        dsimp only
        rw [and_twoPow_bne_zero src hp.lt]
        rfl
      have hadded (j : Nat) : (if src.getLsbD p then r ||| BitVec.twoPow 64 bit else r).getLsbD j =
          (r.getLsbD j || (src.getLsbD p && decide (bit = j))) := by
        cases src.getLsbD p with
        | false => rw [if_neg Bool.false_ne_true, Bool.false_and, Bool.or_false]
        | true =>
            rw [if_pos rfl, BitVec.getLsbD_or, BitVec.getLsbD_twoPow, decide_eq_true hbit]
      obtain ⟨htaken, hkept⟩ := ih fuel (bit + 1)
        (if src.getLsbD p then r ||| BitVec.twoPow 64 bit else r) (by omega) (by omega)
      rw [hstep, hp.setBits_eq]
      constructor
      · intro i k hk
        cases i with
        | zero =>
            obtain rfl : p = k := Option.some.inj hk
            have hindex : bit + 0 = bit := rfl
            rw [hindex, hkept bit (.inl (Nat.lt_succ_self bit)), hadded, decide_eq_true rfl,
              Bool.and_true]
        | succ i =>
            have hnot : bit ≠ bit + (i + 1) := by omega
            have hindex : bit + (i + 1) = bit + 1 + i := by omega
            rw [hindex] at hnot ⊢
            rw [htaken i k hk, hadded, decide_eq_false hnot, Bool.and_false, Bool.or_false]
      · intro j hj
        rw [List.length_cons] at hj
        have hnot : bit ≠ j := by omega
        rw [hkept j (by omega), hadded, decide_eq_false hnot, Bool.and_false, Bool.or_false]

end Loops

/-! ### Deposit and extraction -/

theorem length_setBits (m : U64) : (setBits m).length = popcountU64 m := by
  rw [setBits, popcountU64, List.countP_eq_length_filter]

/-- From as many passes as the mask has bits, the loop of PDEP is the deposit. -/
theorem deposits_pdepLoop (x m : U64) {n : Nat} (hn : popcountU64 m ≤ n) :
    Deposits x m (pdepLoop x n m 0 0) := by
  rw [← length_setBits] at hn
  obtain ⟨hplaced, hkept⟩ := pdepLoop_spec x m n 0 0 hn
  constructor
  · intro i k hk
    rw [hplaced i k hk, Nat.zero_add]
    exact (congrArg (· || x.getLsbD i) BitVec.getLsbD_zero).trans (Bool.false_or _)
  · intro k hk
    exact (hkept k hk).trans BitVec.getLsbD_zero

theorem extracts_pextLoop (x m : U64) {n : Nat} (hn : popcountU64 m ≤ n) :
    Extracts x m (pextLoop x n m 0 0) := by
  rw [← length_setBits] at hn
  have hroom : 0 + (setBits m).length ≤ 64 := by
    rw [Nat.zero_add]
    exact length_setBits_le m
  obtain ⟨htaken, hkept⟩ := pextLoop_spec x m n 0 0 hn hroom
  rw [Nat.zero_add] at hkept
  constructor
  · intro i k hk
    have hbit := htaken i k hk
    rw [Nat.zero_add] at hbit
    rw [hbit]
    exact (congrArg (· || x.getLsbD k) BitVec.getLsbD_zero).trans (Bool.false_or _)
  · intro i hi
    exact (hkept i (.inr hi)).trans BitVec.getLsbD_zero

/-- The loops have fuel enough for every mask. -/
theorem popcountU64_le (m : U64) : popcountU64 m ≤ 65 := by
  rw [← length_setBits]
  exact (length_setBits_le m).trans (by decide)

/-! ### The instructions -/

/-- Whatever its mask operand is, when that reads as `m` and the second source holds `x` the
instruction writes `r` to its destination and changes nothing else. -/
def Insn.Computes (fp : HostFp) (i : Insn) (x m r : U64) : Prop :=
  ∀ (σ : Type) (at_ : Attached σ) (c c₁ : Cpu) (w w₁ : World σ),
    (readOperand i i.src i.opSize).EndsIn at_ c w (some m) c₁ w₁ →
    c₁.readGpr i.dst.index i.opSize = x →
    (i.run fp).EndsIn at_ c w (some ()) (c₁.writeGpr i.dst.reg i.opSize r) w₁

section Instructions

variable {i : Insn} (hdst : i.dst.kind = .reg) (hsize : i.opSize = 4 ∨ i.opSize = 8) (fp : HostFp)
include hdst hsize

/-- A BMI instruction that leaves the flags alone. -/
theorem computes_of_bmiOp {f : Insn → U64 → U64 → U64} (hrun : i.run fp = bmiOp f noFlags i)
    (x m : U64) : i.Computes fp x m (f i m x) := by
  intro σ at_ c c₁ w w₁ hread hx
  have hopsize : IsOpSize i.opSize := by
    rcases hsize with h | h <;> rw [h] <;> decide
  have hne : ¬ (i.opSize = 1 ∧ 16 ≤ i.dst.index ∧ i.dst.index < 20) := by omega
  rw [Cpu.readGpr, if_neg hne] at hx
  have hvvvv : readVvvv i c₁ = x := hx
  have hends : (bmiOp f noFlags i).EndsIn at_ c w (some ())
      (c₁.writeGpr i.dst.reg i.opSize (f i m (readVvvv i c₁))) w₁ :=
    bmiOp_ends hopsize hdst hread
  rw [hvvvv, ← hrun] at hends
  exact hends

theorem computes_pdep (hop : i.handler = .opPdep) (x m : U64) :
    i.Computes fp x m (pdepLoop x 65 m 0 0) := by
  have hrun : i.run fp = bmiOp (fun _ mask vvvv => pdepLoop vvvv 65 mask 0 0) noFlags i := by
    rw [Insn.run, hop]
    rfl
  exact computes_of_bmiOp hdst hsize fp hrun x m

theorem computes_pext (hop : i.handler = .opPext) (x m : U64) :
    i.Computes fp x m (pextLoop x 65 m 0 0) := by
  have hrun : i.run fp = bmiOp (fun _ mask vvvv => pextLoop vvvv 65 mask 0 0) noFlags i := by
    rw [Insn.run, hop]
    rfl
  exact computes_of_bmiOp hdst hsize fp hrun x m

end Instructions

/-- PDEP and PEXT with one mask undo each other: the extraction of a deposit is the low bits, as
many as the mask has, and the deposit of an extraction is the source under the mask. Bit `i` goes
to the `i`-th set bit, and as many passes as the mask has set bits clear it, which is where both
loops end. -/
theorem pdep_pext_inverse (fp : HostFp) {i j : Insn} (hi : i.handler = .opPdep)
    (hj : j.handler = .opPext) (hidst : i.dst.kind = .reg) (hjdst : j.dst.kind = .reg)
    (hisize : i.opSize = 4 ∨ i.opSize = 8) (hjsize : j.opSize = i.opSize) (x m : U64) :
    ∃ deposited extracted back again,
      (i.Computes fp x m deposited ∧ j.Computes fp deposited m back ∧
        ∀ k, back.getLsbD k = (decide (k < popcountU64 m) && x.getLsbD k)) ∧
      (j.Computes fp x m extracted ∧ i.Computes fp extracted m again ∧ again = x &&& m) ∧
      Deposits x m deposited ∧
      (∀ n, (fun m : U64 => m &&& (m - 1))^[n] m = 0 ↔ popcountU64 m ≤ n) ∧
      ∀ n, popcountU64 m ≤ n → pdepLoop x n m 0 0 = deposited ∧ pextLoop x n m 0 0 = extracted := by
  have hjsize' : j.opSize = 4 ∨ j.opSize = 8 := by rw [hjsize]; exact hisize
  have hdeposits := deposits_pdepLoop x m (popcountU64_le m)
  have hextracts := extracts_pextLoop x m (popcountU64_le m)
  refine ⟨_, _, _, _, ⟨computes_pdep hidst hisize fp hi x m,
    computes_pext hjdst hjsize' fp hj _ m, fun k => ?_⟩, ⟨computes_pext hjdst hjsize' fp hj x m,
    computes_pdep hidst hisize fp hi _ m, ?_⟩, hdeposits, fun n => ?_, fun n hn => ⟨?_, ?_⟩⟩
  · rw [← length_setBits]
    exact (extracts_pextLoop _ m (popcountU64_le m)).of_deposits hdeposits k
  · exact (deposits_pdepLoop _ m (popcountU64_le m)).of_extracts hextracts
  · rw [← length_setBits]
    exact iterate_clear_eq_zero m n
  · exact (deposits_pdepLoop x m hn).unique hdeposits
  · exact (extracts_pextLoop x m hn).unique hextracts

/-- `pdep rax, rbx, rcx`. -/
def pdepRegisters : Insn :=
  { handler := .opPdep, opSize := 8, dst := { kind := .reg, reg := Reg.rax, index := Reg.rbx }
    src := { kind := .reg, reg := Reg.rcx } }

/-- `pext rdx, rax, rcx`. -/
def pextRegisters : Insn :=
  { handler := .opPext, opSize := 8, dst := { kind := .reg, reg := Reg.rdx, index := Reg.rax }
    src := { kind := .reg, reg := Reg.rcx } }

def depositOperands : Cpu := (({} : Cpu).setR Reg.rbx 0b101).setR Reg.rcx 0b101100

theorem pdep_pext_inverse_registers : ∃ c',
    (pdepRegisters.run default).EndsIn (⟨none, none, [], []⟩ : Attached Unit) depositOperands
      { mem := () } (some ()) c' { mem := () } ∧
    c'.r Reg.rax = 0b100100 ∧
    ∃ c'', (pextRegisters.run default).EndsIn (⟨none, none, [], []⟩ : Attached Unit) c'
      { mem := () } (some ()) c'' { mem := () } ∧ (c''.r Reg.rdx).getLsbD 2 = true := by
  obtain ⟨d, _, back, _, ⟨hd, hback, hbits⟩, _, _, _, hloops⟩ := pdep_pext_inverse default
    (i := pdepRegisters) (j := pextRegisters) rfl rfl rfl rfl (.inr rfl) rfl 0b101 0b101100
  obtain ⟨hloop, _⟩ := hloops 65 (by decide)
  obtain rfl : d = 0b100100 := hloop.symm.trans (by decide)
  have hfirst := hd Unit ⟨none, none, [], []⟩ depositOperands _ { mem := () } _
    (readOperand_of_reg rfl) rfl
  have hsecond := hback Unit ⟨none, none, [], []⟩
    (depositOperands.writeGpr Reg.rax 8 0b100100) _ { mem := () } _ (readOperand_of_reg rfl) rfl
  exact ⟨_, hfirst, rfl, _, hsecond, (hbits 2).trans (by decide)⟩

end PicoCpu
