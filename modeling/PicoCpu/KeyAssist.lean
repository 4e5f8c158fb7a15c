import PicoCpu.Aes
import PicoCpu.Sha
import PicoCpu.VectorRuns

/-!
AESKEYGENASSIST against the words that the AES key expansion takes from it.
-/

namespace PicoCpu

open H Proc Handlers

/-! ### Key expansion -/

/-- SubWord. -/
def subWord (x : U32) : U32 :=
  sbox (x.extractLsb' 24 8) ++ sbox (x.extractLsb' 16 8) ++ sbox (x.extractLsb' 8 8) ++
    sbox (x.extractLsb' 0 8)

/-- RotWord, the first byte of a word being its lowest. -/
def rotWord (x : U32) : U32 := x.rotateRight 8

/-- The instruction as it is defined: four words of a buffer for the source and the round
constant. -/
def assistWords (s : Buf) (rcon : U8) : Buf := packU32 fun k =>
  match k with
  | 0 => subWord (laneU32 s 1)
  | 1 => rotWord (subWord (laneU32 s 1)) ^^^ rcon.setWidth 32
  | 2 => subWord (laneU32 s 3)
  | _ => rotWord (subWord (laneU32 s 3)) ^^^ rcon.setWidth 32

/-- A word of the next round key: the word before it, which for the first is the word `t`, added to
the word of the last key. -/
def nextWord (t : U32) (w : Nat → U32) : Nat → U32
  | 0 => w 0 ^^^ t
  | k + 1 => w (k + 1) ^^^ nextWord t w k

/-- The next round key from an instruction for the words of the expansion, which takes the highest
one. -/
def nextKey (assist : Buf → U8 → Buf) (key : Buf) (rcon : U8) : Buf :=
  packU32 (nextWord (laneU32 (assist key rcon) 3) (laneU32 key))

/-- The round keys, one for each constant. -/
def roundKeys (assist : Buf → U8 → Buf) : List U8 → Buf → List Buf
  | [], _ => []
  | rcon :: rcons, key =>
    nextKey assist key rcon :: roundKeys assist rcons (nextKey assist key rcon)

/-- The constants of AES-128. -/
def rcons128 : List U8 := [0x01, 0x02, 0x04, 0x08, 0x10, 0x20, 0x40, 0x80, 0x1B, 0x36]

/-! ### The instruction -/

/-- The four words. -/
def AssistLaw (s : Buf) (rcon : U8) (r : Buf) : Prop :=
  ∀ k < 4, laneU32 r k = laneU32 (assistWords s rcon) k

theorem sbox_ne_self (b : U8) : sbox b ≠ b := by
  revert b
  decide +kernel

theorem subWord_bytes (b₃ b₂ b₁ b₀ : U8) :
    subWord (b₃ ++ b₂ ++ b₁ ++ b₀) = sbox b₃ ++ sbox b₂ ++ sbox b₁ ++ sbox b₀ := by
  have hbyte (k : Nat) (hk : k < 4) : (b₃ ++ b₂ ++ b₁ ++ b₀ : U32).extractLsb' (8 * k) 8 =
      if k = 0 then b₀ else if k = 1 then b₁ else if k = 2 then b₂ else b₃ := by
    apply BitVec.eq_of_getLsbD_eq
    intro n hn
    simp only [BitVec.getLsbD_extractLsb', BitVec.getLsbD_append]
    grind
  have h₀ := hbyte 0 (by decide)
  have h₁ := hbyte 1 (by decide)
  have h₂ := hbyte 2 (by decide)
  have h₃ := hbyte 3 (by decide)
  simp only [Nat.reduceMul, Nat.reduceEqDiff, OfNat.ofNat_ne_zero, OfNat.ofNat_ne_one, if_true,
    if_false, one_ne_zero] at h₀ h₁ h₂ h₃
  rw [subWord, h₀, h₁, h₂, h₃]

theorem rotWord_bytes (b₃ b₂ b₁ b₀ : U8) :
    rotWord (b₃ ++ b₂ ++ b₁ ++ b₀) = b₀ ++ b₃ ++ b₂ ++ b₁ := by
  apply BitVec.eq_of_getLsbD_eq
  intro n hn
  rw [rotWord, BitVec.getLsbD_rotateRight]
  simp only [BitVec.getLsbD_append]
  grind

theorem subWord_ne_self (x : U32) : subWord x ≠ x := by
  intro h
  apply sbox_ne_self (x.extractLsb' 0 8)
  have hlow : (subWord x).extractLsb' 0 8 = sbox (x.extractLsb' 0 8) := by
    apply BitVec.eq_of_getLsbD_eq
    intro n hn
    rw [BitVec.getLsbD_extractLsb', decide_eq_true hn, Bool.true_and, Nat.zero_add, subWord,
      BitVec.getLsbD_append, if_pos hn]
  rw [← hlow, h]

/-- A constant in the lowest byte of a word. -/
theorem setWidth_byte (b : U8) : b.setWidth 32 = (0 : U8) ++ (0 : U8) ++ (0 : U8) ++ b := by
  apply BitVec.eq_of_getLsbD_eq
  intro n hn
  rw [BitVec.getLsbD_setWidth, decide_eq_true hn, Bool.true_and, BitVec.getLsbD_append]
  by_cases hlow : n < 8
  · rw [if_pos hlow]
  · rw [if_neg hlow, BitVec.getLsbD_of_ge b n (by omega)]
    exact BitVec.getLsbD_zero.symm

theorem xor_bytes (a₃ a₂ a₁ a₀ b₃ b₂ b₁ b₀ : U8) :
    ((a₃ ++ a₂ ++ a₁ ++ a₀ : U32) ^^^ (b₃ ++ b₂ ++ b₁ ++ b₀ : U32)) =
      (a₃ ^^^ b₃) ++ (a₂ ^^^ b₂) ++ (a₁ ^^^ b₁) ++ (a₀ ^^^ b₀) := by
  have h : ((a₃ ++ a₂ ++ a₁ ++ a₀ : BitVec (8 + 8 + 8 + 8)) ^^^ (b₃ ++ b₂ ++ b₁ ++ b₀)) =
      (a₃ ^^^ b₃) ++ (a₂ ^^^ b₂) ++ (a₁ ^^^ b₁) ++ (a₀ ^^^ b₀) := by
    rw [BitVec.xor_append, BitVec.xor_append, BitVec.xor_append]
  exact h

/-- The word that the expansion takes keeps its source, and has the constant in its highest byte. -/
theorem aesKeygen_word3 (s : Buf) (rcon : U8) :
    laneU32 (aesKeygen s rcon) 3 = laneU32 s 3 ^^^ rotWord (subWord (laneU32 s 3)) ^^^
      (rcon ++ (0 : U8) ++ (0 : U8) ++ (0 : U8)) := by
  have hsource : laneU32 s 3 = s 15 ++ s 14 ++ s 13 ++ s 12 := rfl
  have hresult : laneU32 (aesKeygen s rcon) 3 =
      (s 15 ^^^ sbox (s 12) ^^^ rcon) ++ (s 14 ^^^ sbox (s 15)) ++ (s 13 ^^^ sbox (s 14)) ++
        (s 12 ^^^ sbox (s 13)) := rfl
  have hzero (b : U8) : b ^^^ 0 = b := BitVec.xor_zero
  rw [hsource, subWord_bytes, rotWord_bytes, hresult, xor_bytes, xor_bytes, hzero, hzero, hzero]

/-- That word is the one defined for a source with the constant at both ends. -/
theorem aesKeygen_word3_iff (s : Buf) (rcon : U8) :
    laneU32 (aesKeygen s rcon) 3 = laneU32 (assistWords s rcon) 3 ↔
      laneU32 s 3 = rcon ++ (0 : U8) ++ (0 : U8) ++ rcon := by
  have hdefined : laneU32 (assistWords s rcon) 3 =
      rotWord (subWord (laneU32 s 3)) ^^^ rcon.setWidth 32 := laneU32_packU32 _ 3
  have hends : (rcon ++ (0 : U8) ++ (0 : U8) ++ (0 : U8)) ^^^ rcon.setWidth 32 =
      rcon ++ (0 : U8) ++ (0 : U8) ++ rcon := by
    have hzero (b : U8) : b ^^^ 0 = b := BitVec.xor_zero
    have hzero' (b : U8) : 0 ^^^ b = b := BitVec.zero_xor
    rw [setWidth_byte, xor_bytes, hzero, hzero, hzero']
  rw [aesKeygen_word3, hdefined, ← hends]
  generalize laneU32 s 3 = x
  generalize (rcon ++ (0 : U8) ++ (0 : U8) ++ (0 : U8) : U32) = high
  generalize rcon.setWidth 32 = low
  rw [BitVec.xor_comm x, BitVec.xor_assoc, BitVec.xor_right_inj]
  constructor
  · intro h
    rw [← h, BitVec.xor_comm x, ← BitVec.xor_assoc, BitVec.xor_self, BitVec.zero_xor]
  · intro h
    rw [h, BitVec.xor_comm high low, BitVec.xor_assoc, BitVec.xor_self, BitVec.xor_zero]

/-- On no source and with no constant does the instruction write the words it is defined to: the
words without rotation keep the source. The word that the key expansion takes is right only for a
source with the constant at both ends. -/
theorem keygen_assist_never (fp : HostFp) {i : Insn} (hop : i.handler = .opAeskeygen)
    (hdst : i.dst.kind = .xmm) {σ : Type} {at_ : Attached σ} {c : Cpu} {w w' : World σ} {s : Buf}
    (hread : i.ReadsVec i.src 16 at_ c w s w') :
    ∃ r, (i.run fp).EndsIn at_ c w (some ()) (c.setZmmBytes i.dst.reg 0 16 r) w' ∧
      ¬ AssistLaw s (imm8 i) r ∧
      (laneU32 r 3 = laneU32 (assistWords s (imm8 i)) 3 ↔
        laneU32 s 3 = imm8 i ++ (0 : U8) ++ (0 : U8) ++ imm8 i) := by
  have hrun : i.run fp = opAeskeygen i := by
    rw [Insn.run, hop]
    rfl
  refine ⟨aesKeygen s (imm8 i), ?_, fun hlaw => ?_, aesKeygen_word3_iff s _⟩
  · rw [hrun]
    exact xmmUnary_ends hdst hread sse4Io fun insn s => aesKeygen s (imm8 insn)
  · have hfirst : laneU32 s 1 = laneU32 (assistWords s (imm8 i)) 0 := hlaw 0 (by decide)
    have hdefined : laneU32 (assistWords s (imm8 i)) 0 = subWord (laneU32 s 1) :=
      laneU32_packU32 _ 0
    exact subWord_ne_self _ (hdefined.symm.trans hfirst.symm)

/-- `aeskeygenassist xmm2, xmm1, 1`. -/
def keygenRegisters : Insn :=
  { handler := .opAeskeygen, opSize := 16, immExtra := 1, dst := { kind := .xmm, reg := 2 }
    src := { kind := .xmm, reg := 1 } }

theorem keygen_assist_never_registers : ∃ r,
    (keygenRegisters.run default).EndsIn (⟨none, none, [], []⟩ : Attached Unit) {} { mem := () }
      (some ()) (({} : Cpu).setZmmBytes 2 0 16 r) { mem := () } ∧
    ¬ AssistLaw (fun _ => 0) 1 r := by
  have hread : keygenRegisters.ReadsVec keygenRegisters.src 16
      (⟨none, none, [], []⟩ : Attached Unit) {} { mem := () } (fun _ => 0) { mem := () } :=
    .inl ⟨rfl, rfl, rfl⟩
  obtain ⟨r, hends, hlaw, _⟩ := keygen_assist_never default (i := keygenRegisters) rfl rfl hread
  exact ⟨r, hends, hlaw⟩

/-- The zero key: neither the instruction's words nor the round keys made with it are those of the
definition. -/
theorem keygen_assist_zero_key :
    (keygenRegisters.run default).EndsIn (⟨none, none, [], []⟩ : Attached Unit) {} { mem := () }
      (some ()) (({} : Cpu).setZmmBytes 2 0 16 (aesKeygen (fun _ => 0) 1)) { mem := () } ∧
    laneU32 (aesKeygen (fun _ => 0) 1) 0 = 0 ∧
    laneU32 (assistWords (fun _ => 0) 1) 0 = 0x63636363 ∧
    (roundKeys aesKeygen rcons128 fun _ => 0).head?.map (laneU32 · 0) = some 0x62636363 ∧
    (roundKeys assistWords rcons128 fun _ => 0).head?.map (laneU32 · 0) = some 0x63636362 := by
  refine ⟨⟨_, rfl⟩, ?_, ?_, ?_, ?_⟩
  · decide
  · decide
  · decide
  · decide

end PicoCpu
