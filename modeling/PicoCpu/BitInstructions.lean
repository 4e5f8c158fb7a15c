import PicoCpu.BitCounts

/-!
The bit counting and field instructions as they run: results, defined flags and host shifts. Only
RORX shifts a host word by its whole width.
-/

namespace PicoCpu

open H Proc Handlers SetBits ShiftCounts

/-! ### Flags -/

/-- The flags that an instruction defines, with their values. -/
structure DefinedFlags where
  cf : Option Bool := none
  pf : Option Bool := none
  af : Option Bool := none
  zf : Option Bool := none
  sf : Option Bool := none
  of : Option Bool := none

structure DefinedFlags.Holds (d : DefinedFlags) (a : ArithFlags) : Prop where
  cf : ∀ b ∈ d.cf, a.cf = b
  pf : ∀ b ∈ d.pf, a.pf = b
  af : ∀ b ∈ d.af, a.af = b
  zf : ∀ b ∈ d.zf, a.zf = b
  sf : ∀ b ∈ d.sf, a.sf = b
  of : ∀ b ∈ d.of, a.of = b

namespace Cpu

theorem arith_setZf (c : Cpu) (v : Bool) : (c.setZf v).arith = { c.arith with zf := v } := by
  rw [arith_eq, setZf, syncBits_setFlag, arithFlags_withBit_zf, arithFlags_syncFlags, arith_eq]

theorem arith_setSf (c : Cpu) (v : Bool) : (c.setSf v).arith = { c.arith with sf := v } := by
  rw [arith_eq, setSf, syncBits_setFlag, arithFlags_withBit_sf, arithFlags_syncFlags, arith_eq]

theorem arith_setPf (c : Cpu) (v : Bool) : (c.setPf v).arith = { c.arith with pf := v } := by
  rw [arith_eq, setPf, syncBits_setFlag, arithFlags_withBit_pf, arithFlags_syncFlags, arith_eq]

theorem arith_setAf (c : Cpu) (v : Bool) : (c.setAf v).arith = { c.arith with af := v } := by
  rw [arith_eq, setAf, syncBits_setFlag, arithFlags_withBit_af, arithFlags_syncFlags, arith_eq]

theorem unflagged_setFlag (c : Cpu) (mask : U64) (v : Bool) :
    (c.setFlag mask v).unflagged = c.unflagged := by
  have h : (c.setFlag mask v).unflagged = c.syncFlags.unflagged := rfl
  rw [h, unflagged_syncFlags]

/-- A register write has nothing to do with the flags. -/
theorem unflagged_writeGpr {size : Nat} (hsize : IsOpSize size) (c : Cpu) (reg : Nat) (v : U64) :
    (c.writeGpr reg size v).unflagged = c.unflagged.writeGpr reg size v := by
  rw [writeGpr_eq _ _ hsize, writeGpr_eq _ _ hsize]
  rfl

end Cpu

theorem arith_bmiFlags (cf zf sf : Bool) (c : Cpu) : (bmiFlags cf zf sf c).arith =
    { cf := cf, pf := false, af := false, zf := zf, sf := sf, of := false } := by
  rw [bmiFlags, Cpu.arith_setAf, Cpu.arith_setPf, Cpu.arith_setOf, Cpu.arith_setSf, Cpu.arith_setZf,
    Cpu.arith_setCf]

theorem unflagged_bmiFlags (cf zf sf : Bool) (c : Cpu) :
    (bmiFlags cf zf sf c).unflagged = c.unflagged := by
  rw [bmiFlags, Cpu.setAf, Cpu.unflagged_setFlag, Cpu.setPf, Cpu.unflagged_setFlag, Cpu.setOf,
    Cpu.unflagged_setFlag, Cpu.setSf, Cpu.unflagged_setFlag, Cpu.setZf, Cpu.unflagged_setFlag,
    Cpu.setCf, Cpu.unflagged_setFlag, Cpu.unflagged_syncFlags]

theorem arith_stashLogic (size : Nat) (r : U64) (c : Cpu) : (c.stashLogic size r).arith =
    { cf := false, pf := parity8 ((r &&& maskFor size).setWidth 8), af := false
      zf := r &&& maskFor size == 0, sf := r &&& maskFor size &&& signMask size != 0
      of := false } := by
  have hbits : (c.stashLogic size r).syncBits = computeLogic size r := rfl
  rw [Cpu.arith_eq, hbits, computeLogic, arithFlags_applyZsp, arithFlags_alwaysOne]

/-! ### The field instructions -/

namespace FieldOp

/-- The flags defined by the instruction's operands and its result. -/
def flags (op : FieldOp) {n : Nat} (s v r : BitVec n) : DefinedFlags :=
  match op with
  | andn => { cf := some false, zf := some (decide (r = 0)), sf := some r.msb, of := some false }
  | bextr => { cf := some false, zf := some (decide (r = 0)), of := some false }
  | blsi =>
    { cf := some (!decide (s = 0)), zf := some (decide (r = 0)), sf := some r.msb, of := some false }
  | blsr =>
    { cf := some (decide (s = 0)), zf := some (decide (r = 0)), sf := some r.msb, of := some false }
  | blsmsk => { cf := some (decide (s = 0)), zf := some false, sf := some r.msb, of := some false }
  | bzhi =>
    { cf := some (decide (n ≤ v.toNat % 256)), zf := some (decide (r = 0)), sf := some r.msb
      of := some false }
  | rorx | sarx | shlx | shrx => {}

/-- The shifts and the rotation leave every flag as it was. -/
def flagless : FieldOp → Bool
  | rorx | sarx | shlx | shrx => true
  | _ => false

/-- What the handlers do to the flags. -/
def setFlags (op : FieldOp) (insn : Insn) (src vvvv r : U64) (c : Cpu) : Cpu :=
  match op with
  | andn => c.stashLogic insn.opSize r
  | bextr => bmiFlags false (r == 0) false c
  | blsi => bmiFlags (src != 0) (r == 0) (signOf insn r) c
  | blsr => bmiFlags (src == 0) (r == 0) (signOf insn r) c
  | blsmsk => bmiFlags (src == 0) false (signOf insn (src ^^^ (src - 1))) c
  | bzhi =>
    bmiFlags (decide (insn.opSize * 8 ≤ bzhiIndex vvvv)) (r == 0) (signOf insn r) c
  | rorx | sarx | shlx | shrx => c

theorem run_eq (fp : HostFp) (op : FieldOp) {i : Insn} (hop : i.handler = op.handler) :
    i.run fp = bmiOp (fun insn => op.value insn.opSize insn.immExtra) op.setFlags i := by
  cases op with
  | andn => rw [Insn.run, hop]; rfl
  | bextr => rw [Insn.run, hop]; rfl
  | blsi => rw [Insn.run, hop]; rfl
  | blsr => rw [Insn.run, hop]; rfl
  | blsmsk => rw [Insn.run, hop]; rfl
  | bzhi => rw [Insn.run, hop]; rfl
  | rorx => rw [Insn.run, hop]; rfl
  | sarx => rw [Insn.run, hop]; rfl
  | shlx => rw [Insn.run, hop]; rfl
  | shrx => rw [Insn.run, hop]; rfl

/-- The instruction's result is in its destination, its flags are set, and nothing else has
changed. -/
def Law (op : FieldOp) (i : Insn) (s v : BitVec (8 * i.opSize)) (c c' : Cpu) : Prop :=
  ∃ r : BitVec (8 * i.opSize),
    (∀ j < 8 * i.opSize, r.getLsbD j = op.bit i.immExtra.toNat s v j) ∧
    c'.unflagged = (c.writeGpr i.dst.reg i.opSize (r.setWidth 64)).unflagged ∧
    (op.flags s v r).Holds c'.arith ∧ (op.flagless = true → c'.arith = c.arith)

section Flags

variable {i : Insn} (hsize : i.opSize = 4 ∨ i.opSize = 8) (s v r : BitVec (8 * i.opSize)) (c : Cpu)

theorem unflagged_setFlags (op : FieldOp) (src vvvv r : U64) :
    (op.setFlags i src vvvv r c).unflagged = c.unflagged := by
  cases op with
  | andn => rfl
  | bextr => exact unflagged_bmiFlags ..
  | blsi => exact unflagged_bmiFlags ..
  | blsr => exact unflagged_bmiFlags ..
  | blsmsk => exact unflagged_bmiFlags ..
  | bzhi => exact unflagged_bmiFlags ..
  | rorx => rfl
  | sarx => rfl
  | shlx => rfl
  | shrx => rfl

include hsize

/-- The flags are those defined for the result, which for BLSMSK the handler takes before it is cut
to the operand. -/
theorem holds_setFlags (op : FieldOp) (hr : r.setWidth 64 =
    op.value i.opSize i.immExtra (s.setWidth 64) (v.setWidth 64)) :
    (op.flags s v r).Holds
      (op.setFlags i (s.setWidth 64) (v.setWidth 64) (r.setWidth 64) c).arith := by
  have hop := isOpSize_of_wide hsize
  have hle := bits_le hop
  have hzero (x : BitVec (8 * i.opSize)) : (x.setWidth 64 == 0) = decide (x = 0) :=
    word_beq_zero hle x
  have hsign : signOf i (r.setWidth 64) = r.msb := and_signMask_word hop r
  have hindex : decide (i.opSize * 8 ≤ bzhiIndex (v.setWidth 64)) =
      decide (8 * i.opSize ≤ v.toNat % 256) := by
    rw [bzhiIndex, and_byte_toNat, toNat_word v hle, Nat.mul_comm]
  have hnone : ∀ a : ArithFlags, ({} : DefinedFlags).Holds a := by
    intro a
    constructor <;> intro b hb <;> cases hb
  cases op with
  | andn =>
      have hmask : r.setWidth 64 &&& maskFor i.opSize &&& signMask i.opSize =
          r.setWidth 64 &&& signMask i.opSize := by rw [setWidth_masked hop]
      have hmsb : (r.setWidth 64 &&& signMask i.opSize != 0) = r.msb := and_signMask_word hop r
      rw [setFlags, arith_stashLogic, hmask, hmsb, setWidth_masked hop, hzero]
      constructor <;> intro b hb <;> cases hb <;> rfl
  | bextr =>
      rw [setFlags, arith_bmiFlags, hzero]
      constructor <;> intro b hb <;> cases hb <;> rfl
  | blsi =>
      have hsource : (s.setWidth 64 != 0) = !decide (s = 0) := by rw [bne, hzero]
      rw [setFlags, arith_bmiFlags, hzero, hsource, hsign]
      constructor <;> intro b hb <;> cases hb <;> rfl
  | blsr =>
      rw [setFlags, arith_bmiFlags, hzero, hzero, hsign]
      constructor <;> intro b hb <;> cases hb <;> rfl
  | blsmsk =>
      have hcut : signOf i (s.setWidth 64 ^^^ (s.setWidth 64 - 1)) = r.msb := by
        have hpos := bits_pos hop
        have hmasked : r.setWidth 64 =
            (s.setWidth 64 ^^^ (s.setWidth 64 - 1)) &&& maskFor i.opSize := hr
        rw [← hsign, signOf, signOf, hmasked, and_signMask_bne hop, and_signMask_bne hop,
          getLsbD_and_maskFor i.opSize hop,
          decide_eq_true (show 8 * i.opSize - 1 < 8 * i.opSize by omega), Bool.and_true]
      rw [setFlags, arith_bmiFlags, hzero, hcut]
      constructor <;> intro b hb <;> cases hb <;> rfl
  | bzhi =>
      rw [setFlags, arith_bmiFlags, hzero, hsign, hindex]
      constructor <;> intro b hb <;> cases hb <;> rfl
  | rorx => exact hnone _
  | sarx => exact hnone _
  | shlx => exact hnone _
  | shrx => exact hnone _

end Flags

/-! ### Host shifts -/

/-- The formulas with the shifts of the host, which the source makes in 64 bits. The mask of the
sign bit is a shift as well. -/
def host (op : FieldOp) (size : Nat) (imm src vvvv : U64) : Option U64 :=
  match op with
  | andn => some (~~~vvvv &&& src &&& maskFor size)
  | bextr => do
    let high ← hostShr vvvv 8
    let start := (vvvv &&& 0xFF).toNat
    let len := (high &&& 0xFF).toNat
    if start < size * 8 then
      let effLen := if size * 8 - start < len then size * 8 - start else len
      let mask ← if 64 ≤ effLen then some (~~~0#64) else (hostShl 1#64 effLen).map (· - 1)
      let field ← hostShr src start
      pure (field &&& mask)
    else pure 0
  | blsi => do
    let _ ← hostShl 1#64 (signBitPos size)
    pure (src &&& (0 - src))
  | blsr => do
    let _ ← hostShl 1#64 (signBitPos size)
    pure (src &&& (src - 1))
  | blsmsk => do
    let _ ← hostShl 1#64 (signBitPos size)
    pure ((src ^^^ (src - 1)) &&& maskFor size)
  | bzhi => do
    let _ ← hostShl 1#64 (signBitPos size)
    if size * 8 ≤ bzhiIndex vvvv then pure (src &&& maskFor size)
    else do
      let bit ← hostShl 1#64 (bzhiIndex vvvv)
      pure (src &&& (bit - 1))
  | rorx => do
    let n := (imm &&& BitVec.ofNat 64 (size * 8 - 1)).toNat
    let low ← hostShr src n
    let high ← hostShl src (size * 8 - n)
    pure ((low ||| high) &&& maskFor size)
  | sarx => do
    let signBit ← hostShl 1#64 (signBitPos size)
    let extended := if src &&& signBit ≠ 0 then (src &&& maskFor size) ||| ~~~(maskFor size)
      else src &&& maskFor size
    let shifted ← hostSar extended (maskedCount size (vvvv.setWidth 8))
    pure (shifted &&& maskFor size)
  | shlx => do
    let shifted ← hostShl src (maskedCount size (vvvv.setWidth 8))
    pure (shifted &&& maskFor size)
  | shrx => hostShr (src &&& maskFor size) (maskedCount size (vvvv.setWidth 8))

/-- RORX of a quadword by a multiple of its width. -/
def ShiftsByWidth (op : FieldOp) (size : Nat) (imm : U64) : Prop :=
  op = .rorx ∧ size = 8 ∧ imm.toNat % 64 = 0

instance (op : FieldOp) (size : Nat) (imm : U64) : Decidable (op.ShiftsByWidth size imm) :=
  inferInstanceAs (Decidable (op = .rorx ∧ size = 8 ∧ imm.toNat % 64 = 0))

section Host

variable {size : Nat} (hsize : size = 4 ∨ size = 8) (imm src vvvv : U64)
include hsize

theorem signBitPos_lt : signBitPos size < 64 := by
  rcases hsize with rfl | rfl <;> decide

theorem bextr_host : bextr.host size imm src vvvv = some (bextr.value size imm src vvvv) := by
  rw [host, hostShr_of_lt _ (by decide)]
  simp only [Option.bind_eq_bind, Option.bind_some, value, Handlers.bextr, Option.pure_def]
  split
  next hin =>
    have hfield : hostShr src (vvvv &&& 0xFF).toNat = some (src >>> (vvvv &&& 0xFF).toNat) :=
      hostShr_of_lt src (by omega)
    rw [hfield]
    generalize (if size * 8 - (vvvv &&& 0xFF).toNat < (vvvv >>> 8 &&& 0xFF).toNat
      then size * 8 - (vvvv &&& 0xFF).toNat else (vvvv >>> 8 &&& 0xFF).toNat) = effLen
    by_cases hwide : 64 ≤ effLen
    · rw [if_pos hwide, if_pos hwide]
      rfl
    · rw [if_neg hwide, if_neg hwide, hostShl_of_lt _ (by omega)]
      rfl
  next => rfl

theorem bzhi_host : bzhi.host size imm src vvvv = some (bzhi.value size imm src vvvv) := by
  rw [host, hostShl_of_lt _ (signBitPos_lt hsize)]
  simp only [Option.bind_eq_bind, Option.bind_some, value, Option.pure_def]
  by_cases hwide : size * 8 ≤ bzhiIndex vvvv
  · rw [if_pos hwide, if_pos hwide]
  · rw [if_neg hwide, if_neg hwide, hostShl_of_lt _ (by omega)]
    rfl

/-- The rotation shifts left by the width when its count is zero. -/
theorem rorx_host : rorx.host size imm src vvvv =
    if size = 8 ∧ imm.toNat % 64 = 0 then none else some (rorx.value size imm src vvvv) := by
  have hpos := bits_pos (isOpSize_of_wide hsize)
  have hlt : imm.toNat % (8 * size) < 8 * size := Nat.mod_lt _ hpos
  rw [host, value, rorxCount_eq hsize]
  by_cases hfull : size = 8 ∧ imm.toNat % 64 = 0
  · obtain ⟨rfl, hzero⟩ := hfull
    rw [if_pos ⟨rfl, hzero⟩]
    have hcount : imm.toNat % (8 * 8) = 0 := hzero
    rw [hcount, hostShr_of_lt _ (by decide), hostShl_of_ge _ (by decide)]
    rfl
  · have hnarrow : size * 8 - imm.toNat % (8 * size) < 64 := by
      rcases hsize with rfl | rfl
      · omega
      · omega
    rw [if_neg hfull, hostShr_of_lt _ (by omega), hostShl_of_lt _ hnarrow]
    rfl

/-- Every formula is what the host computes, but for the one shift by the width. -/
theorem host_eq (op : FieldOp) : op.host size imm src vvvv =
    if op.ShiftsByWidth size imm then none else some (op.value size imm src vvvv) := by
  have hcount : maskedCount size (vvvv.setWidth 8) < 64 := maskedCount_lt _ _
  have hsign := signBitPos_lt hsize
  have hother {op : FieldOp} (hne : op ≠ .rorx) : ¬ op.ShiftsByWidth size imm := fun h => hne h.1
  cases op with
  | andn => rw [if_neg (hother (by decide))]; rfl
  | bextr => rw [if_neg (hother (by decide)), bextr_host hsize]
  | blsi => rw [if_neg (hother (by decide)), host, hostShl_of_lt _ hsign]; rfl
  | blsr => rw [if_neg (hother (by decide)), host, hostShl_of_lt _ hsign]; rfl
  | blsmsk => rw [if_neg (hother (by decide)), host, hostShl_of_lt _ hsign]; rfl
  | bzhi => rw [if_neg (hother (by decide)), bzhi_host hsize]
  | rorx =>
      have hwidth : rorx.ShiftsByWidth size imm ↔ size = 8 ∧ imm.toNat % 64 = 0 :=
        ⟨fun h => h.2, fun h => ⟨rfl, h⟩⟩
      rw [rorx_host hsize]
      simp only [hwidth]
  | sarx =>
      rw [if_neg (hother (by decide)), host, hostShl_of_lt _ hsign]
      simp only [Option.bind_eq_bind, Option.bind_some]
      rw [hostSar_of_lt _ hcount]
      rfl
  | shlx => rw [if_neg (hother (by decide)), host, hostShl_of_lt _ hcount]; rfl
  | shrx => rw [if_neg (hother (by decide)), host, hostShr_of_lt _ hcount]; rfl

end Host

section Runs

variable {σ : Type} {at_ : Attached σ} {c c₁ : Cpu} {w w₁ : World σ} {i : Insn} {a : U64}

/-- The state a handler ends in has the instruction's result and flags. -/
theorem law_setFlags (op : FieldOp) (hsize : i.opSize = 4 ∨ i.opSize = 8)
    (s v : BitVec (8 * i.opSize)) (c : Cpu) {x : U64}
    (hx : x = op.value i.opSize i.immExtra (s.setWidth 64) (v.setWidth 64)) :
    op.Law i s v c (op.setFlags i (s.setWidth 64) (v.setWidth 64) x
      (c.writeGpr i.dst.reg i.opSize x)) := by
  have hopsize := isOpSize_of_wide hsize
  have hle := bits_le hopsize
  have hbits (j : Nat) (hj : j < 64) :
      x.getLsbD j = (decide (j < 8 * i.opSize) && op.bit i.immExtra.toNat s v j) := by
    rw [hx]
    exact value_bit hsize s v i.immExtra op hj
  have hword : (x.setWidth (8 * i.opSize)).setWidth 64 = x := by
    apply BitVec.eq_of_getLsbD_eq
    intro j hj
    rw [getLsbD_word _ hj, BitVec.getLsbD_setWidth, hbits j hj, ← Bool.and_assoc, Bool.and_self]
  refine ⟨x.setWidth (8 * i.opSize), fun j hj => ?_, ?_, ?_, fun hflagless => ?_⟩
  · rw [BitVec.getLsbD_setWidth, hbits j (by omega), decide_eq_true hj, Bool.true_and,
      Bool.true_and]
  · rw [hword]
    exact unflagged_setFlags _ op _ _ _
  · have hholds := holds_setFlags hsize s v (x.setWidth (8 * i.opSize))
      (c.writeGpr i.dst.reg i.opSize x) op (hword.trans hx)
    rw [hword] at hholds
    exact hholds
  · have hsame : op.setFlags i (s.setWidth 64) (v.setWidth 64) x
        (c.writeGpr i.dst.reg i.opSize x) = c.writeGpr i.dst.reg i.opSize x := by
      cases op with
      | rorx => rfl
      | sarx => rfl
      | shlx => rfl
      | shrx => rfl
      | andn => cases hflagless
      | bextr => cases hflagless
      | blsi => cases hflagless
      | blsr => cases hflagless
      | blsmsk => cases hflagless
      | bzhi => cases hflagless
    rw [hsame]
    exact Cpu.arith_writeGpr hopsize _ _ _

/-- The run of a field instruction. -/
theorem ends (fp : HostFp) {op : FieldOp} (hop : i.handler = op.handler)
    (hsize : i.opSize = 4 ∨ i.opSize = 8) (hdst : i.dst.kind = .reg) (hsrc : i.src.kind ≠ .rel)
    (hread : (readOperand i i.src i.opSize).EndsIn at_ c w (some a) c₁ w₁) :
    ∃ c', (i.run fp).EndsIn at_ c w (some ()) c' w₁ ∧
      op.Law i (a.setWidth (8 * i.opSize)) ((c₁.r i.dst.index).setWidth (8 * i.opSize)) c₁ c' := by
  have hopsize := isOpSize_of_wide hsize
  have hsource : (a.setWidth (8 * i.opSize)).setWidth 64 = a :=
    setWidth_of_masked hopsize (readOperand_masked hopsize hsrc hread)
  have hsecond : ((c₁.r i.dst.index).setWidth (8 * i.opSize)).setWidth 64 = readVvvv i c₁ := by
    apply BitVec.eq_of_getLsbD_eq
    intro j hj
    rw [getLsbD_word _ hj, readVvvv, BitVec.getLsbD_setWidth, getLsbD_and_maskFor i.opSize hopsize,
      Bool.and_comm]
  have hends : (bmiOp (fun insn => op.value insn.opSize insn.immExtra) op.setFlags i).EndsIn
      at_ c w (some ()) _ w₁ := bmiOp_ends hopsize hdst hread
  rw [← op.run_eq fp hop] at hends
  refine ⟨_, hends, ?_⟩
  have hlaw := law_setFlags op hsize (a.setWidth (8 * i.opSize))
    ((c₁.r i.dst.index).setWidth (8 * i.opSize)) c₁ rfl
  rw [hsource, hsecond] at hlaw
  exact hlaw

end Runs

end FieldOp

/-! ### The scans and counts -/

namespace CountOp

/-- The flags defined by the operand and the instruction's number. -/
def flags (op : CountOp) {n : Nat} (s : BitVec n) (r : Nat) : DefinedFlags :=
  match op with
  | bsf | bsr => { zf := some (decide (s = 0)) }
  | lzcnt | tzcnt => { cf := some (decide (s = 0)), zf := some (decide (r = 0)) }
  | popcnt =>
    { cf := some false, pf := some false, af := some false, zf := some (decide (s = 0))
      sf := some false, of := some false }

/-- The instruction's number is in its destination, its flags are set, and nothing else has changed;
a scan of zero only sets ZF. -/
def Law (op : CountOp) (i : Insn) (s : BitVec (8 * i.opSize)) (c c' : Cpu) : Prop :=
  if op.isScan = true ∧ s = 0 then c'.unflagged = c.unflagged ∧ c'.zf = true
  else ∃ r ≤ 8 * i.opSize, op.Counts s r ∧
    c'.unflagged = (c.writeGpr i.dst.reg i.opSize (BitVec.ofNat 64 r)).unflagged ∧
    (op.flags s r).Holds c'.arith

theorem arith_popcntFlags (width r : Nat) (c : Cpu) : (popcntFlags width r c).arith =
    { cf := false, pf := false, af := false, zf := r == 0, sf := false, of := false } := by
  rw [popcntFlags, Cpu.arith_setPf, Cpu.arith_setAf, Cpu.arith_setSf, Cpu.arith_setOf,
    Cpu.arith_setCf, Cpu.arith_setZf]

theorem arith_zeroCountFlags (width r : Nat) (c : Cpu) : (zeroCountFlags width r c).arith =
    { c.arith with cf := r == width, zf := r == 0 } := by
  rw [zeroCountFlags, Cpu.arith_setZf, Cpu.arith_setCf]

/-- What the counting handlers do to the flags. -/
def setFlags : CountOp → Nat → Nat → Cpu → Cpu
  | popcnt => popcntFlags
  | bsf | bsr | lzcnt | tzcnt => zeroCountFlags

theorem unflagged_setFlags (op : CountOp) (width r : Nat) (c : Cpu) :
    (op.setFlags width r c).unflagged = c.unflagged := by
  have hpop : (popcntFlags width r c).unflagged = c.unflagged := by
    rw [popcntFlags, Cpu.setPf, Cpu.unflagged_setFlag, Cpu.setAf, Cpu.unflagged_setFlag, Cpu.setSf,
      Cpu.unflagged_setFlag, Cpu.setOf, Cpu.unflagged_setFlag, Cpu.setCf, Cpu.unflagged_setFlag,
      Cpu.setZf, Cpu.unflagged_setFlag]
  have hzero : (zeroCountFlags width r c).unflagged = c.unflagged := by
    rw [zeroCountFlags, Cpu.setZf, Cpu.unflagged_setFlag, Cpu.setCf, Cpu.unflagged_setFlag]
  cases op with
  | popcnt => exact hpop
  | bsf => exact hzero
  | bsr => exact hzero
  | lzcnt => exact hzero
  | tzcnt => exact hzero

/-- A count is the width only of zero. -/
theorem beq_width {n : Nat} {s : BitVec n} {r : Nat} {op : CountOp}
    (hop : op = .lzcnt ∨ op = .tzcnt) (h : op.Counts s r) : (r == n) = decide (s = 0) := by
  have hzero : s = 0 → r = n → (r == n) = decide (s = 0) := by
    intro hs hr
    rw [hr, decide_eq_true hs, beq_self_eq_true]
  have hless : s ≠ 0 → r < n → (r == n) = decide (s = 0) := by
    intro hs hr
    rw [decide_eq_false hs, beq_eq_false_iff_ne]
    omega
  have hne {p : Nat} (hset : s.getLsbD p = true) : s ≠ 0 := by
    rintro rfl
    cases hset.symm.trans BitVec.getLsbD_zero
  rcases hop with rfl | rfl
  · rcases h with ⟨hs, hr⟩ | ⟨p, hp, hsum⟩
    · exact hzero hs hr
    · exact hless (hne hp.set) (by omega)
  · rcases h with ⟨hs, hr⟩ | hp
    · exact hzero hs hr
    · exact hless (hne hp.set) hp.lt

/-- A word has no set bits when it is zero. -/
theorem beq_zero_of_popcnt {n : Nat} {s : BitVec n} {r : Nat} (h : CountOp.popcnt.Counts s r) :
    (r == 0) = decide (s = 0) := by
  rw [show r = (setBits s).length from h, Bool.eq_iff_iff, beq_iff_eq, decide_eq_true_iff,
    List.length_eq_zero_iff]
  constructor
  · intro hnil
    by_contra hs
    obtain ⟨p, hp⟩ := exists_isLowest hs
    have hmem := mem_setBits.mpr hp.set
    rw [hnil] at hmem
    cases hmem
  · rintro rfl
    exact setBits_zero

theorem holds_setFlags {n : Nat} {s : BitVec n} {r : Nat} {op : CountOp}
    (hscan : op.isScan = false) (h : op.Counts s r) (c : Cpu) :
    (op.flags s r).Holds (op.setFlags n r c).arith := by
  have hzero : (r == 0) = decide (r = 0) := by rw [Bool.eq_iff_iff, beq_iff_eq, decide_eq_true_iff]
  cases op with
  | bsf => cases hscan
  | bsr => cases hscan
  | lzcnt =>
      rw [setFlags, arith_zeroCountFlags, beq_width (.inl rfl) h, hzero]
      constructor <;> intro b hb <;> cases hb <;> rfl
  | tzcnt =>
      rw [setFlags, arith_zeroCountFlags, beq_width (.inr rfl) h, hzero]
      constructor <;> intro b hb <;> cases hb <;> rfl
  | popcnt =>
      rw [setFlags, arith_popcntFlags, beq_zero_of_popcnt h]
      constructor <;> intro b hb <;> cases hb <;> rfl

section Runs

variable {σ : Type} {at_ : Attached σ} {c c₁ : Cpu} {w w₁ : World σ} {i : Insn} {a : U64}
  (hsize : IsOpSize i.opSize) (hdst : i.dst.kind = .reg)
  (hread : (readOperand i i.src i.opSize).EndsIn at_ c w (some a) c₁ w₁)
include hsize hdst hread

theorem bitCount_ends (f : Nat → U64 → Nat) (flags : Nat → Nat → Cpu → Cpu) :
    (bitCount f flags i).EndsIn at_ c w (some ())
      (flags (i.opSize * 8) (f (i.opSize * 8) (a &&& maskFor i.opSize))
        (c₁.writeGpr i.dst.reg i.opSize
          (BitVec.ofNat 64 (f (i.opSize * 8) (a &&& maskFor i.opSize)))).syncFlags) w₁ := by
  rw [bitCount, hread.bind_iff]
  exact (endsIn_attempt (writeOperand_of_reg hdst hsize _)).bind (endsIn_modify _)

theorem bitScan_ends (f : U64 → Nat → Nat) :
    (bitScan f i).EndsIn at_ c w (some ())
      (if a = 0 then c₁.syncFlags.setZf true
        else (c₁.syncFlags.writeGpr i.dst.reg i.opSize
          (BitVec.ofNat 64 (f a (i.opSize * 8)))).setZf false) w₁ := by
  rw [bitScan, hread.bind_iff, (endsIn_modify _).bind_iff]
  split
  next => exact endsIn_modify _
  next => exact (endsIn_attempt (writeOperand_of_reg hdst hsize _)).bind (endsIn_modify _)

/-- The run of a counting handler. -/
theorem count_ends {op : CountOp} (hscan : op.isScan = false) (hsrc : i.src.kind ≠ .rel)
    {p : H Unit} (hp : p = bitCount op.count op.setFlags i) :
    ∃ c', p.EndsIn at_ c w (some ()) c' w₁ ∧ op.Law i (a.setWidth (8 * i.opSize)) c₁ c' := by
  have hle := bits_le hsize
  have hmasked := readOperand_masked hsize hsrc hread
  have hword : (a.setWidth (8 * i.opSize)).setWidth 64 = a := setWidth_of_masked hsize hmasked
  have hnone : op.isScan = true → a.setWidth (8 * i.opSize) ≠ 0 := by
    rw [hscan]
    exact Bool.noConfusion
  have hcounts := counts_count hle (a.setWidth (8 * i.opSize)) op hnone
  have hcount := count_le hle (a.setWidth (8 * i.opSize)) op hnone
  rw [hword] at hcounts hcount
  have hends := bitCount_ends hsize hdst hread op.count op.setFlags
  rw [hmasked, Nat.mul_comm] at hends
  rw [hp]
  refine ⟨_, hends, ?_⟩
  rw [Law, if_neg (fun h => Bool.false_ne_true (hscan.symm.trans h.1))]
  refine ⟨_, hcount, hcounts, ?_, holds_setFlags hscan hcounts _⟩
  rw [op.unflagged_setFlags, Cpu.unflagged_syncFlags]

/-- The run of a scan. -/
theorem scan_ends {op : CountOp} (hscan : op.isScan = true) (hsrc : i.src.kind ≠ .rel)
    {p : H Unit} (hp : p = bitScan (fun v width => op.count width v) i) :
    ∃ c', p.EndsIn at_ c w (some ()) c' w₁ ∧ op.Law i (a.setWidth (8 * i.opSize)) c₁ c' := by
  have hle := bits_le hsize
  have hword : (a.setWidth (8 * i.opSize)).setWidth 64 = a :=
    setWidth_of_masked hsize (readOperand_masked hsize hsrc hread)
  have hzero : a.setWidth (8 * i.opSize) = 0 ↔ a = 0 := by
    rw [← decide_eq_decide, ← word_beq_zero hle, hword, Bool.eq_iff_iff, beq_iff_eq,
      decide_eq_true_iff]
  have hwidth : i.opSize * 8 = 8 * i.opSize := Nat.mul_comm ..
  have hends := bitScan_ends hsize hdst hread fun v width => op.count width v
  rw [hwidth] at hends
  rw [hp]
  refine ⟨_, hends, ?_⟩
  by_cases ha : a = 0
  · rw [Law, if_pos ⟨hscan, hzero.mpr ha⟩, if_pos ha]
    refine ⟨?_, ?_⟩
    · rw [Cpu.setZf, Cpu.unflagged_setFlag, Cpu.unflagged_syncFlags]
    · exact congrArg ArithFlags.zf (Cpu.arith_setZf _ true)
  · have hne : a.setWidth (8 * i.opSize) ≠ 0 := fun h => ha (hzero.mp h)
    have hcounts := counts_count hle (a.setWidth (8 * i.opSize)) op fun _ => hne
    have hcount := count_le hle (a.setWidth (8 * i.opSize)) op fun _ => hne
    rw [hword] at hcounts hcount
    rw [Law, if_neg (fun h => hne h.2), if_neg ha]
    refine ⟨_, hcount, hcounts, ?_, ?_⟩
    · rw [Cpu.setZf, Cpu.unflagged_setFlag]
      rw [Cpu.unflagged_writeGpr hsize, Cpu.unflagged_writeGpr hsize, Cpu.unflagged_syncFlags]
    · rw [Cpu.arith_setZf]
      cases op with
      | lzcnt => cases hscan
      | tzcnt => cases hscan
      | popcnt => cases hscan
      | bsf =>
          rw [flags, decide_eq_false hne]
          constructor <;> intro b hb <;> cases hb
          rfl
      | bsr =>
          rw [flags, decide_eq_false hne]
          constructor <;> intro b hb <;> cases hb
          rfl

end Runs

end CountOp

/-! ### The instructions -/

/-- A field instruction ends with its result and flags, and a counting one with its number and
flags. The host shifts of its path are defined, but for RORX of a quadword by a multiple of 64. -/
theorem bit_instructions_iff (fp : HostFp) {i : Insn} (hdst : i.dst.kind = .reg)
    (hsrc : i.src.kind ≠ .rel) {σ : Type} {at_ : Attached σ} {c c₁ : Cpu} {w w₁ : World σ} {a : U64}
    (hread : (readOperand i i.src i.opSize).EndsIn at_ c w (some a) c₁ w₁) :
    (∀ op : FieldOp, i.handler = op.handler → i.opSize = 4 ∨ i.opSize = 8 →
      (∃ c', (i.run fp).EndsIn at_ c w (some ()) c' w₁ ∧
        op.Law i (a.setWidth (8 * i.opSize)) ((c₁.r i.dst.index).setWidth (8 * i.opSize)) c₁ c') ∧
      ((∃ x, op.host i.opSize i.immExtra a (readVvvv i c₁) = some x) ↔
        ¬ op.ShiftsByWidth i.opSize i.immExtra) ∧
      ∀ x, op.host i.opSize i.immExtra a (readVvvv i c₁) = some x →
        x = op.value i.opSize i.immExtra a (readVvvv i c₁)) ∧
    ∀ op : CountOp, i.handler = op.handler → IsOpSize i.opSize →
      (∃ c', (i.run fp).EndsIn at_ c w (some ()) c' w₁ ∧
        op.Law i (a.setWidth (8 * i.opSize)) c₁ c') ∧
      op.host (8 * i.opSize) a = some (op.count (8 * i.opSize) a) := by
  constructor
  · intro op hop hsize
    refine ⟨op.ends fp hop hsize hdst hsrc hread, ?_, fun x hx => ?_⟩
    · rw [FieldOp.host_eq hsize]
      split
      next hfull =>
        constructor
        · intro h
          obtain ⟨_, hx⟩ := h
          cases hx
        · intro h
          exact absurd hfull h
      next hnot => exact ⟨fun _ => hnot, fun _ => ⟨_, rfl⟩⟩
    · rw [FieldOp.host_eq hsize] at hx
      split at hx
      next => cases hx
      next => exact (Option.some.inj hx).symm
  · intro op hop hsize
    have hmasked := readOperand_masked hsize hsrc hread
    refine ⟨?_, op.host_eq (bits_le hsize) fun j hj => ?_⟩
    · cases op with
      | bsf => exact CountOp.scan_ends hsize hdst hread rfl hsrc (by rw [Insn.run, hop]; rfl)
      | bsr => exact CountOp.scan_ends hsize hdst hread rfl hsrc (by rw [Insn.run, hop]; rfl)
      | lzcnt => exact CountOp.count_ends hsize hdst hread rfl hsrc (by rw [Insn.run, hop]; rfl)
      | tzcnt => exact CountOp.count_ends hsize hdst hread rfl hsrc (by rw [Insn.run, hop]; rfl)
      | popcnt => exact CountOp.count_ends hsize hdst hread rfl hsrc (by rw [Insn.run, hop]; rfl)
    · rw [← hmasked, getLsbD_and_maskFor i.opSize hsize, decide_eq_false (Nat.not_lt.mpr hj),
        Bool.and_false]

/-- `rorx rax, rcx, imm`. -/
def rorxRcx (imm : U64) : Insn :=
  { handler := .opRorx, opSize := 8, immExtra := imm, dst := { kind := .reg, reg := Reg.rax }
    src := { kind := .reg, reg := Reg.rcx } }

/-- One in RCX. -/
def oneInRcx : Cpu := ({} : Cpu).setR Reg.rcx 1

theorem bit_instructions_iff_rorx :
    ((∃ x, FieldOp.rorx.host 8 4 1 0 = some x) ↔ ¬ FieldOp.rorx.ShiftsByWidth 8 4) ∧
    ∃ c', ((rorxRcx 4).run default).EndsIn AluOp.bare oneInRcx { mem := () } (some ()) c'
      { mem := () } ∧
    FieldOp.rorx.Law (rorxRcx 4) 1 0 oneInRcx c' := by
  have hread : (readOperand (rorxRcx 4) (rorxRcx 4).src 8).EndsIn AluOp.bare oneInRcx
      { mem := () } (some 1) oneInRcx { mem := () } := readOperand_of_reg rfl
  obtain ⟨hfield, _⟩ := bit_instructions_iff default (i := rorxRcx 4) rfl (by decide) hread
  obtain ⟨hends, hhost, _⟩ := hfield .rorx rfl (.inr rfl)
  exact ⟨hhost, hends⟩

/-- With the count 0 the handler shifts left by 64. -/
theorem rorx_shifts_by_width :
    (∃ c', ((rorxRcx 0).run default).EndsIn AluOp.bare oneInRcx { mem := () } (some ()) c'
      { mem := () }) ∧
    FieldOp.rorx.host (rorxRcx 0).opSize (rorxRcx 0).immExtra (oneInRcx.r Reg.rcx)
      (readVvvv (rorxRcx 0) oneInRcx) = none := by
  exact ⟨⟨_, _, rfl⟩, by decide⟩

end PicoCpu
