import PicoCpu.RegisterForms
import Mathlib.Data.BitVec
import Mathlib.Data.Fintype.EquivFin

/-!
The AES instructions. The S-boxes and the row shifts of encryption and decryption undo each other;
`inv_mix_columns` undoes `mix_columns` only on columns whose bytes two rows apart are equal.
-/

namespace PicoCpu

open H Proc Handlers

namespace Aes

/-! ### Bytes -/

/-- The term `xtime` folds back is `0x1B` once for each operand with its top bit set. -/
theorem xtime_xor (a b : U8) : xtime (a ^^^ b) = xtime a ^^^ xtime b := by
  have hmsb (v : U8) : xtime v = (v <<< 1) ^^^ (if v.msb then 0x1B#8 else 0#8) := by
    revert v
    decide +kernel
  have hfold : (if (a ^^^ b).msb then 0x1B#8 else 0#8) =
      (if a.msb then 0x1B#8 else 0#8) ^^^ (if b.msb then 0x1B#8 else 0#8) := by
    rw [BitVec.msb_xor]
    cases a.msb with
    | false => cases b.msb <;> rfl
    | true => cases b.msb <;> rfl
  rw [hmsb, hmsb, hmsb, BitVec.shiftLeft_xor_distrib, hfold]
  ac_rfl

theorem xtime_eq_zero {a : U8} (h : xtime a = 0#8) : a = 0#8 := by
  revert a
  decide +kernel

theorem sbox_invSbox (b : U8) : sbox (invSbox b) = b := by
  revert b
  decide +kernel

/-- Every byte is the inverse substitute of one, since no two have the same. -/
theorem invSbox_sbox (b : U8) : invSbox (sbox b) = b := by
  have hfinite : Finite U8 := Finite.of_equiv _ BitVec.equivFin.toEquiv.symm
  have hinjective : Function.Injective invSbox := Function.LeftInverse.injective sbox_invSbox
  obtain ⟨a, rfl⟩ := Finite.surjective_of_injective hinjective b
  rw [sbox_invSbox]

theorem xor_cancel (a b : U8) : a ^^^ (a ^^^ b) = b := by
  rw [← BitVec.xor_assoc, BitVec.xor_self, BitVec.zero_xor]

theorem eq_of_xor_eq_zero {a b : U8} (h : a ^^^ b = 0#8) : a = b := by
  have hcancel := xor_cancel a b
  rw [h, BitVec.xor_zero] at hcancel
  exact hcancel

/-! ### Columns -/

theorem column_self (s : Buf) (i : Nat) : column s i i = s i := by
  rw [column, Nat.div_add_mod]

theorem column_mixColumns (s : Buf) (i r : Nat) :
    column (mixColumns s) i r =
      column s i r ^^^ columnSum s i ^^^ xtime (column s i r ^^^ column s i (r + 1)) := by
  have hdiv : (4 * (i / 4) + r % 4) / 4 = i / 4 := by omega
  have hmod : (4 * (i / 4) + r % 4 + 1) % 4 = (r + 1) % 4 := by omega
  unfold columnSum column mixColumns
  simp only [column, columnSum, hdiv, hmod]

/-- The sum of a column is kept: what is added to its bytes cancels. -/
theorem columnSum_mixColumns (s : Buf) (i : Nat) :
    columnSum (mixColumns s) i = columnSum s i := by
  have hwrap : column s i (3 + 1) = column s i 0 := rfl
  rw [columnSum, column_mixColumns, column_mixColumns, column_mixColumns, column_mixColumns, hwrap]
  generalize hx : columnSum s i = x
  unfold columnSum at hx
  generalize column s i 0 = a0 at hx ⊢
  generalize column s i 1 = a1 at hx ⊢
  generalize column s i 2 = a2 at hx ⊢
  generalize column s i 3 = a3 at hx ⊢
  have hpairs : (a0 ^^^ a1) ^^^ (a1 ^^^ a2) ^^^ (a2 ^^^ a3) ^^^ (a3 ^^^ a0) = 0#8 := by
    calc (a0 ^^^ a1) ^^^ (a1 ^^^ a2) ^^^ (a2 ^^^ a3) ^^^ (a3 ^^^ a0)
        = (a0 ^^^ a0) ^^^ (a1 ^^^ a1) ^^^ (a2 ^^^ a2) ^^^ (a3 ^^^ a3) := by ac_rfl
      _ = 0#8 := by simp only [BitVec.xor_self]
  have hterms : xtime (a0 ^^^ a1) ^^^ xtime (a1 ^^^ a2) ^^^ xtime (a2 ^^^ a3) ^^^
      xtime (a3 ^^^ a0) = 0#8 := by
    rw [← xtime_xor, ← xtime_xor, ← xtime_xor, hpairs]
    rfl
  generalize xtime (a0 ^^^ a1) = y0 at hterms ⊢
  generalize xtime (a1 ^^^ a2) = y1 at hterms ⊢
  generalize xtime (a2 ^^^ a3) = y2 at hterms ⊢
  generalize xtime (a3 ^^^ a0) = y3 at hterms ⊢
  calc (a0 ^^^ x ^^^ y0) ^^^ (a1 ^^^ x ^^^ y1) ^^^ (a2 ^^^ x ^^^ y2) ^^^ (a3 ^^^ x ^^^ y3)
      = (a0 ^^^ a1 ^^^ a2 ^^^ a3) ^^^ ((x ^^^ x) ^^^ (x ^^^ x)) ^^^
          (y0 ^^^ y1 ^^^ y2 ^^^ y3) := by ac_rfl
    _ = x := by rw [hx, hterms, BitVec.xor_self, BitVec.xor_zero, BitVec.xor_zero]

/-- The sum of a column, as two pairs of bytes two rows apart. -/
theorem columnSum_eq (s : Buf) (i : Nat) :
    columnSum s i =
      (s i ^^^ column s i (i + 2)) ^^^ (column s i (i + 1) ^^^ column s i (i + 3)) := by
  have hcol (r r' : Nat) (h : r % 4 = r' % 4) : column s i r = column s i r' := by
    rw [column, column, h]
  rw [← column_self s i, columnSum]
  rcases (by omega : i % 4 = 0 ∨ i % 4 = 1 ∨ i % 4 = 2 ∨ i % 4 = 3) with h | h | h | h
  · rw [hcol i 0 (by omega), hcol (i + 2) 2 (by omega), hcol (i + 1) 1 (by omega),
      hcol (i + 3) 3 (by omega)]
    ac_rfl
  · rw [hcol i 1 (by omega), hcol (i + 2) 3 (by omega), hcol (i + 1) 2 (by omega),
      hcol (i + 3) 0 (by omega)]
    ac_rfl
  · rw [hcol i 2 (by omega), hcol (i + 2) 0 (by omega), hcol (i + 1) 3 (by omega),
      hcol (i + 3) 1 (by omega)]
    ac_rfl
  · rw [hcol i 3 (by omega), hcol (i + 2) 1 (by omega), hcol (i + 1) 0 (by omega),
      hcol (i + 3) 2 (by omega)]
    ac_rfl

/-- What the inverse mix makes of a mixed byte: the byte, off by a term of its column. -/
theorem invMixColumns_mixColumns (s : Buf) (i : Nat) :
    invMixColumns (mixColumns s) i =
      s i ^^^ (columnSum s i ^^^ xtime (s i ^^^ column s i (i + 2)) ^^^
        xtime (xtime (xtime (columnSum s i)))) := by
  have hself : mixColumns s i =
      s i ^^^ columnSum s i ^^^ xtime (s i ^^^ column s i (i + 1)) := rfl
  have hnext : column (mixColumns s) i (i + 1) = column s i (i + 1) ^^^ columnSum s i ^^^
      xtime (column s i (i + 1) ^^^ column s i (i + 2)) := column_mixColumns s i (i + 1)
  have hfar : column (mixColumns s) i (i + 2) = column s i (i + 2) ^^^ columnSum s i ^^^
      xtime (column s i (i + 2) ^^^ column s i (i + 3)) := column_mixColumns s i (i + 2)
  have hsum := columnSum_eq s i
  simp only [invMixColumns, columnSum_mixColumns, hself, hnext, hfar]
  generalize columnSum s i = x at hsum ⊢
  generalize column s i (i + 1) = b1 at hsum ⊢
  generalize column s i (i + 2) = b2 at hsum ⊢
  generalize column s i (i + 3) = b3 at hsum ⊢
  generalize s i = a at hsum ⊢
  have hpair : a ^^^ x ^^^ xtime (a ^^^ b1) ^^^ (b2 ^^^ x ^^^ xtime (b2 ^^^ b3)) =
      (a ^^^ b2) ^^^ xtime x := by
    have hterm : xtime (a ^^^ b1) ^^^ xtime (b2 ^^^ b3) = xtime x := by
      rw [← xtime_xor, hsum]
      congr 1
      ac_rfl
    calc a ^^^ x ^^^ xtime (a ^^^ b1) ^^^ (b2 ^^^ x ^^^ xtime (b2 ^^^ b3))
        = (a ^^^ b2) ^^^ (xtime (a ^^^ b1) ^^^ xtime (b2 ^^^ b3)) ^^^ (x ^^^ x) := by ac_rfl
      _ = (a ^^^ b2) ^^^ xtime x := by rw [hterm, BitVec.xor_self, BitVec.xor_zero]
  have hstep : a ^^^ x ^^^ xtime (a ^^^ b1) ^^^ (b1 ^^^ x ^^^ xtime (b1 ^^^ b2)) =
      (a ^^^ b1) ^^^ xtime (a ^^^ b2) := by
    have hterm : xtime (a ^^^ b1) ^^^ xtime (b1 ^^^ b2) = xtime (a ^^^ b2) := by
      rw [← xtime_xor]
      congr 1
      calc a ^^^ b1 ^^^ (b1 ^^^ b2) = (a ^^^ b2) ^^^ (b1 ^^^ b1) := by ac_rfl
        _ = a ^^^ b2 := by rw [BitVec.xor_self, BitVec.xor_zero]
    calc a ^^^ x ^^^ xtime (a ^^^ b1) ^^^ (b1 ^^^ x ^^^ xtime (b1 ^^^ b2))
        = (a ^^^ b1) ^^^ (xtime (a ^^^ b1) ^^^ xtime (b1 ^^^ b2)) ^^^ (x ^^^ x) := by ac_rfl
      _ = (a ^^^ b1) ^^^ xtime (a ^^^ b2) := by rw [hterm, BitVec.xor_self, BitVec.xor_zero]
  rw [hpair, hstep]
  simp only [xtime_xor (a ^^^ b1), xtime_xor (a ^^^ b2)]
  rw [xtime_xor (xtime (a ^^^ b2))]
  generalize xtime (a ^^^ b1) = y1
  generalize xtime (a ^^^ b2) = y2
  generalize xtime y2 = z2
  generalize xtime (xtime x) = zx
  calc a ^^^ x ^^^ y1 ^^^ zx ^^^ (y1 ^^^ z2) ^^^ (y2 ^^^ zx) ^^^ (z2 ^^^ xtime zx)
      = a ^^^ (x ^^^ y2 ^^^ xtime zx) ^^^ (y1 ^^^ y1) ^^^ (zx ^^^ zx) ^^^ (z2 ^^^ z2) := by ac_rfl
    _ = a ^^^ (x ^^^ y2 ^^^ xtime zx) := by simp only [BitVec.xor_self, BitVec.xor_zero]

/-- Every byte of the state equals the byte two rows away. -/
def Balanced (s : Buf) : Prop := ∀ i < 16, s i = column s i (i + 2)

/-- The byte below one, in the same column. -/
def below (i : Nat) : Nat := 4 * (i / 4) + (i + 1) % 4

theorem below_lt {i : Nat} (hi : i < 16) : below i < 16 := by
  unfold below
  omega

theorem column_below (s : Buf) (i : Nat) :
    s (below i) = column s i (i + 1) ∧ column s (below i) (below i + 2) = column s i (i + 3) ∧
      columnSum s (below i) = columnSum s i := by
  have hdiv : below i / 4 = i / 4 := by
    unfold below
    omega
  have hmod : (below i + 2) % 4 = (i + 3) % 4 := by
    unfold below
    omega
  refine ⟨rfl, ?_, ?_⟩
  · rw [column, column, hdiv, hmod]
  · simp only [columnSum, column, hdiv]

/-- The inverse mix is the inverse exactly on balanced states. -/
theorem invMixColumns_mixColumns_eq_iff (s : Buf) :
    (∀ i < 16, invMixColumns (mixColumns s) i = s i) ↔ Balanced s := by
  constructor
  · intro h
    have hterm : ∀ i < 16, columnSum s i ^^^ xtime (s i ^^^ column s i (i + 2)) ^^^
        xtime (xtime (xtime (columnSum s i))) = 0#8 := by
      intro i hi
      have heq := h i hi
      rw [invMixColumns_mixColumns] at heq
      calc _ = s i ^^^ (s i ^^^ (columnSum s i ^^^ xtime (s i ^^^ column s i (i + 2)) ^^^
              xtime (xtime (xtime (columnSum s i))))) := (xor_cancel ..).symm
        _ = 0#8 := by rw [heq, BitVec.xor_self]
    intro i hi
    obtain ⟨hbyte, hfar, hsame⟩ := column_below s i
    have hhere := hterm i hi
    have hthere := hterm (below i) (below_lt hi)
    rw [hsame, hfar, hbyte] at hthere
    have hsum := columnSum_eq s i
    have hpair : s i ^^^ column s i (i + 2) = 0#8 := by
      generalize s i ^^^ column s i (i + 2) = p at hhere hsum
      generalize column s i (i + 1) ^^^ column s i (i + 3) = q at hthere hsum
      generalize columnSum s i = x at hhere hthere hsum
      have hpq : p ^^^ q = 0#8 := by
        apply xtime_eq_zero
        rw [xtime_xor]
        generalize xtime (xtime (xtime x)) = z at hhere hthere
        have hboth : (x ^^^ xtime p ^^^ z) ^^^ (x ^^^ xtime q ^^^ z) = xtime p ^^^ xtime q := by
          calc (x ^^^ xtime p ^^^ z) ^^^ (x ^^^ xtime q ^^^ z)
              = xtime p ^^^ xtime q ^^^ (x ^^^ x) ^^^ (z ^^^ z) := by ac_rfl
            _ = xtime p ^^^ xtime q := by simp only [BitVec.xor_self, BitVec.xor_zero]
        rw [hhere, hthere, BitVec.xor_self] at hboth
        exact hboth.symm
      rw [hpq] at hsum
      rw [hsum] at hhere
      have hzero : xtime (xtime (xtime 0#8)) = 0#8 := rfl
      rw [hzero, BitVec.zero_xor, BitVec.xor_zero] at hhere
      exact xtime_eq_zero hhere
    exact eq_of_xor_eq_zero hpair
  · intro h i hi
    obtain ⟨hbyte, hfar, _⟩ := column_below s i
    have hpair : s i ^^^ column s i (i + 2) = 0#8 := by rw [← h i hi, BitVec.xor_self]
    have hother : column s i (i + 1) ^^^ column s i (i + 3) = 0#8 := by
      rw [← hbyte, ← hfar, ← h (below i) (below_lt hi), BitVec.xor_self]
    have hsum : columnSum s i = 0#8 := by
      rw [columnSum_eq, hpair, hother]
      rfl
    rw [invMixColumns_mixColumns, hpair, hsum]
    exact BitVec.xor_zero

/-! ### Rounds -/

/-- The sixteen bytes of the states are the same. -/
def Agree (s t : Buf) : Prop := ∀ i < 16, s i = t i

namespace Agree

variable {s t u k l : Buf}

theorem refl (s : Buf) : Agree s s := fun _ _ => rfl

theorem symm (h : Agree s t) : Agree t s := fun i hi => (h i hi).symm

theorem trans (h : Agree s t) (h' : Agree t u) : Agree s u :=
  fun i hi => (h i hi).trans (h' i hi)

theorem addRoundKey (h : Agree s t) (hk : Agree k l) :
    Agree (Handlers.addRoundKey s k) (Handlers.addRoundKey t l) := by
  intro i hi
  rw [Handlers.addRoundKey, Handlers.addRoundKey, h i hi, hk i hi]

theorem column (h : Agree s t) {i : Nat} (hi : i < 16) (r : Nat) :
    Handlers.column s i r = Handlers.column t i r :=
  h _ (by omega)

theorem columnSum (h : Agree s t) {i : Nat} (hi : i < 16) :
    Handlers.columnSum s i = Handlers.columnSum t i := by
  rw [Handlers.columnSum, Handlers.columnSum, h.column hi, h.column hi, h.column hi, h.column hi]

theorem mixColumns (h : Agree s t) : Agree (Handlers.mixColumns s) (Handlers.mixColumns t) := by
  intro i hi
  simp only [Handlers.mixColumns, h i hi, h.column hi, h.columnSum hi]

theorem invMixColumns (h : Agree s t) :
    Agree (Handlers.invMixColumns s) (Handlers.invMixColumns t) := by
  intro i hi
  simp only [Handlers.invMixColumns, h i hi, h.column hi, h.columnSum hi]

end Agree

/-- What a round does before it mixes columns. -/
def substitute (s : Buf) : Buf := subBytes (shiftRows s)

def invSubstitute (s : Buf) : Buf := invSubBytes (invShiftRows s)

theorem Agree.substitute {s t : Buf} (h : Agree s t) : Agree (substitute s) (substitute t) :=
  fun _ _ => congrArg sbox (h _ (Nat.mod_lt _ (by decide)))

theorem Agree.invSubstitute {s t : Buf} (h : Agree s t) :
    Agree (invSubstitute s) (invSubstitute t) :=
  fun _ _ => congrArg invSbox (h _ (Nat.mod_lt _ (by decide)))

theorem invSubstitute_substitute (s : Buf) : Agree (invSubstitute (substitute s)) s := by
  intro i hi
  have hplace : ((i + 12 * (i % 4)) % 16 + 4 * ((i + 12 * (i % 4)) % 16 % 4)) % 16 = i := by omega
  have hbyte : invSubstitute (substitute s) i =
      s (((i + 12 * (i % 4)) % 16 + 4 * ((i + 12 * (i % 4)) % 16 % 4)) % 16) := invSbox_sbox _
  rw [hbyte, hplace]

theorem substitute_invSubstitute (s : Buf) : Agree (substitute (invSubstitute s)) s := by
  intro i hi
  have hplace : ((i + 4 * (i % 4)) % 16 + 12 * ((i + 4 * (i % 4)) % 16 % 4)) % 16 = i := by omega
  have hbyte : substitute (invSubstitute s) i =
      s (((i + 4 * (i % 4)) % 16 + 12 * ((i + 4 * (i % 4)) % 16 % 4)) % 16) := sbox_invSbox _
  rw [hbyte, hplace]

theorem addRoundKey_cancel (s k : Buf) : addRoundKey (addRoundKey s k) k = s := by
  funext i
  calc s i ^^^ k i ^^^ k i = s i ^^^ (k i ^^^ k i) := BitVec.xor_assoc ..
    _ = s i := by rw [BitVec.xor_self, BitVec.xor_zero]

/-- The inverse mix is linear, so it may be applied to the key and to the state. -/
theorem invMixColumns_addRoundKey (s k : Buf) :
    invMixColumns (addRoundKey s k) = addRoundKey (invMixColumns s) (invMixColumns k) := by
  funext i
  simp only [invMixColumns, addRoundKey, columnSum, column, xtime_xor]
  ac_rfl

def encRound (s k : Buf) : Buf := addRoundKey (mixColumns (substitute s)) k

/-- A round of the equivalent inverse cipher, with the key as `AESIMC` leaves it. -/
def decRound (s k : Buf) : Buf :=
  addRoundKey (invMixColumns (invSubstitute s)) (invMixColumns k)

def encRounds (s : Buf) (keys : List Buf) : Buf := keys.foldl encRound s

def decRounds (s : Buf) (keys : List Buf) : Buf := keys.foldl decRound s

theorem Agree.decRound {s t : Buf} (h : Agree s t) (k : Buf) :
    Agree (decRound s k) (decRound t k) :=
  h.invSubstitute.invMixColumns.addRoundKey (.refl _)

/-- Undoing a round leaves the mixed state, inversely mixed. -/
theorem decRound_encRound (s k : Buf) :
    Agree (decRound (substitute (encRound s k)) k)
      (invMixColumns (mixColumns (substitute s))) := by
  have hstate := (invSubstitute_substitute (encRound s k)).invMixColumns
  rw [encRound, invMixColumns_addRoundKey] at hstate
  have hround := hstate.addRoundKey (.refl (invMixColumns k))
  rw [addRoundKey_cancel] at hround
  exact hround

/-- The states that are mixed are balanced. -/
def BalancedRounds : Buf → List Buf → Prop
  | _, [] => True
  | s, k :: keys => Balanced (substitute s) ∧ BalancedRounds (encRound s k) keys

theorem decRounds_encRounds {s : Buf} {keys : List Buf} (h : BalancedRounds s keys) :
    Agree (decRounds (substitute (encRounds s keys)) keys.reverse) (substitute s) := by
  induction keys generalizing s with
  | nil => exact .refl _
  | cons k keys ih =>
      obtain ⟨hbalanced, hrest⟩ := h
      rw [List.reverse_cons, decRounds, List.foldl_append]
      have hround := ((ih hrest).decRound k).trans (decRound_encRound s k)
      exact hround.trans ((invMixColumns_mixColumns_eq_iff _).mpr hbalanced)

/-- The round that is undone last, when all others are undone. -/
theorem decRounds_encRounds_cons {s k : Buf} {keys : List Buf}
    (h : BalancedRounds (encRound s k) keys) :
    Agree (decRounds (substitute (encRounds s (k :: keys))) (k :: keys).reverse)
      (invMixColumns (mixColumns (substitute s))) := by
  rw [List.reverse_cons, decRounds, List.foldl_append]
  exact ((decRounds_encRounds h).decRound k).trans (decRound_encRound s k)

/-! ### The cipher, in instructions -/

/-- The program maps the low sixteen bytes of the register. -/
structure Maps (p : H Unit) (reg : Nat) (f : Buf → Buf) : Prop where
  updates : ∃ g : Cpu → Cpu, p.Updates g ∧
    ∀ c s, Agree (c.zmm reg) s → Agree ((g c).zmm reg) (f s)

namespace Maps

variable {p q : H Unit} {reg : Nat} {f f' : Buf → Buf}

theorem bind (hp : Maps p reg f) (hq : Maps q reg f') :
    Maps (p >>= fun _ => q) reg fun s => f' (f s) := by
  obtain ⟨g, hg, hf⟩ := hp.updates
  obtain ⟨g', hg', hf'⟩ := hq.updates
  exact ⟨_, hg.bind hg', fun c s h => hf' _ _ (hf c s h)⟩

theorem forM {step : Buf → H Unit} {f : Buf → Buf → Buf}
    (hstep : ∀ k, Maps (step k) reg fun s => f s k) (keys : List Buf) :
    Maps (keys.forM step) reg fun s => keys.foldl f s := by
  induction keys with
  | nil => exact ⟨_, ⟨rfl⟩, fun c s h => h⟩
  | cons k keys ih => exact (hstep k).bind ih

end Maps

/-- Load a key into the source register and execute. -/
def keyed (op : Insn → H Unit) (insn : Insn) (k : Buf) : H Unit := do
  Proc.modify fun c => c.setZmmBytes insn.src.reg 0 16 k
  op insn

/-- `AESDEC` with a key that `AESIMC` transforms. -/
def keyedInverse (insn : Insn) (k : Buf) : H Unit := do
  keyed opAesimc { insn with dst := insn.src } k
  opAesdec insn

def encrypt (insn : Insn) (k₀ : Buf) (inner : List Buf) (kₙ : Buf) : H Unit := do
  keyed opPxor insn k₀
  inner.forM (keyed opAesenc insn)
  keyed opAesenclast insn kₙ

/-- The equivalent inverse cipher, from the same keys. -/
def decrypt (insn : Insn) (k₀ : Buf) (inner : List Buf) (kₙ : Buf) : H Unit := do
  keyed opPxor insn kₙ
  inner.reverse.forM (keyedInverse insn)
  keyed opAesdeclast insn k₀

section Programs

variable {insn : Insn} {a b : Nat}

theorem maps_keyed (h : insn.OnRegisters a b) (hab : a ≠ b) (op : Insn → H Unit) {io : VecIo}
    (f : Buf → Buf → Buf) (hop : op insn = xmmBinary io (fun _ => f) insn)
    (hf : ∀ {s t k l}, Agree s t → Agree k l → Agree (f s k) (f t l)) (k : Buf) :
    Maps (keyed op insn k) a fun s => f s k := by
  have hbinary := h.xmmBinary io fun _ => f
  rw [← hop] at hbinary
  obtain ⟨_, ⟨_, rfl⟩⟩ := h
  refine ⟨_, H.Updates.bind ⟨rfl⟩ hbinary, fun c s hs i hi => ?_⟩
  rw [Cpu.zmm_setZmmBytes_low _ _ _ _ hi]
  refine hf ?_ (fun j hj => Cpu.zmm_setZmmBytes_low _ _ _ _ hj) i hi
  rw [Cpu.zmm_setZmmBytes_of_ne _ hab]
  exact hs

theorem maps_keyedInverse (h : insn.OnRegisters a b) (hab : a ≠ b) (k : Buf) :
    Maps (keyedInverse insn k) a fun s => decRound s k := by
  have hdec := h.xmmBinary sse4Io fun _ s k =>
    addRoundKey (invMixColumns (invSubBytes (invShiftRows s))) k
  have hkey : ({ insn with dst := insn.src } : Insn).OnRegisters b b := ⟨h.src, h.src⟩
  have himc := hkey.xmmUnary sse4Io fun _ => invMixColumns
  obtain ⟨_, ⟨_, rfl⟩⟩ := h
  refine ⟨_, (H.Updates.bind ⟨rfl⟩ himc).bind hdec, fun c s hs i hi => ?_⟩
  rw [Cpu.zmm_setZmmBytes_low _ _ _ _ hi]
  refine Agree.addRoundKey (s := invMixColumns (invSubstitute _)) ?_ ?_ i hi
  · rw [Cpu.zmm_setZmmBytes_of_ne _ hab, Cpu.zmm_setZmmBytes_of_ne _ hab]
    exact hs.invSubstitute.invMixColumns
  · intro j hj
    rw [Cpu.zmm_setZmmBytes_low _ _ _ _ hj]
    exact Agree.invMixColumns (fun m hm => Cpu.zmm_setZmmBytes_low _ _ _ _ hm) j hj

theorem agree_map8_xor {s t k l : Buf} (hs : Agree s t) (hk : Agree k l) :
    Agree (map8 (fun a b => a ^^^ b) s k) (map8 (fun a b => a ^^^ b) t l) :=
  hs.addRoundKey hk

theorem maps_encrypt (h : insn.OnRegisters a b) (hab : a ≠ b) (k₀ : Buf) (inner : List Buf)
    (kₙ : Buf) :
    Maps (encrypt insn k₀ inner kₙ) a fun s =>
      addRoundKey (substitute (encRounds (addRoundKey s k₀) inner)) kₙ := by
  have hfirst := maps_keyed h hab opPxor _ rfl agree_map8_xor k₀
  have hround (k : Buf) := maps_keyed h hab opAesenc
    (fun s k => addRoundKey (mixColumns (substitute s)) k) rfl
    (fun hs hk => hs.substitute.mixColumns.addRoundKey hk) k
  have hlast := maps_keyed h hab opAesenclast
    (fun s k => addRoundKey (substitute s) k) rfl
    (fun hs hk => hs.substitute.addRoundKey hk) kₙ
  exact hfirst.bind ((Maps.forM hround inner).bind hlast)

theorem maps_decrypt (h : insn.OnRegisters a b) (hab : a ≠ b) (k₀ : Buf) (inner : List Buf)
    (kₙ : Buf) :
    Maps (decrypt insn k₀ inner kₙ) a fun s =>
      addRoundKey (invSubstitute (decRounds (addRoundKey s kₙ) inner.reverse)) k₀ := by
  have hfirst := maps_keyed h hab opPxor _ rfl agree_map8_xor kₙ
  have hlast := maps_keyed h hab opAesdeclast
    (fun s k => addRoundKey (invSubstitute s) k) rfl
    (fun hs hk => hs.invSubstitute.addRoundKey hk) k₀
  exact hfirst.bind ((Maps.forM (maps_keyedInverse h hab) inner.reverse).bind hlast)

end Programs

/-! ### What is undone -/

/-- A run of the program leaves the state in the register as it was. -/
def Restores (p : H Unit) (reg : Nat) (c : Cpu) : Prop :=
  ∀ (σ : Type) (at_ : Attached σ) (w : World σ),
    Agree ((p.runOn at_ c w).value.2.zmm reg) (c.zmm reg)

theorem Maps.restores_iff {p : H Unit} {reg : Nat} {f : Buf → Buf} (h : Maps p reg f) (c : Cpu) :
    Restores p reg c ↔ Agree (f (c.zmm reg)) (c.zmm reg) := by
  obtain ⟨g, hg, hf⟩ := h.updates
  have hend := hf c (c.zmm reg) (.refl _)
  constructor
  · intro hrestores
    have hrun := hrestores Unit ⟨none, none, [], []⟩ { mem := () }
    rw [hg.runOn] at hrun
    exact hend.symm.trans hrun
  · intro hagree σ at_ w
    rw [hg.runOn]
    exact hend.trans hagree

/-- `AESENCLAST`, its key taken off again, and `AESDECLAST` with no key. -/
def lastThere (insn : Insn) (k : Buf) : H Unit := do
  keyed opAesenclast insn k
  keyed opPxor insn k
  keyed opAesdeclast insn fun _ => 0

def thereAndBack (insn : Insn) (k₀ : Buf) (inner : List Buf) (kₙ : Buf) : H Unit := do
  encrypt insn k₀ inner kₙ
  decrypt insn k₀ inner kₙ

/-- The AES instructions undo each other on the registers of the instruction. -/
structure Inverse (insn : Insn) : Prop where
  last : ∀ k c, Restores (lastThere insn k) insn.dst.reg c
  cipher : ∀ k₀ inner kₙ c, Restores (thereAndBack insn k₀ inner kₙ) insn.dst.reg c
  mix : ∀ s, ∀ i < 16, invMixColumns (mixColumns s) i = s i

section Restores

variable {insn : Insn} {a b : Nat} (h : insn.OnRegisters a b) (hab : a ≠ b)

include h hab

theorem restores_last (k : Buf) (c : Cpu) : Restores (lastThere insn k) a c := by
  have henc := maps_keyed h hab opAesenclast
    (fun s k => addRoundKey (substitute s) k) rfl
    (fun hs hk => hs.substitute.addRoundKey hk) k
  have hkey := maps_keyed h hab opPxor _ rfl agree_map8_xor k
  have hdec := maps_keyed h hab opAesdeclast
    (fun s k => addRoundKey (invSubstitute s) k) rfl
    (fun hs hk => hs.invSubstitute.addRoundKey hk) fun _ => 0
  refine ((henc.bind (hkey.bind hdec)).restores_iff c).mpr fun i hi => ?_
  have hstate := invSubstitute_substitute (c.zmm a) i hi
  rw [← addRoundKey_cancel (substitute (c.zmm a)) k] at hstate
  exact BitVec.xor_zero.trans hstate

/-- The cipher is undone when the rounds before the last are. -/
theorem restores_iff (k₀ : Buf) (inner : List Buf) (kₙ : Buf) (c : Cpu) :
    Restores (thereAndBack insn k₀ inner kₙ) a c ↔
      Agree (decRounds (substitute (encRounds (addRoundKey (c.zmm a) k₀) inner)) inner.reverse)
        (substitute (addRoundKey (c.zmm a) k₀)) := by
  have hmaps := (maps_encrypt h hab k₀ inner kₙ).bind (maps_decrypt h hab k₀ inner kₙ)
  have hiff := hmaps.restores_iff c
  rw [addRoundKey_cancel] at hiff
  refine hiff.trans ?_
  constructor
  · intro hagree
    have hkeyed := hagree.addRoundKey (.refl k₀)
    rw [addRoundKey_cancel] at hkeyed
    exact (substitute_invSubstitute _).symm.trans hkeyed.substitute
  · intro hagree
    have hstate := (hagree.invSubstitute.trans (invSubstitute_substitute _)).addRoundKey (.refl k₀)
    rw [addRoundKey_cancel] at hstate
    exact hstate

theorem restores_of_balanced {k₀ : Buf} (inner : List Buf) {c : Cpu}
    (hbalanced : BalancedRounds (addRoundKey (c.zmm a) k₀) inner) (kₙ : Buf) :
    Restores (thereAndBack insn k₀ inner kₙ) a c :=
  (restores_iff h hab k₀ inner kₙ c).mpr (decRounds_encRounds hbalanced)

/-- With one round balanced after another but the first, the first decides. -/
theorem balanced_of_restores {k₀ k kₙ : Buf} {inner : List Buf} {c : Cpu}
    (hrest : BalancedRounds (encRound (addRoundKey (c.zmm a) k₀) k) inner)
    (hrestores : Restores (thereAndBack insn k₀ (k :: inner) kₙ) a c) :
    Balanced (substitute (addRoundKey (c.zmm a) k₀)) := by
  have hagree := (restores_iff h hab k₀ (k :: inner) kₙ c).mp hrestores
  exact (invMixColumns_mixColumns_eq_iff _).mp ((decRounds_encRounds_cons hrest).symm.trans hagree)

end Restores

/-! ### Keys under which every state but the first is zero -/

/-- The state that is zero but for its first byte. -/
def oneByte : Buf := fun i => if i = 0 then 1 else 0

/-- The key that makes the next state zero. -/
def clearingKey : Buf := mixColumns (substitute (invSubstitute oneByte))

theorem encRound_clearingKey : encRound (invSubstitute oneByte) clearingKey = fun _ => 0 := by
  funext i
  exact BitVec.xor_self

theorem encRound_zero : encRound (fun _ => 0) (fun _ => 0x63) = fun _ => 0 := by
  have hsbox : substitute (fun _ => 0) = fun _ => 0x63 := rfl
  funext i
  rw [encRound, hsbox]
  simp only [addRoundKey, mixColumns, columnSum, column]
  decide

theorem balancedRounds_zero (n : Nat) :
    BalancedRounds (fun _ => 0) (List.replicate n fun _ => 0x63) := by
  induction n with
  | zero => exact trivial
  | succ n ih =>
      refine ⟨fun _ _ => rfl, ?_⟩
      rw [encRound_zero]
      exact ih

theorem not_balanced_oneByte : ¬ Balanced (substitute (invSubstitute oneByte)) := by
  intro hbalanced
  have hfirst := hbalanced 0 (by decide)
  revert hfirst
  decide

/-- `AESDECLAST` always undoes `AESENCLAST`. The inverse mix is the inverse exactly on balanced
states, so the cipher is undone when all its states are balanced; it is undone for every state and
keys exactly when there is no round that mixes. -/
theorem undone (insn : Insn) (a b : Nat) (h : insn.OnRegisters a b) (hab : a ≠ b) :
    (∀ k c, Restores (lastThere insn k) a c) ∧
      (∀ s, (∀ i < 16, invMixColumns (mixColumns s) i = s i) ↔ Balanced s) ∧
      (∀ k₀ inner kₙ c, BalancedRounds (addRoundKey (c.zmm a) k₀) inner →
        Restores (thereAndBack insn k₀ inner kₙ) a c) ∧
      ∀ n, (∀ k₀ inner kₙ c, inner.length = n → Restores (thereAndBack insn k₀ inner kₙ) a c) ↔
        n = 0 := by
  refine ⟨restores_last h hab, invMixColumns_mixColumns_eq_iff,
    fun k₀ inner kₙ c hbalanced => restores_of_balanced h hab inner hbalanced kₙ, fun n => ⟨?_, ?_⟩⟩
  · intro hall
    by_contra hne
    obtain ⟨m, rfl⟩ := Nat.exists_eq_succ_of_ne_zero hne
    have hrestores := hall (fun _ => 0) (clearingKey :: List.replicate m fun _ => 0x63)
      (fun _ => 0) { zmm := fun _ => invSubstitute oneByte }
      (by rw [List.length_cons, List.length_replicate])
    have hkey : addRoundKey (invSubstitute oneByte) (fun _ => 0) = invSubstitute oneByte := by
      funext i
      exact BitVec.xor_zero
    have hbalanced := balanced_of_restores h hab (c := { zmm := fun _ => invSubstitute oneByte })
      (by rw [hkey, encRound_clearingKey]; exact balancedRounds_zero m) hrestores
    rw [hkey] at hbalanced
    exact not_balanced_oneByte hbalanced
  · rintro rfl k₀ inner kₙ c hlen
    rw [List.length_eq_zero_iff.mp hlen]
    exact restores_of_balanced h hab [] trivial kₙ

/-- `xmm1, xmm2`. -/
def onRegisters12 : Insn := { dst := { kind := .xmm, reg := 1 }, src := { kind := .xmm, reg := 2 } }

theorem undone_xmm1_xmm2 :
    (∀ k c, Restores (lastThere onRegisters12 k) 1 c) ∧
      (∀ s, (∀ i < 16, invMixColumns (mixColumns s) i = s i) ↔ Balanced s) ∧
      (∀ k₀ inner kₙ c, BalancedRounds (addRoundKey (c.zmm 1) k₀) inner →
        Restores (thereAndBack onRegisters12 k₀ inner kₙ) 1 c) ∧
      ∀ n, (∀ k₀ inner kₙ c, inner.length = n →
        Restores (thereAndBack onRegisters12 k₀ inner kₙ) 1 c) ↔ n = 0 :=
  undone onRegisters12 1 2 ⟨⟨rfl, rfl⟩, ⟨rfl, rfl⟩⟩ (by decide)

/-- A state with a single byte set is not got back by the inverse mix. -/
theorem not_inverse :
    ¬ ∀ (insn : Insn) (a b : Nat), insn.OnRegisters a b → a ≠ b → Inverse insn := by
  intro hall
  have hmix := (hall onRegisters12 1 2 ⟨⟨rfl, rfl⟩, ⟨rfl, rfl⟩⟩ (by decide)).mix oneByte 0
    (by decide)
  revert hmix
  decide

end Aes

end PicoCpu
