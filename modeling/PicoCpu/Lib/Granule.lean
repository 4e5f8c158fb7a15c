import Mathlib.Data.Nat.Bitwise

/-!
Granules of an address space of `w`-bit words: the aligned blocks of `2 ^ k`
addresses. An access of any length is served one granule at a time by `walk`,
whose loop rule is stated once here for every body.
-/

namespace Granule

variable {w : Nat}

/-- The base of the granule that holds `a`. -/
def base (k : Nat) (a : BitVec w) : BitVec w := a &&& ~~~(BitVec.ofNat w (2 ^ k - 1))

/-- The offset of `a` in its granule. -/
def off (k : Nat) (a : BitVec w) : Nat := (a - base k a).toNat

theorem base_eq_shift (k : Nat) (a : BitVec w) : base k a = (a >>> k) <<< k := by
  apply BitVec.eq_of_getLsbD_eq
  intro i hi
  simp only [base, BitVec.getLsbD_and, BitVec.getLsbD_not, BitVec.getLsbD_ofNat,
    Nat.testBit_two_pow_sub_one, BitVec.getLsbD_shiftLeft, BitVec.getLsbD_ushiftRight, hi,
    decide_true, Bool.true_and]
  by_cases hik : i < k
  · simp [hik]
  · simp [hik, Nat.add_sub_cancel' (Nat.le_of_not_lt hik)]

theorem toNat_base (k : Nat) (a : BitVec w) : (base k a).toNat = a.toNat - a.toNat % 2 ^ k := by
  have hsub : a.toNat / 2 ^ k * 2 ^ k = a.toNat - a.toNat % 2 ^ k :=
    Nat.div_mul_self_eq_mod_sub_self
  have hlt : a.toNat / 2 ^ k * 2 ^ k < 2 ^ w :=
    lt_of_le_of_lt (Nat.div_mul_le_self _ _) a.isLt
  rw [base_eq_shift, BitVec.toNat_shiftLeft, BitVec.toNat_ushiftRight, Nat.shiftLeft_eq,
    Nat.shiftRight_eq_div_pow, Nat.mod_eq_of_lt hlt, hsub]

theorem off_eq_mod (k : Nat) (a : BitVec w) : off k a = a.toNat % 2 ^ k := by
  have hle : a.toNat % 2 ^ k ≤ a.toNat := Nat.mod_le _ _
  have hlt := a.isLt
  rw [off, BitVec.toNat_sub, toNat_base]
  have hsum : 2 ^ w - (a.toNat - a.toNat % 2 ^ k) + a.toNat = a.toNat % 2 ^ k + 2 ^ w := by omega
  rw [hsum, Nat.add_mod_right, Nat.mod_eq_of_lt (by omega)]

theorem off_lt (k : Nat) (a : BitVec w) : off k a < 2 ^ k := by
  rw [off_eq_mod]
  exact Nat.mod_lt _ (Nat.two_pow_pos k)

theorem base_add_off (k : Nat) (a : BitVec w) : base k a + BitVec.ofNat w (off k a) = a := by
  rw [off, BitVec.ofNat_toNat, BitVec.setWidth_eq, BitVec.add_comm, BitVec.sub_add_cancel]

theorem base_base (k : Nat) (a : BitVec w) : base k (base k a) = base k a := by
  rw [base, base, BitVec.and_assoc, BitVec.and_self]

/-- Addresses that stay inside the granule of `a` share its base. -/
theorem base_add (k : Nat) (hk : k ≤ w) (a : BitVec w) (i : Nat) (hi : off k a + i < 2 ^ k) :
    base k (a + BitVec.ofNat w i) = base k a := by
  have hpow : 2 ^ k ≤ 2 ^ w := Nat.pow_le_pow_right (by omega) hk
  have hmod : a.toNat % 2 ^ k + i < 2 ^ k := by rwa [off_eq_mod] at hi
  have hdvd : 2 ^ k ∣ 2 ^ w := Nat.pow_dvd_pow 2 hk
  have hroom : a.toNat - a.toNat % 2 ^ k + 2 ^ k ≤ 2 ^ w := by
    have hq : a.toNat / 2 ^ k < 2 ^ w / 2 ^ k :=
      Nat.div_lt_div_of_lt_of_dvd hdvd a.isLt
    have hb : a.toNat - a.toNat % 2 ^ k = a.toNat / 2 ^ k * 2 ^ k :=
      Nat.div_mul_self_eq_mod_sub_self.symm
    have hw : 2 ^ w / 2 ^ k * 2 ^ k = 2 ^ w := Nat.div_mul_cancel hdvd
    calc a.toNat - a.toNat % 2 ^ k + 2 ^ k = (a.toNat / 2 ^ k + 1) * 2 ^ k := by rw [hb, Nat.succ_mul]
      _ ≤ 2 ^ w / 2 ^ k * 2 ^ k := Nat.mul_le_mul_right _ hq
      _ = 2 ^ w := hw
  have hle : a.toNat % 2 ^ k ≤ a.toNat := Nat.mod_le _ _
  have hsum : (a + BitVec.ofNat w i).toNat = a.toNat + i := by
    rw [BitVec.toNat_add, BitVec.toNat_ofNat, Nat.mod_eq_of_lt (a := i) (by omega),
      Nat.mod_eq_of_lt (by omega)]
  apply BitVec.eq_of_toNat_eq
  rw [toNat_base, toNat_base, hsum]
  have hrem : (a.toNat + i) % 2 ^ k = a.toNat % 2 ^ k + i := by
    rw [Nat.add_mod, Nat.mod_eq_of_lt (a := i) (by omega), Nat.mod_eq_of_lt hmod]
  omega

theorem base_add_off_add (k : Nat) (a : BitVec w) (i : Nat) :
    base k a + BitVec.ofNat w (off k a + i) = a + BitVec.ofNat w i := by
  rw [BitVec.ofNat_add, ← BitVec.add_assoc, base_add_off]

/-- The distance of `addr + i` from `addr` is `i`, short of a full turn. -/
theorem toNat_add_sub_self (addr : BitVec w) (i : Nat) (hi : i < 2 ^ w) :
    (addr + BitVec.ofNat w i - addr).toNat = i := by
  rw [BitVec.add_comm, BitVec.add_sub_cancel, BitVec.toNat_ofNat, Nat.mod_eq_of_lt hi]

/-- Every address is its distance away from `addr`. -/
theorem add_distance (addr a : BitVec w) : addr + BitVec.ofNat w (a - addr).toNat = a := by
  rw [BitVec.ofNat_toNat, BitVec.setWidth_eq, BitVec.add_comm, BitVec.sub_add_cancel]

theorem off_add (k : Nat) (hk : k ≤ w) (a : BitVec w) (i : Nat) (hi : off k a + i < 2 ^ k) :
    off k (a + BitVec.ofNat w i) = off k a + i := by
  have hpow : 2 ^ k ≤ 2 ^ w := Nat.pow_le_pow_right (by omega) hk
  rw [off, base_add k hk a i hi, ← base_add_off_add k a i, toNat_add_sub_self _ _ (by omega)]

theorem off_base (k : Nat) (a : BitVec w) (h : base k a = a) : off k a = 0 := by
  rw [off, h, BitVec.sub_self]
  rfl

/-- The address at distance `done + m` from `addr` is `m` past `addr + done`. -/
theorem add_add_ofNat (addr : BitVec w) (done m : Nat) :
    addr + BitVec.ofNat w done + BitVec.ofNat w m = addr + BitVec.ofNat w (done + m) := by
  rw [BitVec.add_assoc, BitVec.ofNat_add]

section Chunk

variable (k : Nat) (hk : k ≤ w) (addr cur : BitVec w) (done n : Nat)
  (hcur : cur = addr + BitVec.ofNat w done) (hfit : off k cur + n ≤ 2 ^ k)
  (hsize : done + n ≤ 2 ^ w)

include hcur hsize in
/-- A position of the chunk served at `cur` lies `done` and its offset in the chunk away
from `addr`. -/
theorem dist_of_mem_chunk (i : Nat) (hlo : off k cur ≤ i) (hhi : i < off k cur + n) :
    (base k cur + BitVec.ofNat w i - addr).toNat = done + (i - off k cur) := by
  have hsplit : base k cur + BitVec.ofNat w i = cur + BitVec.ofNat w (i - off k cur) := by
    rw [← base_add_off_add k cur, Nat.add_sub_cancel' hlo]
  rw [hsplit, hcur, add_add_ofNat, ← hcur, toNat_add_sub_self _ _ (by omega)]

include hk hcur hfit in
/-- Conversely an address less than `n` past `cur` sits in the granule of `cur`, that far
past its offset. -/
theorem mem_chunk_of_dist (b : BitVec w) (i : Nat) (hb : base k b = b) (hi : i < 2 ^ k)
    (hlo : done ≤ (b + BitVec.ofNat w i - addr).toNat)
    (hhi : (b + BitVec.ofNat w i - addr).toNat < done + n) :
    b = base k cur ∧ off k cur ≤ i ∧ i < off k cur + n := by
  have hpow : 2 ^ k ≤ 2 ^ w := Nat.pow_le_pow_right (by omega) hk
  generalize hm : (b + BitVec.ofNat w i - addr).toNat - done = m
  have hmlt : m < n := by omega
  have haddr : b + BitVec.ofNat w i = cur + BitVec.ofNat w m := by
    rw [hcur, add_add_ofNat, ← hm, Nat.add_sub_cancel' hlo]
    exact (add_distance addr _).symm
  have hbase : b = base k cur := by
    have hleft := base_add k hk b i (by rw [off_base k b hb]; omega)
    have hright := base_add k hk cur m (by omega)
    rw [← hb, ← hleft, haddr, hright]
  have hval : BitVec.ofNat w i = BitVec.ofNat w (off k cur + m) := by
    have h := haddr
    rw [← base_add_off_add k cur m, ← hbase] at h
    exact (BitVec.add_right_inj _).mp h
  have hnat := congrArg BitVec.toNat hval
  rw [BitVec.toNat_ofNat, BitVec.toNat_ofNat, Nat.mod_eq_of_lt (by omega),
    Nat.mod_eq_of_lt (by omega)] at hnat
  exact ⟨hbase, by omega, by omega⟩

end Chunk

/-! ### Walking a range -/

variable {σ ε : Type}

/-- Serve `remaining` bytes from `cur`, at most one granule per step. The body gets the
current address, the chunk length and the number of bytes already served; an error
stops the walk and keeps the state reached. -/
def walk (k : Nat) (body : BitVec w → Nat → Nat → σ → Except ε Unit × σ) :
    Nat → BitVec w → Nat → Nat → σ → Except ε Unit × σ
  | 0, _, _, _, s => (.ok (), s)
  | fuel + 1, cur, done, remaining, s =>
    if remaining = 0 then (.ok (), s)
    else
      let n := if 2 ^ k - off k cur < remaining then 2 ^ k - off k cur else remaining
      match body cur n done s with
      | (.error e, s') => (.error e, s')
      | (.ok _, s') => walk k body fuel (cur + BitVec.ofNat w n) (done + n) (remaining - n) s'

/-- Walk the `size` bytes from `addr`. Each step serves at least one byte, so `size` steps
are enough. -/
def walkRange (k : Nat) (body : BitVec w → Nat → Nat → σ → Except ε Unit × σ)
    (addr : BitVec w) (size : Nat) (s : σ) : Except ε Unit × σ :=
  walk k body size addr 0 size s

/-- What a walk leaves: `I size` when it ran to the end, `E` when a body failed. -/
def Leaves (size : Nat) (I : Nat → σ → Prop) (E : ε → σ → Prop) :
    Except ε Unit × σ → Prop
  | (.ok _, s) => I size s
  | (.error e, s) => E e s

/-- The loop rule: an invariant over the number of bytes served. -/
theorem walkRange_rule (k : Nat) (body : BitVec w → Nat → Nat → σ → Except ε Unit × σ)
    (addr : BitVec w) (size : Nat) (I : Nat → σ → Prop) (E : ε → σ → Prop)
    (hbody : ∀ done n s, I done s → 0 < n → done + n ≤ size →
      off k (addr + BitVec.ofNat w done) + n ≤ 2 ^ k →
      Leaves (done + n) I E (body (addr + BitVec.ofNat w done) n done s))
    (s : σ) (hinit : I 0 s) : Leaves size I E (walkRange k body addr size s) := by
  have hgen : ∀ fuel done remaining s, remaining ≤ fuel → done + remaining = size → I done s →
      Leaves size I E
        (walk k body fuel (addr + BitVec.ofNat w done) done remaining s) := by
    intro fuel
    induction fuel with
    | zero =>
        intro done remaining s hfuel hsize hI
        have hdone : done = size := by omega
        rw [walk, ← hdone]
        exact hI
    | succ fuel ih =>
        intro done remaining s hfuel hsize hI
        rw [walk]
        by_cases hrem : remaining = 0
        · have hdone : done = size := by omega
          rw [if_pos hrem, ← hdone]
          exact hI
        · rw [if_neg hrem]
          have hoff := off_lt k (addr + BitVec.ofNat w done)
          generalize hn : (if 2 ^ k - off k (addr + BitVec.ofNat w done) < remaining then
            2 ^ k - off k (addr + BitVec.ofNat w done) else remaining) = n
          have hbounds : 0 < n ∧ n ≤ remaining ∧
              off k (addr + BitVec.ofNat w done) + n ≤ 2 ^ k := by
            split at hn <;> omega
          obtain ⟨hpos, hle, hfit⟩ := hbounds
          have hleaves := hbody done n s hI hpos (by omega) hfit
          simp only
          cases hres : body (addr + BitVec.ofNat w done) n done s with
          | mk r s' =>
              rw [hres] at hleaves
              cases r with
              | error e => exact hleaves
              | ok u =>
                  simp only [add_add_ofNat]
                  exact ih (done + n) (remaining - n) s' (by omega) (by omega) hleaves
  have := hgen size 0 size s (le_refl _) (by omega) hinit
  rwa [BitVec.add_zero] at this

/-- A walk over a larger state, seen through the part of it the plain walk has. -/
theorem walkRange_image {τ : Type} (k : Nat) (body : BitVec w → Nat → Nat → σ → Except ε Unit × σ)
    (body' : BitVec w → Nat → Nat → τ → Except ε Unit × τ) (view : τ → σ)
    (hbody : ∀ cur n done t,
      body cur n done (view t) = ((body' cur n done t).1, view (body' cur n done t).2))
    (addr : BitVec w) (size : Nat) (t : τ) :
    walkRange k body addr size (view t) =
      ((walkRange k body' addr size t).1, view (walkRange k body' addr size t).2) := by
  have hgen : ∀ fuel cur done remaining t, walk k body fuel cur done remaining (view t) =
      ((walk k body' fuel cur done remaining t).1,
        view (walk k body' fuel cur done remaining t).2) := by
    intro fuel
    induction fuel with
    | zero => intros; rfl
    | succ fuel ih =>
        intro cur done remaining t
        simp only [walk]
        by_cases hrem : remaining = 0
        · rw [if_pos hrem, if_pos hrem]
        · rw [if_neg hrem, if_neg hrem]
          generalize (if 2 ^ k - off k cur < remaining then 2 ^ k - off k cur
            else remaining) = n
          rw [hbody]
          cases body' cur n done t with
          | mk r t' =>
              cases r with
              | error e => rfl
              | ok u => exact ih _ _ _ t'
  exact hgen size addr 0 size t

end Granule
