import PicoCpu.Ir
import PicoCpu.Lib.GranuleCache

/-!
The memory provider interface, and what it means for a provider to represent a
partial byte memory. The cache layers are providers over a next provider; their
correctness is that they represent whatever the next one does.
-/

namespace PicoCpu

open Granule

/-- `MemoryProvider`, with the provider's state passed explicitly. `read` is given the
caller's buffer and returns what it left there; `.ok ()` is `Status::Ok`. -/
structure MemoryProvider (σ : Type) where
  read : GuestAddr → Nat → Buf → σ → Except Status Unit × Buf × σ
  write : GuestAddr → Nat → Buf → σ → Except Status Unit × σ

/-- A partial byte memory: the readable bytes and their values. -/
abbrev ByteMap := GuestAddr → Option U8

/-- The provider behaves as the byte memory `mem` of its state, from every state that
meets `Inv`. A read changes no byte of it and, when it returns Ok, every byte it
delivered is the memory's; a failed write changes nothing; a write that returns Ok puts
its bytes there and loses no other. -/
structure Represents {σ : Type} (P : MemoryProvider σ) (Inv : σ → Prop) (mem : σ → ByteMap) :
    Prop where
  read_inv : ∀ addr size out s, size ≤ 2 ^ 64 → Inv s → Inv (P.read addr size out s).2.2
  read_mem : ∀ addr size out s, size ≤ 2 ^ 64 → Inv s →
    mem (P.read addr size out s).2.2 = mem s
  read_frame : ∀ addr size out s, size ≤ 2 ^ 64 → Inv s → ∀ i, size ≤ i →
    (P.read addr size out s).2.1 i = out i
  read_ok : ∀ addr size out s, size ≤ 2 ^ 64 → Inv s → (P.read addr size out s).1 = .ok () →
    ∀ i < size, mem s (addr + BitVec.ofNat 64 i) = some ((P.read addr size out s).2.1 i)
  write_inv : ∀ addr size data s, size ≤ 2 ^ 64 → Inv s → Inv (P.write addr size data s).2
  write_error : ∀ addr size data s e, size ≤ 2 ^ 64 → Inv s →
    (P.write addr size data s).1 = .error e → mem (P.write addr size data s).2 = mem s
  write_ok : ∀ addr size data s, size ≤ 2 ^ 64 → Inv s → (P.write addr size data s).1 = .ok () →
    Written (mem s) (mem (P.write addr size data s).2) addr size data

/-- An empty range writes nothing. -/
theorem written_zero (mem : ByteMap) (addr : GuestAddr) (data : Buf) :
    Written mem mem addr 0 data :=
  fun _ => ⟨fun h => absurd h (Nat.not_lt_zero _), fun _ _ hv => hv⟩

/-- A buffer filled so far: the first `done` bytes are the memory's, and nothing from
`size` on has been touched. -/
def Filled (mem : ByteMap) (addr : GuestAddr) (size : Nat) (out : Buf) (done : Nat)
    (out' : Buf) : Prop :=
  (∀ i < done, mem (addr + BitVec.ofNat 64 i) = some (out' i)) ∧ ∀ i, size ≤ i → out' i = out i

/-- Copying the chunk at `cur` out of a held granule extends the filled part. -/
theorem Filled.copy {mem : ByteMap} {addr cur : GuestAddr} {size done n k : Nat} {out out' d : Buf}
    (hfill : Filled mem addr size out done out') (hcur : cur = addr + BitVec.ofNat 64 done)
    (hle : done + n ≤ size) (hfit : off k cur + n ≤ 2 ^ k)
    (hgranule : ∀ i < 2 ^ k, mem (base k cur + BitVec.ofNat 64 i) = some (d i)) :
    Filled mem addr size out (done + n)
      (overwrite out' done n (fun i => d (off k cur + i))) := by
  obtain ⟨hdone, hframe⟩ := hfill
  constructor
  · intro i hi
    by_cases hpos : done ≤ i ∧ i < done + n
    · have hbyte := hgranule (off k cur + (i - done)) (by omega)
      rw [base_add_off_add, hcur, add_add_ofNat, Nat.add_sub_cancel' hpos.1, ← hcur] at hbyte
      rw [overwrite_inside _ _ _ _ hpos, hbyte]
    · rw [overwrite_outside _ _ _ _ hpos]
      exact hdone i (by omega)
  · intro i hi
    rw [overwrite_outside _ _ _ _ (by omega)]
    exact hframe i hi

end PicoCpu
