import PicoCpu.Host.PeImage

/-!
Bytes in memory, the words they make, and providers that serve them. A function of the inspector
that only reads what is there returns a value, whatever the provider's state.
-/

namespace PicoCpu

namespace Host

/-! ### Bytes in memory -/

/-- The bytes stand at `a`. -/
def HoldsAt (m : ByteMap) (a : GuestAddr) (bs : List U8) : Prop :=
  ∀ i (h : i < bs.length), m (a + BitVec.ofNat 64 i) = some bs[i]

instance (m : ByteMap) (a : GuestAddr) (bs : List U8) : Decidable (HoldsAt m a bs) :=
  inferInstanceAs (Decidable (∀ i (h : i < bs.length), m (a + BitVec.ofNat 64 i) = some bs[i]))

/-- The memory with these bytes at `a`. -/
def store (m : ByteMap) (a : GuestAddr) (bs : List U8) : ByteMap := fun x =>
  if h : (x - a).toNat < bs.length then some bs[(x - a).toNat] else m x

def le16 (v : U16) : List U8 := [v.setWidth 8, (v >>> 8).setWidth 8]
def le32 (v : U32) : List U8 := le16 (v.setWidth 16) ++ le16 ((v >>> 16).setWidth 16)
def le64 (v : U64) : List U8 := le32 (v.setWidth 32) ++ le32 ((v >>> 32).setWidth 32)

theorem le16_length (v : U16) : (le16 v).length = 2 := rfl
theorem le32_length (v : U32) : (le32 v).length = 4 := rfl
theorem le64_length (v : U64) : (le64 v).length = 8 := rfl

theorem holdsAt_append {m : ByteMap} {a : GuestAddr} {bs bs' : List U8} :
    HoldsAt m a (bs ++ bs') ↔
      HoldsAt m a bs ∧ HoldsAt m (a + BitVec.ofNat 64 bs.length) bs' := by
  constructor
  · intro h
    constructor
    · intro i hi
      have hbyte := h i (by rw [List.length_append]; omega)
      rwa [List.getElem_append_left hi] at hbyte
    · intro i hi
      have hbyte := h (bs.length + i) (by rw [List.length_append]; omega)
      rw [List.getElem_append_right (by omega)] at hbyte
      rw [BitVec.add_assoc, ← BitVec.ofNat_add, hbyte]
      simp only [Nat.add_sub_cancel_left]
  · rintro ⟨hleft, hright⟩ i hi
    by_cases hlt : i < bs.length
    · rw [List.getElem_append_left hlt]
      exact hleft i hlt
    · have hbyte := hright (i - bs.length) (by rw [List.length_append] at hi; omega)
      rw [BitVec.add_assoc, ← BitVec.ofNat_add, Nat.add_sub_cancel' (by omega)] at hbyte
      rw [List.getElem_append_right (by omega), hbyte]

/-- A word from its halves. -/
theorem append_halves {w : Nat} (v : BitVec (w + w)) :
    (v >>> w).setWidth w ++ v.setWidth w = v := by
  apply BitVec.eq_of_getLsbD_eq
  intro i hi
  rw [BitVec.getLsbD_append, BitVec.getLsbD_setWidth, BitVec.getLsbD_setWidth,
    BitVec.getLsbD_ushiftRight]
  by_cases hlow : i < w
  · simp [hlow]
  · have hhigh : i - w < w := by omega
    simp [hlow, hhigh, Nat.add_sub_cancel' (Nat.le_of_not_lt hlow)]

/-- The buffer begins with these bytes from `off` on. -/
def Starts (buf : Buf) (off : Nat) (bs : List U8) : Prop :=
  ∀ i (h : i < bs.length), buf (off + i) = bs[i]

theorem starts_append {buf : Buf} {off : Nat} {bs bs' : List U8} :
    Starts buf off (bs ++ bs') → Starts buf off bs ∧ Starts buf (off + bs.length) bs' := by
  intro h
  constructor
  · intro i hi
    have hbyte := h i (by rw [List.length_append]; omega)
    rwa [List.getElem_append_left hi] at hbyte
  · intro i hi
    have hbyte := h (bs.length + i) (by rw [List.length_append]; omega)
    rw [List.getElem_append_right (by omega)] at hbyte
    rw [Nat.add_assoc, hbyte]
    simp only [Nat.add_sub_cancel_left]

theorem u16At_le16 {buf : Buf} {off : Nat} {v : U16} (h : Starts buf off (le16 v)) :
    u16At buf off = v := by
  have hlow : buf off = v.setWidth 8 := h 0 Nat.zero_lt_two
  have hhigh : buf (off + 1) = (v >>> 8).setWidth 8 := h 1 Nat.one_lt_two
  rw [u16At, hlow, hhigh]
  exact append_halves (w := 8) v

theorem u32At_le32 {buf : Buf} {off : Nat} {v : U32} (h : Starts buf off (le32 v)) :
    u32At buf off = v := by
  obtain ⟨hlow, hhigh⟩ := starts_append h
  rw [le16_length] at hhigh
  rw [u32At, u16At_le16 hlow, u16At_le16 hhigh]
  exact append_halves (w := 16) v

theorem u64At_le64 {buf : Buf} {off : Nat} {v : U64} (h : Starts buf off (le64 v)) :
    u64At buf off = v := by
  obtain ⟨hlow, hhigh⟩ := starts_append h
  rw [le32_length] at hhigh
  rw [u64At, u32At_le32 hlow, u32At_le32 hhigh]
  exact append_halves (w := 32) v

/-! ### Providers that serve a memory -/

/-- From every state that meets `Inv`, the provider reads what the memory holds. -/
structure Serves {σ : Type} (P : MemoryProvider σ) (Inv : σ → Prop) (m : ByteMap) : Prop where
  read : ∀ addr size out s, Inv s → (∀ i < size, (m (addr + BitVec.ofNat 64 i)).isSome = true) →
    ∃ buf s', P.read addr size out s = (.ok (), buf, s') ∧ Inv s' ∧
      ∀ i < size, m (addr + BitVec.ofNat 64 i) = some (buf i)

/-- Every run from a state that meets `Inv` returns a value with `Q`, in such a state. -/
def Returns {σ α : Type} (Inv : σ → Prop) (p : Inspect σ α) (Q : α → Prop) : Prop :=
  ∀ s, Inv s → ∃ a s', p s = some (.ok (a, s')) ∧ Inv s' ∧ Q a

/-- Every run from such a state has the result `r`; a value comes with such a state again. -/
def Gives {σ α : Type} (Inv : σ → Prop) (p : Inspect σ α) (r : Except Status α) : Prop :=
  ∀ s, Inv s →
    match r with
    | .ok a => ∃ s', p s = some (.ok (a, s')) ∧ Inv s'
    | .error e => p s = some (.error e)

section Returns

variable {σ α β : Type} {Inv : σ → Prop}

theorem returns_pure {a : α} {Q : α → Prop} (h : Q a) : Returns Inv (pure a) Q :=
  fun s hs => ⟨a, s, rfl, hs, h⟩

theorem returns_bind {p : Inspect σ α} {f : α → Inspect σ β} {R : α → Prop} {Q : β → Prop}
    (hp : Returns Inv p R) (hf : ∀ a, R a → Returns Inv (f a) Q) : Returns Inv (p >>= f) Q := by
  intro s hs
  obtain ⟨a, s', hrun, hs', ha⟩ := hp s hs
  obtain ⟨b, s'', hrun', hs'', hb⟩ := hf a ha s' hs'
  refine ⟨b, s'', ?_, hs'', hb⟩
  have hbind : (p >>= f) s = (p s : ExceptT Status Option (α × σ)) >>= fun r => f r.1 r.2 := rfl
  rw [hbind, hrun]
  exact hrun'

theorem Gives.returns {p : Inspect σ α} {a : α} (h : Gives Inv p (.ok a)) :
    Returns Inv p fun b => b = a := by
  intro s hs
  obtain ⟨s', hrun, hs'⟩ := h s hs
  exact ⟨a, s', hrun, hs', rfl⟩

theorem gives_stop (e : Status) : Gives Inv (stop e : Inspect σ α) (.error e) := fun _ _ => rfl

theorem gives_pure (a : α) : Gives Inv (pure a : Inspect σ α) (.ok a) :=
  fun s hs => ⟨s, rfl, hs⟩

/-- A program that first returns something ends as what follows does. -/
theorem gives_bind {p : Inspect σ α} {f : α → Inspect σ β} {R : α → Prop} {r : Except Status β}
    (hp : Returns Inv p R) (hf : ∀ a, R a → Gives Inv (f a) r) : Gives Inv (p >>= f) r := by
  intro s hs
  obtain ⟨a, s', hrun, hs', ha⟩ := hp s hs
  have hbind : (p >>= f) s = f a s' := by
    have hunfold : (p >>= f) s =
      (p s : ExceptT Status Option (α × σ)) >>= fun r => f r.1 r.2 := rfl
    rw [hunfold, hrun]
    rfl
  rw [hbind]
  exact hf a ha s' hs'

theorem returns_readBytes {P : MemoryProvider σ} {m : ByteMap} (hP : Serves P Inv m)
    {a : GuestAddr} {bs : List U8} (hm : HoldsAt m a bs) {n : Nat} (hn : n = bs.length) :
    Returns Inv (readBytes P a n) fun buf => Starts buf 0 bs := by
  subst hn
  intro s hs
  have hpresent : ∀ i < bs.length, (m (a + BitVec.ofNat 64 i)).isSome = true :=
    fun i hi => by rw [hm i hi]; rfl
  obtain ⟨buf, s', hread, hs', hbytes⟩ := hP.read a bs.length (fun _ => 0) s hs hpresent
  refine ⟨buf, s', ?_, hs', fun i hi => ?_⟩
  · rw [readBytes, hread]
  · have hbyte := (hm i hi).symm.trans (hbytes i hi)
    rw [Nat.zero_add]
    exact (Option.some.inj hbyte).symm

end Returns

/-- The provider of a memory that does not change. -/
def staticProvider (m : ByteMap) : MemoryProvider Unit where
  read addr size out s :=
    if (List.range size).all fun i => (m (addr + BitVec.ofNat 64 i)).isSome then
      (.ok (), fun i => if i < size then (m (addr + BitVec.ofNat 64 i)).getD 0 else out i, s)
    else (.error .unmappedRead, out, s)
  write _ _ _ s := (.error .protectionViolation, s)

theorem serves_staticProvider (m : ByteMap) : Serves (staticProvider m) (fun _ => True) m := by
  refine ⟨fun addr size out s _ hpresent => ?_⟩
  have hall : ((List.range size).all fun i => (m (addr + BitVec.ofNat 64 i)).isSome) = true := by
    rw [List.all_eq_true]
    exact fun i hi => hpresent i (List.mem_range.mp hi)
  refine ⟨fun i => if i < size then (m (addr + BitVec.ofNat 64 i)).getD 0 else out i, s, ?_,
    trivial, fun i hi => ?_⟩
  · exact if_pos hall
  · obtain ⟨b, hb⟩ := Option.isSome_iff_exists.mp (hpresent i hi)
    simp only [if_pos hi, hb, Option.getD_some]

end Host

end PicoCpu
