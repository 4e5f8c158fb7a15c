import PicoCpu.Host.Unwind

/-!
The walk over unwind codes of any memory. Its index is a byte: it ends, takes each slot once and
reads none past the count exactly when no operation it comes to runs over slot 254 and no allocation
it undoes over the count.
-/

namespace PicoCpu

namespace Host

/-! ### Memories that can be short of bytes -/

section Mirrors

variable {σ α β : Type} {P : MemoryProvider σ} {Inv : σ → Prop} {m : ByteMap}

/-- From every state that meets `Inv`, the provider reads what the memory holds, and fails where it
lacks a byte. -/
structure Mirrors (P : MemoryProvider σ) (Inv : σ → Prop) (m : ByteMap) : Prop extends
    Serves P Inv m where
  fails : ∀ addr size out s, Inv s → (∃ i < size, m (addr + BitVec.ofNat 64 i) = none) →
    ∃ e buf s', P.read addr size out s = (.error e, buf, s')

theorem mirrors_staticProvider (m : ByteMap) : Mirrors (staticProvider m) (fun _ => True) m := by
  refine ⟨serves_staticProvider m, fun addr size out s _ hlack => ?_⟩
  obtain ⟨i, hi, hnone⟩ := hlack
  have hall : ¬ ((List.range size).all fun i => (m (addr + BitVec.ofNat 64 i)).isSome) = true := by
    intro hall
    have hsome := List.all_eq_true.mp hall i (List.mem_range.mpr hi)
    rw [hnone] at hsome
    cases hsome
  exact ⟨.unmappedRead, out, s, if_neg hall⟩

/-- From a state that meets `Inv` the program ends, and a value comes with such a state. -/
def Keeps (Inv : σ → Prop) (p : Inspect σ α) : Prop :=
  ∀ s, Inv s → (∃ a s', p s = some (.ok (a, s')) ∧ Inv s') ∨ ∃ e, p s = some (.error e)

theorem keeps_pure (a : α) : Keeps Inv (pure a : Inspect σ α) := fun s hs => .inl ⟨a, s, rfl, hs⟩

theorem keeps_stop (e : Status) : Keeps Inv (stop e : Inspect σ α) := fun _ _ => .inr ⟨e, rfl⟩

theorem inspect_bind (p : Inspect σ α) (f : α → Inspect σ β) (s : σ) :
    (p >>= f) s = (p s : ExceptT Status Option (α × σ)) >>= fun r => f r.1 r.2 := rfl

theorem bind_of_ok {p : Inspect σ α} {f : α → Inspect σ β} {s s' : σ} {a : α}
    (h : p s = some (.ok (a, s'))) : (p >>= f) s = f a s' := by
  rw [inspect_bind, h]
  rfl

theorem bind_of_error {p : Inspect σ α} {f : α → Inspect σ β} {s : σ} {e : Status}
    (h : p s = some (.error e)) : (p >>= f) s = some (.error e) := by
  rw [inspect_bind, h]
  rfl

/-- A sequence that returns went through a value of its first part. -/
theorem ok_of_bind {p : Inspect σ α} {f : α → Inspect σ β} {s : σ} {r : β × σ}
    (h : (p >>= f) s = some (.ok r)) :
    ∃ a s', p s = some (.ok (a, s')) ∧ f a s' = some (.ok r) := by
  cases hp : p s with
  | none =>
      rw [inspect_bind, hp] at h
      cases h
  | some x =>
      cases x with
      | error e =>
          rw [bind_of_error hp] at h
          cases h
      | ok x =>
          rw [bind_of_ok hp] at h
          exact ⟨x.1, x.2, rfl, h⟩

theorem keeps_bind {p : Inspect σ α} {f : α → Inspect σ β} (hp : Keeps Inv p)
    (hf : ∀ a, Keeps Inv (f a)) : Keeps Inv (p >>= f) := by
  intro s hs
  rcases hp s hs with ⟨a, s', hrun, hs'⟩ | ⟨e, hrun⟩
  · rw [bind_of_ok hrun]
    exact hf a s' hs'
  · exact .inr ⟨e, bind_of_error hrun⟩

theorem keeps_ite {c : Prop} [Decidable c] {p q : Inspect σ α} (hp : Keeps Inv p)
    (hq : Keeps Inv q) : Keeps Inv (if c then p else q) := by
  split
  · exact hp
  · exact hq

/-- What a read makes of the memory. -/
theorem readBytes_cases (hP : Mirrors P Inv m) (addr : GuestAddr) (size : Nat) {s : σ}
    (hs : Inv s) :
    (∃ buf s', readBytes P addr size s = some (.ok (buf, s')) ∧ Inv s' ∧
      ∀ i < size, m (addr + BitVec.ofNat 64 i) = some (buf i)) ∨
    (∃ e, readBytes P addr size s = some (.error e)) ∧
      ∃ i < size, m (addr + BitVec.ofNat 64 i) = none := by
  by_cases hall : ∀ i < size, (m (addr + BitVec.ofNat 64 i)).isSome = true
  · obtain ⟨buf, s', hread, hs', hbytes⟩ := hP.read addr size (fun _ => 0) s hs hall
    exact .inl ⟨buf, s', by rw [readBytes, hread], hs', hbytes⟩
  · push Not at hall
    obtain ⟨i, hi, hnone⟩ := hall
    replace hnone := Option.not_isSome_iff_eq_none.mp hnone
    obtain ⟨e, buf, s', hread⟩ := hP.fails addr size (fun _ => 0) s hs ⟨i, hi, hnone⟩
    exact .inr ⟨⟨e, by rw [readBytes, hread]⟩, i, hi, hnone⟩

theorem readBytes_ends (P : MemoryProvider σ) (addr : GuestAddr) (size : Nat) (s : σ) :
    ∃ r, readBytes P addr size s = some r := by
  rw [readBytes]
  split
  · exact ⟨_, rfl⟩
  · exact ⟨_, rfl⟩

theorem keeps_readBytes (hP : Mirrors P Inv m) (addr : GuestAddr) (size : Nat) :
    Keeps Inv (readBytes P addr size) := by
  intro s hs
  rcases readBytes_cases hP addr size hs with ⟨buf, s', hread, hs', _⟩ | ⟨hfailed, _⟩
  · exact .inl ⟨buf, s', hread, hs'⟩
  · exact .inr hfailed

end Mirrors

/-! ### What the walk starts from -/

section Start

variable {σ : Type} {P : MemoryProvider σ} {Inv : σ → Prop} {m : ByteMap}

/-- The codes, their count and the offset: what `seh_unwind_frame` finds before its loop. -/
def unwindInfo (P : MemoryProvider σ) (base rip : GuestAddr) :
    Inspect σ (GuestAddr × U8 × U32) := do
  let rf ← pdataLookup P base rip
  let ui ← followChain P base 16 rf.unwindRva
  let uiAddr := base + ui.setWidth 64
  let header ← readBytes P uiAddr 4
  pure (uiAddr + 4, header 2, (rip - (base + rf.beginRva.setWidth 64)).setWidth 32)

theorem sehUnwindFrame_eq (base rip rsp : GuestAddr) (fuel : Nat) :
    sehUnwindFrame P base rip rsp fuel = (do
      let info ← unwindInfo P base rip
      let rsp ← undoCodes P info.1 info.2.1 info.2.2 fuel 0 rsp
      let ret ← readBytes P rsp 8
      pure { callerRip := u64At ret 0, callerRsp := rsp + 8 }) := by
  rw [sehUnwindFrame, unwindInfo]
  simp only [bind_assoc, pure_bind]

section Keeps

variable (hread : ∀ addr size, size ≤ 16 → Keeps Inv (readBytes P addr size))
include hread

theorem keeps_readPdataDir (base : GuestAddr) : Keeps Inv (readPdataDir P base) := by
  unfold readPdataDir
  refine keeps_bind (hread _ 2 (by decide)) fun mz => keeps_ite (keeps_stop _) ?_
  refine keeps_bind (hread _ 4 (by decide)) fun lfanew => ?_
  refine keeps_bind (hread _ 4 (by decide)) fun sig => keeps_ite (keeps_stop _) ?_
  refine keeps_bind (hread _ 2 (by decide)) fun machine => keeps_ite (keeps_stop _) ?_
  exact keeps_bind (hread _ 8 (by decide)) fun dir => keeps_pure _

theorem keeps_searchPdata (pdata : GuestAddr) (target : U32) (lo hi : Nat) :
    Keeps Inv (searchPdata P pdata target lo hi) := by
  fun_induction searchPdata P pdata target lo hi with
  | case1 lo hi hlt mid ihbelow ihabove =>
      exact keeps_bind (hread _ 12 (by decide)) fun rec =>
        keeps_ite ihbelow (keeps_ite ihabove (keeps_pure _))
  | case2 lo hi hend => exact keeps_stop _

theorem keeps_pdataLookup (base rip : GuestAddr) : Keeps Inv (pdataLookup P base rip) := by
  unfold pdataLookup
  refine keeps_ite (keeps_stop _) (keeps_bind (keeps_readPdataDir hread base) fun dir => ?_)
  exact keeps_ite (keeps_stop _) (keeps_searchPdata hread _ _ _ _)

theorem keeps_followChain (base : GuestAddr) (hops : Nat) (ui : U32) :
    Keeps Inv (followChain P base hops ui) := by
  induction hops generalizing ui with
  | zero => exact keeps_pure ui
  | succ hops ih =>
      rw [followChain]
      exact keeps_ite (keeps_pure ui) (keeps_bind (hread _ 12 (by decide)) fun parent => ih _)

theorem keeps_unwindInfo (base rip : GuestAddr) : Keeps Inv (unwindInfo P base rip) :=
  keeps_bind (keeps_pdataLookup hread base rip) fun rf =>
    keeps_bind (keeps_followChain hread base 16 _) fun ui =>
      keeps_bind (hread _ 4 (by decide)) fun header => keeps_pure _

end Keeps

/-- From an unwind word `n` indirections lead to the word `last`, which is not one. Each points at a
record whose unwind word comes next. -/
inductive Linked (m : ByteMap) (base : GuestAddr) (last : U32) : Nat → U32 → Prop where
  | here (h : last &&& 1 = 0) : Linked m base last 0 last
  | hop {n : Nat} {ui : U32} (parent : RuntimeFunction) (hlink : ui &&& 1 ≠ 0)
    (hm : HoldsAt m (base + (ui.setWidth 64 &&& ~~~1)) parent.bytes)
    (h : Linked m base last n parent.unwindRva) : Linked m base last (n + 1) ui

theorem returns_followChain (hP : Serves P Inv m) {base : GuestAddr} {last ui : U32} {n : Nat}
    (h : Linked m base last n ui) {hops : Nat} (hn : n ≤ hops) :
    Returns Inv (followChain P base hops ui) fun u => u = last := by
  induction h generalizing hops with
  | here hend =>
      cases hops with
      | zero => exact returns_pure rfl
      | succ hops =>
          rw [followChain, if_pos hend]
          exact returns_pure rfl
  | hop parent hlink hm h ih =>
      obtain ⟨hops, rfl⟩ := Nat.exists_eq_add_of_lt (Nat.lt_of_lt_of_le (Nat.succ_pos _) hn)
      rw [Nat.zero_add] at hn ⊢
      rw [followChain, if_neg hlink]
      refine returns_bind (returns_readBytes hP hm rfl) fun buf hbuf => ?_
      have hword : u32At buf 8 = parent.unwindRva := by
        have hlast := (starts_append hbuf).2
        rw [List.length_append, le32_length, le32_length] at hlast
        exact u32At_le32 hlast
      rw [hword]
      exact ih (Nat.le_of_succ_le_succ hn)

/-- In a function whose unwind word leads to an unwind info, the walk starts from that info, with
the offset in the function. -/
theorem returns_unwindInfo (hP : Serves P Inv m) {base rip : GuestAddr} {f : RuntimeFunction}
    (hrip : InFunction m base rip f) {n : Nat} {last : U32}
    (hlinks : Linked m base last n f.unwindRva) (hn : n ≤ 16) {version size count frame : U8}
    (hheader : HoldsAt m (base + last.setWidth 64) [version, size, count, frame]) :
    Returns Inv (unwindInfo P base rip) fun info => info = (base + last.setWidth 64 + 4, count,
      BitVec.ofNat 32 (rip.toNat - base.toNat - f.beginRva.toNat)) := by
  obtain ⟨lfanew, dir, fns, himage, hf⟩ := hrip.image
  obtain ⟨j, hj, rfl⟩ := List.getElem_of_mem hf
  unfold unwindInfo
  refine returns_bind (returns_pdataLookup hP himage hj hrip.base_le hrip.begin_le hrip.lt_end)
    fun rf hrf => ?_
  subst hrf
  refine returns_bind (returns_followChain hP hlinks hn) fun ui hui => ?_
  subst hui
  refine returns_bind (returns_readBytes hP hheader rfl) fun header hstart => ?_
  have hcount : header 2 = count := hstart 2 (by simp)
  have hoffset : ((rip - (base + fns[j].beginRva.setWidth 64)).setWidth 32 : U32) =
      BitVec.ofNat 32 (rip.toNat - base.toNat - fns[j].beginRva.toNat) := by
    have hbase := hrip.base_le
    have hbegin := hrip.begin_le
    have hripLt := rip.isLt
    apply BitVec.eq_of_toNat_eq
    rw [BitVec.toNat_setWidth, BitVec.toNat_sub, BitVec.toNat_add, BitVec.toNat_setWidth,
      BitVec.toNat_ofNat]
    omega
  rw [hcount, hoffset]
  exact returns_pure rfl

end Start

/-! ### One iteration -/

structure UnwindCode where
  off : U8
  op : BitVec 4
  info : BitVec 4

namespace UnwindCode

/-- The code of two bytes. -/
def ofBytes (off opInfo : U8) : UnwindCode :=
  { off, op := opInfo.setWidth 4, info := (opInfo >>> 4).setWidth 4 }

def slots (code : UnwindCode) : Nat := (unwindOpSize code.op code.info).toNat

/-- The slots that undoing it reads its operand from. -/
def operands (code : UnwindCode) : Nat :=
  if code.op = 1 then if code.info = 0 then 1 else 2 else 0

/-- Its operation has run by the offset. -/
def applies (code : UnwindCode) (offset : U32) : Bool := (code.off.setWidth 32).ule offset

/-- Its operation is one of those that can be undone. -/
def Known (code : UnwindCode) : Prop := code.op ∈ ([0, 1, 2, 3, 4, 5, 8, 9] : List (BitVec 4))

/-- Every value of the two fields at once: how many slots the operation takes. -/
theorem unwindOpSize_cases (op info : BitVec 4) :
    (0 < (unwindOpSize op info).toNat ∧ (unwindOpSize op info).toNat ≤ 3) ∧
      (op = 1 → (unwindOpSize op info).toNat = (if info = 0 then 1 else 2) + 1) ∧
      (1 < (unwindOpSize op info).toNat → op ∈ ([0, 1, 2, 3, 4, 5, 8, 9] : List (BitVec 4))) := by
  revert op info
  decide +kernel

theorem slots_pos (code : UnwindCode) : 0 < code.slots ∧ code.slots ≤ 3 :=
  (unwindOpSize_cases code.op code.info).1

theorem slots_of_allocLarge {code : UnwindCode} (h : code.op = 1) :
    code.slots = code.operands + 1 := by
  have hsize := (unwindOpSize_cases code.op code.info).2.1 h
  rw [slots, operands, if_pos h]
  exact hsize

theorem operands_of_ne {code : UnwindCode} (h : code.op ≠ 1) : code.operands = 0 := if_neg h

/-- The operations of several slots that read no operand can be undone. -/
theorem known_of_slots {code : UnwindCode} (h : 1 < code.slots) : code.Known :=
  (unwindOpSize_cases code.op code.info).2.2 h

end UnwindCode

/-- The code in a slot. -/
def codeIn (m : ByteMap) (codes : GuestAddr) (idx : Nat) : Option UnwindCode :=
  (m (codes + BitVec.ofNat 64 (2 * idx))).bind fun off =>
    (m (codes + BitVec.ofNat 64 (2 * idx) + 1)).map fun opInfo => .ofBytes off opInfo

/-- The walk gets past the code in the slot: it does not apply, or it can be undone and the memory
holds its operand. -/
def Passes (m : ByteMap) (codes : GuestAddr) (offset : U32) (idx : Nat) (code : UnwindCode) :
    Prop :=
  code.applies offset = true → code.Known ∧
    ∀ i < 2 * code.operands,
      (m (codes + BitVec.ofNat 64 (2 * (idx + 1)) + BitVec.ofNat 64 i)).isSome

section Iteration

variable {σ : Type} {P : MemoryProvider σ} {Inv : σ → Prop} {m : ByteMap} {codes : GuestAddr}
  {count : U8} {offset : U32}

/-- The body of the loop of `undoCodes`. -/
def undoSlot (P : MemoryProvider σ) (codes : GuestAddr) (offset : U32) (idx : U8) (rsp : U64) :
    Inspect σ (U8 × U64) := do
  let bytes ← readBytes P (codes + BitVec.ofNat 64 (2 * idx.toNat)) 2
  let code := UnwindCode.ofBytes (bytes 0) (bytes 1)
  let extra := codes + BitVec.ofNat 64 (2 * (idx.toNat + 1))
  let rsp ← if code.applies offset then undoCode P code.op code.info extra rsp else pure rsp
  pure (idx + unwindOpSize code.op code.info, rsp)

theorem undoCodes_succ (fuel : Nat) (idx : U8) (rsp : U64) :
    undoCodes P codes count offset (fuel + 1) idx rsp =
      if idx.ult count then
        undoSlot P codes offset idx rsp >>= fun r =>
          undoCodes P codes count offset fuel r.1 r.2
      else pure rsp := by
  rw [undoCodes, undoSlot]
  split
  · rw [bind_assoc]
    congr 1
    funext bytes
    dsimp only [UnwindCode.ofBytes, UnwindCode.applies]
    split
    next happlies => simp only [if_pos happlies, bind_assoc, pure_bind]
    next happlies => simp only [if_neg happlies, pure_bind]
  · rfl

theorem undoCode_pure {op : BitVec 4} (hop : op ≠ 1) (info : BitVec 4) (extra : GuestAddr)
    (rsp : U64) :
    (op ∈ ([0, 1, 2, 3, 4, 5, 8, 9] : List (BitVec 4)) ∧
      ∃ r, undoCode P op info extra rsp = pure r) ∨
    (op ∉ ([0, 1, 2, 3, 4, 5, 8, 9] : List (BitVec 4)) ∧
      undoCode P op info extra rsp = stop .notImplemented) := by
  have hcases : ∀ op : BitVec 4, op ≠ 1 →
      (op = 0 ∨ op = 2 ∨ op = 3 ∨ op = 4 ∨ op = 5 ∨ op = 8 ∨ op = 9) ∨
      (op = 6 ∨ op = 7 ∨ op = 10 ∨ op = 11 ∨ op = 12 ∨ op = 13 ∨ op = 14 ∨ op = 15) := by decide
  rcases hcases op hop with hknown | hunknown
  · rcases hknown with rfl | rfl | rfl | rfl | rfl | rfl | rfl <;>
      exact .inl ⟨by decide, _, rfl⟩
  · rcases hunknown with rfl | rfl | rfl | rfl | rfl | rfl | rfl | rfl <;>
      exact .inr ⟨by decide, rfl⟩

/-- Undoing a code reads its operand and nothing else. -/
theorem undoCode_cases (hP : Mirrors P Inv m) (code : UnwindCode) (extra : GuestAddr) (rsp : U64)
    {s : σ} (hs : Inv s) :
    (code.Known ∧ (∀ i < 2 * code.operands, (m (extra + BitVec.ofNat 64 i)).isSome) ∧
      ∃ rsp' s', undoCode P code.op code.info extra rsp s = some (.ok (rsp', s')) ∧ Inv s') ∨
    ¬ (code.Known ∧ ∀ i < 2 * code.operands, (m (extra + BitVec.ofNat 64 i)).isSome) ∧
      ∃ e, undoCode P code.op code.info extra rsp s = some (.error e) := by
  by_cases hop : code.op = 1
  · have hknown : code.Known := by
      rw [UnwindCode.Known, hop]
      decide
    have hread : ∃ f : Buf → U64, undoCode P code.op code.info extra rsp =
        readBytes P extra (2 * code.operands) >>= fun b => pure (f b) := by
      rw [UnwindCode.operands, if_pos hop, hop]
      by_cases hinfo : code.info = 0
      · rw [if_pos hinfo, hinfo]
        exact ⟨_, rfl⟩
      · rw [if_neg hinfo]
        exact ⟨_, if_neg hinfo⟩
    obtain ⟨f, hread⟩ := hread
    rw [hread]
    rcases readBytes_cases hP extra (2 * code.operands) hs with
      ⟨buf, s', hrun, hs', hbytes⟩ | ⟨⟨e, hrun⟩, i, hi, hnone⟩
    · refine .inl ⟨hknown, fun i hi => by rw [hbytes i hi]; rfl, f buf, s', ?_, hs'⟩
      rw [bind_of_ok hrun]
      rfl
    · refine .inr ⟨fun h => ?_, e, bind_of_error hrun⟩
      have hsome := h.2 i hi
      rw [hnone] at hsome
      cases hsome
  · rw [UnwindCode.operands_of_ne hop]
    rcases undoCode_pure (P := P) hop code.info extra rsp with ⟨hknown, r, hrun⟩ | ⟨hknown, hrun⟩
    · rw [hrun]
      exact .inl ⟨hknown, fun i hi => absurd hi (Nat.not_lt_zero i), r, s, rfl, hs⟩
    · rw [hrun]
      exact .inr ⟨fun h => hknown h.1, .notImplemented, rfl⟩

/-- The two bytes of a slot are read as its code, or the memory lacks one of them. -/
theorem readCode_cases (hP : Mirrors P Inv m) (codes : GuestAddr) (idx : Nat) {s : σ} (hs : Inv s) :
    (∃ buf s', readBytes P (codes + BitVec.ofNat 64 (2 * idx)) 2 s = some (.ok (buf, s')) ∧
      Inv s' ∧ codeIn m codes idx = some (.ofBytes (buf 0) (buf 1))) ∨
    codeIn m codes idx = none ∧
      ∃ e, readBytes P (codes + BitVec.ofNat 64 (2 * idx)) 2 s = some (.error e) := by
  rcases readBytes_cases hP (codes + BitVec.ofNat 64 (2 * idx)) 2 hs with
    ⟨buf, s', hrun, hs', hbytes⟩ | ⟨⟨e, hrun⟩, i, hi, hnone⟩
  · have hfirst := hbytes 0 Nat.zero_lt_two
    have hsecond := hbytes 1 Nat.one_lt_two
    rw [BitVec.add_zero] at hfirst
    refine .inl ⟨buf, s', hrun, hs', ?_⟩
    rw [codeIn, hfirst, Option.bind_some]
    exact congrArg (Option.map _) hsecond
  · refine .inr ⟨?_, e, hrun⟩
    obtain rfl | rfl : i = 0 ∨ i = 1 := by omega
    · rw [BitVec.add_zero] at hnone
      rw [codeIn, hnone, Option.bind_none]
    · have hsecond : m (codes + BitVec.ofNat 64 (2 * idx) + 1) = none := hnone
      rw [codeIn, hsecond]
      cases m (codes + BitVec.ofNat 64 (2 * idx)) <;> rfl

/-- An iteration goes on to the next slot where the walk gets past the code, and else fails. -/
theorem undoSlot_cases (hP : Mirrors P Inv m) (offset : U32) (idx : U8) (rsp : U64) {s : σ}
    (hs : Inv s) :
    (∃ code rsp' s', codeIn m codes idx.toNat = some code ∧ Passes m codes offset idx.toNat code ∧
      undoSlot P codes offset idx rsp s =
        some (.ok ((idx + BitVec.ofNat 8 code.slots, rsp'), s')) ∧ Inv s') ∨
    (∀ code, codeIn m codes idx.toNat = some code → ¬ Passes m codes offset idx.toNat code) ∧
      ∃ e, undoSlot P codes offset idx rsp s = some (.error e) := by
  rcases readCode_cases hP codes idx.toNat hs with ⟨buf, s', hrun, hs', hcode⟩ | ⟨hnone, e, hrun⟩
  · rw [undoSlot, bind_of_ok hrun]
    dsimp only
    generalize UnwindCode.ofBytes (buf 0) (buf 1) = code at hcode ⊢
    have hsize : unwindOpSize code.op code.info = BitVec.ofNat 8 code.slots := by
      rw [UnwindCode.slots, BitVec.ofNat_toNat, BitVec.setWidth_eq]
    rw [hcode, hsize]
    by_cases happlies : code.applies offset = true
    · rw [if_pos happlies]
      rcases undoCode_cases hP code (codes + BitVec.ofNat 64 (2 * (idx.toNat + 1))) rsp hs' with
        ⟨hknown, hoperand, rsp', s'', hundo, hs''⟩ | ⟨hnot, e, hundo⟩
      · exact .inl ⟨code, rsp', s'', rfl, fun _ => ⟨hknown, hoperand⟩, bind_of_ok hundo, hs''⟩
      · refine .inr ⟨fun code' hcode' hpasses => ?_, e, bind_of_error hundo⟩
        cases hcode'
        exact hnot (hpasses happlies)
    · rw [if_neg happlies]
      exact .inl ⟨code, rsp, s', rfl, fun h => absurd h happlies, rfl, hs'⟩
  · refine .inr ⟨fun code hcode => ?_, e, bind_of_error hrun⟩
    rw [hnone] at hcode
    cases hcode

end Iteration

/-! ### The iterations -/

section Walk

variable {σ : Type} (P : MemoryProvider σ) (m : ByteMap) (codes : GuestAddr) (count : U8)
  (offset : U32)

/-- The index, the stack pointer and the provider's state before iteration `n`. -/
def walkAt (rsp : U64) (s : σ) : Nat → Option ((U8 × U64) × σ)
  | 0 => some ((0, rsp), s)
  | n + 1 => (walkAt rsp s n).bind fun r =>
    if r.1.1.ult count then
      match undoSlot P codes offset r.1.1 r.1.2 r.2 with
      | some (.ok r') => some r'
      | _ => none
    else none

/-- Iteration `n` is at slot `idx`. -/
def IsAt (rsp : U64) (s : σ) (n idx : Nat) : Prop :=
  ∃ r, walkAt P codes count offset rsp s n = some r ∧ r.1.1.toNat = idx ∧ idx < count.toNat

/-- Iteration `n` takes slot `k`: it is the slot it is at, or another of the operation there. -/
def TakesSlot (rsp : U64) (s : σ) (n k : Nat) : Prop :=
  ∃ idx, IsAt P codes count offset rsp s n idx ∧
    (k = idx ∨ ∃ code, codeIn m codes idx = some code ∧ idx ≤ k ∧ k < idx + code.slots)

/-- Iteration `n` reads slot `k`: the slot it is at, or one with the operand of an operation that it
undoes. -/
def ReadsSlot (rsp : U64) (s : σ) (n k : Nat) : Prop :=
  ∃ idx, IsAt P codes count offset rsp s n idx ∧
    (k = idx ∨ ∃ code, codeIn m codes idx = some code ∧ code.applies offset = true ∧
      idx < k ∧ k ≤ idx + code.operands)

/-- The walk with an index that does not wrap comes to slot `idx`. -/
inductive ComesTo : Nat → Prop where
  | first : ComesTo 0
  | next {idx : Nat} {code : UnwindCode} (h : ComesTo idx) (hlt : idx < count.toNat)
    (hcode : codeIn m codes idx = some code) (hpasses : Passes m codes offset idx code) :
    ComesTo (idx + code.slots)

/-- No operation that the walk comes to runs over slot 254, and no operand that it reads over the
count. -/
def FitsIndex : Prop :=
  ∀ idx code, ComesTo m codes count offset idx → idx < count.toNat →
    codeIn m codes idx = some code →
    idx + code.slots ≤ 255 ∧ (code.applies offset = true → idx + code.operands < count.toNat)

end Walk

section WalkProofs

variable {σ : Type} {P : MemoryProvider σ} {Inv : σ → Prop} {m : ByteMap} {codes : GuestAddr}
  {count : U8} {offset : U32} {rsp : U64} {s : σ} {n : Nat} {r r' : (U8 × U64) × σ}

theorem walkAt_succ_iff : walkAt P codes count offset rsp s (n + 1) = some r' ↔
    ∃ r, walkAt P codes count offset rsp s n = some r ∧ r.1.1.toNat < count.toNat ∧
      undoSlot P codes offset r.1.1 r.1.2 r.2 = some (.ok r') := by
  rw [walkAt, Option.bind_eq_some_iff]
  refine exists_congr fun r => and_congr_right fun _ => ?_
  rw [BitVec.ult]
  by_cases hlt : r.1.1.toNat < count.toNat
  · rw [decide_eq_true hlt, if_pos rfl]
    split
    next r'' hrun =>
      rw [hrun]
      exact ⟨fun h => ⟨hlt, by cases h; rfl⟩, fun h => by cases h.2; rfl⟩
    next hnot =>
      exact iff_of_false (fun h => by cases h) fun h => hnot r' h.2
  · rw [decide_eq_false hlt, if_neg Bool.false_ne_true]
    exact iff_of_false (fun h => by cases h) fun h => hlt h.1

/-- What an iteration does: the index goes on by the slots of the operation, as a byte. -/
theorem walkAt_step (hP : Mirrors P Inv m) (hs : Inv r.2)
    (h : walkAt P codes count offset rsp s (n + 1) = some r')
    (hr : walkAt P codes count offset rsp s n = some r) :
    Inv r'.2 ∧ r.1.1.toNat < count.toNat ∧ ∃ code, codeIn m codes r.1.1.toNat = some code ∧
      Passes m codes offset r.1.1.toNat code ∧ r'.1.1 = r.1.1 + BitVec.ofNat 8 code.slots := by
  obtain ⟨r₀, hr₀, hlt, hrun⟩ := walkAt_succ_iff.mp h
  obtain rfl : r₀ = r := Option.some.inj (hr₀.symm.trans hr)
  rcases undoSlot_cases hP offset r₀.1.1 r₀.1.2 hs with
    ⟨code, rsp', s', hcode, hpasses, hundo, hs'⟩ | ⟨_, e, hundo⟩
  · rw [hundo] at hrun
    cases hrun
    exact ⟨hs', hlt, code, hcode, hpasses, rfl⟩
  · rw [hundo] at hrun
    cases hrun

theorem next_toNat {idx : U8} {code : UnwindCode} (h : idx.toNat + code.slots ≤ 255) :
    (idx + BitVec.ofNat 8 code.slots).toNat = idx.toNat + code.slots := by
  rw [BitVec.toNat_add, BitVec.toNat_ofNat]
  omega

theorem walkAt_comesTo (hP : Mirrors P Inv m) (hs : Inv s)
    (hfits : FitsIndex m codes count offset) (h : walkAt P codes count offset rsp s n = some r) :
    Inv r.2 ∧ ComesTo m codes count offset r.1.1.toNat := by
  induction n generalizing r with
  | zero =>
      cases h
      exact ⟨hs, .first⟩
  | succ n ih =>
      obtain ⟨r₀, hr₀, _, _⟩ := walkAt_succ_iff.mp h
      obtain ⟨hs₀, hcomes⟩ := ih hr₀
      obtain ⟨hs', hlt, code, hcode, hpasses, hnext⟩ := walkAt_step hP hs₀ h hr₀
      rw [hnext, next_toNat (hfits _ code hcomes hlt hcode).1]
      exact ⟨hs', hcomes.next hlt hcode hpasses⟩

/-- The slots from the index to the count bound the iterations. -/
theorem undoCodes_ends (hP : Mirrors P Inv m) (hfits : FitsIndex m codes count offset)
    (fuel : Nat) (idx : U8) (rsp : U64) (hs : Inv s)
    (hcomes : ComesTo m codes count offset idx.toNat) (hfuel : count.toNat - idx.toNat < fuel) :
    ∃ r, undoCodes P codes count offset fuel idx rsp s = some r := by
  induction fuel generalizing idx rsp s with
  | zero => cases hfuel
  | succ fuel ih =>
      rw [undoCodes_succ, BitVec.ult]
      by_cases hlt : idx.toNat < count.toNat
      · rw [decide_eq_true hlt, if_pos rfl]
        rcases undoSlot_cases hP offset idx rsp hs with
          ⟨code, rsp', s', hcode, hpasses, hundo, hs'⟩ | ⟨_, e, hundo⟩
        · have hnext := next_toNat (hfits _ code hcomes hlt hcode).1
          have hpos := code.slots_pos.1
          rw [bind_of_ok hundo]
          refine ih _ _ hs' ?_ (by rw [hnext]; omega)
          rw [hnext]
          exact hcomes.next hlt hcode hpasses
        · exact ⟨_, bind_of_error hundo⟩
      · rw [decide_eq_false hlt, if_neg Bool.false_ne_true]
        exact ⟨_, rfl⟩

theorem walkAt_of_le {i j : Nat} (hle : i ≤ j)
    (h : walkAt P codes count offset rsp s j = some r) :
    ∃ r₀, walkAt P codes count offset rsp s i = some r₀ := by
  induction hle generalizing r with
  | refl => exact ⟨r, h⟩
  | step _ ih =>
      obtain ⟨r₀, hr₀, _⟩ := walkAt_succ_iff.mp h
      exact ih hr₀

/-- The index only grows. -/
theorem walkAt_mono (hP : Mirrors P Inv m) (hs : Inv s) (hfits : FitsIndex m codes count offset)
    {i j : Nat} (hle : i ≤ j) (hi : walkAt P codes count offset rsp s i = some r)
    (hj : walkAt P codes count offset rsp s j = some r') : r.1.1.toNat ≤ r'.1.1.toNat := by
  induction hle generalizing r' with
  | refl =>
      rw [hi] at hj
      cases hj
      exact Nat.le_refl _
  | @step j _ ih =>
      obtain ⟨r₀, hr₀, _⟩ := walkAt_succ_iff.mp hj
      obtain ⟨hs₀, hcomes⟩ := walkAt_comesTo hP hs hfits hr₀
      obtain ⟨_, hlt, code, hcode, _, hnext⟩ := walkAt_step hP hs₀ hj hr₀
      have hle := ih hr₀
      rw [hnext, next_toNat (hfits _ code hcomes hlt hcode).1]
      omega

/-- A later iteration takes later slots. -/
theorem not_takes_of_lt (hP : Mirrors P Inv m) (hs : Inv s)
    (hfits : FitsIndex m codes count offset) {i j k : Nat} (hlt : i < j)
    (hi : TakesSlot P m codes count offset rsp s i k) :
    ¬ TakesSlot P m codes count offset rsp s j k := by
  obtain ⟨_, ⟨r, hr, rfl, _⟩, hk⟩ := hi
  rintro ⟨_, ⟨r', hr', rfl, _⟩, hk'⟩
  obtain ⟨r₁, hr₁⟩ := walkAt_of_le hlt hr'
  obtain ⟨hs₀, hcomes⟩ := walkAt_comesTo hP hs hfits hr
  obtain ⟨_, hlt', code, hcode, _, hnext⟩ := walkAt_step hP hs₀ hr₁ hr
  have hmono := walkAt_mono hP hs hfits hlt hr₁ hr'
  have hpos := code.slots_pos.1
  rw [hnext, next_toNat (hfits _ code hcomes hlt' hcode).1] at hmono
  have hbelow : k < r.1.1.toNat + code.slots := by
    rcases hk with rfl | ⟨code', hcode', _, hend⟩
    · omega
    · rw [hcode] at hcode'
      cases hcode'
      exact hend
  have habove : r'.1.1.toNat ≤ k := by
    rcases hk' with rfl | ⟨_, _, hbegin, _⟩
    · exact Nat.le_refl _
    · exact hbegin
  omega

theorem takes_once (hP : Mirrors P Inv m) (hs : Inv s) (hfits : FitsIndex m codes count offset)
    {i j k : Nat} (hi : TakesSlot P m codes count offset rsp s i k)
    (hj : TakesSlot P m codes count offset rsp s j k) : i = j := by
  rcases Nat.lt_trichotomy i j with hlt | heq | hgt
  · exact absurd hj (not_takes_of_lt hP hs hfits hlt hi)
  · exact heq
  · exact absurd hi (not_takes_of_lt hP hs hfits hgt hj)

theorem readsSlot_lt (hP : Mirrors P Inv m) (hs : Inv s) (hfits : FitsIndex m codes count offset)
    {k : Nat} (h : ReadsSlot P m codes count offset rsp s n k) : k < count.toNat := by
  obtain ⟨_, ⟨r, hr, rfl, hlt⟩, rfl | ⟨code, hcode, happlies, _, hk⟩⟩ := h
  · exact hlt
  · obtain ⟨_, hcomes⟩ := walkAt_comesTo hP hs hfits hr
    exact hk.trans_lt ((hfits _ code hcomes hlt hcode).2 happlies)

/-! ### Where the index wraps -/

section Wraps

variable (honce : ∀ i j k, TakesSlot P m codes count offset rsp s i k →
    TakesSlot P m codes count offset rsp s j k → i = j)
  (hwithin : ∀ n k, ReadsSlot P m codes count offset rsp s n k → k < count.toNat)
include honce hwithin

/-- A walk that takes slots once does not wrap after it has taken all slots before the one it is
at. -/
theorem slots_le_of_once (hP : Mirrors P Inv m) {code : UnwindCode}
    (hr : walkAt P codes count offset rsp s n = some r) (hs : Inv r.2)
    (hlt : r.1.1.toNat < count.toNat) (hcode : codeIn m codes r.1.1.toNat = some code)
    (htaken : ∀ k < r.1.1.toNat, ∃ i < n, TakesSlot P m codes count offset rsp s i k) :
    r.1.1.toNat + code.slots ≤ 255 ∧
      (code.applies offset = true → r.1.1.toNat + code.operands < count.toNat) := by
  have hoperands (happlies : code.applies offset = true) :
      r.1.1.toNat + code.operands < count.toNat := by
    rcases Nat.eq_zero_or_pos code.operands with hzero | hpos
    · rwa [hzero, Nat.add_zero]
    · exact hwithin n _ ⟨_, ⟨r, hr, rfl, hlt⟩, .inr ⟨code, hcode, happlies, by omega, by omega⟩⟩
  refine ⟨?_, hoperands⟩
  by_contra hwraps
  have hcount := count.isLt
  obtain ⟨hpos, hmax⟩ := code.slots_pos
  have hpasses : Passes m codes offset r.1.1.toNat code := by
    intro happlies
    have hop : code.op ≠ 1 := by
      intro hop
      have hslots := UnwindCode.slots_of_allocLarge hop
      have hbound := hoperands happlies
      omega
    rw [UnwindCode.operands_of_ne hop]
    exact ⟨UnwindCode.known_of_slots (by omega), fun i hi => absurd hi (Nat.not_lt_zero i)⟩
  rcases undoSlot_cases hP offset r.1.1 r.1.2 hs with
    ⟨code', rsp', s', hcode', _, hundo, hs'⟩ | ⟨hfails, _⟩
  · rw [hcode] at hcode'
    cases hcode'
    have hnext := walkAt_succ_iff.mpr ⟨r, hr, hlt, hundo⟩
    have hidx : (r.1.1 + BitVec.ofNat 8 code.slots).toNat = r.1.1.toNat + code.slots - 256 := by
      rw [BitVec.toNat_add, BitVec.toNat_ofNat]
      omega
    obtain ⟨i, hi, htakes⟩ := htaken (r.1.1.toNat + code.slots - 256) (by omega)
    have hagain : TakesSlot P m codes count offset rsp s (n + 1) (r.1.1.toNat + code.slots - 256) :=
      ⟨_, ⟨_, hnext, hidx, by omega⟩, .inl rfl⟩
    have hsame := honce i (n + 1) _ htakes hagain
    omega
  · exact hfails code hcode hpasses

/-- Such a walk comes where the walk without wrapping comes. -/
theorem walkAt_of_comesTo (hP : Mirrors P Inv m) (hs : Inv s) {idx : Nat}
    (h : ComesTo m codes count offset idx) :
    ∃ n r, walkAt P codes count offset rsp s n = some r ∧ Inv r.2 ∧ r.1.1.toNat = idx ∧
      ∀ k < idx, ∃ i < n, TakesSlot P m codes count offset rsp s i k := by
  induction h with
  | first => exact ⟨0, ((0, rsp), s), rfl, hs, rfl, fun k hk => absurd hk (Nat.not_lt_zero k)⟩
  | @next idx code _ hlt hcode hpasses ih =>
      obtain ⟨n, r, hr, hs', rfl, htaken⟩ := ih
      have hfit := (slots_le_of_once honce hwithin hP hr hs' hlt hcode htaken).1
      rcases undoSlot_cases hP offset r.1.1 r.1.2 hs' with
        ⟨code', rsp', s'', hcode', _, hundo, hs''⟩ | ⟨hfails, _⟩
      · rw [hcode] at hcode'
        cases hcode'
        refine ⟨n + 1, _, walkAt_succ_iff.mpr ⟨r, hr, hlt, hundo⟩, hs'', next_toNat hfit, ?_⟩
        intro k hk
        by_cases hbefore : k < r.1.1.toNat
        · obtain ⟨i, hi, htakes⟩ := htaken k hbefore
          exact ⟨i, hi.trans (Nat.lt_succ_self n), htakes⟩
        · exact ⟨n, Nat.lt_succ_self n, _, ⟨r, hr, rfl, hlt⟩,
            .inr ⟨code, hcode, Nat.le_of_not_lt hbefore, hk⟩⟩
      · exact absurd hpasses (hfails code hcode)

theorem fitsIndex_of_once (hP : Mirrors P Inv m) (hs : Inv s) :
    FitsIndex m codes count offset := by
  intro idx code hcomes hlt hcode
  obtain ⟨n, r, hr, hs', rfl, htaken⟩ := walkAt_of_comesTo honce hwithin hP hs hcomes
  exact slots_le_of_once honce hwithin hP hr hs' hlt hcode htaken

end Wraps

end WalkProofs

/-! ### The whole function -/

section Unwinds

variable {σ : Type} {P : MemoryProvider σ} {Inv : σ → Prop} {m : ByteMap}

/-- `seh_unwind_frame` ends. Its walk, when it comes to one, takes no slot twice and reads none past
the count. -/
structure UnwindsOnce (P : MemoryProvider σ) (m : ByteMap) (base rip rsp : GuestAddr) (s : σ) :
    Prop where
  ends : ∃ fuel r, sehUnwindFrame P base rip rsp fuel s = some r
  once : ∀ codes count offset s',
    unwindInfo P base rip s = some (.ok ((codes, count, offset), s')) →
    ∀ i j k, TakesSlot P m codes count offset rsp s' i k →
      TakesSlot P m codes count offset rsp s' j k → i = j
  within : ∀ codes count offset s',
    unwindInfo P base rip s = some (.ok ((codes, count, offset), s')) →
      ∀ n k, ReadsSlot P m codes count offset rsp s' n k → k < count.toNat

theorem unwinds_once_iff (hP : Mirrors P Inv m) (base rip rsp : GuestAddr) {s : σ} (hs : Inv s) :
    UnwindsOnce P m base rip rsp s ↔ ∀ codes count offset s',
      unwindInfo P base rip s = some (.ok ((codes, count, offset), s')) →
        FitsIndex m codes count offset := by
  have hstart : Keeps Inv (unwindInfo P base rip) :=
    keeps_unwindInfo (fun addr size _ => keeps_readBytes hP addr size) base rip
  have hinv {info : GuestAddr × U8 × U32} {s' : σ}
      (h : unwindInfo P base rip s = some (.ok (info, s'))) : Inv s' := by
    rcases hstart s hs with ⟨info', s'', hrun, hs''⟩ | ⟨e, hrun⟩
    · rw [hrun] at h
      cases h
      exact hs''
    · rw [hrun] at h
      cases h
  constructor
  · intro h codes count offset s' hinfo
    exact fitsIndex_of_once (h.once _ _ _ _ hinfo) (h.within _ _ _ _ hinfo) hP (hinv hinfo)
  · intro hfits
    refine ⟨⟨256, ?_⟩, fun codes count offset s' hinfo i j k hi hj => ?_,
      fun codes count offset s' hinfo n k hreads => ?_⟩
    · rw [sehUnwindFrame_eq]
      rcases hstart s hs with ⟨info, s', hrun, hs'⟩ | ⟨e, hrun⟩
      · have hcount := info.2.1.isLt
        obtain ⟨r, hwalk⟩ := undoCodes_ends hP (hfits _ _ _ _ hrun) 256 0 rsp hs' .first
          (Nat.lt_of_le_of_lt (Nat.sub_le _ _) hcount)
        rw [bind_of_ok hrun]
        cases r with
        | error e => exact ⟨_, bind_of_error hwalk⟩
        | ok r =>
            obtain ⟨rsp', s''⟩ := r
            rw [bind_of_ok hwalk]
            obtain ⟨r, hread⟩ := readBytes_ends P rsp' 8 s''
            cases r with
            | error e => exact ⟨_, bind_of_error hread⟩
            | ok r => exact ⟨_, bind_of_ok hread⟩
      · exact ⟨_, bind_of_error hrun⟩
    · exact takes_once hP (hinv hinfo) (hfits _ _ _ _ hinfo) hi hj
    · exact readsSlot_lt hP (hinv hinfo) (hfits _ _ _ _ hinfo) hreads

end Unwinds

/-! ### An image whose codes never end -/

/-- The image at 140000000 with 255 slots that all hold SAVE_NONVOL, an operation of two. -/
def endlessImage : ByteMap :=
  store (imageWith smallProlog) 0x140003000 ([1, 10, 255, 0] ++ List.replicate 510 4)

theorem endlessImage_code {idx : Nat} (h : idx < 255) :
    codeIn endlessImage 0x140003004 idx = some (.ofBytes 4 4) := by
  have hstored : HoldsAt endlessImage 0x140003000 ([1, 10, 255, 0] ++ List.replicate 510 4) :=
    store_self (by rw [List.length_append, List.length_replicate]; decide)
  have hcodes : HoldsAt endlessImage 0x140003004 (List.replicate 510 4) :=
    (holdsAt_append.mp hstored).2
  have hbyte (i : Nat) (hi : i < 510) :
      endlessImage (0x140003004 + BitVec.ofNat 64 i) = some 4 := by
    rw [hcodes i (by rw [List.length_replicate]; exact hi), List.getElem_replicate]
  have hsecond := hbyte (2 * idx + 1) (by omega)
  rw [BitVec.ofNat_add, ← BitVec.add_assoc] at hsecond
  rw [codeIn, hbyte (2 * idx) (by omega), Option.bind_some]
  exact congrArg (Option.map _) hsecond

/-- From an even slot the walk comes to even slots only, and so never to the count. -/
theorem undoCodes_endless (offset : U32) (fuel : Nat) (idx : U8) (rsp : U64)
    (heven : idx.toNat % 2 = 0) :
    undoCodes (staticProvider endlessImage) 0x140003004 255 offset fuel idx rsp () = none := by
  induction fuel generalizing idx rsp with
  | zero => rfl
  | succ fuel ih =>
      have hidx := idx.isLt
      have hlt : idx.ult 255 = true := by
        rw [BitVec.ult, decide_eq_true_eq]
        change idx.toNat < 255
        omega
      have hbound : idx.toNat < 255 := by omega
      have hcode := endlessImage_code hbound
      have hpasses : Passes endlessImage 0x140003004 offset idx.toNat (.ofBytes 4 4) :=
        fun _ => ⟨UnwindCode.known_of_slots (by decide), fun i hi => absurd hi (Nat.not_lt_zero i)⟩
      rw [undoCodes_succ, if_pos hlt]
      rcases undoSlot_cases (mirrors_staticProvider endlessImage) offset idx rsp
        (s := ()) trivial with ⟨code, rsp', s', hcode', _, hundo, _⟩ | ⟨hfails, _⟩
      · obtain rfl : code = .ofBytes 4 4 := Option.some.inj (hcode'.symm.trans hcode)
        have hnext : (idx + BitVec.ofNat 8 (UnwindCode.ofBytes 4 4).slots).toNat % 2 = 0 := by
          have hslots : (UnwindCode.ofBytes 4 4).slots = 2 := by decide
          rw [hslots, BitVec.toNat_add, BitVec.toNat_ofNat]
          omega
        rw [bind_of_ok hundo]
        exact ih _ _ hnext
      · exact absurd hpasses (hfails _ hcode)

theorem endlessImage_info :
    Returns (fun _ => True) (unwindInfo (staticProvider endlessImage) 0x140000000 0x140002010)
      fun info => info = (0x140003004, 255, 0x10) := by
  have hserves := serves_staticProvider endlessImage
  have hrip : InFunction endlessImage 0x140000000 0x140002010 onlyFunction :=
    inFunction_of_headers (by decide +kernel) (by decide)
  have hstored : HoldsAt endlessImage 0x140003000 ([1, 10, 255, 0] ++ List.replicate 510 4) :=
    store_self (by rw [List.length_append, List.length_replicate]; decide)
  have hlinks : Linked endlessImage 0x140000000 0x3000 0 onlyFunction.unwindRva := .here (by decide)
  exact returns_unwindInfo hserves hrip hlinks (Nat.zero_le 16) (holdsAt_append.mp hstored).1

/-- On that image the walk does not end. -/
theorem endlessImage_walk : ¬ UnwindsOnce (staticProvider endlessImage) endlessImage 0x140000000
    0x140002010 0x7FFF0000 () := by
  intro h
  obtain ⟨fuel, r, hends⟩ := h.ends
  obtain ⟨info, s', hinfo, _, rfl⟩ := endlessImage_info () trivial
  rw [sehUnwindFrame_eq, bind_of_ok hinfo, inspect_bind, undoCodes_endless _ _ _ _ rfl] at hends
  cases hends

theorem unwinds_once_iff_endlessImage :
    UnwindsOnce (staticProvider endlessImage) endlessImage 0x140000000 0x140002010 0x7FFF0000 () ↔
      ∀ codes count offset s',
        unwindInfo (staticProvider endlessImage) 0x140000000 0x140002010 () =
          some (.ok ((codes, count, offset), s')) → FitsIndex endlessImage codes count offset :=
  unwinds_once_iff (mirrors_staticProvider endlessImage) 0x140000000 0x140002010 0x7FFF0000 trivial

end Host

end PicoCpu
