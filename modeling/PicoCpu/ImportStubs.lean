import Mathlib.Data.List.Induction
import PicoCpu.Dispatcher
import PicoCpu.Memory.ShadowPages

/-!
Import stubs over any sequence of registrations. Binding an import gives it the next slot of the
stub region, whose address goes into the import's entry of the IAT; registering a handler puts
it under the text `dll|name`. A call that enters a slot runs the handler of its import and
returns. The text of a key stands for one import only while no library name holds a bar.
-/

namespace PicoCpu

namespace IatStubs

variable {σ : Type}

/-- `bind`: the address of the import's slot, or zero when the region is full. A patch of the
IAT that fails is only logged. -/
def bind (iatAddr : GuestAddr) (dll name : String) (st : IatStubs σ) (shadow : ShadowPages) :
    GuestAddr × IatStubs σ × ShadowPages :=
  let idx := st.entries.length
  let stubAddr := kStubBase + BitVec.ofNat 64 idx * kStubStride
  if (kStubBase + kStubSize).ult (stubAddr + kStubStride) then (0, st, shadow)
  else
    (stubAddr, { st with entries := st.entries ++ [⟨dll, name⟩] },
      (shadow.write iatAddr 8 (storeLE stubAddr)).2)

/-- `set_stub`. -/
def setStub (dll name : String) (fn : StubFn σ) (st : IatStubs σ) : IatStubs σ :=
  { st with stubs := Function.update st.stubs (IatEntry.key ⟨dll, name⟩) (some fn) }

/-! ### Sequences of registrations -/

/-- A call that registers something. -/
inductive Call (σ : Type) where
  | bind (iatAddr : GuestAddr) (dll name : String)
  | setStub (dll name : String) (fn : StubFn σ)

/-- The stub layer, the memory whose IAT it patches, and what the binds have returned. -/
structure Bound (σ : Type) where
  stubs : IatStubs σ
  shadow : ShadowPages
  addrs : List GuestAddr := []

namespace Call

def run (b : Bound σ) : Call σ → Bound σ
  | .bind iatAddr dll name =>
    let r := IatStubs.bind iatAddr dll name b.stubs b.shadow
    { stubs := r.2.1, shadow := r.2.2, addrs := b.addrs ++ [r.1] }
  | .setStub dll name fn => { b with stubs := b.stubs.setStub dll name fn }

/-- The import a call binds. -/
def entry : Call σ → Option IatEntry
  | .bind _ dll name => some ⟨dll, name⟩
  | .setStub .. => none

/-- The handler a call registers under a key. -/
def fnUnder (key : String) : Call σ → Option (StubFn σ)
  | .bind .. => none
  | .setStub dll name fn => if IatEntry.key ⟨dll, name⟩ = key then some fn else none

/-- The handler a call registers for an import, its library named without case. -/
def fnFor (e : IatEntry) : Call σ → Option (StubFn σ)
  | .bind .. => none
  | .setStub dll name fn => if dll.toLower = e.dll.toLower ∧ name = e.name then some fn else none

end Call

/-- The stub layer after some registrations, with the default handler it was given. -/
def afterCalls (calls : List (Call σ)) (default : Option (StubFn σ)) (shadow : ShadowPages) :
    Bound σ :=
  calls.foldl Call.run { stubs := { defaultStub := default }, shadow }

/-- The imports that were bound, in order. -/
def imports (calls : List (Call σ)) : List IatEntry := calls.filterMap Call.entry

/-- The handler most recently registered for an import. -/
def registered (calls : List (Call σ)) (e : IatEntry) : Option (StubFn σ) :=
  (calls.filterMap (Call.fnFor e)).getLast?

/-- The handler an import is meant to have: its own, else the one for its name in no library,
else the default. -/
def handler (calls : List (Call σ)) (default : Option (StubFn σ)) (e : IatEntry) :
    Option (StubFn σ) :=
  match registered calls e with
  | some fn => some fn
  | none =>
    match registered calls { e with dll := "" } with
    | some fn => some fn
    | none => default

/-- The call of a handler; without one RAX is cleared. -/
def invoke (fn : Option (StubFn σ)) (e : IatEntry) (s : VmState σ) : VmState σ :=
  match fn with
  | some fn => fn e.dll e.name s
  | none => s.mapCpu fun c => c.setR64 Reg.rax 0

/-- A call that enters `addr` runs `fn` and, if the stack can be read then, goes to the address
on top of it and leaves the stack pointer eight further than the handler did. -/
def Serves (st : IatStubs σ) (addr : GuestAddr) (fn : Option (StubFn σ)) (e : IatEntry) : Prop :=
  ∀ (at_ : Attached σ) (P : MemoryProvider σ) (s : VmState σ) (buf : Buf) (mem : σ),
    at_.memRead = some P →
    P.read ((invoke fn e s).cpu.r Reg.rsp) 8 (fun _ => 0) (invoke fn e s).world.mem =
      (.ok (), buf, mem) →
    st.dispatch at_ addr s = (invoke fn e s).popRet at_ ∧
      (st.dispatch at_ addr s).1 = true ∧
      (st.dispatch at_ addr s).2.cpu.rip = loadLE buf 8 ∧
      (st.dispatch at_ addr s).2.cpu.r Reg.rsp = (invoke fn e s).cpu.r Reg.rsp + 8

/-! ### What a sequence of registrations leaves -/

/-- The slots of the region. -/
abbrev capacity : Nat := 8192

/-- The address of a slot. -/
def slotAddr (idx : Nat) : GuestAddr := kStubBase + BitVec.ofNat 64 idx * kStubStride

theorem slotAddr_toNat {idx : Nat} (h : idx ≤ capacity) :
    (slotAddr idx).toNat = kStubBase.toNat + idx * 8 := by
  have hcapacity : capacity = 8192 := rfl
  have hslot : (BitVec.ofNat 64 idx * kStubStride).toNat = idx * 8 := by
    rw [BitVec.toNat_mul, BitVec.toNat_ofNat, Nat.mod_eq_of_lt (a := idx) (by omega)]
    exact Nat.mod_eq_of_lt (show idx * 8 < 2 ^ 64 by omega)
  have hbase : kStubBase.toNat = 0x7FFEF0000000 := by decide
  rw [slotAddr, BitVec.toNat_add, hslot, hbase, Nat.mod_eq_of_lt (by omega)]

/-- The slot after the last one is past the end of the region. -/
theorem full_iff {idx : Nat} (h : idx ≤ capacity) :
    (kStubBase + kStubSize).ult (slotAddr idx + kStubStride) = true ↔ idx = capacity := by
  have hcapacity : capacity = 8192 := rfl
  have hend : (kStubBase + kStubSize).toNat = 0x7FFEF0000000 + 65536 := by decide
  have hbase : kStubBase.toNat = 0x7FFEF0000000 := by decide
  have hstride : kStubStride.toNat = 8 := by decide
  rw [BitVec.ult, decide_eq_true_eq, hend, BitVec.toNat_add, slotAddr_toNat h, hbase, hstride,
    Nat.mod_eq_of_lt (by omega)]
  omega

section Bind

variable (iatAddr : GuestAddr) (dll name : String) {st : IatStubs σ} (shadow : ShadowPages)

theorem bind_full (h : st.entries.length = capacity) :
    bind iatAddr dll name st shadow = (0, st, shadow) :=
  if_pos ((full_iff (le_of_eq h)).mpr h)

theorem bind_room (h : st.entries.length < capacity) :
    bind iatAddr dll name st shadow =
      (slotAddr st.entries.length, { st with entries := st.entries ++ [⟨dll, name⟩] },
        (shadow.write iatAddr 8 (storeLE (slotAddr st.entries.length))).2) :=
  if_neg fun hult => absurd ((full_iff (le_of_lt h)).mp hult) (Nat.ne_of_lt h)

end Bind

/-- The state after a sequence of calls: the first imports have the slots, in order, and every
later bind has returned zero; under each key stands the handler last registered there. -/
structure Laid (b : Bound σ) (calls : List (Call σ)) : Prop where
  entries : b.stubs.entries = (imports calls).take capacity
  count : b.addrs.length = (imports calls).length
  addr : ∀ k < (imports calls).length,
    b.addrs[k]? = some (if k < capacity then slotAddr k else 0)
  stubs : ∀ key, b.stubs.stubs key = (calls.filterMap (Call.fnUnder key)).getLast?

/-- A bind keeps the layout: the import joins those that have slots while there is room. -/
theorem Laid.snoc {b : Bound σ} {calls : List (Call σ)} (h : Laid b calls) (iatAddr : GuestAddr)
    (dll name : String) (shadow : ShadowPages) {entries : List IatEntry} {new : GuestAddr}
    (hentries : entries = (imports calls ++ [IatEntry.mk dll name]).take capacity)
    (hnew : new = if (imports calls).length < capacity then slotAddr (imports calls).length
      else 0) :
    Laid ⟨{ b.stubs with entries := entries }, shadow, b.addrs ++ [new]⟩
      (calls ++ [.bind iatAddr dll name]) := by
  have himports : imports (calls ++ [Call.bind (σ := σ) iatAddr dll name]) =
      imports calls ++ [⟨dll, name⟩] := by
    rw [imports, List.filterMap_append]
    rfl
  constructor
  · rw [himports]
    exact hentries
  · rw [himports, List.length_append, List.length_append, h.count]
    rfl
  · intro k hk
    rw [himports, List.length_append, List.length_singleton] at hk
    by_cases hlast : k < (imports calls).length
    · rw [List.getElem?_append_left (by rw [h.count]; exact hlast)]
      exact h.addr k hlast
    · have hk' : k = (imports calls).length := by omega
      rw [hk', ← h.count, List.getElem?_concat_length, hnew, h.count]
  · intro key
    rw [List.filterMap_append]
    exact (h.stubs key).trans (congrArg List.getLast? (List.append_nil _).symm)

theorem Laid.bind {b : Bound σ} {calls : List (Call σ)} (h : Laid b calls) (iatAddr : GuestAddr)
    (dll name : String) :
    Laid (Call.run b (.bind iatAddr dll name)) (calls ++ [.bind iatAddr dll name]) := by
  have hlen : b.stubs.entries.length = min capacity (imports calls).length := by
    rw [h.entries, List.length_take]
  simp only [Call.run]
  by_cases hfull : b.stubs.entries.length = capacity
  · rw [bind_full iatAddr dll name b.shadow hfull]
    refine h.snoc iatAddr dll name b.shadow ?_ (by rw [if_neg (by omega)])
    rw [List.take_append_of_le_length (by omega)]
    exact h.entries
  · have hshort : (imports calls).length < capacity := by omega
    have hall : b.stubs.entries = imports calls := by
      rw [h.entries, List.take_of_length_le (by omega)]
    rw [bind_room iatAddr dll name b.shadow (by omega)]
    refine h.snoc iatAddr dll name _ ?_ (by rw [if_pos hshort, hall])
    rw [hall, List.take_of_length_le (by rw [List.length_append]; exact hshort)]

theorem Laid.setStub {b : Bound σ} {calls : List (Call σ)} (h : Laid b calls) (dll name : String)
    (fn : StubFn σ) :
    Laid (Call.run b (.setStub dll name fn)) (calls ++ [.setStub dll name fn]) := by
  have himports : imports (calls ++ [Call.setStub dll name fn]) = imports calls := by
    rw [imports, List.filterMap_append]
    exact List.append_nil _
  constructor
  · rw [himports]
    exact h.entries
  · rw [himports]
    exact h.count
  · rw [himports]
    exact h.addr
  · intro key
    change Function.update b.stubs.stubs (IatEntry.key ⟨dll, name⟩) (some fn) key = _
    rw [List.filterMap_append, List.filterMap_cons, List.filterMap_nil, Call.fnUnder]
    by_cases hkey : IatEntry.key ⟨dll, name⟩ = key
    · rw [if_pos hkey, ← hkey, Function.update_self, List.getLast?_append]
      rfl
    · rw [if_neg hkey, Function.update_of_ne (fun h => hkey h.symm), List.append_nil]
      exact h.stubs key

theorem laid_afterCalls (calls : List (Call σ)) (default : Option (StubFn σ))
    (shadow : ShadowPages) : Laid (afterCalls calls default shadow) calls := by
  induction calls using List.reverseRecOn with
  | nil => exact ⟨rfl, rfl, fun k hk => absurd hk (Nat.not_lt_zero k), fun _ => rfl⟩
  | append_singleton calls call ih =>
      rw [afterCalls, List.foldl_append, List.foldl_cons, List.foldl_nil]
      cases call with
      | bind iatAddr dll name => exact ih.bind iatAddr dll name
      | setStub dll name fn => exact ih.setStub dll name fn

theorem defaultStub_afterCalls (calls : List (Call σ)) (default : Option (StubFn σ))
    (shadow : ShadowPages) : (afterCalls calls default shadow).stubs.defaultStub = default := by
  induction calls using List.reverseRecOn with
  | nil => rfl
  | append_singleton calls call ih =>
      rw [afterCalls, List.foldl_append, List.foldl_cons, List.foldl_nil]
      cases call with
      | bind iatAddr dll name =>
          simp only [Call.run, IatStubs.bind]
          split <;> exact ih
      | setStub dll name fn => exact ih

/-! ### Keys -/

/-- Whoever registers under the text of the import's key, or under that of its name in no
library, names the same library without case and the same function. -/
def Unambiguous (calls : List (Call σ)) (e : IatEntry) : Prop :=
  ∀ dll name fn, Call.setStub dll name fn ∈ calls → ∀ lib, lib = e.dll ∨ lib = "" →
    IatEntry.key ⟨dll, name⟩ = IatEntry.key ⟨lib, e.name⟩ →
    dll.toLower = lib.toLower ∧ name = e.name

theorem key_congr {dll lib name : String} (h : dll.toLower = lib.toLower) :
    IatEntry.key ⟨dll, name⟩ = IatEntry.key ⟨lib, name⟩ := by
  rw [IatEntry.key, IatEntry.key, h]

/-- Two texts that agree up to their first bar and after it. -/
theorem bar_inj {d₁ d₂ n₁ n₂ : List Char} (h₁ : '|' ∉ d₁) (h₂ : '|' ∉ d₂)
    (h : d₁ ++ '|' :: n₁ = d₂ ++ '|' :: n₂) : d₁ = d₂ ∧ n₁ = n₂ := by
  induction d₁ generalizing d₂ with
  | nil =>
      cases d₂ with
      | nil => exact ⟨rfl, (List.cons.inj h).2⟩
      | cons c d₂ =>
          have hc : '|' = c := (List.cons.inj h).1
          exact absurd (hc ▸ List.mem_cons_self ..) h₂
  | cons c d₁ ih =>
      cases d₂ with
      | nil =>
          have hc : c = '|' := (List.cons.inj h).1
          exact absurd (hc ▸ List.mem_cons_self ..) h₁
      | cons c' d₂ =>
          obtain ⟨hc, hrest⟩ := List.cons.inj h
          obtain ⟨hd, hn⟩ := ih (fun hm => h₁ (List.mem_cons_of_mem _ hm))
            (fun hm => h₂ (List.mem_cons_of_mem _ hm)) hrest
          exact ⟨by rw [hc, hd], hn⟩

theorem toLower_eq_bar {c : Char} (h : c.toLower = '|') : c = '|' := by
  unfold Char.toLower at h
  split at h
  · rename_i hupper
    have hle : c.val.toNat ≤ 90 := hupper.2
    have hsum : (c.val.toNat + 32) % 2 ^ 32 = 124 := congrArg (fun c : Char => c.val.toNat) h
    omega
  · exact h

theorem bar_mem_toLower (s : String) : '|' ∈ s.toLower.toList ↔ '|' ∈ s.toList := by
  change '|' ∈ (s.map Char.toLower).toList ↔ _
  rw [String.toList_map, List.mem_map]
  constructor
  · rintro ⟨c, hc, hlower⟩
    exact toLower_eq_bar hlower ▸ hc
  · exact fun h => ⟨'|', h, by decide⟩

/-- Where no library name holds a bar, the text of a key stands for one import. -/
theorem key_inj {d₁ d₂ n₁ n₂ : String} (h₁ : '|' ∉ d₁.toList) (h₂ : '|' ∉ d₂.toList)
    (h : IatEntry.key ⟨d₁, n₁⟩ = IatEntry.key ⟨d₂, n₂⟩) : d₁.toLower = d₂.toLower ∧ n₁ = n₂ := by
  have hchars := congrArg String.toList h
  simp only [IatEntry.key, String.toList_append, List.append_assoc] at hchars
  obtain ⟨hd, hn⟩ := bar_inj (fun hm => h₁ ((bar_mem_toLower _).mp hm))
    (fun hm => h₂ ((bar_mem_toLower _).mp hm)) hchars
  exact ⟨String.ext hd, String.ext hn⟩

/-- So there nothing is ambiguous. -/
theorem unambiguous_of_barless {calls : List (Call σ)} {e : IatEntry}
    (hcalls : ∀ dll name fn, Call.setStub dll name fn ∈ calls → '|' ∉ dll.toList)
    (he : '|' ∉ e.dll.toList) : Unambiguous calls e := by
  intro dll name fn hcall lib hlib hkey
  have hbarless : '|' ∉ lib.toList := by
    rcases hlib with rfl | rfl
    · exact he
    · exact List.not_mem_nil
  exact key_inj (hcalls dll name fn hcall) hbarless hkey

/-- What stands under an unambiguous key was registered for its import. -/
theorem fnUnder_eq_fnFor {calls : List (Call σ)} {e : IatEntry}
    (h : Unambiguous calls e) {lib : String} (hlib : lib = e.dll ∨ lib = "") :
    calls.filterMap (Call.fnUnder (IatEntry.key ⟨lib, e.name⟩)) =
      calls.filterMap (Call.fnFor ⟨lib, e.name⟩) := by
  apply List.filterMap_congr
  intro call hcall
  cases call with
  | bind iatAddr dll name => rfl
  | setStub dll name fn =>
      rw [Call.fnUnder, Call.fnFor]
      by_cases hkey : IatEntry.key ⟨dll, name⟩ = IatEntry.key ⟨lib, e.name⟩
      · rw [if_pos hkey, if_pos (h dll name fn hcall lib hlib hkey)]
      · rw [if_neg hkey, if_neg]
        rintro ⟨hdll, rfl⟩
        exact hkey (key_congr hdll)

theorem lookup_eq_handler {calls : List (Call σ)} {default : Option (StubFn σ)}
    {shadow : ShadowPages} {e : IatEntry} (h : Unambiguous calls e) :
    (afterCalls calls default shadow).stubs.lookup e = handler calls default e := by
  have hlaid := laid_afterCalls calls default shadow
  rw [lookup, handler, hlaid.stubs, hlaid.stubs, defaultStub_afterCalls]
  rw [show e.key = IatEntry.key ⟨e.dll, e.name⟩ from rfl, fnUnder_eq_fnFor h (.inl rfl),
    fnUnder_eq_fnFor h (.inr rfl)]
  rfl

/-! ### Dispatch -/

theorem dispatch_slot {st : IatStubs σ} {idx : Nat} (hidx : idx < capacity) {e : IatEntry}
    (he : st.entries[idx]? = some e) (at_ : Attached σ) (s : VmState σ) :
    st.dispatch at_ (slotAddr idx) s = (invoke (st.lookup e) e s).popRet at_ := by
  have hcapacity : capacity = 8192 := rfl
  have hbase : kStubBase.toNat = 0x7FFEF0000000 := by decide
  have hend : (kStubBase + kStubSize).toNat = 0x7FFEF0000000 + 65536 := by decide
  have haddr := slotAddr_toNat (le_of_lt hidx)
  have hinside : ((slotAddr idx).ult kStubBase || (kStubBase + kStubSize).ule (slotAddr idx)) =
      false := by
    rw [Bool.or_eq_false_iff, BitVec.ult, BitVec.ule, decide_eq_false_iff_not,
      decide_eq_false_iff_not, hend, haddr, hbase]
    omega
  have hslot : ((slotAddr idx - kStubBase) / kStubStride).toNat = idx := by
    have hstride : kStubStride.toNat = 8 := by decide
    rw [BitVec.toNat_udiv, BitVec.toNat_sub_of_le (by rw [BitVec.le_def, haddr]; omega), haddr,
      hstride]
    omega
  rw [dispatch, hinside, if_neg (by simp), hslot, he]
  rfl

/-- Over every sequence of registrations, the slot an import was given runs the handler that
the import is meant to have, and returns. -/
theorem dispatch_serves (calls : List (Call σ)) (default : Option (StubFn σ))
    (shadow : ShadowPages) {k : Nat} {e : IatEntry} {addr : GuestAddr}
    (he : (imports calls)[k]? = some e)
    (haddr : (afterCalls calls default shadow).addrs[k]? = some addr) (hroom : addr ≠ 0)
    (hclear : Unambiguous calls e) :
    (afterCalls calls default shadow).stubs.Serves addr (handler calls default e) e := by
  have hlaid := laid_afterCalls calls default shadow
  have hk : k < (imports calls).length := (List.getElem?_eq_some_iff.mp he).1
  rw [hlaid.addr k hk, Option.some.injEq] at haddr
  have hslot : k < capacity := by
    by_contra hfull
    rw [if_neg hfull] at haddr
    exact hroom haddr.symm
  rw [if_pos hslot] at haddr
  have hentry : (afterCalls calls default shadow).stubs.entries[k]? = some e := by
    rw [hlaid.entries, List.getElem?_take_of_lt hslot, he]
  intro at_ P s buf mem hP hread
  have hdispatch := dispatch_slot hslot hentry at_ s
  rw [haddr, lookup_eq_handler hclear] at hdispatch
  have hpop : (invoke (handler calls default e) e s).popRet at_ =
      (true, { cpu := ((invoke (handler calls default e) e s).cpu.setR64 Reg.rsp
                  ((invoke (handler calls default e) e s).cpu.r Reg.rsp + 8)).setRip (loadLE buf 8)
               world := { (invoke (handler calls default e) e s).world with mem } }) := by
    simp only [VmState.popRet, hP, hread]
  refine ⟨hdispatch, ?_, ?_, ?_⟩
  · rw [hdispatch, hpop]
  · rw [hdispatch, hpop]
    rfl
  · rw [hdispatch, hpop]
    rfl

/-- A handler that puts a constant into RAX. -/
def answers (v : U64) : StubFn Unit := fun _ _ s => s.mapCpu fun c => c.setR64 Reg.rax v

def tickCount : List (Call Unit) :=
  [.setStub "KERNEL32.dll" "GetTickCount" (answers 7), .bind 0x3000 "kernel32.DLL" "GetTickCount"]

theorem dispatch_serves_tickCount :
    (afterCalls tickCount none {}).stubs.Serves kStubBase
      (handler tickCount none ⟨"kernel32.DLL", "GetTickCount"⟩)
      ⟨"kernel32.DLL", "GetTickCount"⟩ := by
  refine dispatch_serves tickCount none {} (k := 0) rfl rfl (by decide)
    (unambiguous_of_barless ?_ (by decide))
  intro dll name fn hcall
  rw [tickCount, List.mem_cons, List.mem_singleton] at hcall
  rcases hcall with hset | hbind
  · cases hset
    decide
  · cases hbind

/-- A stack that reads as zeros. -/
def zeroStack : Attached Unit where
  memRead := some
    { read := fun _ _ _ s => (.ok (), fun _ => 0, s)
      write := fun _ _ _ s => (.ok (), s) }
  memWrite := none

/-- One import more than there are slots. -/
def overfull : List (Call Unit) := List.replicate 8193 (.bind 0x3000 "user32.dll" "MessageBoxA")

/-- A handler for `b|c` in the library `a`, and the import `c` of `a|b`. -/
def barred : List (Call Unit) :=
  [.setStub "a" "b|c" (answers 7), .bind 0x3000 "a|b" "c"]

theorem imports_overfull :
    imports overfull = List.replicate 8193 ⟨"user32.dll", "MessageBoxA"⟩ := by
  rw [imports, overfull, List.filterMap_replicate]
  rfl

/-- The import without a slot is not served at the address its bind returned, and the import
whose key belongs to another one is served with the other one's handler. -/
theorem imports_unserved :
    ((imports overfull)[8192]? = some ⟨"user32.dll", "MessageBoxA"⟩ ∧
      (afterCalls overfull none {}).addrs[8192]? = some 0 ∧
      ¬ (afterCalls overfull none {}).stubs.Serves 0
        (handler overfull none ⟨"user32.dll", "MessageBoxA"⟩) ⟨"user32.dll", "MessageBoxA"⟩) ∧
      ((imports barred)[0]? = some ⟨"a|b", "c"⟩ ∧
        (afterCalls barred none {}).addrs[0]? = some kStubBase ∧
        ¬ (afterCalls barred none {}).stubs.Serves kStubBase (handler barred none ⟨"a|b", "c"⟩)
          ⟨"a|b", "c"⟩) := by
  have hlaid := laid_afterCalls overfull none {}
  refine ⟨⟨?_, ?_, ?_⟩, rfl, rfl, ?_⟩
  · rw [imports_overfull, List.getElem?_replicate_of_lt (by decide)]
  · rw [hlaid.addr 8192 (by rw [imports_overfull, List.length_replicate]; decide),
      if_neg (by decide)]
  · intro hserves
    have hran := (hserves zeroStack _ ⟨{}, { mem := () }⟩ _ _ rfl rfl).2.1
    rw [dispatch, if_pos (by decide)] at hran
    cases hran
  · intro hserves
    have hran := (hserves zeroStack _ ⟨{}, { mem := () }⟩ _ _ rfl rfl).1
    have hrax := congrArg (fun r => r.2.cpu.r Reg.rax) hran
    revert hrax
    decide +kernel

end IatStubs

end PicoCpu
