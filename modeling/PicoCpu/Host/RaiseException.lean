import PicoCpu.Host.UnwindWalk
import PicoCpu.MemoryAccess

/-!
The frame that `emu_raise_exception` builds for a handler. The regions are where they should be from
1504 bytes of stack on, but the stores are not checked, and the sentinel lies at the top of the home
space and not where the stack pointer is left.
-/

namespace PicoCpu

namespace Reg

abbrev r8 : Nat := 8
abbrev r9 : Nat := 9

end Reg

namespace Host

/-! ### The handler of a function -/

structure ExceptionInfo where
  handlerRva : U32
  scopeDataRva : U32
  isExceptionHandler : Bool
  isUnwindHandler : Bool

section Raise

variable {σ : Type}

/-- `seh_exception_handler`. -/
def sehExceptionHandler (P : MemoryProvider σ) (base rip : GuestAddr) :
    Inspect σ ExceptionInfo := do
  let rf ← pdataLookup P base rip
  let ui ← followChain P base 16 rf.unwindRva
  let header ← readBytes P (base + ui.setWidth 64) 4
  let flags : U8 := header 0 >>> 3
  let isExceptionHandler := flags &&& 1 != 0
  let isUnwindHandler := flags &&& 2 != 0
  if !isExceptionHandler && !isUnwindHandler then stop .functionNotFound
  else do
    let codesBytes : U32 := (header 2).setWidth 32 * 2
    let codesPadded : U32 := (codesBytes + 3) &&& ~~~3
    let handler ← readBytes P (base + ui.setWidth 64 + 4 + codesPadded.setWidth 64) 4
    pure
      { handlerRva := u32At handler 0
        scopeDataRva := ui + 4 + codesPadded + 4
        isExceptionHandler, isUnwindHandler }

/-- A function whose unwind word leads to an unwind info with an exception handler. -/
theorem returns_sehExceptionHandler {P : MemoryProvider σ} {Inv : σ → Prop} {m : ByteMap}
    (hP : Serves P Inv m) {base rip : GuestAddr} {f : RuntimeFunction}
    (hrip : InFunction m base rip f) {n : Nat} {last : U32}
    (hlinks : Linked m base last n f.unwindRva) (hn : n ≤ 16) {version size frame : U8} {rva : U32}
    (hflags : (version >>> 3) &&& 1 = 1)
    (hinfo : HoldsAt m (base + last.setWidth 64) ([version, size, 0, frame] ++ le32 rva)) :
    Returns Inv (sehExceptionHandler P base rip) fun info =>
      info.isExceptionHandler = true ∧ info.handlerRva = rva := by
  obtain ⟨lfanew, dir, fns, himage, hf⟩ := hrip.image
  obtain ⟨j, hj, rfl⟩ := List.getElem_of_mem hf
  obtain ⟨hheader, hhandler⟩ := holdsAt_append.mp hinfo
  unfold sehExceptionHandler
  refine returns_bind (returns_pdataLookup hP himage hj hrip.base_le hrip.begin_le hrip.lt_end)
    fun rf hrf => ?_
  subst hrf
  refine returns_bind (returns_followChain hP hlinks hn) fun ui hui => ?_
  subst hui
  refine returns_bind (returns_readBytes hP hheader rfl) fun header hstart => ?_
  have hversion : header 0 = version := hstart 0 (by simp)
  have hcount : header 2 = 0 := hstart 2 (by simp)
  have hone : ((1 : U8) != 0) = true := rfl
  have hpadded : (((0 : U8).setWidth 32 * 2 + 3 : U32) &&& ~~~3).setWidth 64 = 0#64 := by decide
  simp only [hversion, hcount, hflags, hone, Bool.not_true, Bool.false_and, Bool.false_eq_true,
    if_false, hpadded, BitVec.add_zero]
  have hrva : HoldsAt m (base + ui.setWidth 64 + 4) (le32 rva) := hhandler
  refine returns_bind (returns_readBytes hP hrva rfl) fun handler hbytes => ?_
  rw [u32At_le32 hbytes]
  exact returns_pure ⟨rfl, rfl⟩

/-! ### Raising -/

structure GuestExceptionRecord where
  exceptionCode : U32
  exceptionFlags : U32 := 0
  exceptionRecord : U64 := 0
  exceptionAddress : U64
  numberParameters : U32 := 0
  pad : U32 := 0
  exceptionInformation : Fin 15 → U64 := fun _ => 0

/-- The record as it lies in memory. -/
def GuestExceptionRecord.bytes (er : GuestExceptionRecord) : List U8 :=
  le32 er.exceptionCode ++ le32 er.exceptionFlags ++ le64 er.exceptionRecord ++
    le64 er.exceptionAddress ++ le32 er.numberParameters ++ le32 er.pad ++
    (List.ofFn er.exceptionInformation).flatMap le64

/-- A store whose status is dropped. -/
def storeBytes (P : MemoryProvider σ) (addr : GuestAddr) (bs : List U8) : Inspect σ PUnit :=
  fun s => some (.ok (⟨⟩, (P.write addr bs.length (fun i => bs.getD i 0) s).2))

def kSentinel : U64 := 0xDEADBEEFDEADBEEF

/-- `sub`: bytes reserved, with the address rounded down to 16. -/
def reserve (rsp : U64) (n : U64) : U64 := Granule.base 4 (rsp - n)

/-- The CONTEXT, the EXCEPTION_RECORD and the DISPATCHER_CONTEXT. -/
def ctxAddr (rsp : U64) : GuestAddr := reserve rsp 0x4D0
def erAddr (rsp : U64) : GuestAddr := reserve (ctxAddr rsp) 152
def dcAddr (rsp : U64) : GuestAddr := reserve (erAddr rsp) 0x40

/-- `emu_raise_exception`, which returns the CPU. -/
def emuRaiseException (at_ : Attached σ) (base : GuestAddr) (code : U32) (addr : GuestAddr)
    (c : Cpu) : Inspect σ Cpu :=
  match at_.memRead, at_.memWrite with
  | some R, some W => do
    let info ← sehExceptionHandler R base c.rip
    if !info.isExceptionHandler then stop .notImplemented
    else do
      let handlerRip := base + info.handlerRva.setWidth 64
      let er : GuestExceptionRecord :=
        { exceptionCode := code, exceptionAddress := if addr ≠ 0 then addr else c.rip }
      let rsp := c.r Reg.rsp
      (List.range 77).forM fun k =>
        storeBytes W (ctxAddr rsp + BitVec.ofNat 64 (16 * k)) (List.replicate 16 0)
      storeBytes W (erAddr rsp) er.bytes
      storeBytes W (dcAddr rsp) (List.replicate 64 0)
      storeBytes W (dcAddr rsp - 8) (le64 kSentinel)
      let c := c.setR64 Reg.rsp (dcAddr rsp - 8 - 32)
      let c := c.setR64 Reg.rcx (erAddr rsp)
      let c := c.setR64 Reg.rdx (c.r Reg.rbp)
      let c := c.setR64 Reg.r8 (ctxAddr rsp)
      let c := c.setR64 Reg.r9 (dcAddr rsp)
      pure (c.setRip handlerRip)
  | _, _ => stop .providerFailure

end Raise

/-! ### Stores one after the other -/

section Stores

variable {σ : Type} (W : MemoryProvider σ)

/-- The state after the stores, whether they succeed or not. -/
def storeAll (stores : List (GuestAddr × List U8)) (s : σ) : σ :=
  stores.foldl (fun s st => (W.write st.1 st.2.length (fun i => st.2.getD i 0) s).2) s

/-- None of the stores fails. -/
def AllSucceed : List (GuestAddr × List U8) → σ → Prop
  | [], _ => True
  | st :: stores, s =>
    (W.write st.1 st.2.length (fun i => st.2.getD i 0) s).1 = .ok () ∧
      AllSucceed stores (W.write st.1 st.2.length (fun i => st.2.getD i 0) s).2

variable {W}

theorem storeAll_append (stores stores' : List (GuestAddr × List U8)) (s : σ) :
    storeAll W (stores ++ stores') s = storeAll W stores' (storeAll W stores s) :=
  List.foldl_append

theorem forM_storeBytes {α : Type} (f : α → GuestAddr × List U8) (l : List α) (s : σ) :
    (l.forM fun k => storeBytes W (f k).1 (f k).2) s =
      some (.ok (⟨⟩, storeAll W (l.map f) s)) := by
  induction l generalizing s with
  | nil => rfl
  | cons k l ih => exact ih _

/-- A write changes the bytes of its range and no others. -/
def WritesInPlace (W : MemoryProvider σ) (Inv : σ → Prop) (mem : σ → ByteMap) : Prop :=
  ∀ addr size data s a, size ≤ 2 ^ 64 → Inv s → ¬ Granule.InRange addr size a →
    mem (W.write addr size data s).2 a = mem s a

variable {Inv : σ → Prop} {mem : σ → ByteMap} (hW : Represents W Inv mem)
  (hplace : WritesInPlace W Inv mem)
include hW hplace

theorem storeAll_outside {stores : List (GuestAddr × List U8)} {s : σ} {a : GuestAddr}
    (hs : Inv s) (hlen : ∀ st ∈ stores, st.2.length ≤ 2 ^ 64)
    (hout : ∀ st ∈ stores, ¬ Granule.InRange st.1 st.2.length a) :
    mem (storeAll W stores s) a = mem s a := by
  induction stores generalizing s with
  | nil => rfl
  | cons st stores ih =>
      obtain ⟨hsize, hlen⟩ := List.forall_mem_cons.mp hlen
      obtain ⟨hfirst, hout⟩ := List.forall_mem_cons.mp hout
      have hrest := ih (hW.write_inv st.1 _ (fun i => st.2.getD i 0) s hsize hs) hlen hout
      exact hrest.trans (hplace _ _ _ s a hsize hs hfirst)

/-- Stores that succeed and lie apart all hold in the end. -/
theorem storeAll_holds {stores : List (GuestAddr × List U8)} {s : σ} (hs : Inv s)
    (hlen : ∀ st ∈ stores, st.2.length ≤ 2 ^ 64) (hok : AllSucceed W stores s)
    (hapart : stores.Pairwise fun st st' => Apart st.1 st.2.length st'.1 st'.2.length) :
    ∀ st ∈ stores, HoldsAt (mem (storeAll W stores s)) st.1 st.2 := by
  induction stores generalizing s with
  | nil => exact fun st hst => absurd hst List.not_mem_nil
  | cons st stores ih =>
      obtain ⟨hsize, hlen⟩ := List.forall_mem_cons.mp hlen
      obtain ⟨hfirst, hok⟩ := hok
      obtain ⟨haway, hapart⟩ := List.pairwise_cons.mp hapart
      have hs' := hW.write_inv st.1 st.2.length (fun i => st.2.getD i 0) s hsize hs
      rw [List.forall_mem_cons]
      refine ⟨fun i hi => ?_, ih hs' hlen hok hapart⟩
      have hkept := storeAll_outside hW hplace hs' hlen fun st' hst' => haway st' hst' i hi
      have hwritten := (hW.write_ok _ _ _ s hsize hs hfirst (st.1 + BitVec.ofNat 64 i)).1
      have hoff : (st.1 + BitVec.ofNat 64 i - st.1).toNat = i := by
        rw [BitVec.add_comm, BitVec.add_sub_cancel, BitVec.toNat_ofNat]
        exact Nat.mod_eq_of_lt (by omega)
      have hbyte := hwritten (by rw [Granule.InRange, hoff]; exact hi)
      rw [hoff, List.getD_eq_getElem _ _ hi] at hbyte
      exact hkept.trans hbyte

end Stores

/-! ### The frame -/

section Frame

/-- Every store of the frame, in order. -/
def frameStores (rsp : U64) (er : GuestExceptionRecord) : List (GuestAddr × List U8) :=
  (List.range 77).map (fun k => (ctxAddr rsp + BitVec.ofNat 64 (16 * k), List.replicate 16 0)) ++
    [(erAddr rsp, er.bytes), (dcAddr rsp, List.replicate 64 0), (dcAddr rsp - 8, le64 kSentinel)]

/-- The record of an exception at `addr`, or where the CPU is. -/
def recordFor (code : U32) (addr : GuestAddr) (c : Cpu) : GuestExceptionRecord :=
  { exceptionCode := code, exceptionAddress := if addr ≠ 0 then addr else c.rip }

theorem toNat_reserve (rsp n : U64) : (reserve rsp n).toNat = (rsp - n).toNat / 16 * 16 := by
  rw [reserve, Granule.toNat_base]
  omega

/-- With 1504 bytes of stack the regions lie below the stack pointer, one under the other. -/
theorem frame_toNat {rsp : U64} (h : 1504 ≤ rsp.toNat) :
    (dcAddr rsp).toNat % 16 = 0 ∧ 48 ≤ (dcAddr rsp).toNat ∧
      (erAddr rsp).toNat = (dcAddr rsp).toNat + 64 ∧
      (ctxAddr rsp).toNat = (dcAddr rsp).toNat + 224 ∧ (ctxAddr rsp).toNat + 1232 ≤ rsp.toNat := by
  have hctx := toNat_reserve rsp 0x4D0
  have her := toNat_reserve (ctxAddr rsp) 152
  have hdc := toNat_reserve (erAddr rsp) 0x40
  have hlarge : BitVec.toNat (0x4D0 : U64) = 1232 := rfl
  have hmiddle : BitVec.toNat (152 : U64) = 152 := rfl
  have hsmall : BitVec.toNat (0x40 : U64) = 64 := rfl
  have hrsp := rsp.isLt
  rw [BitVec.toNat_sub, hlarge] at hctx
  rw [BitVec.toNat_sub, hmiddle] at her
  rw [BitVec.toNat_sub, hsmall] at hdc
  rw [← ctxAddr] at hctx
  rw [← erAddr] at her
  rw [← dcAddr] at hdc
  omega

theorem length_bytes (er : GuestExceptionRecord) : er.bytes.length = 152 := by
  have hwords (ws : List U64) : (ws.flatMap le64).length = 8 * ws.length := by
    induction ws with
    | nil => rfl
    | cons w ws ih =>
        rw [List.flatMap_cons, List.length_append, ih, le64_length, List.length_cons]
        omega
  simp only [GuestExceptionRecord.bytes, List.length_append, le32_length, le64_length, hwords,
    List.length_ofFn]

theorem apart_of_toNat {a b : GuestAddr} {n size : Nat} (ha : a.toNat + n ≤ 2 ^ 64)
    (hb : b.toNat + size ≤ 2 ^ 64) (h : a.toNat + n ≤ b.toNat ∨ b.toNat + size ≤ a.toNat) :
    Apart a n b size := by
  intro k hk
  rw [Granule.InRange, BitVec.toNat_sub, BitVec.toNat_add, BitVec.toNat_ofNat]
  omega

theorem toNat_block {rsp : U64} (h : 1504 ≤ rsp.toNat) {k : Nat} (hk : k < 77) :
    (ctxAddr rsp + BitVec.ofNat 64 (16 * k)).toNat = (ctxAddr rsp).toNat + 16 * k := by
  obtain ⟨_, _, _, _, hend⟩ := frame_toNat h
  have hrsp := rsp.isLt
  rw [BitVec.toNat_add, BitVec.toNat_ofNat]
  omega

theorem toNat_sentinel {rsp : U64} (h : 1504 ≤ rsp.toNat) :
    (dcAddr rsp - 8).toNat = (dcAddr rsp).toNat - 8 := by
  obtain ⟨_, hdc, _, _, hend⟩ := frame_toNat h
  have height : BitVec.toNat (8 : U64) = 8 := rfl
  have hlt := (dcAddr rsp).isLt
  rw [BitVec.toNat_sub, height]
  omega

/-- What is stored after the CONTEXT. -/
def lowerStores (rsp : U64) (er : GuestExceptionRecord) : List (GuestAddr × List U8) :=
  [(erAddr rsp, er.bytes), (dcAddr rsp, List.replicate 64 0), (dcAddr rsp - 8, le64 kSentinel)]

theorem lowerStores_bounds {rsp : U64} (h : 1504 ≤ rsp.toNat) (er : GuestExceptionRecord) :
    ∀ st ∈ lowerStores rsp er, st.2.length ≤ 152 ∧ (dcAddr rsp).toNat - 8 ≤ st.1.toNat ∧
      st.1.toNat + st.2.length ≤ (ctxAddr rsp).toNat := by
  obtain ⟨_, hdc, her, hctx, hend⟩ := frame_toNat h
  simp only [lowerStores, List.forall_mem_cons, List.not_mem_nil, false_implies, implies_true,
    and_true, length_bytes, List.length_replicate, le64_length, toNat_sentinel h]
  omega

/-- Each lies under the one before it. -/
theorem lowerStores_apart {rsp : U64} (h : 1504 ≤ rsp.toNat) (er : GuestExceptionRecord) :
    (lowerStores rsp er).Pairwise fun st st' => Apart st.1 st.2.length st'.1 st'.2.length := by
  obtain ⟨_, hdc, her, hctx, hend⟩ := frame_toNat h
  have hsentinel := toNat_sentinel h
  have hrsp := rsp.isLt
  refine .cons (fun st hst => ?_) (.cons (fun st hst => ?_) (List.pairwise_singleton _ _))
  · rcases List.mem_pair.mp hst with rfl | rfl
    · dsimp only
      rw [length_bytes, List.length_replicate]
      exact apart_of_toNat (by omega) (by omega) (.inr (by omega))
    · dsimp only
      rw [length_bytes, le64_length]
      exact apart_of_toNat (by omega) (by omega) (.inr (by omega))
  · rw [List.mem_singleton.mp hst]
    dsimp only
    rw [List.length_replicate, le64_length]
    exact apart_of_toNat (by omega) (by omega) (.inr (by omega))

theorem frameStores_apart {rsp : U64} (h : 1504 ≤ rsp.toNat) (er : GuestExceptionRecord) :
    (frameStores rsp er).Pairwise fun st st' => Apart st.1 st.2.length st'.1 st'.2.length := by
  obtain ⟨_, hdc, her, hctx, hend⟩ := frame_toNat h
  have hrsp := rsp.isLt
  rw [frameStores, List.pairwise_append, List.pairwise_map]
  refine ⟨List.pairwise_lt_range.imp_of_mem fun {k k'} hk hk' hlt => ?_, lowerStores_apart h er, ?_⟩
  · have hbound := List.mem_range.mp hk'
    have hblock₁ := toNat_block h (List.mem_range.mp hk)
    have hblock₂ := toNat_block h hbound
    dsimp only
    rw [List.length_replicate]
    exact apart_of_toNat (by omega) (by omega) (by omega)
  · intro st hst st' hst'
    obtain ⟨k, hk, rfl⟩ := List.mem_map.mp hst
    have hk := List.mem_range.mp hk
    have hblock := toNat_block h hk
    obtain ⟨_, _, hbelow⟩ := lowerStores_bounds h er st' hst'
    dsimp only
    rw [List.length_replicate]
    exact apart_of_toNat (by omega) (by omega) (.inr (by omega))

/-- The stores lie between the sentinel and the old stack pointer. -/
theorem frameStores_bounds {rsp : U64} (h : 1504 ≤ rsp.toNat) (er : GuestExceptionRecord) :
    ∀ st ∈ frameStores rsp er, st.2.length ≤ 152 ∧ (dcAddr rsp).toNat - 8 ≤ st.1.toNat ∧
      st.1.toNat + st.2.length ≤ rsp.toNat := by
  obtain ⟨_, hdc, her, hctx, hend⟩ := frame_toNat h
  rw [frameStores, List.forall_mem_append]
  constructor
  · intro st hst
    obtain ⟨k, hk, rfl⟩ := List.mem_map.mp hst
    have hk := List.mem_range.mp hk
    dsimp only
    rw [List.length_replicate, toNat_block h hk]
    omega
  · intro st hst
    obtain ⟨hlen, hlow, hhigh⟩ := lowerStores_bounds h er st hst
    exact ⟨hlen, hlow, by omega⟩

/-- The 77 blocks of zeros make up the CONTEXT. -/
theorem holdsAt_zeros {m : ByteMap} {a : GuestAddr}
    (h : ∀ k < 77, HoldsAt m (a + BitVec.ofNat 64 (16 * k)) (List.replicate 16 0)) :
    HoldsAt m a (List.replicate 0x4D0 0) := by
  intro i hi
  rw [List.length_replicate] at hi
  have hmod : i % 16 < 16 := Nat.mod_lt i (Nat.succ_pos 15)
  have hbyte := h (i / 16) (by omega) (i % 16) (by rw [List.length_replicate]; exact hmod)
  rw [BitVec.add_assoc, ← BitVec.ofNat_add, Nat.div_add_mod, List.getElem_replicate] at hbyte
  rw [hbyte, List.getElem_replicate]

end Frame

/-! ### What the function does -/

section Raised

variable {σ : Type} {Inv : σ → Prop} {mem : σ → ByteMap} {at_ : Attached σ} {base : GuestAddr}
  {code : U32} {addr : GuestAddr} {c c' : Cpu} {s s' : σ}

/-- Both providers are there and the lookup finds an exception handler. It leaves the state `s₁`. -/
def Handled (at_ : Attached σ) (base : GuestAddr) (c : Cpu) (s : σ) (info : ExceptionInfo)
    (W : MemoryProvider σ) (s₁ : σ) : Prop :=
  ∃ R, at_.memRead = some R ∧ at_.memWrite = some W ∧
    sehExceptionHandler R base c.rip s = some (.ok (info, s₁)) ∧ info.isExceptionHandler = true

/-- The CPU at the handler. -/
def primed (base : GuestAddr) (info : ExceptionInfo) (c : Cpu) : Cpu :=
  let rsp := c.r Reg.rsp
  let c := (c.setR64 Reg.rsp (dcAddr rsp - 8 - 32)).setR64 Reg.rcx (erAddr rsp)
  let c := ((c.setR64 Reg.rdx (c.r Reg.rbp)).setR64 Reg.r8 (ctxAddr rsp)).setR64 Reg.r9 (dcAddr rsp)
  c.setRip (base + info.handlerRva.setWidth 64)

/-- With a handler found, the frame is stored and the CPU primed, whether or not a store fails. -/
theorem emuRaiseException_of_handled {info : ExceptionInfo} {W : MemoryProvider σ} {s₁ : σ}
    (h : Handled at_ base c s info W s₁) :
    emuRaiseException at_ base code addr c s =
      some (.ok (primed base info c,
        storeAll W (frameStores (c.r Reg.rsp) (recordFor code addr c)) s₁)) := by
  obtain ⟨R, hread, hwrite, hlookup, hhandler⟩ := h
  have hblocks := forM_storeBytes (W := W)
    (fun k => (ctxAddr (c.r Reg.rsp) + BitVec.ofNat 64 (16 * k), List.replicate 16 0))
    (List.range 77) s₁
  rw [emuRaiseException, hread, hwrite]
  dsimp only
  rw [bind_of_ok hlookup, hhandler, Bool.not_true, if_neg Bool.false_ne_true, bind_of_ok hblocks,
    frameStores, storeAll_append]
  rfl

/-- The call returns for no other reason than that it found a handler. -/
theorem handled_of_emuRaiseException {r : Cpu × σ}
    (h : emuRaiseException at_ base code addr c s = some (.ok r)) :
    ∃ info W s₁, Handled at_ base c s info W s₁ := by
  rw [emuRaiseException] at h
  cases hread : at_.memRead with
  | none =>
      rw [hread] at h
      cases h
  | some R =>
      cases hwrite : at_.memWrite with
      | none =>
          rw [hread, hwrite] at h
          cases h
      | some W =>
          rw [hread, hwrite] at h
          obtain ⟨info, s₁, hlookup, hrest⟩ := ok_of_bind h
          cases hhandler : info.isExceptionHandler with
          | false =>
              rw [hhandler, Bool.not_false, if_pos rfl] at hrest
              cases hrest
          | true => exact ⟨info, W, s₁, R, hread, hwrite, hlookup, hhandler⟩

theorem emuRaiseException_ok_iff :
    emuRaiseException at_ base code addr c s = some (.ok (c', s')) ↔
      ∃ info W s₁, Handled at_ base c s info W s₁ ∧ c' = primed base info c ∧
        s' = storeAll W (frameStores (c.r Reg.rsp) (recordFor code addr c)) s₁ := by
  constructor
  · intro h
    obtain ⟨info, W, s₁, hhandled⟩ := handled_of_emuRaiseException h
    rw [emuRaiseException_of_handled hhandled] at h
    cases h
    exact ⟨info, W, s₁, hhandled, rfl, rfl⟩
  · rintro ⟨info, W, s₁, hhandled, rfl, rfl⟩
    exact emuRaiseException_of_handled hhandled

theorem keeps_readBytes_of_represents {R : MemoryProvider σ} (hR : Represents R Inv mem)
    (m : ByteMap) (addr : GuestAddr) {size : Nat} (hsize : size ≤ 16) :
    Keeps (fun s => Inv s ∧ mem s = m) (readBytes R addr size) := by
  rintro s ⟨hs, rfl⟩
  have hbound : size ≤ 2 ^ 64 := by omega
  have hinv := hR.read_inv addr size (fun _ => 0) s hbound hs
  have hmem := hR.read_mem addr size (fun _ => 0) s hbound hs
  rw [readBytes]
  rcases hrun : R.read addr size (fun _ => 0) s with ⟨e | u, buf, s'⟩
  · exact .inr ⟨e, rfl⟩
  · rw [hrun] at hinv hmem
    exact .inl ⟨buf, s', rfl, hinv, hmem⟩

/-- The lookup of a handler changes no byte. -/
theorem keeps_sehExceptionHandler {R : MemoryProvider σ} (hR : Represents R Inv mem)
    (m : ByteMap) (base rip : GuestAddr) :
    Keeps (fun s => Inv s ∧ mem s = m) (sehExceptionHandler R base rip) := by
  have hread (addr : GuestAddr) (size : Nat) (hsize : size ≤ 16) :=
    keeps_readBytes_of_represents hR m addr hsize
  unfold sehExceptionHandler
  refine keeps_bind (keeps_pdataLookup hread base rip) fun rf => ?_
  refine keeps_bind (keeps_followChain hread base 16 _) fun ui => ?_
  refine keeps_bind (hread _ 4 (by decide)) fun header => keeps_ite (keeps_stop _) ?_
  exact keeps_bind (hread _ 4 (by decide)) fun handler => keeps_pure _

theorem Handled.keeps {info : ExceptionInfo} {W : MemoryProvider σ} {s₁ : σ}
    (h : Handled at_ base c s info W s₁) (hrep : at_.Represents Inv mem) (hs : Inv s) :
    Represents W Inv mem ∧ Inv s₁ ∧ mem s₁ = mem s := by
  obtain ⟨R, hread, hwrite, hlookup, _⟩ := h
  refine ⟨hrep.write W hwrite, ?_⟩
  rcases keeps_sehExceptionHandler (hrep.read R hread) (mem s) base c.rip s ⟨hs, rfl⟩ with
    ⟨info', s₂, hrun, hkept⟩ | ⟨e, hrun⟩
  · rw [hlookup] at hrun
    cases hrun
    exact hkept
  · rw [hlookup] at hrun
    cases hrun

/-! ### The frame that it leaves -/

/-- The EXCEPTION_RECORD, the CONTEXT and the DISPATCHER_CONTEXT, where the registers point. -/
def frameRegions (c : Cpu) : List (GuestAddr × Nat) :=
  [(c.r Reg.rcx, 152), (c.r Reg.r8, 0x4D0), (c.r Reg.r9, 0x40)]

/-- The frame that the handler is promised, with `er` as its record. -/
structure DispatchFrame (m : ByteMap) (old c : Cpu) (er : GuestExceptionRecord) : Prop where
  sentinel : HoldsAt m (c.r Reg.rsp) (le64 kSentinel)
  rspAligned : (c.r Reg.rsp).toNat % 16 = 8
  aligned : ∀ region ∈ frameRegions c, region.1.toNat % 16 = 0
  disjoint : (frameRegions c).Pairwise fun region region' =>
    region.1.toNat + region.2 ≤ region'.1.toNat ∨ region'.1.toNat + region'.2 ≤ region.1.toNat
  aboveHome : ∀ region ∈ frameRegions c, (c.r Reg.rsp).toNat + 8 + 32 ≤ region.1.toNat
  belowOld : ∀ region ∈ frameRegions c, region.1.toNat + region.2 ≤ (old.r Reg.rsp).toNat
  record : HoldsAt m (c.r Reg.rcx) er.bytes
  context : HoldsAt m (c.r Reg.r8) (List.replicate 0x4D0 0)
  dispatcher : HoldsAt m (c.r Reg.r9) (List.replicate 0x40 0)

/-- What is promised of a call that returns Ok: the frame, and that no store has failed. -/
def RaisesFrame (at_ : Attached σ) (mem : σ → ByteMap) (base : GuestAddr) (code : U32)
    (addr : GuestAddr) (c : Cpu) (s : σ) : Prop :=
  ∀ c' s', emuRaiseException at_ base code addr c s = some (.ok (c', s')) →
    DispatchFrame (mem s') c c' (recordFor code addr c) ∧
      ∀ info W s₁, Handled at_ base c s info W s₁ →
        AllSucceed W (frameStores (c.r Reg.rsp) (recordFor code addr c)) s₁

theorem primed_registers (base : GuestAddr) (info : ExceptionInfo) (c : Cpu) :
    (primed base info c).r Reg.rsp = dcAddr (c.r Reg.rsp) - 40 ∧
      (primed base info c).r Reg.rcx = erAddr (c.r Reg.rsp) ∧
      (primed base info c).r Reg.r8 = ctxAddr (c.r Reg.rsp) ∧
      (primed base info c).r Reg.r9 = dcAddr (c.r Reg.rsp) := by
  refine ⟨?_, rfl, rfl, rfl⟩
  have hsub : dcAddr (c.r Reg.rsp) - 8 - 32 = dcAddr (c.r Reg.rsp) - 40 := BitVec.sub_sub _ _ _
  exact hsub

theorem sentinel_toNat {rsp : U64} (h : 48 ≤ (dcAddr rsp).toNat) :
    (dcAddr rsp - 40).toNat = (dcAddr rsp).toNat - 40 := by
  have hforty : BitVec.toNat (40 : U64) = 40 := rfl
  have hdc := (dcAddr rsp).isLt
  rw [BitVec.toNat_sub, hforty]
  omega

/-- The regions are in place exactly with 1504 bytes of stack. -/
theorem regions_iff (base : GuestAddr) (info : ExceptionInfo) (c : Cpu) :
    ((∀ region ∈ frameRegions (primed base info c),
        ((primed base info c).r Reg.rsp).toNat + 8 + 32 ≤ region.1.toNat) ∧
      ∀ region ∈ frameRegions (primed base info c),
        region.1.toNat + region.2 ≤ (c.r Reg.rsp).toNat) ↔ 1504 ≤ (c.r Reg.rsp).toNat := by
  obtain ⟨hrsp, hrcx, hr8, hr9⟩ := primed_registers base info c
  rw [frameRegions, hrsp, hrcx, hr8, hr9]
  generalize c.r Reg.rsp = rsp
  simp only [List.forall_mem_cons, List.not_mem_nil, false_implies, implies_true, and_true]
  have hctx := toNat_reserve rsp 0x4D0
  have her := toNat_reserve (ctxAddr rsp) 152
  have hdc := toNat_reserve (erAddr rsp) 0x40
  have hforty : BitVec.toNat (40 : U64) = 40 := rfl
  have hlarge : BitVec.toNat (0x4D0 : U64) = 1232 := rfl
  have hmiddle : BitVec.toNat (152 : U64) = 152 := rfl
  have hsmall : BitVec.toNat (0x40 : U64) = 64 := rfl
  have hlt := rsp.isLt
  rw [BitVec.toNat_sub, hlarge] at hctx
  rw [BitVec.toNat_sub, hmiddle] at her
  rw [BitVec.toNat_sub, hsmall] at hdc
  rw [← ctxAddr] at hctx
  rw [← erAddr] at her
  rw [← dcAddr] at hdc
  rw [BitVec.toNat_sub, hforty]
  omega

section Stored

variable {W : MemoryProvider σ} {s₁ : σ} {rsp : U64} {er : GuestExceptionRecord}
  (hW : Represents W Inv mem) (hplace : WritesInPlace W Inv mem) (hs : Inv s₁)
  (hroom : 1504 ≤ rsp.toNat)
include hW hplace hs hroom

/-- With room for the frame and no store failing, the regions hold what is written. -/
theorem frame_stored (hok : AllSucceed W (frameStores rsp er) s₁) :
    HoldsAt (mem (storeAll W (frameStores rsp er) s₁)) (erAddr rsp) er.bytes ∧
      HoldsAt (mem (storeAll W (frameStores rsp er) s₁)) (ctxAddr rsp) (List.replicate 0x4D0 0) ∧
      HoldsAt (mem (storeAll W (frameStores rsp er) s₁)) (dcAddr rsp) (List.replicate 0x40 0) := by
  have hlen : ∀ st ∈ frameStores rsp er, st.2.length ≤ 2 ^ 64 := fun st hst => by
    have hbound := (frameStores_bounds hroom er st hst).1
    omega
  have hholds := storeAll_holds hW hplace hs hlen hok (frameStores_apart hroom er)
  have hlast (st : GuestAddr × List U8) (hst : st ∈ [(erAddr rsp, er.bytes),
      (dcAddr rsp, List.replicate 64 0), (dcAddr rsp - 8, le64 kSentinel)]) :=
    hholds st (List.mem_append_right _ hst)
  refine ⟨hlast _ (List.mem_cons_self ..), holdsAt_zeros fun k hk => ?_,
    hlast _ (List.mem_cons_of_mem _ (List.mem_cons_self ..))⟩
  exact hholds _ (List.mem_append_left _ (List.mem_map.mpr ⟨k, List.mem_range.mpr hk, rfl⟩))

/-- The stores leave the bytes at the new stack pointer alone. -/
theorem frame_below {i : Nat} (hi : i < 8) :
    mem (storeAll W (frameStores rsp er) s₁) (dcAddr rsp - 40 + BitVec.ofNat 64 i) =
      mem s₁ (dcAddr rsp - 40 + BitVec.ofNat 64 i) := by
  have hbounds := frameStores_bounds hroom er
  obtain ⟨_, hdc, _⟩ := frame_toNat hroom
  have hrsp := rsp.isLt
  refine storeAll_outside hW hplace hs (fun st hst => ?_) fun st hst => ?_
  · have hbound := (hbounds st hst).1
    omega
  · obtain ⟨hlen, hlow, hhigh⟩ := hbounds st hst
    rw [Granule.InRange, BitVec.toNat_sub, BitVec.toNat_add, BitVec.toNat_ofNat, sentinel_toNat hdc]
    omega

end Stored

/-- The promise is kept exactly when, wherever a handler is found, there are 1504 bytes of stack,
every store succeeds, and the sentinel already lies where the stack pointer will be. -/
theorem raises_frame_iff (hrep : at_.Represents Inv mem)
    (hplace : ∀ W ∈ at_.memWrite, WritesInPlace W Inv mem) (hs : Inv s) :
    RaisesFrame at_ mem base code addr c s ↔ ∀ info W s₁, Handled at_ base c s info W s₁ →
      1504 ≤ (c.r Reg.rsp).toNat ∧
        AllSucceed W (frameStores (c.r Reg.rsp) (recordFor code addr c)) s₁ ∧
        HoldsAt (mem s) (dcAddr (c.r Reg.rsp) - 40) (le64 kSentinel) := by
  constructor
  · intro h info W s₁ hhandled
    obtain ⟨hframe, hok⟩ := h _ _ (emuRaiseException_ok_iff.mpr ⟨info, W, s₁, hhandled, rfl, rfl⟩)
    obtain ⟨hW, hs₁, hmem⟩ := hhandled.keeps hrep hs
    have hroom := (regions_iff base info c).mp ⟨hframe.aboveHome, hframe.belowOld⟩
    refine ⟨hroom, hok info W s₁ hhandled, fun i hi => ?_⟩
    have hplaceW := hplace W hhandled.choose_spec.2.1
    have hbyte := hframe.sentinel i hi
    rw [(primed_registers base info c).1, frame_below hW hplaceW hs₁ hroom hi, hmem] at hbyte
    exact hbyte
  · rintro h c' s' hraise
    obtain ⟨info, W, s₁, hhandled, rfl, rfl⟩ := emuRaiseException_ok_iff.mp hraise
    obtain ⟨hroom, hok, hsentinel⟩ := h info W s₁ hhandled
    obtain ⟨hW, hs₁, hmem⟩ := hhandled.keeps hrep hs
    have hplaceW := hplace W hhandled.choose_spec.2.1
    obtain ⟨hrsp, hrcx, hr8, hr9⟩ := primed_registers base info c
    obtain ⟨hrecord, hcontext, hdispatcher⟩ := frame_stored hW hplaceW hs₁ hroom hok
    obtain ⟨habove, hbelow⟩ := (regions_iff base info c).mpr hroom
    obtain ⟨haligned, hdc, her, hctx, hend⟩ := frame_toNat hroom
    refine ⟨⟨fun i hi => ?_, ?_, ?_, ?_, habove, hbelow, ?_, ?_, ?_⟩, fun info' W' s₂ h' =>
      (h info' W' s₂ h').2.1⟩
    · rw [hrsp, frame_below hW hplaceW hs₁ hroom hi, hmem]
      exact hsentinel i hi
    · rw [hrsp, sentinel_toNat hdc]
      omega
    · rw [frameRegions, hrcx, hr8, hr9]
      simp only [List.forall_mem_cons, List.not_mem_nil, false_implies, implies_true, and_true]
      omega
    · rw [frameRegions, hrcx, hr8, hr9]
      simp only [List.pairwise_cons, List.forall_mem_cons, List.not_mem_nil, false_implies,
        implies_true, and_true, List.Pairwise.nil]
      omega
    · rw [hrcx]
      exact hrecord
    · rw [hr8]
      exact hcontext
    · rw [hr9]
      exact hdispatcher

end Raised

/-! ### A handler in a flat memory -/

/-- The image at 140000000 whose function has the handler 4000. -/
def handlerImage : ByteMap :=
  store (imageWith smallProlog) 0x140003000 ([9, 10, 0, 0] ++ le32 0x4000)

/-- The CPU in the function, with zeros on the stack. -/
def raisingCpu : Cpu := (({} : Cpu).setR64 Reg.rsp 0x7FFF0000).setRip 0x140002010

def raisingMemory : GuestAddr → U8 := fun a => (handlerImage a).getD 0

theorem serves_flatMemory (m : ByteMap) :
    Serves flatMemory (fun s => ∀ a b, m a = some b → s a = b) m := by
  refine ⟨fun addr size out s hs hmapped => ⟨_, s, rfl, hs, fun i hi => ?_⟩⟩
  obtain ⟨b, hb⟩ := Option.isSome_iff_exists.mp (hmapped i hi)
  rw [if_pos hi, hb, hs _ b hb]

theorem raising_handled : ∃ info s₁,
    Handled flatMachine 0x140000000 raisingCpu raisingMemory info flatMemory s₁ := by
  have hrip : InFunction handlerImage 0x140000000 0x140002010 onlyFunction :=
    inFunction_of_headers (by decide +kernel) (by decide)
  have hlinks : Linked handlerImage 0x140000000 0x3000 0 onlyFunction.unwindRva := .here (by decide)
  have hinfo : HoldsAt handlerImage (0x140000000 + (0x3000 : U32).setWidth 64)
      ([9, 10, 0, 0] ++ le32 0x4000) := store_self (by decide)
  obtain ⟨info, s₁, hlookup, _, hhandler, _⟩ :=
    returns_sehExceptionHandler (serves_flatMemory handlerImage) hrip hlinks (Nat.zero_le 16)
      (by decide) hinfo raisingMemory fun a b hb => by rw [raisingMemory, hb, Option.getD_some]
  exact ⟨info, s₁, flatMemory, rfl, rfl, hlookup, hhandler⟩

theorem flatMemory_writesInPlace : WritesInPlace flatMemory (fun _ => True) flatBytes :=
  fun _ _ _ _ _ _ _ hout => congrArg some (if_neg hout)

/-- The call returns Ok, and not the sentinel but zeros lie at the stack pointer. -/
theorem not_raises_frame :
    ¬ RaisesFrame flatMachine flatBytes 0x140000000 0xC0000005 0 raisingCpu raisingMemory := by
  intro h
  obtain ⟨info, s₁, hhandled⟩ := raising_handled
  obtain ⟨hW, hs₁, hmem⟩ := hhandled.keeps flatMachine_represents trivial
  have hroom : 1504 ≤ (raisingCpu.r Reg.rsp).toNat := by decide
  obtain ⟨hframe, _⟩ := h _ _ (emuRaiseException_ok_iff.mpr ⟨info, _, s₁, hhandled, rfl, rfl⟩)
  have hbyte := hframe.sentinel 0 (by decide)
  rw [(primed_registers _ info raisingCpu).1,
    frame_below hW flatMemory_writesInPlace hs₁ hroom (by decide), hmem] at hbyte
  exact absurd hbyte (by decide +kernel)

theorem raises_frame_iff_flat :
    RaisesFrame flatMachine flatBytes 0x140000000 0xC0000005 0 raisingCpu raisingMemory ↔
      ∀ info W s₁, Handled flatMachine 0x140000000 raisingCpu raisingMemory info W s₁ →
        1504 ≤ (raisingCpu.r Reg.rsp).toNat ∧
          AllSucceed W (frameStores (raisingCpu.r Reg.rsp) (recordFor 0xC0000005 0 raisingCpu)) s₁ ∧
          HoldsAt (flatBytes raisingMemory) (dcAddr (raisingCpu.r Reg.rsp) - 40) (le64 kSentinel) :=
  raises_frame_iff flatMachine_represents
    (fun _ hW => Option.some.inj hW ▸ flatMemory_writesInPlace) trivial

end Host

end PicoCpu
