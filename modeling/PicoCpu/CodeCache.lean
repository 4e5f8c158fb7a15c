import PicoCpu.Decoder.EntryPoints
import PicoCpu.Memory.Chain
import PicoCpu.Replay

/-!
The block cache over a memory that changes: lookups, insertions of freshly decoded blocks, and
guest writes to the shadow pages with the write listener wired to `invalidate_range`. A cached
block stays what the decoder would read from the memory now, because a write that reaches one of
its bytes reaches a code range and erases it.
-/

namespace PicoCpu

open Granule

/-! ### The machine -/

/-- The shadow pages as the decoder reads them, one byte at a time. -/
def ShadowPages.codeBytes (sp : ShadowPages) : CodeBytes := fun a =>
  match sp.read a 1 fun _ => 0 with
  | (.ok _, out) => .ok (out 0)
  | (.error s, _) => .error s

/-- The memory and the cache of blocks decoded from it. -/
structure CodeVm where
  sp : ShadowPages
  cache : BlockCache := fun _ => none

namespace CodeVm

/-- A guest write: the listener calls `invalidate_range` when the write met a code range. -/
def write (s : CodeVm) (addr : GuestAddr) (size : U64) (data : Buf) :
    Except Status Unit × CodeVm :=
  match ShadowPages.write addr size.toNat data s.sp with
  | (.error e, sp) => (.error e, { s with sp })
  | (.ok _, sp) =>
    (.ok (),
      { sp
        cache :=
          if size != 0 && sp.touchesCode addr size.toNat then
            s.cache.invalidateRange addr size.toNat
          else s.cache })

/-- What the dispatcher and the guest do to the two. -/
inductive Op where
  | lookup (pc : GuestAddr)
  | insert (pc : GuestAddr) (maxInsns : Nat)
  | write (addr : GuestAddr) (size : U64) (data : Buf)

/-- One operation; `none` when a decode does not end. A block whose decode fails is not
inserted. -/
def step (s : CodeVm) : Op → Option CodeVm
  | .lookup _ => some s
  | .insert pc maxInsns =>
    (decodeBlock s.sp.codeBytes pc maxInsns).map fun r =>
      match r with
      | .error _ => s
      | .ok block => { s with cache := s.cache.insert pc block }
  | .write addr size data => some (s.write addr size data).2

/-- The states of the runs from an empty cache all of whose operations meet `ok`. -/
inductive Reach (ok : CodeVm → Op → Prop) (sp : ShadowPages) : CodeVm → Prop
  | start : Reach ok sp { sp }
  | step {s s' : CodeVm} {op : Op} (h : Reach ok sp s) (hok : ok s op) (hstep : s.step op = some s') :
      Reach ok sp s'

theorem step_insert {s : CodeVm} {pc : GuestAddr} {maxInsns : Nat} {block : DecodedBlock}
    (h : decodeBlock s.sp.codeBytes pc maxInsns = some (.ok block)) :
    s.step (.insert pc maxInsns) = some { s with cache := s.cache.insert pc block } := by
  rw [step, h]
  rfl

end CodeVm

/-! ### In step -/

/-- Each instruction is what the decoder returns at its address. -/
def DecodedAlong (mem : CodeBytes) : GuestAddr → List Insn → Prop
  | _, [] => True
  | cur, i :: rest =>
    decodeOne mem cur prefixFuel = some (.ok i) ∧ DecodedAlong mem (cur + BitVec.ofNat 64 i.len) rest

/-- The block is the decoder's reading of the memory at `pc`, up to the peephole pass. -/
def InStep (mem : CodeBytes) (pc : GuestAddr) (block : DecodedBlock) : Prop :=
  ∃ insns, block.insns = peepholeBlock insns ∧ DecodedAlong mem pc insns

/-- Some byte lies in both ranges. -/
def Overlap (pc : GuestAddr) (byteSize : Nat) (addr : GuestAddr) (size : Nat) : Prop :=
  ∃ a, InRange pc byteSize a ∧ InRange addr size a

/-- From `s` to `s'` exactly the blocks that overlap the range have gone. -/
def RemovesOverlapped (s s' : CodeVm) (addr : GuestAddr) (size : Nat) : Prop :=
  ∀ pc, (s.cache pc = none → s'.cache pc = none) ∧
    ∀ block, s.cache pc = some block →
      (Overlap pc block.byteSize addr size → s'.cache pc = none) ∧
      (¬ Overlap pc block.byteSize addr size → s'.cache pc = some block)

/-- The byte lies in a registered code range. -/
def InCode (sp : ShadowPages) (a : GuestAddr) : Prop :=
  ∃ r ∈ sp.codeRanges, InRange r.base r.size.toNat a

/-- No code range reaches `2 ^ 64`. -/
def CodeEnds (sp : ShadowPages) : Prop :=
  ∀ r ∈ sp.codeRanges, r.base.toNat + r.size.toNat < 2 ^ 64

/-- The setting: what is inserted lies in the code ranges, and no write reaches `2 ^ 64`. -/
def Allowed (s : CodeVm) : CodeVm.Op → Prop
  | .lookup _ => True
  | .insert pc maxInsns => ∀ block, decodeBlock s.sp.codeBytes pc maxInsns = some (.ok block) →
      ∀ a, InRange pc block.byteSize a → InCode s.sp a
  | .write addr size _ => addr.toNat + size.toNat < 2 ^ 64

/-- The prefixes at `rip` and the opcode's bytes after them are at most 255, which is what the
decoder's 8-bit count of consumed bytes can tell. -/
def CountFits (mem : CodeBytes) (rip : GuestAddr) : Prop :=
  ∀ p bs, PrefixRun (memFetch mem rip) p → OpcodeBytes (memFetch mem rip) rip p bs →
    p + bs.length ≤ 255

/-- At every instruction that `decode_block` comes to from `cur`, the count fits. -/
def CountFitsAlong (mem : CodeBytes) : Nat → GuestAddr → Prop
  | 0, _ => True
  | n + 1, cur =>
    CountFits mem cur ∧
      ∀ i, decodeOne mem cur prefixFuel = some (.ok i) → i.flags.controlFlow = false →
        CountFitsAlong mem n (cur + BitVec.ofNat 64 i.len)

/-- An insertion decodes at least one instruction, not so many that the 32-bit `byte_size`
could wrap, and its count of bytes fits throughout. -/
def Counted (s : CodeVm) : CodeVm.Op → Prop
  | .insert pc maxInsns =>
    0 < maxInsns ∧ maxInsns ≤ 2 ^ 24 ∧ CountFitsAlong s.sp.codeBytes maxInsns pc
  | _ => True

/-! ### One instruction -/

/-- An instruction together with the bytes it was decoded from, all counted. -/
structure Held (mem : CodeBytes) (rip : GuestAddr) (i : Insn) : Prop where
  pos : 0 < i.len
  answers : ∃ p bs, Answers (memFetch mem rip) rip p bs i ∧ i.len = p + bs.length ∧ i.len ≤ 255

theorem Held.decodes {mem : CodeBytes} {rip : GuestAddr} {i : Insn} (h : Held mem rip i) :
    decodeOne mem rip prefixFuel = some (.ok i) := by
  obtain ⟨p, bs, hans, _, _⟩ := h.answers
  have hp := hans.prefixes.1
  obtain ⟨⟨j, hj, _⟩, _, _⟩ :=
    decode_of_opcodeBytes hans.prefixes hans.opcodeBytes (prefixFuel - p - 1)
  have hfuel : p + (prefixFuel - p - 1 + 1) = prefixFuel := by
    unfold prefixFuel
    omega
  rw [hfuel] at hj
  have hsame := decode_unique hans.decodes hj
  rw [decodeOne, hj, hsame]

theorem held_of_decodes {mem : CodeBytes} {rip : GuestAddr} {i : Insn}
    (h : decodeOne mem rip prefixFuel = some (.ok i)) (hfits : CountFits mem rip) :
    Held mem rip i := by
  obtain ⟨p, bs, hans⟩ := answers_of_decodes h
  have hle := hfits p bs hans.prefixes hans.opcodeBytes
  obtain ⟨⟨j, hj, hlen⟩, hpos, _⟩ := decode_of_opcodeBytes hans.prefixes hans.opcodeBytes 0
  have hsame : i = j := by
    have := decode_unique hans.decodes hj
    exact Except.ok.inj this
  have hcount : i.len = p + bs.length := by
    rw [hsame, hlen, BitVec.toNat_ofNat]
    exact Nat.mod_eq_of_lt (by omega)
  exact ⟨by omega, p, bs, hans, hcount, by omega⟩

/-- An instruction stays where its own bytes stay. -/
theorem Held.congr {mem mem' : CodeBytes} {rip : GuestAddr} {i : Insn} (h : Held mem rip i)
    (hsame : ∀ a v, InRange rip i.len a → mem a = .ok v → mem' a = .ok v) : Held mem' rip i := by
  obtain ⟨hpos, p, bs, hans, hlen, hle⟩ := h
  refine ⟨hpos, p, bs, hans.congr ?_, hlen, hle⟩
  intro j hj
  obtain ⟨v, hv⟩ := hans.ok_at hj
  have hoff : (BitVec.ofNat 8 j).setWidth 64 = BitVec.ofNat 64 j := by
    apply BitVec.eq_of_toNat_eq
    rw [BitVec.toNat_setWidth, BitVec.toNat_ofNat, BitVec.toNat_ofNat]
    omega
  have hin : InRange rip i.len (rip + BitVec.ofNat 64 j) :=
    inRange_add rip i.len j (by omega) (by omega)
  rw [hv]
  unfold memFetch at hv ⊢
  rw [hoff] at hv ⊢
  exact hsame _ v hin hv

/-! ### A block -/

/-- The instructions of a block, each held at its address. -/
def HeldAlong (mem : CodeBytes) : GuestAddr → List Insn → Prop
  | _, [] => True
  | cur, i :: rest => Held mem cur i ∧ HeldAlong mem (cur + BitVec.ofNat 64 i.len) rest

theorem HeldAlong.decoded {mem : CodeBytes} {cur : GuestAddr} {insns : List Insn}
    (h : HeldAlong mem cur insns) : DecodedAlong mem cur insns := by
  induction insns generalizing cur with
  | nil => exact trivial
  | cons i rest ih => exact ⟨h.1.decodes, ih h.2⟩

theorem heldAlong_of_decodeRun {mem : CodeBytes} {n : Nat} {cur : GuestAddr} {insns : List Insn}
    {st : Option Status} (h : decodeRun mem n cur = some (insns, st))
    (hfits : CountFitsAlong mem n cur) : HeldAlong mem cur insns := by
  induction n generalizing cur insns with
  | zero =>
      cases h
      exact trivial
  | succ n ih =>
      rw [decodeRun] at h
      obtain ⟨hfit, hnext⟩ := hfits
      cases hd : decodeOne mem cur prefixFuel with
      | none => rw [hd] at h; cases h
      | some r =>
          rw [hd] at h
          cases r with
          | error e =>
              cases h
              exact trivial
          | ok i =>
              have hheld := held_of_decodes hd hfit
              simp only at h
              cases hflow : i.flags.controlFlow with
              | true =>
                  rw [hflow, if_pos rfl] at h
                  cases h
                  exact ⟨hheld, trivial⟩
              | false =>
                  rw [hflow, if_neg Bool.false_ne_true] at h
                  obtain ⟨⟨rest, st'⟩, hrest, hcons⟩ := Option.map_eq_some_iff.mp h
                  cases hcons
                  exact ⟨hheld, ih hrest (hnext i hd hflow)⟩

/-- A later part of a range. -/
theorem inRange_tail {pc : GuestAddr} {k n : Nat} (hsmall : k + n < 2 ^ 64) {a : GuestAddr}
    (h : InRange (pc + BitVec.ofNat 64 k) n a) : InRange pc (k + n) a := by
  have hlt : (a - (pc + BitVec.ofNat 64 k)).toNat < n := h
  have ha : a = pc + BitVec.ofNat 64 (k + (a - (pc + BitVec.ofNat 64 k)).toNat) := by
    rw [← add_add_ofNat, add_distance]
  rw [ha]
  exact inRange_add pc (k + n) _ (by omega) (by omega)

theorem HeldAlong.congr {mem mem' : CodeBytes} {cur : GuestAddr} {insns : List Insn}
    (h : HeldAlong mem cur insns) (hsmall : (insns.map Insn.len).sum < 2 ^ 64)
    (hsame : ∀ a v, InRange cur (insns.map Insn.len).sum a → mem a = .ok v → mem' a = .ok v) :
    HeldAlong mem' cur insns := by
  induction insns generalizing cur with
  | nil => exact trivial
  | cons i rest ih =>
      rw [List.map_cons, List.sum_cons] at hsmall hsame
      refine ⟨h.1.congr fun a v hin => hsame a v ?_, ih h.2 (by omega) fun a v hin => hsame a v ?_⟩
      · have hlt : (a - cur).toNat < i.len := hin
        exact Nat.lt_of_lt_of_le hlt (by omega)
      · exact inRange_tail hsmall hin

theorem HeldAlong.length_bound {mem : CodeBytes} {cur : GuestAddr} {insns : List Insn}
    (h : HeldAlong mem cur insns) : (insns.map Insn.len).sum ≤ 255 * insns.length := by
  induction insns generalizing cur with
  | nil => exact le_refl 0
  | cons i rest ih =>
      obtain ⟨_, _, _, _, hle⟩ := h.1.answers
      have hrest := ih h.2
      rw [List.map_cons, List.sum_cons, List.length_cons]
      omega

theorem decodeRun_length {mem : CodeBytes} {n : Nat} {cur : GuestAddr} {insns : List Insn}
    {st : Option Status} (h : decodeRun mem n cur = some (insns, st)) : insns.length ≤ n := by
  induction n generalizing cur insns with
  | zero =>
      cases h
      exact le_refl 0
  | succ n ih =>
      rw [decodeRun] at h
      cases hd : decodeOne mem cur prefixFuel with
      | none => rw [hd] at h; cases h
      | some r =>
          rw [hd] at h
          cases r with
          | error e =>
              cases h
              exact Nat.zero_le _
          | ok i =>
              simp only at h
              split at h
              · cases h
                exact Nat.succ_le_succ (Nat.zero_le n)
              · obtain ⟨⟨rest, st'⟩, hrest, hcons⟩ := Option.map_eq_some_iff.mp h
                cases hcons
                exact Nat.succ_le_succ (ih hrest)

/-! ### Writes -/

/-- A readable byte of the byte memory is what the decoder reads. -/
theorem codeBytes_eq_ok {image : ByteMap} {sp : ShadowPages} (hbacked : ShadowPages.Backed image sp)
    (a : GuestAddr) (v : U8) : sp.codeBytes a = .ok v ↔ sp.byteMap image a = some v := by
  have hread := ShadowPages.read_leaves hbacked a 1 fun _ => 0
  unfold ShadowPages.codeBytes
  cases hr : sp.read a 1 fun _ => 0 with
  | mk r out =>
      rw [hr] at hread
      cases r with
      | ok u =>
          have hbyte := hread.1 0 (by omega)
          rw [BitVec.add_zero] at hbyte
          rw [hbyte]
          simp
      | error e =>
          obtain ⟨_, i, hi, hnone⟩ := hread
          obtain rfl : i = 0 := by omega
          rw [BitVec.add_zero] at hnone
          rw [hnone]
          simp

/-- A range that does not wrap, as the source compares its ends. -/
theorem inRange_iff_toNat {addr a : GuestAddr} {size : Nat} (h : addr.toNat + size ≤ 2 ^ 64) :
    InRange addr size a ↔ addr.toNat ≤ a.toNat ∧ a.toNat < addr.toNat + size := by
  have haddr := addr.isLt
  have ha := a.isLt
  unfold InRange
  rw [BitVec.toNat_sub]
  omega

theorem toNat_rangeEnd {addr : GuestAddr} {size : Nat} (h : addr.toNat + size < 2 ^ 64) :
    (addr + BitVec.ofNat 64 size).toNat = addr.toNat + size := by
  rw [BitVec.toNat_add, BitVec.toNat_ofNat]
  omega

theorem overlap_iff {pc addr : GuestAddr} {byteSize size : Nat}
    (hpc : pc.toNat + byteSize < 2 ^ 64) (haddr : addr.toNat + size < 2 ^ 64)
    (hbytes : 0 < byteSize) (hsize : 0 < size) :
    Overlap pc byteSize addr size ↔ BlockCache.overlaps pc byteSize addr size = true := by
  rw [BlockCache.overlaps, Bool.and_eq_true, BitVec.ult_eq_decide, BitVec.ult_eq_decide,
    decide_eq_true_eq, decide_eq_true_eq, toNat_rangeEnd hpc, toNat_rangeEnd haddr]
  constructor
  · rintro ⟨a, hblock, hwrite⟩
    rw [inRange_iff_toNat hpc.le] at hblock
    rw [inRange_iff_toNat haddr.le] at hwrite
    omega
  · rintro ⟨hlow, hhigh⟩
    -- the later of the two starts is in both
    rcases Nat.le_total pc.toNat addr.toNat with h | h
    · exact ⟨addr, (inRange_iff_toNat hpc.le).mpr (by omega),
        (inRange_iff_toNat haddr.le).mpr (by omega)⟩
    · exact ⟨pc, (inRange_iff_toNat hpc.le).mpr (by omega),
        (inRange_iff_toNat haddr.le).mpr (by omega)⟩

/-- What holds of a cached block in a run: it was decoded from the memory as it is, and all its
bytes are code. -/
structure CachedBlock (sp : ShadowPages) (pc : GuestAddr) (block : DecodedBlock) : Prop where
  held : ∃ insns, block.insns = peepholeBlock insns ∧ HeldAlong sp.codeBytes pc insns ∧
    block.byteSize = (insns.map Insn.len).sum
  pos : 0 < block.byteSize
  small : block.byteSize < 2 ^ 64
  code : ∀ a, InRange pc block.byteSize a → InCode sp a

/-- The run invariant. -/
structure CodeInv (image : ByteMap) (s : CodeVm) : Prop where
  backed : ShadowPages.Backed image s.sp
  ends : CodeEnds s.sp
  blocks : ∀ pc block, s.cache pc = some block → CachedBlock s.sp pc block

/-- A block in the code ranges does not wrap. -/
theorem CachedBlock.fits {sp : ShadowPages} {pc : GuestAddr} {block : DecodedBlock}
    (h : CachedBlock sp pc block) (hends : CodeEnds sp) :
    pc.toNat + block.byteSize < 2 ^ 64 := by
  by_contra hwrap
  -- else the last address would be one of its bytes
  have hpc := pc.isLt
  have hlast : InRange pc block.byteSize (BitVec.allOnes 64) := by
    unfold InRange
    rw [BitVec.toNat_sub, BitVec.toNat_allOnes]
    omega
  obtain ⟨r, hr, hin⟩ := h.code _ hlast
  have hend := hends r hr
  rw [inRange_iff_toNat hend.le, BitVec.toNat_allOnes] at hin
  omega

/-- A write that reaches a byte of a cached block meets the code range that byte lies in. -/
theorem CachedBlock.touches {sp : ShadowPages} {pc addr : GuestAddr} {block : DecodedBlock}
    {size : Nat} (h : CachedBlock sp pc block) (hends : CodeEnds sp)
    (haddr : addr.toNat + size < 2 ^ 64) (hover : Overlap pc block.byteSize addr size) :
    sp.touchesCode addr size = true := by
  obtain ⟨a, hblock, hwrite⟩ := hover
  obtain ⟨r, hr, hin⟩ := h.code a hblock
  have hend := hends r hr
  rw [inRange_iff_toNat hend.le] at hin
  rw [inRange_iff_toNat haddr.le] at hwrite
  have hrange : (r.base + r.size).toNat = r.base.toNat + r.size.toNat := by
    rw [BitVec.toNat_add]
    omega
  rw [ShadowPages.touchesCode, List.any_eq_true]
  refine ⟨r, hr, ?_⟩
  rw [Bool.and_eq_true, BitVec.ult_eq_decide, BitVec.ult_eq_decide, decide_eq_true_eq,
    decide_eq_true_eq, toNat_rangeEnd haddr, hrange]
  omega

/-- What a guest write that returns Ok does to the two. -/
theorem CodeVm.write_ok {s : CodeVm} {addr : GuestAddr} {size : U64} {data : Buf}
    (h : (s.write addr size data).1 = .ok ()) :
    ShadowPages.WrittenPages addr size.toNat data s.sp (s.write addr size data).2.sp ∧
    (s.write addr size data).2.cache =
      if size != 0 && s.sp.touchesCode addr size.toNat then
        s.cache.invalidateRange addr size.toNat
      else s.cache := by
  have hpages := ShadowPages.write_ok addr size.toNat data s.sp (le_of_lt size.isLt)
  unfold CodeVm.write at h ⊢
  cases hw : ShadowPages.write addr size.toNat data s.sp with
  | mk r sp =>
      rw [hw] at h hpages
      cases r with
      | error e => cases h
      | ok u =>
          have hwritten := hpages rfl
          have htouch : sp.touchesCode addr size.toNat = s.sp.touchesCode addr size.toNat := by
            unfold ShadowPages.touchesCode
            rw [hwritten.setup.2.2.1]
          refine ⟨hwritten, ?_⟩
          simp only [htouch]

/-- A guest write that fails changes nothing. -/
theorem CodeVm.write_error {s : CodeVm} {addr : GuestAddr} {size : U64} {data : Buf} {e : Status}
    (h : (s.write addr size data).1 = .error e) : (s.write addr size data).2 = s := by
  have hsame (e' : Status) (h' : (ShadowPages.write addr size.toNat data s.sp).1 = .error e') :
      (ShadowPages.write addr size.toNat data s.sp).2 = s.sp := ShadowPages.write_error h'
  unfold CodeVm.write at h ⊢
  cases hw : ShadowPages.write addr size.toNat data s.sp with
  | mk r sp =>
      rw [hw] at h hsame
      cases r with
      | error e' =>
          have heq : sp = s.sp := hsame e' rfl
          rw [heq]
      | ok u => cases h

/-- A write with the listener wired erases exactly the blocks it reaches. -/
theorem CodeInv.removes {image : ByteMap} {s : CodeVm} (hinv : CodeInv image s) {addr : GuestAddr}
    {size : U64} {data : Buf} (haddr : addr.toNat + size.toNat < 2 ^ 64)
    (h : (s.write addr size data).1 = .ok ()) :
    RemovesOverlapped s (s.write addr size data).2 addr size.toNat := by
  have hcache := (CodeVm.write_ok h).2
  intro pc
  by_cases hzero : size = 0
  · have hempty : ∀ byteSize, ¬ Overlap pc byteSize addr size.toNat := by
      rintro byteSize ⟨a, _, hin⟩
      rw [hzero] at hin
      exact absurd hin (Nat.not_lt_zero _)
    rw [hcache, hzero]
    refine ⟨fun hnone => hnone, fun block hblock => ⟨fun hover => ?_, fun _ => hblock⟩⟩
    rw [← hzero] at hover
    exact absurd hover (hempty _)
  · have hsize : 0 < size.toNat := by
      apply Nat.pos_of_ne_zero
      intro hz
      exact hzero (BitVec.eq_of_toNat_eq hz)
    have hne : (size != 0) = true := bne_iff_ne.mpr hzero
    rw [hne, Bool.true_and] at hcache
    constructor
    · intro hnone
      rw [hcache]
      split
      · rw [BlockCache.invalidateRange, if_neg hsize.ne', hnone]
        rfl
      · exact hnone
    · intro block hblock
      have hcached := hinv.blocks pc block hblock
      have hiff := overlap_iff (hcached.fits hinv.ends) haddr hcached.pos hsize
      rw [hcache]
      constructor
      · intro hover
        rw [if_pos (hcached.touches hinv.ends haddr hover), BlockCache.invalidateRange,
          if_neg hsize.ne', hblock, Option.filter_some, hiff.mp hover]
        rfl
      · intro hout
        have hfalse : BlockCache.overlaps pc block.byteSize addr size.toNat = false := by
          rw [← Bool.not_eq_true, ← hiff]
          exact hout
        split
        · rw [BlockCache.invalidateRange, if_neg hsize.ne', hblock, Option.filter_some, hfalse]
          rfl
        · exact hblock

/-! ### Runs -/

theorem CodeInv.start {image : ByteMap} {sp : ShadowPages} (hbacked : ShadowPages.Backed image sp)
    (hends : CodeEnds sp) : CodeInv image { sp } :=
  ⟨hbacked, hends, fun _ _ h => nomatch h⟩

theorem CodeInv.insert {image : ByteMap} {s : CodeVm} (hinv : CodeInv image s) {pc : GuestAddr}
    {maxInsns : Nat} {block : DecodedBlock}
    (hdecode : decodeBlock s.sp.codeBytes pc maxInsns = some (.ok block))
    (hcode : ∀ a, InRange pc block.byteSize a → InCode s.sp a)
    (hcounted : Counted s (.insert pc maxInsns)) :
    CodeInv image { s with cache := s.cache.insert pc block } := by
  obtain ⟨hpos, hmax, hfits⟩ := hcounted
  obtain ⟨insns, st, hrun, hempty, rfl⟩ := decodeBlockWith_eq_ok.mp hdecode
  have hheld := heldAlong_of_decodeRun hrun hfits
  have hbound := hheld.length_bound
  have hlength := decodeRun_length hrun
  have hnonempty : insns ≠ [] := by
    rintro rfl
    have hst := hempty rfl
    obtain ⟨n, rfl⟩ : ∃ n, maxInsns = n + 1 := ⟨maxInsns - 1, by omega⟩
    rw [hst, decodeRun] at hrun
    cases hd : decodeOne s.sp.codeBytes pc prefixFuel with
    | none => rw [hd] at hrun; cases hrun
    | some r =>
        rw [hd] at hrun
        cases r with
        | error e => cases hrun
        | ok i =>
            simp only at hrun
            cases hflow : i.flags.controlFlow with
            | true => rw [hflow, if_pos rfl] at hrun; cases hrun
            | false =>
                rw [hflow, if_neg Bool.false_ne_true] at hrun
                obtain ⟨r, _, hcons⟩ := Option.map_eq_some_iff.mp hrun
                cases hcons
  have hsum : 0 < (insns.map Insn.len).sum := by
    cases insns with
    | nil => exact absurd rfl hnonempty
    | cons i rest =>
        have hfirst := hheld.1.pos
        rw [List.map_cons, List.sum_cons]
        omega
  refine ⟨hinv.backed, hinv.ends, ?_⟩
  intro pc' block' hblock
  by_cases hpc : pc' = pc
  · subst hpc
    simp only [BlockCache.insert, Function.update_self, Option.some.injEq] at hblock
    subst hblock
    exact ⟨⟨insns, rfl, hheld, rfl⟩, hsum, by simp only; omega, hcode⟩
  · simp only [BlockCache.insert, Function.update_of_ne hpc] at hblock
    exact hinv.blocks pc' block' hblock

theorem CodeInv.write {image : ByteMap} {s : CodeVm} (hinv : CodeInv image s) {addr : GuestAddr}
    {size : U64} (data : Buf) (haddr : addr.toNat + size.toNat < 2 ^ 64) :
    CodeInv image (s.write addr size data).2 := by
  cases hr : (s.write addr size data).1 with
  | error e =>
      rw [CodeVm.write_error hr]
      exact hinv
  | ok u =>
      obtain ⟨hpages, _⟩ := CodeVm.write_ok hr
      have hremoves := hinv.removes haddr hr
      have hwritten := ShadowPages.written_of_pages hinv.backed hpages
      have hbacked' := ShadowPages.backed_of_setup hpages.setup hinv.backed
      have hcode : ∀ a, InCode (s.write addr size data).2.sp a ↔ InCode s.sp a := by
        intro a
        unfold InCode
        rw [hpages.setup.2.2.1]
      have hends : CodeEnds (s.write addr size data).2.sp := by
        unfold CodeEnds
        rw [hpages.setup.2.2.1]
        exact hinv.ends
      refine ⟨hbacked', hends, ?_⟩
      intro pc block hblock
      obtain ⟨hkeep, hgone⟩ := hremoves pc
      cases hold : s.cache pc with
      | none =>
          rw [hkeep hold] at hblock
          cases hblock
      | some block' =>
          obtain ⟨hover, hout⟩ := hgone block' hold
          have hnot : ¬ Overlap pc block'.byteSize addr size.toNat := by
            intro h
            rw [hover h] at hblock
            cases hblock
          have hsame : block' = block := by
            rw [hout hnot] at hblock
            exact Option.some.inj hblock
          subst hsame
          obtain ⟨⟨insns, hinsns, hheld, hbytes⟩, hpos, hsmall, hincode⟩ := hinv.blocks pc block' hold
          refine ⟨⟨insns, hinsns, ?_, hbytes⟩, hpos, hsmall, fun a ha => (hcode a).mpr (hincode a ha)⟩
          rw [hbytes] at hsmall hnot
          apply hheld.congr hsmall
          -- bytes of the block are outside the write, and keep their values
          intro a v hin hv
          rw [codeBytes_eq_ok hinv.backed] at hv
          rw [codeBytes_eq_ok hbacked']
          exact (hwritten a).2 (fun hw => hnot ⟨a, hin, hw⟩) v hv

theorem codeInv_of_reach {image : ByteMap} {sp : ShadowPages}
    (hbacked : ShadowPages.Backed image sp) (hends : CodeEnds sp) {s : CodeVm}
    (h : CodeVm.Reach (fun s op => Allowed s op ∧ Counted s op) sp s) : CodeInv image s := by
  induction h with
  | start => exact CodeInv.start hbacked hends
  | @step s s' op _ hok hstep ih =>
      obtain ⟨hallowed, hcounted⟩ := hok
      cases op with
      | lookup pc =>
          cases hstep
          exact ih
      | insert pc maxInsns =>
          obtain ⟨r, hr, hs'⟩ := Option.map_eq_some_iff.mp hstep
          cases r with
          | error e =>
              cases hs'
              exact ih
          | ok block =>
              cases hs'
              exact ih.insert hr (hallowed block hr) hcounted
      | write addr size data =>
          cases hstep
          exact ih.write data hallowed

/-- Over a backing of whole pages and code ranges that end below `2 ^ 64`, in every run whose
insertions are counted: each cached block is the decoder's reading of the memory as it is now,
and a write that returns Ok removes exactly the blocks it overlaps. -/
theorem cached_blocks_in_step (image : ByteMap) (sp : ShadowPages)
    (hbacked : ShadowPages.Backed image sp) (hends : CodeEnds sp) (s : CodeVm)
    (hreach : CodeVm.Reach (fun s op => Allowed s op ∧ Counted s op) sp s) :
    (∀ pc block, s.cache pc = some block → InStep s.sp.codeBytes pc block) ∧
    ∀ addr size data, addr.toNat + size.toNat < 2 ^ 64 →
      (s.write addr size data).1 = .ok () →
        RemovesOverlapped s (s.write addr size data).2 addr size.toNat := by
  have hinv := codeInv_of_reach hbacked hends hreach
  constructor
  · intro pc block hblock
    obtain ⟨insns, hinsns, hheld, _⟩ := (hinv.blocks pc block hblock).held
    exact ⟨insns, hinsns, hheld.decoded⟩
  · intro addr size data haddr hok
    exact hinv.removes haddr hok

/-! ### A RET behind prefixes -/

/-- A code page at 0x1000: operand-size prefixes, with a RET at offset `n`. -/
def retAt (n : Nat) : ShadowPages where
  pages p := if p = 0x1000 then some fun i => if i = n then 0xC3 else 0x66 else none
  codeRanges := [⟨0x1000, 0x1000⟩]

/-- The block of that RET with its prefixes, from `pc` on. -/
def retBlock (pc : GuestAddr) (len : Nat) : DecodedBlock where
  pc
  byteSize := len
  insns := [{
    rip := pc, kind := .ret, opSize := 8, handler := .opRet, cond := .none, len
    flags := { controlFlow := true, opsizePfx := true } }]

theorem backed_retAt (n : Nat) : ShadowPages.Backed (fun _ => none) (retAt n) := by
  intro backing hbacking
  cases hbacking

theorem codeEnds_retAt (n : Nat) : CodeEnds (retAt n) := by
  intro r hr
  obtain rfl := List.mem_singleton.mp hr
  decide

theorem inCode_retAt (n : Nat) {a : GuestAddr} (h : InRange 0x1000 0x1000 a) :
    InCode (retAt n) a := ⟨_, List.mem_singleton_self _, h⟩

/-- Two prefixes and a RET in the last bytes of the page. -/
def lastRet : CodeVm :=
  { sp := retAt 0xFFF, cache := BlockCache.insert (fun _ => none) 0x1FFD (retBlock 0x1FFD 3) }

theorem decodeBlock_lastRet :
    decodeBlock (retAt 0xFFF).codeBytes 0x1FFD 1024 = some (.ok (retBlock 0x1FFD 3)) := by
  decide +kernel

theorem reach_lastRet :
    CodeVm.Reach (fun s op => Allowed s op ∧ Counted s op) (retAt 0xFFF) lastRet := by
  refine @CodeVm.Reach.step _ _ _ _ (.insert 0x1FFD 1024) .start ⟨?_, by decide, by decide, ?_, ?_⟩ ?_
  · intro block hblock a ha
    have hsame := decodeBlock_lastRet.symm.trans hblock
    cases hsame
    apply inCode_retAt
    have hlt : (a - 0x1FFD).toNat < 3 := ha
    unfold InRange
    bv_omega
  · intro p bs hrun hbytes
    have hp : PrefixRun (memFetch (retAt 0xFFF).codeBytes 0x1FFD) 2 := by
      refine ⟨by decide, ?_, ?_⟩
      · intro i hi
        obtain rfl | rfl : i = 0 ∨ i = 1 := by omega
        · exact ⟨0x66, by decide +kernel, by decide⟩
        · exact ⟨0x66, by decide +kernel, by decide⟩
      · rintro ⟨b, hb, hlegacy⟩
        have hread : memFetch (retAt 0xFFF).codeBytes 0x1FFD (BitVec.ofNat 8 2) = .ok 0xC3 := by
          decide +kernel
        obtain rfl : (0xC3 : U8) = b := Except.ok.inj (hread.symm.trans hb)
        exact absurd hlegacy (by decide)
    obtain rfl := hrun.unique hp
    obtain ⟨b, i, _, _, hholds⟩ := hbytes
    by_contra hlong
    -- the page ends with the RET
    have hbyte := (Parse.holds_iff.mp hholds) 1 (by omega)
    have hread : memFetch (retAt 0xFFF).codeBytes 0x1FFD
        (BitVec.ofNat 8 2 + BitVec.ofNat 8 1) = .error .unmappedRead := by decide +kernel
    cases hread.symm.trans hbyte
  · intro i hi hflow
    have hdecode : decodeOne (retAt 0xFFF).codeBytes 0x1FFD prefixFuel =
        some (.ok ((retBlock 0x1FFD 3).insns.head (by decide))) := by decide +kernel
    cases hdecode.symm.trans hi
    cases hflow
  · exact CodeVm.step_insert decodeBlock_lastRet

theorem cached_blocks_in_step_lastRet :
    InStep lastRet.sp.codeBytes 0x1FFD (retBlock 0x1FFD 3) ∧
    RemovesOverlapped lastRet (lastRet.write 0x1FFE 1 fun _ => 0x90).2 0x1FFE 1 := by
  have h := cached_blocks_in_step (fun _ => none) (retAt 0xFFF) (backed_retAt _) (codeEnds_retAt _)
    lastRet reach_lastRet
  exact ⟨h.1 _ _ (by decide +kernel), h.2 0x1FFE 1 (fun _ => 0x90) (by decide) (by decide +kernel)⟩

/-- 255 prefixes and a RET: the count of its 256 bytes wraps to 0, so its block covers no byte,
and a NOP written over a prefix leaves it in the cache. -/
theorem counted_to_zero_stays : ¬ ∀ (image : ByteMap) (sp : ShadowPages),
    ShadowPages.Backed image sp → CodeEnds sp → ∀ s, CodeVm.Reach Allowed sp s →
      (∀ pc block, s.cache pc = some block → InStep s.sp.codeBytes pc block) ∧
      ∀ addr size data, addr.toNat + size.toNat < 2 ^ 64 →
        (s.write addr size data).1 = .ok () →
          RemovesOverlapped s (s.write addr size data).2 addr size.toNat := by
  intro h
  have hdecode : decodeBlock (retAt 255).codeBytes 0x1000 1024 =
      some (.ok (retBlock 0x1000 0)) := by decide +kernel
  have hreach : CodeVm.Reach Allowed (retAt 255)
      ({ sp := retAt 255,
         cache := BlockCache.insert (fun _ => none) 0x1000 (retBlock 0x1000 0) } : CodeVm) := by
    refine @CodeVm.Reach.step _ _ _ _ (.insert 0x1000 1024) .start ?_ ?_
    · intro block hblock a ha
      cases hdecode.symm.trans hblock
      exact absurd ha (Nat.not_lt_zero _)
    · exact CodeVm.step_insert hdecode
  have hbelow : (0x1064 : GuestAddr).toNat + (1 : U64).toNat < 2 ^ 64 := by decide
  have hwritten := @CodeVm.Reach.step _ _ _ _ (.write 0x1064 1 fun _ => 0x90) hreach hbelow rfl
  obtain ⟨insns, hinsns, halong⟩ := (h _ _ (backed_retAt 255) (codeEnds_retAt 255) _ hwritten).1
    0x1000 (retBlock 0x1000 0) (by decide +kernel)
  -- the memory now decodes to a NOP there
  cases insns with
  | nil => cases hinsns
  | cons i rest =>
      have hnop : (decodeOne (CodeVm.write { sp := retAt 255 } 0x1064 1 fun _ => 0x90).2.sp.codeBytes
          0x1000 prefixFuel).map (fun r => r.toOption.map fun i => i.fold.kind) =
          some (some .nop) := by decide +kernel
      have hfirst : decodeOne (CodeVm.write { sp := retAt 255 } 0x1064 1
          fun _ => 0x90).2.sp.codeBytes 0x1000 prefixFuel = some (.ok i) := halong.1
      rw [hfirst] at hnop
      have hkind : i.fold.kind = .nop := Option.some.inj (Option.some.inj hnop)
      have hhead := congrArg (fun l => l.head?.map Insn.kind) hinsns
      have hret : some OpKind.ret = some i.fold.kind := hhead
      rw [hkind] at hret
      cases hret

end PicoCpu
