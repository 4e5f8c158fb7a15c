import PicoCpu.BoundedRuns
import PicoCpu.CodeCache
import PicoCpu.Decoder.Accepted
import PicoCpu.Faults

/-!
`decode_block` before the pass it ends with: its loop with the 32-bit byte count, and what holds
of the block it returns. The instructions lie one after the other as the decoder reads them,
the loop stops for one of three reasons, and whatever can branch is marked.
-/

namespace PicoCpu

open H Proc

/-! ### The loop -/

/-- The block while it is decoded. -/
structure RawBlock where
  pc : GuestAddr
  byteSize : U32 := 0
  insns : List Insn := []

namespace RawBlock

/-- `out.insns.push_back(insn); out.byte_size += insn.len`. -/
def push (out : RawBlock) (insn : Insn) : RawBlock :=
  { out with
    insns := out.insns ++ [insn]
    byteSize := out.byteSize + BitVec.ofNat 32 insn.len }

/-- A block with its byte count in 32 bits. -/
def of (block : DecodedBlock) : RawBlock :=
  { pc := block.pc, byteSize := BitVec.ofNat 32 block.byteSize, insns := block.insns }

theorem foldl_push (insns : List Insn) (out : RawBlock) :
    insns.foldl push out =
      { out with
        insns := out.insns ++ insns
        byteSize := out.byteSize + BitVec.ofNat 32 (insns.map Insn.len).sum } := by
  induction insns generalizing out with
  | nil => simp
  | cons i rest ih =>
      rw [List.foldl_cons, ih]
      simp [push, BitVec.ofNat_add, BitVec.add_assoc]

end RawBlock

/-- The loop of `decode_block`, with the iterations that are left. -/
def decodeLoop (mem : CodeBytes) : Nat → GuestAddr → RawBlock → Option (Except Status RawBlock)
  | 0, _, out => some (.ok out)
  | left + 1, cur, out =>
    match decodeOne mem cur prefixFuel with
    | none => none
    | some (.error s) => if out.insns.isEmpty then some (.error s) else some (.ok out)
    | some (.ok insn) =>
      if insn.flags.controlFlow then some (.ok (out.push insn))
      else decodeLoop mem left (cur + BitVec.ofNat 64 insn.len) (out.push insn)

def decodeRawBlock (mem : CodeBytes) (pc : GuestAddr) (maxInsns : Nat) :
    Option (Except Status RawBlock) :=
  decodeLoop mem maxInsns pc { pc }

/-- How the loop ends from `out` on, when it decodes `insns` and then meets `st`. -/
def RawBlock.settle (out : RawBlock) (insns : List Insn) (st : Option Status) :
    Except Status RawBlock :=
  match st with
  | some s => if (out.insns ++ insns).isEmpty then .error s else .ok (insns.foldl push out)
  | none => .ok (insns.foldl push out)

theorem RawBlock.settle_cons (out : RawBlock) (i : Insn) (rest : List Insn) (st : Option Status) :
    out.settle (i :: rest) st = (out.push i).settle rest st := by
  cases st with
  | none => rfl
  | some s =>
      rw [settle, settle, push, List.append_assoc, List.singleton_append, List.foldl_cons]
      rfl

theorem decodeLoop_eq (mem : CodeBytes) (n : Nat) (cur : GuestAddr) (out : RawBlock) :
    decodeLoop mem n cur out = (decodeRun mem n cur).map fun r => out.settle r.1 r.2 := by
  induction n generalizing cur out with
  | zero => rfl
  | succ n ih =>
      rw [decodeLoop, decodeRun]
      cases decodeOne mem cur prefixFuel with
      | none => rfl
      | some r =>
          cases r with
          | error s =>
              simp only [Option.map_some, RawBlock.settle, List.append_nil, List.foldl_nil]
              split <;> rfl
          | ok i =>
              simp only
              split
              · rfl
              · rw [ih, Option.map_map]
                congr 1
                funext r
                exact (out.settle_cons i r.1 r.2).symm

/-- The loop makes the block of the model, with its byte count in 32 bits. -/
theorem decodeRawBlock_eq (mem : CodeBytes) (pc : GuestAddr) (n : Nat) :
    decodeRawBlock mem pc n = (decodeBlockWith id mem pc n).map fun r => r.map RawBlock.of := by
  rw [decodeRawBlock, decodeLoop_eq, decodeBlockWith, Option.map_map]
  congr 1
  funext r
  obtain ⟨insns, st⟩ := r
  have hpushed : insns.foldl RawBlock.push { pc } =
      RawBlock.of { pc, byteSize := (insns.map Insn.len).sum, insns } := by
    rw [RawBlock.foldl_push]
    simp [RawBlock.of]
  cases st with
  | none =>
      rw [RawBlock.settle, hpushed]
      cases insns <;> rfl
  | some s =>
      rw [RawBlock.settle, hpushed]
      cases insns <;> rfl

/-! ### Why it stops -/

/-- Where the instructions collected from `cur` on end: the limit is reached, the last one is
marked as control flow, or the decoder fails right after it. -/
def Stops (mem : CodeBytes) (n : Nat) (cur : GuestAddr) (insns : List Insn) : Prop :=
  insns.length = n ∨ (∃ i, insns.getLast? = some i ∧ i.flags.controlFlow = true) ∨
    ∃ s, decodeOne mem (cur + BitVec.ofNat 64 (insns.map Insn.len).sum) prefixFuel =
      some (.error s)

theorem Stops.cons {mem : CodeBytes} {n : Nat} {cur : GuestAddr} {i : Insn} {rest : List Insn}
    (h : Stops mem n (cur + BitVec.ofNat 64 i.len) rest) : Stops mem (n + 1) cur (i :: rest) := by
  rcases h with hlimit | ⟨j, hlast, hflag⟩ | ⟨s, hfail⟩
  · exact .inl (congrArg (· + 1) hlimit)
  · refine .inr (.inl ⟨j, ?_, hflag⟩)
    rw [List.getLast?_cons, hlast]
    rfl
  · refine .inr (.inr ⟨s, ?_⟩)
    rw [List.map_cons, List.sum_cons, BitVec.ofNat_add, ← BitVec.add_assoc]
    exact hfail

/-- What the loop collects. -/
structure Collected (mem : CodeBytes) (n : Nat) (cur : GuestAddr) (insns : List Insn) : Prop where
  count : insns.length ≤ n
  along : DecodedAlong mem cur insns
  inner : ∀ i ∈ insns.dropLast, i.flags.controlFlow = false
  stops : Stops mem n cur insns

theorem collected_decodeRun {mem : CodeBytes} {n : Nat} {cur : GuestAddr} {insns : List Insn}
    {st : Option Status} (h : decodeRun mem n cur = some (insns, st)) :
    Collected mem n cur insns := by
  induction n generalizing cur insns with
  | zero =>
      cases h
      exact ⟨Nat.le_refl 0, trivial, fun i hi => absurd hi List.not_mem_nil, .inl rfl⟩
  | succ n ih =>
      rw [decodeRun] at h
      cases hd : decodeOne mem cur prefixFuel with
      | none => rw [hd] at h; cases h
      | some r =>
          rw [hd] at h
          cases r with
          | error s =>
              cases h
              refine ⟨Nat.zero_le _, trivial, fun i hi => absurd hi List.not_mem_nil, ?_⟩
              exact .inr (.inr ⟨s, by simpa using hd⟩)
          | ok i =>
              simp only at h
              split at h
              · rename_i hflag
                cases h
                exact ⟨Nat.succ_le_succ (Nat.zero_le n), ⟨hd, trivial⟩,
                  fun j hj => absurd hj List.not_mem_nil, .inr (.inl ⟨i, rfl, hflag⟩)⟩
              · rename_i hplain
                obtain ⟨⟨rest, st'⟩, hrest, hcons⟩ := Option.map_eq_some_iff.mp h
                cases hcons
                have hcollected := ih hrest
                refine ⟨Nat.succ_le_succ hcollected.count, ⟨hd, hcollected.along⟩, ?_,
                  hcollected.stops.cons⟩
                intro j hj
                cases rest with
                | nil => exact absurd hj List.not_mem_nil
                | cons k rest =>
                    rcases List.mem_cons.mp hj with rfl | hinner
                    · simpa using hplain
                    · exact hcollected.inner j hinner

/-! ### What can branch -/

/-- Neither the instruction pointer nor the branch mark has changed. -/
def SamePath (c c' : Cpu) : Prop := c'.rip = c.rip ∧ c'.branchTaken = c.branchTaken

/-- Some run of the instruction, whatever it is answered and with memory hooks that take no
branch themselves, moves the instruction pointer or marks a branch as taken. -/
def Insn.MayBranch (i : Insn) : Prop :=
  ∃ (fp : HostFp) (c : Cpu),
    ¬ (i.run fp).Post (hooksFollow SamePath) c fun _ _ c' => SamePath c c'

theorem isBranch_of_branches {h : Handler} (hb : h.branches) : h.isBranch = true := by
  unfold Handler.branches at hb
  split at hb
  · rfl
  · rfl
  · rfl
  · rfl
  · rfl
  · rfl
  · exact hb.elim

theorem follows_samePath {branches : Prop} (hnone : ¬ branches) : Follows branches SamePath where
  refl _ := ⟨rfl, rfl⟩
  trans hcd hde := ⟨hde.1.trans hcd.1, hde.2.trans hcd.2⟩
  quiet hcontrol := ⟨congrArg Control.rip hcontrol, congrArg Control.branchTaken hcontrol⟩
  fault _ _ _ _ _ _ := ⟨rfl, rfl⟩
  branch h := absurd h hnone

/-- Only the branch handlers do. -/
theorem isBranch_of_mayBranch {i : Insn} (h : i.MayBranch) : i.handler.isBranch = true := by
  by_contra hplain
  obtain ⟨fp, c, hmoves⟩ := h
  have hnone : ¬ (i.handler.grade i).branches := fun hb => hplain (isBranch_of_branches hb)
  have hsound := (Within.callHandler fp i.handler i).sound (follows_samePath hnone) c
  exact hmoves (hsound.mono fun _ _ _ hpost => hpost.1)

/-! ### The block -/

/-- The length of an instruction is an 8-bit count. -/
theorem decodeOne_len {mem : CodeBytes} {rip : GuestAddr} {fuel : Nat} {i : Insn}
    (h : decodeOne mem rip fuel = some (.ok i)) : i.len ≤ 255 := by
  rw [decodeOne, decodeWithSource] at h
  split at h
  · cases h
  · cases h
  · split at h
    · cases h
    · rename_i c' _
      cases h
      exact Nat.le_of_lt_succ c'.isLt

theorem DecodedAlong.length_bound {mem : CodeBytes} {cur : GuestAddr} {insns : List Insn}
    (h : DecodedAlong mem cur insns) : (insns.map Insn.len).sum ≤ 255 * insns.length := by
  induction insns generalizing cur with
  | nil => exact Nat.le_refl 0
  | cons i rest ih =>
      have hlen := decodeOne_len h.1
      have hrest := ih h.2
      rw [List.map_cons, List.sum_cons, List.length_cons]
      omega

/-- What holds of the block `decode_block` makes for `pc` and the limit `n`. The byte count is
the sum of the lengths in 32 bits: that sum itself while the limit is at most 2^24. -/
structure WellDecoded (mem : CodeBytes) (pc : GuestAddr) (n : Nat) (block : RawBlock) : Prop where
  start : block.pc = pc
  nonempty : 1 ≤ block.insns.length
  count : block.insns.length ≤ n
  along : DecodedAlong mem pc block.insns
  size : block.byteSize.toNat = (block.insns.map Insn.len).sum % 2 ^ 32
  sizeExact : n ≤ 2 ^ 24 → block.byteSize.toNat = (block.insns.map Insn.len).sum
  inner : ∀ i ∈ block.insns.dropLast, i.flags.controlFlow = false
  stops : Stops mem n pc block.insns
  marked : ∀ i ∈ block.insns, i.MayBranch → i.flags.controlFlow = true

theorem decodeRawBlock_wellDecoded (mem : CodeBytes) (pc : GuestAddr) (n : Nat) (hn : 1 ≤ n)
    (block : RawBlock) (h : decodeRawBlock mem pc n = some (.ok block)) :
    WellDecoded mem pc n block := by
  rw [decodeRawBlock_eq, Option.map_eq_some_iff] at h
  obtain ⟨r, hdecode, hraw⟩ := h
  cases r with
  | error s => cases hraw
  | ok plain =>
      cases hraw
      obtain ⟨insns, st, hrun, hempty, rfl⟩ := decodeBlockWith_eq_ok.mp hdecode
      have hcollected := collected_decodeRun hrun
      have hsize : (BitVec.ofNat 32 (insns.map Insn.len).sum).toNat =
          (insns.map Insn.len).sum % 2 ^ 32 := BitVec.toNat_ofNat ..
      refine ⟨rfl, ?_, hcollected.count, hcollected.along, hsize, ?_, hcollected.inner,
        hcollected.stops, ?_⟩
      · obtain ⟨m, rfl⟩ := Nat.exists_eq_add_of_le' hn
        refine List.length_pos_iff.mpr ?_
        rintro rfl
        rw [hempty rfl] at hrun
        exact decodeRun_ne_nil hrun rfl
      · intro hlimit
        have hbound := hcollected.along.length_bound
        have hcount := hcollected.count
        refine hsize.trans (Nat.mod_eq_of_lt ?_)
        omega
      · intro i hi hmay
        obtain ⟨rip, hd⟩ := mem_decodeRun hrun i hi
        exact (decodeOne_accepted hd).flagged (isBranch_of_mayBranch hmay)

/-- Memory that holds one byte everywhere, which decodes as `ADD AL, 4`. -/
def sameByte : CodeBytes := fun _ => .ok 0x04

theorem decodeOne_sameByte (a : GuestAddr) :
    ∃ i, decodeOne sameByte a prefixFuel = some (.ok i) ∧ i.len = 2 ∧
      i.flags.controlFlow = false :=
  ⟨_, rfl, rfl, rfl⟩

theorem decodeLoop_sameByte (n : Nat) (cur : GuestAddr) (out : RawBlock) :
    ∃ block, decodeLoop sameByte n cur out = some (.ok block) ∧
      block.byteSize = out.byteSize + BitVec.ofNat 32 (2 * n) ∧
      (block.insns.map Insn.len).sum = (out.insns.map Insn.len).sum + 2 * n := by
  induction n generalizing cur out with
  | zero => exact ⟨out, rfl, by simp, rfl⟩
  | succ n ih =>
      obtain ⟨i, hd, hlen, hplain⟩ := decodeOne_sameByte cur
      obtain ⟨block, hblock, hsize, hsum⟩ := ih (cur + BitVec.ofNat 64 i.len) (out.push i)
      refine ⟨block, ?_, ?_, ?_⟩
      · rw [decodeLoop, hd]
        simp only [hplain]
        exact hblock
      · rw [hsize, RawBlock.push, hlen, BitVec.add_assoc, ← BitVec.ofNat_add, Nat.add_comm 2]
        rfl
      · rw [hsum, RawBlock.push, List.map_append, List.sum_append, List.map_cons, List.map_nil,
          List.sum_singleton, hlen]
        omega

theorem decodeRawBlock_wellDecoded_sameByte :
    ∃ block, decodeRawBlock sameByte 0x1000 2 = some (.ok block) ∧
      WellDecoded sameByte 0x1000 2 block := by
  obtain ⟨block, hblock, _⟩ := decodeLoop_sameByte 2 0x1000 { pc := 0x1000 }
  exact ⟨block, hblock, decodeRawBlock_wellDecoded sameByte 0x1000 2 (by decide) block hblock⟩

/-- A block of 2^31 instructions of two bytes each: its byte count is zero. -/
theorem byteSize_wraps :
    ∃ block, decodeRawBlock sameByte 0 (2 ^ 31) = some (.ok block) ∧
      block.byteSize.toNat ≠ (block.insns.map Insn.len).sum := by
  obtain ⟨block, hblock, hsize, hsum⟩ := decodeLoop_sameByte (2 ^ 31) 0 { pc := 0 }
  refine ⟨block, hblock, ?_⟩
  rw [hsize, hsum]
  decide

end PicoCpu
