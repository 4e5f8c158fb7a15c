import PicoCpu.Decoder.Decode

/-!
Termination and reach of `decode_one`. The prefix loop is the only unbounded one: it ends
unless each of the 256 offsets its 8-bit counter can name holds a legacy prefix byte. What
follows the prefixes always ends; nothing caps the bytes it takes at fifteen.
-/

namespace PicoCpu

open Decode

/-- The legacy prefix bytes. -/
def IsLegacyPrefix (b : U8) : Prop :=
  b ∈ ([0x66, 0x67, 0xF0, 0xF2, 0xF3, 0x26, 0x2E, 0x36, 0x3E, 0x64, 0x65] : List U8)

instance (b : U8) : Decidable (IsLegacyPrefix b) := inferInstanceAs (Decidable (_ ∈ _))

/-- Which bytes the scan takes as prefixes does not depend on what it has recorded. -/
theorem legacyPrefix_isSome (b : U8) (px : Prefixes) :
    (legacyPrefix b px).isSome = true ↔ IsLegacyPrefix b := by
  have hbase : ∀ b : U8, (legacyPrefix b {}).isSome = true ↔ IsLegacyPrefix b := by decide
  have hshape : (legacyPrefix b px).isSome = (legacyPrefix b {}).isSome := by
    unfold legacyPrefix
    split <;> rfl
  rw [hshape, hbase]

/-- Offset `i` holds a legacy prefix byte. -/
def PrefixAt (fetch : Fetch) (i : U8) : Prop := ∃ b, fetch i = .ok b ∧ IsLegacyPrefix b

/-- Every offset the 8-bit counter can name holds a legacy prefix byte. -/
def PrefixFlood (fetch : Fetch) : Prop := ∀ i, PrefixAt fetch i

/-- Exactly `p` legacy prefix bytes come first. -/
def PrefixRun (fetch : Fetch) (p : Nat) : Prop :=
  p < 256 ∧ (∀ i < p, PrefixAt fetch (BitVec.ofNat 8 i)) ∧ ¬ PrefixAt fetch (BitVec.ofNat 8 p)

/-- The opcode comes first. -/
theorem prefixRun_zero {fetch : Fetch} {b : U8} (hb : fetch 0 = .ok b) (hnot : ¬ IsLegacyPrefix b) :
    PrefixRun fetch 0 := by
  refine ⟨by decide, fun i hi => absurd hi (Nat.not_lt_zero i), ?_⟩
  rintro ⟨b', hb', hlegacy⟩
  obtain rfl : b = b' := Except.ok.inj (hb.symm.trans hb')
  exact hnot hlegacy

/-- Either the prefixes never end, or there is a first offset without one. -/
theorem flood_or_run (fetch : Fetch) : PrefixFlood fetch ∨ ∃ p, PrefixRun fetch p := by
  by_cases hflood : PrefixFlood fetch
  · exact Or.inl hflood
  · right
    have hex : ∃ p, ¬ PrefixAt fetch (BitVec.ofNat 8 p) := by
      obtain ⟨i, hi⟩ := not_forall.mp hflood
      refine ⟨i.toNat, ?_⟩
      rwa [BitVec.ofNat_toNat, BitVec.setWidth_eq]
    classical
    obtain ⟨i, hi⟩ := not_forall.mp hflood
    have hspec := Nat.find_spec hex
    have hmin : ∀ j < Nat.find hex, PrefixAt fetch (BitVec.ofNat 8 j) :=
      fun j hj => not_not.mp (Nat.find_min hex hj)
    refine ⟨Nat.find hex, ?_, hmin, hspec⟩
    have hle : Nat.find hex ≤ i.toNat := by
      apply Nat.find_min'
      rwa [BitVec.ofNat_toNat, BitVec.setWidth_eq]
    exact lt_of_le_of_lt hle i.isLt

theorem zero_add_ofNat (n : Nat) : (0 : U8) + BitVec.ofNat 8 n = BitVec.ofNat 8 n :=
  BitVec.zero_add _

/-- What the first `n` prefix bytes from `c` on record. -/
def recordPrefixes (fetch : Fetch) : Nat → U8 → Prefixes → Prefixes
  | 0, _, px => px
  | n + 1, c, px =>
    match fetch c with
    | .error _ => px
    | .ok b => recordPrefixes fetch n (c + 1) ((legacyPrefix b px).getD px)

/-- The scan goes through a run of prefixes, one iteration each. -/
theorem scanPrefixes_run (fetch : Fetch) (n fuel : Nat) (c : U8) (px : Prefixes)
    (h : ∀ i < n, PrefixAt fetch (c + BitVec.ofNat 8 i)) :
    scanPrefixes fetch (n + fuel) c px =
      scanPrefixes fetch fuel (c + BitVec.ofNat 8 n) (recordPrefixes fetch n c px) := by
  induction n generalizing c px with
  | zero =>
      rw [Nat.zero_add, recordPrefixes]
      simp
  | succ n ih =>
      obtain ⟨b, hb, hlegacy⟩ := h 0 (by omega)
      rw [BitVec.add_zero] at hb
      obtain ⟨px', hpx⟩ := Option.isSome_iff_exists.mp ((legacyPrefix_isSome b px).mpr hlegacy)
      have hrest : ∀ i < n, PrefixAt fetch (c + 1 + BitVec.ofNat 8 i) := by
        intro i hi
        rw [Parse.add_one_add]
        exact h (i + 1) (by omega)
      rw [Nat.add_right_comm, scanPrefixes, hb]
      simp only [hpx]
      rw [ih (c + 1) px' hrest, Parse.add_one_add, recordPrefixes, hb]
      simp only [hpx, Option.getD_some]

/-- In a flood of prefixes the scan uses up any number of iterations. -/
theorem scanPrefixes_flood {fetch : Fetch} (h : PrefixFlood fetch) (fuel : Nat) (c : U8)
    (px : Prefixes) : scanPrefixes fetch fuel c px = none := by
  have hrun := scanPrefixes_run fetch fuel 0 c px fun i _ => h _
  rw [Nat.add_zero] at hrun
  rw [hrun, scanPrefixes]

/-- What follows the legacy prefixes, as one parser: a VEX, EVEX or REX prefix, and the
opcode with everything it takes. `b` is the byte the scan peeked. -/
def opcodeParser (rip : GuestAddr) (b : U8) (px : Prefixes) : Decode Insn :=
  let opcode (px : Prefixes) := decodeAfterPrefixes px (px.insn rip)
  if b = 0xC5 then readByte >>= fun _ => scanVex2 px >>= opcode
  else if b = 0x62 then readByte >>= fun _ => scanEvex px >>= opcode
  else if b = 0xC4 then readByte >>= fun _ => scanVex3 px >>= opcode
  else if 0x40 ≤ b.toNat && b.toNat ≤ 0x4F then
    readByte >>= fun _ => opcode { px with rex := b, hasRex := true }
  else opcode px

/-- What follows `p` prefix bytes. -/
def decodeRest (fetch : Fetch) (rip : GuestAddr) (p : Nat) : Except Status (Insn × U8) :=
  match fetch (BitVec.ofNat 8 p) with
  | .error s => .error s
  | .ok b => (opcodeParser rip b (recordPrefixes fetch p 0 {})).run fetch (BitVec.ofNat 8 p)

theorem run_opcodeParser {fetch : Fetch} {b c : U8} (hb : fetch c = .ok b) (rip : GuestAddr)
    (px : Prefixes) :
    (opcodeParser rip b px).run fetch c =
      match scanOpcodePrefix fetch b c px with
      | .error s => .error s
      | .ok (px', c') => (decodeAfterPrefixes px' (px'.insn rip)).run fetch c' := by
  have hread (f : U8 → Decode Insn) : (readByte >>= f).run fetch c = (f b).run fetch (c + 1) := by
    rw [readByte, Parse.symbol_bind, Parse.run, hb]
  unfold opcodeParser scanOpcodePrefix
  split_ifs
  · rw [hread, Parse.run_bind]
    cases (scanVex2 px).run fetch (c + 1) <;> rfl
  · rw [hread, Parse.run_bind]
    cases (scanEvex px).run fetch (c + 1) <;> rfl
  · rw [hread, Parse.run_bind]
    cases (scanVex3 px).run fetch (c + 1) <;> rfl
  · rw [hread]
  · rfl

/-- With exactly `p` prefixes, `p + 1` iterations decide the decoder's answer. -/
theorem decodeWithSource_run {fetch : Fetch} {p : Nat} (h : PrefixRun fetch p) (rip : GuestAddr)
    (fuel : Nat) :
    decodeWithSource fetch rip (p + (fuel + 1)) =
      some ((decodeRest fetch rip p).map fun r => { r.1 with len := r.2.toNat }) := by
  obtain ⟨_, hbefore, hend⟩ := h
  have hscan := scanPrefixes_run fetch p (fuel + 1) 0 {} fun i hi => by
    rw [zero_add_ofNat]
    exact hbefore i hi
  rw [zero_add_ofNat] at hscan
  rw [decodeWithSource, hscan, scanPrefixes, decodeRest]
  cases hb : fetch (BitVec.ofNat 8 p) with
  | error s => rfl
  | ok b =>
      have hnone : legacyPrefix b (recordPrefixes fetch p 0 {}) = none := by
        rw [← Option.not_isSome_iff_eq_none, legacyPrefix_isSome]
        exact fun hlegacy => hend ⟨b, hb, hlegacy⟩
      simp only [hnone, run_opcodeParser hb]
      cases scanOpcodePrefix fetch b (BitVec.ofNat 8 p) (recordPrefixes fetch p 0 {}) with
      | error s => rfl
      | ok r =>
          obtain ⟨px, c'⟩ := r
          simp only
          cases (decodeAfterPrefixes px (px.insn rip)).run fetch c' with
          | error s => rfl
          | ok r' => rfl

/-- An answer takes more iterations than there are prefixes. -/
theorem prefix_lt_fuel {fetch : Fetch} {rip : GuestAddr} {fuel p : Nat} {r : Except Status Insn}
    (h : decodeWithSource fetch rip fuel = some r) (hrun : PrefixRun fetch p) : p < fuel := by
  rcases Nat.lt_or_ge p fuel with hlt | hge
  · exact hlt
  · have hscan := scanPrefixes_run fetch fuel 0 0 {} fun i hi => by
      rw [zero_add_ofNat]
      exact hrun.2.1 i (by omega)
    rw [Nat.add_zero, scanPrefixes] at hscan
    rw [decodeWithSource, hscan] at h
    cases h

/-- More iterations never change an answer. -/
theorem decodeWithSource_fuel {fetch : Fetch} {rip : GuestAddr} {fuel : Nat}
    {r : Except Status Insn} (h : decodeWithSource fetch rip fuel = some r) {p : Nat}
    (hrun : PrefixRun fetch p) :
    r = (decodeRest fetch rip p).map fun r => { r.1 with len := r.2.toNat } := by
  obtain ⟨k, rfl⟩ := Nat.exists_eq_add_of_lt (prefix_lt_fuel h hrun)
  rw [Nat.add_assoc, decodeWithSource_run hrun] at h
  exact (Option.some.inj h).symm

/-! ### The bytes a decode reads -/

/-- Offsets the opcode-prefix part of the scan reads past the peeked byte. -/
def opcodePrefixOffsets (fetch : Fetch) (b : U8) (c : U8) (px : Prefixes) : List U8 :=
  if b = 0xC5 then (scanVex2 px).offsets fetch (c + 1)
  else if b = 0x62 then (scanEvex px).offsets fetch (c + 1)
  else if b = 0xC4 then (scanVex3 px).offsets fetch (c + 1)
  else []

/-- Every offset the scan asks for: the peeked byte of each iteration (read again where it is
taken), and the rest of a VEX or EVEX prefix. -/
def scanOffsets (fetch : Fetch) : Nat → U8 → Prefixes → List U8
  | 0, _, _ => []
  | fuel + 1, c, px =>
    c :: match fetch c with
      | .error _ => []
      | .ok b =>
        match legacyPrefix b px with
        | some px' => scanOffsets fetch fuel (c + 1) px'
        | none => opcodePrefixOffsets fetch b c px

/-- Every offset `decode_with_source` asks for. -/
def decodeOffsets (fetch : Fetch) (rip : GuestAddr) (fuel : Nat) : List U8 :=
  scanOffsets fetch fuel 0 {} ++
    match scanPrefixes fetch fuel 0 {} with
    | some (.ok (px, c)) => (decodeAfterPrefixes px (px.insn rip)).offsets fetch c
    | _ => []

/-- Past the prefixes, the offsets are the peeked one and those of `opcodeParser`. -/
theorem mem_opcodeOffsets {fetch : Fetch} {b c : U8} (hb : fetch c = .ok b) (rip : GuestAddr)
    (px : Prefixes) (o : U8) :
    o ∈ c :: (opcodePrefixOffsets fetch b c px ++
        match scanOpcodePrefix fetch b c px with
        | .ok (px', c') => (decodeAfterPrefixes px' (px'.insn rip)).offsets fetch c'
        | .error _ => []) ↔
      o = c ∨ o ∈ (opcodeParser rip b px).offsets fetch c := by
  have hread (f : U8 → Decode Insn) :
      (readByte >>= f).offsets fetch c = c :: (f b).offsets fetch (c + 1) := by
    rw [readByte, Parse.symbol_bind, Parse.offsets, hb]
  unfold opcodeParser scanOpcodePrefix opcodePrefixOffsets
  split_ifs
  · rw [hread, Parse.offsets_bind]
    cases (scanVex2 px).run fetch (c + 1) <;> simp
  · rw [hread, Parse.offsets_bind]
    cases (scanEvex px).run fetch (c + 1) <;> simp
  · rw [hread, Parse.offsets_bind]
    cases (scanVex3 px).run fetch (c + 1) <;> simp
  · rw [hread]
    simp
  · simp

/-- The scan's offsets through a run of prefixes. -/
theorem scanOffsets_run (fetch : Fetch) (n fuel : Nat) (c : U8) (px : Prefixes)
    (h : ∀ i < n, PrefixAt fetch (c + BitVec.ofNat 8 i)) :
    scanOffsets fetch (n + fuel) c px =
      (List.range n).map (fun i => c + BitVec.ofNat 8 i) ++
        scanOffsets fetch fuel (c + BitVec.ofNat 8 n) (recordPrefixes fetch n c px) := by
  induction n generalizing c px with
  | zero =>
      rw [Nat.zero_add, recordPrefixes]
      simp
  | succ n ih =>
      obtain ⟨b, hb, hlegacy⟩ := h 0 (by omega)
      rw [BitVec.add_zero] at hb
      obtain ⟨px', hpx⟩ := Option.isSome_iff_exists.mp ((legacyPrefix_isSome b px).mpr hlegacy)
      have hrest : ∀ i < n, PrefixAt fetch (c + 1 + BitVec.ofNat 8 i) := by
        intro i hi
        rw [Parse.add_one_add]
        exact h (i + 1) (by omega)
      have hrange : (List.range (n + 1)).map (fun i => c + BitVec.ofNat 8 i) =
          c :: (List.range n).map fun i => c + 1 + BitVec.ofNat 8 i := by
        rw [List.range_succ_eq_map, List.map_cons, List.map_map, BitVec.add_zero]
        congr 1
        apply List.map_congr_left
        intro i _
        exact (Parse.add_one_add c i).symm
      rw [Nat.add_right_comm, scanOffsets, hb]
      simp only [hpx]
      rw [ih (c + 1) px' hrest, Parse.add_one_add, recordPrefixes, hb, hrange]
      simp only [hpx, Option.getD_some, List.cons_append]

/-- The bytes `bs` stand at offset `p`, after the prefixes, and make an opcode the decoder
accepts, with its REX or VEX prefix, ModRM, SIB, displacement and immediate. -/
def OpcodeBytes (fetch : Fetch) (rip : GuestAddr) (p : Nat) (bs : List U8) : Prop :=
  ∃ b i, fetch (BitVec.ofNat 8 p) = .ok b ∧
    (opcodeParser rip b (recordPrefixes fetch p 0 {})).Yields bs i ∧
    Parse.Holds fetch (BitVec.ofNat 8 p) bs

/-- An opcode takes at least one byte. -/
theorem decodeAfterPrefixes_pos (px : Prefixes) (h : px.isVex = false) (out : Insn) :
    Parse.Post (decodeAfterPrefixes px out) fun _ bs => 0 < bs.length := by
  rw [decodeAfterPrefixes, h]
  refine Parse.post_next fun b => ?_
  intro bs a _
  exact Nat.succ_pos _

/-- What no legacy prefix changes is as it was after them. -/
theorem recordPrefixes_keeps {α : Type} {f : Prefixes → α}
    (hf : ∀ b px, f ((legacyPrefix b px).getD px) = f px) (fetch : Fetch) (n : Nat) (c : U8)
    (px : Prefixes) : f (recordPrefixes fetch n c px) = f px := by
  induction n generalizing c px with
  | zero => rfl
  | succ n ih =>
      rw [recordPrefixes]
      cases fetch c with
      | error e => rfl
      | ok b => exact (ih (c + 1) _).trans (hf b px)

theorem recordPrefixes_isVex (fetch : Fetch) (n : Nat) (c : U8) (px : Prefixes)
    (h : px.isVex = false) : (recordPrefixes fetch n c px).isVex = false := by
  refine (recordPrefixes_keeps (f := Prefixes.isVex) (fun b px => ?_) fetch n c px).trans h
  unfold legacyPrefix
  split <;> rfl

theorem recordPrefixes_isEvex (fetch : Fetch) (n : Nat) (c : U8) (px : Prefixes)
    (h : px.isEvex = false) : (recordPrefixes fetch n c px).isEvex = false := by
  refine (recordPrefixes_keeps (f := Prefixes.isEvex) (fun b px => ?_) fetch n c px).trans h
  unfold legacyPrefix
  split <;> rfl

theorem opcodeParser_pos (rip : GuestAddr) (b : U8) (px : Prefixes) (h : px.isVex = false) :
    Parse.Post (opcodeParser rip b px) fun _ bs => 0 < bs.length := by
  unfold opcodeParser
  split_ifs
  · exact Parse.post_next fun b bs a _ => Nat.succ_pos _
  · exact Parse.post_next fun b bs a _ => Nat.succ_pos _
  · exact Parse.post_next fun b bs a _ => Nat.succ_pos _
  · exact Parse.post_next fun b bs a _ => Nat.succ_pos _
  · exact decodeAfterPrefixes_pos px h _

/-- Where an opcode stands after the prefixes, the decoder returns it, and the offsets it
reads are exactly those of the prefixes and of the opcode's bytes. -/
theorem decode_of_opcodeBytes {fetch : Fetch} {rip : GuestAddr} {p : Nat} {bs : List U8}
    (hrun : PrefixRun fetch p) (hbytes : OpcodeBytes fetch rip p bs) (fuel : Nat) :
    (∃ insn, decodeWithSource fetch rip (p + (fuel + 1)) = some (.ok insn) ∧
      insn.len = (BitVec.ofNat 8 (p + bs.length)).toNat) ∧ 0 < bs.length ∧
    ∀ o, o ∈ decodeOffsets fetch rip (p + (fuel + 1)) ↔
      ∃ i < p + bs.length, o = BitVec.ofNat 8 i := by
  obtain ⟨b, i, hb, hyields, hholds⟩ := hbytes
  have hpos : 0 < bs.length :=
    opcodeParser_pos rip b _ (recordPrefixes_isVex fetch p 0 {} rfl) bs i hyields
  have hres := Parse.run_eq_ok.mpr ⟨bs, hyields, hholds, rfl⟩
  have hdecode := decodeWithSource_run hrun rip fuel
  rw [decodeRest, hb] at hdecode
  simp only at hdecode
  rw [hres] at hdecode
  refine ⟨⟨_, hdecode, ?_⟩, hpos, ?_⟩
  · change (BitVec.ofNat 8 p + BitVec.ofNat 8 bs.length).toNat = _
    rw [BitVec.ofNat_add]
  · intro o
    obtain ⟨_, hbefore, hend⟩ := hrun
    have hshift : ∀ i < p, PrefixAt fetch (0 + BitVec.ofNat 8 i) := fun i hi => by
      rw [zero_add_ofNat]
      exact hbefore i hi
    have hscan := scanPrefixes_run fetch p (fuel + 1) 0 {} hshift
    have hoffsets := scanOffsets_run fetch p (fuel + 1) 0 {} hshift
    rw [zero_add_ofNat] at hscan hoffsets
    have hnone : legacyPrefix b (recordPrefixes fetch p 0 {}) = none := by
      rw [← Option.not_isSome_iff_eq_none, legacyPrefix_isSome]
      exact fun hlegacy => hend ⟨b, hb, hlegacy⟩
    have hrest := mem_opcodeOffsets hb rip (recordPrefixes fetch p 0 {}) o
    rw [Parse.offsets_eq hyields hholds] at hrest
    have hsplit : o ∈ decodeOffsets fetch rip (p + (fuel + 1)) ↔
        (∃ i < p, o = BitVec.ofNat 8 i) ∨ o = BitVec.ofNat 8 p ∨
          ∃ i < bs.length, o = BitVec.ofNat 8 p + BitVec.ofNat 8 i := by
      rw [decodeOffsets, hscan, hoffsets, scanPrefixes, scanOffsets, hb]
      simp only [hnone]
      generalize scanOpcodePrefix fetch b (BitVec.ofNat 8 p) (recordPrefixes fetch p 0 {}) = r
        at hrest
      have hsplit : o ∈ (List.range p).map (fun i => (0 : U8) + BitVec.ofNat 8 i) ↔
          ∃ i < p, o = BitVec.ofNat 8 i := by
        simp only [List.mem_map, List.mem_range, zero_add_ofNat, eq_comm]
      have hbody : o ∈ (List.range bs.length).map (fun i => BitVec.ofNat 8 p + BitVec.ofNat 8 i) ↔
          ∃ i < bs.length, o = BitVec.ofNat 8 p + BitVec.ofNat 8 i := by
        simp only [List.mem_map, List.mem_range, eq_comm]
      rw [hbody] at hrest
      rw [List.append_assoc, List.mem_append, hsplit, ← hrest]
      cases r <;> rfl
    rw [hsplit]
    constructor
    · rintro (⟨i, hi, rfl⟩ | rfl | ⟨i, hi, rfl⟩)
      · exact ⟨i, by omega, rfl⟩
      · exact ⟨p, by omega, rfl⟩
      · exact ⟨p + i, by omega, (BitVec.ofNat_add ..).symm⟩
    · rintro ⟨i, hi, rfl⟩
      rcases Nat.lt_or_ge i p with hlt | hge
      · exact Or.inl ⟨i, hlt, rfl⟩
      · refine Or.inr (Or.inr ⟨i - p, by omega, ?_⟩)
        rw [← BitVec.ofNat_add, Nat.add_sub_cancel' hge]

/-- What the decoder owes at an address: it ends, and an instruction it returns is 1 to 15
bytes long, ends with the last byte read, and was read from `[rip, rip + 15)`. -/
structure DecodesInBounds (mem : CodeBytes) (rip : GuestAddr) : Prop where
  terminates : ∃ fuel r, decodeOne mem rip fuel = some r
  bounded : ∀ fuel insn, decodeOne mem rip fuel = some (.ok insn) →
    1 ≤ insn.len ∧ insn.len ≤ 15 ∧
      (∃ o ∈ decodeOffsets (memFetch mem rip) rip fuel, o.toNat + 1 = insn.len) ∧
      (∀ o ∈ decodeOffsets (memFetch mem rip) rip fuel, o.toNat + 1 ≤ insn.len) ∧
      ∀ o ∈ decodeOffsets (memFetch mem rip) rip fuel, o.toNat < 15

/-- Fewer than 256 prefixes come first, and with the opcode's bytes they make at most 15. -/
def FitsFifteen (fetch : Fetch) (rip : GuestAddr) : Prop :=
  ∃ p, PrefixRun fetch p ∧ ∀ bs, OpcodeBytes fetch rip p bs → p + bs.length ≤ 15

theorem decodesInBounds_of_fits {mem : CodeBytes} {rip : GuestAddr}
    (h : FitsFifteen (memFetch mem rip) rip) : DecodesInBounds mem rip := by
  obtain ⟨p, hrun, hfits⟩ := h
  refine ⟨⟨p + 1, _, decodeWithSource_run hrun rip 0⟩, ?_⟩
  intro fuel insn hdecode
  obtain ⟨k, rfl⟩ := Nat.exists_eq_add_of_lt (prefix_lt_fuel hdecode hrun)
  rw [Nat.add_assoc] at hdecode ⊢
  have hrest := decodeWithSource_fuel hdecode hrun
  cases hb : memFetch mem rip (BitVec.ofNat 8 p) with
  | error s =>
      rw [decodeRest, hb] at hrest
      cases hrest
  | ok b =>
      rw [decodeRest, hb] at hrest
      simp only at hrest
      cases hres : (opcodeParser rip b (recordPrefixes (memFetch mem rip) p 0 {})).run
          (memFetch mem rip) (BitVec.ofNat 8 p) with
      | error s =>
          rw [hres] at hrest
          cases hrest
      | ok r =>
          obtain ⟨i, c'⟩ := r
          obtain ⟨bs, hyields, hholds, _⟩ := Parse.run_eq_ok.mp hres
          have hbytes : OpcodeBytes (memFetch mem rip) rip p bs := ⟨b, i, hb, hyields, hholds⟩
          have hle := hfits bs hbytes
          obtain ⟨⟨insn', hdecode', hlen⟩, hpos, hoffsets⟩ := decode_of_opcodeBytes hrun hbytes k
          have hsame : insn = insn' := by
            rw [decodeOne, hdecode'] at hdecode
            exact (Except.ok.inj (Option.some.inj hdecode)).symm
          subst hsame
          have hsmall (i : Nat) (hi : i ≤ 15) : (BitVec.ofNat 8 i).toNat = i := by
            rw [BitVec.toNat_ofNat, Nat.mod_eq_of_lt (by omega)]
          rw [hsmall _ hle] at hlen
          refine ⟨by omega, by omega, ⟨BitVec.ofNat 8 (p + bs.length - 1), ?_, ?_⟩, ?_, ?_⟩
          · exact (hoffsets _).mpr ⟨p + bs.length - 1, by omega, rfl⟩
          · rw [hsmall _ (by omega)]
            omega
          · intro o ho
            obtain ⟨i, hi, rfl⟩ := (hoffsets o).mp ho
            rw [hsmall i (by omega)]
            omega
          · intro o ho
            obtain ⟨i, hi, rfl⟩ := (hoffsets o).mp ho
            rw [hsmall i (by omega)]
            omega

/-- `decode_one` keeps its bounds at exactly the addresses where fewer than 256 prefixes are
followed by no opcode at all or by one that ends within fifteen bytes. -/
theorem decodesInBounds_iff (mem : CodeBytes) (rip : GuestAddr) :
    DecodesInBounds mem rip ↔ FitsFifteen (memFetch mem rip) rip := by
  constructor
  · rintro ⟨⟨fuel, r, hterm⟩, hbounded⟩
    rcases flood_or_run (memFetch mem rip) with hflood | ⟨p, hrun⟩
    · rw [decodeOne, decodeWithSource, scanPrefixes_flood hflood] at hterm
      cases hterm
    · refine ⟨p, hrun, fun bs hbytes => ?_⟩
      obtain ⟨⟨insn, hdecode, _⟩, _, hoffsets⟩ := decode_of_opcodeBytes hrun hbytes 0
      obtain ⟨_, _, _, _, hreach⟩ := hbounded (p + 1) insn hdecode
      by_contra hlong
      have hread := hreach (BitVec.ofNat 8 15) ((hoffsets _).mpr ⟨15, by omega, rfl⟩)
      exact absurd hread (by decide)
  · exact decodesInBounds_of_fits

/-- A page of operand-size prefixes never decodes. -/
theorem prefix_page_never_decodes : ¬ ∀ mem rip, DecodesInBounds mem rip := by
  intro h
  obtain ⟨fuel, r, hterm⟩ := (h (fun _ => .ok 0x66) 0).terminates
  have hflood : PrefixFlood (memFetch (fun _ => .ok 0x66) 0) :=
    fun _ => ⟨0x66, rfl, List.mem_cons_self ..⟩
  rw [decodeOne, decodeWithSource, scanPrefixes_flood hflood] at hterm
  cases hterm

end PicoCpu
