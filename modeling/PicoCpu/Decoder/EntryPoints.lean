import PicoCpu.Decoder.Bound

/-!
The two entry points of the decoder on one byte string: `decode_bytes` over a buffer, cut at
fifteen bytes, and `decode_one` over a memory that holds the string and nothing else.
-/

namespace PicoCpu

open Decode

/-- The buffer of a byte string. -/
def bufOf (b : List U8) : Buf := fun i => b.getD i 0

/-- A memory that holds `b` at `rip`; every other read fails with `s`. -/
def holdingAt (rip : GuestAddr) (b : List U8) (s : Status) : CodeBytes := fun a =>
  if (a - rip).toNat < b.length then .ok (bufOf b (a - rip).toNat) else .error s

theorem memFetch_holdingAt (rip : GuestAddr) (b : List U8) (s : Status) (off : U8) :
    memFetch (holdingAt rip b s) rip off =
      if off.toNat < b.length then .ok (bufOf b off.toNat) else .error s := by
  have hdist : (rip + off.setWidth 64 - rip).toNat = off.toNat := by
    have hoff := off.isLt
    rw [BitVec.add_comm, BitVec.add_sub_cancel, BitVec.toNat_setWidth]
    exact Nat.mod_eq_of_lt (by omega)
  rw [memFetch, holdingAt, hdist]

/-! ### Answers as byte strings -/

/-- `insn` is the answer at `rip`: `p` prefixes, then the opcode bytes `bs`. -/
structure Answers (fetch : Fetch) (rip : GuestAddr) (p : Nat) (bs : List U8) (insn : Insn) :
    Prop where
  prefixes : PrefixRun fetch p
  opcode : ∃ b i, fetch (BitVec.ofNat 8 p) = .ok b ∧
    (opcodeParser rip b (recordPrefixes fetch p 0 {})).Yields bs i ∧
    Parse.Holds fetch (BitVec.ofNat 8 p) bs ∧
    insn = { i with len := (BitVec.ofNat 8 p + BitVec.ofNat 8 bs.length).toNat }

section Answers

variable {fetch fetch' : Fetch} {rip : GuestAddr}

theorem Answers.opcodeBytes {p : Nat} {bs : List U8} {insn : Insn}
    (h : Answers fetch rip p bs insn) : OpcodeBytes fetch rip p bs := by
  obtain ⟨b, i, hb, hyields, hholds, _⟩ := h.opcode
  exact ⟨b, i, hb, hyields, hholds⟩

theorem Answers.decodes {p : Nat} {bs : List U8} {insn : Insn} (h : Answers fetch rip p bs insn) :
    decodeWithSource fetch rip (p + 1) = some (.ok insn) := by
  obtain ⟨b, i, hb, hyields, hholds, rfl⟩ := h.opcode
  have hres := Parse.run_eq_ok.mpr ⟨bs, hyields, hholds, rfl⟩
  have hdecode := decodeWithSource_run h.prefixes rip 0
  rw [decodeRest, hb] at hdecode
  simp only at hdecode
  rw [hres] at hdecode
  exact hdecode

theorem PrefixRun.unique {p q : Nat} (hp : PrefixRun fetch p) (hq : PrefixRun fetch q) : p = q := by
  rcases lt_trichotomy p q with h | h | h
  · exact absurd (hq.2.1 p h) hp.2.2
  · exact h
  · exact absurd (hp.2.1 q h) hq.2.2

/-- Every byte of an answer was there to read. -/
theorem Answers.ok_at {p : Nat} {bs : List U8} {insn : Insn} (h : Answers fetch rip p bs insn)
    {j : Nat} (hj : j < p + bs.length) : ∃ x, fetch (BitVec.ofNat 8 j) = .ok x := by
  obtain ⟨⟨_, hbefore, _⟩, b, i, _, _, hholds, _⟩ := h
  rcases Nat.lt_or_ge j p with hlt | hge
  · obtain ⟨x, hx, _⟩ := hbefore j hlt
    exact ⟨x, hx⟩
  · have hbyte := (Parse.holds_iff.mp hholds) (j - p) (by omega)
    rw [← BitVec.ofNat_add, Nat.add_sub_cancel' hge] at hbyte
    exact ⟨_, hbyte⟩

/-- Whatever is returned was read that way. -/
theorem answers_of_decodes {fuel : Nat} {insn : Insn}
    (h : decodeWithSource fetch rip fuel = some (.ok insn)) :
    ∃ p bs, Answers fetch rip p bs insn := by
  rcases flood_or_run fetch with hflood | ⟨p, hrun⟩
  · rw [decodeWithSource, scanPrefixes_flood hflood] at h
    cases h
  · have hrest := decodeWithSource_fuel h hrun
    refine ⟨p, ?_⟩
    cases hb : fetch (BitVec.ofNat 8 p) with
    | error s =>
        rw [decodeRest, hb] at hrest
        cases hrest
    | ok b =>
        rw [decodeRest, hb] at hrest
        simp only at hrest
        cases hres : (opcodeParser rip b (recordPrefixes fetch p 0 {})).run fetch
            (BitVec.ofNat 8 p) with
        | error s =>
            rw [hres] at hrest
            cases hrest
        | ok r =>
            obtain ⟨i, c'⟩ := r
            obtain ⟨bs, hyields, hholds, rfl⟩ := Parse.run_eq_ok.mp hres
            rw [hres] at hrest
            exact ⟨bs, hrun, b, i, hb, hyields, hholds, Except.ok.inj hrest⟩

/-- A source that gives an answer when asked gives the same one with any fuel that gives one. -/
theorem decode_unique {fuel fuel' : Nat} {r r' : Except Status Insn}
    (h : decodeWithSource fetch rip fuel = some r)
    (h' : decodeWithSource fetch rip fuel' = some r') : r = r' := by
  rcases flood_or_run fetch with hflood | ⟨p, hrun⟩
  · rw [decodeWithSource, scanPrefixes_flood hflood] at h
    cases h
  · rw [decodeWithSource_fuel h hrun, decodeWithSource_fuel h' hrun]

theorem recordPrefixes_congr (n : Nat) (c : U8) (px : Prefixes)
    (h : ∀ i < n, fetch' (c + BitVec.ofNat 8 i) = fetch (c + BitVec.ofNat 8 i)) :
    recordPrefixes fetch' n c px = recordPrefixes fetch n c px := by
  induction n generalizing c px with
  | zero => rfl
  | succ n ih =>
      have hfirst := h 0 (by omega)
      rw [BitVec.add_zero] at hfirst
      have hrest : ∀ i < n, fetch' (c + 1 + BitVec.ofNat 8 i) = fetch (c + 1 + BitVec.ofNat 8 i) := by
        intro i hi
        rw [Parse.add_one_add]
        exact h (i + 1) (by omega)
      rw [recordPrefixes, recordPrefixes, hfirst]
      cases fetch c with
      | error e => rfl
      | ok b => exact ih (c + 1) _ hrest

/-- An answer depends on the bytes it was read from only. -/
theorem Answers.congr {p : Nat} {bs : List U8} {insn : Insn} (h : Answers fetch rip p bs insn)
    (hsame : ∀ i < p + bs.length, fetch' (BitVec.ofNat 8 i) = fetch (BitVec.ofNat 8 i)) :
    Answers fetch' rip p bs insn := by
  obtain ⟨⟨hp, hbefore, hend⟩, b, i, hb, hyields, hholds, hinsn⟩ := h
  have hpos : 0 < bs.length :=
    opcodeParser_pos rip b _ (recordPrefixes_isVex fetch p 0 {} rfl) bs i hyields
  have hfirst := hsame p (by omega)
  have hrecord : recordPrefixes fetch' p 0 {} = recordPrefixes fetch p 0 {} := by
    refine recordPrefixes_congr p 0 {} fun i hi => ?_
    rw [zero_add_ofNat]
    exact hsame i (by omega)
  refine ⟨⟨hp, ?_, ?_⟩, b, i, by rw [hfirst, hb], by rw [hrecord]; exact hyields, ?_, hinsn⟩
  · intro i hi
    obtain ⟨b', hb', hlegacy⟩ := hbefore i hi
    exact ⟨b', by rw [hsame i (by omega), hb'], hlegacy⟩
  · rintro ⟨b', hb', hlegacy⟩
    rw [hfirst] at hb'
    exact hend ⟨b', hb', hlegacy⟩
  · rw [Parse.holds_iff] at hholds ⊢
    intro j hj
    rw [← BitVec.ofNat_add, hsame (p + j) (by omega), BitVec.ofNat_add]
    exact hholds j hj

end Answers

/-! ### The two sources -/

/-- The entry points agree on `b` at `rip`: they return the same instruction, or both fail;
and neither takes more than fifteen bytes for one instruction. -/
structure EntriesAgree (b : List U8) (rip : GuestAddr) (s : Status) : Prop where
  same :
    (∃ insn fuel fuel', decodeBytes (bufOf b) b.length rip fuel = some (.ok insn) ∧
      decodeOne (holdingAt rip b s) rip fuel' = some (.ok insn)) ∨
    (∃ e e' fuel fuel', decodeBytes (bufOf b) b.length rip fuel = some (.error e) ∧
      decodeOne (holdingAt rip b s) rip fuel' = some (.error e'))
  cappedOne : ∀ fuel insn, decodeOne (holdingAt rip b s) rip fuel = some (.ok insn) →
    ∀ o ∈ decodeOffsets (memFetch (holdingAt rip b s) rip) rip fuel, o.toNat < 15
  cappedBytes : ∀ p bs insn,
    Answers (bufFetch (bufOf b) (if b.length > 15 then 15 else b.length)) rip p bs insn →
      p + bs.length ≤ 15

section Sources

variable {b : List U8} {rip : GuestAddr} {s : Status}

/-- The buffer has the memory's bytes below its cut. -/
theorem bufFetch_eq (off : U8) (hoff : off.toNat < 15)
    (hin : off.toNat < b.length) :
    bufFetch (bufOf b) (if b.length > 15 then 15 else b.length) off =
      memFetch (holdingAt rip b s) rip off := by
  rw [memFetch_holdingAt, if_pos hin, bufFetch, if_pos]
  split <;> omega

/-- A byte string does not flood a buffer that is cut at fifteen. -/
theorem not_flood_bufFetch : ¬ PrefixFlood (bufFetch (bufOf b) (if b.length > 15 then 15
    else b.length)) := by
  intro h
  obtain ⟨x, hx, _⟩ := h 15
  rw [bufFetch, if_neg] at hx
  · cases hx
  · have h15 : (15 : U8).toNat = 15 := rfl
    rw [h15]
    split <;> omega

theorem toNat_ofNat_of_le {i : Nat} (hi : i ≤ 15) : (BitVec.ofNat 8 i).toNat = i := by
  rw [BitVec.toNat_ofNat, Nat.mod_eq_of_lt (by omega)]

/-- What the buffer answers was read below its cut. -/
theorem answers_bufFetch_le {p : Nat} {bs : List U8} {insn : Insn}
    (h : Answers (bufFetch (bufOf b) (if b.length > 15 then 15 else b.length)) rip p bs insn) :
    p + bs.length ≤ 15 ∧ p + bs.length ≤ b.length := by
  have hcut (j : Nat) (hj : j ≤ 15) (hlen : (if b.length > 15 then 15 else b.length) ≤ j) :
      p + bs.length ≤ j := by
    by_contra hlong
    obtain ⟨x, hx⟩ := h.ok_at (j := j) (by omega)
    rw [bufFetch, toNat_ofNat_of_le hj, if_neg (by omega)] at hx
    cases hx
  have hfifteen := hcut 15 (le_refl _) (by split <;> omega)
  refine ⟨hfifteen, ?_⟩
  by_cases hlong : b.length > 15
  · omega
  · exact hcut b.length (by omega) (by rw [if_neg hlong])

theorem answers_memFetch_le {p : Nat} {bs : List U8} {insn : Insn}
    (h : Answers (memFetch (holdingAt rip b s) rip) rip p bs insn) (hfit : p + bs.length ≤ 15) :
    p + bs.length ≤ b.length := by
  by_contra hlong
  obtain ⟨x, hx⟩ := h.ok_at (j := b.length) (by omega)
  rw [memFetch_holdingAt, toNat_ofNat_of_le (by omega), if_neg (lt_irrefl _)] at hx
  cases hx

/-- Within the buffer both sources have the same bytes. -/
theorem bufFetch_same (rip : GuestAddr) (s : Status) {n : Nat} (hfifteen : n ≤ 15)
    (hin : n ≤ b.length) :
    ∀ i < n, bufFetch (bufOf b) (if b.length > 15 then 15 else b.length) (BitVec.ofNat 8 i) =
      memFetch (holdingAt rip b s) rip (BitVec.ofNat 8 i) := by
  intro i hi
  have hnat := toNat_ofNat_of_le (i := i) (by omega)
  exact bufFetch_eq _ (by omega) (by omega)

/-- Both entry points end on an answer or on an error where the prefixes end. -/
theorem decode_ends (rip : GuestAddr) {fetch : Fetch} (h : ¬ PrefixFlood fetch) :
    ∃ fuel r, decodeWithSource fetch rip fuel = some r := by
  rcases flood_or_run fetch with hflood | ⟨p, hrun⟩
  · exact absurd hflood h
  · exact ⟨p + 1, _, decodeWithSource_run hrun rip 0⟩

theorem decodeBytes_eq (hb : b ≠ []) (fuel : Nat) :
    decodeBytes (bufOf b) b.length rip fuel =
      decodeWithSource (bufFetch (bufOf b) (if b.length > 15 then 15 else b.length)) rip fuel := by
  rw [decodeBytes, if_neg (fun h => hb (List.length_eq_zero_iff.mp h))]

/-- Where the opcode ends within fifteen bytes, the entry points agree. -/
theorem entriesAgree_of_fits (hb : b ≠ []) (h : FitsFifteen (memFetch (holdingAt rip b s) rip) rip) :
    EntriesAgree b rip s := by
  have hbounds := decodesInBounds_of_fits h
  obtain ⟨p, hrun, hfits⟩ := h
  refine ⟨?_, fun fuel insn hdecode => (hbounds.bounded fuel insn hdecode).2.2.2.2, ?_⟩
  · obtain ⟨fuel', r', hone⟩ := hbounds.terminates
    obtain ⟨fuel, r, hbytes⟩ := decode_ends rip (not_flood_bufFetch (b := b))
    rw [← decodeBytes_eq hb] at hbytes
    cases r' with
    | ok insn =>
        obtain ⟨q, bs, hans⟩ := answers_of_decodes hone
        obtain rfl := hrun.unique hans.prefixes
        have hsplit : p + bs.length ≤ 15 := hfits bs hans.opcodeBytes
        have hsame := hans.congr
          (bufFetch_same rip s hsplit (answers_memFetch_le hans hsplit))
        refine Or.inl ⟨insn, p + 1, fuel', ?_, hone⟩
        rw [decodeBytes_eq hb]
        exact hsame.decodes
    | error e' =>
        cases r with
        | error e => exact Or.inr ⟨e, e', fuel, fuel', hbytes, hone⟩
        | ok insn =>
            rw [decodeBytes_eq hb] at hbytes
            obtain ⟨p', bs, hans⟩ := answers_of_decodes hbytes
            obtain ⟨hfifteen, hin⟩ := answers_bufFetch_le hans
            have hsame := hans.congr fun i hi =>
              (bufFetch_same rip s hfifteen hin i hi).symm
            have hunique := decode_unique hsame.decodes hone
            cases hunique
  · intro p' bs insn hans
    exact (answers_bufFetch_le hans).1

/-- The entry points agree on a byte string exactly when, with it at `rip` and nothing else,
fewer than 256 prefixes are followed by no opcode at all or by one that ends within fifteen
bytes. -/
theorem entriesAgree_iff (b : List U8) (hb : b ≠ []) (rip : GuestAddr) (s : Status) :
    EntriesAgree b rip s ↔ FitsFifteen (memFetch (holdingAt rip b s) rip) rip := by
  constructor
  · intro h
    rcases flood_or_run (memFetch (holdingAt rip b s) rip) with hflood | ⟨p, hrun⟩
    · have hnone (fuel : Nat) : decodeOne (holdingAt rip b s) rip fuel = none := by
        rw [decodeOne, decodeWithSource, scanPrefixes_flood hflood]
      rcases h.same with ⟨_, _, _, _, hone⟩ | ⟨_, _, _, _, _, hone⟩
      · rw [hnone] at hone
        cases hone
      · rw [hnone] at hone
        cases hone
    · refine ⟨p, hrun, fun bs hbytes => ?_⟩
      obtain ⟨⟨insn, hdecode, _⟩, _, hoffsets⟩ := decode_of_opcodeBytes hrun hbytes 0
      have hreach := h.cappedOne (p + 1) insn hdecode
      by_contra hlong
      have hread := hreach (BitVec.ofNat 8 15) ((hoffsets _).mpr ⟨15, by omega, rfl⟩)
      exact absurd hread (by decide)
  · exact entriesAgree_of_fits hb

end Sources

/-- Fifteen operand-size prefixes and a NOP. -/
def sixteenBytes : List U8 := List.replicate 15 0x66 ++ [0x90]

/-- `decode_one` takes all sixteen bytes for one instruction. -/
theorem sixteen_bytes_disagree :
    ¬ ∀ (b : List U8) (rip : GuestAddr) (s : Status), b ≠ [] → EntriesAgree b rip s := by
  intro h
  have hagree := h sixteenBytes 0 .unmappedRead (by decide)
  obtain ⟨insn, hdecode⟩ : ∃ insn,
      decodeOne (holdingAt 0 sixteenBytes .unmappedRead) 0 17 = some (.ok insn) := ⟨_, rfl⟩
  have hread := hagree.cappedOne 17 insn hdecode 15 (by decide)
  exact absurd hread (by decide)

theorem entriesAgree_iff_nop : EntriesAgree [0x90] 0 .unmappedRead := by
  refine (entriesAgree_iff [0x90] (by decide) 0 .unmappedRead).mpr ⟨0, ?_, ?_⟩
  · exact prefixRun_zero (b := 0x90) rfl (by decide)
  · rintro bs ⟨b, i, _, _, hholds⟩
    by_contra hlong
    have hbyte := (Parse.holds_iff.mp hholds) 1 (by omega)
    rw [memFetch_holdingAt] at hbyte
    cases hbyte

end PicoCpu
