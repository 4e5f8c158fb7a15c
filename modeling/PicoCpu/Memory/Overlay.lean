import PicoCpu.Memory.ShadowPages

/-!
`ShadowPages` as an overlaid byte map: what a sequence of writes leaves at every address.
A byte some write covered is that write's; the other bytes of a page the writes made come
from the page image taken at its first touch; everywhere else nothing changed.
-/

namespace PicoCpu

namespace ShadowPages

open Granule

/-- A call of `write`. -/
structure WriteCall where
  addr : GuestAddr
  size : U64
  data : Buf

/-- Run a sequence of writes, all of which have to return Ok. -/
def writeAll : List WriteCall → ShadowPages → Option ShadowPages
  | [], sp => some sp
  | w :: rest, sp =>
    match write w.addr w.size.toNat w.data sp with
    | (.ok _, sp') => writeAll rest sp'
    | (.error _, _) => none

/-- The value the last covering write gave the byte. -/
def lastWritten : List WriteCall → GuestAddr → Option U8
  | [], _ => none
  | w :: rest, a =>
    match lastWritten rest a with
    | some v => some v
    | none =>
      if InRange w.addr w.size.toNat a then some (w.data (a - w.addr).toNat) else none

/-- Some write of the sequence touches the page. -/
def Touched (ws : List WriteCall) (p : GuestAddr) : Prop :=
  ∃ w ∈ ws, TouchesPage w.addr w.size.toNat p

/-- The run invariant: every page holds the written bytes over its image, and exactly the
touched pages were made. -/
structure OverlaidPages (ws : List WriteCall) (sp sp' : ShadowPages) : Prop where
  setup : SameSetup sp sp'
  contents : ∀ p, base pageShift p = p → ∀ i < 2 ^ pageShift,
    sp'.getOrMakePage p i =
      (lastWritten ws (p + BitVec.ofNat 64 i)).getD (sp.getOrMakePage p i)
  made : ∀ p, sp'.pages p = none ↔ sp.pages p = none ∧ ¬ Touched ws p

theorem OverlaidPages.nil (sp : ShadowPages) : OverlaidPages [] sp sp := by
  refine ⟨SameSetup.refl sp, fun _ _ _ _ => rfl, fun p => ⟨fun h => ⟨h, ?_⟩, fun h => h.1⟩⟩
  rintro ⟨w, hw, _⟩
  exact absurd hw List.not_mem_nil

/-- One write in front of a sequence. -/
theorem OverlaidPages.cons {w : WriteCall} {rest : List WriteCall} {sp sp₁ sp' : ShadowPages}
    (hfirst : WrittenPages w.addr w.size.toNat w.data sp sp₁) (hrest : OverlaidPages rest sp₁ sp') :
    OverlaidPages (w :: rest) sp sp' := by
  refine ⟨hfirst.setup.trans hrest.setup, ?_, ?_⟩
  · intro p hp i hi
    rw [hrest.contents p hp i hi, hfirst.contents p hp i hi, lastWritten]
    cases lastWritten rest (p + BitVec.ofNat 64 i) with
    | some v => rfl
    | none =>
        simp only [Option.getD_none]
        split <;> rfl
  · intro p
    rw [hrest.made p, hfirst.made p]
    constructor
    · rintro ⟨⟨hnone, hw⟩, hrest'⟩
      refine ⟨hnone, ?_⟩
      rintro ⟨w', hmem, htouch⟩
      rcases List.mem_cons.mp hmem with rfl | hmem'
      · exact hw htouch
      · exact hrest' ⟨w', hmem', htouch⟩
    · rintro ⟨hnone, hall⟩
      exact ⟨⟨hnone, fun htouch => hall ⟨w, List.mem_cons_self .., htouch⟩⟩,
        fun ⟨w', hmem, htouch⟩ => hall ⟨w', List.mem_cons_of_mem _ hmem, htouch⟩⟩

theorem writeAll_overlaid {ws : List WriteCall} {sp sp' : ShadowPages}
    (h : writeAll ws sp = some sp') : OverlaidPages ws sp sp' := by
  induction ws generalizing sp with
  | nil =>
      rw [writeAll, Option.some.injEq] at h
      rw [← h]
      exact OverlaidPages.nil sp
  | cons w rest ih =>
      rw [writeAll] at h
      have hok := write_ok w.addr w.size.toNat w.data sp (le_of_lt w.size.isLt)
      revert h hok
      cases write w.addr w.size.toNat w.data sp with
      | mk r sp₁ =>
          intro h hok
          cases r with
          | error e => exact absurd h (by simp)
          | ok u => exact OverlaidPages.cons (hok rfl) (ih h)

/-- A covered byte lies in a touched page. -/
theorem touched_of_lastWritten {ws : List WriteCall} {a : GuestAddr} {v : U8}
    (h : lastWritten ws a = some v) : Touched ws (base pageShift a) := by
  induction ws with
  | nil => exact absurd h (by simp [lastWritten])
  | cons w rest ih =>
      rw [lastWritten] at h
      cases hrest : lastWritten rest a with
      | some v' =>
          obtain ⟨w', hmem, htouch⟩ := ih (hrest.trans (by rw [hrest] at h; exact h))
          exact ⟨w', List.mem_cons_of_mem _ hmem, htouch⟩
      | none =>
          rw [hrest] at h
          by_cases hin : InRange w.addr w.size.toNat a
          · exact ⟨w, List.mem_cons_self .., a, hin, rfl⟩
          · simp only [if_neg hin] at h
            exact absurd h (by simp)

/-- Reading one byte of a page that exists after the writes. -/
theorem OverlaidPages.read_made {ws : List WriteCall} {sp sp' : ShadowPages}
    (h : OverlaidPages ws sp sp') {a : GuestAddr} (hmade : sp'.pages (base pageShift a) ≠ none)
    (out : Buf) :
    sp'.read a 1 out = (.ok (), overwrite out 0 1 fun _ =>
      (lastWritten ws a).getD (sp.getOrMakePage (base pageShift a) (off pageShift a))) := by
  have hoff := off_lt pageShift a
  have hbyte := h.contents (base pageShift a) (base_base pageShift a) (off pageShift a) hoff
  rw [base_add_off] at hbyte
  rw [read_one, serve_of_page 1 0 out hmade]
  congr 1
  funext i
  unfold overwrite
  by_cases hi : 0 ≤ i ∧ i < 0 + 1
  · have hzero : i = 0 := by omega
    subst hzero
    rw [if_pos hi, if_pos hi]
    exact hbyte
  · rw [if_neg hi, if_neg hi]

/-- A backing that maps nothing. -/
def unmappedBacking : Backing := fun _ _ out => (.error .unmappedRead, out)

end ShadowPages

end PicoCpu
