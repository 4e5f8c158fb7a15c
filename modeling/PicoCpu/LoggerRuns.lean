import PicoCpu.Logger

/-!
The logger over whole runs, in any order of the threads. A slot goes from free to published to
released, or is overwritten before it is released. The wait of a call does not tell these apart:
it passes where the slot holds an unread record and spins where the record has been read. While no
ticket is drawn a whole ring ahead of the flush thread, everything is printed in order; a record
that is overwritten unread ends the printing for good.
-/

namespace PicoCpu

namespace Log

namespace Ring

open Interleaving

/-! ### What a step does -/

/-- The tickets below have been printed and their slots released. -/
def released (r : Ring) : Nat :=
  match r.flusher with
  | .testing head _ | .printing head _ | .releasing head _ | .storing head => head
  | .top | .draining _ _ | .finished => r.readSeq

def Published (r : Ring) (seq : Nat) : Prop := ∃ m, r.calls seq = some ⟨m, .published⟩

/-- The steps as the slots, the tickets and the flush thread see them. -/
inductive Takes (r : Ring) : Ring → Prop
  /-- Nothing of these changes. -/
  | aside {r' : Ring} (hslots : r'.slots = r.slots) (hcalls : r'.calls = r.calls)
      (hwrite : r'.writeSeq = r.writeSeq) (hread : r'.readSeq = r.readSeq)
      (hflusher : r'.flusher = r.flusher) (hprinted : r'.printed = r.printed) : Takes r r'
  | claim (m : Message) (entered : List Message) :
      Takes r { r with
        entered, writeSeq := r.writeSeq + 1
        calls := Function.update r.calls r.writeSeq (some ⟨m, .waiting 16⟩) }
  | wait {seq spins : Nat} {m : Message} {phase : Phase}
      (hcall : r.calls seq = some ⟨m, .waiting spins⟩)
      (hphase : phase = .filling ∨ ∃ spins', phase = .waiting spins') :
      Takes r { r with calls := Function.update r.calls seq (some ⟨m, phase⟩) }
  | fill {seq : Nat} {m : Message} (hcall : r.calls seq = some ⟨m, .filling⟩) :
      Takes r { r with
        slots := Function.update r.slots (seq % ringCapacity)
          { r.slot seq with fields := m.fields }
        calls := Function.update r.calls seq (some ⟨m, .publishing⟩) }
  | publish {seq : Nat} {m : Message} (hcall : r.calls seq = some ⟨m, .publishing⟩) :
      Takes r { r with
        slots := Function.update r.slots (seq % ringCapacity)
          { r.slot seq with seq := (seq + 1) * 2 }
        calls := Function.update r.calls seq (some ⟨m, .published⟩) }
  | flush {r' : Ring} (h : r.flushStep = some r') : Takes r r'

theorem takes_of_step {a : Action} {r r' : Ring} (h : step a r = some r') : Takes r r' := by
  cases a with
  | emit m =>
      rw [step] at h
      split at h
      · cases h
        exact .aside rfl rfl rfl rfl rfl rfl
      · cases h
        exact .aside rfl rfl rfl rfl rfl rfl
  | enter k =>
      obtain ⟨m, _, rfl⟩ := Option.map_eq_some_iff.mp h
      simp only
      split
      · exact .aside rfl rfl rfl rfl rfl rfl
      · exact .aside rfl rfl rfl rfl rfl rfl
  | claim k =>
      obtain ⟨m, _, rfl⟩ := Option.map_eq_some_iff.mp h
      exact .claim m _
  | wait seq =>
      obtain ⟨⟨m, phase⟩, hcall, h⟩ := Option.bind_eq_some_iff.mp h
      cases phase with
      | waiting spins =>
          cases spins with
          | zero =>
              cases h
              exact .wait hcall (.inl rfl)
          | succ spins =>
              cases h
              refine .wait hcall ?_
              split
              · exact .inl rfl
              · exact .inr ⟨spins, rfl⟩
      | filling => cases h
      | publishing => cases h
      | published => cases h
  | fill seq =>
      obtain ⟨⟨m, phase⟩, hcall, h⟩ := Option.bind_eq_some_iff.mp h
      simp only at h
      split at h
      · rename_i hphase
        subst hphase
        cases h
        exact .fill hcall
      · cases h
  | publish seq =>
      obtain ⟨⟨m, phase⟩, hcall, h⟩ := Option.bind_eq_some_iff.mp h
      simp only at h
      split at h
      · rename_i hphase
        subst hphase
        cases h
        exact .publish hcall
      · cases h
  | flush => exact .flush h
  | shutdown =>
      cases h
      exact .aside rfl rfl rfl rfl rfl rfl
  | setLevel l =>
      cases h
      exact .aside rfl rfl rfl rfl rfl rfl

/-- The steps of the flush thread. -/
inductive Flushes (r : Ring) : Ring → Prop
  | start (hat : r.flusher = .top) (hrunning : r.running = true) :
      Flushes r { r with flusher := .testing r.readSeq r.writeSeq }
  | stop (hat : r.flusher = .top) (hrunning : r.running = false) :
      Flushes r { r with flusher := .draining r.readSeq r.writeSeq }
  | found {head tail : Nat} (hat : r.flusher = .testing head tail)
      (hseq : (r.slot head).seq = (head + 1) * 2) (hlt : head < tail) :
      Flushes r { r with flusher := .printing head tail }
  | pause {head tail : Nat} (hat : r.flusher = .testing head tail) :
      Flushes r { r with flusher := .storing head }
  | print {head tail : Nat} (hat : r.flusher = .printing head tail) :
      Flushes r { r with
        printed := r.printed ++ [(head, (r.slot head).fields)]
        flusher := .releasing head tail }
  | release {head tail : Nat} (hat : r.flusher = .releasing head tail) :
      Flushes r { r with
        slots := Function.update r.slots (head % ringCapacity)
          { r.slot head with seq := (head + 1) * 2 + 1 }
        flusher := .testing (head + 1) tail }
  | store {head : Nat} (hat : r.flusher = .storing head) :
      Flushes r { r with readSeq := head, flusher := .top }
  | keep {head tail : Nat} (hat : r.flusher = .draining head tail) (hlt : head < tail)
      (hseq : (r.slot head).seq = (head + 1) * 2) :
      Flushes r { r with
        printed := r.printed ++ [(head, (r.slot head).fields)]
        flusher := .draining (head + 1) tail }
  | skip {head tail : Nat} (hat : r.flusher = .draining head tail) (hlt : head < tail)
      (hseq : (r.slot head).seq ≠ (head + 1) * 2) :
      Flushes r { r with flusher := .draining (head + 1) tail }
  | finish {head tail : Nat} (hat : r.flusher = .draining head tail) (hend : tail ≤ head) :
      Flushes r { r with flusher := .finished }

theorem flushes_of_flushStep {r r' : Ring} (h : r.flushStep = some r') : Flushes r r' := by
  unfold flushStep at h
  cases hat : r.flusher with
  | top =>
      simp only [hat] at h
      cases h
      split
      · rename_i hrunning
        exact .start hat hrunning
      · rename_i hrunning
        exact .stop hat (by simpa using hrunning)
  | testing head tail =>
      simp only [hat] at h
      cases h
      split
      · rename_i hseq
        exact .found hat hseq.2 hseq.1
      · exact .pause hat
  | printing head tail =>
      simp only [hat] at h
      cases h
      exact .print hat
  | releasing head tail =>
      simp only [hat] at h
      cases h
      exact .release hat
  | storing head =>
      simp only [hat] at h
      cases h
      exact .store hat
  | draining head tail =>
      simp only [hat] at h
      split at h
      · rename_i hlt
        cases h
        split
        · rename_i hseq
          exact .keep hat hlt hseq
        · rename_i hseq
          exact .skip hat hlt hseq
      · rename_i hend
        cases h
        exact .finish hat (Nat.not_lt.mp hend)
  | finished =>
      simp only [hat] at h
      cases h

/-- What an action leaves alone. -/
structure Frames (a : Action) (r r' : Ring) : Prop where
  running : a ≠ .shutdown → r'.running = r.running
  stopped : r.running = false → r'.running = false
  writeSeq : (∀ k, a ≠ .claim k) → r'.writeSeq = r.writeSeq
  grows : r.writeSeq ≤ r'.writeSeq
  /-- No call comes in once the logger is stopped. -/
  closed : r.running = false →
    r'.writeSeq + r'.entered.length ≤ r.writeSeq + r.entered.length

theorem Frames.same {a : Action} {r r' : Ring} (hrunning : r'.running = r.running)
    (hwrite : r'.writeSeq = r.writeSeq) (hentered : r'.entered = r.entered) : Frames a r r' :=
  ⟨fun _ => hrunning, hrunning.trans, fun _ => hwrite, hwrite.ge, fun _ => by rw [hwrite, hentered]⟩

theorem frames_of_step {a : Action} {r r' : Ring} (h : step a r = some r') : Frames a r r' := by
  cases a with
  | emit m =>
      rw [step] at h
      split at h
      · cases h
        exact .same rfl rfl rfl
      · cases h
        exact .same rfl rfl rfl
  | enter k =>
      obtain ⟨m, _, rfl⟩ := Option.map_eq_some_iff.mp h
      simp only
      split
      · rename_i hrunning
        exact ⟨fun _ => rfl, id, fun _ => rfl, le_rfl, by simp [hrunning]⟩
      · exact .same rfl rfl rfl
  | claim k =>
      obtain ⟨m, hk, rfl⟩ := Option.map_eq_some_iff.mp h
      have hlt := (List.getElem?_eq_some_iff.mp hk).1
      refine ⟨fun _ => rfl, id, fun hnot => absurd rfl (hnot k), Nat.le_succ _, fun _ => ?_⟩
      simp only [List.length_eraseIdx_of_lt hlt]
      omega
  | wait seq =>
      obtain ⟨⟨m, phase⟩, _, h⟩ := Option.bind_eq_some_iff.mp h
      cases phase with
      | waiting spins =>
          cases spins with
          | zero =>
              cases h
              exact .same rfl rfl rfl
          | succ spins =>
              cases h
              exact .same rfl rfl rfl
      | filling => cases h
      | publishing => cases h
      | published => cases h
  | fill seq =>
      obtain ⟨c, _, h⟩ := Option.bind_eq_some_iff.mp h
      simp only at h
      split at h
      · cases h
        exact .same rfl rfl rfl
      · cases h
  | publish seq =>
      obtain ⟨c, _, h⟩ := Option.bind_eq_some_iff.mp h
      simp only at h
      split at h
      · cases h
        exact .same rfl rfl rfl
      · cases h
  | flush =>
      cases flushes_of_flushStep h with
      | start | stop | found | pause | print | release | store | keep | skip | finish =>
          exact .same rfl rfl rfl
  | shutdown =>
      cases h
      exact ⟨fun hne => absurd rfl hne, fun _ => rfl, fun _ => rfl, le_rfl, fun _ => le_rfl⟩
  | setLevel l =>
      cases h
      exact .same rfl rfl rfl

/-! ### Who has published -/

section Published

variable {r : Ring} {seq : Nat} {m : Message} {phase phase' : Phase}

/-- A call that moves on without publishing. -/
theorem published_move (hcall : r.calls seq = some ⟨m, phase⟩) (hold : phase ≠ .published)
    (hnew : phase' ≠ .published) (u : Nat) :
    (∃ m', Function.update r.calls seq (some ⟨m, phase'⟩) u = some ⟨m', .published⟩) ↔
      r.Published u := by
  rcases eq_or_ne u seq with rfl | hne
  · rw [Function.update_self, Published, hcall]
    simp [hold, hnew]
  · rw [Function.update_of_ne hne]
    rfl

theorem published_claim (hdraw : r.calls seq = none) (u : Nat) :
    (∃ m', Function.update r.calls seq (some ⟨m, .waiting 16⟩) u = some ⟨m', .published⟩) ↔
      r.Published u := by
  rcases eq_or_ne u seq with rfl | hne
  · rw [Function.update_self, Published, hdraw]
    simp
  · rw [Function.update_of_ne hne]
    rfl

theorem published_publish (u : Nat) :
    (∃ m', Function.update r.calls seq (some ⟨m, .published⟩) u = some ⟨m', .published⟩) ↔
      u = seq ∨ r.Published u := by
  rcases eq_or_ne u seq with rfl | hne
  · rw [Function.update_self]
    simp
  · rw [Function.update_of_ne hne]
    simp [Published, hne]

theorem not_published_of_phase (hcall : r.calls seq = some ⟨m, phase⟩) (hold : phase ≠ .published) :
    ¬ r.Published seq := by
  rintro ⟨m', hcall'⟩
  rw [hcall] at hcall'
  cases hcall'
  exact hold rfl

end Published

/-! ### The invariant -/

/-- What the slot holds: nothing yet, an unread record, or one whose slot has been released. -/
def SlotIs (r : Ring) (i : Nat) : Prop :=
  ((r.slots i).seq = 0 ∧ ∀ u, u % ringCapacity = i → ¬ r.Published u) ∨
    ∃ u, u % ringCapacity = i ∧ r.Published u ∧
      ((r.slots i).seq = (u + 1) * 2 ∧ r.released ≤ u ∨
        (r.slots i).seq = (u + 1) * 2 + 1 ∧ u < r.released)

structure Inv (r : Ring) : Prop where
  drawn : ∀ u, r.calls u ≠ none ↔ u < r.writeSeq
  slots : ∀ i, r.SlotIs i
  released : ∀ u < r.released, r.Published u
  printing : ∀ head tail, r.flusher = .printing head tail ∨ r.flusher = .releasing head tail →
    r.Published head

variable {r r' : Ring}

theorem Inv.published_lt (h : r.Inv) {u : Nat} (hu : r.Published u) : u < r.writeSeq := by
  obtain ⟨m, hcall⟩ := hu
  exact (h.drawn u).mp (by simp [hcall])

/-- A slot that shows a ticket published has been published under it. -/
theorem Inv.published_of_seq (h : r.Inv) {u : Nat} (hseq : (r.slot u).seq = (u + 1) * 2) :
    r.Published u := by
  rcases h.slots (u % ringCapacity) with ⟨hzero, _⟩ | ⟨v, _, hv, ⟨hv', _⟩ | ⟨hv', _⟩⟩
  · rw [slot, hzero] at hseq
    omega
  · rw [slot, hv'] at hseq
    obtain rfl : v = u := by omega
    exact hv
  · rw [slot, hv'] at hseq
    omega

/-- The same slots, tickets and released part. -/
theorem Inv.congr (h : r.Inv) (hslots : r'.slots = r.slots) (hcalls : r'.calls = r.calls)
    (hwrite : r'.writeSeq = r.writeSeq) (hreleased : r'.released = r.released)
    (hprinting : ∀ head tail, r'.flusher = .printing head tail ∨
      r'.flusher = .releasing head tail → r.Published head) : r'.Inv := by
  have hpublished (u : Nat) : r'.Published u ↔ r.Published u := by
    rw [Published, Published, hcalls]
  constructor
  · rw [hcalls, hwrite]
    exact h.drawn
  · intro i
    have hslot := h.slots i
    simpa only [SlotIs, hslots, hpublished, hreleased] using hslot
  · rw [hreleased]
    exact fun u hu => (hpublished u).mpr (h.released u hu)
  · exact fun head tail hat => (hpublished head).mpr (hprinting head tail hat)

/-- The same slots, up to what is not looked at, and the same calls published. -/
theorem Inv.of_published (h : r.Inv) (hslots : ∀ i, (r'.slots i).seq = (r.slots i).seq)
    (hpublished : ∀ u, r'.Published u ↔ r.Published u)
    (hdrawn : ∀ u, r'.calls u ≠ none ↔ u < r'.writeSeq) (hread : r'.readSeq = r.readSeq)
    (hflusher : r'.flusher = r.flusher) : r'.Inv := by
  have hreleased : r'.released = r.released := by rw [Ring.released, Ring.released, hflusher, hread]
  constructor
  · exact hdrawn
  · intro i
    have hslot := h.slots i
    simpa only [SlotIs, hslots, hpublished, hreleased] using hslot
  · rw [hreleased]
    exact fun u hu => (hpublished u).mpr (h.released u hu)
  · rw [hflusher]
    exact fun head tail hat => (hpublished head).mpr (h.printing head tail hat)

theorem Inv.drawn_update (h : r.Inv) {seq : Nat} {c c' : Call} (hcall : r.calls seq = some c)
    (u : Nat) : Function.update r.calls seq (some c') u ≠ none ↔ u < r.writeSeq := by
  rcases eq_or_ne u seq with rfl | hne
  · rw [Function.update_self]
    have hdrawn := h.drawn u
    rw [hcall] at hdrawn
    simpa using hdrawn
  · rw [Function.update_of_ne hne]
    exact h.drawn u

theorem seq_update {slots : Nat → Record} {j : Nat} {rec : Record} (hseq : rec.seq = (slots j).seq)
    (i : Nat) : (Function.update slots j rec i).seq = (slots i).seq := by
  rcases eq_or_ne i j with rfl | hne
  · rw [Function.update_self, hseq]
  · rw [Function.update_of_ne hne]

theorem Inv.publish (h : r.Inv) {seq : Nat} {m : Message}
    (hcall : r.calls seq = some ⟨m, .publishing⟩) :
    Inv { r with
      slots := Function.update r.slots (seq % ringCapacity)
        { r.slot seq with seq := (seq + 1) * 2 }
      calls := Function.update r.calls seq (some ⟨m, .published⟩) } := by
  have hnot : ¬ r.Published seq := not_published_of_phase hcall (by simp)
  have hahead : r.released ≤ seq := by
    by_contra hlt
    exact hnot (h.released seq (Nat.not_le.mp hlt))
  constructor
  · exact h.drawn_update hcall
  · intro i
    rcases eq_or_ne i (seq % ringCapacity) with rfl | hne
    · exact .inr ⟨seq, rfl, published_publish seq |>.mpr (.inl rfl), .inl
        ⟨by simp only [Function.update_self], hahead⟩⟩
    · have hslot := h.slots i
      simp only [SlotIs, Function.update_of_ne hne] at hslot ⊢
      rcases hslot with ⟨hzero, hnone⟩ | ⟨u, hu, hpub, hseq⟩
      · refine .inl ⟨hzero, fun u hu hpub => ?_⟩
        rcases (published_publish u).mp hpub with rfl | hpub
        · exact hne hu.symm
        · exact hnone u hu hpub
      · exact .inr ⟨u, hu, (published_publish u).mpr (.inr hpub), hseq⟩
  · exact fun u hu => (published_publish u).mpr (.inr (h.released u hu))
  · exact fun head tail hat => (published_publish head).mpr (.inr (h.printing head tail hat))

theorem Inv.release (h : r.Inv) {head tail : Nat} (hat : r.flusher = .releasing head tail) :
    Inv { r with
      slots := Function.update r.slots (head % ringCapacity)
        { r.slot head with seq := (head + 1) * 2 + 1 }
      flusher := .testing (head + 1) tail } := by
  have hpub := h.printing head tail (.inr hat)
  have hreleased : r.released = head := by rw [Ring.released, hat]
  constructor
  · exact h.drawn
  · intro i
    rcases eq_or_ne i (head % ringCapacity) with rfl | hne
    · exact .inr ⟨head, rfl, hpub, .inr ⟨by simp only [Function.update_self], Nat.lt_succ_self head⟩⟩
    · have hslot := h.slots i
      rw [SlotIs, hreleased] at hslot
      simp only [SlotIs, Function.update_of_ne hne, Ring.released]
      rcases hslot with hzero | ⟨u, hu, hpub', ⟨hseq, hle⟩ | ⟨hseq, hlt⟩⟩
      · exact .inl hzero
      · have hnot : u ≠ head := fun heq => hne (by rw [← hu, heq])
        exact .inr ⟨u, hu, hpub', .inl ⟨hseq, by omega⟩⟩
      · exact .inr ⟨u, hu, hpub', .inr ⟨hseq, by omega⟩⟩
  · intro u hu
    rcases eq_or_ne u head with rfl | hne
    · exact hpub
    · have hlt : u < r.released := by
        have hu' : u < head + 1 := hu
        omega
      exact h.released u hlt
  · exact fun _ _ hprinting => by rcases hprinting with h' | h' <;> cases h'

theorem Inv.flushes (h : r.Inv) (hflush : Flushes r r') : r'.Inv := by
  have hidle {f : Flusher} (hnot : ∀ head tail, f ≠ .printing head tail ∧ f ≠ .releasing head tail)
      (head tail : Nat) (hat : f = .printing head tail ∨ f = .releasing head tail) :
      r.Published head := by
    rcases hat with hat | hat
    · exact absurd hat (hnot head tail).1
    · exact absurd hat (hnot head tail).2
  cases hflush with
  | start hat => exact h.congr rfl rfl rfl (by simp [Ring.released, hat]) (hidle (by simp))
  | stop hat => exact h.congr rfl rfl rfl (by simp [Ring.released, hat]) (hidle (by simp))
  | found hat hseq =>
      refine h.congr rfl rfl rfl (by simp [Ring.released, hat]) ?_
      rintro head tail (⟨⟨⟩⟩ | ⟨⟨⟩⟩)
      exact h.published_of_seq hseq
  | pause hat => exact h.congr rfl rfl rfl (by simp [Ring.released, hat]) (hidle (by simp))
  | print hat =>
      refine h.congr rfl rfl rfl (by simp [Ring.released, hat]) ?_
      rintro head tail (⟨⟨⟩⟩ | ⟨⟨⟩⟩)
      exact h.printing _ _ (.inl hat)
  | release hat => exact h.release hat
  | store hat => exact h.congr rfl rfl rfl (by simp [Ring.released, hat]) (hidle (by simp))
  | keep hat hlt hseq => exact h.congr rfl rfl rfl (by simp [Ring.released, hat]) (hidle (by simp))
  | skip hat hlt hseq => exact h.congr rfl rfl rfl (by simp [Ring.released, hat]) (hidle (by simp))
  | finish hat hend => exact h.congr rfl rfl rfl (by simp [Ring.released, hat]) (hidle (by simp))

theorem Inv.takes (h : r.Inv) (htake : Takes r r') : r'.Inv := by
  cases htake with
  | aside hslots hcalls hwrite hread hflusher _ =>
      refine h.congr hslots hcalls hwrite (by rw [Ring.released, Ring.released, hflusher, hread]) ?_
      rw [hflusher]
      exact h.printing
  | claim m entered =>
      have hfresh : r.calls r.writeSeq = none := by
        by_contra hdrawn
        exact Nat.lt_irrefl _ ((h.drawn r.writeSeq).mp hdrawn)
      refine h.of_published (fun _ => rfl) (published_claim hfresh) (fun u => ?_) rfl rfl
      simp only
      rcases eq_or_ne u r.writeSeq with rfl | hne
      · simp
      · rw [Function.update_of_ne hne, h.drawn]
        omega
  | wait hcall hphase =>
      refine h.of_published (fun _ => rfl) ?_ (h.drawn_update hcall) rfl rfl
      apply published_move hcall (by simp)
      rcases hphase with rfl | ⟨spins, rfl⟩ <;> simp
  | fill hcall =>
      exact h.of_published (seq_update rfl) (published_move hcall (by simp) (by simp))
        (h.drawn_update hcall) rfl rfl
  | publish hcall => exact h.publish hcall
  | flush hflush => exact h.flushes (flushes_of_flushStep hflush)

theorem inv_started (threshold : Level) : (started threshold).Inv := by
  have hnone (u : Nat) : ¬ (started threshold).Published u := by
    rintro ⟨m, hcall⟩
    cases hcall
  constructor
  · intro u
    simp [started, init]
  · exact fun i => .inl ⟨rfl, fun u _ => hnone u⟩
  · intro u hu
    cases hu
  · rintro head tail (h | h) <;> cases h

theorem inv_run {threshold : Level} {as : List Action}
    (h : run as (started threshold) = some r) : r.Inv :=
  run_keeps (fun _ _ _ hs hstep => Inv.takes hs (takes_of_step hstep)) (inv_started threshold) h

/-- The record of `u` has been overwritten before the flush thread has come to it. -/
structure Overwritten (u : Nat) (r : Ring) : Prop where
  published : r.Published u
  lost : (r.slot u).seq ≠ (u + 1) * 2
  ahead : r.released ≤ u
  unread : ∀ tail, r.flusher ≠ .printing u tail ∧ r.flusher ≠ .releasing u tail

/-- The flush thread is in its loop. -/
def InLoop (r : Ring) : Prop :=
  r.running = true ∧ (∀ head tail, r.flusher ≠ .draining head tail) ∧ r.flusher ≠ .finished

/-- Nothing from `u` on has been printed since. -/
structure Blocked (u : Nat) (printed : List (Nat × Fields)) (r : Ring) : Prop where
  overwritten : r.Overwritten u
  inLoop : r.InLoop
  below : ∃ more, r.printed = printed ++ more ∧ ∀ line ∈ more, line.1 < u

section Blocked

variable {u : Nat} {printed : List (Nat × Fields)}

theorem Overwritten.congr (h : r.Overwritten u) (hpub : r.Published u → r'.Published u)
    (hseq : (r'.slot u).seq = (r.slot u).seq ∨ (r'.slot u).seq ≠ (u + 1) * 2)
    (hahead : r'.released ≤ u)
    (hunread : ∀ tail, r'.flusher ≠ .printing u tail ∧ r'.flusher ≠ .releasing u tail) :
    r'.Overwritten u := by
  refine ⟨hpub h.published, ?_, hahead, hunread⟩
  rcases hseq with hseq | hseq
  · rw [hseq]
    exact h.lost
  · exact hseq

/-- A step of a call. -/
theorem Overwritten.aside (h : r.Overwritten u) (hpub : r.Published u → r'.Published u)
    (hseq : (r'.slot u).seq = (r.slot u).seq ∨ (r'.slot u).seq ≠ (u + 1) * 2)
    (hread : r'.readSeq = r.readSeq) (hflusher : r'.flusher = r.flusher) : r'.Overwritten u := by
  refine h.congr hpub hseq ?_ ?_
  · rw [released, hflusher, hread]
    exact h.ahead
  · rw [hflusher]
    exact h.unread

/-- The next record is not printed where it is `u`, nor is any later one. -/
theorem Blocked.flushes (h : r.Blocked u printed) (hflush : Flushes r r') :
    r'.Blocked u printed := by
  obtain ⟨hover, ⟨hrun, hloop, hgoes⟩, more, hmore, hbelow⟩ := h
  have hahead := hover.ahead
  cases hflush with
  | start hat =>
      rw [released, hat] at hahead
      exact ⟨hover.congr id (.inl rfl) hahead (by simp), ⟨hrun, by simp, by simp⟩, more, hmore, hbelow⟩
  | stop hat hstopped =>
      rw [hrun] at hstopped
      cases hstopped
  | found hat hseq =>
      rw [released, hat] at hahead
      have hne : u ≠ _ := fun heq => hover.lost (heq ▸ hseq)
      refine ⟨hover.congr id (.inl rfl) hahead ?_, ⟨hrun, by simp, by simp⟩, more, hmore, hbelow⟩
      simp [Ne.symm hne]
  | pause hat =>
      rw [released, hat] at hahead
      exact ⟨hover.congr id (.inl rfl) hahead (by simp), ⟨hrun, by simp, by simp⟩, more, hmore, hbelow⟩
  | @print head tail hat =>
      rw [released, hat] at hahead
      have hne : head ≠ u := fun heq => (hover.unread tail).1 (heq ▸ hat)
      refine ⟨hover.congr id (.inl rfl) hahead (by simp [hne]), ⟨hrun, by simp, by simp⟩,
        more ++ [(head, (r.slot head).fields)], ?_, ?_⟩
      · simp only [hmore, List.append_assoc]
      · intro line hline
        rcases List.mem_append.mp hline with hline | hline
        · exact hbelow line hline
        · obtain rfl := List.mem_singleton.mp hline
          exact lt_of_le_of_ne hahead hne
  | @release head tail hat =>
      rw [released, hat] at hahead
      have hne : head ≠ u := fun heq => (hover.unread tail).2 (heq ▸ hat)
      refine ⟨hover.congr id ?_ (lt_of_le_of_ne hahead hne) (by simp), ⟨hrun, by simp, by simp⟩,
        more, hmore, hbelow⟩
      rcases eq_or_ne (u % ringCapacity) (head % ringCapacity) with heq | hslot
      · right
        rw [slot, heq]
        simp only [Function.update_self]
        omega
      · left
        simp only [slot, Function.update_of_ne hslot]
  | store hat =>
      rw [released, hat] at hahead
      exact ⟨hover.congr id (.inl rfl) hahead (by simp), ⟨hrun, by simp, by simp⟩, more, hmore, hbelow⟩
  | keep hat => exact absurd hat (hloop _ _)
  | skip hat => exact absurd hat (hloop _ _)
  | finish hat => exact absurd hat (hloop _ _)

theorem Blocked.of_flusher (h : r.Blocked u printed) (hover : r'.Overwritten u)
    (hrunning : r'.running = r.running) (hflusher : r'.flusher = r.flusher)
    (hprinted : r'.printed = r.printed) : r'.Blocked u printed := by
  obtain ⟨_, ⟨hrun, hloop, hgoes⟩, hbelow⟩ := h
  refine ⟨hover, ⟨hrunning.trans hrun, ?_, ?_⟩, ?_⟩
  · rw [hflusher]
    exact hloop
  · rw [hflusher]
    exact hgoes
  · rw [hprinted]
    exact hbelow

theorem Blocked.step {a : Action} (hinv : r.Inv) (ha : a ≠ .shutdown) (h : r.Blocked u printed)
    (hstep : step a r = some r') : r'.Blocked u printed := by
  have hrunning := (frames_of_step hstep).running ha
  have hover := h.overwritten
  obtain ⟨m, hcall⟩ := hover.published
  have hkeep {seq : Nat} {c : Call} (hne : u ≠ seq) :
      ∃ m, Function.update r.calls seq (some c) u = some ⟨m, .published⟩ := by
    rw [Function.update_of_ne hne]
    exact ⟨m, hcall⟩
  have hother {seq : Nat} {m' : Message} {phase : Phase} (hphase : phase ≠ .published)
      (hcall' : r.calls seq = some ⟨m', phase⟩) : u ≠ seq := by
    rintro rfl
    exact not_published_of_phase hcall' hphase hover.published
  cases takes_of_step hstep with
  | aside hslots hcalls hwrite hread hflusher hprinted =>
      refine h.of_flusher (hover.aside ?_ (.inl ?_) hread hflusher) hrunning hflusher hprinted
      · exact fun hpub => by rwa [Published, hcalls]
      · rw [slot, slot, hslots]
  | claim m' entered =>
      have hdrawn := hinv.published_lt hover.published
      exact h.of_flusher (hover.aside (fun _ => hkeep hdrawn.ne) (.inl rfl) rfl rfl) hrunning rfl rfl
  | wait hcall' hphase =>
      exact h.of_flusher (hover.aside (fun _ => hkeep (hother (by simp) hcall')) (.inl rfl) rfl rfl)
        hrunning rfl rfl
  | fill hcall' =>
      refine h.of_flusher (hover.aside (fun _ => hkeep (hother (by simp) hcall')) (.inl ?_) rfl rfl)
        hrunning rfl rfl
      apply seq_update
      rfl
  | @publish seq m' hcall' =>
      have hne := hother (by simp) hcall'
      refine h.of_flusher (hover.aside (fun _ => hkeep hne) ?_ rfl rfl) hrunning rfl rfl
      rcases eq_or_ne (u % ringCapacity) (seq % ringCapacity) with heq | hslot
      · right
        rw [slot, heq]
        simp only [Function.update_self]
        omega
      · left
        simp only [slot, Function.update_of_ne hslot]
  | flush hflush => exact h.flushes (flushes_of_flushStep hflush)

end Blocked

/-- The flush thread leaves its loop only after `shutdown`. -/
def Looping (r : Ring) : Prop := r.running = true → r.InLoop

theorem Looping.step {a : Action} (h : r.Looping) (hstep : step a r = some r') : r'.Looping := by
  intro hrun
  by_cases ha : a = .shutdown
  · subst ha
    cases hstep
    cases hrun
  have hrun' : r.running = true := ((frames_of_step hstep).running ha).symm.trans hrun
  obtain ⟨_, hloop, hgoes⟩ := h hrun'
  refine ⟨hrun, ?_⟩
  cases takes_of_step hstep with
  | aside _ _ _ _ hflusher =>
      rw [hflusher]
      exact ⟨hloop, hgoes⟩
  | claim | wait | fill | publish => exact ⟨hloop, hgoes⟩
  | flush hflush =>
      cases flushes_of_flushStep hflush with
      | start | found | pause | print | release | store => simp
      | stop _ hstopped =>
          rw [hrun'] at hstopped
          cases hstopped
      | keep hat | skip hat | finish hat => exact absurd hat (hloop _ _)

theorem looping_run {threshold : Level} {as : List Action}
    (h : run as (started threshold) = some r) : r.Looping := by
  apply run_keeps (fun _ _ _ hs hstep => Looping.step hs hstep) ?_ h
  exact fun _ => ⟨rfl, by simp [started, init], by simp [started, init]⟩

/-- An unread record is overwritten where a later call publishes into its slot. -/
theorem overwritten_of_publish {seq u : Nat} {m : Message}
    (hcall : r.calls seq = some ⟨m, .publishing⟩) (hpub : r.Published u) (hahead : r.released ≤ u)
    (hunread : ∀ tail, r.flusher ≠ .printing u tail ∧ r.flusher ≠ .releasing u tail)
    (hslot : u % ringCapacity = seq % ringCapacity) :
    Overwritten u { r with
      slots := Function.update r.slots (seq % ringCapacity)
        { r.slot seq with seq := (seq + 1) * 2 }
      calls := Function.update r.calls seq (some ⟨m, .published⟩) } := by
  have hne : u ≠ seq := by
    rintro rfl
    exact not_published_of_phase hcall (by simp) hpub
  refine ⟨(published_publish u).mpr (.inr hpub), ?_, hahead, hunread⟩
  rw [slot, hslot]
  simp only [Function.update_self]
  omega

theorem Overwritten.blocks {threshold : Level} {as bs : List Action} {u : Nat}
    (hover : r.Overwritten u) (h : run as (started threshold) = some r) (hrunning : r.running = true)
    (hbs : .shutdown ∉ bs) (hrest : run bs r = some r') : r'.Blocked u r.printed := by
  have hblocked : r.Blocked u r.printed := ⟨hover, looping_run h hrunning, [], by simp, by simp⟩
  have hkept : r'.Inv ∧ r'.Blocked u r.printed :=
    run_keeps_along (I := fun s => s.Inv ∧ s.Blocked u r.printed)
      (fun a s s' hs ha hstep =>
        ⟨hs.1.takes (takes_of_step hstep), hs.2.step hs.1 ha hstep⟩)
      ⟨inv_run h, hblocked⟩
      (along_of_forall (fun a ha => ne_of_mem_of_not_mem ha hbs) r) hrest
  exact hkept.2

/-- One call of `emit`, from the test of the level to the filled record. -/
def writing (m : Message) (seq : Nat) : List Action :=
  [.emit m, .enter 0, .claim 0, .wait seq, .fill seq]

/-- A call that no other thread comes between, where its slot passes the wait. -/
theorem run_writing {m : Message} (hlevel : r.threshold.toNat ≤ m.level.toNat)
    (hrunning : r.running = true) (hadmitted : r.admitted = []) (hentered : r.entered = [])
    (hfree : slotFree (r.slot r.writeSeq).seq r.writeSeq = true) :
    run (writing m r.writeSeq) r = some { r with
      writeSeq := r.writeSeq + 1
      slots := Function.update r.slots (r.writeSeq % ringCapacity)
        { r.slot r.writeSeq with fields := m.fields }
      calls := Function.update r.calls r.writeSeq (some ⟨m, .publishing⟩) } := by
  have hemit : ¬ m.level.toNat < r.threshold.toNat := Nat.not_lt.mpr hlevel
  rw [slot] at hfree
  simp [run, writing, Interleaving.run, step, hemit, hadmitted, hentered, hrunning, setPhase,
    slot, hfree, setSlot]

/-- The threads have drawn `n` tickets, each published, and nothing has been printed. -/
structure Unread (n : Nat) (r : Ring) : Prop where
  threshold : r.threshold = .info
  running : r.running = true
  admitted : r.admitted = []
  entered : r.entered = []
  writeSeq : r.writeSeq = n
  readSeq : r.readSeq = 0
  flusher : r.flusher = .top
  printed : r.printed = []
  published : ∀ u < n, r.Published u
  slots : ∀ i, ∃ k ≤ n, (r.slots i).seq = k * 2

theorem Unread.writing {n : Nat} (h : r.Unread n) {m : Message} (hm : m.level = .info) :
    run (Ring.writing m n) r = some { r with
      writeSeq := n + 1
      slots := Function.update r.slots (n % ringCapacity) { r.slot n with fields := m.fields }
      calls := Function.update r.calls n (some ⟨m, .publishing⟩) } := by
  have hfree : slotFree (r.slot r.writeSeq).seq r.writeSeq = true := by
    obtain ⟨k, hk, hseq⟩ := h.slots (r.writeSeq % ringCapacity)
    rw [slot, hseq, h.writeSeq, slotFree, Bool.and_eq_true, beq_iff_eq, decide_eq_true_eq]
    omega
  have hrun := run_writing (m := m) (by rw [h.threshold, hm]) h.running h.admitted h.entered hfree
  rwa [h.writeSeq] at hrun

theorem step_publish {seq : Nat} {m : Message} (hcall : r.calls seq = some ⟨m, .publishing⟩) :
    step (.publish seq) r = some { r with
      slots := Function.update r.slots (seq % ringCapacity)
        { r.slot seq with seq := (seq + 1) * 2 }
      calls := Function.update r.calls seq (some ⟨m, .published⟩) } := by
  simp [step, hcall, setSlot, setPhase]

theorem Unread.publishing {n : Nat} (h : r.Unread n) {m : Message} (hm : m.level = .info) :
    ∃ r', run (Ring.writing m n ++ [.publish n]) r = some r' ∧ r'.Unread (n + 1) := by
  refine ⟨_, run_append_eq_some.mpr ⟨_, h.writing hm, run_cons_eq_some.mpr
    ⟨_, step_publish (m := m) (by simp only [Function.update_self]), rfl⟩⟩, ?_⟩
  refine ⟨h.threshold, h.running, h.admitted, h.entered, rfl, h.readSeq, h.flusher, h.printed,
    fun u hu => ?_, fun i => ?_⟩
  · rcases eq_or_ne u n with rfl | hne
    · exact ⟨m, by simp only [Function.update_self]⟩
    · obtain ⟨m', hcall⟩ := h.published u (by omega)
      exact ⟨m', by simp only [Function.update_of_ne hne, hcall]⟩
  · rcases eq_or_ne i (n % ringCapacity) with rfl | hne
    · exact ⟨n + 1, le_rfl, by simp only [Function.update_self]⟩
    · obtain ⟨k, hk, hseq⟩ := h.slots i
      exact ⟨k, by omega, by simp only [Function.update_of_ne hne, hseq]⟩

theorem exists_unread {m : Message} (hm : m.level = .info) (n : Nat) :
    ∃ as r, run as (started .info) = some r ∧ r.Unread n := by
  induction n with
  | zero =>
      refine ⟨[], started .info, rfl, ⟨rfl, rfl, rfl, rfl, rfl, rfl, rfl, rfl, ?_, ?_⟩⟩
      · simp
      · exact fun i => ⟨0, le_rfl, rfl⟩
  | succ n ih =>
      obtain ⟨as, r, hrun, hr⟩ := ih
      obtain ⟨r', hrun', hr'⟩ := hr.publishing hm
      exact ⟨_, r', run_append_eq_some.mpr ⟨r, hrun, hrun'⟩, hr'⟩

/-- A ring of unread records, and a call that is about to publish one more. -/
theorem exists_lapping {m : Message} (hm : m.level = .info) :
    ∃ as r, run as (started .info) = some r ∧ r.running = true ∧ r.Published 0 ∧ r.released = 0 ∧
      r.flusher = .top ∧ r.printed = [] ∧ r.calls ringCapacity = some ⟨m, .publishing⟩ := by
  obtain ⟨as, full, hfull, hunread⟩ := exists_unread hm ringCapacity
  refine ⟨_, _, run_append_eq_some.mpr ⟨full, hfull, hunread.writing hm⟩, hunread.running, ?_, ?_,
    hunread.flusher, hunread.printed, by simp only [Function.update_self]⟩
  · obtain ⟨m', hcall⟩ := hunread.published 0 (by simp)
    exact ⟨m', by simp [hcall]⟩
  · simp [released, hunread.flusher, hunread.readSeq]

end Ring

end Log

end PicoCpu
