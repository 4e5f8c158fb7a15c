import PicoCpu.LoggerRuns

/-!
What the logger prints where no ticket is drawn a whole ring ahead of the flush thread: no record
is overwritten unread, the records come out whole and in the order of their tickets, and once the
flush thread has been stopped after the last call it ends with all of them printed.
-/

namespace PicoCpu

namespace Log

namespace Ring

open Interleaving

variable {r r' : Ring}

/-! ### The lines of the tickets -/

/-- What the ticket `u` is to print. -/
def line (r : Ring) (u : Nat) : Option (Nat × Fields) :=
  (r.calls u).map fun c => (u, c.message.fields)

/-- The lines of the first `n` tickets, in their order. -/
def lines (r : Ring) (n : Nat) : List (Nat × Fields) := (List.range n).filterMap r.line

theorem lines_succ {n : Nat} {c : Call} (hcall : r.calls n = some c) :
    r.lines (n + 1) = r.lines n ++ [(n, c.message.fields)] := by
  simp [lines, List.range_succ, line, hcall]

theorem lines_congr {n : Nat} (h : ∀ u < n, r'.line u = r.line u) : r'.lines n = r.lines n := by
  apply List.filterMap_congr
  intro u hu
  exact h u (List.mem_range.mp hu)

theorem lines_sublist {m n : Nat} (h : m ≤ n) : (r.lines m).Sublist (r.lines n) := by
  apply List.Sublist.filterMap
  exact (List.range_sublist).mpr h

theorem line_update {seq : Nat} {m : Message} {phase phase' : Phase}
    (hcall : r.calls seq = some ⟨m, phase⟩) (slots : Nat → Record) (u : Nat) :
    line { r with slots, calls := Function.update r.calls seq (some ⟨m, phase'⟩) } u =
      r.line u := by
  rcases eq_or_ne u seq with rfl | hne
  · simp [line, hcall]
  · simp [line, Function.update_of_ne hne]

theorem line_claim {c : Call} {entered : List Message} {u n : Nat} (hu : u < r.writeSeq) :
    line { r with
      entered, writeSeq := n
      calls := Function.update r.calls r.writeSeq (some c) } u = r.line u := by
  simp [line, Function.update_of_ne hu.ne]

/-! ### The records that are held -/

/-- No ticket is drawn a whole ring ahead of the flush thread. -/
def Unlapped : Action → Ring → Prop
  | .claim _, r => r.writeSeq < r.released + ringCapacity
  | _, _ => True

/-- The unread records are in their slots, as their calls have filled them. -/
structure Held (r : Ring) : Prop where
  window : r.writeSeq ≤ r.released + ringCapacity
  held : ∀ u m, r.released ≤ u → r.calls u = some ⟨m, .published⟩ →
    r.slot u = ⟨(u + 1) * 2, m.fields⟩
  filled : ∀ u m, r.calls u = some ⟨m, .publishing⟩ → (r.slot u).fields = m.fields

theorem Inv.released_le (h : r.Inv) : r.released ≤ r.writeSeq := by
  by_contra hlt
  exact Nat.lt_irrefl _ (h.published_lt (h.released _ (Nat.not_le.mp hlt)))

theorem Inv.drawn_lt (h : r.Inv) {seq : Nat} {c : Call} (hcall : r.calls seq = some c) :
    seq < r.writeSeq := (h.drawn seq).mp (by simp [hcall])

/-- A ticket that is not published is not released either. -/
theorem Inv.released_le_of_phase (h : r.Inv) {seq : Nat} {m : Message} {phase : Phase}
    (hcall : r.calls seq = some ⟨m, phase⟩) (hphase : phase ≠ .published) : r.released ≤ seq := by
  by_contra hlt
  exact not_published_of_phase hcall hphase (h.released seq (Nat.not_le.mp hlt))

/-- Within the window every ticket has its own slot. -/
theorem Held.slot_ne (h : r.Held) {u v : Nat} (hne : u ≠ v) (hu : r.released ≤ u)
    (hu' : u < r.writeSeq) (hv : r.released ≤ v) (hv' : v < r.writeSeq) :
    u % ringCapacity ≠ v % ringCapacity := by
  have hwindow := h.window
  simp only [ringCapacity] at hwindow ⊢
  omega

/-- The calls that have filled their slots have not changed. -/
theorem Held.congr (h : r.Held) (hslots : r'.slots = r.slots) (hreleased : r'.released = r.released)
    (hwindow : r'.writeSeq ≤ r.released + ringCapacity)
    (hcalls : ∀ u m phase, phase = .publishing ∨ phase = .published →
      r'.calls u = some ⟨m, phase⟩ → r.calls u = some ⟨m, phase⟩) : r'.Held := by
  constructor
  · rwa [hreleased]
  · intro u m hle hcall
    rw [slot, hslots]
    exact h.held u m (hreleased ▸ hle) (hcalls u m _ (.inr rfl) hcall)
  · intro u m hcall
    rw [slot, hslots]
    exact h.filled u m (hcalls u m _ (.inl rfl) hcall)

/-- A call that has not filled its slot. -/
theorem calls_of_update {seq u : Nat} {m m' : Message} {phase phase' : Phase}
    (hnew : phase ≠ .publishing ∧ phase ≠ .published)
    (hphase : phase' = .publishing ∨ phase' = .published)
    (hcall : Function.update r.calls seq (some ⟨m, phase⟩) u = some ⟨m', phase'⟩) :
    r.calls u = some ⟨m', phase'⟩ := by
  rcases eq_or_ne u seq with rfl | hne
  · simp only [Function.update_self, Option.some.injEq, Call.mk.injEq] at hcall
    obtain ⟨_, rfl⟩ := hcall
    simp [hnew] at hphase
  · rwa [Function.update_of_ne hne] at hcall

/-- A call writes into its slot and moves on. -/
theorem Held.write (h : r.Held) (hinv : r.Inv) {seq : Nat} {m : Message} {phase phase' : Phase}
    {new : Record} (hcall : r.calls seq = some ⟨m, phase⟩) (hphase : phase ≠ .published)
    (hpublished : phase' = .published → new = ⟨(seq + 1) * 2, m.fields⟩)
    (hfilled : phase' = .publishing → new.fields = m.fields) :
    Held { r with
      slots := Function.update r.slots (seq % ringCapacity) new
      calls := Function.update r.calls seq (some ⟨m, phase'⟩) } := by
  have hahead := hinv.released_le_of_phase hcall hphase
  have hdrawn := hinv.drawn_lt hcall
  constructor
  · exact h.window
  · intro u m' hle hcall'
    rcases eq_or_ne u seq with rfl | hne
    · simp only [Function.update_self, Option.some.injEq, Call.mk.injEq] at hcall'
      obtain ⟨rfl, hnew⟩ := hcall'
      simp only [slot, Function.update_self]
      exact hpublished hnew
    · simp only [Function.update_of_ne hne] at hcall'
      have hslot := h.slot_ne hne hle (hinv.drawn_lt hcall') hahead hdrawn
      simp only [slot, Function.update_of_ne hslot]
      exact h.held u m' hle hcall'
  · intro u m' hcall'
    rcases eq_or_ne u seq with rfl | hne
    · simp only [Function.update_self, Option.some.injEq, Call.mk.injEq] at hcall'
      obtain ⟨rfl, hnew⟩ := hcall'
      simp only [slot, Function.update_self]
      exact hfilled hnew
    · simp only [Function.update_of_ne hne] at hcall'
      have hle := hinv.released_le_of_phase hcall' (by simp)
      have hslot := h.slot_ne hne hle (hinv.drawn_lt hcall') hahead hdrawn
      simp only [slot, Function.update_of_ne hslot]
      exact h.filled u m' hcall'

theorem Held.release (h : r.Held) (hinv : r.Inv) {head tail : Nat}
    (hat : r.flusher = .releasing head tail) :
    Held { r with
      slots := Function.update r.slots (head % ringCapacity)
        { r.slot head with seq := (head + 1) * 2 + 1 }
      flusher := .testing (head + 1) tail } := by
  have hreleased : r.released = head := by rw [released, hat]
  have hpub := hinv.printing head tail (.inr hat)
  have hwindow := h.window
  rw [hreleased] at hwindow
  have hother {u : Nat} {c : Call} (hlt : head < u) (hcall : r.calls u = some c) :
      u % ringCapacity ≠ head % ringCapacity :=
    h.slot_ne hlt.ne' (by omega) (hinv.drawn_lt hcall) hreleased.le (hinv.published_lt hpub)
  constructor
  · simp only [released]
    omega
  · intro u m hlt hcall
    simp only [slot, Function.update_of_ne (hother hlt hcall)]
    exact h.held u m (hreleased.le.trans (Nat.le_of_lt hlt)) hcall
  · intro u m hcall
    have hle := hinv.released_le_of_phase hcall (by simp)
    have hne : head ≠ u := by
      rintro rfl
      exact not_published_of_phase hcall (by simp) hpub
    have hlt : head < u := lt_of_le_of_ne (hreleased ▸ hle) hne
    simp only [slot, Function.update_of_ne (hother hlt hcall)]
    exact h.filled u m hcall

theorem Held.flushes (h : r.Held) (hinv : r.Inv) (hflush : Flushes r r') : r'.Held := by
  cases hflush with
  | start hat | stop hat | found hat | pause hat | print hat | store hat | keep hat | skip hat
    | finish hat =>
      exact h.congr rfl (by simp only [released, hat]) h.window (fun _ _ _ _ hcall => hcall)
  | release hat => exact h.release hinv hat

theorem Unlapped.window {a : Action} (hok : Unlapped a r) (h : r.Held) (hstep : step a r = some r') :
    r'.writeSeq ≤ r.released + ringCapacity := by
  by_cases hclaim : ∃ k, a = .claim k
  · obtain ⟨k, rfl⟩ := hclaim
    obtain ⟨m, _, rfl⟩ := Option.map_eq_some_iff.mp hstep
    exact hok
  · rw [(frames_of_step hstep).writeSeq fun k hk => hclaim ⟨k, hk⟩]
    exact h.window

theorem Held.step {a : Action} (h : r.Held) (hinv : r.Inv) (hok : Unlapped a r)
    (hstep : step a r = some r') : r'.Held := by
  have hwindow := hok.window h hstep
  cases takes_of_step hstep with
  | aside hslots hcalls hwrite hread hflusher =>
      apply h.congr hslots (by simp only [released, hflusher, hread]) hwindow
      simp only [hcalls]
      exact fun _ _ _ _ hcall => hcall
  | claim m entered =>
      exact h.congr rfl rfl hwindow fun u m' phase' hphase hcall =>
        calls_of_update (by simp) hphase hcall
  | @wait seq spins m phase hcall hphase =>
      have hnew : phase ≠ .publishing ∧ phase ≠ .published := by
        rcases hphase with rfl | ⟨_, rfl⟩
        · simp
        · simp
      exact h.congr rfl rfl hwindow fun u m' phase' hphase' hcall' =>
        calls_of_update hnew hphase' hcall'
  | fill hcall => exact h.write hinv hcall (by simp) (by simp) (fun _ => rfl)
  | publish hcall =>
      apply h.write hinv hcall (by simp) (fun _ => ?_) (by simp)
      simp only [h.filled _ _ hcall]
  | flush hflush => exact h.flushes hinv (flushes_of_flushStep hflush)

/-! ### What has been printed -/

/-- In its loop the flush thread has printed the lines of the tickets before its own; in the drain
it may have left some out. -/
def InOrder (r : Ring) : Prop :=
  match r.flusher with
  | .top => r.printed = r.lines r.readSeq
  | .testing head _ | .printing head _ | .storing head => r.printed = r.lines head
  | .releasing head _ => r.printed = r.lines (head + 1)
  | .draining head tail =>
    r.readSeq ≤ head ∧ head ≤ r.writeSeq ∧ tail ≤ r.writeSeq ∧ r.printed.Sublist (r.lines head)
  | .finished => r.printed.Sublist (r.lines r.writeSeq)

/-- A step of a call. -/
theorem InOrder.congr (h : r.InOrder) (hinv : r.Inv) (hflusher : r'.flusher = r.flusher)
    (hread : r'.readSeq = r.readSeq) (hwrite : r.writeSeq ≤ r'.writeSeq)
    (hprinted : r'.printed = r.printed) (hline : ∀ u < r.writeSeq, r'.line u = r.line u) :
    r'.InOrder := by
  have hlines {n : Nat} (hn : n ≤ r.writeSeq) : r'.lines n = r.lines n :=
    lines_congr fun u hu => hline u (hu.trans_le hn)
  have hreleased := hinv.released_le
  unfold InOrder at h ⊢
  rw [hflusher, hprinted, hread]
  cases hat : r.flusher with
  | top =>
      simp only [hat, released] at h hreleased ⊢
      rw [hlines hreleased, h]
  | testing head tail | printing head tail | storing head =>
      simp only [hat, released] at h hreleased ⊢
      rw [hlines hreleased, h]
  | releasing head tail =>
      have hlt := hinv.published_lt (hinv.printing head tail (.inr hat))
      simp only [hat] at h ⊢
      rw [hlines hlt, h]
  | draining head tail =>
      simp only [hat] at h ⊢
      obtain ⟨hle, hhead, htail, hsub⟩ := h
      rw [hlines hhead]
      exact ⟨hle, hhead.trans hwrite, htail.trans hwrite, hsub⟩
  | finished =>
      simp only [hat] at h ⊢
      rw [← hlines le_rfl] at h
      exact h.trans (lines_sublist hwrite)

/-- The record that the flush thread prints is the line of its ticket. -/
theorem Held.lines_succ (h : r.Held) {head : Nat} (hle : r.released ≤ head)
    (hpub : r.Published head) :
    r.lines (head + 1) = r.lines head ++ [(head, (r.slot head).fields)] := by
  obtain ⟨m, hcall⟩ := hpub
  rw [Ring.lines_succ hcall, h.held head m hle hcall]

theorem InOrder.flushes (h : r.InOrder) (hinv : r.Inv) (hheld : r.Held) (hflush : Flushes r r') :
    r'.InOrder := by
  have hreleased := hinv.released_le
  cases hflush with
  | start hat | found hat | pause hat =>
      simp only [InOrder, hat] at h
      exact h
  | stop hat =>
      simp only [InOrder, hat] at h
      rw [released, hat] at hreleased
      exact ⟨le_rfl, hreleased, le_rfl, h ▸ List.Sublist.refl _⟩
  | @print head tail hat =>
      simp only [InOrder, hat] at h
      have hle : r.released ≤ head := by rw [released, hat]
      have hlines := hheld.lines_succ hle (hinv.printing head tail (.inl hat))
      simp only [InOrder, h]
      exact hlines.symm
  | release hat | store hat =>
      simp only [InOrder, hat] at h
      exact h
  | @keep head tail hat hlt hseq =>
      simp only [InOrder, hat] at h
      obtain ⟨hle, hhead, htail, hsub⟩ := h
      have hfrom : r.released ≤ head := by rwa [released, hat]
      have hlines := hheld.lines_succ hfrom (hinv.published_of_seq hseq)
      refine ⟨Nat.le_succ_of_le hle, hlt.trans_le htail, htail, ?_⟩
      refine List.Sublist.trans (hsub.append_right _) ?_
      exact hlines ▸ List.Sublist.refl _
  | @skip head tail hat hlt =>
      simp only [InOrder, hat] at h
      obtain ⟨hle, hhead, htail, hsub⟩ := h
      exact ⟨Nat.le_succ_of_le hle, hlt.trans_le htail, htail,
        hsub.trans (lines_sublist (Nat.le_succ head))⟩
  | finish hat =>
      simp only [InOrder, hat] at h
      exact h.2.2.2.trans (lines_sublist h.2.1)

theorem InOrder.step {a : Action} (h : r.InOrder) (hinv : r.Inv) (hheld : r.Held)
    (hstep : step a r = some r') : r'.InOrder := by
  have hgrows := (frames_of_step hstep).grows
  cases takes_of_step hstep with
  | aside hslots hcalls hwrite hread hflusher hprinted =>
      exact h.congr hinv hflusher hread hgrows hprinted fun u _ => by rw [line, line, hcalls]
  | claim m entered => exact h.congr hinv rfl rfl hgrows rfl fun u hu => line_claim hu
  | wait hcall => exact h.congr hinv rfl rfl hgrows rfl fun u _ => line_update hcall _ u
  | fill hcall => exact h.congr hinv rfl rfl hgrows rfl fun u _ => line_update hcall _ u
  | publish hcall => exact h.congr hinv rfl rfl hgrows rfl fun u _ => line_update hcall _ u
  | flush hflush => exact h.flushes hinv hheld (flushes_of_flushStep hflush)

/-- The three together. -/
structure Ordered (r : Ring) : Prop where
  inv : r.Inv
  held : r.Held
  inOrder : r.InOrder

theorem Ordered.step {a : Action} (h : r.Ordered) (hok : Unlapped a r)
    (hstep : step a r = some r') : r'.Ordered :=
  ⟨h.inv.takes (takes_of_step hstep), h.held.step h.inv hok hstep,
    h.inOrder.step h.inv h.held hstep⟩

theorem ordered_started (threshold : Level) : (started threshold).Ordered := by
  refine ⟨inv_started threshold, ⟨by simp [started, init], ?_, ?_⟩, rfl⟩
  · intro u m _ hcall
    cases hcall
  · intro u m hcall
    cases hcall

theorem ordered_run {threshold : Level} {as : List Action}
    (h : run as (started threshold) = some r)
    (hok : Along step Unlapped as (started threshold)) : r.Ordered :=
  run_keeps_along (fun _ _ _ hs ha hstep => Ordered.step hs ha hstep) (ordered_started threshold)
    hok h

theorem Ordered.sublist (h : r.Ordered) : r.printed.Sublist (r.lines r.writeSeq) := by
  obtain ⟨hinv, _, hinOrder⟩ := h
  have hreleased := hinv.released_le
  unfold InOrder at hinOrder
  cases hat : r.flusher with
  | top | testing head tail | printing head tail | storing head =>
      simp only [hat, released] at hinOrder hreleased
      rw [hinOrder]
      exact lines_sublist hreleased
  | releasing head tail =>
      have hlt := hinv.published_lt (hinv.printing head tail (.inr hat))
      simp only [hat] at hinOrder
      rw [hinOrder]
      exact lines_sublist hlt
  | draining head tail =>
      simp only [hat] at hinOrder
      exact hinOrder.2.2.2.trans (lines_sublist hinOrder.2.1)
  | finished =>
      simp only [hat] at hinOrder
      exact hinOrder

theorem Ordered.prefix_of_inLoop (h : r.Ordered) (hloop : r.InLoop) :
    ∃ n, r.released ≤ n ∧ n ≤ r.writeSeq ∧ r.printed = r.lines n := by
  obtain ⟨hinv, _, hinOrder⟩ := h
  obtain ⟨_, hdraining, hfinished⟩ := hloop
  have hreleased := hinv.released_le
  unfold InOrder at hinOrder
  cases hat : r.flusher with
  | top | testing head tail | printing head tail | storing head =>
      simp only [hat, released] at hinOrder hreleased ⊢
      exact ⟨_, le_rfl, hreleased, hinOrder⟩
  | releasing head tail =>
      have hlt := hinv.published_lt (hinv.printing head tail (.inr hat))
      simp only [hat, released] at hinOrder ⊢
      exact ⟨head + 1, Nat.le_succ head, hlt, hinOrder⟩
  | draining head tail => exact absurd hat (hdraining head tail)
  | finished => exact absurd hat hfinished

/-- Whether the action draws a ticket. -/
def claims : Action → Bool
  | .claim _ => true
  | _ => false

/-- As many tickets as the ring has slots are never too many. -/
theorem unlapped_of_countP {as : List Action} (h : r.writeSeq + as.countP claims ≤ ringCapacity) :
    Along Ring.step Unlapped as r := by
  induction as generalizing r with
  | nil => trivial
  | cons a as ih =>
      by_cases hclaim : ∃ k, a = .claim k
      · obtain ⟨k, rfl⟩ := hclaim
        rw [List.countP_cons_of_pos rfl] at h
        refine ⟨by simp only [Unlapped]; omega, fun s hs => ih ?_⟩
        obtain ⟨m, _, rfl⟩ := Option.map_eq_some_iff.mp hs
        simp only
        omega
      · have hother : ¬ claims a = true := by
          cases a with
          | claim k => exact absurd ⟨k, rfl⟩ hclaim
          | emit | enter | wait | fill | publish | flush | shutdown | setLevel => simp [claims]
        rw [List.countP_cons_of_neg hother] at h
        refine ⟨?_, fun s hs => ih ?_⟩
        · cases a with
          | claim k => exact absurd ⟨k, rfl⟩ hclaim
          | emit | enter | wait | fill | publish | flush | shutdown | setLevel => trivial
        · rwa [(frames_of_step hs).writeSeq fun k hk => hclaim ⟨k, hk⟩]

/-- Two calls that publish in the other order. -/
def twoCalls : List Action :=
  [.emit ⟨.warn, [], 1, [0x61], 0, 0⟩, .emit ⟨.error, [], 2, [0x62], 0, 0⟩, .enter 0, .enter 0,
    .claim 0, .claim 0, .wait 1, .fill 1, .publish 1, .flush, .flush, .wait 0, .fill 0, .publish 0]

/-- The logger has been stopped after the last call, and nothing has been left out since. -/
structure Closing (n : Nat) (all : List (Nat × Fields)) (r : Ring) : Prop where
  ordered : r.Ordered
  stopped : r.running = false
  entered : r.entered = []
  drawn : r.writeSeq = n
  published : ∀ u < n, r.Published u
  lines_eq : r.lines n = all
  draining : ∀ head tail, r.flusher = .draining head tail →
    tail = n ∧ r.printed = r.lines head
  finished : r.flusher = .finished → r.printed = all

theorem Closing.flushes {n : Nat} {all : List (Nat × Fields)} (h : r.Closing n all) (hflush : Flushes r r') :
    (∀ head tail, r'.flusher = .draining head tail →
      tail = n ∧ r'.printed = r'.lines head) ∧
      (r'.flusher = .finished → r'.printed = all) := by
  obtain ⟨⟨hinv, hheld, hinOrder⟩, hstopped, _, hdrawn, hpublished, hall, hdraining, _⟩ := h
  unfold InOrder at hinOrder
  cases hflush with
  | start hat hrunning =>
      rw [hstopped] at hrunning
      cases hrunning
  | stop hat =>
      simp only [hat] at hinOrder
      refine ⟨fun head tail hdrains => ?_, by simp⟩
      cases hdrains
      exact ⟨hdrawn, hinOrder⟩
  | found | pause | print | release | store => simp
  | @keep head tail hat hlt hseq =>
      obtain ⟨rfl, hprinted⟩ := hdraining head tail hat
      simp only [hat] at hinOrder
      have hfrom : r.released ≤ head := by
        rw [released, hat]
        exact hinOrder.1
      refine ⟨fun head' tail' hdrains => ?_, by simp⟩
      cases hdrains
      simp only [hprinted]
      exact ⟨trivial, (hheld.lines_succ hfrom (hpublished head hlt)).symm⟩
  | @skip head tail hat hlt hseq =>
      obtain ⟨rfl, _⟩ := hdraining head tail hat
      simp only [hat] at hinOrder
      have hfrom : r.released ≤ head := by
        rw [released, hat]
        exact hinOrder.1
      obtain ⟨m, hcall⟩ := hpublished head hlt
      exact absurd (by rw [hheld.held head m hfrom hcall]) hseq
  | @finish head tail hat hend =>
      obtain ⟨rfl, hprinted⟩ := hdraining head tail hat
      simp only [hat] at hinOrder
      have hhead : head = tail := Nat.le_antisymm (hdrawn ▸ hinOrder.2.1) hend
      refine ⟨by simp, fun _ => ?_⟩
      rw [hprinted, hhead, hall]

theorem Closing.step {n : Nat} {all : List (Nat × Fields)} {a : Action} (h : r.Closing n all)
    (hstep : step a r = some r') : r'.Closing n all := by
  have hframes := frames_of_step hstep
  obtain ⟨hwrite, hentered⟩ : r'.writeSeq = r.writeSeq ∧ r'.entered = [] := by
    have hclosed := hframes.closed h.stopped
    have hgrows := hframes.grows
    rw [h.entered, List.length_nil] at hclosed
    exact ⟨by omega, List.eq_nil_of_length_eq_zero (by omega)⟩
  have hok : Unlapped a r := by
    cases a with
    | claim k =>
        obtain ⟨m, hk, _⟩ := Option.map_eq_some_iff.mp hstep
        rw [h.entered] at hk
        cases hk
    | emit | enter | wait | fill | publish | flush | shutdown | setLevel => trivial
  have hordered := h.ordered.step hok hstep
  -- every call has published, so none of them moves on
  have hdone {seq : Nat} {m : Message} {phase : Phase} (hphase : phase ≠ .published)
      (hcall : r.calls seq = some ⟨m, phase⟩) : False :=
    not_published_of_phase hcall hphase
      (h.published seq (h.drawn ▸ h.ordered.inv.drawn_lt hcall))
  have hsame (hcalls : r'.calls = r.calls)
      (hflusher : (∀ head tail, r'.flusher = .draining head tail →
        tail = n ∧ r'.printed = r'.lines head) ∧
        (r'.flusher = .finished → r'.printed = all)) : r'.Closing n all := by
    refine ⟨hordered, hframes.stopped h.stopped, hentered, hwrite.trans h.drawn, ?_, ?_,
      hflusher.1, hflusher.2⟩
    · intro u hu
      rw [Published, hcalls]
      exact h.published u hu
    · rw [← h.lines_eq]
      exact lines_congr fun u _ => by rw [line, line, hcalls]
  cases takes_of_step hstep with
  | aside hslots hcalls _ _ hflusher hprinted =>
      apply hsame hcalls
      rw [hflusher, hprinted]
      refine ⟨fun head tail hat => ?_, h.finished⟩
      obtain ⟨htail, hlines⟩ := h.draining head tail hat
      exact ⟨htail, hlines.trans (lines_congr fun u _ => by rw [line, line, hcalls]).symm⟩
  | claim => exact absurd hwrite (Nat.succ_ne_self _)
  | wait hcall => exact (hdone (by simp) hcall).elim
  | fill hcall => exact (hdone (by simp) hcall).elim
  | publish hcall => exact (hdone (by simp) hcall).elim
  | flush hflush =>
      have hflushes := flushes_of_flushStep hflush
      apply hsame ?_ (h.flushes hflushes)
      cases hflushes with
      | start | stop | found | pause | print | release | store | keep | skip | finish => rfl

theorem published_of_phase {u : Nat} (h : (r.calls u).map Call.phase = some .published) :
    r.Published u := by
  obtain ⟨⟨m, phase⟩, hcall, hphase⟩ := Option.map_eq_some_iff.mp h
  cases hphase
  exact ⟨m, hcall⟩

/-- A bound on the steps that the flush thread still takes after `shutdown`. -/
def stepsLeft (r : Ring) : Nat :=
  let drawn := r.writeSeq + r.entered.length
  match r.flusher with
  | .finished => 0
  | .draining head tail => (tail - head) + 1
  | .top => (drawn - r.readSeq) + 2
  | .storing head => (drawn - head) + 3
  | .testing head tail => (tail - head) * 3 + (drawn - head) + 4
  | .printing head tail => (tail - (head + 1)) * 3 + (drawn - (head + 1)) + 6
  | .releasing head tail => (tail - (head + 1)) * 3 + (drawn - (head + 1)) + 5

theorem stepsLeft_aside (hflusher : r'.flusher = r.flusher) (hread : r'.readSeq = r.readSeq)
    (hclosed : r'.writeSeq + r'.entered.length ≤ r.writeSeq + r.entered.length) :
    r'.stepsLeft ≤ r.stepsLeft := by
  unfold stepsLeft
  rw [hflusher, hread]
  cases r.flusher with
  | top | testing head tail | printing head tail | releasing head tail | storing head =>
      simp only
      omega
  | draining head tail | finished => simp only [le_refl]

theorem stepsLeft_flushes (hstopped : r.running = false) (hflush : Flushes r r') :
    r'.stepsLeft < r.stepsLeft := by
  cases hflush with
  | start hat hrunning =>
      rw [hstopped] at hrunning
      cases hrunning
  | stop hat | found hat | pause hat | print hat | release hat | store hat | keep hat | skip hat
    | finish hat =>
      simp only [stepsLeft, hat]
      omega

/-- The steps of the flush thread are counted down, and those of the other threads add none. -/
theorem stepsLeft_step {a : Action} (hstopped : r.running = false) (hstep : step a r = some r') :
    [a].count .flush + r'.stepsLeft ≤ r.stepsLeft := by
  by_cases ha : a = .flush
  · subst ha
    have hlt := stepsLeft_flushes hstopped (flushes_of_flushStep hstep)
    simp only [List.count_singleton_self]
    omega
  · have hclosed := (frames_of_step hstep).closed hstopped
    rw [List.count_singleton, if_neg (by simpa using ha), Nat.zero_add]
    cases takes_of_step hstep with
    | aside _ _ _ hread hflusher => exact stepsLeft_aside hflusher hread hclosed
    | claim | wait | fill | publish => exact stepsLeft_aside rfl rfl hclosed
    | flush hflush => exact (stepsLeft_flushes hstopped (flushes_of_flushStep hflush)).le

theorem stepsLeft_run {bs : List Action} (hstopped : r.running = false)
    (hrun : run bs r = some r') : bs.count .flush + r'.stepsLeft ≤ r.stepsLeft := by
  induction bs generalizing r with
  | nil =>
      cases hrun
      simp
  | cons a bs ih =>
      obtain ⟨s, hstep, hrest⟩ := run_cons_eq_some.mp hrun
      have hhead := stepsLeft_step hstopped hstep
      have htail := ih ((frames_of_step hstep).stopped hstopped) hrest
      have hcount : (a :: bs).count .flush = [a].count .flush + bs.count .flush := by
        rw [← List.count_append, List.singleton_append]
      omega

theorem flushStep_isSome (hgoes : r.flusher ≠ .finished) : r.flushStep.isSome = true := by
  unfold flushStep
  cases hat : r.flusher with
  | top | testing head tail | printing head tail | releasing head tail | storing head => rfl
  | draining head tail =>
      simp only
      split
      · rfl
      · rfl
  | finished => exact absurd hat hgoes

end Ring

end Log

end PicoCpu
