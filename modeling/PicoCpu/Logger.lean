import PicoCpu.Ir
import PicoCpu.Lib.Interleavings
import Mathlib.Data.List.Sort
import Mathlib.Logic.Function.Basic

/-!
The logger: a ring of records that any thread fills and one thread prints. Its threads are
interleaved at their accesses to the shared state, in sequentially consistent order; the plain
fields of a record are written, and read, in one step.
-/

namespace PicoCpu

namespace Log

inductive Level where
  | trace | debug | info | warn | error | off
  deriving DecidableEq

def Level.toNat : Level → Nat
  | .trace => 0
  | .debug => 1
  | .info => 2
  | .warn => 3
  | .error => 4
  | .off => 5

abbrev ringCapacity : Nat := 16384
abbrev recordMsg : Nat := 240
abbrev maxFileLen : Nat := 64

/-- A call of `emit`, with its text as `vsnprintf` formats it and the thread and the time that
the record is stamped with. -/
structure Message where
  level : Level
  file : List U8
  line : Int
  text : List U8
  tid : U32 := 0
  tsNs : Int := 0
  deriving DecidableEq

/-- The plain fields of a `Record`. -/
structure Fields where
  level : Level := .trace
  tid : U32 := 0
  tsNs : Int := 0
  line : Int := 0
  file : List U8 := []
  msg : List U8 := []
  deriving DecidableEq

/-- The loop that leaves `base` behind the last separator of the path. -/
def baseFrom : List U8 → List U8 → List U8
  | base, [] => base
  | base, c :: rest => if c = 0x2F ∨ c = 0x5C then baseFrom rest rest else baseFrom base rest

/-- What `emit` fills a record with. -/
def Message.fields (m : Message) : Fields where
  level := m.level
  tid := m.tid
  tsNs := m.tsNs
  line := m.line
  file := (baseFrom m.file m.file).take (maxFileLen - 1)
  msg := m.text.take (recordMsg - 1)

structure Record where
  seq : Nat := 0
  fields : Fields := {}

/-- Where a call is that has drawn its ticket. -/
inductive Phase where
  /-- In the wait loop, with the spins that are left. -/
  | waiting (spins : Nat)
  | filling
  | publishing
  | published
  deriving DecidableEq

structure Call where
  message : Message
  phase : Phase

/-- Where the flush thread is, with its `head` and `tail`. -/
inductive Flusher where
  /-- At the test of `running`. -/
  | top
  | testing (head tail : Nat)
  | printing (head tail : Nat)
  | releasing (head tail : Nat)
  | storing (head : Nat)
  /-- In the drain after the loop. -/
  | draining (head tail : Nat)
  | finished
  deriving DecidableEq

structure Ring where
  slots : Nat → Record := fun _ => {}
  writeSeq : Nat := 0
  readSeq : Nat := 0
  threshold : Level := .info
  running : Bool := false
  /-- Calls that have passed the threshold, and those that have also seen the logger running. -/
  admitted : List Message := []
  entered : List Message := []
  /-- The calls that have drawn a ticket, by their ticket. -/
  calls : Nat → Option Call := fun _ => none
  flusher : Flusher := .finished
  /-- What the flush thread has printed, and for which ticket; the ticket is not printed. -/
  printed : List (Nat × Fields) := []
  /-- What went straight to the error stream. -/
  direct : List Message := []

namespace Ring

/-- `r.slots[seq % RING_CAPACITY]`. -/
def slot (r : Ring) (seq : Nat) : Record := r.slots (seq % ringCapacity)

def setSlot (r : Ring) (seq : Nat) (rec : Record) : Ring :=
  { r with slots := Function.update r.slots (seq % ringCapacity) rec }

def setPhase (r : Ring) (seq : Nat) (c : Call) (phase : Phase) : Ring :=
  { r with calls := Function.update r.calls seq (some { c with phase }) }

/-- `init`, on a logger that is not running. -/
def init (threshold : Level) (r : Ring) : Ring :=
  if r.running then r
  else
    { r with
      running := true, threshold, writeSeq := 0, readSeq := 0
      slots := fun i => { r.slots i with seq := 0 }
      flusher := .top }

/-- The test of the wait loop. -/
def slotFree (cur mySeq : Nat) : Bool := cur % 2 == 0 && decide (cur ≤ mySeq * 2)

/-- One step of the flush thread. -/
def flushStep (r : Ring) : Option Ring :=
  match r.flusher with
  | .top =>
    some { r with
      flusher := if r.running then .testing r.readSeq r.writeSeq else .draining r.readSeq r.writeSeq }
  | .testing head tail =>
    some { r with
      flusher :=
        if head < tail ∧ (r.slot head).seq = (head + 1) * 2 then .printing head tail
        else .storing head }
  | .printing head tail =>
    some { r with
      printed := r.printed ++ [(head, (r.slot head).fields)]
      flusher := .releasing head tail }
  | .releasing head tail =>
    some { r.setSlot head { r.slot head with seq := (head + 1) * 2 + 1 } with
      flusher := .testing (head + 1) tail }
  | .storing head => some { r with readSeq := head, flusher := .top }
  | .draining head tail =>
    if head < tail then
      some { r with
        printed :=
          if (r.slot head).seq = (head + 1) * 2 then r.printed ++ [(head, (r.slot head).fields)]
          else r.printed
        flusher := .draining (head + 1) tail }
    else some { r with flusher := .finished }
  | .finished => none

end Ring

/-- What one thread does next. The calls that have no ticket yet are named by their place. -/
inductive Action where
  /-- `emit` is called, and compares the level with the threshold. -/
  | emit (m : Message)
  /-- A call tests `running`. -/
  | enter (k : Nat)
  /-- `write_seq.fetch_add(1)`. -/
  | claim (k : Nat)
  | wait (seq : Nat)
  | fill (seq : Nat)
  | publish (seq : Nat)
  | flush
  | shutdown
  | setLevel (l : Level)
  deriving DecidableEq

namespace Ring

/-- The call with this ticket, if it is where `phase` says. -/
def step : Action → Ring → Option Ring
  | .emit m, r =>
    if m.level.toNat < r.threshold.toNat then some r
    else some { r with admitted := r.admitted ++ [m] }
  | .enter k, r =>
    r.admitted[k]?.map fun m =>
      let r := { r with admitted := r.admitted.eraseIdx k }
      if r.running then { r with entered := r.entered ++ [m] }
      else { r with direct := r.direct ++ [m] }
  | .claim k, r =>
    r.entered[k]?.map fun m =>
      { r with
        entered := r.entered.eraseIdx k
        writeSeq := r.writeSeq + 1
        calls := Function.update r.calls r.writeSeq (some ⟨m, .waiting 16⟩) }
  | .wait seq, r =>
    (r.calls seq).bind fun c =>
      match c.phase with
      | .waiting 0 => some (r.setPhase seq c .filling)
      | .waiting (spins + 1) =>
        some (r.setPhase seq c
          (if slotFree (r.slot seq).seq seq then .filling else .waiting spins))
      | _ => none
  | .fill seq, r =>
    (r.calls seq).bind fun c =>
      if c.phase = .filling then
        some ((r.setSlot seq { r.slot seq with fields := c.message.fields }).setPhase seq c
          .publishing)
      else none
  | .publish seq, r =>
    (r.calls seq).bind fun c =>
      if c.phase = .publishing then
        some ((r.setSlot seq { r.slot seq with seq := (seq + 1) * 2 }).setPhase seq c .published)
      else none
  | .flush, r => r.flushStep
  | .shutdown, r => some { r with running := false }
  | .setLevel l, r => some { r with threshold := l }

abbrev run : List Action → Ring → Option Ring := Interleaving.run step

/-- The logger after its first `init`. -/
def started (threshold : Level) : Ring := init threshold {}

end Ring

end Log

end PicoCpu
