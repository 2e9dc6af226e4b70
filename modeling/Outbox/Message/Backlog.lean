import Outbox.Message.Edit

/-!
# The backlog

The builders of a queue wait in line. Producers change the last one, the worker takes the first.

* `Backlog` — the builders in line and the next free topic;
* `Backlog.joined?` — the last builder, when a change joins it rather than start a new one;
* `Backlog.mutate` — carries a producer's edits out;
* `Backlog.pop?`, `Backlog.scrub`, `Backlog.close` — the other operations.
-/

namespace Outbox

/-- A message should not carry more block bytes than this. -/
def maxBlockSize : Nat := 524288

/-- The builders of a queue. -/
structure Backlog where
  /-- The builders in line, the oldest first. -/
  builders : List Builder := []
  /-- The topic of the next new builder, if one is left. -/
  nextTopic : Option Topic := some Topic.first
  /-- No further changes are accepted. -/
  closed : Bool := false

/-- What became of a producer's edits. -/
structure EditReport where
  /-- The topic of the builder they went to. -/
  topic : Topic
  /-- Its size afterwards. -/
  size : Nat
  /-- It holds nothing afterwards. -/
  isEmpty : Bool
  /-- What the producer learnt, edit by edit. -/
  replies : List Reply

namespace Backlog

/-- A change that reserves `size` bytes would let the builder grow over the limit. A change that
reserves nothing never does. The sum is exact; it fits into a machine word unless the builder and
the change hold `2 ^ 64` bytes together. -/
def overflows (b : Builder) (size : Nat) : Bool := 0 < size ∧ maxBlockSize < b.size + size

/-- The last builder, if a change that reserves `size` bytes may join it. -/
def joined? (q : Backlog) (size : Nat) : Option Builder :=
  q.builders.getLast?.filter (fun b => !overflows b size)

/-- A change that reserves `size` bytes starts a new builder. -/
def beginsNew (q : Backlog) (size : Nat) : Bool := (q.joined? size).isNone

/-- The report on edits carried out on a builder. -/
def report (b : Builder) (edits : List Edit) : EditReport where
  topic := b.topic
  size := (b.applyAll edits).size
  isEmpty := (b.applyAll edits).isEmpty
  replies := b.replies edits

/-- Carries out the edits of a producer that reserved `size` bytes. Nothing changes if a new
builder is due and no topic is left. -/
def mutate (q : Backlog) (size : Nat) (edits : List Edit) :
    Except QueueError (EditReport × Backlog) :=
  match q.joined? size with
  | some b =>
    .ok (report b edits, { q with builders := q.builders.dropLast ++ [b.applyAll edits] })
  | none =>
    match q.nextTopic with
    | none => .error .topicsExhausted
    | some t =>
      let b : Builder := { topic := t }
      .ok (report b edits,
        { q with builders := q.builders ++ [b.applyAll edits], nextTopic := t.next? })

/-- Takes the oldest builder. -/
def pop? (q : Backlog) : Option (Builder × Backlog) :=
  match q.builders with
  | [] => none
  | b :: rest => some (b, { q with builders := rest })

/-- Removes everything that belongs to the given requests, and the builders this leaves empty. -/
def scrub (q : Backlog) (requests : List RequestId) : Backlog :=
  { q with builders := (q.builders.map (·.scrub requests)).filter (fun b => !b.isEmpty) }

/-- The bytes that scrubbing the given requests frees. -/
def scrubFrees (q : Backlog) (requests : List RequestId) : Nat :=
  (q.builders.map (·.scrubFrees requests)).foldr (· + ·) 0

/-- Accepts no further changes and drops all builders. -/
def close (q : Backlog) : Backlog := { q with builders := [], closed := true }

/-- The sink belongs to someone who watches a request in the backlog. -/
def holds (q : Backlog) (s : Sink) : Bool := q.builders.any (·.holds s)

end Backlog

end Outbox
