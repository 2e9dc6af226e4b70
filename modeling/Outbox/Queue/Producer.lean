import Outbox.Queue.Basic

/-!
# Producers

A producer reserves memory for its edits, waits for it if it must, and has the edits carried out.

* `Queue.reserve` — the first turn of a producer;
* `Queue.resume` — a later turn;
* `Queue.abandon` — the producer goes away while it waits.
-/

namespace Outbox.Queue

/-- The size that a waiting producer reserves. -/
def waitingSize? (q : Queue) (t : Ticket) : Option Nat :=
  (q.producers.find? (fun p => p.ticket = t)).map Producer.size

/-- The producer waits no longer. -/
def forgetProducer (q : Queue) (t : Ticket) : Queue :=
  { q with producers := q.producers.filter (fun p => p.ticket ≠ t) }

/-- The answer to a producer's request: its edits are carried out, or it gives up. -/
def answer (q : Queue) (t : Ticket) (size : Nat) (edits : List Edit) : Grant → Queue
  | .granted => (q.note (.allocated t size none)).mutate t size edits
  | .refused e => (q.note (.allocated t size (some e))).note (.skipped t)

/-- The first turn of a producer. Edits that reserve nothing are carried out at once; otherwise
memory is asked for, unless the queue was cancelled. -/
def reserve (q : Queue) (t : Ticket) (size : Nat) (edits : List Edit) : Queue :=
  if size = 0 then q.mutate t 0 edits
  else if q.cancelled then q.note (.skipped t)
  else
    let q := { q with pool := q.pool.request t q.peer size }.note (.allocate t size)
    match q.pool.take? t with
    | some (grant, pool) => { q with pool }.answer t size edits grant
    | none => { q with producers := q.producers ++ [⟨t, size⟩] }

/-- A later turn of a producer that waits. A cancellation is seen before an answer is. -/
def resume (q : Queue) (t : Ticket) (edits : List Edit) : Queue :=
  match q.waitingSize? t with
  | none => q
  | some size =>
    if q.cancelled then
      ({ q with pool := q.pool.abandon t }.forgetProducer t).note (.skipped t)
    else
      match q.pool.take? t with
      | some (grant, pool) => ({ q with pool }.forgetProducer t).answer t size edits grant
      | none => q

/-- A producer that waits goes away. -/
def abandon (q : Queue) (t : Ticket) : Queue :=
  match q.waitingSize? t with
  | none => q
  | some _ => { q with pool := q.pool.abandon t }.forgetProducer t

end Outbox.Queue
