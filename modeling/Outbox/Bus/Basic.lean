import Outbox.Bus.Post
import Outbox.Message.Basic

/-!
# The topic bus

Publishers write to topics; every sink registered for a topic at that moment gets one letter.

* `Bus` — the registrations by topic, and whether publishing is possible at all;
* `Bus.startup`, `Bus.shutdown` — publishing begins, and ends for good;
* `Bus.subscribe`, `Bus.publish`, `Bus.close` — registration, delivery and the end of a topic.
-/

namespace Outbox

/-- The life of a bus. -/
inductive BusPhase where
  /-- Created; publishing is not possible yet. -/
  | idle
  /-- Publishing. -/
  | running
  /-- Shut down for good. -/
  | stopped
deriving DecidableEq, Repr

/-- The registrations of sinks for topics. -/
structure Bus where
  /-- Whether publishing is possible. -/
  phase : BusPhase := .idle
  /-- The sinks registered for each open topic, one entry for each registration. -/
  topics : Dict Topic (List Sink) := ∅
  /-- The number of events published, also those nobody received. -/
  published : Nat := 0

namespace Bus

/-- Publishing begins, if it has not begun or ended before. -/
def startup (b : Bus) : Bus := if b.phase = .idle then { b with phase := .running } else b

/-- Publishing ends for good and every topic is closed. -/
def shutdown (b : Bus) : Bus := { b with phase := .stopped, topics := ∅ }

/-- Registers a sink for a topic; after the shutdown the sink is dropped instead. -/
def subscribe (b : Bus) (t : Topic) (s : Sink) : Bus :=
  if b.phase = .stopped then b
  else { b with topics := b.topics.update t (fun sinks => sinks.getD [] ++ [s]) }

/-- Drops every registration for a topic. -/
def close (b : Bus) (t : Topic) : Bus := { b with topics := b.topics.erase t }

/-- The sinks registered for a topic whose mailbox is still read. -/
def live {ε : Type} (b : Bus) (p : Post ε) (t : Topic) : List Sink :=
  ((b.topics.get? t).getD []).filter (fun s => !p.isClosed s)

/-- Publishes an event: the bus without the registrations whose reader is gone, the post with a
letter for each of the others, and their number. Nothing happens unless the bus is running. -/
def publish {ε : Type} (b : Bus) (p : Post ε) (t : Topic) (event : ε) : Bus × Post ε × Nat :=
  if b.phase ≠ .running then (b, p, 0)
  else
    let b := { b with published := b.published + 1 }
    if b.topics.contains t then
      let sinks := b.live p t
      ({ b with topics := b.topics.insert t sinks }, p.deliverAll sinks event, sinks.length)
    else (b, p, 0)

/-- The sink is registered for some topic. -/
def holds (b : Bus) (s : Sink) : Bool := b.topics.values.any (fun sinks => sinks.contains s)

/-- The number of topics with registrations. -/
def openTopics (b : Bus) : Nat := b.topics.size

end Bus

end Outbox
