import Outbox.Bus.Basic
import Outbox.Memory.Pool
import Outbox.Queue.Action

/-!
# The queue of one peer

Producers reserve memory and edit the last builder of the backlog; one worker takes the first
builder, sends its message and reports on it.

* `Worker` — where the worker stands;
* `Queue` — the state of a queue with its pool, bus and post;
* `Queue.mutate`, `Queue.release`, `Queue.publish`, … — the calls that producers and the worker
  have in common.
-/

namespace Outbox

/-- Where the worker stands between two of its turns. -/
inductive Worker where
  /-- It was not started. -/
  | unstarted
  /-- It was started and has not had a turn. -/
  | launched
  /-- It waits for work or for an end; it may hold an open sender. -/
  | choosing (sender : Bool)
  /-- It waits for a sender to open, for this message. -/
  | opening (delivery : Finished)
  /-- It waits for the message to be sent. -/
  | sending (delivery : Finished)
  /-- It waits for the reset of the sender that failed or was called off. -/
  | resetting (delivery : Finished) (cause : QueueError)
  /-- It waits for the last reset of its sender. -/
  | parting
  /-- It is gone. -/
  | stopped

/-- A producer that waits for memory. -/
structure Producer where
  /-- Its name, and that of its request. -/
  ticket : Ticket
  /-- The bytes it reserves. -/
  size : Nat
deriving DecidableEq

/-- The queue of one peer. -/
structure Queue where
  /-- The peer. -/
  peer : Peer
  /-- How messages are sent. -/
  settings : SendSettings
  /-- The builders in line. -/
  backlog : Backlog := {}
  /-- A wake-up is pending for the worker. -/
  token : Bool := false
  /-- The worker is asked to report what is left as failed and to stop. -/
  stopRequested : Bool := false
  /-- The worker is asked to stop at once. -/
  cancelled : Bool := false
  /-- Someone can still reach the queue. -/
  reachable : Bool := true
  /-- Where the worker stands. -/
  worker : Worker := .unstarted
  /-- The source of block memory. -/
  pool : Pool := .unlimited {}
  /-- Where events are published. -/
  bus : Bus := {}
  /-- Where they arrive. -/
  post : Post Event := {}
  /-- The producers that wait for memory, in the order in which they came. -/
  producers : List Producer := []
  /-- Everything done so far. -/
  log : List Action := []

namespace Queue

/-- Writes an action down. -/
def note (q : Queue) (a : Action) : Queue := { q with log := q.log ++ [a] }

/-- The worker is gone. -/
def isStopped (q : Queue) : Bool := q.worker matches .stopped

/-- Gives back bytes of the peer; nothing is called for no bytes. A refusal changes nothing. -/
def release (q : Queue) (amount : Nat) : Queue :=
  if amount = 0 then q
  else
    match q.pool.release q.peer amount with
    | .ok pool => { q with pool }.note (.release amount none)
    | .error e => q.note (.release amount (some e))

/-- Publishes a step in the life of a message. -/
def publish (q : Queue) (topic : Topic) (event : Event) : Queue :=
  let (bus, post, receivers) := q.bus.publish q.post topic event
  { q with bus, post }.note (.published topic event receivers)

/-- Closes a topic. -/
def closeTopic (q : Queue) (topic : Topic) : Queue :=
  { q with bus := q.bus.close topic }.note (.closed topic)

/-- Registers a sink for a topic. -/
def subscribe (q : Queue) (topic : Topic) (sink : Sink) : Queue :=
  { q with bus := q.bus.subscribe topic sink }.note (.subscribed topic sink)

/-- Removes everything that belongs to the given requests and gives back what this frees. -/
def scrub (q : Queue) (requests : List RequestId) : Queue :=
  ({ q with backlog := q.backlog.scrub requests }.note (.scrubbed requests)).release
    (q.backlog.scrubFrees requests)

/-- Leaves a wake-up for the worker. One is enough for any number of reasons. -/
def signal (q : Queue) : Queue := { q with token := true }

/-- Carries out the edits of a producer that holds `size` bytes for them. If the backlog is
closed, or no topic is left, the edits are not carried out and the bytes go back. -/
def mutate (q : Queue) (producer : Nat) (size : Nat) (edits : List Edit) : Queue :=
  if q.backlog.closed then (q.release size).note (.skipped producer)
  else
    match q.backlog.mutate size edits with
    | .error _ => (q.release size).note (.skipped producer)
    | .ok (report, backlog) =>
      let q := { q with backlog }.note (.mutated producer edits report)
      if report.isEmpty then q else q.signal

/-- Throws the builders left in the backlog away and accepts no further edits. -/
def closeBacklog (q : Queue) : Queue :=
  { q with
    backlog := q.backlog.close
    log := q.log ++ q.backlog.builders.map .discarded }

end Queue

end Outbox
