import Outbox.Queue.Basic

/-!
# The worker

The worker sends the messages of the backlog one by one and reports on each.

* `NetworkReply` — what the network answers to a call of the worker;
* `Queue.work` — one turn of the worker, from one point where it may have to wait to the next;
* `Queue.fail` — what happens to a message that will never be delivered;
* `Queue.drain`, `Queue.teardown` — how the worker ends.
-/

namespace Outbox

/-- What the network answers to a call of the worker. -/
inductive NetworkReply where
  /-- The sender is open. -/
  | opened
  /-- No sender can be opened. -/
  | openFailed (failure : NetworkError)
  /-- The message was sent. -/
  | sent
  /-- The send failed. -/
  | sendFailed (failure : NetworkError)
  /-- The reset is over. -/
  | resetDone

namespace Queue

/-- Closes the streams of a message, in the order of their names. -/
def closeStreams (q : Queue) (d : Finished) : Queue :=
  (d.streams.values.mergeSort (fun s s' => s.name ≤ s'.name)).foldl
    (fun q s => q.note (.streamClosed s)) q

/-- A message will never be delivered: its streams are closed, everything pending for its
requests is removed, the failure is reported and its memory given back. -/
def fail (q : Queue) (d : Finished) (cause : QueueError) : Queue :=
  ((((q.closeStreams d).scrub d.requests).publish d.topic ⟨.failed cause, d.metadata⟩).release
    d.size)

/-- A delivery failed: the message is reported as failed and the worker is asked to stop. -/
def failDelivery (q : Queue) (d : Finished) (cause : QueueError) : Queue :=
  let q := q.fail d cause
  { ({ q with stopRequested := true }.closeTopic d.topic) with worker := .choosing false }

/-- A delivery succeeded: it is reported, its memory given back, and the sender kept. -/
def completeDelivery (q : Queue) (d : Finished) : Queue :=
  let q := (q.publish d.topic ⟨.sent, d.metadata⟩).release d.size
  { q.closeTopic d.topic with worker := .choosing true }

/-- The send of a message begins. -/
def beginSend (q : Queue) (d : Finished) : Queue :=
  { q.note (.sending d.message) with worker := .sending d }

/-- A sender is asked for. -/
def beginOpen (q : Queue) (d : Finished) : Queue :=
  { q.note (.opening q.peer q.settings) with worker := .opening d }

/-- The sender of a failed delivery is reset. -/
def beginReset (q : Queue) (d : Finished) (cause : QueueError) : Queue :=
  { q.note .senderReset with worker := .resetting d cause }

/-- Registers those who watch a message for its topic. -/
def subscribeAll (q : Queue) (d : Finished) : Queue :=
  d.sinks.foldl (fun q s => q.subscribe d.topic s) q

/-- Takes the first builder off the backlog; its message, if it has any content. -/
def dequeue (q : Queue) : Option (Option Finished × Queue) :=
  (q.backlog.pop?).map fun (b, backlog) =>
    (b.finish?, { q with backlog }.note (.dequeued b))

/-- Answers a wake-up: the first builder is taken, a wake-up is left for the others, and the
delivery of its message begins. -/
def deliverNext (q : Queue) (sender : Bool) : Queue :=
  match { q with token := false }.dequeue with
  | none => { q with token := false }
  | some (finished, q) =>
    let q := if q.backlog.builders.isEmpty then q else q.signal
    match finished with
    | none => q
    | some d =>
      let q := (q.subscribeAll d).publish d.topic ⟨.queued, d.metadata⟩
      if sender then q.beginSend d else q.beginOpen d

/-! ## The end -/

/-- Reports up to `n` builders as failed by the shutdown, then closes the backlog. -/
def drainFor : Nat → Queue → Queue
  | 0, q => q.closeBacklog
  | n + 1, q =>
    match q.dequeue with
    | none => q.closeBacklog
    | some (none, q) => drainFor n q
    | some (some d, q) => drainFor n (((q.subscribeAll d).fail d .shutdown).closeTopic d.topic)

/-- Reports every builder as failed by the shutdown, then closes the backlog. -/
def drain (q : Queue) : Queue :=
  { q with token := false }.drainFor q.backlog.builders.length

/-- The worker ends: what is left in the backlog is thrown away, the peer's memory is given back
and the bus is shut down. -/
def teardown (q : Queue) : Queue :=
  let q := q.closeBacklog
  let q := { q with pool := q.pool.releasePeer q.peer }.note (.releasePeer q.peer)
  { { q with bus := q.bus.shutdown }.note .busStopped with worker := .stopped }

/-- The worker leaves its loop; a sender that it holds is reset first. -/
def leave (q : Queue) (sender : Bool) : Queue :=
  if sender then { q.note .senderReset with worker := .parting } else q.teardown

/-! ## One turn -/

/-- The worker chooses what to do next: a cancellation comes before a shutdown, and both come
before work. -/
def choose (q : Queue) (sender : Bool) : Queue :=
  if q.cancelled then q.leave sender
  else if q.stopRequested then q.drain.leave sender
  else if q.token then { q with worker := .choosing sender }.deliverNext sender
  else { q with worker := .choosing sender }

/-- One turn of the worker, with the reply of the network if it has one. Nothing changes while
the worker has to wait. -/
def work (q : Queue) (reply : Option NetworkReply) : Queue :=
  match q.worker with
  | .unstarted => q
  | .launched => ({ q with bus := q.bus.startup }.note .busStarted).choose false
  | .choosing sender => q.choose sender
  | .opening d =>
    if q.cancelled then q.failDelivery d (.cancelled q.peer)
    else
      match reply with
      | some .opened => (q.note .opened).beginSend d
      | some (.openFailed e) => q.failDelivery d (.senderOpen q.peer e.message)
      | _ => q
  | .sending d =>
    if q.cancelled then q.beginReset d (.cancelled q.peer)
    else
      match reply with
      | some .sent => (q.note .sendOk).completeDelivery d
      | some (.sendFailed e) =>
        (q.note (.sendFailed e)).beginReset d (.sendFailed q.peer e.message)
      | _ => q
  | .resetting d cause =>
    match reply with
    | some .resetDone => q.failDelivery d cause
    | _ => q
  | .parting =>
    match reply with
    | some .resetDone => q.teardown
    | _ => q
  | .stopped => q

end Queue

end Outbox
