import Outbox.Queue.Producer
import Outbox.Queue.Worker

/-!
# Runs of a queue

Everything that can happen to a queue is a move. A run is any sequence of moves; a move that is
not possible changes nothing.

* `Move` — turns of producers and of the worker, calls of the queue's owner, and what other users
  of its pool and bus do;
* `Queue.step`, `Queue.run` — one move, and many;
* `Queue.Reachable` — the states that some run of a new queue ends in.
-/

namespace Outbox

/-- One thing that can happen to a queue. -/
inductive Move where
  /-- A producer comes with edits that need so many bytes. -/
  | reserve (producer : Ticket) (size : Nat) (edits : List Edit)
  /-- A producer that waits has a turn. -/
  | resume (producer : Ticket) (edits : List Edit)
  /-- A producer that waits goes away. -/
  | abandon (producer : Ticket)
  /-- The worker is started. -/
  | startup
  /-- The worker is asked to stop after reporting what is left. -/
  | shutdown
  /-- Everything is called off. -/
  | cancel
  /-- Everything that belongs to the requests is removed. -/
  | scrub (requests : List RequestId)
  /-- The worker has a turn, with a reply of the network if there is one. -/
  | work (reply : Option NetworkReply)
  /-- Nobody can reach the queue any more. -/
  | letGo
  /-- Another user of the pool asks for memory. -/
  | borrow (ticket : Ticket) (peer : Peer) (amount : Nat)
  /-- Another user of the pool reads its answer. -/
  | collect (ticket : Ticket)
  /-- Another user of the pool gives memory back. -/
  | repay (peer : Peer) (amount : Nat)
  /-- A pool without limits is told whether to answer the requests that come. -/
  | withhold (value : Bool)
  /-- A sink is registered by someone else. -/
  | attach (topic : Topic) (sink : Sink)
  /-- The reader of a mailbox leaves. -/
  | depart (sink : Sink)

namespace Queue

/-- A new queue for a peer, if the settings are valid. -/
def new? (peer : Peer) (settings : SendSettings) (pool : Pool) : Except SettingsError Queue := do
  settings.validate
  return { peer, settings, pool }

/-- Starts the worker, once. -/
def startup (q : Queue) : Queue :=
  match q.worker with
  | .unstarted => { q with worker := .launched }
  | _ => q

/-- Nobody can reach the queue any more. The worker is asked to stop; without a worker the
builders go with the queue. -/
def letGo (q : Queue) : Queue :=
  let q := { q with reachable := false, stopRequested := true }
  match q.worker with
  | .unstarted => q.closeBacklog
  | _ => q

/-- The name belongs to a producer that waits, or to an open request of anyone. -/
def isTaken (q : Queue) (t : Ticket) : Bool := (q.waitingSize? t).isSome || q.pool.isOpen t

/-- The queue after a move. -/
def step (q : Queue) : Move → Queue
  | .reserve t size edits =>
    if q.reachable && !q.isTaken t then q.reserve t size edits else q
  | .resume t edits => q.resume t edits
  | .abandon t => q.abandon t
  | .startup => if q.reachable then q.startup else q
  | .shutdown => if q.reachable then { q with stopRequested := true } else q
  | .cancel => { q with cancelled := true }
  | .scrub requests => if q.reachable then q.scrub requests else q
  | .work reply => q.work reply
  | .letGo => if q.reachable && q.producers.isEmpty then q.letGo else q
  | .borrow t p amount =>
    if q.isTaken t then q else { q with pool := q.pool.request t p amount }
  | .collect t =>
    match q.waitingSize? t, q.pool.take? t with
    | none, some (_, pool) => { q with pool }
    | _, _ => q
  | .repay p amount =>
    match q.pool.release p amount with
    | .ok pool => { q with pool }
    | .error _ => q
  | .withhold value => { q with pool := q.pool.withhold value }
  | .attach topic sink => { q with bus := q.bus.subscribe topic sink }
  | .depart sink => { q with post := q.post.depart sink }

/-- The queue after a sequence of moves. -/
def run (q : Queue) (moves : List Move) : Queue := moves.foldl step q

/-- Some run of a queue ends in this state. -/
def Reachable (start q : Queue) : Prop := ∃ moves, start.run moves = q

/-- Somewhere a sink is held from which letters may still come: by a builder or by the bus. -/
def holds (q : Queue) (s : Sink) : Bool := q.backlog.holds s || q.bus.holds s

end Queue

end Outbox
