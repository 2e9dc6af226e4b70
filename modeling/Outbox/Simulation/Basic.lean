import Outbox.Network.Retry
import Outbox.Protocol.Error
import Outbox.Queue.Run

/-!
# The simulation of a queue

A simulation surrounds a queue with a network, producers, other users of its pool and bus, and a
clock, and lets everything run in a fixed order: one task at a time, first come first served, each
until it must wait.

* `Instruction`, `Outcome` — what a producer does to its builder and what comes of it;
* `MockNetwork`, `Flight` — the network and a send under way;
* `Simulation` — the state of it all.
-/

namespace Outbox

/-- One thing that a simulated producer does to its builder. -/
inductive Instruction where
  /-- It makes an edit. -/
  | edit (e : Edit)
  /-- It sets a status by its code, unless the code is unknown. -/
  | setCode (r : RequestId) (code : Nat)
  /-- It adds the sink of one subscription to each of the requests. -/
  | notify (requests : List RequestId) (name : String)

/-- What comes of an instruction. -/
inductive Outcome where
  /-- The reply to the edit. -/
  | reply (value : Reply)
  /-- The instruction made no sense. -/
  | refused (cause : ProtocolError)

/-- How a task that runs on its own ends. -/
inductive Completion where
  /-- The producer's instructions were carried out on a builder. -/
  | mutated (topic : Topic) (size : Nat) (isEmpty : Bool) (outcomes : List Outcome)
  /-- The producer gave up. -/
  | skipped
  /-- The memory asked for is held. -/
  | held
  /-- The memory asked for is refused. -/
  | refused (cause : MemoryError)
  /-- The worker is gone. -/
  | stopped
  /-- Enough messages were sent. -/
  | sent

/-- A network that answers at once, as it is told, and counts. -/
structure MockNetwork where
  /-- Connections fail. -/
  refusing : Bool := false
  /-- Sends fail. -/
  failing : Bool := false
  /-- Sends never end. -/
  stalling : Bool := false
  /-- The number of senders opened. -/
  opens : Nat := 0
  /-- The number of resets. -/
  resets : Nat := 0
  /-- The number of messages sent. -/
  sends : Nat := 0
  /-- The retries that the last opened sender was given. -/
  lastRetries : Option Nat := none
  /-- The peers connected to. -/
  connected : List Peer := []

/-- A send under way. -/
inductive Flight where
  /-- It never ends. -/
  | stalled
  /-- It makes these calls, then ends. -/
  | planned (calls : List (Nat × Retry.Call)) (finish : Nat) (failure : Option NetworkError)

/-- An actor of the simulation. -/
inductive Actor where
  /-- The worker of the queue. -/
  | worker
  /-- A producer, by its ticket. -/
  | producer (ticket : Ticket)
  /-- Another user of the pool, by its ticket. -/
  | borrower (ticket : Ticket)
deriving DecidableEq

/-- A line of the trace. -/
inductive TraceEntry where
  /-- The queue did something. -/
  | action (a : Action)
  /-- A stream was called at this time. -/
  | stream (time : Nat) (call : Retry.Call)

/-- Someone who reads events under a name. -/
structure Reader where
  /-- The name. -/
  name : String
  /-- The sink of the mailbox. -/
  sink : Sink
  /-- How many events were read. -/
  seen : Nat := 0
  /-- The end was seen. -/
  ended : Bool := false

/-- The state of a simulation. -/
structure Simulation where
  /-- The queue. -/
  queue : Queue
  /-- The time in milliseconds. -/
  now : Nat := 0
  /-- The network, and the counters of it. -/
  network : MockNetwork := {}
  /-- The outcomes of the writes to come, if messages go over streams. -/
  script : Option (List WriteOutcome) := none
  /-- The send under way. -/
  flight : Option Flight := none
  /-- What happened since the last step. -/
  trace : List TraceEntry := []
  /-- The messages sent since the last step. -/
  delivered : List Message := []
  /-- The tasks that ended since the last step. -/
  completed : List (Nat × Completion) := []
  /-- The tasks that can run, in the order in which they will. -/
  ready : List Actor := []
  /-- The tasks that a cancellation would wake, in the order in which it would. -/
  enrolled : List Actor := []
  /-- What the producers that wait will do. -/
  plans : List (Ticket × List Instruction) := []
  /-- The other users of the pool that wait. -/
  borrowers : List Ticket := []
  /-- Those who wait for the worker to stop. -/
  awaitingStop : List Nat := []
  /-- Those who wait for a number of messages to be sent. -/
  awaitingSent : List (Nat × Nat) := []
  /-- The owner still holds the queue. -/
  owned : Bool := true
  /-- The sinks that the owner holds, by name. -/
  hands : List (String × Sink) := []
  /-- Those who read events. -/
  readers : List Reader := []
  /-- The number of mailboxes named so far. -/
  mailboxes : Nat := 0
  /-- The queue publishes on a bus that nobody else can reach. -/
  privateBus : Bool := false
  /-- The bus that others can reach in that case. -/
  outerBus : Bus := {}

namespace Simulation

/-- Makes a move of the queue; what the queue does goes into the trace. -/
def move (s : Simulation) (m : Move) : Simulation :=
  let queue := s.queue.step m
  { s with
    queue
    trace := s.trace ++ (queue.log.drop s.queue.log.length).map .action }

/-- Notes the end of a task. -/
def complete (s : Simulation) (index : Nat) (c : Completion) : Simulation :=
  { s with completed := s.completed ++ [(index, c)] }

/-! ## Readers -/

/-- A new mailbox. -/
def newSink (s : Simulation) : Sink × Simulation :=
  (⟨s.mailboxes⟩, { s with mailboxes := s.mailboxes + 1 })

/-- The reader of a name leaves. -/
def dropReader (s : Simulation) (name : String) : Simulation :=
  let (gone, readers) := s.readers.partition (fun r => r.name = name)
  gone.foldl (fun s r => s.move (.depart r.sink)) { s with readers }

/-- A new reader under a name, in place of an older one. -/
def newReader (s : Simulation) (name : String) : Sink × Simulation :=
  let (sink, s) := (s.dropReader name).newSink
  (sink, { s with readers := s.readers ++ [{ name, sink }] })

/-- The sink that the owner holds under a name, or that of a new reader. -/
def sinkFor (s : Simulation) (name : String) : Sink × Simulation :=
  match s.hands.lookup name with
  | some sink => (sink, s)
  | none => s.newReader name

/-- Somewhere a sink is held from which letters may still come. -/
def holds (s : Simulation) (sink : Sink) : Bool :=
  s.queue.holds sink || s.outerBus.holds sink || s.hands.any (fun h => h.2 = sink)

/-! ## Producers -/

/-- The edits that an instruction stands for. -/
def editsOf (s : Simulation) : Instruction → List Edit × Simulation
  | .edit e => ([e], s)
  | .setCode r code =>
    match Status.ofCode? code with
    | some status => ([.setStatus r status], s)
    | none => ([], s)
  | .notify requests name =>
    let (sink, s) := s.sinkFor name
    (requests.map (Edit.addNotifee · sink) ++ [.askSize], s)

/-- The edits that a list of instructions stands for. -/
def editsOfAll (s : Simulation) : List Instruction → List Edit × Simulation
  | [] => ([], s)
  | i :: rest =>
    let (edits, s) := s.editsOf i
    let (more, s) := s.editsOfAll rest
    (edits ++ more, s)

/-- What comes of each instruction, from the replies to all edits. -/
def outcomes : List Instruction → List Reply → List Outcome
  | [], _ => []
  | .edit _ :: rest, reply :: replies => .reply reply :: outcomes rest replies
  | .setCode _ code :: rest, replies =>
    match Status.ofCode? code, replies with
    | none, replies => .refused (.unknownStatus code) :: outcomes rest replies
    | some _, reply :: replies => .reply reply :: outcomes rest replies
    | some _, [] => []
  | .notify requests _ :: rest, replies =>
    match replies.drop requests.length with
    | reply :: replies => .reply reply :: outcomes rest replies
    | [] => []
  | .edit _ :: _, [] => []

/-- How a producer's turn ended, read off what the queue did. -/
def completionOf (t : Ticket) (plan : List Instruction) : List Action → Option Completion
  | [] => none
  | .mutated t' _ report :: rest =>
    if t' = t then
      some (.mutated report.topic report.size report.isEmpty (outcomes plan report.replies))
    else completionOf t plan rest
  | .skipped t' :: rest => if t' = t then some .skipped else completionOf t plan rest
  | _ :: rest => completionOf t plan rest

/-- A turn of a producer: the move that its edits make of it. Its readers come into being only if
the edits are carried out. A producer that did not end waits. -/
def produce (s : Simulation) (t : Ticket) (plan : List Instruction)
    (turn : List Edit → Move) : Simulation :=
  let (edits, prepared) := s.editsOfAll plan
  let before := s.queue.log.length
  let attempted := prepared.move (turn edits)
  let rest := { attempted with
    plans := attempted.plans.filter (fun p => p.1 ≠ t)
    enrolled := attempted.enrolled.filter (· ≠ Actor.producer t) }
  match completionOf t plan (attempted.queue.log.drop before) with
  | some (.mutated topic size isEmpty results) =>
    rest.complete t (.mutated topic size isEmpty results)
  | some c =>
    { s.move (turn edits) with plans := rest.plans, enrolled := rest.enrolled }.complete t c
  | none =>
    { s.move (turn edits) with
      plans := rest.plans ++ [(t, plan)]
      enrolled := rest.enrolled ++ [.producer t] }

end Simulation

end Outbox
