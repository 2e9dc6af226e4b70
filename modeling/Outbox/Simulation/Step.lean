import Outbox.Simulation.Schedule

/-!
# Steps of a simulation

* `Step` — what the owner of the queue, or the world around it, does;
* `Simulation.take` — a step and everything that follows from it at once;
* `StepReport` — what can be seen after a step;
* `Simulation.new?`, `Simulation.takeAll` — a whole simulation.
-/

namespace Outbox

/-- One step of a simulation. -/
inductive Step where
  /-- A producer comes. -/
  | build (size : Nat) (plan : List Instruction)
  /-- The worker is started. -/
  | startup
  /-- The worker is asked to stop. -/
  | shutdown
  /-- Everything is called off. -/
  | cancel
  /-- Requests are scrubbed. -/
  | scrub (requests : List RequestId)
  /-- The owner lets the queue go. -/
  | drop
  /-- Connections fail from now on, or succeed. -/
  | refuseConnections (value : Bool)
  /-- Sends fail from now on, or succeed. -/
  | failSends (value : Bool)
  /-- Sends never end from now on, or do. -/
  | stallSends (value : Bool)
  /-- The pool grants nothing from now on, or grants. -/
  | withholdMemory (value : Bool)
  /-- The network connects to a peer. -/
  | connect (peer : Peer)
  /-- Another user asks for memory. -/
  | borrow (peer : Peer) (amount : Nat)
  /-- Another user gives memory back. -/
  | repay (peer : Peer) (amount : Nat)
  /-- The producer of an earlier step goes away. -/
  | abort (index : Nat)
  /-- The owner takes a new sink into its hand. -/
  | holdSink (name : String)
  /-- The owner drops a sink. -/
  | dropSink (name : String)
  /-- A reader leaves. -/
  | dropReader (name : String)
  /-- A new reader subscribes to a topic. -/
  | subscribe (topic : Topic) (name : String)
  /-- Someone waits for the worker to stop. -/
  | awaitStopped
  /-- Someone waits for a number of messages to be sent. -/
  | awaitSent (count : Nat)
  /-- The clock runs. -/
  | wait (millis : Nat)

/-- What a step answers at once. -/
inductive StepResult where
  /-- The peers connected to so far. -/
  | connected (peers : List Peer)
  /-- The connection failed. -/
  | refused (failure : NetworkError)
  /-- The memory was taken back. -/
  | repaid
  /-- The memory was not taken back. -/
  | notRepaid (failure : MemoryError)

/-- What can be seen after a step. -/
structure StepReport where
  /-- What happened. -/
  trace : List String
  /-- The number of builders in line, while the owner holds the queue. -/
  pending : Option Nat
  /-- The worker is gone, while the owner holds the queue. -/
  stopped : Option Bool
  /-- What the step answered at once. -/
  result : Option StepResult
  /-- The tasks that ended, in the order of their steps. -/
  completed : List (Nat × Completion)
  /-- The steps whose tasks wait. -/
  waiting : List Nat
  /-- The messages sent. -/
  sent : List Message
  /-- The events that came, for each reader that got any. -/
  events : List (String × List Event)
  /-- The readers that saw the end, in the order of their names. -/
  closed : List String
  /-- What is in use of a limited pool, and what the peer of the queue holds of it. -/
  memory : Option (MemoryUse × Nat)

namespace Simulation

/-! ## What can be seen -/

/-- The texts of a trace; calls of a bus that nobody else can reach are left out. -/
def traceText (privateBus : Bool) : TraceEntry → Option String
  | .action a => if privateBus && a.toBus then none else a.text?
  | .stream time call => call.word?.map fun word => time.repr ++ " " ++ word

/-- The events that came for a reader. -/
def news (s : Simulation) (r : Reader) : List Event := (s.queue.post.unread r.sink).drop r.seen

/-- The reader sees the end: no letters can come any more. -/
def seesEnd (s : Simulation) (r : Reader) : Bool := !r.ended && !s.holds r.sink

/-- The steps whose tasks wait, in order. -/
def waiting (s : Simulation) : List Nat :=
  (s.plans.map Prod.fst ++ s.borrowers ++ s.awaitingStop ++ s.awaitingSent.map Prod.fst).mergeSort

/-- What is in use of a limited pool, and what the peer of the queue holds of it. -/
def memory (s : Simulation) : Option (MemoryUse × Nat) :=
  match s.queue.pool with
  | .limited a => some (a.use, a.held s.queue.peer)
  | .unlimited _ => none

/-- What can be seen after a step. -/
def report (s : Simulation) (result : Option StepResult) : StepReport where
  trace := s.trace.filterMap (traceText s.privateBus)
  pending := if s.owned then some s.queue.backlog.builders.length else none
  stopped := if s.owned then some s.queue.isStopped else none
  result
  completed := s.completed.mergeSort (fun c c' => c.1 ≤ c'.1)
  waiting := s.waiting
  sent := s.delivered
  events := (s.readers.filter fun r => !(s.news r).isEmpty).map fun r => (r.name, s.news r)
  closed := ((s.readers.filter s.seesEnd).map (·.name)).mergeSort
  memory := s.memory

/-- Everything that can be seen was seen. -/
def seen (s : Simulation) : Simulation :=
  { s with
    trace := []
    delivered := []
    completed := []
    readers := s.readers.map fun r =>
      { r with seen := r.seen + (s.news r).length, ended := r.ended || s.seesEnd r } }

/-! ## Steps -/

/-- Those who wait for something that has come to pass wait no longer. -/
def finishAwaiting (s : Simulation) : Simulation :=
  let (stopped, awaitingStop) := s.awaitingStop.partition (fun _ => s.queue.isStopped)
  let (sent, awaitingSent) := s.awaitingSent.partition (fun a => a.2 ≤ s.network.sends)
  { s with
    awaitingStop
    awaitingSent
    completed := s.completed ++ stopped.map (fun i => (i, Completion.stopped))
      ++ sent.map (fun (a : Nat × Nat) => (a.1, Completion.sent)) }.letGo

/-- Another user asks for memory, and waits if it must. -/
def borrow (s : Simulation) (index : Nat) (peer : Peer) (amount : Nat) : Simulation :=
  { s.move (.borrow index peer amount) with
    borrowers := s.borrowers ++ [index]
    ready := s.ready ++ [.borrower index] }

/-- What a step itself does, before anything follows from it. -/
def act (s : Simulation) (index : Nat) : Step → Simulation × Option StepResult
  | .build size plan =>
    (if s.owned then s.produce index plan (.reserve index size) else s, none)
  | .startup => (if s.owned then s.move .startup else s, none)
  | .shutdown => (if s.owned then s.move .shutdown else s, none)
  | .cancel => ({ s.move .cancel with ready := s.enrolled }, none)
  | .scrub requests => (if s.owned then s.move (.scrub requests) else s, none)
  | .drop => ({ s with owned := false }, none)
  | .refuseConnections value =>
    ({ s with network := { s.network with refusing := value } }, none)
  | .failSends value => ({ s with network := { s.network with failing := value } }, none)
  | .stallSends value => ({ s with network := { s.network with stalling := value } }, none)
  | .withholdMemory value => (s.move (.withhold value), none)
  | .connect peer =>
    if s.network.refusing then
      (s, some (.refused (.connectionFailed peer "mock refused")))
    else
      let connected := s.network.connected ++ [peer]
      ({ s with network := { s.network with connected } }, some (.connected connected))
  | .borrow peer amount => (s.borrow index peer amount, none)
  | .repay peer amount =>
    (s.move (.repay peer amount),
      match s.queue.pool.release peer amount with
      | .ok _ => some .repaid
      | .error e => some (.notRepaid e))
  | .abort i =>
    (if (s.plans.lookup i).isSome then
      { s.move (.abandon i) with
        plans := s.plans.filter (fun p => p.1 ≠ i)
        enrolled := s.enrolled.filter (· ≠ Actor.producer i) }
    else s, none)
  | .holdSink name =>
    let (sink, s) := s.newReader name
    ({ s with hands := (name, sink) :: s.hands.filter (fun h => h.1 ≠ name) }, none)
  | .dropSink name => ({ s with hands := s.hands.filter (fun h => h.1 ≠ name) }, none)
  | .dropReader name => (s.dropReader name, none)
  | .subscribe topic name =>
    let (sink, s) := s.newReader name
    (if s.privateBus then { s with outerBus := s.outerBus.subscribe topic sink }
    else s.move (.attach topic sink), none)
  | .awaitStopped =>
    (if s.owned then { s with awaitingStop := s.awaitingStop ++ [index] } else s, none)
  | .awaitSent count => ({ s with awaitingSent := s.awaitingSent ++ [(index, count)] }, none)
  | .wait millis => (s.wait millis, none)

/-- A step, everything that follows from it at once, and what can be seen then. -/
def take (s : Simulation) (index : Nat) (step : Step) : StepReport × Simulation :=
  let (s, result) := s.act index step
  let s := s.settle.finishAwaiting
  (s.report result, s.seen)

/-- Steps one after the other, of which the first has the given index. -/
def takeAll (s : Simulation) (index : Nat) : List Step → List StepReport × Simulation
  | [] => ([], s)
  | step :: rest =>
    let (report, s) := s.take index step
    let (reports, s) := s.takeAll (index + 1) rest
    (report :: reports, s)

/-- The set-up of a simulation. -/
structure Setup where
  /-- The peer. -/
  peer : Peer
  /-- How messages are sent. -/
  settings : SendSettings := {}
  /-- The limits of the pool, if it has any. -/
  limits : Option MemoryLimits := none
  /-- The outcomes of the writes, if messages go over streams. -/
  script : Option (List WriteOutcome) := none
  /-- The queue publishes on a bus that nobody else can reach. -/
  privateBus : Bool := false
  /-- The topic of the first message. -/
  firstTopic : Topic := Topic.first

/-- A new simulation, if the settings are valid. -/
def new? (setup : Setup) : Except SettingsError Simulation := do
  let pool := match setup.limits with
    | some limits => .limited { limits }
    | none => .unlimited {}
  let queue ← Queue.new? setup.peer setup.settings pool
  return {
    queue := { queue with
      backlog := { queue.backlog with nextTopic := some setup.firstTopic } }
    script := setup.script
    privateBus := setup.privateBus }

/-- The bus that others can reach. -/
def visibleBus (s : Simulation) : Bus := if s.privateBus then s.outerBus else s.queue.bus

/-- The totals of a pool without limits: granted, given back, and peers released as a whole. -/
def totals (s : Simulation) : Option (Nat × Nat × Nat) :=
  match s.queue.pool with
  | .limited _ => none
  | .unlimited l =>
    some (l.granted.foldr (· + ·) 0, l.released.foldr (· + ·) 0, l.peersReleased.length)

/-! ## A single message -/

/-- What becomes of one list of instructions carried out on a new queue whose worker is started
afterwards. -/
structure SingleMessage where
  /-- What the producer saw. -/
  completion : Option Completion
  /-- The message, if there was anything to send. -/
  message : Option Message
  /-- The amounts given back. -/
  released : List Nat
  /-- The events of each reader. -/
  events : List (String × List Event)
  /-- The readers that saw the end. -/
  closed : List String

/-- Carries instructions out on a new queue, without reserving memory, and starts its worker. -/
def single (plan : List Instruction) : Except SettingsError SingleMessage := do
  let s ← new? { peer := Peer.zero }
  let (reports, s) := s.takeAll 0 [.build 0 plan, .startup]
  return {
    completion := (reports.flatMap (·.completed)).head?.map Prod.snd
    message := (reports.flatMap (·.sent)).head?
    released := match s.queue.pool with
      | .limited _ => []
      | .unlimited l => l.released
    events := reports.flatMap (·.events)
    closed := (reports.flatMap (·.closed)).mergeSort }

end Simulation

end Outbox
