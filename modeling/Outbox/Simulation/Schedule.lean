import Outbox.Simulation.Basic

/-!
# The order of a simulation

* `Simulation.turn?` — one turn of the worker with the reply of the network, if it can have one;
* `Simulation.poll` — a task runs until it must wait;
* `Simulation.settle` — all tasks run until nothing can proceed without the clock;
* `Simulation.wait` — the clock runs.
-/

namespace Outbox.Simulation

/-! ## The network -/

/-- The calls of the send under way that are due by now go into the trace. -/
def emitDue (s : Simulation) : Simulation :=
  match s.flight with
  | some (.planned calls finish failure) =>
    { s with
      flight := some (.planned (calls.filter (fun c => s.now < c.1)) finish failure)
      trace := s.trace ++ (calls.filter (fun c => c.1 ≤ s.now)).map fun c => .stream c.1 c.2 }
  | _ => s

/-- Asks the network for a sender. -/
def openSender (s : Simulation) : Simulation :=
  if s.script.isSome then s.move (.work (some .opened))
  else if s.network.refusing then
    s.move (.work (some (.openFailed (.connectionFailed s.queue.peer "mock refused"))))
  else
    { s with network := { s.network with
        opens := s.network.opens + 1
        lastRetries := some s.queue.settings.retries } }.move (.work (some .opened))

/-- The send under way ended. -/
def land (s : Simulation) (m : Message) (failure : Option NetworkError) : Simulation :=
  let s := { s with flight := none }
  match failure with
  | none => { s with delivered := s.delivered ++ [m] }.move (.work (some .sent))
  | some e => s.move (.work (some (.sendFailed e)))

/-- The send of a message begins. -/
def launch (s : Simulation) (m : Message) : Simulation :=
  match s.script with
  | some script =>
    let record := Retry.send s.queue.settings s.now script
    { s with
      script := some record.left
      flight := some (.planned record.calls record.finish record.failure) }.emitDue
  | none =>
    if s.network.stalling then { s with flight := some .stalled }
    else if s.network.failing then s.land m (some (.retriesExhausted 1 "mock failure"))
    else { s with network := { s.network with sends := s.network.sends + 1 } }.land m none

/-- The sender is reset. -/
def resetSender (s : Simulation) : Simulation :=
  let s :=
    if s.script.isSome then { s with trace := s.trace ++ [.stream s.now .reset] }
    else { s with network := { s.network with resets := s.network.resets + 1 } }
  s.move (.work (some .resetDone))

/-! ## Tasks -/

/-- One turn of the worker, if it does not have to wait. -/
def turn? (s : Simulation) : Option Simulation :=
  match s.queue.worker with
  | .unstarted => none
  | .launched => some (s.move (.work none))
  | .choosing _ =>
    if s.queue.cancelled || s.queue.stopRequested || s.queue.token then
      some (s.move (.work none))
    else none
  | .opening _ => some (if s.queue.cancelled then s.move (.work none) else s.openSender)
  | .sending d =>
    if s.queue.cancelled then some ({ s with flight := none }.move (.work none))
    else
      match s.flight with
      | none => some (s.launch d.message)
      | some .stalled => none
      | some (.planned _ finish failure) =>
        if finish ≤ s.now then some (s.land d.message failure) else none
  | .resetting .. => some s.resetSender
  | .parting => some s.resetSender
  | .stopped => none

/-- The worker has turns until it must wait, at most so many. -/
def runWorker : Nat → Simulation → Simulation
  | 0, s => s
  | n + 1, s =>
    match s.turn? with
    | none => s
    | some s => runWorker n s

/-- A bound on the turns that the worker can have before it must wait. -/
def workerBound (s : Simulation) : Nat := 8 * s.queue.backlog.builders.length + 16

/-- A task runs until it must wait. -/
def poll (s : Simulation) : Actor → Simulation
  | .worker =>
    let s := s.runWorker s.workerBound
    { s with enrolled := s.enrolled.filter (· ≠ Actor.worker) ++ [.worker] }
  | .producer t =>
    match s.plans.lookup t with
    | none => s
    | some plan => s.produce t plan (.resume t)
  | .borrower t =>
    match s.queue.pool.answers.lookup t with
    | none => s
    | some grant =>
      let c := match grant with
        | .granted => .held
        | .refused e => .refused e
      ({ s with borrowers := s.borrowers.filter (· ≠ t) }.move (.collect t)).complete t c

/-- When the owner and everyone who holds the queue for it are gone, nobody can reach it. -/
def letGo (s : Simulation) : Simulation :=
  if !s.owned && s.plans.isEmpty && s.awaitingStop.isEmpty then s.move .letGo else s

/-- The tasks that wait for an answer and have one, in the order of the answers. -/
def answered (s : Simulation) : List Actor :=
  s.queue.pool.answers.filterMap fun (t, _) =>
    if (s.plans.lookup t).isSome then some (.producer t)
    else if s.borrowers.contains t then some (.borrower t)
    else none

/-- Lines up the tasks that can run and are not in line yet. -/
def wake (s : Simulation) : Simulation :=
  let ready := s.ready ++ s.answered.filter (fun t => !s.ready.contains t)
  { s with ready :=
      if s.turn?.isSome && !ready.contains Actor.worker then ready ++ [.worker] else ready }

/-- Tasks run in turn until none can, at most so many. -/
def runReady : Nat → Simulation → Simulation
  | 0, s => s
  | n + 1, s =>
    let s := s.wake
    match s.ready with
    | [] => s
    | t :: rest => runReady n (({ s with ready := rest }.poll t).letGo)

/-- A bound on the number of times that tasks can run before nothing can proceed. -/
def readyBound (s : Simulation) : Nat :=
  4 * (s.ready.length + s.plans.length + s.borrowers.length) + 16

/-- All tasks run until nothing can proceed without the clock. -/
def settle (s : Simulation) : Simulation := s.letGo.runReady s.readyBound

/-! ## The clock -/

/-- The time at which the send under way proceeds. -/
def nextTimer? (s : Simulation) : Option Nat :=
  match s.flight with
  | some (.planned ((time, _) :: _) _ _) => some time
  | some (.planned [] finish _) => some finish
  | _ => none

/-- The clock runs up to a time, and everything proceeds on the way, at most so many times. -/
def runClock (target : Nat) : Nat → Simulation → Simulation
  | 0, s => { s with now := target }
  | n + 1, s =>
    match s.nextTimer? with
    | none => { s with now := target }
    | some time =>
      if time ≤ target then runClock target n ({ s with now := time }.emitDue.settle)
      else { s with now := target }

/-- The clock runs for some milliseconds. -/
def wait (s : Simulation) (millis : Nat) : Simulation :=
  s.runClock (s.now + millis) (millis + 1)

end Outbox.Simulation
