import Outbox.Memory.Wrapped

/-!
# Sessions with an allocator

A session is an allocator together with those who wait for it. Requests are named by the number
of the step that makes them, and their answers are read after each step, the oldest request first.
The allocator counts bytes in machine words.

* `MemorySession` — the allocator, the open requests, and the peers named so far;
* `MemorySession.Step`, `MemorySession.Report` — what is done, and what is seen then;
* `MemorySession.takeAll` — steps one after the other.
-/

namespace Outbox

/-- An allocator and those who wait for it. -/
structure MemorySession where
  /-- The allocator. -/
  allocator : Allocator := {}
  /-- The requests whose answers were not read, oldest first. -/
  requests : List Ticket := []
  /-- The peers that were granted memory, waited for it or gave some back. -/
  peers : Dict Peer Unit := ∅

namespace MemorySession

/-- One step of a session. A quiet step is one after which no answers are read. -/
inductive Step where
  /-- A peer asks for memory. -/
  | allocate (peer : Peer) (amount : Nat)
  /-- A peer gives memory back. -/
  | release (peer : Peer) (amount : Nat) (quiet : Bool)
  /-- A peer gives all of its memory back. -/
  | releasePeer (peer : Peer) (quiet : Bool)
  /-- The request of an earlier step is given up. -/
  | abandon (ticket : Ticket)

/-- What a step answers. -/
inductive Answer where
  /-- It was done. -/
  | done
  /-- The request waits. -/
  | waiting
  /-- It was refused. -/
  | refused (cause : MemoryError)
  /-- Whether the request was still open. -/
  | wasOpen (value : Bool)
deriving DecidableEq

/-- What is seen after a step. -/
structure Report where
  /-- What the step answered. -/
  answer : Answer
  /-- The requests answered. -/
  resolved : List (Ticket × Grant)
  /-- What is in use. -/
  use : MemoryUse
  /-- What each peer holds. -/
  held : List (Peer × Nat)

/-- A peer was named. -/
def meet (s : MemorySession) (p : Peer) : MemorySession := { s with peers := s.peers.insert p () }

/-- The answer to a call that may be refused; a refusal changes nothing. -/
def attempt (s : MemorySession) : Except MemoryError Allocator → Answer × MemorySession
  | .ok allocator => (.done, { s with allocator })
  | .error cause => (.refused cause, s)

/-- The answer that a grant stands for. -/
def ofGrant : Grant → Answer
  | .granted => .done
  | .refused cause => .refused cause

/-- What the step with a number does itself. -/
def act (s : MemorySession) (index : Nat) : Step → Answer × MemorySession
  | .allocate p amount =>
    let s := s.meet p
    let allocator := Allocator.Wrapped.request s.allocator index p amount
    match allocator.take? index with
    | some (grant, allocator) => (ofGrant grant, { s with allocator })
    | none => (.waiting, { s with allocator, requests := s.requests ++ [index] })
  | .release p amount _ => (s.meet p).attempt (Allocator.Wrapped.release s.allocator p amount)
  | .releasePeer p _ => (.done, { s with allocator := Allocator.Wrapped.releasePeer s.allocator p })
  | .abandon t =>
    (.wasOpen (s.requests.contains t),
      { s with
        allocator := s.allocator.abandon t
        requests := s.requests.filter (· ≠ t) })

/-- No answers are read after the step. -/
def Step.isQuiet : Step → Bool
  | release _ _ quiet => quiet
  | releasePeer _ quiet => quiet
  | _ => false

/-- Reads the answers to requests, one request after the other. -/
def readAnswers (a : Allocator) : List Ticket → List (Ticket × Grant) × Allocator
  | [] => ([], a)
  | t :: rest =>
    match a.take? t with
    | none => readAnswers a rest
    | some (grant, a) =>
      let (grants, a) := readAnswers a rest
      ((t, grant) :: grants, a)

/-- Reads the answers to all open requests. -/
def poll (s : MemorySession) : List (Ticket × Grant) × MemorySession :=
  let (grants, allocator) := readAnswers s.allocator s.requests
  (grants, { s with
    allocator
    requests := s.requests.filter fun t => !(grants.map Prod.fst).contains t })

/-- A step, and what is seen then. -/
def take (s : MemorySession) (index : Nat) (step : Step) : Report × MemorySession :=
  let (answer, s) := s.act index step
  let (resolved, s) := if step.isQuiet then ([], s) else s.poll
  ({ answer
     resolved
     use := s.allocator.use
     held := s.peers.keys.map fun p => (p, s.allocator.held p) }, s)

/-- Steps one after the other, of which the first has the given number. -/
def takeAll (s : MemorySession) (index : Nat) : List Step → List Report
  | [] => []
  | step :: rest =>
    let (report, s) := s.take index step
    report :: s.takeAll (index + 1) rest

end MemorySession

end Outbox
