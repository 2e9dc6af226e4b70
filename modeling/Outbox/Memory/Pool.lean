import Outbox.Memory.Allocator

/-!
# Memory pools

A queue draws its block memory from a pool, which keeps to limits or grants everything.  The bytes
are counted exactly.

* `Tally` — a pool without limits that records every call;
* `Pool` — either kind of pool, with the operations of `Allocator`.
-/

namespace Outbox

/-- A pool without limits. It grants every request at once, unless it is told to withhold. -/
structure Tally where
  /-- The amounts granted, in order. -/
  granted : List Nat := []
  /-- The amounts given back, in order. -/
  released : List Nat := []
  /-- The peers whose memory was released as a whole, in order. -/
  peersReleased : List Peer := []
  /-- Requests that come now will never be answered. -/
  withholding : Bool := false
  /-- The answers not read yet. -/
  answers : List (Ticket × Grant) := []

namespace Tally

/-- Asks for memory. -/
def request (l : Tally) (t : Ticket) (amount : Nat) : Tally :=
  if l.withholding then l
  else { l with granted := l.granted ++ [amount], answers := l.answers ++ [(t, .granted)] }

/-- Gives memory back. -/
def release (l : Tally) (amount : Nat) : Tally := { l with released := l.released ++ [amount] }

/-- Gives back all that a peer holds. -/
def releasePeer (l : Tally) (p : Peer) : Tally :=
  { l with peersReleased := l.peersReleased ++ [p] }

/-- Nobody wants the answer to a request any more. -/
def abandon (l : Tally) (t : Ticket) : Tally :=
  { l with answers := l.answers.filter (fun e => e.1 ≠ t) }

/-- Reads the answer to a request, if there is one. -/
def take? (l : Tally) (t : Ticket) : Option (Grant × Tally) :=
  (l.answers.lookup t).map fun grant =>
    (grant, { l with answers := l.answers.filter (fun e => e.1 ≠ t) })

end Tally

/-- A source of block memory. -/
inductive Pool where
  /-- It keeps to limits. -/
  | limited (allocator : Allocator)
  /-- It grants everything. -/
  | unlimited (tally : Tally)

namespace Pool

/-- Asks for memory for a peer. -/
def request (pool : Pool) (t : Ticket) (p : Peer) (amount : Nat) : Pool :=
  match pool with
  | limited a => limited (a.request t p amount)
  | unlimited l => unlimited (l.request t amount)

/-- Gives back some of what a peer holds. -/
def release (pool : Pool) (p : Peer) (amount : Nat) : Except MemoryError Pool :=
  match pool with
  | limited a => (a.release p amount).map limited
  | unlimited l => .ok (unlimited (l.release amount))

/-- Gives back all that a peer holds. -/
def releasePeer (pool : Pool) (p : Peer) : Pool :=
  match pool with
  | limited a => limited (a.releasePeer p)
  | unlimited l => unlimited (l.releasePeer p)

/-- Nobody wants the answer to a request any more. -/
def abandon (pool : Pool) (t : Ticket) : Pool :=
  match pool with
  | limited a => limited (a.abandon t)
  | unlimited l => unlimited (l.abandon t)

/-- The answers not read yet, in the order given. -/
def answers (pool : Pool) : List (Ticket × Grant) :=
  match pool with
  | limited a => a.answers
  | unlimited l => l.answers

/-- Reads the answer to a request, if there is one. -/
def take? (pool : Pool) (t : Ticket) : Option (Grant × Pool) :=
  match pool with
  | limited a => (a.take? t).map fun (grant, a) => (grant, limited a)
  | unlimited l => (l.take? t).map fun (grant, l) => (grant, unlimited l)

/-- The request waits, or its answer has not been read. -/
def isOpen (pool : Pool) (t : Ticket) : Bool :=
  match pool with
  | limited a => a.isOpen t
  | unlimited l => (l.answers.lookup t).isSome

/-- Tells a pool without limits whether requests that come now are never answered. -/
def withhold (pool : Pool) (value : Bool) : Pool :=
  match pool with
  | limited a => limited a
  | unlimited l => unlimited { l with withholding := value }

end Pool

end Outbox
