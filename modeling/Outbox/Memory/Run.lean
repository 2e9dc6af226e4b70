import Outbox.Memory.Allocator

/-!
# Runs of an allocator

What is done to an allocator, move by move, and what is seen of it. The order in which a grant pass
visits the peers is part of the move, since nothing is promised about it but that every peer is
visited.

* `Allocator.giveBack`, `Allocator.clear` — what a release frees before the grant pass;
* `MemoryMove`, `Allocator.step`, `Allocator.run` — one move, and moves one after the other;
* `Allocator.Visits` — every peer is visited by the pass that a move makes;
* `MemoryRecord`, `Allocator.record`, `Allocator.records` — what is seen.
-/

namespace Outbox

/-- A request for memory as it is made. -/
structure Demand where
  /-- The request. -/
  ticket : Ticket
  /-- The peer that asks. -/
  peer : Peer
  /-- The bytes asked for. -/
  amount : Nat
deriving DecidableEq

/-- What is done to an allocator. A release says in which order the pass after it visits the
peers. -/
inductive MemoryMove where
  /-- A peer asks for memory. -/
  | request (demand : Demand)
  /-- A peer gives some memory back. -/
  | release (peer : Peer) (amount : Nat) (order : List Peer)
  /-- A peer gives all of its memory back. -/
  | releasePeer (peer : Peer) (order : List Peer)
  /-- Nobody wants the answer to a request any more. -/
  | abandon (ticket : Ticket)
  /-- The answer to a request is read, if there is one. -/
  | collect (ticket : Ticket)
deriving DecidableEq

/-- The request that a move makes. -/
def MemoryMove.demand? : MemoryMove → Option Demand
  | request d => some d
  | _ => none

/-- What is seen of one move. -/
structure MemoryRecord where
  /-- Why the move was refused. -/
  refusal : Option MemoryError
  /-- The requests answered, which are those granted and those refused. -/
  answered : List (Ticket × Grant)
  /-- The answer that was read. -/
  read : Option Grant
  /-- The bytes held by all peers together after the move. -/
  total : Nat
  /-- The bytes that each peer holds after the move. -/
  held : Peer → Nat

namespace Allocator

/-! ## Moves -/

/-- Takes back some of what a peer holds, without a grant pass. -/
def giveBack (a : Allocator) (p : Peer) (amount : Nat) : Except MemoryError Allocator :=
  match a.accounts.get? p with
  | none => .error (.unknownPeer p)
  | some account =>
    if account.held < amount then .error (.releaseExceeds amount account.held)
    else
      .ok { a with
        total := a.total - amount
        accounts := a.accounts.insert p { account with held := account.held - amount } }

/-- Takes back all that a peer holds and refuses everyone in its line, without a grant pass;
nothing is done for a peer without an account. -/
def clear (a : Allocator) (p : Peer) : Option Allocator :=
  (a.accounts.get? p).map fun account =>
    { a with
      total := a.total - account.held
      accounts := a.accounts.erase p
      answers := a.answers ++
        (account.line.filter (·.live)).map (fun w => (w.ticket, .refused (.peerReleased p))) }

/-- What a release frees, and the order of the grant pass that follows. -/
def freed (a : Allocator) : MemoryMove → Option (Allocator × List Peer)
  | .release p amount order => (a.giveBack p amount).toOption.map (·, order)
  | .releasePeer p order => (a.clear p).map (·, order)
  | _ => none

/-- The allocator after a move; a move that is refused changes nothing. -/
def step (a : Allocator) (m : MemoryMove) : Allocator :=
  match m with
  | .request d => a.request d.ticket d.peer d.amount
  | .release .. | .releasePeer .. => (a.freed m).elim a fun (b, order) => b.grantAlong order
  | .abandon t => a.abandon t
  | .collect t => (a.take? t).elim a Prod.snd

/-- Why a move is refused. -/
def refusal? (a : Allocator) : MemoryMove → Option MemoryError
  | .release p amount _ =>
    match a.giveBack p amount with
    | .ok _ => none
    | .error cause => some cause
  | _ => none

/-- Moves one after the other. -/
def run (a : Allocator) (moves : List MemoryMove) : Allocator := moves.foldl step a

/-- Every peer that has an account is in the list. -/
def Covers (order : List Peer) (a : Allocator) : Prop := ∀ p ∈ a.accounts.keys, p ∈ order

/-- The grant pass of the move, if it makes one, visits every peer. -/
def Visits (a : Allocator) (m : MemoryMove) : Prop :=
  ∀ b order, a.freed m = some (b, order) → Covers order b

/-! ## What is seen -/

/-- The answers that a move gives. -/
def answered (a : Allocator) (m : MemoryMove) : List (Ticket × Grant) :=
  (a.step m).answers.drop a.answers.length

/-- The answer that a move reads. -/
def read? (a : Allocator) : MemoryMove → Option Grant
  | .collect t => a.answers.lookup t
  | _ => none

/-- What is seen of a move. -/
def record (a : Allocator) (m : MemoryMove) : MemoryRecord where
  refusal := a.refusal? m
  answered := a.answered m
  read := a.read? m
  total := (a.step m).total
  held := (a.step m).held

/-- What is seen of moves one after the other. -/
def records (a : Allocator) : List MemoryMove → List MemoryRecord
  | [] => []
  | m :: rest => a.record m :: (a.step m).records rest

end Allocator

end Outbox
