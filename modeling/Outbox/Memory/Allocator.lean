import Outbox.Dict.Basic
import Outbox.Memory.Error
import Outbox.Settings.Basic

/-!
# The allocator

Block memory is limited in total and for each peer. A request that does not fit waits in the line
of its peer; what is released is handed to those who wait.

* `Allocator` — what every peer holds and who waits;
* `Allocator.fits` — when a request is granted;
* `Allocator.request`, `Allocator.release`, `Allocator.releasePeer`, `Allocator.abandon` — the
  operations;
* `Allocator.grantWaiting` — serves the lines of all peers after a release;
* `Allocator.take?` — reads the answer to a request.
-/

namespace Outbox

/-- The name of one request for memory. -/
abbrev Ticket := Nat

/-- The answer to a request for memory. -/
inductive Grant where
  /-- The memory is held from now on. -/
  | granted
  /-- There will be no memory. -/
  | refused (cause : MemoryError)
deriving DecidableEq

/-- A request that waits. -/
structure Waiter where
  /-- The request. -/
  ticket : Ticket
  /-- The bytes asked for. -/
  amount : Nat
  /-- Someone still wants them. -/
  live : Bool := true
deriving DecidableEq

/-- What one peer holds and its line. -/
structure Account where
  /-- The bytes held. -/
  held : Nat := 0
  /-- The requests that wait, the oldest first. -/
  line : List Waiter := []
deriving DecidableEq

/-- How much may be held at a time, how much is held, and who waits. -/
structure Allocator where
  /-- The limits. -/
  limits : MemoryLimits := {}
  /-- The bytes held by all peers together. -/
  total : Nat := 0
  /-- The peers that hold memory or wait for it. -/
  accounts : Dict Peer Account := ∅
  /-- The answers not read yet, in the order given. -/
  answers : List (Ticket × Grant) := []

/-- A count of what an allocator has in use. -/
structure MemoryUse where
  /-- The bytes held. -/
  total : Nat
  /-- The peers that hold memory or wait for it. -/
  peers : Nat
  /-- The requests that wait. -/
  waiting : Nat
deriving DecidableEq

namespace Allocator

/-- A request fits if it keeps to both limits; one that exceeds a limit by itself fits when
nothing that counts towards that limit is held. The sums are exact, here as in all operations
below; `Wrapped.fits` has them as they come out in machine words, which is the same as long as they
are less than `2 ^ 64`. -/
def fits (limits : MemoryLimits) (total held amount : Nat) : Bool :=
  (total + amount ≤ limits.total ∨ total = 0) ∧ (held + amount ≤ limits.perPeer ∨ held = 0)

/-- The account of a peer. -/
def account (a : Allocator) (p : Peer) : Account := a.accounts.getD p {}

/-- The bytes that a peer holds. -/
def held (a : Allocator) (p : Peer) : Nat := (a.account p).held

/-- What is in use. -/
def use (a : Allocator) : MemoryUse where
  total := a.total
  peers := a.accounts.size
  waiting := (a.accounts.values.map fun c => c.line.length).foldr (· + ·) 0

/-- Serves a line until its head does not fit: the bytes held in total, the account, and the
requests granted. Heads that nobody wants any more are dropped. -/
def serve (limits : MemoryLimits) (total held : Nat) : List Waiter → Nat × Account × List Ticket
  | [] => (total, ⟨held, []⟩, [])
  | w :: line =>
    if !w.live then serve limits total held line
    else if fits limits total held w.amount then
      let (total, account, tickets) :=
        serve limits (total + w.amount) (held + w.amount) line
      (total, account, w.ticket :: tickets)
    else (total, ⟨held, w :: line⟩, [])

/-- Serves the line of one peer. -/
def grantPeer (a : Allocator) (p : Peer) : Allocator :=
  match a.accounts.get? p with
  | none => a
  | some account =>
    let (total, account, tickets) := serve a.limits a.total account.held account.line
    { a with
      total
      accounts := a.accounts.insert p account
      answers := a.answers ++ tickets.map (·, .granted) }

/-- An account is dropped when it holds nothing and nobody waits. -/
def prune (a : Allocator) : Allocator :=
  { a with accounts := a.accounts.filter fun _ c => 0 < c.held ∨ !c.line.isEmpty }

/-- Serves the lines of the given peers, one after the other. -/
def grantAlong (a : Allocator) (peers : List Peer) : Allocator := (peers.foldl grantPeer a).prune

/-- Serves the lines of all peers. -/
def grantWaiting (a : Allocator) : Allocator := a.grantAlong a.accounts.keys

/-- Asks for memory. The request is granted at once if nobody waits in the peer's line and it
fits, and joins the line otherwise. What is held then is an exact sum, which `Wrapped.request`
cuts down to a machine word. -/
def request (a : Allocator) (t : Ticket) (p : Peer) (amount : Nat) : Allocator :=
  let account := a.account p
  if account.line.isEmpty && fits a.limits a.total account.held amount then
    { a with
      total := a.total + amount
      accounts := a.accounts.insert p { account with held := account.held + amount }
      answers := a.answers ++ [(t, .granted)] }
  else
    let line := account.line ++ [⟨t, amount, true⟩]
    { a with accounts := a.accounts.insert p { account with line } }

/-- Gives back some of what a peer holds. -/
def release (a : Allocator) (p : Peer) (amount : Nat) : Except MemoryError Allocator :=
  match a.accounts.get? p with
  | none => .error (.unknownPeer p)
  | some account =>
    if account.held < amount then .error (.releaseExceeds amount account.held)
    else
      .ok (grantWaiting { a with
        total := a.total - amount
        accounts := a.accounts.insert p { account with held := account.held - amount } })

/-- Gives back all that a peer holds and refuses everyone in its line. -/
def releasePeer (a : Allocator) (p : Peer) : Allocator :=
  match a.accounts.get? p with
  | none => a
  | some account =>
    grantWaiting { a with
      total := a.total - account.held
      accounts := a.accounts.erase p
      answers := a.answers ++
        (account.line.filter (·.live)).map (fun w => (w.ticket, .refused (.peerReleased p))) }

/-- Nobody wants the answer to a request any more. If it waits, it will not be granted; if it was
granted, the memory stays held. -/
def abandon (a : Allocator) (t : Ticket) : Allocator :=
  { a with
    accounts := a.accounts.mapValues fun _ account =>
      { account with line := account.line.map fun w =>
          if w.ticket = t then { w with live := false } else w }
    answers := a.answers.filter (fun e => e.1 ≠ t) }

/-- Reads the answer to a request, if there is one. -/
def take? (a : Allocator) (t : Ticket) : Option (Grant × Allocator) :=
  (a.answers.lookup t).map fun grant =>
    (grant, { a with answers := a.answers.filter (fun e => e.1 ≠ t) })

/-- The request waits in some line. -/
def isWaiting (a : Allocator) (t : Ticket) : Bool :=
  a.accounts.values.any fun account => account.line.any fun w => w.live ∧ w.ticket = t

/-- The request waits, or its answer has not been read. -/
def isOpen (a : Allocator) (t : Ticket) : Bool := a.isWaiting t || (a.answers.lookup t).isSome

end Allocator

end Outbox
