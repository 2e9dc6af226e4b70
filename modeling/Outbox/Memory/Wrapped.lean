import Outbox.Memory.Run
import Outbox.Word

/-!
# Allocators that count in machine words

The operations of `Allocator` add and subtract exactly.  These are the same operations with words.
The two differ only where bytes add up to `2 ^ 64` or more, and then a request can seem to fit that
does not.

* `Allocator.Wrapped.fits` — when a request is granted, as it comes out with words;
* `Allocator.Wrapped.request`, `Allocator.Wrapped.release`, `Allocator.Wrapped.releasePeer` — the
  operations that add or subtract; the others are those of `Allocator`;
* `Allocator.Wrapped.step`, `Allocator.Wrapped.run` — moves;
* `Allocator.InRange` — nothing that is added up reaches `2 ^ 64`.
-/

namespace Outbox.Allocator

namespace Wrapped

/-! ## Operations -/

/-- A request fits if the sums that are left in a word keep to both limits, or nothing that counts
towards a limit seems to be held. -/
def fits (limits : MemoryLimits) (total held amount : Nat) : Bool :=
  (Word.add total amount ≤ limits.total ∨ total = 0) ∧
    (Word.add held amount ≤ limits.perPeer ∨ held = 0)

/-- Serves a line until its head does not fit: the bytes held in total, the account, and the
requests granted. -/
def serve (limits : MemoryLimits) (total held : Nat) : List Waiter → Nat × Account × List Ticket
  | [] => (total, ⟨held, []⟩, [])
  | w :: line =>
    if !w.live then serve limits total held line
    else if fits limits total held w.amount then
      let (total, account, tickets) :=
        serve limits (Word.add total w.amount) (Word.add held w.amount) line
      (total, account, w.ticket :: tickets)
    else (total, ⟨held, w :: line⟩, [])

/-- Serves the line of one peer. -/
def grantPeer (a : Allocator) (p : Peer) : Allocator :=
  match a.accounts.get? p with
  | none => a
  | some account =>
    let (total, account, tickets) := serve a.limits a.total account.held account.line
    { a with
      total
      accounts := a.accounts.insert p account
      answers := a.answers ++ tickets.map (·, .granted) }

/-- Serves the lines of the given peers, one after the other. -/
def grantAlong (a : Allocator) (peers : List Peer) : Allocator := (peers.foldl grantPeer a).prune

/-- Serves the lines of all peers. -/
def grantWaiting (a : Allocator) : Allocator := grantAlong a a.accounts.keys

/-- Asks for memory. -/
def request (a : Allocator) (t : Ticket) (p : Peer) (amount : Nat) : Allocator :=
  let account := a.account p
  if account.line.isEmpty && fits a.limits a.total account.held amount then
    { a with
      total := Word.add a.total amount
      accounts := a.accounts.insert p { account with held := Word.add account.held amount }
      answers := a.answers ++ [(t, .granted)] }
  else
    let line := account.line ++ [⟨t, amount, true⟩]
    { a with accounts := a.accounts.insert p { account with line } }

/-- Takes back some of what a peer holds, without a grant pass. A peer cannot give back more than it
holds, so only the difference of all bytes can wrap. -/
def giveBack (a : Allocator) (p : Peer) (amount : Nat) : Except MemoryError Allocator :=
  match a.accounts.get? p with
  | none => .error (.unknownPeer p)
  | some account =>
    if account.held < amount then .error (.releaseExceeds amount account.held)
    else
      .ok { a with
        total := Word.sub a.total amount
        accounts := a.accounts.insert p { account with held := account.held - amount } }

/-- Takes back all that a peer holds and refuses everyone in its line, without a grant pass. -/
def clear (a : Allocator) (p : Peer) : Option Allocator :=
  (a.accounts.get? p).map fun account =>
    { a with
      total := Word.sub a.total account.held
      accounts := a.accounts.erase p
      answers := a.answers ++
        (account.line.filter (·.live)).map (fun w => (w.ticket, .refused (.peerReleased p))) }

/-- Gives back some of what a peer holds. -/
def release (a : Allocator) (p : Peer) (amount : Nat) : Except MemoryError Allocator :=
  (giveBack a p amount).map grantWaiting

/-- Gives back all that a peer holds and refuses everyone in its line. -/
def releasePeer (a : Allocator) (p : Peer) : Allocator := (clear a p).elim a grantWaiting

/-! ## Moves -/

/-- What a release frees, and the order of the grant pass that follows. -/
def freed (a : Allocator) : MemoryMove → Option (Allocator × List Peer)
  | .release p amount order => (giveBack a p amount).toOption.map (·, order)
  | .releasePeer p order => (clear a p).map (·, order)
  | _ => none

/-- The allocator after a move; a move that is refused changes nothing. -/
def step (a : Allocator) (m : MemoryMove) : Allocator :=
  match m with
  | .request d => request a d.ticket d.peer d.amount
  | .release .. | .releasePeer .. => (freed a m).elim a fun (b, order) => grantAlong b order
  | .abandon t => a.abandon t
  | .collect t => (a.take? t).elim a Prod.snd

/-- Moves one after the other. -/
def run (a : Allocator) (moves : List MemoryMove) : Allocator := moves.foldl step a

end Wrapped

/-! ## Sums that fit into words -/

/-- Nothing that is added up reaches `2 ^ 64`: the bytes held, and these together with the bytes
asked for at the head of a line. -/
def InRange (a : Allocator) : Prop :=
  a.total < UInt64.size ∧
    ∀ account ∈ a.accounts.values, ∀ w ∈ account.line.head?, a.total + w.amount < UInt64.size

instance (a : Allocator) : Decidable a.InRange :=
  inferInstanceAs (Decidable (_ ∧ ∀ _ ∈ a.accounts.values, _))

end Outbox.Allocator
