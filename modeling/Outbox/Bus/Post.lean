/-!
# Post

Subscribers read from mailboxes. A sink is the right to put letters into one mailbox; it may be
held in many hands at once.

* `Sink` — names the mailbox it fills;
* `Post` — the unread letters of all mailboxes, and the mailboxes whose reader is gone;
* `Post.deliver`, `Post.take?`, `Post.depart` — a letter comes, is read, the reader leaves.
-/

namespace Outbox

/-- The right to put letters into a mailbox. -/
@[ext] structure Sink where
  /-- The number of the mailbox. -/
  mailbox : Nat
deriving DecidableEq

/-- The mailboxes of all subscribers. -/
structure Post (ε : Type) where
  /-- The letters not read yet, oldest first, with their mailboxes. -/
  letters : List (Sink × ε) := []
  /-- The mailboxes that nobody reads any more. -/
  departed : List Sink := []

namespace Post

variable {ε : Type}

/-- What a reader is told who asks for a letter when none can come any more. -/
def closedMessage : String := "Topic closed"

/-- The reader of the mailbox is gone. -/
def isClosed (p : Post ε) (s : Sink) : Bool := p.departed.contains s

/-- Puts a letter into a mailbox, unless its reader is gone. -/
def deliver (p : Post ε) (s : Sink) (letter : ε) : Post ε :=
  if p.isClosed s then p else { p with letters := p.letters ++ [(s, letter)] }

/-- Puts one letter into each of several mailboxes. -/
def deliverAll (p : Post ε) (sinks : List Sink) (letter : ε) : Post ε :=
  sinks.foldl (fun p s => p.deliver s letter) p

/-- The unread letters of a mailbox, oldest first. -/
def unread (p : Post ε) (s : Sink) : List ε :=
  (p.letters.filter (fun l => l.1 = s)).map Prod.snd

/-- The post without the oldest letter of a mailbox. -/
def takeFirst (s : Sink) : List (Sink × ε) → List (Sink × ε)
  | [] => []
  | l :: rest => if l.1 = s then rest else l :: takeFirst s rest

/-- Reads the oldest letter of a mailbox. -/
def take? (p : Post ε) (s : Sink) : Option (ε × Post ε) :=
  (p.unread s).head?.map fun letter => (letter, { p with letters := takeFirst s p.letters })

/-- Reads every letter of a mailbox. -/
def takeAll (p : Post ε) (s : Sink) : List ε × Post ε :=
  (p.unread s, { p with letters := p.letters.filter (fun l => l.1 ≠ s) })

/-- The reader of a mailbox leaves; what was not read is lost. -/
def depart (p : Post ε) (s : Sink) : Post ε :=
  { letters := p.letters.filter (fun l => l.1 ≠ s), departed := s :: p.departed }

end Post

end Outbox
