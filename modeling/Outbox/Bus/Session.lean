import Outbox.Bus.Basic

/-!
# Sessions on a topic bus

A session is a bus of texts together with one hand that holds sinks and subscriptions by name.

* `BusSession` — the bus, the mailboxes, and what the hand holds;
* `BusSession.Step`, `BusSession.Answer` — what is done, and what is learnt from it;
* `BusSession.take`, `BusSession.takeAll` — one step, and many.
-/

namespace Outbox

/-- A bus of texts, and the sinks and subscriptions that one hand holds. -/
structure BusSession where
  /-- The bus. -/
  bus : Bus := {}
  /-- The mailboxes. -/
  post : Post String := {}
  /-- The sinks in the hand, by name. -/
  sinks : List (String × Sink) := []
  /-- The mailboxes that the hand reads, by name. -/
  readers : List (String × Sink) := []
  /-- The number of mailboxes made so far. -/
  mailboxes : Nat := 0

namespace BusSession

/-- One step of a session. -/
inductive Step where
  /-- Publishing begins. -/
  | startup
  /-- Publishing ends. -/
  | shutdown
  /-- A topic is closed. -/
  | close (topic : Topic)
  /-- A text is published. -/
  | publish (topic : Topic) (text : String)
  /-- The registrations for a topic are counted. -/
  | count (topic : Topic)
  /-- A new mailbox gets a name, in place of an older one. -/
  | channel (name : String)
  /-- A sink goes from the hand to a topic. -/
  | subscribe (name : String) (topic : Topic)
  /-- A second holder of a sink goes to a topic. -/
  | share (name : String) (topic : Topic)
  /-- A second holder of a sink gets a name in the hand, in place of an older one. -/
  | duplicate (name : String) (other : String)
  /-- A text goes through a sink past the bus. -/
  | send (name : String) (text : String)
  /-- Whether the reader of a sink is gone. -/
  | askClosed (name : String)
  /-- A sink leaves the hand. -/
  | dropSink (name : String)
  /-- A subscription leaves the hand. -/
  | dropReader (name : String)
  /-- Reads one letter if there is one. -/
  | tryReceive (name : String)
  /-- Reads one letter, and would wait for it. -/
  | receive (name : String)
  /-- Reads all letters to the end, and would wait for the end; the subscription is used up. -/
  | collect (name : String)
  /-- Reads all letters to the end, and goes on waiting if the end has not come. The letters that
  have come stay in the mailbox, where nobody sees whether the one who waits has them already. -/
  | await (name : String)

/-- What is learnt from a step. -/
inductive Answer where
  /-- Nothing. -/
  | nothing
  /-- A number. -/
  | number (value : Nat)
  /-- The answer to a yes-or-no question. -/
  | decision (value : Bool)
  /-- The hand holds no sink of that name. -/
  | noSink
  /-- The hand holds no subscription of that name. -/
  | noReader
  /-- The letters read. -/
  | letters (texts : List String)
  /-- There is nothing to read now, but there may be later. -/
  | pending
  /-- There is nothing to read, and never will be. -/
  | ended
deriving DecidableEq

/-- Somewhere a sink is held from which letters may still come. -/
def holds (s : BusSession) (sink : Sink) : Bool :=
  s.bus.holds sink || s.sinks.any (fun h => h.2 = sink)

/-- What is held without the entry of a name. -/
def without (name : String) (held : List (String × Sink)) : List (String × Sink) :=
  held.filter (fun h => h.1 ≠ name)

/-- The sink of a name leaves the hand. -/
def dropSink (s : BusSession) (name : String) : BusSession :=
  { s with sinks := without name s.sinks }

/-- The subscription of a name leaves the hand, and with it the reader of its mailbox. -/
def dropReader (s : BusSession) (name : String) : BusSession :=
  match s.readers.lookup name with
  | none => s
  | some sink =>
    { s with post := s.post.depart sink, readers := without name s.readers }

/-- A new mailbox under a name, whose sink and subscription are both in the hand. -/
def channel (s : BusSession) (name : String) : BusSession :=
  let s := (s.dropSink name).dropReader name
  { s with
    sinks := s.sinks ++ [(name, ⟨s.mailboxes⟩)]
    readers := s.readers ++ [(name, ⟨s.mailboxes⟩)]
    mailboxes := s.mailboxes + 1 }

/-- A step that needs a sink from the hand. -/
def withSink (s : BusSession) (name : String) (f : Sink → Answer × BusSession) :
    Answer × BusSession :=
  match s.sinks.lookup name with
  | none => (.noSink, s)
  | some sink => f sink

/-- A step that needs a subscription from the hand. -/
def withReader (s : BusSession) (name : String) (f : Sink → Answer × BusSession) :
    Answer × BusSession :=
  match s.readers.lookup name with
  | none => (.noReader, s)
  | some sink => f sink

/-- What an empty mailbox has to say. -/
def silence (s : BusSession) (sink : Sink) (later : Answer) : Answer :=
  if s.holds sink then later else .ended

/-- Reads one letter; `later` is the answer if one may still come. -/
def readOne (s : BusSession) (sink : Sink) (later : Answer) : Answer × BusSession :=
  match s.post.take? sink with
  | some (text, post) => (.letters [text], { s with post })
  | none => (s.silence sink later, s)

/-- A step and what is learnt from it. -/
def take (s : BusSession) : Step → Answer × BusSession
  | .startup => (.nothing, { s with bus := s.bus.startup })
  | .shutdown => (.nothing, { s with bus := s.bus.shutdown })
  | .close topic => (.nothing, { s with bus := s.bus.close topic })
  | .publish topic text =>
    let (bus, post, receivers) := s.bus.publish s.post topic text
    (.number receivers, { s with bus, post })
  | .count topic => (.number (s.bus.live s.post topic).length, s)
  | .channel name => (.nothing, s.channel name)
  | .subscribe name topic =>
    s.withSink name fun sink =>
      (.nothing, { s.dropSink name with bus := s.bus.subscribe topic sink })
  | .share name topic =>
    s.withSink name fun sink => (.nothing, { s with bus := s.bus.subscribe topic sink })
  | .duplicate name other =>
    s.withSink name fun sink =>
      (.nothing, { s with sinks := without other s.sinks ++ [(other, sink)] })
  | .send name text =>
    s.withSink name fun sink =>
      (.decision (!s.post.isClosed sink), { s with post := s.post.deliver sink text })
  | .askClosed name => s.withSink name fun sink => (.decision (s.post.isClosed sink), s)
  | .dropSink name => (.decision (s.sinks.lookup name).isSome, s.dropSink name)
  | .dropReader name => (.decision (s.readers.lookup name).isSome, s.dropReader name)
  | .tryReceive name => s.withReader name fun sink => s.readOne sink (.letters [])
  | .receive name => s.withReader name fun sink => s.readOne sink .pending
  | .collect name =>
    s.withReader name fun sink =>
      (if s.holds sink then .pending else .letters (s.post.unread sink), s.dropReader name)
  | .await name =>
    s.withReader name fun sink =>
      if s.holds sink then (.pending, s)
      else (.letters (s.post.unread sink), s.dropReader name)

/-- Steps one after the other: after each one the answer and the bus. -/
def takeAll (s : BusSession) : List Step → List (Answer × Bus)
  | [] => []
  | step :: rest =>
    let (answer, s) := s.take step
    (answer, s.bus) :: s.takeAll rest

end BusSession

end Outbox
