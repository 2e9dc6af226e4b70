import Outbox.Memory.Error
import Outbox.Message.Backlog
import Outbox.Network.Error
import Outbox.Settings.Basic

/-!
# What a queue does

* `Action` — one call that a queue makes on the pool, the bus or the network, how it ended, or one
  change of its backlog;
* `Action.text?` — the line that a watcher of the calls sees; a sender that opens and changes of the
  backlog have none.
-/

namespace Outbox

/-- One thing that a queue does. -/
inductive Action where
  /-- A producer asks for memory. -/
  | allocate (producer : Nat) (amount : Nat)
  /-- A producer gets its memory, or learns why not. -/
  | allocated (producer : Nat) (amount : Nat) (failure : Option MemoryError)
  /-- The edits of a producer are carried out. -/
  | mutated (producer : Nat) (edits : List Edit) (report : EditReport)
  /-- A producer's edits will never be carried out. -/
  | skipped (producer : Nat)
  /-- Memory is given back. -/
  | release (amount : Nat) (failure : Option MemoryError)
  /-- All the peer's memory is given back. -/
  | releasePeer (peer : Peer)
  /-- The worker takes a builder off the backlog. -/
  | dequeued (builder : Builder)
  /-- A builder left in the backlog is thrown away. -/
  | discarded (builder : Builder)
  /-- Everything that belongs to the requests is removed from the backlog. -/
  | scrubbed (requests : List RequestId)
  /-- Publishing begins. -/
  | busStarted
  /-- A sink is registered for a topic. -/
  | subscribed (topic : Topic) (sink : Sink)
  /-- An event is published to so many receivers. -/
  | published (topic : Topic) (event : Event) (receivers : Nat)
  /-- A topic is closed. -/
  | closed (topic : Topic)
  /-- Publishing ends. -/
  | busStopped
  /-- A sender for the peer is asked for. -/
  | opening (peer : Peer) (settings : SendSettings)
  /-- The sender that was asked for is open. -/
  | opened
  /-- The send of a message begins. -/
  | sending (message : Message)
  /-- The message was sent. -/
  | sendOk
  /-- The send failed. -/
  | sendFailed (failure : NetworkError)
  /-- The sender is reset. -/
  | senderReset
  /-- The stream of a failed request is closed. -/
  | streamClosed (stream : Stream)

namespace Action

/-- The reason of a failure, after an arrow. -/
def failureText : Option MemoryError → String
  | none => ""
  | some e => " -> " ++ e.message

/-- The line that a watcher of the calls sees. -/
def text? : Action → Option String
  | allocate _ amount => some ("allocate " ++ amount.repr)
  | allocated _ amount failure => some ("allocated " ++ amount.repr ++ failureText failure)
  | mutated .. => none
  | skipped _ => none
  | release amount failure => some ("release " ++ amount.repr ++ failureText failure)
  | releasePeer peer => some ("release_peer " ++ peer.text)
  | dequeued _ => none
  | discarded _ => none
  | scrubbed _ => none
  | busStarted => some "bus startup"
  | subscribed topic _ => some ("subscribe " ++ topic.text)
  | published topic event receivers =>
    some ("publish " ++ topic.text ++ " " ++ event.stage.name ++ " -> " ++ receivers.repr)
  | closed topic => some ("close " ++ topic.text)
  | busStopped => some "bus shutdown"
  | opening peer settings =>
    some ("open " ++ peer.text ++ " " ++ settings.retries.repr ++ " " ++ settings.timeout.text
      ++ " " ++ settings.backoff.text)
  | opened => none
  | sending _ => some "send"
  | sendOk => some "send ok"
  | sendFailed failure => some ("send failed: " ++ failure.message)
  | senderReset => some "sender reset"
  | streamClosed stream => some ("stream_close " ++ stream.name)

/-- The call goes to the bus. -/
def toBus : Action → Bool
  | busStarted => true
  | subscribed .. => true
  | published .. => true
  | closed _ => true
  | busStopped => true
  | _ => false

end Action

end Outbox
