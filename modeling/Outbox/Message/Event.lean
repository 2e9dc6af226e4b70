import Outbox.Message.Basic

/-!
# Lifecycle events

* `QueueError` — why a message is not delivered, or a change to a queue is refused;
* `Event` — a step in the life of a message, as its observers see it.
-/

namespace Outbox

/-- Why a message is not delivered, or a change to a queue is refused. -/
inductive QueueError where
  /-- The message has no content. -/
  | emptyMessage
  /-- No connection for sending could be opened. -/
  | senderOpen (peer : Peer) (reason : String)
  /-- The send failed. -/
  | sendFailed (peer : Peer) (reason : String)
  /-- The send was called off. -/
  | cancelled (peer : Peer)
  /-- The queue was shut down. -/
  | shutdown
  /-- No topic is left for a new message. -/
  | topicsExhausted
deriving DecidableEq

namespace QueueError

/-- The message for a reader. -/
def message : QueueError → String
  | emptyMessage => "empty message"
  | senderOpen peer reason => "cant open message sender to peer " ++ peer.text ++ ": " ++ reason
  | sendFailed peer reason =>
    "expended retries on send to peer " ++ peer.text ++ ": " ++ reason
  | cancelled peer => "send to peer " ++ peer.text ++ " cancelled"
  | shutdown => "message queue shutdown"
  | topicsExhausted => "message topics exhausted"

end QueueError

/-- The steps in the life of a message. -/
inductive Stage where
  /-- The message is about to be sent. -/
  | queued
  /-- The message was sent. -/
  | sent
  /-- The message will never be delivered. -/
  | failed (cause : QueueError)
deriving DecidableEq

namespace Stage

/-- The name of the step. -/
def name : Stage → String
  | queued => "Queued"
  | sent => "Sent"
  | failed _ => "Error"

/-- Why the message failed, if it did. -/
def cause? : Stage → Option QueueError
  | failed cause => some cause
  | _ => none

/-- Nothing more happens to the message. -/
def isTerminal : Stage → Bool
  | queued => false
  | _ => true

end Stage

/-- A step in the life of a message, with what observers are told about the message. -/
structure Event where
  /-- The step. -/
  stage : Stage
  /-- What observers are told. -/
  metadata : Metadata

end Outbox
