import Outbox.Message.Builder

/-!
# Edits

What a producer does to a builder is a list of edits, each with a reply.

* `Edit` — one change to a builder, or one question about it;
* `Builder.apply`, `Builder.applyAll` — carry edits out;
* `Edit.reply` — what the producer learns from an edit.
-/

namespace Outbox

/-- One change to a builder, or one question about it. -/
inductive Edit where
  /-- Adds a block. -/
  | addBlock (block : Block)
  /-- Says something about a link. -/
  | addLink (r : RequestId) (link : Link) (action : LinkAction)
  /-- Sets a status. -/
  | setStatus (r : RequestId) (status : Status)
  /-- Sets further data under a name. -/
  | setExtension (r : RequestId) (name : String) (data : List UInt8)
  /-- Adds a block record. -/
  | addRecord (r : RequestId) (record : BlockRecord)
  /-- Sets the stream of a request. -/
  | setStream (r : RequestId) (stream : Stream)
  /-- Adds a sink. -/
  | addNotifee (r : RequestId) (sink : Sink)
  /-- Removes everything that belongs to the requests. -/
  | scrub (requests : List RequestId)
  /-- Asks for the size. -/
  | askSize
  /-- Asks whether there is a response to a request. -/
  | askResponse (r : RequestId)
  /-- Asks for a summary in one line. -/
  | askSummary

/-- What a producer learns from an edit. -/
inductive Reply where
  /-- The size after the edit. -/
  | size (bytes : Nat)
  /-- The bytes that the edit freed. -/
  | freed (bytes : Nat)
  /-- The answer to a yes-or-no question. -/
  | answer (value : Bool)
  /-- A text. -/
  | text (value : String)
deriving DecidableEq

namespace Builder

/-- The builder after an edit. -/
def apply (b : Builder) : Edit → Builder
  | .addBlock block => b.addBlock block
  | .addLink r link action => b.addLink r link action
  | .setStatus r status => b.setStatus r status
  | .setExtension r name data => b.setExtension r name data
  | .addRecord r record => b.addRecord r record
  | .setStream r stream => b.setStream r stream
  | .addNotifee r sink => b.addNotifee r sink
  | .scrub requests => b.scrub requests
  | .askSize => b
  | .askResponse _ => b
  | .askSummary => b

/-- The builder after a list of edits. -/
def applyAll (b : Builder) (edits : List Edit) : Builder := edits.foldl apply b

/-- What is learnt from one edit. -/
def reply (b : Builder) : Edit → Reply
  | .scrub requests => .freed (b.scrubFrees requests)
  | .askResponse r => .answer (b.hasResponse r)
  | .askSummary => .text b.summary
  | edit => .size (b.apply edit).size

/-- What is learnt from each of a list of edits. -/
def replies (b : Builder) : List Edit → List Reply
  | [] => []
  | edit :: rest => b.reply edit :: (b.apply edit).replies rest

end Builder

end Outbox
