import Outbox.Bus.Post
import Outbox.Message.Event

/-!
# Message builders

A builder collects the contents of one pending message from any number of contributors.

* `Builder` — responses, blocks and bookkeeping of a pending message;
* `Builder.addBlock`, `Builder.addLink`, … — one change each;
* `Builder.scrub` — removes everything that belongs to given requests, and the blocks that only
  they needed, and says how many bytes that frees;
* `Builder.finish?` — the finished message with what is needed to report on it.
-/

namespace Outbox

/-- A stream on which a response is produced; it is named for those who watch it close. -/
structure Stream where
  /-- The name. -/
  name : String
deriving DecidableEq

/-- A block of a pending message. -/
structure StoredBlock where
  /-- The first block added under its link. -/
  block : Block
  /-- How often a block was added under the link. -/
  contributions : Nat
deriving DecidableEq

namespace StoredBlock

/-- The bytes reserved for the block by all who added it. -/
def reserved (b : StoredBlock) : Nat := b.block.size * b.contributions

end StoredBlock

/-- The contents of a pending message. -/
structure Builder where
  /-- The topic of the message. -/
  topic : Topic
  /-- The block bytes reserved for the message. -/
  size : Nat := 0
  /-- The blocks in the order in which their links were first added. -/
  blocks : List StoredBlock := []
  /-- What is said about links, for each request. -/
  links : Dict RequestId (List LinkEntry) := ∅
  /-- The status of each request, where one was given. -/
  statuses : Dict RequestId Status := ∅
  /-- Further data of each request, by name. -/
  extensions : Dict RequestId (Dict String (List UInt8)) := ∅
  /-- The block records of each request. -/
  records : Dict RequestId (List BlockRecord) := ∅
  /-- The stream of each request, where one was given. -/
  streams : Dict RequestId Stream := ∅
  /-- The sinks of those who watch a request. -/
  notifees : Dict RequestId (List Sink) := ∅

/-- A finished message and what is needed to report on it. -/
structure Finished where
  /-- The message. -/
  message : Message
  /-- Its topic. -/
  topic : Topic
  /-- The block bytes reserved for it. -/
  size : Nat
  /-- What observers are told. -/
  metadata : Metadata
  /-- The streams to close if it fails. -/
  streams : Dict RequestId Stream
  /-- The sinks to register for its topic, one entry for each registration. -/
  sinks : List Sink

namespace Builder

/-- The builder holds neither blocks nor responses. -/
def isEmpty (b : Builder) : Bool :=
  b.blocks.isEmpty && b.links.isEmpty && b.statuses.isEmpty && b.extensions.isEmpty

/-- The builder holds a response to the request. -/
def hasResponse (b : Builder) (r : RequestId) : Bool :=
  b.links.contains r || b.statuses.contains r || b.extensions.contains r

/-- Counts one more contribution to the block stored under the link of `block`, or stores it. -/
def store (block : Block) : List StoredBlock → List StoredBlock
  | [] => [⟨block, 1⟩]
  | s :: rest =>
    if s.block.link = block.link then { s with contributions := s.contributions + 1 } :: rest
    else s :: store block rest

/-- Adds a block. The first payload under a link is kept; every one counts towards the size. -/
def addBlock (b : Builder) (block : Block) : Builder :=
  { b with size := b.size + block.size, blocks := store block b.blocks }

/-- Says something about a link in the response to a request. -/
def addLink (b : Builder) (r : RequestId) (link : Link) (action : LinkAction) : Builder :=
  { b with links := b.links.update r (fun l => l.getD [] ++ [⟨link, action⟩]) }

/-- Sets the status of the response to a request. -/
def setStatus (b : Builder) (r : RequestId) (status : Status) : Builder :=
  { b with statuses := b.statuses.insert r status }

/-- Sets further data of a request under a name. -/
def setExtension (b : Builder) (r : RequestId) (name : String) (data : List UInt8) : Builder :=
  { b with extensions := b.extensions.update r (fun e => (e.getD ∅).insert name data) }

/-- Adds a block record for those who watch a request. -/
def addRecord (b : Builder) (r : RequestId) (record : BlockRecord) : Builder :=
  { b with records := b.records.update r (fun l => l.getD [] ++ [record]) }

/-- Sets the stream of a request. -/
def setStream (b : Builder) (r : RequestId) (stream : Stream) : Builder :=
  { b with streams := b.streams.insert r stream }

/-- Adds a sink of someone who watches a request. -/
def addNotifee (b : Builder) (r : RequestId) (sink : Sink) : Builder :=
  { b with notifees := b.notifees.update r (fun l => l.getD [] ++ [sink]) }

/-! ## Scrubbing -/

/-- Removes everything filed under the given requests and leaves blocks and size as they are. -/
def forget (b : Builder) (requests : List RequestId) : Builder :=
  { b with
    links := b.links.eraseAll requests
    statuses := b.statuses.eraseAll requests
    extensions := b.extensions.eraseAll requests
    records := b.records.eraseAll requests
    streams := b.streams.eraseAll requests
    notifees := b.notifees.eraseAll requests }

/-- How often responses say that the block under a link is sent. -/
def presentCount (b : Builder) (link : Link) : Nat :=
  b.links.values.flatten.countP (fun e => e.link = link ∧ e.action = .present)

/-- Drops the blocks that no response says are sent, and allows each of the others as many
contributions as there are responses that say so. The size is counted anew. -/
def recount (b : Builder) : Builder :=
  let kept := b.blocks.filter (fun s => 0 < b.presentCount s.block.link)
  let blocks := kept.map fun s =>
    { s with contributions := min s.contributions (b.presentCount s.block.link) }
  { b with blocks, size := (blocks.map StoredBlock.reserved).foldr (· + ·) 0 }

/-- Removes everything that belongs to the given requests. Blocks are looked at only if a
response was removed. -/
def scrub (b : Builder) (requests : List RequestId) : Builder :=
  let rest := b.forget requests
  if requests.any b.hasResponse then rest.recount else rest

/-- The bytes that scrubbing the given requests frees. -/
def scrubFrees (b : Builder) (requests : List RequestId) : Nat :=
  b.size - (b.scrub requests).size

/-! ## The finished message -/

/-- The requests with a response, in order. -/
def responders (b : Builder) : List RequestId :=
  Dict.sorted (b.links.keys ++ b.statuses.keys ++ b.extensions.keys)

/-- The response to a request, which is partial unless another status was given. -/
def response (b : Builder) (r : RequestId) : Response where
  request := r
  status := b.statuses.getD r .partialResponse
  links := b.links.getD r []
  extensions := b.extensions.getD r ∅

/-- The message that the builder holds. -/
def message (b : Builder) : Message where
  responses := b.responders.map b.response
  blocks := b.blocks.map StoredBlock.block

/-- The finished message, unless there is nothing to send. -/
def finish? (b : Builder) : Option Finished :=
  if b.isEmpty then none
  else some {
    message := b.message
    topic := b.topic
    size := b.size
    metadata := { records := b.records, statuses := b.message.statuses }
    streams := b.streams
    sinks := b.notifees.values.flatten }

/-- The sink belongs to someone who watches a request of the builder. -/
def holds (b : Builder) (s : Sink) : Bool := b.notifees.values.any (fun sinks => sinks.contains s)

/-! ## A summary in one line -/

/-- One status of a summary. -/
def summaryEntry (e : RequestId × Status) : String :=
  "RequestId(" ++ e.1.text ++ "): " ++ e.2.name

/-- Topic, size, number of blocks, number of requests with links, and the statuses given. -/
def summary (b : Builder) : String :=
  "MessageBuilder \x7b topic: Topic(" ++ b.topic.text ++ "), block_size: " ++ b.size.repr
    ++ ", blocks: " ++ b.blocks.length.repr ++ ", requests: " ++ b.links.size.repr
    ++ ", completed: \x7b" ++ ", ".intercalate (b.statuses.entries.map summaryEntry)
    ++ "\x7d, .. \x7d"

end Builder

namespace Finished

/-- The requests with a response or a stream. -/
def requests (f : Finished) : List RequestId :=
  Dict.sorted (f.metadata.statuses.keys ++ f.streams.keys)

end Finished

end Outbox
