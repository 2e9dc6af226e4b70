import Outbox.Dict.Basic
import Outbox.Message.Block
import Outbox.Protocol.BlockRecord
import Outbox.Protocol.RequestId
import Outbox.Protocol.Status

/-!
# Messages

* `Topic` — the number under which a message's life is reported;
* `Response`, `Message` — the contents that go to a peer;
* `Metadata` — what observers are told about a message.
-/

namespace Outbox

/-- The number under which the life of one message is reported. -/
@[ext] structure Topic where
  /-- The number. -/
  number : UInt64
deriving DecidableEq

namespace Topic

instance : Key Topic := Key.ofRank number Topic.ext

/-- The first topic. -/
def first : Topic := ⟨0⟩

instance : Inhabited Topic := ⟨first⟩

/-- The topic after this one, unless this is the last. -/
def next? (t : Topic) : Option Topic :=
  if t.number.toNat + 1 < UInt64.size then some ⟨t.number + 1⟩ else none

/-- The number in decimal digits. -/
def text (t : Topic) : String := t.number.toNat.repr

end Topic

/-- The part of a message that answers one request. -/
structure Response where
  /-- The request. -/
  request : RequestId
  /-- How far the response has come. -/
  status : Status
  /-- What is said about links, in order. -/
  links : List LinkEntry
  /-- Further data by name. -/
  extensions : Dict String (List UInt8)

/-- The contents that go to a peer. -/
structure Message where
  /-- One response for each request, in the order of their ids. -/
  responses : List Response
  /-- The blocks, each once. -/
  blocks : List Block

namespace Message

/-- The status of each response. -/
def statuses (m : Message) : Dict RequestId Status :=
  Dict.ofList (m.responses.map fun r => (r.request, r.status))

/-- The bytes of all payloads. -/
def blockSize (m : Message) : Nat := (m.blocks.map Block.size).foldr (· + ·) 0

/-- There is nothing to send. -/
def isEmpty (m : Message) : Bool := m.responses.isEmpty && m.blocks.isEmpty

end Message

/-- What observers are told about a message. -/
structure Metadata where
  /-- The block records of each request. -/
  records : Dict RequestId (List BlockRecord) := ∅
  /-- The status of each response. -/
  statuses : Dict RequestId Status := ∅

end Outbox
