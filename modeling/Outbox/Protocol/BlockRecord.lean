import Outbox.Protocol.Peer

/-!
# Block records

* `BlockRecord` — what a requester is told about one block of its response.
-/

namespace Outbox

/-- What is known of one block of a response. -/
structure BlockRecord where
  /-- The content hash of the block. -/
  link : Link
  /-- Its size in bytes. -/
  size : UInt64
  /-- The bytes of it that go over the wire; zero if it was sent before. -/
  wireSize : UInt64
  /-- Its position in the response. -/
  index : Int64
deriving DecidableEq

end Outbox
