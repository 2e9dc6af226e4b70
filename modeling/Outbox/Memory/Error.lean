import Outbox.Protocol.Peer

/-!
# Memory errors

* `MemoryError` — why block memory was not granted or not taken back, with its message.
-/

namespace Outbox

/-- Why block memory was not granted or not taken back. -/
inductive MemoryError where
  /-- The peer's memory was released while the request waited. -/
  | peerReleased (peer : Peer)
  /-- The peer has no memory. -/
  | unknownPeer (peer : Peer)
  /-- More was to be released than the peer holds. -/
  | releaseExceeds (requested held : Nat)
deriving DecidableEq

namespace MemoryError

/-- The message for a reader. -/
def message : MemoryError → String
  | peerReleased peer => "Memory for peer " ++ peer.text ++ " was released"
  | unknownPeer peer => "No memory allocated for peer " ++ peer.text
  | releaseExceeds requested held =>
    "Cannot release " ++ requested.repr ++ " bytes, only " ++ held.repr ++ " allocated"

end MemoryError

end Outbox
