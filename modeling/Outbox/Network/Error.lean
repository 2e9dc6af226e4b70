import Outbox.Duration
import Outbox.Protocol.Peer

/-!
# Network errors

* `NetworkError` — why a connection or a send failed, with its message.
-/

namespace Outbox

/-- Why a connection or a send failed. -/
inductive NetworkError where
  /-- No connection could be made to the peer. -/
  | connectionFailed (peer : Peer) (reason : String)
  /-- A send took longer than it may. -/
  | timeout (limit : Duration)
  /-- The stream was reset. -/
  | streamReset
  /-- Every attempt at a send failed; the last one for the given reason. -/
  | retriesExhausted (attempts : Nat) (lastError : String)
  /-- Reading or writing failed. -/
  | transfer (reason : String)
deriving DecidableEq

namespace NetworkError

/-- The message for a reader. -/
def message : NetworkError → String
  | connectionFailed peer reason => "Connection to peer " ++ peer.text ++ " failed: " ++ reason
  | timeout limit => "Send timed out after " ++ limit.text
  | streamReset => "Stream reset"
  | retriesExhausted attempts lastError =>
    "Retries exhausted after " ++ attempts.repr ++ " attempts: " ++ lastError
  | transfer reason => "I/O error: " ++ reason

end NetworkError

end Outbox
