/-!
# Malformed identifiers

* `ProtocolError` — a text or number that names nothing, with its message.
-/

namespace Outbox

/-- Why a text or a number is not an identifier of the protocol. -/
inductive ProtocolError where
  /-- The text spells no request id. -/
  | invalidRequestId (text : String)
  /-- No status has the number. -/
  | unknownStatus (code : Nat)
deriving DecidableEq

namespace ProtocolError

/-- The message for a reader. -/
def message : ProtocolError → String
  | invalidRequestId text => "Invalid request id: " ++ text
  | unknownStatus code => "Unknown response status code: " ++ code.repr

end ProtocolError

end Outbox
