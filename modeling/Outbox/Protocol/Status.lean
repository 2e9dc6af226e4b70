/-!
# Response statuses

* `Status` — how far a response has come, with its number on the wire (`Status.code`) and its
  name (`Status.name`);
* `Status.ofCode?`, `Status.ofName?` — the readers;
* `Status.isTerminal`, `Status.isSuccess`, `Status.isFailure` — the three classes.
-/

namespace Outbox

/-- The status of a response to one request. -/
inductive Status where
  /-- The request was received. -/
  | requestAcknowledged
  /-- Other peers may have the content. -/
  | additionalPeers
  /-- The requester has not paid enough. -/
  | notEnoughGas
  /-- Another protocol should be used. -/
  | otherProtocol
  /-- Some of the response; more follows. -/
  | partialResponse
  /-- The responder paused the request. -/
  | requestPaused
  /-- Everything asked for was sent. -/
  | requestCompletedFull
  /-- The response ended with parts missing. -/
  | requestCompletedPartial
  /-- The responder will not serve the request. -/
  | requestRejected
  /-- The responder is too busy. -/
  | requestFailedBusy
  /-- The request failed for an unknown reason. -/
  | requestFailedUnknown
  /-- The request failed for legal reasons. -/
  | requestFailedLegal
  /-- The responder does not have the content. -/
  | requestFailedContentNotFound
  /-- The request was cancelled. -/
  | requestCancelled
deriving DecidableEq, Repr

namespace Status

/-- Every status, in the order of the codes. -/
def all : List Status :=
  [requestAcknowledged, additionalPeers, notEnoughGas, otherProtocol, partialResponse,
    requestPaused, requestCompletedFull, requestCompletedPartial, requestRejected,
    requestFailedBusy, requestFailedUnknown, requestFailedLegal, requestFailedContentNotFound,
    requestCancelled]

/-- The number on the wire. -/
def code : Status → Nat
  | requestAcknowledged => 10
  | additionalPeers => 11
  | notEnoughGas => 12
  | otherProtocol => 13
  | partialResponse => 14
  | requestPaused => 15
  | requestCompletedFull => 20
  | requestCompletedPartial => 21
  | requestRejected => 30
  | requestFailedBusy => 31
  | requestFailedUnknown => 32
  | requestFailedLegal => 33
  | requestFailedContentNotFound => 34
  | requestCancelled => 35

/-- The name in text formats. -/
def name : Status → String
  | requestAcknowledged => "RequestAcknowledged"
  | additionalPeers => "AdditionalPeers"
  | notEnoughGas => "NotEnoughGas"
  | otherProtocol => "OtherProtocol"
  | partialResponse => "PartialResponse"
  | requestPaused => "RequestPaused"
  | requestCompletedFull => "RequestCompletedFull"
  | requestCompletedPartial => "RequestCompletedPartial"
  | requestRejected => "RequestRejected"
  | requestFailedBusy => "RequestFailedBusy"
  | requestFailedUnknown => "RequestFailedUnknown"
  | requestFailedLegal => "RequestFailedLegal"
  | requestFailedContentNotFound => "RequestFailedContentNotFound"
  | requestCancelled => "RequestCancelled"

/-- The status with a given code. -/
def ofCode? (n : Nat) : Option Status := all.find? (fun s => s.code = n)

/-- The status with a given name. -/
def ofName? (text : String) : Option Status := all.find? (fun s => s.name = text)

/-- No further response follows. -/
def isTerminal (s : Status) : Bool := 20 ≤ s.code

/-- The request was completed, fully or partially. -/
def isSuccess (s : Status) : Bool := s = requestCompletedFull ∨ s = requestCompletedPartial

/-- The request ended without success. -/
def isFailure (s : Status) : Bool := 30 ≤ s.code

theorem ofCode?_code (s : Status) : ofCode? s.code = some s := by cases s <;> rfl

theorem ofName?_name (s : Status) : ofName? s.name = some s := by cases s <;> decide

end Status

end Outbox
