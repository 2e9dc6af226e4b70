import Outbox.Network.Error
import Outbox.Settings.Basic

/-!
# Retrying

A message is written to a stream in one or more attempts. Each attempt may take a limited time;
after a failed one the stream is reset, and a pause comes before the next.

* `WriteOutcome`, `ResetOutcome` — what a write does if nobody stops it, and what a reset does;
* `attempt` — how long an attempt takes and how it ends;
* `SendRecord`, `send` — the calls of a whole send with their times, its end and its result.

Times are whole milliseconds. A reset that fails is noted, and the send goes on as after any other.
-/

namespace Outbox

/-- What a write does if nobody stops it. -/
inductive WriteOutcome where
  /-- It succeeds at once. -/
  | ok
  /-- It fails at once. -/
  | fail (failure : NetworkError)
  /-- It never ends. -/
  | hang
  /-- It does nothing for some time first. -/
  | delay (millis : Nat) (next : WriteOutcome)
deriving DecidableEq

namespace WriteOutcome

/-- When the write ends after it began, if it ends, and how it failed, if it did. -/
def ending? : WriteOutcome → Option (Nat × Option NetworkError)
  | ok => some (0, none)
  | fail e => some (0, some e)
  | hang => none
  | delay ms next => next.ending?.map fun (time, failure) => (ms + time, failure)

end WriteOutcome

/-- What a reset does. -/
structure ResetOutcome where
  /-- How long it takes. -/
  millis : Nat := 0
  /-- How it fails, if it does. -/
  failure : Option NetworkError := none

namespace Retry

/-- How long an attempt takes, and how it failed, if it did. A write that ends exactly at the
limit has ended in time. -/
def attempt (limit : Duration) (outcome : WriteOutcome) : Nat × Option NetworkError :=
  match outcome.ending? with
  | some (time, failure) =>
    if time ≤ limit.millis then (time, failure) else (limit.millis, some (.timeout limit))
  | none => (limit.millis, some (.timeout limit))

/-- A call on a stream, or a pause between two attempts. -/
inductive Call where
  /-- A write begins. -/
  | write
  /-- The stream is reset. -/
  | reset
  /-- A pause begins. -/
  | pause
deriving DecidableEq, Repr

namespace Call

/-- The word for a call on the stream; a pause is none. -/
def word? : Call → Option String
  | write => some "write"
  | reset => some "reset"
  | pause => none

end Call

/-- What happened, or will happen, during a send. -/
structure SendRecord where
  /-- The calls with their times. -/
  calls : List (Nat × Call)
  /-- The time at which the send ends. -/
  finish : Nat
  /-- How it failed, if it did. -/
  failure : Option NetworkError
  /-- The outcomes left for later writes. -/
  left : List WriteOutcome
  /-- How resets failed, in order. -/
  resetFailures : List NetworkError := []

/-- The outcome of the next write and those left; writes succeed once all outcomes are used. -/
def nextOutcome : List WriteOutcome → WriteOutcome × List WriteOutcome
  | [] => (.ok, [])
  | o :: rest => (o, rest)

/-- A send that begins an attempt at `now` and may make `more` attempts after it; `total` is the
number of attempts of the whole send, and `resets k` is what the reset does that comes after `k`
others. -/
def sendFrom (settings : SendSettings) (total : Nat) :
    Nat → Nat → List WriteOutcome → (Nat → ResetOutcome) → SendRecord
  | more, now, script, resets =>
    let (outcome, left) := nextOutcome script
    let (time, failure) := attempt settings.timeout outcome
    let ended := now + time
    match failure with
    | none => { calls := [(now, .write)], finish := ended, failure := none, left }
    | some e =>
      let ready := ended + (resets 0).millis
      let noted := (resets 0).failure.toList
      match more with
      | 0 =>
        { calls := [(now, .write), (ended, .reset)]
          finish := ready
          failure := some (.retriesExhausted total e.message)
          left
          resetFailures := noted }
      | more + 1 =>
        let record := sendFrom settings total more (ready + settings.backoff.millis) left
          fun k => resets (k + 1)
        { record with
          calls := (now, .write) :: (ended, .reset) :: (ready, .pause) :: record.calls
          resetFailures := noted ++ record.resetFailures }

/-- The number of attempts of a send: as many as the settings say, and at least one. -/
def attempts (settings : SendSettings) : Nat := max 1 settings.retries

/-- A whole send that begins at `now`. Resets take no time and succeed unless told otherwise. -/
def send (settings : SendSettings) (now : Nat) (script : List WriteOutcome)
    (resets : Nat → ResetOutcome := fun _ => {}) : SendRecord :=
  sendFrom settings (attempts settings) (attempts settings - 1) now script resets

/-! ## A sender in use -/

/-- What is asked of a sender. -/
inductive Request where
  /-- To send a message. -/
  | send
  /-- To reset its stream. -/
  | reset
deriving DecidableEq, Repr

/-- What a request to a sender led to. -/
structure Response where
  /-- The calls with their times. -/
  calls : List (Nat × Call)
  /-- How it failed, if it did. -/
  failure : Option NetworkError
  /-- The time at which it ended. -/
  finish : Nat

/-- A sender over a stream with a script of outcomes. -/
structure Sender where
  /-- How it sends. -/
  settings : SendSettings
  /-- The outcomes of the writes to come. -/
  script : List WriteOutcome
  /-- Every reset of the stream fails. -/
  failsResets : Bool := false
  /-- The time. -/
  now : Nat := 0
  /-- The number of writes that succeeded. -/
  delivered : Nat := 0

namespace Sender

/-- What each reset of the stream does. -/
def resetOutcome (s : Sender) : ResetOutcome :=
  { failure := if s.failsResets then some .streamReset else none }

/-- Carries out a request. -/
def handle (s : Sender) : Request → Response × Sender
  | .send =>
    let record := Retry.send s.settings s.now s.script fun _ => s.resetOutcome
    (⟨record.calls, record.failure, record.finish⟩,
      { s with
        script := record.left
        now := record.finish
        delivered := if record.failure.isNone then s.delivered + 1 else s.delivered })
  | .reset => (⟨[(s.now, .reset)], s.resetOutcome.failure, s.now⟩, s)

/-- Carries out requests one after the other. -/
def handleAll (s : Sender) : List Request → List Response × Sender
  | [] => ([], s)
  | r :: rest =>
    let (response, s) := s.handle r
    let (responses, s) := s.handleAll rest
    (response :: responses, s)

end Sender

end Retry

end Outbox
