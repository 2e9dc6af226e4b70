import Outbox.Duration

/-!
# Settings

* `SendSettings` — how a queue sends: attempts, time per attempt, pause between attempts;
* `MemoryLimits` — how many block bytes may be held, in total and for one peer;
* `SendSettings.overlay`, `MemoryLimits.overlay` — settings with some values replaced;
* `SendSettings.validate`, `MemoryLimits.validate` — what the settings must satisfy;
* `SettingsError` — why settings are refused, with its message.
-/

namespace Outbox

/-- Why settings are refused. -/
inductive SettingsError where
  /-- A limit makes no sense. -/
  | limit (reason : String)
  /-- A time makes no sense. -/
  | timeout (reason : String)
  /-- The file with the settings cannot be read. -/
  | unreadable (path reason : String)
  /-- The text of the settings is malformed. -/
  | malformed (reason : String)
deriving DecidableEq

namespace SettingsError

/-- The message for a reader. -/
def message : SettingsError → String
  | limit reason => "invalid limit: " ++ reason
  | timeout reason => "invalid timeout: " ++ reason
  | unreadable path reason => "failed to read " ++ path ++ ": " ++ reason
  | malformed reason => "failed to parse config: " ++ reason

end SettingsError

/-- How a queue sends its messages. -/
structure SendSettings where
  /-- The number of attempts at each message. -/
  retries : Nat := 10
  /-- The time that one attempt may take. -/
  timeout : Duration := .ofMillis 600000
  /-- The pause between two attempts. -/
  backoff : Duration := .ofMillis 100
deriving DecidableEq

namespace SendSettings

/-- The settings with some of the values replaced; times are in milliseconds. -/
def overlay (s : SendSettings) (retries timeout backoff : Option Nat) : SendSettings where
  retries := retries.getD s.retries
  timeout := (timeout.map Duration.ofMillis).getD s.timeout
  backoff := (backoff.map Duration.ofMillis).getD s.backoff

/-- At least one attempt is made, and it is given some time. -/
def validate (s : SendSettings) : Except SettingsError Unit :=
  if s.retries = 0 then .error (.limit "max_retries cannot be 0")
  else if s.timeout.isZero then .error (.timeout "send_timeout cannot be 0")
  else .ok ()

end SendSettings

/-- How many block bytes may be held at a time. -/
structure MemoryLimits where
  /-- By all peers together. -/
  total : Nat := 268435456
  /-- By one peer. -/
  perPeer : Nat := 16777216
deriving DecidableEq

namespace MemoryLimits

/-- The limits with some of the values replaced. -/
def overlay (l : MemoryLimits) (total perPeer : Option Nat) : MemoryLimits where
  total := total.getD l.total
  perPeer := perPeer.getD l.perPeer

/-- Both limits admit something, and one peer may not hold more than all. -/
def validate (l : MemoryLimits) : Except SettingsError Unit :=
  if l.total = 0 ∨ l.perPeer = 0 then .error (.limit "memory limits cannot be 0")
  else if l.total < l.perPeer then
    .error (.limit ("max_per_peer_bytes (" ++ l.perPeer.repr ++ ") exceeds max_total_bytes ("
      ++ l.total.repr ++ ")"))
  else .ok ()

end MemoryLimits

/-- The settings of a node. -/
structure Settings where
  /-- How queues send. -/
  sending : SendSettings := {}
  /-- How much they may hold. -/
  memory : MemoryLimits := {}
deriving DecidableEq

namespace Settings

/-- Both parts must be valid; an error in how queues send is reported first. -/
def validate (s : Settings) : Except SettingsError Unit := do
  s.sending.validate
  s.memory.validate

end Settings

end Outbox
