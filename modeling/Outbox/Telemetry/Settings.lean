import Outbox.Dict.Basic
import Outbox.Text.Blank

/-!
# Telemetry settings

* `Environment` — the variables of a process with their values;
* `flag?` — the reading of a switch;
* `TelemetrySettings.ofEnvironment` — the settings that an environment asks for.
-/

namespace Outbox

/-- The variables of a process with their values. -/
abbrev Environment := Dict String String

/-- What a process logs, and as whom. -/
structure TelemetrySettings where
  /-- The name of the service. -/
  service : String := "block-exchange"
  /-- The component of the service, if any. -/
  component : String := ""
  /-- The filter for log lines. -/
  level : String := "info"
  /-- Log lines are written at all. -/
  console : Bool := true
  /-- Log lines are written in JSON. -/
  json : Bool := false
deriving DecidableEq

namespace TelemetrySettings

/-- The words that turn a switch on. -/
def onWords : List String := ["1", "true", "yes", "on"]

/-- The words that turn a switch off. -/
def offWords : List String := ["0", "false", "no", "off"]

/-- The position of a switch. Blanks around the word and the case of its Latin letters make no
difference; another word is no position. -/
def flag? (text : String) : Option Bool :=
  let word := String.ofList ((Text.trim text.toList).map Char.toLower)
  if onWords.contains word then some true
  else if offWords.contains word then some false
  else none

/-- The position of the switch in a variable. -/
def flagAt? (env : Environment) (name : String) : Option Bool := (env.get? name).bind flag?

/-- The process runs in a container: one of two variables is set, to whatever value. -/
def inContainer (env : Environment) : Bool :=
  env.contains "KUBERNETES_SERVICE_HOST" || env.contains "DOCKER_CONTAINER"

/-- The settings that an environment asks for. -/
def ofEnvironment (env : Environment) : TelemetrySettings :=
  let d : TelemetrySettings := {}
  { service := env.getD "OTEL_SERVICE_NAME" d.service
    component := env.getD "BX_COMPONENT" d.component
    level := env.getD "BX_LOG_LEVEL" (env.getD "RUST_LOG" d.level)
    console := (flagAt? env "BX_CONSOLE_OUTPUT").getD d.console
    json := (flagAt? env "BX_JSON_LOGS").getD (inContainer env) }

/-- The settings that an environment asks for, for a component of its own. -/
def forComponent (env : Environment) (component : String) : TelemetrySettings :=
  { ofEnvironment env with component }

/-- The name of the service, with the component if there is one. -/
def fullName (s : TelemetrySettings) : String :=
  if s.component = "" then s.service else s.service ++ "-" ++ s.component

end TelemetrySettings

end Outbox
