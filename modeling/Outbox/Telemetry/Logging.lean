import Outbox.Telemetry.Filter
import Outbox.Telemetry.Settings

/-!
# Logging

A process installs its log once. From then on the lines that the filter lets through are written
to the console, if there is one.

* `Logging.start` — installs the log of a process;
* `Logging.startTest` — installs the log of a test, unless there is one;
* `Logging.log` — a line comes;
* `Transcript.ofProcess`, `Transcript.ofTest` — all that a process or a test writes.
-/

namespace Outbox

/-- How lines are written. -/
inductive LogFormat where
  /-- For readers. -/
  | text
  /-- For machines. -/
  | json
deriving DecidableEq, Repr

/-- Why a log cannot be installed. -/
inductive TelemetryError where
  /-- Neither the filter of the environment nor that of the settings can be read, or a log was
  installed before. -/
  | notInstalled (reason : String)
deriving DecidableEq

namespace TelemetryError

/-- The message for a reader. -/
def message : TelemetryError → String
  | notInstalled reason => "Failed to initialize tracing subscriber: " ++ reason

end TelemetryError

/-- A log as installed. -/
structure Console where
  /-- What passes. -/
  filter : LogFilter
  /-- How lines are written, if they are. -/
  format : Option LogFormat
  /-- The lines written, in order. -/
  written : List LogLine := []

/-- The log of a process, once it is installed. -/
structure Logging where
  /-- The log. -/
  console : Option Console := none

namespace Logging

/-- Where the lines about the log itself come from. -/
def ownTarget : String := "bx_telemetry::tracing_setup"

/-- A line comes. -/
def log (l : Logging) (line : LogLine) : Logging where
  console := l.console.map fun c =>
    if c.format.isSome && c.filter.shows line then { c with written := c.written ++ [line] } else c

/-- The filter in the variable that overrides settings, if it can be read. -/
def environmentFilter? (env : Environment) : Option LogFilter :=
  (env.get? "RUST_LOG").bind LogFilter.ofText?

/-- The format that settings ask for, if they ask for a console. -/
def formatOf (s : TelemetrySettings) : Option LogFormat :=
  if s.console then some (if s.json then .json else .text) else none

/-- Installs the log of a process. The name of the service is returned. -/
def start (l : Logging) (env : Environment) (s : TelemetrySettings) :
    Except TelemetryError (String × Logging) :=
  match environmentFilter? env <|> LogFilter.ofText? s.level with
  | none => .error (.notInstalled "invalid filter directive")
  | some filter =>
    if l.console.isSome then .error (.notInstalled "a log was installed before")
    else
      let installed : Logging := { console := some { filter, format := formatOf s } }
      .ok (s.fullName, installed.log
        ⟨.info, ownTarget, "Tracing initialized", ["message", "service", "json"]⟩)

/-- The process ends its logging. -/
def finish (l : Logging) : Logging :=
  l.log ⟨.info, ownTarget, "Shutting down telemetry", ["message", "service"]⟩

/-- The filter of a test whose environment has none. -/
def testFilter : LogFilter := { directives := [{ limit := some .debug }] }

/-- Installs the log of a test, unless there is one. -/
def startTest (l : Logging) (env : Environment) : Logging :=
  if l.console.isSome then l
  else { console := some {
    filter := (environmentFilter? env).getD testFilter
    format := some .text } }

end Logging

/-- All that was written, and how. -/
structure Transcript where
  /-- The lines. -/
  lines : List LogLine
  /-- How they were written, if any were. -/
  format : Option LogFormat

namespace Transcript

/-- What a log has written so far. -/
def ofLogging (l : Logging) : Transcript :=
  match l.console with
  | none => ⟨[], none⟩
  | some c => ⟨c.written, if c.written.isEmpty then none else c.format⟩

/-- What a process does that installs its log, logs some lines, tries to install its log again,
and ends. -/
structure Process where
  /-- The name of the service. -/
  service : String
  /-- How the second attempt failed, if it did. -/
  again : Option TelemetryError
  /-- All that was written. -/
  transcript : Transcript

/-- A whole process in an environment. -/
def ofProcess (env : Environment) (lines : List LogLine) : Except TelemetryError Process := do
  let s := TelemetrySettings.ofEnvironment env
  let (service, l) ← Logging.start {} env s
  let l := lines.foldl Logging.log l
  match l.start env s with
  | .error e => return ⟨service, some e, ofLogging l.finish⟩
  | .ok (_, l) => return ⟨service, none, ofLogging l.finish⟩

/-- A test in an environment, which installs its log twice. -/
def ofTest (env : Environment) (lines : List LogLine) : Transcript :=
  ofLogging (lines.foldl Logging.log ((Logging.startTest {} env).startTest env))

end Transcript

end Outbox
