import Outbox.Files.Tree
import Outbox.Settings.Basic
import Outbox.Toml.Document

/-!
# Settings in documents

Settings are written in a TOML document with two sections. A section is a table in which every key
may be left out, or the list of all its values in order; what is left out has its default.

* `SendSettings.ofToml?`, `MemoryLimits.ofToml?` — one section;
* `Settings.ofFields?` — a document, of which other sections and keys are ignored;
* `Settings.parse`, `Settings.load` — settings from a text and from a file, which must be valid.
-/

namespace Outbox

namespace Toml

/-- An integer from zero to `max`. -/
def toNat? (max : Nat) : Toml → Option Nat
  | integer (.ofNat n) => if n ≤ max then some n else none
  | _ => none

/-- The integer of a key, if the table has the key; any other value of the key is refused. -/
def natAt? (fields : Fields) (key : String) (max : Nat) : Option (Option Nat) :=
  match fields.lookup key with
  | none => some none
  | some value => (value.toNat? max).map some

end Toml

namespace SendSettings

/-- The largest number of attempts. -/
def maxRetries : Nat := UInt32.size - 1

/-- The largest number of milliseconds. -/
def maxMillis : Nat := UInt64.size - 1

/-- The settings in the keys of a table. -/
def ofFields? (fields : Toml.Fields) : Option SendSettings := do
  return overlay {}
    (← Toml.natAt? fields "max_retries" maxRetries)
    (← Toml.natAt? fields "send_timeout_ms" maxMillis)
    (← Toml.natAt? fields "send_error_backoff_ms" maxMillis)

/-- The settings in a section. A moment in time is a section without known keys. -/
def ofToml? : Toml → Option SendSettings
  | .table _ fields => ofFields? fields
  | .array (retries :: timeout :: backoff :: _) => do
    return overlay {} (← retries.toNat? maxRetries) (← timeout.toNat? maxMillis)
      (← backoff.toNat? maxMillis)
  | .moment => some {}
  | _ => none

end SendSettings

namespace MemoryLimits

/-- The largest number of bytes. -/
def maxBytes : Nat := UInt64.size - 1

/-- The limits in the keys of a table. -/
def ofFields? (fields : Toml.Fields) : Option MemoryLimits := do
  return overlay {}
    (← Toml.natAt? fields "max_total_bytes" maxBytes)
    (← Toml.natAt? fields "max_per_peer_bytes" maxBytes)

/-- The limits in a section. A moment in time is a section without known keys. -/
def ofToml? : Toml → Option MemoryLimits
  | .table _ fields => ofFields? fields
  | .array (total :: perPeer :: _) => do
    return overlay {} (← total.toNat? maxBytes) (← perPeer.toNat? maxBytes)
  | .moment => some {}
  | _ => none

end MemoryLimits

namespace Settings

/-- The value of a section, or a default if the section is missing. -/
def sectionAt? {α : Type} (fields : Toml.Fields) (key : String) (read : Toml → Option α)
    (default : α) : Option α :=
  match fields.lookup key with
  | none => some default
  | some value => read value

/-- The settings in a document. -/
def ofFields? (fields : Toml.Fields) : Option Settings := do
  return ⟨← sectionAt? fields "message_queue" SendSettings.ofToml? {},
    ← sectionAt? fields "allocator" MemoryLimits.ofToml? {}⟩

/-- The settings in a text, if they are valid. -/
def parse (source : String) : Except SettingsError Settings :=
  match (Toml.parse? source).bind ofFields? with
  | none => .error (.malformed "the text is not a document of settings")
  | some settings =>
    match settings.validate with
    | .ok () => .ok settings
    | .error e => .error e

/-- The settings in the file at a path, if they are valid. -/
def load (tree : FileTree) (path : String) : Except SettingsError Settings :=
  match tree.readText path with
  | .ok source => parse source
  | .error e => .error (.unreadable path e.message)

end Settings

end Outbox
