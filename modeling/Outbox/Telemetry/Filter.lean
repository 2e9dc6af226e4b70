import Outbox.Text.Blank
import Outbox.Text.Letter

/-!
# Log filters

A filter is a list of directives between commas. A directive names a level, a target, or both:
`info`, `probe`, `probe=debug`; in brackets it may ask for a span and for a field.

* `LogLevel`, `LogLine` — how important a line is, where it comes from and what it says;
* `LogDirective.ofChars?` — the reading of one directive;
* `LogFilter.ofText?` — the reading of a filter;
* `LogFilter.limit`, `LogFilter.shows` — what a filter lets through.
-/

namespace Outbox

/-- How important a log line is, the most important first. -/
inductive LogLevel where
  /-- Something failed. -/
  | error
  /-- Something may fail. -/
  | warn
  /-- Something happened. -/
  | info
  /-- Something of interest to developers happened. -/
  | debug
  /-- Every detail. -/
  | trace
deriving DecidableEq, Repr

namespace LogLevel

/-- All levels, the most important first. -/
def all : List LogLevel := [error, warn, info, debug, trace]

/-- The number of a level, from one on. -/
def number : LogLevel → Nat
  | error => 1
  | warn => 2
  | info => 3
  | debug => 4
  | trace => 5

/-- The name of a level. -/
def name : LogLevel → String
  | error => "ERROR"
  | warn => "WARN"
  | info => "INFO"
  | debug => "DEBUG"
  | trace => "TRACE"

end LogLevel

/-- A line for the log. -/
structure LogLine where
  /-- How important it is. -/
  level : LogLevel
  /-- Where it comes from. -/
  target : String
  /-- What it says. -/
  message : String
  /-- The names of the data that come with it. -/
  fields : List String := ["message"]
deriving DecidableEq

/-- The least important level that passes; `none` lets nothing pass. -/
abbrev LogLimit := Option LogLevel

namespace LogLimit

/-- A level passes. -/
def admits (limit : LogLimit) (level : LogLevel) : Bool :=
  limit.any fun l => level.number ≤ l.number

/-- The value of decimal digits after an optional plus sign. -/
def number? (cs : List Char) : Option Nat :=
  let digits := match cs with
    | '+' :: rest => rest
    | cs => cs
  if digits.isEmpty ∨ !digits.all Char.isDigit then none
  else some (digits.foldl (fun n c => 10 * n + (c.toNat - 48)) 0)

/-- The limit that a word or a number names; letters may be of either case. -/
def ofChars? (cs : List Char) : Option LogLimit :=
  match number? cs with
  | some 0 => some none
  | some n => (LogLevel.all.find? (fun l => l.number = n)).map some
  | none =>
    let word := String.ofList (cs.map Char.toUpper)
    if word = "OFF" then some none
    else (LogLevel.all.find? (fun l => l.name = word)).map some

end LogLimit

/-- One directive of a filter. -/
structure LogDirective where
  /-- The beginning of the targets it is about; all targets if there is none. -/
  target : Option (List Char) := none
  /-- The span it is about, if it is about a span. -/
  span : Option (List Char) := none
  /-- The names of the fields it asks for, and whether it asks for values of them. -/
  fields : List (List Char × Bool) := []
  /-- What passes. -/
  limit : LogLimit := some .trace
deriving DecidableEq

namespace LogDirective

/-- The character may begin a directive without brackets. -/
def begins (c : Char) : Bool := c = '-' ∨ c = ':' ∨ c = '_' ∨ Text.isAlphanumeric c

/-- The end of a directive: nothing, or a level after an equals sign. An empty level lets
everything pass, and a directive with blanks around it must not have a level. -/
def withEnd? (d : LogDirective) (padded : Bool) : List Char → Option LogDirective
  | [] => some d
  | c :: level =>
    if c = '=' ∧ !padded then
      if level.isEmpty then some d
      else (LogLimit.ofChars? level).map fun limit => { d with limit }
    else none

/-- A field in a directive: its name, and whether a value follows. -/
def fieldOf (cs : List Char) : List Char × Bool :=
  (cs.takeWhile (· ≠ '='), cs.contains '=')

/-- The part of a directive after the opening bracket of a span. -/
def withSpan? (d : LogDirective) (padded : Bool) (cs : List Char) : Option LogDirective :=
  let name := cs.takeWhile fun c => c ≠ ']' ∧ c ≠ '{'
  match cs.dropWhile fun c => c ≠ ']' ∧ c ≠ '{' with
  | ']' :: rest => { d with span := some name }.withEnd? padded rest
  | '{' :: rest =>
    let field := rest.takeWhile (· ≠ '}')
    match rest.dropWhile (· ≠ '}') with
    | '}' :: ']' :: rest =>
      if field.isEmpty then none
      else
        { d with
          span := if name.isEmpty then none else some name
          fields := [fieldOf field] }.withEnd? padded rest
    | _ => none
  | _ => none

/-- The character ends the target of a directive. -/
def endsTarget (c : Char) : Bool := c = '=' ∨ c = '['

/-- The reading of a directive. Without equals sign and brackets it is a level if it names one and
else a target. -/
def ofChars? (cs : List Char) : Option LogDirective :=
  let body := Text.trim cs
  let padded := body.length ≠ cs.length
  match body with
  | [] => none
  | '[' :: rest => withSpan? {} padded rest
  | c :: _ =>
    if !begins c then none
    else
      let target := body.takeWhile (fun c => !endsTarget c)
      match body.dropWhile (fun c => !endsTarget c) with
      | [] =>
        match LogLimit.ofChars? cs with
        | some limit => some { limit }
        | none => some { target := some cs }
      | '[' :: rest => withSpan? { target := some target } padded rest
      | rest => withEnd? { target := some target } padded rest

/-- The directive is about lines outside of all spans. -/
def isStatic (d : LogDirective) : Bool := d.span.isNone && d.fields.all (fun f => !f.2)

/-- The directive is about a line: its target begins the line's, and the line has its fields. -/
def concerns (d : LogDirective) (line : LogLine) : Bool :=
  d.isStatic && d.target.all (fun t => t.isPrefixOf line.target.toList)
    && d.fields.all (fun f => line.fields.contains (String.ofList f.1))

/-- A directive is the more specific the longer its target is, then the more fields it names. -/
def moreSpecific (d e : LogDirective) : Bool :=
  let length (d : LogDirective) : Nat := (d.target.map (·.length + 1)).getD 0
  length e < length d ∨ length e = length d ∧ e.fields.length < d.fields.length

end LogDirective

/-- The directives of a filter in the order written. -/
structure LogFilter where
  /-- The directives. -/
  directives : List LogDirective := []

namespace LogFilter

/-- The pieces of a text between separators. -/
def pieces (separator : Char) : List Char → List (List Char)
  | [] => [[]]
  | c :: rest =>
    if c = separator then [] :: pieces separator rest
    else
      match pieces separator rest with
      | [] => [[c]]
      | piece :: more => (c :: piece) :: more

/-- The reading of a filter. Nothing between two commas is no directive. -/
def ofText? (text : String) : Option LogFilter :=
  (((pieces ',' text.toList).filter (fun p => !p.isEmpty)).mapM LogDirective.ofChars?).map
    LogFilter.mk

/-- The most specific directive about a line, and of equally specific ones the last. -/
def directiveFor (f : LogFilter) (line : LogLine) : Option LogDirective :=
  (f.directives.filter (·.concerns line)).foldl
    (fun best d =>
      match best with
      | none => some d
      | some b => if b.moreSpecific d then some b else some d)
    none

/-- What passes where a line comes from; nothing if no directive is about it. -/
def limit (f : LogFilter) (line : LogLine) : LogLimit :=
  ((f.directiveFor line).map LogDirective.limit).getD none

/-- The filter lets a line pass. -/
def shows (f : LogFilter) (line : LogLine) : Bool := (f.limit line).admits line.level

end LogFilter

end Outbox
