/-!
# TOML values

* `Toml` — what a TOML value denotes, as far as settings need it: of a floating-point number or a
  moment in time nothing but its kind is kept;
* `Toml.Fields` — the keys of a table with their values, in the order in which they were set;
* `Toml.put`, `Toml.assign`, `Toml.within` — how keys and headers fill tables.

A table can be filled in several places, and which places is decided by how it came to be: the
table of a header and an inline table are complete, a table that was only passed through on the
way to another one may get a header later, and a table made by a dotted key can only be continued
by dotted keys.
-/

namespace Outbox

/-- How a table came to be. -/
inductive TableOrigin where
  /-- It has a header. -/
  | header
  /-- A header of some table inside it passed through it. -/
  | implied
  /-- A dotted key passed through it. -/
  | dotted
  /-- It was written between braces. -/
  | inline
deriving DecidableEq, Repr

/-- A value. -/
inductive Toml where
  /-- A string. -/
  | text (content : String)
  /-- An integer. -/
  | integer (value : Int)
  /-- A floating-point number. -/
  | float
  /-- A truth value. -/
  | boolean (value : Bool)
  /-- A date, a time, or both. -/
  | moment
  /-- A list of values between brackets. -/
  | array (items : List Toml)
  /-- A table. -/
  | table (origin : TableOrigin) (fields : List (String × Toml))
  /-- The tables of a repeated header. -/
  | tables (elements : List (List (String × Toml)))

namespace Toml

/-- The keys of a table with their values. -/
abbrev Fields := List (String × Toml)

/-- A dotted key: the tables on the way, and the name in the last of them. -/
structure Key where
  /-- The tables on the way. -/
  path : List String
  /-- The name in the last table. -/
  last : String
deriving DecidableEq

/-- Sets the value of a key, in the place of an older value if there is one. -/
def put (key : String) (value : Toml) : Fields → Fields
  | [] => [(key, value)]
  | (k, v) :: rest => if k = key then (k, value) :: rest else (k, v) :: put key value rest

/-- A dotted key that ends after this table may continue it. -/
def endsIn (origin : TableOrigin) : Bool := origin = .dotted

/-- A dotted key that goes on after this table may pass through it. -/
def passes (origin : TableOrigin) : Bool := origin = .dotted ∨ origin = .implied

/-- Gives a value to a dotted key that has none, starting in some table. -/
def assign (last : String) (value : Toml) : List String → Fields → Option Fields
  | [], fields => if (fields.lookup last).isSome then none else some (fields ++ [(last, value)])
  | k :: path, fields =>
    match fields.lookup k with
    | none => (assign last value path []).map fun sub => put k (table .dotted sub) fields
    | some (table origin sub) =>
      if (if path.isEmpty then endsIn origin else passes origin) then
        (assign last value path sub).map fun sub => put k (table origin sub) fields
      else none
    | some (tables elements) =>
      match elements.getLast? with
      | none => none
      | some sub =>
        if path.isEmpty then none
        else (assign last value path sub).map fun sub =>
          put k (tables (elements.dropLast ++ [sub])) fields
    | some _ => none

/-- Changes the table that a header's path leads to. A table that is missing on the way comes
into being, and of the tables of a repeated header the last one is meant. -/
def within (f : Fields → Option Fields) : List String → Fields → Option Fields
  | [], fields => f fields
  | k :: path, fields =>
    match fields.lookup k with
    | none => (within f path []).map fun sub => put k (table .implied sub) fields
    | some (table origin sub) =>
      if origin = .inline then none
      else (within f path sub).map fun sub => put k (table origin sub) fields
    | some (tables elements) =>
      match elements.getLast? with
      | none => none
      | some sub => (within f path sub).map fun sub =>
          put k (tables (elements.dropLast ++ [sub])) fields
    | some _ => none

/-- Opens the table of a header, which must not have one yet. -/
def openTable (last : String) (fields : Fields) : Option Fields :=
  match fields.lookup last with
  | none => some (put last (table .header []) fields)
  | some (table .implied sub) => some (put last (table .header sub) fields)
  | some _ => none

/-- Opens one more table of a repeated header. -/
def openElement (last : String) (fields : Fields) : Option Fields :=
  match fields.lookup last with
  | none => some (put last (tables [[]]) fields)
  | some (tables elements) => some (put last (tables (elements ++ [[]])) fields)
  | some _ => none

end Toml

end Outbox
