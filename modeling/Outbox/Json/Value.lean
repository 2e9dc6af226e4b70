/-!
# JSON values

* `Json` — what a JSON text denotes, as far as decoding needs it: a number written with a
  fraction, an exponent or a minus sign before zero is only known not to be an integer, and a
  string with an unpaired surrogate has no content;
* `Json.compact` — the text without blanks.
-/

namespace Outbox

/-- A JSON value. -/
inductive Json where
  /-- The empty value. -/
  | null
  /-- A truth value. -/
  | boolean (value : Bool)
  /-- A number written as an integer. -/
  | integer (value : Int)
  /-- A number written in any other way. -/
  | decimal
  /-- A string; `none` if it has an unpaired surrogate. -/
  | text (content : Option String)
  /-- A list of values. -/
  | array (items : List Json)
  /-- Fields with their values, in the order written. -/
  | object (fields : List (Option String × Json))

namespace Json

/-- The letters of a truth value. -/
def booleanChars (value : Bool) : List Char := (if value then "true" else "false").toList

/-- The digits of an integer, after a minus sign if it is negative. -/
def integerChars : Int → List Char
  | .ofNat n => Nat.toDigits 10 n
  | .negSucc n => '-' :: Nat.toDigits 10 (n + 1)

/-- A character inside quotes. -/
def escaped (c : Char) : List Char :=
  if c = '"' then ['\\', '"']
  else if c = '\\' then ['\\', '\\']
  else if c = '\n' then ['\\', 'n']
  else if c = '\r' then ['\\', 'r']
  else if c = '\t' then ['\\', 't']
  else if c = Char.ofNat 8 then ['\\', 'b']
  else if c = Char.ofNat 12 then ['\\', 'f']
  else if c.toNat < 32 then
    ['\\', 'u', '0', '0', Nat.digitChar (c.toNat / 16), Nat.digitChar (c.toNat % 16)]
  else [c]

/-- A string in quotes. -/
def quoted (content : String) : List Char :=
  '"' :: content.toList.flatMap escaped ++ ['"']

mutual

/-- The text of a value without blanks. -/
def compactChars : Json → List Char
  | null => "null".toList
  | boolean b => booleanChars b
  | integer n => integerChars n
  | decimal => "-0".toList
  | text content => quoted (content.getD "")
  | array items => '[' :: itemChars items
  | object fields => '{' :: fieldChars fields

/-- The items of a list, up to and with its closing bracket. -/
def itemChars : List Json → List Char
  | [] => [']']
  | [v] => compactChars v ++ [']']
  | v :: w :: rest => compactChars v ++ ',' :: itemChars (w :: rest)

/-- The fields of an object, up to and with its closing brace. -/
def fieldChars : List (Option String × Json) → List Char
  | [] => ['}']
  | [(name, v)] => quoted (name.getD "") ++ ':' :: compactChars v ++ ['}']
  | (name, v) :: field :: rest =>
    quoted (name.getD "") ++ ':' :: compactChars v ++ ',' :: fieldChars (field :: rest)

end

/-- The text of a value without blanks. -/
def compact (v : Json) : String := String.ofList v.compactChars

end Json

end Outbox
