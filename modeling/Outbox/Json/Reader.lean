import Outbox.Json.Value
import Outbox.Text.Hex

/-!
# Reading JSON

Readers take the characters still to come and return what they read with the characters left.

* `Json.readText`, `Json.readNumber`, `Json.readValue` — strings, numbers and values;
* `Json.parse?` — a whole text, with blanks allowed around the value.
-/

namespace Outbox.Json

/-- The four blanks of the format. -/
def isBlank (c : Char) : Bool := c = ' ' ∨ c = '\n' ∨ c = '\t' ∨ c = '\r'

/-- The characters from the first one that is not blank. -/
def skipBlanks (cs : List Char) : List Char := cs.dropWhile isBlank

/-! ## Strings -/

/-- What a letter after a backslash stands for. -/
def escape? (c : Char) : Option Char :=
  if c = '"' ∨ c = '\\' ∨ c = '/' then some c
  else if c = 'b' then some (Char.ofNat 8)
  else if c = 'f' then some (Char.ofNat 12)
  else if c = 'n' then some '\n'
  else if c = 'r' then some '\r'
  else if c = 't' then some '\t'
  else none

/-- The pieces of a string up to its closing quote: characters and 16-bit units. -/
def readPieces : List Char → Option (List (Char ⊕ Nat) × List Char)
  | [] => none
  | '"' :: rest => some ([], rest)
  | '\\' :: 'u' :: a :: b :: c :: d :: rest => do
    let unit ← Hex.number? 0 [a, b, c, d]
    let (pieces, left) ← readPieces rest
    return (.inr unit :: pieces, left)
  | '\\' :: e :: rest => do
    let c ← escape? e
    let (pieces, left) ← readPieces rest
    return (.inl c :: pieces, left)
  | c :: rest => do
    if c = '\\' ∨ c.toNat < 32 then none
    else
      let (pieces, left) ← readPieces rest
      return (.inl c :: pieces, left)

/-- The characters that the pieces make up; a surrogate must come with its partner. -/
def join? : List (Char ⊕ Nat) → Option (List Char)
  | [] => some []
  | .inl c :: rest => (join? rest).map (c :: ·)
  | .inr hi :: .inr lo :: rest =>
    if 0xD800 ≤ hi ∧ hi < 0xDC00 then
      if 0xDC00 ≤ lo ∧ lo < 0xE000 then
        (join? rest).map (Char.ofNat (0x10000 + 0x400 * (hi - 0xD800) + (lo - 0xDC00)) :: ·)
      else none
    else if 0xDC00 ≤ hi ∧ hi < 0xE000 then none
    else (join? (.inr lo :: rest)).map (Char.ofNat hi :: ·)
  | .inr unit :: rest =>
    if 0xD800 ≤ unit ∧ unit < 0xE000 then none else (join? rest).map (Char.ofNat unit :: ·)

/-- The content of a string after its opening quote. -/
def readText (cs : List Char) : Option (Option String × List Char) :=
  (readPieces cs).map fun (pieces, left) => ((join? pieces).map String.ofList, left)

/-! ## Numbers -/

/-- At least one decimal digit, as many as there are. -/
def readDigits (cs : List Char) : Option (List Char × List Char) :=
  match cs.takeWhile Char.isDigit with
  | [] => none
  | digits => some (digits, cs.dropWhile Char.isDigit)

/-- The value of decimal digits, most significant first. -/
def digitsValue (digits : List Char) : Nat :=
  digits.foldl (fun n c => 10 * n + (c.toNat - 48)) 0

/-- An integer part: a single zero, or digits that start with another one. -/
def readWhole : List Char → Option (Nat × List Char)
  | '0' :: rest => some (0, rest)
  | cs => (readDigits cs).map fun (digits, left) => (digitsValue digits, left)

/-- The fraction after an integer part, if there is one. -/
def readFraction : List Char → Option (Bool × List Char)
  | '.' :: rest => (readDigits rest).map fun (_, left) => (true, left)
  | cs => some (false, cs)

/-- The characters after the sign of an exponent. -/
def skipSign : List Char → List Char
  | '+' :: rest => rest
  | '-' :: rest => rest
  | cs => cs

/-- The exponent after an integer part and a fraction, if there is one. -/
def readExponent : List Char → Option (Bool × List Char)
  | 'e' :: rest => (readDigits (skipSign rest)).map fun (_, left) => (true, left)
  | 'E' :: rest => (readDigits (skipSign rest)).map fun (_, left) => (true, left)
  | cs => some (false, cs)

/-- A number without its sign: the integer part, and whether nothing follows it. -/
def readMagnitude (cs : List Char) : Option (Nat × Bool × List Char) := do
  let (whole, afterWhole) ← readWhole cs
  let (fraction, afterFraction) ← readFraction afterWhole
  let (exponent, left) ← readExponent afterFraction
  return (whole, !fraction && !exponent, left)

/-- A number. -/
def readNumber : List Char → Option (Json × List Char)
  | '-' :: rest => (readMagnitude rest).map fun (whole, plain, left) =>
    (if plain ∧ whole ≠ 0 then integer (-whole) else decimal, left)
  | cs => (readMagnitude cs).map fun (whole, plain, left) =>
    (if plain then integer whole else decimal, left)

/-! ## Values -/

mutual

/-- A value after any blanks. The first argument bounds the number of nested readings. -/
def readValue : Nat → List Char → Option (Json × List Char)
  | 0, _ => none
  | n + 1, cs =>
    match skipBlanks cs with
    | 'n' :: 'u' :: 'l' :: 'l' :: rest => some (null, rest)
    | 't' :: 'r' :: 'u' :: 'e' :: rest => some (boolean true, rest)
    | 'f' :: 'a' :: 'l' :: 's' :: 'e' :: rest => some (boolean false, rest)
    | '"' :: rest => (readText rest).map fun (content, left) => (text content, left)
    | '[' :: rest =>
      match skipBlanks rest with
      | ']' :: left => some (array [], left)
      | rest => (readItems n rest).map fun (items, left) => (array items, left)
    | '{' :: rest =>
      match skipBlanks rest with
      | '}' :: left => some (object [], left)
      | rest => (readFields n rest).map fun (fields, left) => (object fields, left)
    | rest => readNumber rest

/-- The items of a list, at least one, up to its closing bracket. -/
def readItems : Nat → List Char → Option (List Json × List Char)
  | 0, _ => none
  | n + 1, cs => do
    let (item, rest) ← readValue n cs
    match skipBlanks rest with
    | ',' :: rest =>
      let (items, left) ← readItems n rest
      return (item :: items, left)
    | ']' :: left => return ([item], left)
    | _ => none

/-- The fields of an object, at least one, up to its closing brace. -/
def readFields : Nat → List Char → Option (List (Option String × Json) × List Char)
  | 0, _ => none
  | n + 1, cs =>
    match skipBlanks cs with
    | '"' :: rest => do
      let (name, rest) ← readText rest
      match skipBlanks rest with
      | ':' :: rest =>
        let (value, rest) ← readValue n rest
        match skipBlanks rest with
        | ',' :: rest =>
          let (fields, left) ← readFields n rest
          return ((name, value) :: fields, left)
        | '}' :: left => return ([(name, value)], left)
        | _ => none
      | _ => none
    | _ => none

end

/-- The value that a whole text denotes. -/
def parseChars? (cs : List Char) : Option Json :=
  match readValue (2 * cs.length + 2) cs with
  | some (value, rest) => if skipBlanks rest = [] then some value else none
  | none => none

/-- The value that a whole text denotes. -/
def parse? (source : String) : Option Json := parseChars? source.toList

end Outbox.Json
