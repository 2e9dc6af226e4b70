import Outbox.Text.Hex
import Outbox.Toml.Line
import Outbox.Toml.Value

/-!
# Strings and keys of TOML

* `Toml.readBasic`, `Toml.readLiteral` — strings on one line, with and without escapes;
* `Toml.readLongBasic`, `Toml.readLongLiteral` — strings over several lines;
* `Toml.readKey` — dotted keys.
-/

namespace Outbox.Toml

/-! ## Strings on one line -/

/-- What a letter after a backslash stands for. -/
def escape? (c : Char) : Option Char :=
  if c = '"' ∨ c = '\\' then some c
  else if c = 'b' then some (Char.ofNat 8)
  else if c = 'f' then some (Char.ofNat 12)
  else if c = 'n' then some '\n'
  else if c = 'r' then some '\r'
  else if c = 't' then some '\t'
  else none

/-- The character with a number, unless the number is a surrogate or too large. -/
def scalar? (n : Nat) : Option Char :=
  if n < 0xD800 ∨ 0xDFFF < n ∧ n < 0x110000 then some (Char.ofNat n) else none

/-- The character that hexadecimal digits stand for. -/
def hexScalar? (digits : List Char) : Option Char := (Hex.number? 0 digits).bind scalar?

/-- Puts a character in front of what a reader found after it. -/
def prepend (c : Char) (found : Option (List Char × List Char)) :
    Option (List Char × List Char) :=
  found.map fun (content, left) => (c :: content, left)

/-- The content of a string after its opening quote. -/
def readBasic : Reader (List Char)
  | [] => none
  | '"' :: rest => some ([], rest)
  | '\\' :: 'u' :: a :: b :: c :: d :: rest =>
    (hexScalar? [a, b, c, d]).bind fun x => prepend x (readBasic rest)
  | '\\' :: 'U' :: a :: b :: c :: d :: e :: f :: g :: h :: rest =>
    (hexScalar? [a, b, c, d, e, f, g, h]).bind fun x => prepend x (readBasic rest)
  | '\\' :: c :: rest => (escape? c).bind fun x => prepend x (readBasic rest)
  | c :: rest => if isPrintable c ∧ c ≠ '\\' then prepend c (readBasic rest) else none

/-- The content of a string without escapes after its opening apostrophe. -/
def readLiteral (cs : List Char) : Option (List Char × List Char) :=
  match cs.dropWhile (fun c => isPrintable c && c != '\'') with
  | '\'' :: rest => some (cs.takeWhile (fun c => isPrintable c && c != '\''), rest)
  | _ => none

/-! ## Strings over several lines -/

/-- The characters after the line's end that may follow the opening quotes. -/
def dropNewline (cs : List Char) : List Char := (newline? cs).getD cs

/-- A backslash before these characters joins its line with the next. -/
def joinsLines (cs : List Char) : Bool := (newline? (skipBlanks cs)).isSome

/-- The content of a string over several lines, up to its three closing quotes; one or two quotes
before them belong to the content. The argument says that lines are being joined: blanks and
line ends are skipped. -/
def readLongBasicFrom : Bool → Reader (List Char)
  | _, [] => none
  | _, '"' :: '"' :: '"' :: '"' :: '"' :: rest => some (['"', '"'], rest)
  | _, '"' :: '"' :: '"' :: '"' :: rest => some (['"'], rest)
  | _, '"' :: '"' :: '"' :: rest => some ([], rest)
  | _, '\\' :: 'u' :: a :: b :: c :: d :: rest =>
    (hexScalar? [a, b, c, d]).bind fun x => prepend x (readLongBasicFrom false rest)
  | _, '\\' :: 'U' :: a :: b :: c :: d :: e :: f :: g :: h :: rest =>
    (hexScalar? [a, b, c, d, e, f, g, h]).bind fun x => prepend x (readLongBasicFrom false rest)
  | _, '\\' :: c :: rest =>
    if joinsLines (c :: rest) then readLongBasicFrom true (c :: rest)
    else (escape? c).bind fun x => prepend x (readLongBasicFrom false rest)
  | joining, '\r' :: '\n' :: rest =>
    if joining then readLongBasicFrom true rest else prepend '\n' (readLongBasicFrom false rest)
  | joining, c :: rest =>
    if joining ∧ (c = '\n' ∨ isBlank c) then readLongBasicFrom true rest
    else if c = '\n' ∨ isPrintable c ∧ c ≠ '\\' then prepend c (readLongBasicFrom false rest)
    else none

/-- The content of a string over several lines after its opening quotes. -/
def readLongBasic (cs : List Char) : Option (List Char × List Char) :=
  readLongBasicFrom false (dropNewline cs)

/-- The content of a string over several lines without escapes, up to its three closing
apostrophes; one or two apostrophes before them belong to the content. -/
def readLongLiteralFrom : Reader (List Char)
  | [] => none
  | '\'' :: '\'' :: '\'' :: '\'' :: '\'' :: rest => some (['\'', '\''], rest)
  | '\'' :: '\'' :: '\'' :: '\'' :: rest => some (['\''], rest)
  | '\'' :: '\'' :: '\'' :: rest => some ([], rest)
  | '\r' :: '\n' :: rest => prepend '\n' (readLongLiteralFrom rest)
  | c :: rest =>
    if c = '\n' ∨ isPrintable c then prepend c (readLongLiteralFrom rest) else none

/-- The content of a string over several lines without escapes after its opening apostrophes. -/
def readLongLiteral (cs : List Char) : Option (List Char × List Char) :=
  readLongLiteralFrom (dropNewline cs)

/-! ## Keys -/

/-- The character may stand in a key without quotes. -/
def isBare (c : Char) : Bool := c.isAlphanum || c = '_' || c = '-'

/-- One name of a dotted key. -/
def readName : Reader String
  | '"' :: rest => (readBasic rest).map fun (name, left) => (String.ofList name, left)
  | '\'' :: rest => (readLiteral rest).map fun (name, left) => (String.ofList name, left)
  | cs =>
    match cs.takeWhile isBare with
    | [] => none
    | name => some (String.ofList name, cs.dropWhile isBare)

/-- A key of at most so many names, with the blanks around each of them. -/
def readKeyOf : Nat → Reader Key
  | 0, _ => none
  | n + 1, cs => do
    let (name, rest) ← readName (skipBlanks cs)
    match skipBlanks rest with
    | '.' :: rest =>
      let (key, left) ← readKeyOf n rest
      return (⟨name :: key.path, key.last⟩, left)
    | left => return (⟨[], name⟩, left)

/-- A key may consist of this many names, and values may be nested this deep. -/
def maxDepth : Nat := 79

/-- A dotted key with the blanks around it. -/
def readKey : Reader Key := readKeyOf maxDepth

end Outbox.Toml
