import Outbox.Toml.Moment
import Outbox.Toml.Text

/-!
# TOML documents

* `Toml.readValue` — a value;
* `Toml.Statement` — one line of a document: a header, or a key with its value;
* `Toml.ofStatements?` — the table that statements fill;
* `Toml.parse?` — the table that a whole text denotes.
-/

namespace Outbox.Toml

/-! ## Values -/

/-- A value that has no values inside. -/
def readFlat : Reader Toml
  | '"' :: '"' :: '"' :: rest =>
    (readLongBasic rest).map fun (content, left) => (text (String.ofList content), left)
  | '"' :: rest => (readBasic rest).map fun (content, left) => (text (String.ofList content), left)
  | '\'' :: '\'' :: '\'' :: rest =>
    (readLongLiteral rest).map fun (content, left) => (text (String.ofList content), left)
  | '\'' :: rest =>
    (readLiteral rest).map fun (content, left) => (text (String.ofList content), left)
  | 't' :: 'r' :: 'u' :: 'e' :: rest => some (boolean true, rest)
  | 'f' :: 'a' :: 'l' :: 's' :: 'e' :: rest => some (boolean false, rest)
  | cs => readMoment cs <|> readNumber cs

/-- The items of a list after its opening bracket, at most so many; a comma may follow the
last. -/
def readItems (item : Reader Toml) : Nat → Reader (List Toml)
  | 0, _ => none
  | n + 1, cs =>
    match skipLines cs with
    | ']' :: left => some ([], left)
    | cs => do
      let (value, rest) ← item cs
      match skipLines rest with
      | ',' :: rest =>
        let (values, left) ← readItems item n rest
        return (value :: values, left)
      | ']' :: left => return ([value], left)
      | _ => none

/-- A key with its value, with the blanks around both. -/
def readPairing (item : Reader Toml) (cs : List Char) : Option ((Key × Toml) × List Char) := do
  let (key, rest) ← readKey cs
  match rest with
  | '=' :: rest =>
    let (value, left) ← item (skipBlanks rest)
    return ((key, value), skipBlanks left)
  | _ => none

/-- The keys of an inline table with their values, at least one and at most so many, up to its
closing brace. -/
def readPairings (item : Reader Toml) : Nat → Reader (List (Key × Toml))
  | 0, _ => none
  | n + 1, cs => do
    let (pairing, rest) ← readPairing item cs
    match rest with
    | ',' :: rest =>
      let (pairings, left) ← readPairings item n rest
      return (pairing :: pairings, left)
    | '}' :: left => return ([pairing], left)
    | _ => none

/-- The table that keys with their values fill, if each of them has a place. -/
def ofPairings? (pairings : List (Key × Toml)) : Option Fields :=
  pairings.foldlM (fun fields (key, value) => assign key.last value key.path fields) []

/-- An inline table after its opening brace. -/
def readInline (item : Reader Toml) (cs : List Char) : Option (Toml × List Char) :=
  match skipBlanks cs with
  | '}' :: left => some (table .inline [], left)
  | rest => do
    let (pairings, left) ← readPairings item (rest.length + 1) rest
    return (table .inline (← ofPairings? pairings), left)

/-- A value with at most so many levels of lists and inline tables. -/
def readValue : Nat → Reader Toml
  | 0, cs => readFlat cs
  | depth + 1, '[' :: rest =>
    (readItems (readValue depth) (rest.length + 1) rest).map fun (items, left) =>
      (array items, left)
  | depth + 1, '{' :: rest => readInline (readValue depth) rest
  | _ + 1, cs => readFlat cs

/-! ## Statements -/

/-- One line of a document. -/
inductive Statement where
  /-- A key with its value. -/
  | assign (key : Key) (value : Toml)
  /-- The header of a table. -/
  | table (key : Key)
  /-- The header of one table of several with the same header. -/
  | element (key : Key)

/-- A statement, up to the end of its line. -/
def readStatement : Reader Statement
  | '[' :: '[' :: rest => do
    let (key, rest) ← readKey rest
    match rest with
    | ']' :: ']' :: rest => return (.element key, ← endLine? rest)
    | _ => none
  | '[' :: rest => do
    let (key, rest) ← readKey rest
    match rest with
    | ']' :: rest => return (.table key, ← endLine? rest)
    | _ => none
  | cs => do
    let ((key, value), rest) ← readPairing (readValue maxDepth) cs
    return (.assign key value, ← endLine? rest)

/-- The statements of a text, at most so many. -/
def readStatements : Nat → List Char → Option (List Statement)
  | 0, _ => none
  | n + 1, cs =>
    match skipLines cs with
    | [] => some []
    | cs => do
      let (statement, rest) ← readStatement cs
      return statement :: (← readStatements n rest)

/-! ## The table of a document -/

/-- A document read in part: its table, and the path of the table that keys go to. -/
structure Draft where
  /-- The table of the document. -/
  fields : Fields := []
  /-- The path of the table that keys go to. -/
  current : List String := []

/-- The draft after one more statement, if the statement has a place. -/
def Draft.add? (d : Draft) : Statement → Option Draft
  | .assign key value =>
    (within (Toml.assign key.last value key.path) d.current d.fields).map fun fields =>
      { d with fields }
  | .table key =>
    (within (openTable key.last) key.path d.fields).map fun fields =>
      { fields, current := key.path ++ [key.last] }
  | .element key =>
    (within (openElement key.last) key.path d.fields).map fun fields =>
      { fields, current := key.path ++ [key.last] }

/-- The table that statements fill, if each of them has a place. -/
def ofStatements? (statements : List Statement) : Option Fields :=
  (statements.foldlM Draft.add? {}).map Draft.fields

/-- The text after a byte-order mark, if it begins with one. -/
def skipMark : List Char → List Char
  | c :: rest => if c.toNat = 0xFEFF then rest else c :: rest
  | [] => []

/-- The table that a text denotes. -/
def parseChars? (cs : List Char) : Option Fields :=
  (readStatements (cs.length + 1) (skipMark cs)).bind ofStatements?

/-- The table that a text denotes. -/
def parse? (source : String) : Option Fields := parseChars? source.toList

end Outbox.Toml
