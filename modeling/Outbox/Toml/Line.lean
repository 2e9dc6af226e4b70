/-!
# Lines and blanks of TOML

* `Toml.skipBlanks`, `Toml.skipLines` — what may stand between two values;
* `Toml.endLine?` — the end of a line after a statement.
-/

namespace Outbox.Toml

/-- What a reader makes of the characters to come: a result and the characters left. -/
abbrev Reader (α : Type) := List Char → Option (α × List Char)

/-- The two blanks within a line. -/
def isBlank (c : Char) : Bool := c = ' ' ∨ c = '\t'

/-- The character may stand in a comment: no control character but the tab. -/
def isPrintable (c : Char) : Bool := c = '\t' ∨ 0x20 ≤ c.toNat ∧ c.toNat ≠ 0x7F

/-- The characters from the first one that is not blank. -/
def skipBlanks (cs : List Char) : List Char := cs.dropWhile isBlank

/-- The characters after the end of a line, if it ends here. -/
def newline? : List Char → Option (List Char)
  | '\n' :: rest => some rest
  | '\r' :: '\n' :: rest => some rest
  | _ => none

/-- The characters from the first one that is part of neither a blank, a line's end nor a comment.
The argument says whether a comment goes on at the beginning. -/
def skipLinesFrom : Bool → List Char → List Char
  | _, [] => []
  | _, '\n' :: rest => skipLinesFrom false rest
  | _, '\r' :: '\n' :: rest => skipLinesFrom false rest
  | true, c :: rest => if isPrintable c then skipLinesFrom true rest else c :: rest
  | false, c :: rest =>
    if c = '#' then skipLinesFrom true rest
    else if isBlank c then skipLinesFrom false rest
    else c :: rest

/-- The characters from the first one that is part of neither a blank, a line's end nor a
comment. -/
def skipLines (cs : List Char) : List Char := skipLinesFrom false cs

/-- The characters after a comment, if there is one. -/
def skipComment : List Char → List Char
  | '#' :: rest => rest.dropWhile isPrintable
  | cs => cs

/-- The characters of the next line, if nothing but blanks and a comment stand before it. -/
def endLine? (cs : List Char) : Option (List Char) :=
  match skipComment (skipBlanks cs) with
  | [] => some []
  | rest => newline? rest

end Outbox.Toml
