import Outbox.Text.Hex
import Outbox.Toml.Line
import Outbox.Toml.Value

/-!
# Numbers of TOML

* `Toml.readNumber` — integers in four bases and floating-point numbers;
* `Toml.isFinite` — a decimal number is not rounded to infinity by the double format.
-/

namespace Outbox.Toml

/-- The digits after the first one; a single underscore may stand between two digits. -/
def readMoreDigits (isDigit : Char → Bool) : Reader (List Char)
  | [] => some ([], [])
  | '_' :: c :: rest =>
    if isDigit c then (readMoreDigits isDigit rest).map fun (ds, left) => (c :: ds, left) else none
  | c :: rest =>
    if isDigit c then (readMoreDigits isDigit rest).map fun (ds, left) => (c :: ds, left)
    else some ([], c :: rest)

/-- At least one digit; a single underscore may stand between two digits. -/
def readDigits (isDigit : Char → Bool) : Reader (List Char)
  | c :: rest =>
    if isDigit c then (readMoreDigits isDigit rest).map fun (ds, left) => (c :: ds, left) else none
  | [] => none

/-- The value of a digit. -/
def digitValue (c : Char) : Nat := (Hex.value? c).getD 0

/-- The value of digits in a base, most significant first. -/
def valueIn (base : Nat) (digits : List Char) : Nat :=
  digits.foldl (fun n c => base * n + digitValue c) 0

/-- The character is a digit of the base. -/
def isDigitIn (base : Nat) (c : Char) : Bool := (Hex.value? c).any (· < base)

/-- An integer in the range of 64-bit signed words. -/
def word? (n : Int) : Option Toml :=
  if Int64.minValue.toInt ≤ n ∧ n ≤ Int64.maxValue.toInt then some (integer n) else none

/-- An integer in a base other than ten, after the letter for the base. -/
def readInBase (base : Nat) (cs : List Char) : Option (Toml × List Char) := do
  let (digits, left) ← readDigits (isDigitIn base) cs
  return (← word? (valueIn base digits), left)

/-- The integer part of a decimal number: a single zero, or digits that start with another one. -/
def readWhole : Reader (List Char)
  | '0' :: rest => some (['0'], rest)
  | cs => readDigits (isDigitIn 10) cs

/-- The digits after a decimal point, if there is one. -/
def readFraction : Reader (Option (List Char))
  | '.' :: rest => (readDigits (isDigitIn 10) rest).map fun (ds, left) => (some ds, left)
  | cs => some (none, cs)

/-- A sign, if there is one; whether it is a minus. -/
def readSign : List Char → Bool × List Char
  | '-' :: rest => (true, rest)
  | '+' :: rest => (false, rest)
  | cs => (false, cs)

/-- The value of digits with a sign. -/
def signed (negative : Bool) (digits : List Char) : Int :=
  if negative then -(valueIn 10 digits : Int) else valueIn 10 digits

/-- An exponent, if there is one. -/
def readExponent : Reader (Option Int)
  | c :: rest =>
    if c = 'e' ∨ c = 'E' then
      (readDigits (isDigitIn 10) (readSign rest).2).map fun (ds, left) =>
        (some (signed (readSign rest).1 ds), left)
    else some (none, c :: rest)
  | [] => some (none, [])

/-- The smallest number that the double format rounds to infinity. -/
def infinityBound : Nat := Nat.pow 2 1024 - Nat.pow 2 970

/-- The number `mantissa * 10 ^ exponent` is not rounded to infinity by the double format. Powers
of ten are computed only where the number of digits leaves the question open. -/
def isFinite (mantissa : Nat) (exponent : Int) : Bool :=
  let size : Int := (Nat.toDigits 10 mantissa).length + exponent
  if mantissa = 0 ∨ size ≤ 300 then true
  else if 320 ≤ size then false
  else
    match exponent with
    | .ofNat e => mantissa * Nat.pow 10 e < infinityBound
    | .negSucc e => mantissa < infinityBound * Nat.pow 10 (e + 1)

/-- A decimal number after its sign. A negative one may be rounded to infinity. -/
def readDecimal (negative : Bool) (cs : List Char) : Option (Toml × List Char) := do
  let (whole, afterWhole) ← readWhole cs
  let (fraction, afterFraction) ← readFraction afterWhole
  let (exponent, left) ← readExponent afterFraction
  match fraction, exponent with
  | none, none => return (← word? (signed negative whole), left)
  | _, _ =>
    let fraction := fraction.getD []
    let mantissa := valueIn 10 (whole ++ fraction)
    if negative || isFinite mantissa (exponent.getD 0 - fraction.length) then
      return (float, left)
    else none

/-- A number after its sign that is not written in digits. -/
def readSpecial : Reader Toml
  | 'i' :: 'n' :: 'f' :: rest => some (float, rest)
  | 'n' :: 'a' :: 'n' :: rest => some (float, rest)
  | _ => none

/-- A number. -/
def readNumber : Reader Toml
  | '0' :: 'x' :: rest => readInBase 16 rest
  | '0' :: 'o' :: rest => readInBase 8 rest
  | '0' :: 'b' :: rest => readInBase 2 rest
  | cs => readSpecial (readSign cs).2 <|> readDecimal (readSign cs).1 (readSign cs).2

end Outbox.Toml
