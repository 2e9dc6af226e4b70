import Outbox.Toml.Number

/-!
# Dates and times of TOML

* `Toml.readMoment` — a date, a time, or a date and a time with or without an offset.
-/

namespace Outbox.Toml

/-- A number of exactly so many decimal digits. -/
def readFixed (width : Nat) (cs : List Char) : Option (Nat × List Char) :=
  let digits := cs.take width
  if digits.length = width ∧ digits.all (isDigitIn 10) then
    some (valueIn 10 digits, cs.drop width)
  else none

/-- A number of two digits in a range. -/
def readPair (low high : Nat) (cs : List Char) : Option (Nat × List Char) :=
  (readFixed 2 cs).filter fun (n, _) => low ≤ n ∧ n ≤ high

/-- The characters after a given one. -/
def after? (c : Char) : List Char → Option (List Char)
  | x :: rest => if x = c then some rest else none
  | [] => none

/-- The year has a 29th of February. -/
def isLeap (year : Nat) : Bool := year % 4 = 0 ∧ (year % 100 ≠ 0 ∨ year % 400 = 0)

/-- The number of days of a month. -/
def daysIn (year month : Nat) : Nat :=
  if month = 2 then (if isLeap year then 29 else 28)
  else if month = 4 ∨ month = 6 ∨ month = 9 ∨ month = 11 then 30
  else 31

/-- A date; the characters after it. -/
def afterDate? (cs : List Char) : Option (List Char) := do
  let (year, rest) ← readFixed 4 cs
  let (month, rest) ← readPair 1 12 (← after? '-' rest)
  let (_, rest) ← readPair 1 (daysIn year month) (← after? '-' rest)
  return rest

/-- The characters after a fraction of a second, if there is one. -/
def skipFraction : List Char → List Char
  | '.' :: c :: rest =>
    if isDigitIn 10 c then rest.dropWhile (isDigitIn 10) else '.' :: c :: rest
  | cs => cs

/-- A time; the characters after it. There may be a leap second. -/
def afterTime? (cs : List Char) : Option (List Char) := do
  let (_, rest) ← readPair 0 23 cs
  let (_, rest) ← readPair 0 59 (← after? ':' rest)
  let (_, rest) ← readPair 0 60 (← after? ':' rest)
  return skipFraction rest

/-- The characters after an offset in hours and minutes. -/
def afterOffset? (cs : List Char) : Option (List Char) := do
  let (_, rest) ← readPair 0 23 cs
  let (_, rest) ← readPair 0 59 (← after? ':' rest)
  return rest

/-- The characters after an offset, if there is one. -/
def skipOffset : List Char → List Char
  | c :: rest =>
    if c = 'Z' ∨ c = 'z' then rest
    else if c = '+' ∨ c = '-' then (afterOffset? rest).getD (c :: rest)
    else c :: rest
  | [] => []

/-- The characters after the time that belongs to a date, if there is one. -/
def skipTime : List Char → List Char
  | c :: rest =>
    if c = 'T' ∨ c = 't' ∨ c = ' ' then ((afterTime? rest).map skipOffset).getD (c :: rest)
    else c :: rest
  | [] => []

/-- A date, a time, or both. -/
def readMoment (cs : List Char) : Option (Toml × List Char) :=
  ((afterDate? cs).map skipTime <|> afterTime? cs).map fun left => (moment, left)

end Outbox.Toml
