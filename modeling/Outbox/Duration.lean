/-!
# Durations

* `Duration` — a length of time in whole nanoseconds;
* `Duration.text` — written in the largest of s, ms, µs and ns that has a nonzero whole part,
  with an exact fraction and no trailing zeros.
-/

namespace Outbox

/-- A length of time. -/
@[ext] structure Duration where
  /-- The whole nanoseconds. -/
  nanos : Nat
deriving DecidableEq, Repr

namespace Duration

/-- So many milliseconds. -/
def ofMillis (n : Nat) : Duration := ⟨n * 1000000⟩

/-- So many seconds and nanoseconds. -/
def ofParts (seconds nanos : Nat) : Duration := ⟨seconds * 1000000000 + nanos⟩

/-- The whole milliseconds. -/
def millis (d : Duration) : Nat := d.nanos / 1000000

/-- No time at all. -/
def isZero (d : Duration) : Bool := d.nanos = 0

theorem millis_ofMillis (n : Nat) : (ofMillis n).millis = n := by
  simp [ofMillis, millis]

/-- The decimal digits of `n`, with zeros in front up to `width`. -/
def padded (width n : Nat) : List Char :=
  let digits := Nat.toDigits 10 n
  List.replicate (width - digits.length) '0' ++ digits

/-- A fraction of `10 ^ width` parts after its decimal point; nothing for no parts. -/
def fraction (width parts : Nat) : List Char :=
  match ((padded width parts).reverse.dropWhile (· = '0')).reverse with
  | [] => []
  | digits => '.' :: digits

/-- A number of nanoseconds written in a unit of `10 ^ width` of them. -/
def inUnit (width : Nat) (unit : String) (nanos : Nat) : String :=
  let parts := Nat.pow 10 width
  String.ofList (Nat.toDigits 10 (nanos / parts) ++ fraction width (nanos % parts) ++ unit.toList)

/-- The length of time in the largest unit that it fills. -/
def text (d : Duration) : String :=
  if 1000000000 ≤ d.nanos then inUnit 9 "s" d.nanos
  else if 1000000 ≤ d.nanos then inUnit 6 "ms" d.nanos
  else if 1000 ≤ d.nanos then inUnit 3 "µs" d.nanos
  else inUnit 0 "ns" d.nanos

end Duration

end Outbox
