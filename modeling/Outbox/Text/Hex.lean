/-!
# Hexadecimal text

* `Hex.encode` — two lower-case digits for each byte;
* `Hex.decode?` — reads digits of either letter case back, two for each byte.
-/

namespace Outbox.Hex

/-- The lower-case digit of a number below sixteen. -/
def digit (n : Nat) : Char := if n < 10 then Char.ofNat (48 + n) else Char.ofNat (87 + n)

/-- The number a digit of either letter case stands for. -/
def value? (c : Char) : Option Nat :=
  if '0' ≤ c ∧ c ≤ '9' then some (c.toNat - 48)
  else if 'a' ≤ c ∧ c ≤ 'f' then some (c.toNat - 87)
  else if 'A' ≤ c ∧ c ≤ 'F' then some (c.toNat - 55)
  else none

/-- The two digits of a byte. -/
def ofByte (b : UInt8) : List Char := [digit (b.toNat / 16), digit (b.toNat % 16)]

/-- The digits of a list of bytes. -/
def encode (bytes : List UInt8) : List Char := bytes.flatMap ofByte

/-- The bytes that pairs of digits stand for; an odd digit or another character has no reading. -/
def decode? : List Char → Option (List UInt8)
  | [] => some []
  | [_] => none
  | hi :: lo :: rest => do
    let h ← value? hi
    let l ← value? lo
    let bytes ← decode? rest
    return UInt8.ofNat (16 * h + l) :: bytes

/-- The number written by a run of digits, from a number read so far. -/
def number? : Nat → List Char → Option Nat
  | n, [] => some n
  | n, c :: rest => (value? c).bind fun d => number? (16 * n + d) rest

end Outbox.Hex
