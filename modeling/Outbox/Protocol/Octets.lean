import Outbox.Dict.Key
import Outbox.Text.Hex

/-!
# Octet strings of a fixed length

Identifiers and content hashes are byte strings whose length is fixed by their kind.

* `Octets n` — exactly `n` bytes;
* `Octets.hex` — their hexadecimal text;
* `Octets.ofBytes?` — a byte list of the right length;
* octet strings are ordered by their first difference.
-/

namespace Outbox

/-- A byte string of length `n`. -/
@[ext] structure Octets (n : Nat) where
  /-- The bytes in order. -/
  bytes : List UInt8
  /-- Their number. -/
  length_eq : bytes.length = n
deriving DecidableEq

namespace Octets

variable {n : Nat}

instance : Key (Octets n) := Key.ofRank bytes Octets.ext

/-- The byte list as an octet string, if it has the right length. -/
def ofBytes? (n : Nat) (bytes : List UInt8) : Option (Octets n) :=
  if h : bytes.length = n then some ⟨bytes, h⟩ else none

/-- One byte repeated. -/
def fill (n : Nat) (b : UInt8) : Octets n := ⟨List.replicate n b, by simp⟩

/-- The big-endian digits of a number in base 256, `n` of them. -/
def digitsOf : Nat → Nat → List UInt8
  | 0, _ => []
  | n + 1, v => digitsOf n (v / 256) ++ [UInt8.ofNat (v % 256)]

/-- The big-endian form of a number. -/
def ofNat (n v : Nat) : Octets n :=
  ⟨digitsOf n v, by
    induction n generalizing v with
    | zero => rfl
    | succ n ih => simp [digitsOf, ih]⟩

/-- Two lower-case digits for each byte. -/
def hex (o : Octets n) : String := String.ofList (Hex.encode o.bytes)

/-- The octet string written by twice as many digits. -/
def ofHex? (n : Nat) (text : String) : Option (Octets n) :=
  (Hex.decode? text.toList).bind (ofBytes? n)

end Octets

end Outbox
