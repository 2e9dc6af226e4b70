import Outbox.Protocol.Error
import Outbox.Protocol.Octets

/-!
# Request ids

A request is named by a sixteen-byte id with the usual text forms of a universally unique id.

* `RequestId.text` — the canonical form: lower-case digits in groups of 8-4-4-4-12;
* `RequestId.ofText?` — reads the canonical form, the bare digits, the canonical form in braces,
  and the canonical form after a `urn:uuid:` of any letter case; digits may be of either case;
* `RequestId.parse` — reads the same forms and refuses every other text by name;
* `RequestId.fresh` — a random id.
-/

namespace Outbox

/-- The id of a request. -/
@[ext] structure RequestId where
  /-- Its sixteen bytes. -/
  octets : Octets 16
deriving DecidableEq

namespace RequestId

instance : Key RequestId := Key.ofRank octets RequestId.ext

instance : Inhabited RequestId := ⟨⟨Octets.fill 16 0⟩⟩

/-- The sizes of the groups of digits. -/
def groups : List Nat := [8, 4, 4, 4, 12]

/-- Cuts a text into groups of the given sizes with a hyphen between two groups. -/
def hyphenate : List Nat → List Char → List Char
  | [], cs => cs
  | [_], cs => cs
  | n :: m :: sizes, cs => cs.take n ++ '-' :: hyphenate (m :: sizes) (cs.drop n)

/-- Takes the hyphens out again, which must stand exactly between the groups. -/
def unhyphenate? : List Nat → List Char → Option (List Char)
  | [], cs => some cs
  | [_], cs => some cs
  | n :: m :: sizes, cs =>
    match cs.drop n with
    | '-' :: rest => (unhyphenate? (m :: sizes) rest).map (cs.take n ++ ·)
    | _ => none

/-- All bytes in hexadecimal, without hyphens. -/
def hex (r : RequestId) : String := r.octets.hex

/-- The canonical form as characters. -/
def chars (r : RequestId) : List Char := hyphenate groups (Hex.encode r.octets.bytes)

/-- The canonical form. -/
def text (r : RequestId) : String := String.ofList r.chars

/-- The id written by thirty-two digits. -/
def ofDigits? (cs : List Char) : Option RequestId :=
  (Hex.decode? cs).bind fun bytes => (Octets.ofBytes? 16 bytes).map RequestId.mk

/-- The id written in hyphenated groups. -/
def ofGroups? (cs : List Char) : Option RequestId := (unhyphenate? groups cs).bind ofDigits?

/-- The text between an opening and a closing brace. -/
def inBraces? : List Char → Option (List Char)
  | '{' :: rest => if rest.getLast? = some '}' then some rest.dropLast else none
  | _ => none

/-- The word before the id in its name form. -/
def urn : List Char := "urn:uuid:".toList

/-- The text after the name form's prefix, whose letters may be of either case. -/
def afterUrn? (cs : List Char) : Option (List Char) :=
  if (cs.take urn.length).map Char.toLower = urn then some (cs.drop urn.length) else none

/-- The id that a list of characters spells. -/
def ofChars? (cs : List Char) : Option RequestId :=
  ofDigits? cs <|> ofGroups? cs <|> (inBraces? cs).bind ofGroups? <|> (afterUrn? cs).bind ofGroups?

/-- The id that a text spells. -/
def ofText? (text : String) : Option RequestId := ofChars? text.toList

/-- The id that a text spells; a text that spells none is part of the error. -/
def parse (text : String) : Except ProtocolError RequestId :=
  match ofText? text with
  | some r => .ok r
  | none => .error (.invalidRequestId text)

/-! ## Random ids -/

/-- The id of version 4 whose other bits are those of a random number. -/
def ofRandom (n : Nat) : RequestId :=
  let random := Octets.ofNat 16 n
  ⟨(random.bytes.modify 6 fun b => b % 16 + 64).modify 8 fun b => b % 64 + 128, by
    simp [random.length_eq]⟩

/-- A random id and the generator after it. -/
def fresh (g : StdGen) : RequestId × StdGen :=
  let (n, g) := randNat g 0 (Nat.pow 2 128 - 1)
  (ofRandom n, g)

/-- The version of an id. -/
def version (r : RequestId) : Nat := (r.octets.bytes.getD 6 0).toNat / 16

end RequestId

end Outbox
