import Outbox.Json.Reader
import Outbox.Protocol.BlockRecord
import Outbox.Protocol.RequestId
import Outbox.Protocol.Status

/-!
# JSON forms of the protocol's values

Every value has one written form and one or more forms that are read.

* a peer or a link is an array of its thirty-two bytes;
* a request id is written in canonical text form and read from every spelling of it;
* a status is its name; the name as the only field of an object, with a null, is read too;
* a block record is an object of four fields in any order, among which others are ignored; the
  array of the four values is read too.
-/

namespace Outbox

namespace Json

/-- An unsigned number of at most `max`. -/
def toNat? (max : Nat) : Json → Option Nat
  | integer (.ofNat n) => if n ≤ max then some n else none
  | _ => none

/-- A number in the range of 64-bit signed words. -/
def toInt64? : Json → Option Int64
  | integer n =>
    if Int64.minValue.toInt ≤ n ∧ n ≤ Int64.maxValue.toInt then some (Int64.ofInt n) else none
  | _ => none

/-- A number in the range of 64-bit unsigned words. -/
def toUInt64? (v : Json) : Option UInt64 := (v.toNat? (UInt64.size - 1)).map UInt64.ofNat

/-- A byte. -/
def toByte? (v : Json) : Option UInt8 := (v.toNat? 255).map UInt8.ofNat

/-- An octet string, as the array of its bytes. -/
def toOctets? (n : Nat) : Json → Option (Octets n)
  | array items => (items.mapM toByte?).bind (Octets.ofBytes? n)
  | _ => none

/-- The array of the bytes of an octet string. -/
def ofOctets {n : Nat} (o : Octets n) : Json := array (o.bytes.map fun b => integer b.toNat)

end Json

namespace Peer

/-- The written form. -/
def toJson (p : Peer) : Json := Json.ofOctets p.octets

/-- Reads the written form. -/
def ofJson? (v : Json) : Option Peer := (v.toOctets? 32).map Peer.mk

end Peer

namespace Link

/-- The written form. -/
def toJson (l : Link) : Json := Json.ofOctets l.octets

/-- Reads the written form. -/
def ofJson? (v : Json) : Option Link := (v.toOctets? 32).map Link.mk

end Link

namespace RequestId

/-- The written form. -/
def toJson (r : RequestId) : Json := .text (some r.text)

/-- Reads a string that spells the id. -/
def ofJson? : Json → Option RequestId
  | .text (some content) => ofText? content
  | _ => none

end RequestId

namespace Status

/-- The written form. -/
def toJson (s : Status) : Json := .text (some s.name)

/-- Reads the name, alone or as the one field of an object. -/
def ofJson? : Json → Option Status
  | .text (some name) => ofName? name
  | .object [(some name, .null)] => ofName? name
  | _ => none

end Status

namespace BlockRecord

/-- The written form. -/
def toJson (r : BlockRecord) : Json := .object [
  (some "link", r.link.toJson),
  (some "block_size", .integer r.size.toNat),
  (some "block_size_on_wire", .integer r.wireSize.toNat),
  (some "index", .integer r.index.toInt)]

/-- The record of the four values. -/
def ofValues? (link size wireSize index : Json) : Option BlockRecord := do
  return {
    link := ← Link.ofJson? link
    size := ← size.toUInt64?
    wireSize := ← wireSize.toUInt64?
    index := ← index.toInt64? }

/-- The value of the only field with a name. -/
def only? (name : String) (fields : List (Option String × Json)) : Option Json :=
  match fields.filter (fun f => f.1 = some name) with
  | [(_, value)] => some value
  | _ => none

/-- Reads an object with each of the four fields once, or the array of their values. Every field
of the object must have a proper name. -/
def ofJson? : Json → Option BlockRecord
  | .array [link, size, wireSize, index] => ofValues? link size wireSize index
  | .object fields =>
    if fields.any (fun f => f.1.isNone) then none
    else do
      ofValues? (← only? "link" fields) (← only? "block_size" fields)
        (← only? "block_size_on_wire" fields) (← only? "index" fields)
  | _ => none

end BlockRecord

/-! ## Whole texts -/

/-- The kinds of value that have a text form. -/
inductive Form where
  /-- A peer. -/
  | peer
  /-- A request id. -/
  | requestId
  /-- A status. -/
  | status
  /-- A block record. -/
  | blockRecord
deriving DecidableEq, Repr

/-- The written form of the value that a text denotes in a kind. -/
def Form.normalize? (form : Form) (source : String) : Option String :=
  (Json.parse? source).bind fun v =>
    (match form with
    | .peer => (Peer.ofJson? v).map Peer.toJson
    | .requestId => (RequestId.ofJson? v).map RequestId.toJson
    | .status => (Status.ofJson? v).map Status.toJson
    | .blockRecord => (BlockRecord.ofJson? v).map BlockRecord.toJson).map Json.compact

end Outbox
