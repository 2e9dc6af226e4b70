import Outbox.Protocol.Octets

/-!
# Peers and links

* `Peer` — the identifier of a remote node;
* `Peer.text` — its short display form, the digits of the first six bytes;
* `Link` — the content hash of a block.
-/

namespace Outbox

/-- The identifier of a remote node. -/
@[ext] structure Peer where
  /-- Its thirty-two bytes. -/
  octets : Octets 32
deriving DecidableEq

namespace Peer

instance : Key Peer := Key.ofRank octets Peer.ext

/-- The peer whose bytes are all zero. -/
def zero : Peer := ⟨Octets.fill 32 0⟩

instance : Inhabited Peer := ⟨zero⟩

/-- All bytes in hexadecimal. -/
def hex (p : Peer) : String := p.octets.hex

/-- The first six bytes in hexadecimal. -/
def text (p : Peer) : String := String.ofList (Hex.encode (p.octets.bytes.take 6))

end Peer

/-- The content hash that names a block. -/
@[ext] structure Link where
  /-- Its thirty-two bytes. -/
  octets : Octets 32
deriving DecidableEq

namespace Link

instance : Key Link := Key.ofRank octets Link.ext

instance : Inhabited Link := ⟨⟨Octets.fill 32 0⟩⟩

/-- All bytes in hexadecimal. -/
def hex (l : Link) : String := l.octets.hex

end Link

end Outbox
