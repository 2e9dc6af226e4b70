import Outbox.Protocol.Peer

/-!
# Blocks and links to them

* `Block` — a payload with the content hash that names it;
* `LinkAction`, `LinkEntry` — what a response says about one link.
-/

namespace Outbox

/-- A payload and its content hash. -/
@[ext] structure Block where
  /-- The content hash. -/
  link : Link
  /-- The bytes. -/
  payload : ByteArray

namespace Block

instance : DecidableEq Block := fun b c =>
  if h : b.link = c.link ∧ b.payload.data = c.payload.data then
    isTrue (Block.ext h.1 (ByteArray.ext h.2))
  else
    isFalse (fun he => h (he ▸ ⟨rfl, rfl⟩))

/-- The number of bytes of the payload. -/
def size (b : Block) : Nat := b.payload.size

/-- A block whose payload repeats one byte. -/
def fill (link : Link) (size : Nat) (byte : UInt8) : Block :=
  ⟨link, ⟨Array.replicate size byte⟩⟩

/-- The first bytes of the payload, at most eight. -/
def head (b : Block) : List UInt8 := (b.payload.extract 0 8).toList

@[simp] theorem size_fill (link : Link) (size : Nat) (byte : UInt8) :
    (fill link size byte).size = size := by
  simp [fill, Block.size, ByteArray.size]

end Block

/-- What a response says about a link. -/
inductive LinkAction where
  /-- The block is sent. -/
  | present
  /-- The responder does not have the block. -/
  | missing
  /-- The block was sent before and is not sent again. -/
  | duplicate
deriving DecidableEq, Repr

/-- A link and what a response says about it. -/
structure LinkEntry where
  /-- The link. -/
  link : Link
  /-- What is said of it. -/
  action : LinkAction
deriving DecidableEq

end Outbox
