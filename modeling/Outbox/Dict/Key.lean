/-!
# Keys of a dictionary

A dictionary lists its entries in the order of their keys, so its keys need a strict order in
which any two different keys are comparable.

* `Key` — the order and its three laws;
* instances for numbers, 64-bit words, texts and byte lists.
-/

namespace Outbox

/-- A strict total order on the keys of a dictionary. -/
class Key (κ : Type) where
  /-- The first key comes before the second. -/
  precedes : κ → κ → Bool
  /-- No key comes before itself. -/
  irrefl : ∀ a, precedes a a = false
  /-- The order is transitive. -/
  trans : ∀ {a b c}, precedes a b = true → precedes b c = true → precedes a c = true
  /-- Two keys of which neither comes first are equal. -/
  connex : ∀ {a b}, precedes a b = false → precedes b a = false → a = b

namespace Key

/-- The order of the ranks under an injective ranking. -/
@[reducible] def ofRank {κ β : Type} [Key β] (rank : κ → β)
    (rank_inj : ∀ {a b}, rank a = rank b → a = b) : Key κ where
  precedes a b := precedes (rank a) (rank b)
  irrefl a := irrefl (rank a)
  trans := trans
  connex h h' := rank_inj (connex h h')

end Key

instance : Key Nat where
  precedes a b := decide (a < b)
  irrefl a := by simp
  trans := by intro a b c; simp only [decide_eq_true_eq]; exact Nat.lt_trans
  connex := by intro a b; simp only [decide_eq_false_iff_not]; omega

instance : Key UInt64 :=
  Key.ofRank UInt64.toNat UInt64.toNat_inj.mp

/-- Texts are ordered by their characters, which is also the order of their UTF-8 bytes. -/
instance : Key String where
  precedes a b := decide (a < b)
  irrefl a := by simp
  trans := by intro a b c; simp only [decide_eq_true_eq]; exact String.lt_trans
  connex := by
    intro a b h h'
    simp only [decide_eq_false_iff_not] at h h'
    exact String.le_antisymm (String.not_lt.mp h') (String.not_lt.mp h)

/-- Byte lists are ordered as words in a dictionary are. -/
instance : Key (List UInt8) where
  precedes a b := decide (a < b)
  irrefl a := by simp [List.lt_irrefl]
  trans := by intro a b c; simp only [decide_eq_true_eq]; exact List.lt_trans
  connex := by
    intro a b h h'
    simp only [decide_eq_false_iff_not] at h h'
    exact List.le_antisymm (List.not_lt.mp h') (List.not_lt.mp h)

end Outbox
