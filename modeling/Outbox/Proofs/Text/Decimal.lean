import Mathlib

/-!
# Decimal digits

The digits of a number are decimal ones, there is at least one, and the first is a zero only if the
number is zero.  A reader that takes all the digits it finds takes just these if what follows does
not go on with a digit.

* `Decimal.exists_head` — the first digit of a number;
* `Decimal.takeWhile_toDigits`, `Decimal.dropWhile_toDigits` — where the digits end.
-/

namespace Outbox.Decimal

variable {n : Nat} {rest : List Char} {c : Char}

theorem isDigit_of_mem (h : c ∈ Nat.toDigits 10 n) : c.isDigit = true :=
  Nat.isDigit_of_mem_toDigits (by decide) (by decide) h

theorem digitChar_ne_zero : ∀ d < 10, d ≠ 0 → d.digitChar ≠ '0' := by decide

/-- A number has a first digit, which is a zero only in the number zero. -/
theorem exists_head (n : Nat) : ∃ c digits, Nat.toDigits 10 n = c :: digits ∧
    c.isDigit = true ∧ (c = '0' → n = 0 ∧ digits = []) := by
  induction n using Nat.strongRecOn with
  | ind n ih =>
    by_cases hn : n < 10
    · have htoDigits : Nat.toDigits 10 n = [n.digitChar] := Nat.toDigits_of_lt_base hn
      refine ⟨_, [], htoDigits, isDigit_of_mem (htoDigits ▸ List.mem_singleton_self _), ?_⟩
      intro hzero
      exact ⟨by_contra fun h => digitChar_ne_zero n hn h hzero, rfl⟩
    · obtain ⟨c, digits, htoDigits, hdigit, hzero⟩ := ih (n / 10) (by omega)
      refine ⟨c, digits ++ [(n % 10).digitChar], ?_, hdigit, fun h => ?_⟩
      · rw [Nat.toDigits_of_base_le (by decide) (by omega), htoDigits, List.cons_append]
      · have := (hzero h).1
        omega

/-- The characters do not begin with a digit. -/
def EndsDigits (rest : List Char) : Prop := ∀ c ∈ rest.head?, c.isDigit = false

theorem takeWhile_toDigits (n : Nat) (h : EndsDigits rest) :
    (Nat.toDigits 10 n ++ rest).takeWhile Char.isDigit = Nat.toDigits 10 n := by
  rw [List.takeWhile_append_of_pos fun c hc => isDigit_of_mem hc]
  cases rest with
  | nil => simp
  | cons c rest => simp [h c rfl]

theorem dropWhile_toDigits (n : Nat) (h : EndsDigits rest) :
    (Nat.toDigits 10 n ++ rest).dropWhile Char.isDigit = rest := by
  rw [List.dropWhile_append_of_pos fun c hc => isDigit_of_mem hc]
  cases rest with
  | nil => rfl
  | cons c rest => simp [h c rfl]

end Outbox.Decimal
