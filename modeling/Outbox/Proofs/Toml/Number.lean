import Mathlib
import Outbox.Proofs.Text.Decimal
import Outbox.Toml.Document

/-!
# Decimal integers of TOML

The decimal digits of a number are read as that integer.  Digits could also begin a date, a time, a
fraction, an exponent or a number in another base, so it matters what stands after them: none of
these goes on with the end of the line, a blank, a comment, or what follows an item of a list.

* `Toml.stops`, `Toml.Ends` — what may stand after a value;
* `Toml.readMoment_digits` — digits begin neither a date nor a time;
* `Toml.readValue_toDigits` — an integer is read from its digits.
-/

namespace Outbox.Toml

variable {ds rest left : List Char} {c sep : Char} {n width : Nat}

/-- The characters that may stand after a value; no number goes on with one of them. -/
def stops : List Char := ['\n', '\r', ' ', '\t', '#', ',', ']', '}']

/-- Something may stand after a value, or nothing does. -/
def Ends (rest : List Char) : Prop := ∀ c ∈ rest.head?, c ∈ stops

theorem Ends.ne_cons (h : Ends rest) (hc : c ∉ stops) : rest ≠ c :: left := by
  rintro rfl
  exact hc (h c rfl)

/-! ## Digits -/

theorem isDigitIn_of_isDigit (h : c.isDigit = true) : isDigitIn 10 c = true := by
  have hrange : '0' ≤ c ∧ c ≤ '9' := by
    rw [Char.isDigit, Bool.and_eq_true, decide_eq_true_iff, decide_eq_true_iff] at h
    exact h
  have hnine : c.toNat ≤ '9'.toNat := UInt32.le_iff_toNat_le.mp hrange.2
  rw [isDigitIn, Hex.value?, if_pos hrange, Option.any_some, decide_eq_true_iff]
  simp only [Char.reduceToNat] at hnine
  omega

theorem Ends.isDigitIn_eq_false (h : Ends (c :: rest)) : isDigitIn 10 c = false := by
  have hc := h c rfl
  simp only [stops, List.mem_cons, List.not_mem_nil, or_false] at hc
  rcases hc with rfl | rfl | rfl | rfl | rfl | rfl | rfl | rfl <;> rfl

theorem digitValue_digitChar : ∀ d < 10, digitValue d.digitChar = d := by decide

theorem valueIn_concat (ds : List Char) (c : Char) :
    valueIn 10 (ds ++ [c]) = 10 * valueIn 10 ds + digitValue c := by
  rw [valueIn, List.foldl_append]
  rfl

theorem valueIn_toDigits (n : Nat) : valueIn 10 (Nat.toDigits 10 n) = n := by
  induction n using Nat.strongRecOn with
  | ind n ih =>
    by_cases hn : n < 10
    · rw [Nat.toDigits_of_lt_base hn]
      simp [valueIn, digitValue_digitChar n hn]
    · rw [Nat.toDigits_of_base_le (by decide) (by omega), valueIn_concat, ih (n / 10) (by omega),
        digitValue_digitChar (n % 10) (Nat.mod_lt n (by decide))]
      omega

theorem readMoreDigits_append (hds : ∀ c ∈ ds, c.isDigit = true) (h : Ends rest) :
    readMoreDigits (isDigitIn 10) (ds ++ rest) = some (ds, rest) := by
  induction ds with
  | nil =>
    cases rest with
    | nil => rfl
    | cons c rest =>
      have hunderscore : c ≠ '_' := by
        rintro rfl
        exact h.ne_cons (by decide) rfl
      rw [List.nil_append, readMoreDigits.eq_3 _ _ _ fun _ _ hc _ => hunderscore hc,
        if_neg (by simp [h.isDigitIn_eq_false])]
  | cons c ds ih =>
    have hc := hds c (List.mem_cons_self ..)
    have hunderscore : c ≠ '_' := by rintro rfl; simp at hc
    rw [List.cons_append, readMoreDigits.eq_3 _ _ _ fun _ _ hc _ => hunderscore hc,
      if_pos (isDigitIn_of_isDigit hc), ih fun c hc => hds c (List.mem_cons_of_mem _ hc)]
    rfl

/-! ## Dates and times -/

/-- A number of fixed width takes nothing from behind the digits. -/
theorem exists_append_of_readFixed (h : Ends rest)
    (hread : readFixed width (ds ++ rest) = some (n, left)) :
    ∃ more, left = more ++ rest ∧ ∀ c ∈ more, c ∈ ds := by
  simp only [readFixed, Option.ite_none_right_eq_some, Option.some.injEq, Prod.mk.injEq] at hread
  obtain ⟨⟨hlength, hall⟩, -, rfl⟩ := hread
  have hwidth : width ≤ ds.length := by
    by_contra hwidth
    cases rest with
    | nil =>
      rw [List.length_take, List.append_nil] at hlength
      omega
    | cons c rest =>
      have hmem : c ∈ (ds ++ c :: rest).take width :=
        List.mem_take_iff_getElem.mpr ⟨ds.length, by simp; omega, by simp⟩
      rw [List.all_eq_true] at hall
      exact Bool.false_ne_true (h.isDigitIn_eq_false.symm.trans (hall c hmem))
  exact ⟨ds.drop width, List.drop_append_of_le_length hwidth, fun _ => List.mem_of_mem_drop⟩

theorem after?_digits (hds : ∀ c ∈ ds, c.isDigit = true) (h : Ends rest)
    (hsep : sep = '-' ∨ sep = ':') : after? sep (ds ++ rest) = none := by
  have hplain : sep.isDigit = false ∧ sep ∉ stops := by
    rcases hsep with rfl | rfl <;> decide
  cases ds with
  | nil =>
    cases rest with
    | nil => rfl
    | cons c rest =>
      refine if_neg ?_
      rintro rfl
      exact hplain.2 (h c rfl)
  | cons c ds =>
    refine if_neg ?_
    rintro rfl
    exact Bool.false_ne_true (hplain.1.symm.trans (hds c (List.mem_cons_self ..)))

theorem afterDate?_digits (hds : ∀ c ∈ ds, c.isDigit = true) (h : Ends rest) :
    afterDate? (ds ++ rest) = none := by
  rw [afterDate?]
  cases hread : readFixed 4 (ds ++ rest) with
  | none => rfl
  | some year =>
    obtain ⟨more, hleft, hmore⟩ := exists_append_of_readFixed h hread
    simp [hleft, after?_digits (fun c hc => hds c (hmore c hc)) h (.inl rfl)]

theorem afterTime?_digits (hds : ∀ c ∈ ds, c.isDigit = true) (h : Ends rest) :
    afterTime? (ds ++ rest) = none := by
  rw [afterTime?]
  cases hread : readPair 0 23 (ds ++ rest) with
  | none => rfl
  | some hour =>
    obtain ⟨more, hleft, hmore⟩ :=
      exists_append_of_readFixed h (Option.filter_eq_some_iff.mp hread).1
    simp [hleft, after?_digits (fun c hc => hds c (hmore c hc)) h (.inr rfl)]

/-- Digits begin neither a date nor a time. -/
theorem readMoment_digits (hds : ∀ c ∈ ds, c.isDigit = true) (h : Ends rest) :
    readMoment (ds ++ rest) = none := by
  rw [readMoment, afterDate?_digits hds h, afterTime?_digits hds h]
  rfl

/-! ## Integers -/

theorem readWhole_toDigits (n : Nat) (h : Ends rest) :
    readWhole (Nat.toDigits 10 n ++ rest) = some (Nat.toDigits 10 n, rest) := by
  obtain ⟨c, ds, hdigits, hdigit, hzero⟩ := Decimal.exists_head n
  have hds : ∀ d ∈ ds, d.isDigit = true := fun d hd =>
    Decimal.isDigit_of_mem (hdigits ▸ List.mem_cons_of_mem c hd : d ∈ Nat.toDigits 10 n)
  rw [hdigits, List.cons_append]
  by_cases hc : c = '0'
  · obtain ⟨-, rfl⟩ := hzero hc
    rw [hc]
    rfl
  · rw [readWhole.eq_2 _ fun _ hcons => hc (List.cons.inj hcons).1, readDigits,
      if_pos (isDigitIn_of_isDigit hdigit), readMoreDigits_append hds h]
    rfl

theorem readFraction_of_ends (h : Ends rest) : readFraction rest = some (none, rest) :=
  readFraction.eq_2 _ fun _ => h.ne_cons (by decide)

theorem readExponent_of_ends (h : Ends rest) : readExponent rest = some (none, rest) := by
  cases rest with
  | nil => rfl
  | cons c rest =>
    refine if_neg ?_
    rintro (rfl | rfl)
    · exact h.ne_cons (by decide) rfl
    · exact h.ne_cons (by decide) rfl

theorem readDecimal_toDigits (n : Nat) (h : Ends rest) :
    readDecimal false (Nat.toDigits 10 n ++ rest) = (word? n).map fun v => (v, rest) := by
  simp only [readDecimal, readWhole_toDigits n h, readFraction_of_ends h, readExponent_of_ends h,
    Option.bind_eq_bind, Option.bind_some, signed, valueIn_toDigits, Option.pure_def,
    Bool.false_eq_true, if_false]
  cases word? n <;> rfl

/-- What begins with the digits of a number has none of the prefixes that something else than a
decimal number begins with. -/
theorem ne_cons_cons_of_toDigits (h : Ends rest) (hc : c ∉ stops) :
    Nat.toDigits 10 n ++ rest ≠ '0' :: c :: left := by
  obtain ⟨d, ds, hdigits, -, hzero⟩ := Decimal.exists_head n
  rw [hdigits, List.cons_append]
  intro hcons
  obtain ⟨hd, hcons⟩ := List.cons.inj hcons
  obtain ⟨-, rfl⟩ := hzero hd
  exact h.ne_cons hc hcons

theorem ne_cons_of_toDigits (hc : c.isDigit = false) : Nat.toDigits 10 n ++ rest ≠ c :: left := by
  obtain ⟨d, ds, hdigits, hdigit, -⟩ := Decimal.exists_head n
  rw [hdigits, List.cons_append]
  intro hcons
  rw [(List.cons.inj hcons).1, hc] at hdigit
  cases hdigit

theorem readNumber_toDigits (n : Nat) (h : Ends rest) :
    readNumber (Nat.toDigits 10 n ++ rest) = (word? n).map fun v => (v, rest) := by
  have hsign : readSign (Nat.toDigits 10 n ++ rest) = (false, Nat.toDigits 10 n ++ rest) :=
    readSign.eq_3 _ (fun _ => ne_cons_of_toDigits rfl) fun _ => ne_cons_of_toDigits rfl
  have hspecial : readSpecial (Nat.toDigits 10 n ++ rest) = none :=
    readSpecial.eq_3 _ (fun _ => ne_cons_of_toDigits rfl) fun _ => ne_cons_of_toDigits rfl
  rw [readNumber.eq_4 _ (fun _ => ne_cons_cons_of_toDigits h (by decide))
    (fun _ => ne_cons_cons_of_toDigits h (by decide))
    (fun _ => ne_cons_cons_of_toDigits h (by decide)), hsign, hspecial]
  exact readDecimal_toDigits n h

/-- An integer is read from its digits. -/
theorem readValue_toDigits (hn : n < 2 ^ 63) (h : Ends rest) :
    readValue maxDepth (Nat.toDigits 10 n ++ rest) = some (integer n, rest) := by
  have hword : word? n = some (integer n) := by
    refine if_pos ?_
    rw [Int64.toInt_minValue, Int64.toInt_maxValue]
    omega
  have hmoment : readMoment (Nat.toDigits 10 n ++ rest) = none :=
    readMoment_digits (fun _ => Decimal.isDigit_of_mem) h
  -- a value that begins with a digit is neither a list, a table, a string nor a truth value
  rw [maxDepth,
    readValue.eq_4 _ _ (fun _ => ne_cons_of_toDigits rfl) fun _ => ne_cons_of_toDigits rfl,
    readFlat.eq_7 _ (fun _ => ne_cons_of_toDigits rfl) (fun _ => ne_cons_of_toDigits rfl)
      (fun _ => ne_cons_of_toDigits rfl) (fun _ => ne_cons_of_toDigits rfl)
      (fun _ => ne_cons_of_toDigits rfl) fun _ => ne_cons_of_toDigits rfl,
    hmoment, readNumber_toDigits n h, hword]
  rfl

end Outbox.Toml
