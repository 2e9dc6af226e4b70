import Mathlib
import Outbox.Json.Reader
import Outbox.Proofs.Text.Decimal
import Outbox.Proofs.Text.Hex

/-!
# Reading JSON back

The text of a value is read as the value, whatever stands after it that may stand after a value.

* `Json.IsExact` — the values that their texts determine;
* `Json.readPieces_escaped`, `Json.readNumber_integerChars` — characters and numbers;
* `Json.Reads` — a value is read back from its text inside a longer one;
* `Json.parse?_compact` — a value is read back from its text.
-/

namespace Outbox.Json

/-- Something may stand after a value: the end, or what comes after an item of a list or after the
value of a field. -/
def Ends (rest : List Char) : Prop := ∀ c ∈ rest.head?, c = ',' ∨ c = ']' ∨ c = '}'

theorem ends_nil : Ends [] := by simp [Ends]

theorem ends_cons {c : Char} {rest : List Char} (h : c = ',' ∨ c = ']' ∨ c = '}') :
    Ends (c :: rest) := by simpa [Ends] using h

variable {cs rest : List Char} {c : Char} {n : Nat}

/-! ## Numbers -/

theorem Ends.endsDigits (h : Ends rest) : Decimal.EndsDigits rest := by
  intro c hc
  rcases h c hc with rfl | rfl | rfl <;> rfl

theorem digitsValue_toDigits (n : Nat) : digitsValue (Nat.toDigits 10 n) = n :=
  Nat.ofDigitChars_toDigits (by decide) (by decide)

theorem readDigits_toDigits (n : Nat) (h : Decimal.EndsDigits rest) :
    readDigits (Nat.toDigits 10 n ++ rest) = some (Nat.toDigits 10 n, rest) := by
  rw [readDigits, Decimal.takeWhile_toDigits n h, Decimal.dropWhile_toDigits n h]
  cases hdigits : Nat.toDigits 10 n with
  | nil => exact absurd hdigits Nat.toDigits_ne_nil
  | cons c digits => rfl

theorem readWhole_toDigits (n : Nat) (h : Decimal.EndsDigits rest) :
    readWhole (Nat.toDigits 10 n ++ rest) = some (n, rest) := by
  obtain ⟨c, digits, hdigits, -, hzero⟩ := Decimal.exists_head n
  by_cases hc : c = '0'
  · obtain ⟨rfl, rfl⟩ := hzero hc
    rw [hdigits, hc]
    rfl
  · have hread := readDigits_toDigits n h
    rw [hdigits, List.cons_append] at hread ⊢
    rw [readWhole.eq_2 _ (by simpa using hc), hread, Option.map_some, ← hdigits]
    simp only [digitsValue_toDigits]

theorem readMagnitude_toDigits (n : Nat) (h : Ends rest) :
    readMagnitude (Nat.toDigits 10 n ++ rest) = some (n, true, rest) := by
  rw [readMagnitude, readWhole_toDigits n h.endsDigits]
  -- a comma or a bracket begins neither a fraction nor an exponent
  cases rest with
  | nil => rfl
  | cons c rest => rcases h c rfl with rfl | rfl | rfl <;> rfl

/-- A number is read back from its digits. -/
theorem readNumber_integerChars (n : Int) (h : Ends rest) :
    readNumber (integerChars n ++ rest) = some (integer n, rest) := by
  cases n with
  | ofNat n =>
    obtain ⟨c, digits, hdigits, hdigit, -⟩ := Decimal.exists_head n
    have hminus : c ≠ '-' := by rintro rfl; simp at hdigit
    have hread := readMagnitude_toDigits n h
    rw [integerChars, hdigits, List.cons_append] at *
    rw [readNumber.eq_2 _ (by simpa using hminus), hread]
    rfl
  | negSucc n =>
    rw [integerChars, List.cons_append, readNumber, readMagnitude_toDigits (n + 1) h]
    rfl

/-! ## Strings -/

theorem join?_unit {unit : Nat} (h : unit < 0xD800) (pieces : List (Char ⊕ Nat)) :
    join? (.inr unit :: pieces) = (join? pieces).map (Char.ofNat unit :: ·) := by
  rcases pieces with _ | ⟨c | lo, pieces⟩
  · simp [join?, h.not_ge]
  · simp [join?, h.not_ge]
  · have : ¬ 0xDC00 ≤ unit := by omega
    simp [join?, h.not_ge, this]

theorem readPieces_escape {e : Char} (h : escape? e = some c) (cs : List Char) :
    readPieces ('\\' :: e :: cs) =
      (readPieces cs).map fun (pieces, left) => (.inl c :: pieces, left) := by
  have hu : e ≠ 'u' := by rintro rfl; simp [escape?] at h
  rw [readPieces.eq_4 _ _ fun _ _ _ _ _ he _ => hu he, h]
  cases readPieces cs <;> rfl

theorem readPieces_unit (h : n < 32) (cs : List Char) :
    readPieces ('\\' :: 'u' :: '0' :: '0' :: Nat.digitChar (n / 16) :: Nat.digitChar (n % 16) ::
      cs) = (readPieces cs).map fun (pieces, left) => (.inr n :: pieces, left) := by
  have hvalue : ∀ d < 16, Hex.value? (Nat.digitChar d) = some d := by decide
  have hzero : Hex.value? '0' = some 0 := by decide
  have hunit :
      Hex.number? 0 ['0', '0', Nat.digitChar (n / 16), Nat.digitChar (n % 16)] = some n := by
    simp only [Hex.number?, hzero, hvalue (n / 16) (by omega), hvalue (n % 16) (by omega),
      Option.bind_some, Option.some.injEq]
    omega
  rw [readPieces, hunit]
  cases readPieces cs <;> rfl

theorem readPieces_plain (hquote : c ≠ '"') (hslash : c ≠ '\\') (hcontrol : ¬ c.toNat < 32)
    (cs : List Char) : readPieces (c :: cs) =
      (readPieces cs).map fun (pieces, left) => (.inl c :: pieces, left) := by
  rw [readPieces.eq_5 _ _ hquote (fun _ _ _ _ _ hc _ => hslash hc) fun _ _ hc _ => hslash hc,
    if_neg (by simp [hslash, hcontrol])]
  cases readPieces cs <;> rfl

/-- A character inside quotes is read as one piece, which stands for the character. -/
theorem readPieces_escaped (c : Char) (cs : List Char) : ∃ piece,
    readPieces (escaped c ++ cs) =
      (readPieces cs).map (fun (pieces, left) => (piece :: pieces, left)) ∧
    ∀ pieces, join? (piece :: pieces) = (join? pieces).map (c :: ·) := by
  unfold escaped
  split_ifs with h1 h2 h3 h4 h5 h6 h7 h8
  · exact ⟨_, readPieces_escape (by subst h1; rfl) cs, fun _ => rfl⟩
  · exact ⟨_, readPieces_escape (by subst h2; rfl) cs, fun _ => rfl⟩
  · exact ⟨_, readPieces_escape (by subst h3; rfl) cs, fun _ => rfl⟩
  · exact ⟨_, readPieces_escape (by subst h4; rfl) cs, fun _ => rfl⟩
  · exact ⟨_, readPieces_escape (by subst h5; rfl) cs, fun _ => rfl⟩
  · exact ⟨_, readPieces_escape (by subst h6; rfl) cs, fun _ => rfl⟩
  · exact ⟨_, readPieces_escape (by subst h7; rfl) cs, fun _ => rfl⟩
  · refine ⟨_, readPieces_unit h8 cs, fun pieces => ?_⟩
    rw [join?_unit (by omega), Char.ofNat_toNat]
  · exact ⟨_, readPieces_plain h1 h2 h8 cs, fun _ => rfl⟩

theorem readPieces_content (content : List Char) (rest : List Char) : ∃ pieces,
    readPieces (content.flatMap escaped ++ '"' :: rest) = some (pieces, rest) ∧
      join? pieces = some content := by
  induction content with
  | nil => exact ⟨[], rfl, rfl⟩
  | cons c content ih =>
    obtain ⟨pieces, hread, hjoin⟩ := ih
    obtain ⟨piece, hpiece, hjoined⟩ := readPieces_escaped c (content.flatMap escaped ++ '"' :: rest)
    refine ⟨piece :: pieces, ?_, ?_⟩
    · rw [List.flatMap_cons, List.append_assoc, hpiece, hread, Option.map_some]
    · rw [hjoined, hjoin, Option.map_some]

/-- A string is read back from its text in quotes. -/
theorem readText_quoted (content : String) (rest : List Char) : ∃ cs,
    quoted content ++ rest = '"' :: cs ∧ readText cs = some (some content, rest) := by
  obtain ⟨pieces, hread, hjoin⟩ := readPieces_content content.toList rest
  refine ⟨content.toList.flatMap escaped ++ '"' :: rest, by simp [quoted], ?_⟩
  rw [readText, hread, Option.map_some]
  simp only [hjoin, Option.map_some, String.ofList_toList]

/-! ## Values -/

/-- The value is determined by its text: no number in it is known only not to be an integer, and
no string in it is broken. -/
inductive IsExact : Json → Prop
  | null : IsExact .null
  | boolean (b : Bool) : IsExact (.boolean b)
  | integer (n : Int) : IsExact (.integer n)
  | text (content : String) : IsExact (.text (some content))
  | array {items : List Json} (h : ∀ v ∈ items, IsExact v) : IsExact (.array items)
  | object {fields : List (Option String × Json)} (hnames : ∀ f ∈ fields, f.1.isSome)
    (h : ∀ f ∈ fields, IsExact f.2) : IsExact (.object fields)

/-- The value is read back from its text inside a longer one. -/
def Reads (v : Json) : Prop := ∀ {n : Nat} {rest : List Char}, v.compactChars.length ≤ n →
  Ends rest → readValue n (v.compactChars ++ rest) = some (v, rest)

/-- The text of a value begins neither with a blank nor with a closing bracket. -/
theorem exists_head (v : Json) :
    ∃ c cs, v.compactChars = c :: cs ∧ isBlank c = false ∧ c ≠ ']' := by
  cases v with
  | null => exact ⟨'n', _, rfl, rfl, by decide⟩
  | boolean b => cases b <;> exact ⟨_, _, rfl, rfl, by decide⟩
  | integer n =>
    cases n with
    | ofNat n =>
      obtain ⟨c, digits, hdigits, hdigit, -⟩ := Decimal.exists_head n
      refine ⟨c, digits, hdigits, ?_, by rintro rfl; simp at hdigit⟩
      rw [isBlank, decide_eq_false_iff_not]
      rintro (rfl | rfl | rfl | rfl) <;> simp at hdigit
    | negSucc n => exact ⟨'-', _, rfl, rfl, by decide⟩
  | decimal => exact ⟨'-', _, rfl, rfl, by decide⟩
  | text content => exact ⟨'"', _, rfl, rfl, by decide⟩
  | array items => exact ⟨'[', _, rfl, rfl, by decide⟩
  | object fields => exact ⟨'{', _, rfl, rfl, by decide⟩

theorem skipBlanks_cons (h : isBlank c = false) (cs : List Char) :
    skipBlanks (c :: cs) = c :: cs := by
  simp [skipBlanks, h]

theorem skipBlanks_comma (cs : List Char) : skipBlanks (',' :: cs) = ',' :: cs :=
  skipBlanks_cons rfl cs

theorem skipBlanks_colon (cs : List Char) : skipBlanks (':' :: cs) = ':' :: cs :=
  skipBlanks_cons rfl cs

/-- What begins with a digit or a minus sign is read as a number. -/
theorem readValue_of_number (h : c.isDigit = true ∨ c = '-') (n : Nat) (cs : List Char) :
    readValue (n + 1) (c :: cs) = readNumber (c :: cs) := by
  have hblank : isBlank c = false := by
    rw [isBlank, decide_eq_false_iff_not]
    rintro (rfl | rfl | rfl | rfl) <;> simp at h
  rw [readValue, skipBlanks_cons hblank]
  split <;> simp_all

theorem reads_integer (i : Int) : Reads (.integer i) := by
  intro n rest hn hrest
  obtain ⟨c, cs, hchars, hc⟩ : ∃ c cs, integerChars i = c :: cs ∧ (c.isDigit = true ∨ c = '-') := by
    cases i with
    | ofNat n =>
      obtain ⟨c, digits, hdigits, hdigit, -⟩ := Decimal.exists_head n
      exact ⟨c, digits, hdigits, .inl hdigit⟩
    | negSucc n => exact ⟨'-', _, rfl, .inr rfl⟩
  have hread := readNumber_integerChars i hrest
  rw [compactChars] at hn ⊢
  rw [hchars] at hn hread ⊢
  cases n with
  | zero => simp at hn
  | succ n => rw [List.cons_append, readValue_of_number hc, ← List.cons_append, hread]

theorem reads_text (content : String) : Reads (.text (some content)) := by
  intro n rest hn _
  obtain ⟨cs, hquoted, hread⟩ := readText_quoted content rest
  cases n with
  | zero => simp [compactChars, quoted] at hn
  | succ n =>
    rw [compactChars, Option.getD_some, hquoted, readValue, skipBlanks_cons rfl]
    simp only [hread, Option.map_some]

/-- The items of a list are read up to and with its closing bracket. -/
theorem readItems_itemChars {items : List Json} (hreads : ∀ v ∈ items, Reads v)
    (hne : items ≠ []) {n : Nat} (hn : (itemChars items).length ≤ n) (rest : List Char) :
    readItems n (itemChars items ++ rest) = some (items, rest) := by
  induction items generalizing n with
  | nil => exact absurd rfl hne
  | cons v items ih =>
    have hv : Reads v := hreads v (List.mem_cons_self ..)
    cases n with
    | zero => cases items <;> simp [itemChars] at hn
    | succ n =>
      cases items with
      | nil =>
        simp only [itemChars, List.length_append, List.length_singleton, List.append_assoc,
          List.singleton_append] at hn ⊢
        rw [readItems, hv (by omega) (ends_cons (.inr (.inl rfl)))]
        rfl
      | cons w items =>
        simp only [itemChars, List.length_append, List.length_cons, List.append_assoc,
          List.cons_append] at hn ⊢
        rw [readItems, hv (by omega) (ends_cons (.inl rfl))]
        have hrest := ih (fun u hu => hreads u (List.mem_cons_of_mem _ hu)) (by simp)
          (n := n) (by omega)
        simp only [Option.bind_eq_bind, Option.bind_some, skipBlanks_comma, hrest]
        rfl

/-- The fields of an object are read up to and with its closing brace. -/
theorem readFields_fieldChars {fields : List (Option String × Json)}
    (hnames : ∀ f ∈ fields, f.1.isSome) (hreads : ∀ f ∈ fields, Reads f.2) (hne : fields ≠ [])
    {n : Nat} (hn : (fieldChars fields).length ≤ n) (rest : List Char) :
    readFields n (fieldChars fields ++ rest) = some (fields, rest) := by
  induction fields generalizing n with
  | nil => exact absurd rfl hne
  | cons f fields ih =>
    obtain ⟨name, hname⟩ := Option.isSome_iff_exists.mp (hnames f (List.mem_cons_self ..))
    obtain ⟨_, v⟩ := f
    obtain rfl : _ = some name := hname
    have hv : Reads v := hreads _ (List.mem_cons_self ..)
    cases n with
    | zero => cases fields <;> simp [fieldChars] at hn
    | succ n =>
      cases fields with
      | nil =>
        simp only [fieldChars, Option.getD_some, List.length_append, List.length_cons,
          List.append_assoc, List.cons_append, List.nil_append] at hn ⊢
        obtain ⟨cs, hquoted, hread⟩ := readText_quoted name (':' :: (v.compactChars ++ '}' :: rest))
        rw [hquoted, readFields, skipBlanks_cons rfl]
        simp only [hread, Option.bind_eq_bind, Option.bind_some, skipBlanks_colon]
        rw [hv (by omega) (ends_cons (.inr (.inr rfl)))]
        rfl
      | cons g fields =>
        simp only [fieldChars, Option.getD_some, List.length_append, List.length_cons,
          List.append_assoc, List.cons_append] at hn ⊢
        obtain ⟨cs, hquoted, hread⟩ := readText_quoted name
          (':' :: (v.compactChars ++ ',' :: (fieldChars (g :: fields) ++ rest)))
        have hrest := ih (fun f hf => hnames f (List.mem_cons_of_mem _ hf))
          (fun f hf => hreads f (List.mem_cons_of_mem _ hf)) (by simp) (n := n) (by omega)
        rw [hquoted, readFields, skipBlanks_cons rfl]
        simp only [hread, Option.bind_eq_bind, Option.bind_some, skipBlanks_colon]
        rw [hv (by omega) (ends_cons (.inl rfl))]
        simp only [Option.bind_some, skipBlanks_comma, hrest]
        rfl

theorem exists_itemChars_eq (v : Json) (items : List Json) :
    ∃ tail, itemChars (v :: items) = v.compactChars ++ tail := by
  cases items <;> exact ⟨_, rfl⟩

theorem exists_fieldChars_eq (f : Option String × Json) (fields : List (Option String × Json)) :
    ∃ tail, fieldChars (f :: fields) = '"' :: tail := by
  cases fields <;> exact ⟨_, rfl⟩

theorem reads_array {items : List Json} (hreads : ∀ v ∈ items, Reads v) : Reads (.array items) := by
  intro n rest hn _
  cases n with
  | zero => simp [compactChars] at hn
  | succ n =>
    rw [compactChars, List.length_cons] at hn
    cases items with
    | nil => rfl
    | cons v items =>
      have hread := readItems_itemChars hreads (by simp) (n := n) (by omega) rest
      obtain ⟨c, cs, hchars, hblank, hclose⟩ := v.exists_head
      obtain ⟨tail, htail⟩ := exists_itemChars_eq v items
      rw [compactChars, List.cons_append, readValue, skipBlanks_cons rfl]
      rw [htail, hchars, List.cons_append, List.cons_append] at hread ⊢
      simp only [skipBlanks_cons hblank]
      split
      · rename_i h
        exact absurd (List.head_eq_of_cons_eq h) hclose
      · rw [hread, Option.map_some]

theorem reads_object {fields : List (Option String × Json)} (hnames : ∀ f ∈ fields, f.1.isSome)
    (hreads : ∀ f ∈ fields, Reads f.2) : Reads (.object fields) := by
  intro n rest hn _
  cases n with
  | zero => simp [compactChars] at hn
  | succ n =>
    rw [compactChars, List.length_cons] at hn
    cases fields with
    | nil => rfl
    | cons f fields =>
      have hread := readFields_fieldChars hnames hreads (by simp) (n := n) (by omega) rest
      obtain ⟨tail, htail⟩ := exists_fieldChars_eq f fields
      rw [compactChars, List.cons_append, readValue, skipBlanks_cons rfl]
      rw [htail, List.cons_append] at hread ⊢
      simp only [skipBlanks_cons (show isBlank '"' = false from rfl)]
      show (readFields n ('"' :: (tail ++ rest))).map _ = _
      rw [hread]
      rfl

theorem reads_null : Reads .null := by
  intro n rest hn _
  cases n with
  | zero => simp [compactChars] at hn
  | succ n => rfl

theorem reads_boolean (b : Bool) : Reads (.boolean b) := by
  intro n rest hn _
  cases n with
  | zero => cases b <;> simp [compactChars, booleanChars] at hn
  | succ n => cases b <;> rfl

/-- A value that its text determines is read back from it inside a longer text. -/
theorem IsExact.reads {v : Json} (h : v.IsExact) : v.Reads := by
  induction h with
  | null => exact reads_null
  | boolean b => exact reads_boolean b
  | integer n => exact reads_integer n
  | text content => exact reads_text content
  | array _ ih => exact reads_array ih
  | object hnames _ ih => exact reads_object hnames ih

/-- A value that its text determines is read back from it. -/
theorem parse?_compact {v : Json} (h : v.IsExact) : parse? v.compact = some v := by
  have hread := h.reads (n := 2 * v.compactChars.length + 2) (by omega) ends_nil
  rw [List.append_nil] at hread
  rw [parse?, compact, String.toList_ofList, parseChars?, hread]
  rfl

end Outbox.Json
