import Mathlib
import Outbox.Proofs.Text.Hex
import Outbox.Protocol.RequestId

/-!
# The text of request ids

An id has one written form and many spellings, and no text spells two ids: what is read is decided
by the digits alone.  The written form keeps the order of the ids.

* `RequestId.Spelling` — the texts that spell an id;
* `RequestId.ofChars?_eq_some_iff` — they are read as the id, and no other texts are;
* `RequestId.text_lt_text_iff` — the order of written forms;
* `RequestId.TextForm`, `RequestId.text_form` — all that is promised of the text form.
-/

namespace Outbox

namespace RequestId

variable {r s : RequestId} {cs ds u : List Char} {n : Nat} {sizes : List Nat}

/-! ## Groups -/

theorem toLower_eq_hyphen (c : Char) : c.toLower = '-' ↔ c = '-' := by
  rw [← Char.toNat_inj, ← Char.toNat_inj, Hex.toNat_toLower]
  have : '-'.toNat = 45 := rfl
  split_ifs <;> omega

/-- The number of characters of a text does not depend on where its hyphens stand. -/
theorem length_hyphenate (sizes : List Nat) (cs : List Char) :
    (hyphenate sizes cs).length = cs.length + (sizes.length - 1) := by
  induction sizes, cs using hyphenate.induct with
  | case1 | case2 => simp [hyphenate]
  | case3 n m sizes cs ih =>
    simp only [hyphenate, List.length_append, List.length_take, List.length_cons, ih,
      List.length_drop]
    omega

theorem map_hyphenate {f : Char → Char} (hf : f '-' = '-') (sizes : List Nat) (cs : List Char) :
    (hyphenate sizes cs).map f = hyphenate sizes (cs.map f) := by
  induction sizes, cs using hyphenate.induct with
  | case1 | case2 => simp [hyphenate]
  | case3 n m sizes cs ih =>
    simp only [hyphenate, List.map_append, List.map_take, List.map_cons, hf, ih, List.map_drop]

theorem hyphenate_of_unhyphenate? (h : unhyphenate? sizes cs = some ds) :
    hyphenate sizes ds = cs := by
  induction sizes, cs using unhyphenate?.induct generalizing ds with
  | case1 cs => simpa [unhyphenate?, hyphenate, eq_comm] using h
  | case2 n cs => simpa [unhyphenate?, hyphenate, eq_comm] using h
  | case3 n m sizes cs rest hrest ih =>
    simp only [unhyphenate?, hrest, Option.map_eq_some_iff] at h
    obtain ⟨tail, htail, rfl⟩ := h
    -- a hyphen follows, so the first group is complete
    have hlength : (cs.take n).length = n := by
      have := congrArg List.length hrest
      rw [List.length_drop, List.length_cons] at this
      rw [List.length_take]
      omega
    rw [hyphenate, List.take_left' hlength, List.drop_left' hlength, ih htail, ← hrest,
      List.take_append_drop]
  | case4 n m sizes cs hrest => simp [unhyphenate?] at h

/-- Hyphens are found wherever the letters of a text are of another case. -/
theorem unhyphenate?_map {f : Char → Char} (hf : ∀ c, f c = '-' ↔ c = '-') (sizes : List Nat)
    (cs : List Char) :
    unhyphenate? sizes (cs.map f) = (unhyphenate? sizes cs).map (List.map f) := by
  induction sizes, cs using unhyphenate?.induct with
  | case1 | case2 => simp [unhyphenate?]
  | case3 n m sizes cs rest hrest ih =>
    simp only [unhyphenate?, ← List.map_drop, hrest, List.map_cons, (hf '-').mpr rfl, ih,
      ← List.map_take, Option.map_map, Function.comp_def, List.map_append]
  | case4 n m sizes cs hrest =>
    have hmapped : ∀ rest, (cs.map f).drop n = '-' :: rest → False := by
      intro rest h
      rw [← List.map_drop, List.map_eq_cons_iff] at h
      obtain ⟨c, tail, htail, hc, -⟩ := h
      exact hrest tail ((hf c).mp hc ▸ htail)
    simp only [unhyphenate?, Option.map_none]

theorem unhyphenate?_hyphenate (h : sizes.dropLast.sum ≤ cs.length) :
    unhyphenate? sizes (hyphenate sizes cs) = some cs := by
  induction sizes, cs using hyphenate.induct with
  | case1 | case2 => simp [unhyphenate?, hyphenate]
  | case3 n m sizes cs ih =>
    rw [List.dropLast_cons_cons, List.sum_cons] at h
    have hlength : (cs.take n).length = n := by rw [List.length_take]; omega
    have hrest : (m :: sizes).dropLast.sum ≤ (cs.drop n).length := by
      rw [List.length_drop]; omega
    rw [hyphenate, unhyphenate?, List.drop_left' hlength, List.take_left' hlength]
    simp only [ih hrest, Option.map_some, List.take_append_drop]

/-- Two texts of which the first parts are equally long are ordered by these, or else by what
follows. -/
theorem append_lt_append_iff {a a' b b' : List Char} (h : a.length = a'.length) :
    a ++ b < a' ++ b' ↔ a < a' ∨ a = a' ∧ b < b' := by
  induction a generalizing a' with
  | nil =>
    obtain rfl := List.eq_nil_of_length_eq_zero h.symm
    simp
  | cons c a ih =>
    cases a' with
    | nil => simp at h
    | cons c' a' =>
      simp only [List.cons_append, List.cons_lt_cons_iff, ih (Nat.succ.inj h), List.cons.injEq]
      tauto

/-- Hyphens in the same places do not change the order of equally long texts. -/
theorem hyphenate_lt_hyphenate_iff (h : cs.length = ds.length) :
    hyphenate sizes cs < hyphenate sizes ds ↔ cs < ds := by
  induction sizes, cs using hyphenate.induct generalizing ds with
  | case1 | case2 => simp [hyphenate]
  | case3 n m sizes cs ih =>
    have hfirst : (cs.take n).length = (ds.take n).length := by simp [h]
    have hrest : (cs.drop n).length = (ds.drop n).length := by simp [h]
    conv_rhs => rw [← List.take_append_drop n cs, ← List.take_append_drop n ds]
    rw [hyphenate, hyphenate, append_lt_append_iff hfirst, append_lt_append_iff hfirst,
      List.cons_lt_cons_iff, ih hrest]
    simp

/-! ## The written form -/

theorem length_digits (r : RequestId) : (Hex.encode r.octets.bytes).length = 32 := by
  rw [Hex.length_encode, r.octets.length_eq]

theorem length_chars (r : RequestId) : r.chars.length = 36 := by
  rw [chars, length_hyphenate, length_digits]
  rfl

/-- The written form keeps the order of the ids. -/
theorem text_lt_text_iff : r.text < s.text ↔ Key.precedes r s = true := by
  have hlength : (Hex.encode r.octets.bytes).length = (Hex.encode s.octets.bytes).length := by
    rw [length_digits, length_digits]
  rw [String.lt_iff_toList_lt, text, text, String.toList_ofList, String.toList_ofList, chars, chars,
    hyphenate_lt_hyphenate_iff hlength, Hex.encode_lt_encode_iff]
  exact decide_eq_true_iff.symm

/-! ## Spellings -/

/-- The texts that spell an id.  Letters may be of either case. -/
inductive Spelling (r : RequestId) : List Char → Prop
  /-- The digits alone. -/
  | bare {cs : List Char} (h : cs.map Char.toLower = Hex.encode r.octets.bytes) : Spelling r cs
  /-- The written form. -/
  | grouped {cs : List Char} (h : cs.map Char.toLower = r.chars) : Spelling r cs
  /-- The written form in braces. -/
  | braced {cs : List Char} (h : cs.map Char.toLower = r.chars) : Spelling r ('{' :: cs ++ ['}'])
  /-- The written form after the word of its name form. -/
  | named {u cs : List Char} (hurn : u.map Char.toLower = urn)
      (h : cs.map Char.toLower = r.chars) : Spelling r (u ++ cs)

theorem ofDigits?_eq_some_iff :
    ofDigits? cs = some r ↔ cs.map Char.toLower = Hex.encode r.octets.bytes := by
  rw [← Hex.decode?_eq_some_iff, ofDigits?, Option.bind_eq_some_iff]
  constructor
  · rintro ⟨bytes, hbytes, h⟩
    obtain ⟨octets, hoctets, rfl⟩ := Option.map_eq_some_iff.mp h
    rw [Octets.ofBytes?, Option.dite_none_right_eq_some] at hoctets
    obtain ⟨hlength, h⟩ := hoctets
    rw [hbytes, ← Option.some.inj h]
  · intro h
    refine ⟨_, h, Option.map_eq_some_iff.mpr ⟨r.octets, ?_, rfl⟩⟩
    rw [Octets.ofBytes?, dif_pos r.octets.length_eq]

theorem ofGroups?_eq_some_iff : ofGroups? cs = some r ↔ cs.map Char.toLower = r.chars := by
  rw [ofGroups?, Option.bind_eq_some_iff]
  constructor
  · rintro ⟨ds, hds, h⟩
    rw [← hyphenate_of_unhyphenate? hds, map_hyphenate rfl, ofDigits?_eq_some_iff.mp h, chars]
  · intro h
    have hdigits : unhyphenate? groups (cs.map Char.toLower) =
        some (Hex.encode r.octets.bytes) := by
      rw [h, chars, unhyphenate?_hyphenate]
      rw [length_digits]
      decide
    rw [unhyphenate?_map toLower_eq_hyphen, Option.map_eq_some_iff] at hdigits
    obtain ⟨ds, hds, h⟩ := hdigits
    exact ⟨ds, hds, ofDigits?_eq_some_iff.mpr h⟩

theorem inBraces?_eq_some_iff : inBraces? cs = some ds ↔ cs = '{' :: ds ++ ['}'] := by
  constructor
  · intro h
    unfold inBraces? at h
    split at h
    · rename_i rest
      rw [Option.ite_none_right_eq_some] at h
      obtain ⟨ys, rfl⟩ := List.getLast?_eq_some_iff.mp h.1
      obtain rfl : ys = ds := by simpa using h.2
      rfl
    · cases h
  · rintro rfl
    simp [inBraces?]

theorem afterUrn?_eq_some_iff :
    afterUrn? cs = some ds ↔ ∃ u, u.map Char.toLower = urn ∧ cs = u ++ ds := by
  rw [afterUrn?, Option.ite_none_right_eq_some]
  constructor
  · rintro ⟨hurn, h⟩
    refine ⟨_, hurn, ?_⟩
    rw [← Option.some.inj h, List.take_append_drop]
  · rintro ⟨u, hurn, rfl⟩
    have hlength : u.length = urn.length := by rw [← hurn, List.length_map]
    rw [List.take_left' hlength, List.drop_left' hlength]
    exact ⟨hurn, rfl⟩

theorem length_of_ofDigits? (h : ofDigits? cs = some r) : cs.length = 32 := by
  rw [← length_digits r, ← ofDigits?_eq_some_iff.mp h, List.length_map]

theorem length_of_ofGroups? (h : ofGroups? cs = some r) : cs.length = 36 := by
  rw [← length_chars r, ← ofGroups?_eq_some_iff.mp h, List.length_map]

/-- What is read as an id are its spellings. -/
theorem ofChars?_eq_some_iff : ofChars? cs = some r ↔ Spelling r cs := by
  -- each form has a length of its own, so at most one of the readers accepts a text
  have hdigits (h : cs.length ≠ 32) : ofDigits? cs = none :=
    Option.eq_none_iff_forall_ne_some.mpr fun _ hr => h (length_of_ofDigits? hr)
  have hgroups (h : cs.length ≠ 36) : ofGroups? cs = none :=
    Option.eq_none_iff_forall_ne_some.mpr fun _ hr => h (length_of_ofGroups? hr)
  have hbraces (h : cs.length ≠ 38) : (inBraces? cs).bind ofGroups? = none := by
    refine Option.eq_none_iff_forall_ne_some.mpr fun s hs => ?_
    obtain ⟨ds, hds, hs⟩ := Option.bind_eq_some_iff.mp hs
    have := length_of_ofGroups? hs
    rw [inBraces?_eq_some_iff.mp hds] at h
    simp at h
    omega
  simp only [ofChars?, Option.orElse_eq_some, Option.bind_eq_some_iff (f := ofGroups?),
    inBraces?_eq_some_iff, afterUrn?_eq_some_iff, ofDigits?_eq_some_iff (r := r),
    ofGroups?_eq_some_iff (r := r)]
  constructor
  · rintro (h | ⟨-, h | ⟨-, ⟨ds, rfl, h⟩ | ⟨-, ds, ⟨u, hurn, rfl⟩, h⟩⟩⟩)
    · exact .bare h
    · exact .grouped h
    · exact .braced h
    · exact .named hurn h
  · have hlength {ds : List Char} (h : ds.map Char.toLower = r.chars) : ds.length = 36 := by
      rw [← length_chars r, ← h, List.length_map]
    intro h
    cases h with
    | bare h => exact .inl h
    | grouped h => exact .inr ⟨hdigits (by rw [hlength h]; decide), .inl h⟩
    | @braced ds h =>
      have hds : ('{' :: ds ++ ['}']).length = 38 := by simp [hlength h]
      exact .inr ⟨hdigits (by rw [hds]; decide), .inr ⟨hgroups (by rw [hds]; decide),
        .inl ⟨ds, rfl, h⟩⟩⟩
    | @named u ds hurn h =>
      have hu : u.length = 9 := by rw [← List.length_map (f := Char.toLower), hurn]; rfl
      have hds : (u ++ ds).length = 45 := by rw [List.length_append, hu, hlength h]
      exact .inr ⟨hdigits (by rw [hds]; decide), .inr ⟨hgroups (by rw [hds]; decide),
        .inr ⟨hbraces (by rw [hds]; decide), ds, ⟨u, hurn, rfl⟩, h⟩⟩⟩

theorem map_toLower_chars (r : RequestId) : r.chars.map Char.toLower = r.chars := by
  rw [chars, map_hyphenate rfl, Hex.map_toLower_encode]

theorem spelling_text (r : RequestId) : Spelling r r.text.toList := by
  refine .grouped ?_
  rw [text, String.toList_ofList, map_toLower_chars]

theorem ofText?_eq_some_iff {t : String} : ofText? t = some r ↔ Spelling r t.toList :=
  ofChars?_eq_some_iff

theorem parse_eq_ok_iff {t : String} : parse t = .ok r ↔ Spelling r t.toList := by
  rw [← ofText?_eq_some_iff, parse]
  cases ofText? t <;> simp

theorem parse_eq_error_iff {t : String} {e : ProtocolError} :
    parse t = .error e ↔ e = .invalidRequestId t ∧ ∀ r, ¬ Spelling r t.toList := by
  simp only [← ofText?_eq_some_iff, parse]
  cases ofText? t <;> simp [eq_comm]

/-- The written form is the digits in groups of 8, 4, 4, 4 and 12. -/
theorem toList_text (r : RequestId) : ∃ a b c d e : List Char,
    r.text.toList = a ++ '-' :: (b ++ '-' :: (c ++ '-' :: (d ++ '-' :: e))) ∧
      [a, b, c, d, e].map List.length = [8, 4, 4, 4, 12] ∧
      a ++ b ++ c ++ d ++ e = Hex.encode r.octets.bytes := by
  have hlength := length_digits r
  rw [text, String.toList_ofList, chars]
  generalize Hex.encode r.octets.bytes = digits at hlength
  refine ⟨_, _, _, _, _, rfl, ?_, ?_⟩
  · simp [hyphenate, hlength]
  · simp only [hyphenate, List.append_assoc, List.take_append_drop]

/-- All that is promised of the text form of request ids. -/
structure TextForm : Prop where
  /-- An id is read back from its written form. -/
  parse_text : ∀ r : RequestId, parse r.text = .ok r
  /-- The written form is the digits in groups of 8, 4, 4, 4 and 12, all of them in lower case. -/
  written : ∀ r : RequestId, r.text.toList.map Char.toLower = r.text.toList ∧
    ∃ a b c d e : List Char,
      r.text.toList = a ++ '-' :: (b ++ '-' :: (c ++ '-' :: (d ++ '-' :: e))) ∧
        [a, b, c, d, e].map List.length = [8, 4, 4, 4, 12] ∧
        a ++ b ++ c ++ d ++ e = Hex.encode r.octets.bytes
  /-- The texts that are read as an id are its spellings. -/
  accepted : ∀ (t : String) (r : RequestId), parse t = .ok r ↔ Spelling r t.toList
  /-- Every other text is refused, and the error carries it unchanged. -/
  refused : ∀ (t : String) (e : ProtocolError),
    parse t = .error e ↔ e = .invalidRequestId t ∧ ∀ r, ¬ Spelling r t.toList
  /-- Written forms are ordered as the ids are. -/
  ordered : ∀ r s : RequestId, Key.precedes r s = true ↔ r.text < s.text

/-- **The text form of request ids**: one written form, four spellings in letters of either case,
and nothing else. -/
theorem text_form : TextForm where
  parse_text r := parse_eq_ok_iff.mpr (spelling_text r)
  written r := by
    refine ⟨?_, toList_text r⟩
    rw [text, String.toList_ofList, map_toLower_chars]
  accepted _ _ := parse_eq_ok_iff
  refused _ _ := parse_eq_error_iff
  ordered _ _ := text_lt_text_iff.symm

end RequestId

end Outbox
