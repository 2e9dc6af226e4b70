import Mathlib
import Outbox.Proofs.Toml.Number

/-!
# Sheets

A sheet is a document as people write one by hand: some entries, then sections with entries of their
own, each on a line, with blank lines and comments between them.  How a line is written is left open
as long as it is read as what it says; the plain ways to write a number and a header are among them.

* `Toml.Spells`, `Toml.Line` — a text that is read as one statement, whatever stands after it;
* `Toml.Entry`, `Toml.Section`, `Toml.Sheet` — lines put together, each name just once in its place;
* `Entry.number`, `Section.plain` — the plain ways;
* `Sheet.parse?_text` — a sheet denotes the table of its entries and sections, in their order.
-/

namespace Outbox.Toml

variable {name : String} {value : Toml} {fields : Fields} {rest cs : List Char} {c : Char} {n : Nat}

/-! ## Lines -/

/-- The text is read as the statement, whatever stands after it.  Blank lines and comments may stand
in front. -/
def Spells (chars : List Char) (statement : Statement) : Prop :=
  ∀ rest, readStatement (skipLines (chars ++ rest)) = some (statement, rest)

/-- A statement and how it is written. -/
structure Line where
  /-- What it says. -/
  statement : Statement
  /-- How it is written. -/
  chars : List Char
  spells : Spells chars statement

namespace Line

theorem chars_ne_nil (line : Line) : line.chars ≠ [] := by
  intro h
  have hread := line.spells []
  rw [h] at hread
  cases hread

theorem length_le_length_flatMap (lines : List Line) :
    lines.length ≤ (lines.flatMap chars).length := by
  induction lines with
  | nil => exact Nat.le_refl 0
  | cons line lines ih =>
    have hline := List.length_pos_of_ne_nil line.chars_ne_nil
    rw [List.flatMap_cons, List.length_append, List.length_cons]
    omega

end Line

/-- The statements of lines are read one after the other. -/
theorem readStatements_lines (lines : List Line) (hrest : skipLines rest = [])
    (hn : lines.length < n) :
    readStatements n (lines.flatMap Line.chars ++ rest) = some (lines.map Line.statement) := by
  induction lines generalizing n with
  | nil =>
    obtain ⟨n, rfl⟩ := Nat.exists_eq_add_of_lt hn
    rw [List.flatMap_nil, List.nil_append, readStatements, hrest]
    rfl
  | cons line lines ih =>
    obtain ⟨n, rfl⟩ : ∃ m, n = m + 1 := ⟨n - 1, by omega⟩
    have hread := line.spells (lines.flatMap Line.chars ++ rest)
    rw [List.flatMap_cons, List.append_assoc, readStatements]
    -- a text without a statement is not that of a line
    cases hskip : skipLines (line.chars ++ (lines.flatMap Line.chars ++ rest)) with
    | nil =>
      rw [hskip] at hread
      cases hread
    | cons c cs =>
      rw [hskip] at hread
      have hothers := ih (n := n) (Nat.lt_of_succ_lt_succ hn)
      simp only [hread, hothers, Option.bind_eq_bind, Option.bind_some, Option.pure_def,
        List.map_cons]

/-- Neither a line nor what may stand after the last one begins with a byte-order mark. -/
theorem skipMark_lines (lines : List Line) (hrest : skipLines rest = []) :
    skipMark (lines.flatMap Line.chars ++ rest) = lines.flatMap Line.chars ++ rest := by
  have hmark : ∀ cs, lines.flatMap Line.chars ++ rest ≠ '\uFEFF' :: cs := by
    intro cs h
    cases lines with
    | nil =>
      rw [List.flatMap_nil, List.nil_append] at h
      rw [h] at hrest
      cases hrest
    | cons line lines =>
      have hread := line.spells (lines.flatMap Line.chars ++ rest)
      rw [List.flatMap_cons, List.append_assoc] at h
      rw [h] at hread
      cases hread
  cases hchars : lines.flatMap Line.chars ++ rest with
  | nil => rfl
  | cons c cs =>
    refine if_neg fun hc => hmark cs ?_
    have hc : c = '\uFEFF' := Char.toNat_inj.mp hc
    rw [hchars, hc]

theorem parseChars?_lines (lines : List Line) (hrest : skipLines rest = []) :
    parseChars? (lines.flatMap Line.chars ++ rest) = ofStatements? (lines.map Line.statement) := by
  have hlength := Line.length_le_length_flatMap lines
  rw [parseChars?, skipMark_lines lines hrest,
    readStatements_lines lines hrest (by rw [List.length_append]; omega), Option.bind_some]

/-! ## Filling tables -/

theorem lookup_of_not_mem (h : name ∉ fields.map Prod.fst) : fields.lookup name = none := by
  rw [List.lookup_eq_none_iff]
  intro e he
  simpa using fun hname : name = e.1 => h (hname ▸ List.mem_map_of_mem he)

theorem lookup_of_mem (hkeys : (fields.map Prod.fst).Nodup) (h : (name, value) ∈ fields) :
    fields.lookup name = some value := by
  obtain ⟨before, after, rfl⟩ := List.append_of_mem h
  rw [List.map_append, List.nodup_append] at hkeys
  refine List.lookup_eq_some_iff.mpr ⟨before, after, rfl, fun e he => ?_⟩
  simpa using fun hname : name = e.1 =>
    hkeys.2.2 e.1 (List.mem_map_of_mem he) name (List.mem_cons_self ..) hname.symm

theorem lookup_concat (h : name ∉ fields.map Prod.fst) (value : Toml) :
    (fields ++ [(name, value)]).lookup name = some value := by
  rw [List.lookup_append, lookup_of_not_mem h]
  simp

theorem put_of_not_mem (h : name ∉ fields.map Prod.fst) (value : Toml) :
    put name value fields = fields ++ [(name, value)] := by
  induction fields with
  | nil => rfl
  | cons e fields ih =>
    rw [List.map_cons, List.mem_cons, not_or] at h
    rw [put, if_neg fun he => h.1 he.symm, ih h.2]
    rfl

theorem put_concat (h : name ∉ fields.map Prod.fst) (old value : Toml) :
    put name value (fields ++ [(name, old)]) = fields ++ [(name, value)] := by
  induction fields with
  | nil => simp [put]
  | cons e fields ih =>
    rw [List.map_cons, List.mem_cons, not_or] at h
    rw [List.cons_append, put, if_neg fun he => h.1 he.symm, ih h.2]
    rfl

theorem assign_of_not_mem (h : name ∉ fields.map Prod.fst) (value : Toml) :
    assign name value [] fields = some (fields ++ [(name, value)]) := by
  rw [assign, lookup_of_not_mem h]
  rfl

/-! ## Sheets -/

/-- A key without dots, with its value. -/
structure Entry where
  /-- The key. -/
  name : String
  /-- The value. -/
  value : Toml
  /-- How they are written. -/
  chars : List Char
  spells : Spells chars (.assign ⟨[], name⟩ value)

namespace Entry

/-- The line of an entry. -/
def line (e : Entry) : Line := ⟨_, e.chars, e.spells⟩

/-- What an entry adds to its table. -/
def field (e : Entry) : String × Toml := (e.name, e.value)

theorem map_field_fst (entries : List Entry) :
    (entries.map field).map Prod.fst = entries.map Entry.name := by
  rw [List.map_map]
  rfl

end Entry

/-- A table under its header. -/
structure Section where
  /-- The name in the header. -/
  name : String
  /-- How the header is written. -/
  chars : List Char
  spells : Spells chars (.table ⟨[], name⟩)
  /-- What stands below it. -/
  entries : List Entry
  nodup : (entries.map Entry.name).Nodup

namespace Section

/-- The lines of a section. -/
def lines (s : Section) : List Line := ⟨_, s.chars, s.spells⟩ :: s.entries.map Entry.line

/-- What a section adds to the document. -/
def field (s : Section) : String × Toml := (s.name, .table .header (s.entries.map Entry.field))

end Section

/-- A document with entries of its own and sections. -/
structure Sheet where
  /-- The entries before the first section. -/
  entries : List Entry := []
  /-- The sections. -/
  sections : List Section
  nodup : (entries.map Entry.name ++ sections.map Section.name).Nodup
  /-- Blank lines and comments after the last line. -/
  closing : List Char := []
  isBlank : skipLines closing = [] := by rfl

/-- The entries of a table go to it wherever it stands in the document, as long as it can be reached
on the path of the draft. -/
theorem foldlM_entries {place : Fields → Fields} {current : List String} {table : Fields}
    (hplace : ∀ f table, within f current (place table) = (f table).map place)
    (entries : List Entry) (hkeys : (table.map Prod.fst ++ entries.map Entry.name).Nodup) :
    ((entries.map Entry.line).map Line.statement).foldlM Draft.add? ⟨place table, current⟩ =
      some ⟨place (table ++ entries.map Entry.field), current⟩ := by
  induction entries generalizing table with
  | nil => simp
  | cons e entries ih =>
    have hfresh : e.name ∉ table.map Prod.fst := fun h =>
      (List.nodup_append.mp hkeys).2.2 _ h _ (List.mem_cons_self ..) rfl
    have hadd : Draft.add? ⟨place table, current⟩ e.line.statement =
        some ⟨place (table ++ [e.field]), current⟩ := by
      simp only [Draft.add?, Entry.line, hplace, assign_of_not_mem hfresh, Option.map_some,
        Entry.field]
    have hothers : ((table ++ [e.field]).map Prod.fst ++ entries.map Entry.name).Nodup := by
      simpa [Entry.field] using hkeys
    have hrest := ih hothers
    rw [List.append_assoc] at hrest
    rw [List.map_cons, List.map_cons, List.foldlM_cons, hadd, Option.bind_eq_bind,
      Option.bind_some, hrest]
    rfl

/-- Below a header the path of the draft leads to the table of the header. -/
theorem within_section (h : name ∉ fields.map Prod.fst) (f : Fields → Option Fields)
    (sub : Fields) : within f [name] (fields ++ [(name, table .header sub)]) =
      (f sub).map fun sub => fields ++ [(name, table .header sub)] := by
  simp only [within, lookup_concat h, reduceCtorEq, if_false, put_concat h]

/-- Sections are added to the document one after the other. -/
theorem foldlM_sections (sections : List Section) (current : List String)
    (hkeys : (fields.map Prod.fst ++ sections.map Section.name).Nodup) :
    (((sections.flatMap Section.lines).map Line.statement).foldlM Draft.add?
        ⟨fields, current⟩).map Draft.fields = some (fields ++ sections.map Section.field) := by
  induction sections generalizing fields current with
  | nil => simp
  | cons s sections ih =>
    have hfresh : s.name ∉ fields.map Prod.fst := fun h =>
      (List.nodup_append.mp hkeys).2.2 _ h _ (List.mem_cons_self ..) rfl
    -- the header puts an empty table at the end of the document, and the entries fill it
    have hopen : Draft.add? ⟨fields, current⟩ (.table ⟨[], s.name⟩) =
        some ⟨fields ++ [(s.name, table .header [])], [s.name]⟩ := by
      simp only [Draft.add?, within, openTable, lookup_of_not_mem hfresh, put_of_not_mem hfresh,
        Option.map_some, List.nil_append]
    have hnodup : (([] : Fields).map Prod.fst ++ s.entries.map Entry.name).Nodup := s.nodup
    have hentries := foldlM_entries (within_section hfresh) s.entries hnodup
    have hothers : ((fields ++ [s.field]).map Prod.fst ++ sections.map Section.name).Nodup := by
      simpa [Section.field] using hkeys
    have hrest := ih [s.name] hothers
    rw [List.append_assoc] at hrest
    rw [List.flatMap_cons, Section.lines, List.cons_append, List.map_cons, List.map_append,
      List.foldlM_cons, hopen, Option.bind_eq_bind, Option.bind_some, List.foldlM_append, hentries]
    exact hrest

namespace Sheet

/-- The lines of a sheet. -/
def lines (s : Sheet) : List Line := s.entries.map Entry.line ++ s.sections.flatMap Section.lines

/-- The text of a sheet. -/
def text (s : Sheet) : String := String.ofList (s.lines.flatMap Line.chars ++ s.closing)

/-- The table of the document. -/
def table (s : Sheet) : Fields := s.entries.map Entry.field ++ s.sections.map Section.field

theorem map_table_fst (s : Sheet) :
    s.table.map Prod.fst = s.entries.map Entry.name ++ s.sections.map Section.name := by
  rw [table, List.map_append, Entry.map_field_fst, List.map_map]
  rfl

theorem ofStatements?_lines (s : Sheet) :
    ofStatements? (s.lines.map Line.statement) = some s.table := by
  have hplace : ∀ f (table : Fields), within f [] (id table) = (f table).map id := by
    intro f table
    rw [Option.map_id]
    rfl
  have hentries : ((s.entries.map Entry.line).map Line.statement).foldlM Draft.add? {} =
      some ⟨s.entries.map Entry.field, []⟩ :=
    foldlM_entries hplace s.entries (List.nodup_append.mp s.nodup).1
  have hsections := foldlM_sections s.sections []
    (Entry.map_field_fst s.entries ▸ s.nodup)
  rw [ofStatements?, lines, List.map_append, List.foldlM_append, hentries, Option.bind_eq_bind,
    Option.bind_some, hsections]
  rfl

/-- A sheet denotes the table of its entries and sections, in their order. -/
theorem parse?_text (s : Sheet) : parse? s.text = some s.table := by
  rw [parse?, text, String.toList_ofList, parseChars?_lines s.lines s.isBlank,
    ofStatements?_lines]

end Sheet

/-! ## Plain lines -/

/-- The name may stand without quotes. -/
def isPlain (name : String) : Bool := name.toList ≠ [] ∧ name.toList.all isBare

theorem exists_head_of_isPlain (h : isPlain name = true) :
    ∃ c cs, name.toList = c :: cs ∧ isBare c = true := by
  obtain ⟨hnil, hall⟩ := of_decide_eq_true h
  obtain ⟨c, cs, hname⟩ := List.exists_cons_of_ne_nil hnil
  exact ⟨c, cs, hname, List.all_eq_true.mp hall c (hname ▸ List.mem_cons_self ..)⟩

theorem ne_of_isBare {d : Char} (hc : isBare c = true) (hd : isBare d = false) : c ≠ d := by
  rintro rfl
  exact Bool.false_ne_true (hd.symm.trans hc)

theorem isBlank_of_isBare (hc : isBare c = true) : isBlank c = false := by
  rw [isBlank, decide_eq_false_iff_not]
  rintro (rfl | rfl) <;> cases hc

theorem skipLines_of_isBare (hc : isBare c = true) (cs : List Char) :
    skipLines (c :: cs) = c :: cs := by
  rw [skipLines, skipLinesFrom.eq_5 _ _ (ne_of_isBare hc rfl) fun _ h _ => ne_of_isBare hc rfl h,
    if_neg (ne_of_isBare hc rfl), if_neg (by simp [isBlank_of_isBare hc])]

/-- A plain name ends before the first character that cannot go on with it. -/
theorem readName_plain (h : isPlain name = true) (hc : isBare c = false) (cs : List Char) :
    readName (name.toList ++ c :: cs) = some (name, c :: cs) := by
  obtain ⟨d, ds, hname, hd⟩ := exists_head_of_isPlain h
  have hall : ∀ x ∈ d :: ds, isBare x = true :=
    hname ▸ List.all_eq_true.mp (of_decide_eq_true h).2
  have htake : (d :: ds ++ c :: cs).takeWhile isBare = d :: ds := by
    rw [List.takeWhile_append_of_pos hall, List.takeWhile_cons_of_neg (by simp [hc]),
      List.append_nil]
  have hdrop : (d :: ds ++ c :: cs).dropWhile isBare = c :: cs := by
    rw [List.dropWhile_append_of_pos hall, List.dropWhile_cons_of_neg (by simp [hc])]
  have hquote : ∀ q, isBare q = false → ∀ left, d :: ds ++ c :: cs ≠ q :: left :=
    fun q hq left hcons => ne_of_isBare hd hq (List.cons.inj hcons).1
  rw [hname, readName.eq_3 _ (hquote _ rfl) (hquote _ rfl), htake, hdrop]
  show some (String.ofList (d :: ds), c :: cs) = _
  rw [← hname, String.ofList_toList]

theorem readKey_plain (h : isPlain name = true) (hc : isBare c = false)
    (hdot : ∀ left, skipBlanks (c :: cs) ≠ '.' :: left) :
    readKey (name.toList ++ c :: cs) = some (⟨[], name⟩, skipBlanks (c :: cs)) := by
  obtain ⟨d, ds, hname, hd⟩ := exists_head_of_isPlain h
  have hblanks : skipBlanks (name.toList ++ c :: cs) = name.toList ++ c :: cs := by
    rw [hname]
    exact List.dropWhile_cons_of_neg (by simp [isBlank_of_isBare hd])
  rw [readKey, maxDepth, readKeyOf, hblanks, readName_plain h hc, Option.bind_eq_bind,
    Option.bind_some]
  dsimp only
  split
  · rename_i hskip
    exact absurd hskip (hdot _)
  · rfl

/-- The plain way to write that a key has a number. -/
def numberChars (name : String) (n : Nat) : List Char :=
  name.toList ++ ' ' :: '=' :: ' ' :: (Nat.toDigits 10 n ++ ['\n'])

theorem readPairing_numberChars (h : isPlain name = true) (hn : n < 2 ^ 63) (rest : List Char) :
    readPairing (readValue maxDepth) (numberChars name n ++ rest) =
      some ((⟨[], name⟩, integer n), '\n' :: rest) := by
  have hends : Ends ('\n' :: rest) := by simp [Ends, stops]
  have hblanks : skipBlanks (' ' :: (Nat.toDigits 10 n ++ '\n' :: rest)) =
      Nat.toDigits 10 n ++ '\n' :: rest := by
    obtain ⟨d, ds, hdigits, hdigit, -⟩ := Decimal.exists_head n
    have hdigitBlank : isBlank d = false := by
      rw [isBlank, decide_eq_false_iff_not]
      rintro (rfl | rfl) <;> cases hdigit
    rw [hdigits]
    show (d :: (ds ++ '\n' :: rest)).dropWhile isBlank = _
    exact List.dropWhile_cons_of_neg (by simp [hdigitBlank])
  have hkey : readKey (name.toList ++ ' ' :: '=' :: ' ' :: (Nat.toDigits 10 n ++ '\n' :: rest)) =
      some (⟨[], name⟩, '=' :: ' ' :: (Nat.toDigits 10 n ++ '\n' :: rest)) :=
    readKey_plain h rfl fun _ hcons => by cases hcons
  rw [numberChars, List.append_assoc, List.cons_append, List.cons_append, List.cons_append,
    List.append_assoc, List.singleton_append, readPairing, hkey, Option.bind_eq_bind,
    Option.bind_some]
  simp only [hblanks, readValue_toDigits hn hends, Option.bind_eq_bind, Option.bind_some]
  rfl

theorem spells_numberChars (h : isPlain name = true) (hn : n < 2 ^ 63) :
    Spells (numberChars name n) (.assign ⟨[], name⟩ (.integer n)) := by
  intro rest
  obtain ⟨c, cs, hname, hc⟩ := exists_head_of_isPlain h
  obtain ⟨left, hchars⟩ : ∃ left, numberChars name n ++ rest = c :: left := by
    rw [numberChars, hname]
    exact ⟨_, rfl⟩
  have hheader : ∀ left', c :: left ≠ '[' :: left' := fun _ hcons =>
    ne_of_isBare hc rfl (List.cons.inj hcons).1
  have hread := readPairing_numberChars h hn rest
  rw [hchars] at hread ⊢
  rw [skipLines_of_isBare hc, readStatement.eq_3 _ (fun _ => hheader _) fun _ => hheader _, hread]
  rfl

/-- The plain way to write a header. -/
def headerChars (name : String) : List Char := '[' :: (name.toList ++ [']', '\n'])

theorem spells_headerChars (h : isPlain name = true) :
    Spells (headerChars name) (.table ⟨[], name⟩) := by
  intro rest
  obtain ⟨c, cs, hname, hc⟩ := exists_head_of_isPlain h
  have hread : readKey (name.toList ++ ']' :: '\n' :: rest) =
      some (⟨[], name⟩, ']' :: '\n' :: rest) :=
    readKey_plain h rfl fun _ hcons => by cases hcons
  have hsingle : ∀ left, name.toList ++ ']' :: '\n' :: rest ≠ '[' :: left := by
    intro left hcons
    rw [hname] at hcons
    exact ne_of_isBare hc rfl (List.cons.inj hcons).1
  have hskip : skipLines (headerChars name ++ rest) =
      '[' :: (name.toList ++ ']' :: '\n' :: rest) := by
    simp [headerChars, skipLines, skipLinesFrom, isBlank]
  rw [hskip, readStatement.eq_2 _ hsingle, hread]
  rfl

/-- The plain line of a key with a number. -/
def Entry.number (name : String) (n : Nat) (h : isPlain name = true) (hn : n < 2 ^ 63) :
    Entry where
  name
  value := .integer n
  chars := numberChars name n
  spells := spells_numberChars h hn

/-- A section with the plain header. -/
def Section.plain (name : String) (entries : List Entry) (nodup : (entries.map Entry.name).Nodup)
    (h : isPlain name = true) : Section where
  name
  chars := headerChars name
  spells := spells_headerChars h
  entries
  nodup

end Outbox.Toml
