import Outbox.Dict.Key

/-!
# Dictionaries

A finite map whose entries are kept in the order of their keys. The order is part of the type, so
two dictionaries with the same look-ups are equal.

* `Dict` — entries strictly ordered by key;
* `Dict.get?`, `Dict.insert`, `Dict.erase`, `Dict.update` — look-up and change at one key;
* `Dict.get?_insert`, `Dict.get?_erase` — what a change does to every look-up;
* `Dict.ext_get?` — the look-ups determine the dictionary.
-/

namespace Outbox

/-- A finite map listed in the order of its keys. -/
@[ext] structure Dict (κ α : Type) [Key κ] where
  /-- The entries, smallest key first. -/
  entries : List (κ × α) := []
  /-- Every key comes before the keys listed after it. -/
  ordered : entries.Pairwise (fun a b => Key.precedes a.1 b.1 = true) := by exact .nil

namespace Dict

variable {κ α : Type} [Key κ]

/-- Puts an entry at its place in an ordered list, in place of the entry with the same key. -/
def place (k : κ) (v : α) : List (κ × α) → List (κ × α)
  | [] => [(k, v)]
  | e :: rest =>
    if Key.precedes k e.1 then (k, v) :: e :: rest
    else if Key.precedes e.1 k then e :: place k v rest
    else (k, v) :: rest

theorem mem_place {k : κ} {v : α} {x : κ × α} {l : List (κ × α)} (h : x ∈ place k v l) :
    x = (k, v) ∨ x ∈ l := by
  induction l with
  | nil => simpa [place] using h
  | cons e rest ih =>
    rw [place] at h
    split at h
    · simpa using h
    · split at h
      · rcases List.mem_cons.mp h with rfl | h
        · exact .inr (List.mem_cons_self ..)
        · exact (ih h).imp id (List.mem_cons_of_mem _)
      · rcases List.mem_cons.mp h with rfl | h
        · exact .inl rfl
        · exact .inr (List.mem_cons_of_mem _ h)

theorem place_ordered (k : κ) (v : α) {l : List (κ × α)}
    (h : l.Pairwise (fun a b => Key.precedes a.1 b.1 = true)) :
    (place k v l).Pairwise (fun a b => Key.precedes a.1 b.1 = true) := by
  induction l with
  | nil => simp [place]
  | cons e rest ih =>
    obtain ⟨he, hr⟩ := List.pairwise_cons.mp h
    rw [place]
    split
    · rename_i hk
      refine List.pairwise_cons.mpr ⟨fun x hx => ?_, h⟩
      rcases List.mem_cons.mp hx with rfl | hx
      · exact hk
      · exact Key.trans hk (he x hx)
    · rename_i hk
      split
      · rename_i hk'
        refine List.pairwise_cons.mpr ⟨fun x hx => ?_, ih hr⟩
        rcases mem_place hx with rfl | hx
        · exact hk'
        · exact he x hx
      · rename_i hk'
        have : k = e.1 := Key.connex (by simpa using hk) (by simpa using hk')
        exact List.pairwise_cons.mpr ⟨fun x hx => this ▸ he x hx, hr⟩

/-- The dictionary without entries. -/
def empty : Dict κ α := {}

instance : EmptyCollection (Dict κ α) := ⟨empty⟩

instance : Inhabited (Dict κ α) := ⟨empty⟩

/-- No entry is present. -/
def isEmpty (d : Dict κ α) : Bool := d.entries.isEmpty

/-- The number of entries. -/
def size (d : Dict κ α) : Nat := d.entries.length

/-- The keys in order. -/
def keys (d : Dict κ α) : List κ := d.entries.map Prod.fst

/-- The values in the order of their keys. -/
def values (d : Dict κ α) : List α := d.entries.map Prod.snd

/-- Sets the value at a key. -/
def insert (d : Dict κ α) (k : κ) (v : α) : Dict κ α :=
  ⟨place k v d.entries, place_ordered k v d.ordered⟩

/-- The dictionary with the given entries, of which the last one for a key wins. -/
def ofList (l : List (κ × α)) : Dict κ α := l.foldl (fun d e => d.insert e.1 e.2) ∅

/-- Keys in order, each once. -/
def sorted (ks : List κ) : List κ := (ofList (ks.map (·, ()))).keys

variable [DecidableEq κ]

/-- The value listed with a key. -/
def seek (k : κ) : List (κ × α) → Option α
  | [] => none
  | e :: rest => if k = e.1 then some e.2 else seek k rest

/-- The value at a key. -/
def get? (d : Dict κ α) (k : κ) : Option α := seek k d.entries

/-- The value at a key, or the given one. -/
def getD (d : Dict κ α) (k : κ) (v : α) : α := (d.get? k).getD v

/-- The key has a value. -/
def contains (d : Dict κ α) (k : κ) : Bool := (d.get? k).isSome

/-- Drops the entries whose key fails the test. -/
def filterKeys (d : Dict κ α) (keep : κ → Bool) : Dict κ α :=
  ⟨d.entries.filter (fun e => keep e.1), d.ordered.filter _⟩

/-- Drops the entries that fail the test. -/
def filter (d : Dict κ α) (keep : κ → α → Bool) : Dict κ α :=
  ⟨d.entries.filter (fun e => keep e.1 e.2), d.ordered.filter _⟩

/-- Removes the entry of a key. -/
def erase (d : Dict κ α) (k : κ) : Dict κ α := d.filterKeys (· ≠ k)

/-- Removes the entries of several keys. -/
def eraseAll (d : Dict κ α) (ks : List κ) : Dict κ α := d.filterKeys (fun k => !ks.contains k)

/-- Sets the value at a key to a function of what is there. -/
def update (d : Dict κ α) (k : κ) (f : Option α → α) : Dict κ α := d.insert k (f (d.get? k))

/-- Applies a function to every value. -/
def mapValues {β : Type} (d : Dict κ α) (f : κ → α → β) : Dict κ β :=
  ⟨d.entries.map (fun e => (e.1, f e.1 e.2)), by
    rw [List.pairwise_map]; exact d.ordered⟩

/-! ## What a look-up sees -/

@[simp] theorem get?_empty (k : κ) : (∅ : Dict κ α).get? k = none := rfl

theorem seek_place (k : κ) (v : α) (x : κ) (l : List (κ × α)) :
    seek x (place k v l) = if x = k then some v else seek x l := by
  induction l with
  | nil => simp [place, seek]
  | cons e rest ih =>
    rw [place]
    split
    · simp [seek]
    · rename_i hk
      split
      · rename_i hk'
        have hne : k ≠ e.1 := by
          rintro rfl
          rw [Key.irrefl] at hk'
          exact absurd hk' (by simp)
        by_cases h : x = k
        · subst h; simp [seek, hne, ih]
        · simp [seek, h, ih]
      · rename_i hk'
        have hke : k = e.1 := Key.connex (by simpa using hk) (by simpa using hk')
        by_cases h : x = k
        · simp [seek, h]
        · have : x ≠ e.1 := hke ▸ h
          simp [seek, h, this]

theorem get?_insert (d : Dict κ α) (k : κ) (v : α) (x : κ) :
    (d.insert k v).get? x = if x = k then some v else d.get? x :=
  seek_place k v x d.entries

theorem get?_filterKeys (d : Dict κ α) (keep : κ → Bool) (x : κ) :
    (d.filterKeys keep).get? x = if keep x then d.get? x else none := by
  simp only [get?, filterKeys]
  induction d.entries with
  | nil => simp [seek]
  | cons e rest ih =>
    by_cases hk : keep e.1 <;> by_cases hx : x = e.1
    · simp [hk, seek, hx]
    · simp [hk, seek, hx, ih]
    · subst hx; simp [hk, ih]
    · simp [hk, seek, hx, ih]

theorem get?_erase (d : Dict κ α) (k x : κ) :
    (d.erase k).get? x = if x = k then none else d.get? x := by
  rw [erase, get?_filterKeys]
  by_cases h : x = k <;> simp [h]

theorem get?_eraseAll (d : Dict κ α) (ks : List κ) (x : κ) :
    (d.eraseAll ks).get? x = if x ∈ ks then none else d.get? x := by
  rw [eraseAll, get?_filterKeys]
  by_cases h : x ∈ ks <;> simp [h]

theorem get?_update (d : Dict κ α) (k : κ) (f : Option α → α) (x : κ) :
    (d.update k f).get? x = if x = k then some (f (d.get? k)) else d.get? x :=
  get?_insert ..

/-! ## The look-ups determine the dictionary -/

theorem seek_eq_none_of_precedes {k : κ} {l : List (κ × α)}
    (h : ∀ e ∈ l, Key.precedes k e.1 = true) : seek k l = none := by
  induction l with
  | nil => rfl
  | cons e rest ih =>
    have hne : k ≠ e.1 := by
      intro he
      have := h e (List.mem_cons_self ..)
      rw [← he, Key.irrefl] at this
      exact absurd this (by simp)
    simp only [seek, hne, if_false]
    exact ih (fun x hx => h x (List.mem_cons_of_mem _ hx))

theorem eq_of_seek_eq : ∀ {l l' : List (κ × α)},
    l.Pairwise (fun a b => Key.precedes a.1 b.1 = true) →
    l'.Pairwise (fun a b => Key.precedes a.1 b.1 = true) →
    (∀ k, seek k l = seek k l') → l = l'
  | [], [], _, _, _ => rfl
  | [], e :: _, _, _, h => by simpa [seek] using h e.1
  | e :: _, [], _, _, h => by simpa [seek] using h e.1
  | e :: rest, e' :: rest', hl, hl', h => by
    obtain ⟨he, hr⟩ := List.pairwise_cons.mp hl
    obtain ⟨he', hr'⟩ := List.pairwise_cons.mp hl'
    have key : e.1 = e'.1 := by
      refine Key.connex (Bool.eq_false_iff.mpr fun hp => ?_) (Bool.eq_false_iff.mpr fun hp => ?_)
      · have absent : seek e.1 (e' :: rest') = none := seek_eq_none_of_precedes fun x hx => by
          rcases List.mem_cons.mp hx with rfl | hx
          · exact hp
          · exact Key.trans hp (he' x hx)
        simpa [seek] using (h e.1).trans absent
      · have absent : seek e'.1 (e :: rest) = none := seek_eq_none_of_precedes fun x hx => by
          rcases List.mem_cons.mp hx with rfl | hx
          · exact hp
          · exact Key.trans hp (he x hx)
        simpa [seek] using (h e'.1).symm.trans absent
    have value : e.2 = e'.2 := by
      have := h e.1
      simpa [seek, key] using this
    have tail : rest = rest' := by
      refine eq_of_seek_eq hr hr' fun k => ?_
      by_cases hk : k = e.1
      · have absent : seek k rest = none :=
          seek_eq_none_of_precedes fun x hx => hk ▸ he x hx
        have absent' : seek k rest' = none :=
          seek_eq_none_of_precedes fun x hx => hk.trans key ▸ he' x hx
        rw [absent, absent']
      · have := h k
        have hk' : k ≠ e'.1 := key ▸ hk
        simpa [seek, hk, hk'] using this
    rw [tail, Prod.ext key value]

/-- Two dictionaries that agree at every key are equal. -/
theorem ext_get? {d d' : Dict κ α} (h : ∀ k, d.get? k = d'.get? k) : d = d' :=
  Dict.ext (eq_of_seek_eq d.ordered d'.ordered h)

end Dict

end Outbox
