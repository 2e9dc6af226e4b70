import Mathlib
import Outbox.Dict.Basic

/-!
# Keys and values of dictionaries

What is in a dictionary can be told from its look-ups.

* `Dict.mem_keys`, `Dict.isEmpty_iff`, `Dict.contains_ofList`, `Dict.mem_sorted` — which keys a
  dictionary has;
* `Dict.under`, `Dict.get?_ofList`, `Dict.entries_ofList` — dictionaries made from lists;
* `Dict.mem_values` — which values it has;
* `Dict.weigh`, `Dict.weighAt` — a weight of values, summed over all entries and at one key;
* `Dict.weigh_update`, `Dict.weigh_eraseAll`, `Dict.weigh_erase` — how it goes when entries change;
* `Dict.weigh_eq_sum` — the weight is a sum over the keys;
* `Dict.insert_insert`, `Dict.get?_filter`, `Dict.get?_mapValues` — one change after another.
-/

namespace Outbox.Dict

variable {κ α : Type} [Key κ] [DecidableEq κ] {d : Dict κ α} {k x : κ}

/-! ## Keys -/

omit [Key κ] in
theorem isSome_seek {l : List (κ × α)} : (seek k l).isSome = true ↔ k ∈ l.map Prod.fst := by
  induction l with
  | nil => simp [seek]
  | cons e rest ih =>
    unfold seek
    by_cases hk : k = e.1
    · simp [hk]
    · rw [if_neg hk, ih]
      simp [hk]

/-- The keys are those that have a value. -/
theorem mem_keys : k ∈ d.keys ↔ d.contains k = true := isSome_seek.symm

@[simp] theorem contains_empty (k : κ) : (∅ : Dict κ α).contains k = false := rfl

theorem contains_insert {v : α} :
    (d.insert k v).contains x = true ↔ x = k ∨ d.contains x = true := by
  unfold contains
  rw [get?_insert]
  by_cases hx : x = k
  · simp [hx]
  · simp [hx]

/-- The keys of a list of entries are the keys of the dictionary made from it. -/
theorem contains_ofList {l : List (κ × α)} :
    (ofList l).contains k = true ↔ k ∈ l.map Prod.fst := by
  have hfold : ∀ d : Dict κ α, (l.foldl (fun d e => d.insert e.1 e.2) d).contains k = true ↔
      d.contains k = true ∨ k ∈ l.map Prod.fst := by
    induction l with
    | nil =>
      intro d
      simp
    | cons e rest ih =>
      intro d
      rw [List.foldl_cons, ih, contains_insert, List.map_cons, List.mem_cons]
      tauto
  rw [ofList, hfold]
  simp

/-- Putting keys in order keeps them. -/
theorem mem_sorted {ks : List κ} : k ∈ sorted ks ↔ k ∈ ks := by
  rw [sorted, mem_keys, contains_ofList, List.map_map]
  simp [Function.comp_def]

/-- A dictionary without entries is one that has no key. -/
theorem isEmpty_iff : d.isEmpty = true ↔ ∀ k, d.contains k = false := by
  rw [isEmpty, List.isEmpty_iff, ← List.map_eq_nil_iff (f := Prod.fst),
    List.eq_nil_iff_forall_not_mem]
  exact forall_congr' fun k => by rw [← Bool.not_eq_true, ← mem_keys, keys]

omit [DecidableEq κ] in
/-- The keys are in order. -/
theorem pairwise_keys (d : Dict κ α) :
    d.keys.Pairwise (fun k k' => Key.precedes k k' = true) := by
  rw [keys, List.pairwise_map]
  exact d.ordered

omit [DecidableEq κ] in
/-- Each key is listed once. -/
theorem nodup_keys (d : Dict κ α) : d.keys.Nodup := by
  refine d.pairwise_keys.imp fun {k k'} hprecedes heq => ?_
  rw [heq, Key.irrefl] at hprecedes
  cases hprecedes

/-! ## Changes -/

/-- The later of two values set at a key counts. -/
@[simp] theorem insert_insert (d : Dict κ α) (k : κ) (v v' : α) :
    (d.insert k v).insert k v' = d.insert k v' := by
  refine ext_get? fun x => ?_
  simp only [get?_insert]
  by_cases hx : x = k <;> simp [hx]

/-- To set a value that is there changes nothing. -/
theorem insert_eq_self {v : α} (h : d.get? k = some v) : d.insert k v = d := by
  refine ext_get? fun x => ?_
  rw [get?_insert]
  by_cases hx : x = k
  · rw [if_pos hx, hx, h]
  · rw [if_neg hx]

theorem erase_insert (d : Dict κ α) (k : κ) (v : α) : (d.insert k v).erase k = d.erase k := by
  refine ext_get? fun x => ?_
  simp only [get?_erase, get?_insert]
  by_cases hx : x = k <;> simp [hx]

theorem insert_erase (d : Dict κ α) (k : κ) (v : α) : (d.erase k).insert k v = d.insert k v := by
  refine ext_get? fun x => ?_
  simp only [get?_insert, get?_erase]
  by_cases hx : x = k <;> simp [hx]

theorem eraseAll_eraseAll (d : Dict κ α) (ks ks' : List κ) :
    (d.eraseAll ks).eraseAll ks' = d.eraseAll (ks ++ ks') := by
  refine ext_get? fun x => ?_
  simp only [get?_eraseAll, List.mem_append]
  by_cases hx : x ∈ ks <;> by_cases hx' : x ∈ ks' <;> simp [hx, hx']

/-- A change at a key that is erased does not matter. -/
theorem eraseAll_update_of_mem (d : Dict κ α) {ks : List κ} (hk : k ∈ ks) (f : Option α → α) :
    (d.update k f).eraseAll ks = d.eraseAll ks := by
  refine ext_get? fun x => ?_
  rw [get?_eraseAll, get?_eraseAll]
  by_cases hx : x ∈ ks
  · rw [if_pos hx, if_pos hx]
  · have hne : x ≠ k := fun heq => hx (heq ▸ hk)
    rw [if_neg hx, if_neg hx, get?_update, if_neg hne]

theorem eraseAll_update_of_not_mem (d : Dict κ α) {ks : List κ} (hk : k ∉ ks) (f : Option α → α) :
    (d.update k f).eraseAll ks = (d.eraseAll ks).update k f := by
  refine ext_get? fun x => ?_
  simp only [get?_eraseAll, get?_update]
  by_cases hx : x = k
  · subst hx
    simp [hk]
  · simp [hx]

theorem eraseAll_eq_self {ks : List κ} (h : ∀ k ∈ ks, d.get? k = none) : d.eraseAll ks = d := by
  refine ext_get? fun x => ?_
  rw [get?_eraseAll]
  by_cases hx : x ∈ ks
  · rw [if_pos hx, h x hx]
  · rw [if_neg hx]

theorem erase_eq_self (h : d.get? k = none) : d.erase k = d := by
  refine ext_get? fun x => ?_
  rw [get?_erase]
  by_cases hx : x = k
  · rw [if_pos hx, hx, h]
  · rw [if_neg hx]

omit [DecidableEq κ] in
theorem map_fst_place {l : List (κ × α)} (v : α)
    (h : l.Pairwise (fun a b => Key.precedes a.1 b.1 = true)) (hk : k ∈ l.map Prod.fst) :
    (place k v l).map Prod.fst = l.map Prod.fst := by
  induction l with
  | nil => simp at hk
  | cons e rest ih =>
    obtain ⟨he, hrest⟩ := List.pairwise_cons.mp h
    rw [place]
    by_cases hbefore : Key.precedes k e.1 = true
    · exfalso
      rcases List.mem_cons.mp hk with heq | hmem
      · rw [heq, Key.irrefl] at hbefore
        cases hbefore
      · obtain ⟨x, hx, hxk⟩ := List.mem_map.mp hmem
        have hafter := Key.trans hbefore (he x hx)
        rw [hxk, Key.irrefl] at hafter
        cases hafter
    · rw [if_neg hbefore]
      by_cases hafter : Key.precedes e.1 k = true
      · have hmem : k ∈ rest.map Prod.fst := by
          rcases List.mem_cons.mp hk with heq | hmem
          · rw [heq, Key.irrefl] at hafter
            cases hafter
          · exact hmem
        rw [if_pos hafter, List.map_cons, ih hrest hmem, List.map_cons]
      · have heq : k = e.1 := Key.connex (by simpa using hbefore) (by simpa using hafter)
        rw [if_neg hafter, List.map_cons, List.map_cons, heq]

/-- A new value at a key that is there leaves the keys as they are. -/
theorem keys_insert (v : α) (h : d.contains k = true) : (d.insert k v).keys = d.keys :=
  map_fst_place v d.ordered (mem_keys.mpr h)

/-! ## Lists of entries -/

omit [Key κ] in
/-- What a list of entries has under a key, in order. -/
def under (k : κ) (l : List (κ × α)) : List α :=
  l.filterMap fun e => if e.1 = k then some e.2 else none

omit [Key κ] in
theorem under_cons (k : κ) (e : κ × α) (l : List (κ × α)) :
    under k (e :: l) = if e.1 = k then e.2 :: under k l else under k l := by
  unfold under
  by_cases he : e.1 = k <;> simp [he]

omit [DecidableEq κ] in
theorem ofList_concat (l : List (κ × α)) (e : κ × α) :
    ofList (l ++ [e]) = (ofList l).insert e.1 e.2 := by
  simp [ofList]

/-- Of the values under a key the last one counts. -/
theorem get?_ofList (l : List (κ × α)) (k : κ) : (ofList l).get? k = (under k l).getLast? := by
  induction l using List.reverseRecOn with
  | nil => rfl
  | append_singleton l e ih =>
    rw [ofList_concat, get?_insert, ih, under, under, List.filterMap_append]
    by_cases hk : k = e.1
    · simp [hk]
    · simp [hk, Ne.symm hk]

omit [DecidableEq κ] in
theorem place_of_last {l : List (κ × α)} (v : α) (h : ∀ e ∈ l, Key.precedes e.1 k = true) :
    place k v l = l ++ [(k, v)] := by
  induction l with
  | nil => rfl
  | cons e rest ih =>
    obtain ⟨he, hrest⟩ := List.forall_mem_cons.mp h
    have hafter : ¬ Key.precedes k e.1 = true := fun hbefore => by
      have hself := Key.trans hbefore he
      rw [Key.irrefl] at hself
      cases hself
    rw [place, if_neg hafter, if_pos he, ih hrest, List.cons_append]

omit [DecidableEq κ] in
/-- Entries in order are the entries of their dictionary. -/
theorem entries_ofList {l : List (κ × α)}
    (h : l.Pairwise (fun a b => Key.precedes a.1 b.1 = true)) : (ofList l).entries = l := by
  induction l using List.reverseRecOn with
  | nil => rfl
  | append_singleton l e ih =>
    obtain ⟨hl, -, hlast⟩ := List.pairwise_append.mp h
    rw [ofList_concat]
    show place e.1 e.2 (ofList l).entries = _
    rw [ih hl]
    exact place_of_last e.2 fun x hx => hlast x hx e (List.mem_singleton_self e)

/-! ## Values -/

theorem seek_eq_some_iff {l : List (κ × α)} {v : α}
    (hl : l.Pairwise (fun a b => Key.precedes a.1 b.1 = true)) :
    seek k l = some v ↔ (k, v) ∈ l := by
  induction l with
  | nil => simp [seek]
  | cons e rest ih =>
    obtain ⟨he, hrest⟩ := List.pairwise_cons.mp hl
    unfold seek
    by_cases hk : k = e.1
    · have habsent : (k, v) ∉ rest := fun hmem => by
        have hprecedes := he _ hmem
        rw [hk, Key.irrefl] at hprecedes
        cases hprecedes
      rw [if_pos hk, List.mem_cons, or_iff_left habsent, Prod.ext_iff, Option.some_inj, hk]
      simp [eq_comm]
    · rw [if_neg hk, ih hrest, List.mem_cons, or_iff_right]
      rintro rfl
      exact hk rfl

/-- The values are what is found at keys. -/
theorem mem_values {v : α} : v ∈ d.values ↔ ∃ k, d.get? k = some v := by
  simp only [values, List.mem_map, Prod.exists, exists_eq_right]
  exact exists_congr fun k => (seek_eq_some_iff d.ordered).symm

theorem get?_filter (d : Dict κ α) (keep : κ → α → Bool) (x : κ) :
    (d.filter keep).get? x = (d.get? x).filter (keep x) := by
  refine Option.ext fun v => ?_
  have hmem : (x, v) ∈ (d.filter keep).entries ↔ (x, v) ∈ d.entries ∧ keep x v = true :=
    List.mem_filter
  rw [Option.filter_eq_some_iff, get?, get?, seek_eq_some_iff (d.filter keep).ordered,
    seek_eq_some_iff d.ordered, hmem]

theorem get?_mapValues {β : Type} (d : Dict κ α) (f : κ → α → β) (x : κ) :
    (d.mapValues f).get? x = (d.get? x).map (f x) := by
  unfold get? mapValues
  simp only
  induction d.entries with
  | nil => rfl
  | cons e rest ih =>
    rw [List.map_cons, seek, seek]
    by_cases hx : x = e.1
    · rw [if_pos hx, if_pos hx, hx]
      rfl
    · rw [if_neg hx, if_neg hx, ih]

variable {w : α → Nat}

/-- A weight of values, summed over all entries. -/
def weigh (w : α → Nat) (d : Dict κ α) : Nat := (d.entries.map (fun e => w e.2)).sum

/-- The weight of the value at a key, which is nothing if there is none. -/
def weighAt (w : α → Nat) (d : Dict κ α) (k : κ) : Nat := (d.get? k).elim 0 w

theorem sum_place {l : List (κ × α)} (v : α)
    (h : l.Pairwise (fun a b => Key.precedes a.1 b.1 = true)) :
    ((place k v l).map (fun e => w e.2)).sum + (seek k l).elim 0 w =
      (l.map (fun e => w e.2)).sum + w v := by
  induction l with
  | nil => simp [place, seek]
  | cons e rest ih =>
    obtain ⟨he, hrest⟩ := List.pairwise_cons.mp h
    rw [place]
    split
    · rename_i hk
      have hnone : seek k (e :: rest) = none := by
        refine seek_eq_none_of_precedes fun x hx => ?_
        rcases List.mem_cons.mp hx with rfl | hx
        · exact hk
        · exact Key.trans hk (he x hx)
      rw [hnone, List.map_cons, List.sum_cons, Option.elim_none]
      show w v + _ + 0 = _
      omega
    · rename_i hk
      split
      · rename_i hk'
        have hne : k ≠ e.1 := by
          rintro rfl
          rw [Key.irrefl] at hk'
          cases hk'
        have ih := ih hrest
        rw [seek, if_neg hne, List.map_cons, List.map_cons, List.sum_cons, List.sum_cons]
        omega
      · rename_i hk'
        have heq : k = e.1 := Key.connex (by simpa using hk) (by simpa using hk')
        rw [seek, if_pos heq, List.map_cons, List.map_cons, List.sum_cons, List.sum_cons,
          Option.elim_some]
        show w v + _ + w e.2 = _
        omega

/-- A change at one key changes the weight by what it changes there. -/
theorem weigh_update (d : Dict κ α) (k : κ) (f : Option α → α) :
    (d.update k f).weigh w + d.weighAt w k = d.weigh w + w (f (d.get? k)) :=
  sum_place _ d.ordered

omit [Key κ] in
theorem sum_filter_le (l : List (κ × α)) (p : κ → Bool) (hk : p k = false) :
    ((l.filter (fun e => p e.1)).map (fun e => w e.2)).sum + (seek k l).elim 0 w ≤
      (l.map (fun e => w e.2)).sum := by
  induction l with
  | nil => exact le_rfl
  | cons e rest ih =>
    rw [List.map_cons, List.sum_cons, seek]
    by_cases hke : k = e.1
    · subst hke
      rw [List.filter_cons_of_neg (by simp [hk]), if_pos rfl, Option.elim_some]
      omega
    · rw [if_neg hke]
      by_cases hp : p e.1 = true
      · rw [List.filter_cons_of_pos (by simpa using hp), List.map_cons, List.sum_cons]
        omega
      · rw [List.filter_cons_of_neg (by simpa using hp)]
        omega

/-- Erasing a key takes at least the weight that was there. -/
theorem weigh_eraseAll (d : Dict κ α) {ks : List κ} (hk : k ∈ ks) :
    (d.eraseAll ks).weigh w + d.weighAt w k ≤ d.weigh w :=
  sum_filter_le d.entries (fun k => !ks.contains k) (by simpa using hk)

/-- Erasing keys adds no weight. -/
theorem weigh_eraseAll_le (d : Dict κ α) (ks : List κ) : (d.eraseAll ks).weigh w ≤ d.weigh w :=
  (List.filter_sublist.map _).sum_le_sum fun _ _ => Nat.zero_le _

/-- Erasing a key takes the weight that was there. -/
theorem weigh_erase (d : Dict κ α) (k : κ) : (d.erase k).weigh w + d.weighAt w k = d.weigh w := by
  cases hk : d.get? k with
  | none => rw [erase_eq_self hk, weighAt, hk, Option.elim_none, Nat.add_zero]
  | some v =>
    have hfull := d.weigh_update k (w := w) (fun _ => v)
    have hbare := (d.erase k).weigh_update k (w := w) (fun _ => v)
    have hnone : (d.erase k).weighAt w k = 0 := by
      rw [weighAt, get?_erase, if_pos rfl, Option.elim_none]
    simp only [update, insert_erase] at hfull hbare
    omega

omit [DecidableEq κ] in
/-- Entries without weight can be dropped. -/
theorem weigh_filter (d : Dict κ α) {keep : κ → α → Bool}
    (h : ∀ k v, keep k v = false → w v = 0) : (d.filter keep).weigh w = d.weigh w := by
  unfold weigh filter
  simp only
  induction d.entries with
  | nil => rfl
  | cons e rest ih =>
    by_cases hkeep : keep e.1 e.2 = true
    · rw [List.filter_cons, if_pos hkeep, List.map_cons, List.map_cons, List.sum_cons,
        List.sum_cons, ih]
    · rw [List.filter_cons, if_neg hkeep, List.map_cons, List.sum_cons, ih,
        h e.1 e.2 (by simpa using hkeep), Nat.zero_add]

omit [DecidableEq κ] in
theorem weigh_mapValues (d : Dict κ α) (f : α → α) :
    (d.mapValues fun _ => f).weigh w = d.weigh (w ∘ f) := by
  rw [weigh, mapValues, List.map_map]
  rfl

omit [DecidableEq κ] in
theorem weigh_mono (d : Dict κ α) {w' : α → Nat} (h : ∀ v, w v ≤ w' v) :
    d.weigh w ≤ d.weigh w' :=
  List.sum_le_sum fun e _ => h e.2

omit [DecidableEq κ] in
/-- There is some weight if and only if some value has weight. -/
theorem weigh_pos_iff (d : Dict κ α) : 0 < d.weigh w ↔ ∃ v ∈ d.values, 0 < w v := by
  have hvalues : d.weigh w = (d.values.map w).sum := by
    rw [values, List.map_map]
    rfl
  rw [hvalues, Nat.pos_iff_ne_zero, Ne, List.sum_eq_zero_iff]
  simp [Nat.pos_iff_ne_zero]

/-- The weight is the sum of what is at the keys. -/
theorem weigh_eq_sum (d : Dict κ α) : d.weigh w = ∑ k ∈ d.keys.toFinset, d.weighAt w k := by
  rw [List.sum_toFinset _ d.nodup_keys, weigh, keys, List.map_map]
  refine congrArg List.sum (List.map_congr_left fun e he => ?_)
  have hseek : d.get? e.1 = some e.2 := (seek_eq_some_iff d.ordered).mpr he
  rw [Function.comp_apply, weighAt, hseek, Option.elim_some]

/-- What is at one key is part of the whole. -/
theorem weighAt_le (d : Dict κ α) (k : κ) : d.weighAt w k ≤ d.weigh w :=
  le_trans (Nat.le_add_left _ _) (d.weigh_eraseAll (List.mem_singleton_self k))

end Outbox.Dict
