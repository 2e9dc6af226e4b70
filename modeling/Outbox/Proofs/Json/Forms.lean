import Mathlib
import Outbox.Json.Forms
import Outbox.Proofs.Json.Reader
import Outbox.Proofs.Protocol.RequestId

/-!
# JSON forms

Every value of the protocol is read back from the text that is written for it.  Other texts denote
it too, and which they are is decided by the JSON value that they denote: the value of a kind stands
in one of a few shapes.  So the written text is canonical: it is the same for two texts exactly if
they denote the same value.

* `Coding` — how the values of a kind are written and read;
* `Form.coding`, `Form.Denotes` — the codings of the four kinds, and their shapes;
* `Coding.RoundTrips` — what a coding has to satisfy;
* `Form.round_trips` — the four codings satisfy it.
-/

namespace Outbox

/-! ## Numbers and bytes -/

namespace Json

variable {v : Json} {max n : Nat}

theorem toNat?_eq_some_iff : v.toNat? max = some n ↔ v = integer n ∧ n ≤ max := by
  constructor
  · intro h
    unfold toNat? at h
    split at h
    · rw [Option.ite_none_right_eq_some] at h
      obtain rfl := Option.some.inj h.2
      exact ⟨rfl, h.1⟩
    · cases h
  · rintro ⟨rfl, hn⟩
    exact if_pos hn

theorem toByte?_eq_some_iff {b : UInt8} : v.toByte? = some b ↔ v = integer b.toNat := by
  rw [toByte?, Option.map_eq_some_iff]
  constructor
  · rintro ⟨n, hn, rfl⟩
    obtain ⟨rfl, hmax⟩ := toNat?_eq_some_iff.mp hn
    rw [UInt8.toNat_ofNat', Nat.mod_eq_of_lt (by omega)]
  · rintro rfl
    have hb := b.toNat_lt
    exact ⟨b.toNat, toNat?_eq_some_iff.mpr ⟨rfl, by omega⟩, UInt8.ofNat_toNat⟩

theorem toUInt64?_eq_some_iff {u : UInt64} : v.toUInt64? = some u ↔ v = integer u.toNat := by
  rw [toUInt64?, Option.map_eq_some_iff]
  constructor
  · rintro ⟨n, hn, rfl⟩
    obtain ⟨rfl, hmax⟩ := toNat?_eq_some_iff.mp hn
    have hn : n < 2 ^ 64 := Nat.lt_of_le_sub_one (by decide) hmax
    rw [UInt64.toNat_ofNat', Nat.mod_eq_of_lt hn]
  · rintro rfl
    exact ⟨u.toNat, toNat?_eq_some_iff.mpr ⟨rfl, Nat.le_sub_one_of_lt u.toNat_lt⟩,
      UInt64.ofNat_toNat⟩

theorem toInt64?_eq_some_iff {i : Int64} : v.toInt64? = some i ↔ v = integer i.toInt := by
  constructor
  · intro h
    unfold toInt64? at h
    split at h
    · rw [Option.ite_none_right_eq_some] at h
      obtain rfl := Option.some.inj h.2
      rw [Int64.toInt_maxValue] at h
      rw [Int64.toInt_ofInt_of_le h.1.1 (Int.lt_of_le_sub_one h.1.2)]
    · cases h
  · rintro rfl
    rw [toInt64?, if_pos ⟨i.minValue_le_toInt, i.toInt_le⟩, Int64.ofInt_toInt]

/-- A list of bytes stands in the array of their numbers. -/
theorem mapM_toByte?_eq_some_iff {items : List Json} {bytes : List UInt8} :
    items.mapM toByte? = some bytes ↔ items = bytes.map fun b => integer b.toNat := by
  induction items generalizing bytes with
  | nil => cases bytes <;> simp
  | cons item items ih =>
    simp only [List.mapM_cons, Option.bind_eq_bind, Option.bind_eq_some_iff, Option.pure_def,
      Option.some.injEq]
    constructor
    · rintro ⟨b, hb, rest, hrest, rfl⟩
      rw [toByte?_eq_some_iff.mp hb, ih.mp hrest, List.map_cons]
    · intro h
      obtain ⟨b, rest, rfl, hb, hrest⟩ := List.map_eq_cons_iff.mp h.symm
      exact ⟨b, toByte?_eq_some_iff.mpr hb.symm, rest, ih.mpr hrest.symm, rfl⟩

theorem toOctets?_eq_some_iff {o : Octets n} : v.toOctets? n = some o ↔ v = ofOctets o := by
  constructor
  · intro h
    unfold toOctets? at h
    split at h
    · obtain ⟨bytes, hbytes, h⟩ := Option.bind_eq_some_iff.mp h
      rw [Octets.ofBytes?, Option.dite_none_right_eq_some] at h
      obtain ⟨hlength, h⟩ := h
      rw [← Option.some.inj h, ofOctets, mapM_toByte?_eq_some_iff.mp hbytes]
    · cases h
  · rintro rfl
    rw [ofOctets, toOctets?, mapM_toByte?_eq_some_iff.mpr rfl, Option.bind_some, Octets.ofBytes?,
      dif_pos o.length_eq]

theorem isExact_ofOctets (o : Octets n) : (ofOctets o).IsExact := by
  refine .array fun v hv => ?_
  obtain ⟨b, -, rfl⟩ := List.mem_map.mp hv
  exact .integer _

end Json

/-! ## Shapes -/

theorem Peer.ofJson?_eq_some_iff {v : Json} {p : Peer} : ofJson? v = some p ↔ v = p.toJson := by
  rw [ofJson?, toJson, ← Json.toOctets?_eq_some_iff, Option.map_eq_some_iff]
  exact ⟨fun ⟨_, ho, hp⟩ => hp ▸ ho, fun h => ⟨_, h, rfl⟩⟩

theorem Link.ofJson?_eq_some_iff {v : Json} {l : Link} : ofJson? v = some l ↔ v = l.toJson := by
  rw [ofJson?, toJson, ← Json.toOctets?_eq_some_iff, Option.map_eq_some_iff]
  exact ⟨fun ⟨_, ho, hl⟩ => hl ▸ ho, fun h => ⟨_, h, rfl⟩⟩

namespace RequestId

/-- The value denotes the id: it is a string that spells it. -/
def InShape (r : RequestId) (v : Json) : Prop :=
  ∃ content : String, v = .text (some content) ∧ Spelling r content.toList

theorem ofJson?_eq_some_iff {v : Json} {r : RequestId} : ofJson? v = some r ↔ InShape r v := by
  constructor
  · intro h
    unfold ofJson? at h
    split at h
    · exact ⟨_, rfl, ofText?_eq_some_iff.mp h⟩
    · cases h
  · rintro ⟨content, rfl, h⟩
    exact ofText?_eq_some_iff.mpr h

end RequestId

namespace Status

/-- The value denotes the status: it is the name, alone or as the one field of an object. -/
def InShape (s : Status) (v : Json) : Prop :=
  v = .text (some s.name) ∨ v = .object [(some s.name, .null)]

theorem ofName?_eq_some_iff {name : String} {s : Status} :
    ofName? name = some s ↔ name = s.name := by
  constructor
  · intro h
    simpa [eq_comm] using List.find?_some h
  · rintro rfl
    exact ofName?_name s

theorem ofJson?_eq_some_iff {v : Json} {s : Status} : ofJson? v = some s ↔ InShape s v := by
  constructor
  · intro h
    unfold ofJson? at h
    split at h
    · exact .inl (by rw [ofName?_eq_some_iff.mp h])
    · exact .inr (by rw [ofName?_eq_some_iff.mp h])
    · cases h
  · rintro (rfl | rfl)
    · exact ofName?_name s
    · exact ofName?_name s

end Status

/-! ## Fields -/

section Fields

variable {κ β : Type} [DecidableEq κ] {l written : List (κ × β)} {known : κ → Bool} {e : κ × β}

/-- Entries that a list has just once each under their keys are, in some order, what it has under
these keys. -/
theorem perm_of_filter_eq (hknown : ∀ k, known k = true ↔ k ∈ written.map Prod.fst)
    (hkeys : (written.map Prod.fst).Nodup)
    (h : ∀ e ∈ written, l.filter (fun f => f.1 = e.1) = [e]) :
    (l.filter fun f => known f.1).Perm written := by
  induction written generalizing known with
  | nil =>
    have hnone : l.filter (fun f => known f.1) = [] :=
      List.filter_eq_nil_iff.mpr fun f _ hf => by simpa using (hknown f.1).mp hf
    rw [hnone]
  | cons e written ih =>
    rw [List.map_cons, List.nodup_cons] at hkeys
    have hothers : ∀ k, (!decide (k = e.1) && known k) = true ↔ k ∈ written.map Prod.fst := by
      intro k
      rw [Bool.and_eq_true, hknown, List.map_cons, List.mem_cons, Bool.not_eq_true',
        decide_eq_false_iff_not]
      exact ⟨fun hk => hk.2.resolve_left hk.1, fun hk => ⟨fun he => hkeys.1 (he ▸ hk), .inr hk⟩⟩
    have hrest := ih hothers hkeys.2 fun e he => h e (List.mem_cons_of_mem _ he)
    have hsplit := List.filter_append_perm (fun f : κ × β => decide (f.1 = e.1))
      (l.filter fun f => known f.1)
    rw [List.filter_filter, List.filter_filter] at hsplit
    have hone : l.filter (fun f => decide (f.1 = e.1) && known f.1) = [e] := by
      rw [← h e (List.mem_cons_self ..)]
      refine List.filter_congr fun f _ => ?_
      by_cases hf : f.1 = e.1
      · simp [hf, (hknown e.1).mpr]
      · simp [hf]
    rw [hone] at hsplit
    exact hsplit.symm.trans (hrest.cons e)

theorem filter_eq_singleton (hkeys : (written.map Prod.fst).Nodup) (he : e ∈ written) :
    written.filter (fun f => f.1 = e.1) = [e] := by
  induction written with
  | nil => simp at he
  | cons x written ih =>
    rw [List.map_cons, List.nodup_cons] at hkeys
    rcases List.mem_cons.mp he with rfl | he
    · have hnone : written.filter (fun f => f.1 = e.1) = [] := by
        refine List.filter_eq_nil_iff.mpr fun f hf h => hkeys.1 ?_
        rw [← of_decide_eq_true h]
        exact List.mem_map_of_mem hf
      simp [hnone]
    · have hne : x.1 ≠ e.1 := fun h => hkeys.1 (h ▸ List.mem_map_of_mem he)
      rw [List.filter_cons_of_neg (by simpa using hne), ih hkeys.2 he]

/-- What a list has under some keys, in whatever order, it has under each of them. -/
theorem filter_eq_of_perm (hknown : ∀ k, known k = true ↔ k ∈ written.map Prod.fst)
    (hkeys : (written.map Prod.fst).Nodup) (h : (l.filter fun f => known f.1).Perm written) :
    ∀ e ∈ written, l.filter (fun f => f.1 = e.1) = [e] := by
  intro e he
  have hsame : l.filter (fun f => f.1 = e.1) =
      (l.filter fun f => known f.1).filter (fun f => f.1 = e.1) := by
    rw [List.filter_filter]
    refine List.filter_congr fun f _ => ?_
    by_cases hf : f.1 = e.1
    · simp [hf, (hknown e.1).mpr (List.mem_map_of_mem he)]
    · simp [hf]
  rw [hsame]
  exact List.perm_singleton.mp (filter_eq_singleton hkeys he ▸ h.filter _)

end Fields

namespace BlockRecord

variable {r : BlockRecord} {v link size wireSize index : Json} {name : String}
  {fields : List (Option String × Json)}

/-- The fields with their values, in the order in which they are written. -/
def written (r : BlockRecord) : List (Option String × Json) := [
  (some "link", r.link.toJson),
  (some "block_size", .integer r.size.toNat),
  (some "block_size_on_wire", .integer r.wireSize.toNat),
  (some "index", .integer r.index.toInt)]

/-- The names of the fields. -/
def names : List (Option String) :=
  [some "link", some "block_size", some "block_size_on_wire", some "index"]

/-- The value denotes the record. -/
inductive InShape (r : BlockRecord) : Json → Prop
  /-- It is the array of the four values. -/
  | values : InShape r (.array (r.written.map Prod.snd))
  /-- It is an object with the four fields in some order, and others between them. -/
  | fields {fields : List (Option String × Json)} (hproper : ∀ f ∈ fields, f.1.isSome)
    (hwritten : (fields.filter fun f => f.1 ∈ names).Perm r.written) : InShape r (.object fields)

theorem values_eq_iff : [link, size, wireSize, index] = r.written.map Prod.snd ↔
    link = r.link.toJson ∧ size = .integer r.size.toNat ∧ wireSize = .integer r.wireSize.toNat ∧
      index = .integer r.index.toInt := by
  simp [written]

theorem ofValues?_eq_some_iff : ofValues? link size wireSize index = some r ↔
    [link, size, wireSize, index] = r.written.map Prod.snd := by
  simp only [ofValues?, Option.bind_eq_bind, Option.bind_eq_some_iff, Option.pure_def,
    Option.some.injEq, Link.ofJson?_eq_some_iff, Json.toUInt64?_eq_some_iff,
    Json.toInt64?_eq_some_iff]
  constructor
  · rintro ⟨l, rfl, s, rfl, w, rfl, i, rfl, rfl⟩
    rfl
  · intro h
    obtain ⟨rfl, rfl, rfl, rfl⟩ := values_eq_iff.mp h
    exact ⟨_, rfl, _, rfl, _, rfl, _, rfl, rfl⟩

theorem only?_eq_some_iff :
    only? name fields = some v ↔ fields.filter (fun f => f.1 = some name) = [(some name, v)] := by
  unfold only?
  constructor
  · intro h
    split at h
    · rename_i key value hfilter
      have hmem : (key, value) ∈ fields.filter (fun f => f.1 = some name) := by simp [hfilter]
      have hkey : key = some name := by simpa using List.of_mem_filter hmem
      rw [hfilter, hkey, Option.some.inj h]
    · cases h
  · intro h
    rw [h]

/-- An object has each of the four fields once, with the values of a record, if its fields of these
names are those of the record in some order. -/
theorem filter_eq_iff : (∀ f ∈ r.written, fields.filter (fun g => g.1 = f.1) = [f]) ↔
    (fields.filter fun f => f.1 ∈ names).Perm r.written := by
  have hknown : ∀ name, decide (name ∈ names) = true ↔ name ∈ r.written.map Prod.fst :=
    fun _ => decide_eq_true_iff
  have hkeys : (r.written.map Prod.fst).Nodup := by simp [written]
  exact ⟨perm_of_filter_eq hknown hkeys, filter_eq_of_perm hknown hkeys⟩

theorem isSome_of_mem_written {f : Option String × Json} (hf : f ∈ r.written) : f.1.isSome := by
  simp only [written, List.mem_cons, List.not_mem_nil, or_false] at hf
  rcases hf with rfl | rfl | rfl | rfl <;> rfl

theorem isExact_of_mem_written {f : Option String × Json} (hf : f ∈ r.written) : f.2.IsExact := by
  simp only [written, List.mem_cons, List.not_mem_nil, or_false] at hf
  rcases hf with rfl | rfl | rfl | rfl
  · exact Json.isExact_ofOctets _
  all_goals exact .integer _

theorem toJson_eq_object (r : BlockRecord) : r.toJson = .object r.written := rfl

theorem isExact_toJson (r : BlockRecord) : r.toJson.IsExact := by
  rw [toJson_eq_object]
  exact .object (fun _ => isSome_of_mem_written) fun _ => isExact_of_mem_written

theorem inShape_toJson (r : BlockRecord) : InShape r r.toJson := by
  rw [toJson_eq_object]
  have hnames : r.written.filter (fun f => f.1 ∈ names) = r.written :=
    List.filter_eq_self.mpr fun f hf => decide_eq_true (List.mem_map_of_mem hf : f.1 ∈ names)
  exact .fields (fun _ => isSome_of_mem_written) (hnames ▸ .refl _)

theorem not_any_isNone_iff :
    ¬ fields.any (fun f => f.1.isNone) = true ↔ ∀ f ∈ fields, f.1.isSome := by
  simp only [List.any_eq_true, not_exists, not_and, Option.isNone_iff_eq_none,
    Option.isSome_iff_ne_none, ne_eq]

/-- What is read as a record are the values in one of its shapes. -/
theorem ofJson?_eq_some_iff : ofJson? v = some r ↔ InShape r v := by
  constructor
  · intro h
    unfold ofJson? at h
    split at h
    · rw [ofValues?_eq_some_iff.mp h]
      exact .values
    · rename_i fields
      rw [Option.ite_none_left_eq_some] at h
      obtain ⟨hproper, h⟩ := h
      simp only [Option.bind_eq_bind, Option.bind_eq_some_iff, only?_eq_some_iff] at h
      obtain ⟨l, hl, s, hs, w, hw, i, hi, h⟩ := h
      refine .fields (fun f hf => ?_) (filter_eq_iff.mp fun f hf => ?_)
      · exact not_any_isNone_iff.mp hproper f hf
      · obtain ⟨rfl, rfl, rfl, rfl⟩ := values_eq_iff.mp (ofValues?_eq_some_iff.mp h)
        simp only [written, List.mem_cons, List.not_mem_nil, or_false] at hf
        rcases hf with rfl | rfl | rfl | rfl
        exacts [hl, hs, hw, hi]
    · cases h
  · intro h
    cases h with
    | values => exact ofValues?_eq_some_iff.mpr rfl
    | @fields fields hproper hwritten =>
      have honly {name : String} {v : Json} (h : (some name, v) ∈ r.written) :
          only? name fields = some v := only?_eq_some_iff.mpr (filter_eq_iff.mpr hwritten _ h)
      rw [ofJson?, if_neg (not_any_isNone_iff.mpr hproper),
        honly (v := r.link.toJson) (by simp [written]),
        honly (v := .integer r.size.toNat) (by simp [written]),
        honly (v := .integer r.wireSize.toNat) (by simp [written]),
        honly (v := .integer r.index.toInt) (by simp [written])]
      exact ofValues?_eq_some_iff.mpr rfl

end BlockRecord

/-! ## Codings -/

/-- How the values of a kind are written and read. -/
structure Coding (α : Type) where
  /-- The JSON value that is written for a value. -/
  toJson : α → Json
  /-- The value that a JSON value denotes. -/
  ofJson? : Json → Option α

namespace Coding

variable {α : Type} {c : Coding α} {InShape : α → Json → Prop}

/-- The text that is written for a value. -/
def write (c : Coding α) (a : α) : String := (c.toJson a).compact

/-- The value that a text denotes. -/
def read? (c : Coding α) (source : String) : Option α := (Json.parse? source).bind c.ofJson?

/-- What is written is determined by its text, and what is read are the values in shape, of which
the written one is one. -/
structure Lawful (c : Coding α) (InShape : α → Json → Prop) : Prop where
  isExact : ∀ a, (c.toJson a).IsExact
  inShape : ∀ a, InShape a (c.toJson a)
  ofJson?_eq_some_iff : ∀ a v, c.ofJson? v = some a ↔ InShape a v

/-- Values survive being written and read, in whatever shape they were found. -/
structure RoundTrips (c : Coding α) (InShape : α → Json → Prop) : Prop where
  /-- A value is read back from the text that is written for it. -/
  read?_write : ∀ a, c.read? (c.write a) = some a
  /-- The texts that denote a value are those of the JSON values in one of its shapes. -/
  read?_eq_some_iff : ∀ source a,
    c.read? source = some a ↔ ∃ v, Json.parse? source = some v ∧ InShape a v
  /-- Each shape is read from a text. -/
  read?_compact : ∀ a v, v.IsExact → InShape a v → c.read? v.compact = some a
  /-- What is read from any text survives being written and read again. -/
  reread : ∀ source a, c.read? source = some a → c.read? (c.write a) = some a
  /-- The written text is canonical: two texts have the same one exactly if they denote the same
  value. -/
  write_eq_write_iff : ∀ source source' a a', c.read? source = some a →
    c.read? source' = some a' → (c.write a = c.write a' ↔ a = a')

theorem Lawful.roundTrips (h : c.Lawful InShape) : c.RoundTrips InShape := by
  have hcompact {a : α} {v : Json} (hexact : v.IsExact) (hv : InShape a v) :
      c.read? v.compact = some a := by
    rw [read?, Json.parse?_compact hexact, Option.bind_some]
    exact (h.ofJson?_eq_some_iff a v).mpr hv
  have hwrite (a : α) : c.read? (c.write a) = some a := hcompact (h.isExact a) (h.inShape a)
  refine ⟨hwrite, fun source a => ?_, fun a v => hcompact, fun _ a _ => hwrite a, ?_⟩
  · simp only [read?, Option.bind_eq_some_iff, h.ofJson?_eq_some_iff]
  · refine fun _ _ a a' _ _ => ⟨fun hsame => ?_, fun hsame => hsame ▸ rfl⟩
    have hread := hwrite a
    rw [hsame, hwrite a'] at hread
    exact (Option.some.inj hread).symm

end Coding

/-! ## The four kinds -/

namespace Form

/-- The values of a kind. -/
def Value : Form → Type
  | peer => Peer
  | requestId => RequestId
  | status => Status
  | blockRecord => BlockRecord

/-- How the values of a kind are written and read. -/
def coding : (form : Form) → Coding form.Value
  | peer => ⟨Peer.toJson, Peer.ofJson?⟩
  | requestId => ⟨RequestId.toJson, RequestId.ofJson?⟩
  | status => ⟨Status.toJson, Status.ofJson?⟩
  | blockRecord => ⟨BlockRecord.toJson, BlockRecord.ofJson?⟩

/-- The JSON values that denote a value of a kind: the array of the bytes of a peer, a string that
spells a request id, the name of a status, alone or as a field, and the fields of a record in any
order, or the array of their values. -/
def Denotes : (form : Form) → form.Value → Json → Prop
  | peer => fun (p : Peer) v => v = .array (p.octets.bytes.map fun b => .integer b.toNat)
  | requestId => RequestId.InShape
  | status => Status.InShape
  | blockRecord => BlockRecord.InShape

theorem lawful_peer : (coding peer).Lawful (Denotes peer) where
  isExact p := Json.isExact_ofOctets p.octets
  inShape _ := rfl
  ofJson?_eq_some_iff _ _ := Peer.ofJson?_eq_some_iff

theorem lawful_requestId : (coding requestId).Lawful (Denotes requestId) where
  isExact _ := .text _
  inShape r := ⟨r.text, rfl, RequestId.spelling_text r⟩
  ofJson?_eq_some_iff _ _ := RequestId.ofJson?_eq_some_iff

theorem lawful_status : (coding status).Lawful (Denotes status) where
  isExact _ := .text _
  inShape _ := .inl rfl
  ofJson?_eq_some_iff _ _ := Status.ofJson?_eq_some_iff

theorem lawful_blockRecord : (coding blockRecord).Lawful (Denotes blockRecord) where
  isExact r := BlockRecord.isExact_toJson r
  inShape r := BlockRecord.inShape_toJson r
  ofJson?_eq_some_iff _ _ := BlockRecord.ofJson?_eq_some_iff

theorem lawful (form : Form) : form.coding.Lawful form.Denotes := by
  cases form with
  | peer => exact lawful_peer
  | requestId => exact lawful_requestId
  | status => exact lawful_status
  | blockRecord => exact lawful_blockRecord

/-- Normalising a text is reading it and writing what was read. -/
theorem normalize?_eq (form : Form) (source : String) :
    form.normalize? source = (form.coding.read? source).map form.coding.write := by
  cases form <;> simp only [normalize?, Coding.read?, Option.map_bind, Option.map_map] <;> rfl

/-- **The JSON forms of all four kinds round-trip**, and normalising a text gives the canonical one
of the value that it denotes. -/
theorem round_trips (form : Form) : form.coding.RoundTrips form.Denotes ∧
    ∀ source, form.normalize? source = (form.coding.read? source).map form.coding.write :=
  ⟨form.lawful.roundTrips, form.normalize?_eq⟩

end Form

end Outbox
