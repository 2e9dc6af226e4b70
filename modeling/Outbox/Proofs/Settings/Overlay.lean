import Mathlib
import Outbox.Proofs.Queue.Sender
import Outbox.Proofs.Toml.Sheet
import Outbox.Settings.Document

/-!
# Settings from documents

A document gives some of the five values, and the others have their defaults.  What comes of it are
the settings with both, if they make sense together; otherwise the reason why they do not, and the
reason about sending comes first.  A queue takes every settings that come of a document, and asks
for its sender with just these.

* `Settings.Given` — the values that a document gives;
* `Given.settings`, `Settings.Sensible` — the settings with these values, and when settings make
  sense;
* `Given.SaidBy`, `Given.WrittenOn` — a document, and a sheet, that gives just these values;
* `Given.Overlaid` — what has to come of it;
* `Settings.parse_overlays` — it comes of every document and of every sheet.
-/

namespace Outbox

/-! ## Validation -/

theorem SendSettings.validate_eq_ok_iff {s : SendSettings} :
    s.validate = .ok () ↔ 0 < s.retries ∧ 0 < s.timeout.nanos := by
  unfold validate Duration.isZero
  split_ifs with hretries htimeout
  · simp [hretries]
  · simp [of_decide_eq_true htimeout]
  · simp only [decide_eq_true_eq] at htimeout
    exact iff_of_true rfl ⟨Nat.pos_of_ne_zero hretries, Nat.pos_of_ne_zero htimeout⟩

theorem MemoryLimits.validate_eq_ok_iff {l : MemoryLimits} :
    l.validate = .ok () ↔ 0 < l.total ∧ 0 < l.perPeer ∧ l.perPeer ≤ l.total := by
  unfold validate
  split_ifs with hzero hexceeds
  · exact iff_of_false nofun (by omega)
  · exact iff_of_false nofun (by omega)
  · exact iff_of_true rfl (by omega)

namespace Settings

/-- The settings make sense: there is an attempt and time for it, there is memory, and one peer does
not get more of it than all. -/
structure Sensible (s : Settings) : Prop where
  retries : 0 < s.sending.retries
  timeout : 0 < s.sending.timeout.nanos
  total : 0 < s.memory.total
  perPeer : 0 < s.memory.perPeer
  perPeer_le_total : s.memory.perPeer ≤ s.memory.total

theorem validate_of_sending {s : Settings} (h : s.sending.validate = .ok ()) :
    s.validate = s.memory.validate := by
  rw [validate, h]
  rfl

theorem validate_eq_ok_iff {s : Settings} : s.validate = .ok () ↔ s.Sensible := by
  have hparts : s.validate = .ok () ↔ s.sending.validate = .ok () ∧ s.memory.validate = .ok () := by
    unfold validate
    cases s.sending.validate with
    | error e => exact iff_of_false nofun nofun
    | ok u => exact (and_iff_right rfl).symm
  rw [hparts, SendSettings.validate_eq_ok_iff, MemoryLimits.validate_eq_ok_iff]
  exact ⟨fun h => ⟨h.1.1, h.1.2, h.2.1, h.2.2.1, h.2.2.2⟩,
    fun h => ⟨⟨h.retries, h.timeout⟩, h.total, h.perPeer, h.perPeer_le_total⟩⟩

end Settings

/-! ## Queues with given settings -/

namespace Queue

variable {peer : Peer} {settings : SendSettings} {pool : Pool} {start q : Queue}

theorem new?_of_validate (h : settings.validate = .ok ()) (peer : Peer) (pool : Pool) :
    new? peer settings pool = .ok { peer, settings, pool } := by
  rw [new?, h]
  rfl

theorem eq_of_opening_mem_text {use : SenderUse} {peer' : Peer} {settings' : SendSettings}
    (h : .opening peer' settings' ∈ use.text peer settings) :
    peer' = peer ∧ settings' = settings := by
  have hnone : ∀ sent, .opening peer' settings' ∉ SenderUse.deliveries sent := by
    simp [SenderUse.deliveries]
  have hlast : ∀ last, .opening peer' settings' ∉ SenderUse.interruption last := by
    rintro (_ | ⟨m, _ | e⟩) <;> simp [SenderUse.interruption]
  cases use with
  | none => simp [SenderUse.text] at h
  | asked => simpa [SenderUse.text] using h
  | inUse sent current => simpa [SenderUse.text, hnone] using h
  | reset sent last => simpa [SenderUse.text, hnone, hlast] using h

/-- Whatever happens to a queue, a sender is asked for with the settings that the queue was made
with. -/
theorem eq_of_opening_mem_log (h : Reachable { peer, settings, pool } q) {peer' : Peer}
    {settings' : SendSettings} (ha : .opening peer' settings' ∈ q.log) :
    peer' = peer ∧ settings' = settings := by
  have hnew : IsNew { peer, settings, pool } := rfl
  obtain ⟨use, huse⟩ := hnew.using h.path
  have hcall : .opening peer' settings' ∈ q.calls := List.mem_filter.mpr ⟨ha, rfl⟩
  exact eq_of_opening_mem_text (huse.calls ▸ hcall)

end Queue

namespace Settings

/-! ## Given values -/

/-- The values that a document gives; the others are missing.  The number of attempts fits into 32
bits, the other values into those of the integers of a document. -/
structure Given where
  /-- The number of attempts. -/
  retries : Option UInt32 := none
  /-- The milliseconds of one attempt. -/
  timeout : Option (Fin (2 ^ 63)) := none
  /-- The milliseconds between two attempts. -/
  backoff : Option (Fin (2 ^ 63)) := none
  /-- The bytes of all peers together. -/
  total : Option (Fin (2 ^ 63)) := none
  /-- The bytes of one peer. -/
  perPeer : Option (Fin (2 ^ 63)) := none

/-- The keys of a section with their values. -/
abbrev Values := List (String × Option Nat)

namespace Given

/-- The values about sending. -/
def sendingValues (g : Given) : Values := [
  ("max_retries", g.retries.map UInt32.toNat),
  ("send_timeout_ms", g.timeout.map Fin.val),
  ("send_error_backoff_ms", g.backoff.map Fin.val)]

/-- The values about memory. -/
def memoryValues (g : Given) : Values := [
  ("max_total_bytes", g.total.map Fin.val),
  ("max_per_peer_bytes", g.perPeer.map Fin.val)]

/-- The settings with the given values, and with defaults in place of the missing ones. -/
def settings (g : Given) : Settings where
  sending := {
    retries := (g.retries.map UInt32.toNat).getD 10
    timeout := .ofMillis ((g.timeout.map Fin.val).getD 600000)
    backoff := .ofMillis ((g.backoff.map Fin.val).getD 100) }
  memory := {
    total := (g.total.map Fin.val).getD 268435456
    perPeer := (g.perPeer.map Fin.val).getD 16777216 }

/-- What has to come of a document that gives just these values. -/
structure Overlaid (g : Given) (result : Except SettingsError Settings) : Prop where
  /-- Settings come of it exactly if they make sense. -/
  isOk_iff : (∃ s, result = .ok s) ↔ g.settings.Sensible
  /-- They are those with the given values. -/
  eq_settings : ∀ s, result = .ok s → s = g.settings
  /-- Their times are whole milliseconds, as many as are given. -/
  millis : ∀ s, result = .ok s →
    s.sending.timeout.millis = (g.timeout.map Fin.val).getD 600000 ∧
      s.sending.backoff.millis = (g.backoff.map Fin.val).getD 100
  /-- What is wrong about sending is reported first. -/
  sending_error : ∀ e, g.settings.sending.validate = .error e → result = .error e
  /-- What is wrong about memory is reported if nothing is wrong about sending. -/
  memory_error : ∀ e, g.settings.sending.validate = .ok () →
    g.settings.memory.validate = .error e → result = .error e
  /-- A queue can be made with them for every peer and pool, and whatever happens to the queue, it
  asks for a sender with just these. -/
  accepted : ∀ s, result = .ok s → ∀ peer pool, ∃ q, Queue.new? peer s.sending pool = .ok q ∧
    ∀ q', Queue.Reachable q q' → ∀ peer' settings', .opening peer' settings' ∈ q'.log →
      peer' = peer ∧ settings' = s.sending

theorem overlaid (g : Given) : g.Overlaid (g.settings.validate.map fun _ => g.settings) := by
  have hok {s : Settings} (h : (g.settings.validate.map fun _ => g.settings) = .ok s) :
      g.settings.validate = .ok () ∧ s = g.settings := by
    cases hv : g.settings.validate with
    | error e => rw [hv] at h; cases h
    | ok u => rw [hv] at h; cases h; exact ⟨rfl, rfl⟩
  refine ⟨⟨fun ⟨s, h⟩ => validate_eq_ok_iff.mp (hok h).1, fun h => ⟨g.settings, ?_⟩⟩,
    fun s h => (hok h).2, fun s h => ?_, fun e he => ?_, fun e hsending he => ?_,
    fun s h peer pool => ?_⟩
  · rw [validate_eq_ok_iff.mpr h]
    rfl
  · rw [(hok h).2]
    exact ⟨Duration.millis_ofMillis _, Duration.millis_ofMillis _⟩
  · rw [validate, he]
    rfl
  · rw [validate_of_sending hsending, he]
    rfl
  · obtain ⟨hvalid, rfl⟩ := hok h
    have hsensible := validate_eq_ok_iff.mp hvalid
    have hsending := SendSettings.validate_eq_ok_iff.mpr ⟨hsensible.retries, hsensible.timeout⟩
    exact ⟨_, Queue.new?_of_validate hsending peer pool,
      fun q' hq' _ _ ha => Queue.eq_of_opening_mem_log hq' ha⟩

/-! ## Documents -/

variable {g : Given} {table keys : Toml.Fields} {values : Values} {key name : String} {max : Nat}

/-- A section of a document has just these values under their keys; other keys do not matter.  If it
is missing, all the values are. -/
def Says (table : Toml.Fields) (name : String) (values : Values) : Prop :=
  (table.lookup name = none ∧ ∀ v ∈ values, v.2 = none) ∨
    ∃ origin keys, table.lookup name = some (.table origin keys) ∧
      ∀ v ∈ values, keys.lookup v.1 = v.2.map fun n => .integer n

/-- A document gives just these values. -/
structure SaidBy (g : Given) (table : Toml.Fields) : Prop where
  sending : Says table "message_queue" g.sendingValues
  memory : Says table "allocator" g.memoryValues

theorem natAt?_of_lookup {value : Option Nat} (h : keys.lookup key = value.map fun n => .integer n)
    (hmax : ∀ n ∈ value, n ≤ max) : Toml.natAt? keys key max = some value := by
  rw [Toml.natAt?, h]
  cases value with
  | none => rfl
  | some n => exact congrArg (Option.map some) (if_pos (hmax n rfl))

theorem le_of_mem_map_val {value : Option (Fin (2 ^ 63))} {n : Nat} (h : n ∈ value.map Fin.val) :
    n ≤ UInt64.size - 1 := by
  obtain ⟨word, -, rfl⟩ := Option.map_eq_some_iff.mp h
  have hword := word.isLt
  have hsize : UInt64.size = 2 ^ 64 := rfl
  omega

theorem overlay_sending (g : Given) : SendSettings.overlay {} (g.retries.map UInt32.toNat)
    (g.timeout.map Fin.val) (g.backoff.map Fin.val) = g.settings.sending := by
  obtain ⟨retries, timeout, backoff, -, -⟩ := g
  cases timeout <;> cases backoff <;> rfl

theorem sectionAt?_sending (h : Says table "message_queue" g.sendingValues) :
    sectionAt? table "message_queue" SendSettings.ofToml? {} = some g.settings.sending := by
  rcases h with ⟨hlookup, hnone⟩ | ⟨origin, keys, hlookup, hkeys⟩
  · simp only [sendingValues, List.forall_mem_cons] at hnone
    rw [sectionAt?, hlookup]
    simp only [settings, hnone.1, hnone.2.1, hnone.2.2.1, Option.getD_none]
  · simp only [sendingValues, List.forall_mem_cons] at hkeys
    have hmax : ∀ n ∈ g.retries.map UInt32.toNat, n ≤ SendSettings.maxRetries := by
      intro n hn
      obtain ⟨word, -, rfl⟩ := Option.map_eq_some_iff.mp hn
      exact Nat.le_sub_one_of_lt word.toNat_lt
    have hretries := natAt?_of_lookup hkeys.1 hmax
    have htimeout := natAt?_of_lookup hkeys.2.1 fun _ => le_of_mem_map_val
    have hbackoff := natAt?_of_lookup hkeys.2.2.1 fun _ => le_of_mem_map_val
    rw [sectionAt?, hlookup]
    show SendSettings.ofFields? keys = _
    rw [SendSettings.ofFields?, hretries, Option.bind_eq_bind, Option.bind_some,
      SendSettings.maxMillis, htimeout, Option.bind_some, hbackoff, Option.bind_some]
    exact congrArg some (overlay_sending g)

theorem sectionAt?_memory (h : Says table "allocator" g.memoryValues) :
    sectionAt? table "allocator" MemoryLimits.ofToml? {} = some g.settings.memory := by
  rcases h with ⟨hlookup, hnone⟩ | ⟨origin, keys, hlookup, hkeys⟩
  · simp only [memoryValues, List.forall_mem_cons] at hnone
    rw [sectionAt?, hlookup]
    simp only [settings, hnone.1, hnone.2.1, Option.getD_none]
  · simp only [memoryValues, List.forall_mem_cons] at hkeys
    have htotal := natAt?_of_lookup hkeys.1 fun _ => le_of_mem_map_val
    have hperPeer := natAt?_of_lookup hkeys.2.1 fun _ => le_of_mem_map_val
    rw [sectionAt?, hlookup]
    show MemoryLimits.ofFields? keys = _
    rw [MemoryLimits.ofFields?, MemoryLimits.maxBytes, htotal, Option.bind_eq_bind,
      Option.bind_some, hperPeer, Option.bind_some]
    rfl

theorem SaidBy.parse_eq {source : String} (h : g.SaidBy table)
    (hparse : Toml.parse? source = some table) :
    parse source = g.settings.validate.map fun _ => g.settings := by
  have hread : ofFields? table = some g.settings := by
    rw [ofFields?, sectionAt?_sending h.sending, sectionAt?_memory h.memory]
    rfl
  rw [parse, hparse, Option.bind_some, hread]
  cases hv : g.settings.validate with
  | error e => simp only [hv]; rfl
  | ok u => simp only [hv]; rfl

/-! ## Sheets -/

/-- The values that are not missing. -/
def present (values : Values) : Toml.Fields :=
  values.filterMap fun v => v.2.map fun n => (v.1, .integer n)

/-- The entries of a section are those of the values, in any order and with entries of other keys
between them. -/
def Writes (keys : Toml.Fields) (values : Values) : Prop :=
  ∃ others, keys.Perm (present values ++ others) ∧ ∀ e ∈ others, e.1 ∉ values.map Prod.fst

/-- The section stands somewhere on the sheet and has the entries of the values.  It may be left out
if there are none. -/
def WrittenIn (sheet : Toml.Sheet) (name : String) (values : Values) : Prop :=
  (name ∉ sheet.table.map Prod.fst ∧ ∀ v ∈ values, v.2 = none) ∨
    ∃ s ∈ sheet.sections, s.name = name ∧ Writes (s.entries.map Toml.Entry.field) values

/-- A sheet gives just these values. -/
structure WrittenOn (g : Given) (sheet : Toml.Sheet) : Prop where
  sending : WrittenIn sheet "message_queue" g.sendingValues
  memory : WrittenIn sheet "allocator" g.memoryValues

theorem lookup_of_writes (hkeys : (keys.map Prod.fst).Nodup) (hvalues : (values.map Prod.fst).Nodup)
    (h : Writes keys values) : ∀ v ∈ values, keys.lookup v.1 = v.2.map fun n => .integer n := by
  obtain ⟨others, hperm, hothers⟩ := h
  intro v hv
  cases hvalue : v.2 with
  | some n =>
    have hpresent : (v.1, .integer n) ∈ present values :=
      List.mem_filterMap.mpr ⟨v, hv, by rw [hvalue]; rfl⟩
    exact Toml.lookup_of_mem hkeys (hperm.mem_iff.mpr (List.mem_append_left _ hpresent))
  | none =>
    -- the key stands neither among the values that are present nor among the others
    refine Toml.lookup_of_not_mem fun hmem => ?_
    obtain ⟨e, he, hname⟩ := List.mem_map.mp hmem
    rcases List.mem_append.mp (hperm.mem_iff.mp he) with hpresent | hother
    · obtain ⟨v', hv', hentry⟩ := List.mem_filterMap.mp hpresent
      obtain ⟨n, hn, rfl⟩ := Option.map_eq_some_iff.mp hentry
      obtain rfl := List.inj_on_of_nodup_map hvalues hv' hv hname
      rw [hvalue] at hn
      cases hn
    · exact hothers e hother (hname ▸ List.mem_map_of_mem hv)

theorem WrittenIn.says {sheet : Toml.Sheet} (h : WrittenIn sheet name values)
    (hvalues : (values.map Prod.fst).Nodup) : Says sheet.table name values := by
  rcases h with ⟨hname, hnone⟩ | ⟨s, hs, rfl, hwrites⟩
  · exact .inl ⟨Toml.lookup_of_not_mem hname, hnone⟩
  · have htable : s.field ∈ sheet.table := List.mem_append_right _ (List.mem_map_of_mem hs)
    have hkeys : ((s.entries.map Toml.Entry.field).map Prod.fst).Nodup :=
      Toml.Entry.map_field_fst s.entries ▸ s.nodup
    exact .inr ⟨.header, _, Toml.lookup_of_mem (sheet.map_table_fst ▸ sheet.nodup) htable,
      lookup_of_writes hkeys hvalues hwrites⟩

theorem WrittenOn.saidBy {sheet : Toml.Sheet} (h : g.WrittenOn sheet) : g.SaidBy sheet.table where
  sending := h.sending.says (by simp [sendingValues])
  memory := h.memory.says (by simp [memoryValues])

/-- The plain entries of the values about sending. -/
def sendingEntries (g : Given) : List Toml.Entry :=
  (g.retries.map fun n => .number "max_retries" n.toNat (by decide)
    (n.toNat_lt.trans (by decide))).toList ++
  (g.timeout.map fun n => .number "send_timeout_ms" n.val (by decide) n.isLt).toList ++
  (g.backoff.map fun n => .number "send_error_backoff_ms" n.val (by decide) n.isLt).toList

/-- The plain entries of the values about memory. -/
def memoryEntries (g : Given) : List Toml.Entry :=
  (g.total.map fun n => .number "max_total_bytes" n.val (by decide) n.isLt).toList ++
  (g.perPeer.map fun n => .number "max_per_peer_bytes" n.val (by decide) n.isLt).toList

theorem nodup_sendingEntries (g : Given) : (g.sendingEntries.map Toml.Entry.name).Nodup := by
  obtain ⟨retries, timeout, backoff, -, -⟩ := g
  cases retries <;> cases timeout <;> cases backoff <;>
    simp [sendingEntries, Toml.Entry.number]

theorem nodup_memoryEntries (g : Given) : (g.memoryEntries.map Toml.Entry.name).Nodup := by
  obtain ⟨-, -, -, total, perPeer⟩ := g
  cases total <;> cases perPeer <;> simp [memoryEntries, Toml.Entry.number]

/-- The plain sheet of the values. -/
def sheet (g : Given) : Toml.Sheet where
  sections := [
    .plain "message_queue" g.sendingEntries g.nodup_sendingEntries (by decide),
    .plain "allocator" g.memoryEntries g.nodup_memoryEntries (by decide)]
  nodup := by simp [Toml.Section.plain]

theorem map_field_sendingEntries (g : Given) :
    g.sendingEntries.map Toml.Entry.field = present g.sendingValues := by
  obtain ⟨retries, timeout, backoff, -, -⟩ := g
  cases retries <;> cases timeout <;> cases backoff <;> rfl

theorem map_field_memoryEntries (g : Given) :
    g.memoryEntries.map Toml.Entry.field = present g.memoryValues := by
  obtain ⟨-, -, -, total, perPeer⟩ := g
  cases total <;> cases perPeer <;> rfl

theorem writes_of_eq (h : keys = present values) : Writes keys values :=
  ⟨[], by rw [h, List.append_nil], by simp⟩

theorem writtenOn_sheet (g : Given) : g.WrittenOn g.sheet where
  sending := .inr ⟨_, List.mem_cons_self .., rfl, writes_of_eq g.map_field_sendingEntries⟩
  memory := .inr ⟨_, List.mem_cons_of_mem _ (List.mem_cons_self ..), rfl,
    writes_of_eq g.map_field_memoryEntries⟩

end Given

/-- **Documents give settings.**  Whatever values a document gives, in whatever way it is written,
the settings with these values and the defaults of the others come of it, if they make sense
together.  A sheet on which the values stand among others, in any order, is such a document, and
there is a plain one for all values. -/
theorem parse_overlays (g : Given) :
    (∀ source table, Toml.parse? source = some table → g.SaidBy table →
      g.Overlaid (parse source)) ∧
      (∀ sheet : Toml.Sheet, g.WrittenOn sheet → g.Overlaid (parse sheet.text)) ∧
      g.WrittenOn g.sheet := by
  have hdocument : ∀ source table, Toml.parse? source = some table → g.SaidBy table →
      g.Overlaid (parse source) := by
    intro source table hparse hsaid
    rw [hsaid.parse_eq hparse]
    exact g.overlaid
  exact ⟨hdocument, fun sheet h => hdocument _ _ sheet.parse?_text h.saidBy, g.writtenOn_sheet⟩

/-- The sections stand in the other order, and other keys stand among the values, before the first
section and in a section of their own. -/
theorem parse_overlays_of_mixed_sheet :
    let g : Given := { timeout := some 5000, total := some 1024, perPeer := some 512 }
    let page : Toml.Entry := {
      name := "page"
      value := .integer 4096
      chars := "# in bytes\n\t\"page\" = 0x1_000 # hexadecimal\r\n".toList
      spells := fun _ => rfl }
    let sheet : Toml.Sheet := {
      entries := [.number "version" 2 (by decide) (by decide)]
      sections := [
        .plain "allocator" [.number "max_per_peer_bytes" 512 (by decide) (by decide), page,
          .number "max_total_bytes" 1024 (by decide) (by decide)] (by decide) (by decide),
        .plain "colours" [] (by decide) (by decide),
        .plain "message_queue" [.number "send_timeout_ms" 5000 (by decide) (by decide)]
          (by decide) (by decide)]
      nodup := by decide }
    g.WrittenOn sheet ∧ (∃ table, Toml.parse? sheet.text = some table ∧ g.SaidBy table) ∧
      parse sheet.text = .ok {
        sending := { timeout := .ofMillis 5000 }
        memory := { total := 1024, perPeer := 512 } } := by
  intro g page sheet
  have hwritten : g.WrittenOn sheet := by
    refine ⟨.inr ⟨sheet.sections[2], List.getElem_mem _, rfl, [], .refl _, by simp⟩,
      .inr ⟨sheet.sections[0], List.getElem_mem _, rfl, [page.field], ?_, by decide⟩⟩
    exact @List.perm_append_comm _ [("max_per_peer_bytes", .integer 512), page.field]
      [("max_total_bytes", .integer 1024)]
  have hsensible : g.settings.Sensible := by constructor <;> decide
  obtain ⟨hdocument, hsheet, -⟩ := parse_overlays g
  obtain ⟨s, hs⟩ := (hdocument _ _ sheet.parse?_text hwritten.saidBy).isOk_iff.mpr hsensible
  have hsettings : s = g.settings := (hsheet sheet hwritten).eq_settings s hs
  exact ⟨hwritten, ⟨_, sheet.parse?_text, hwritten.saidBy⟩, hs.trans (congrArg _ hsettings)⟩

example : (Given.sheet { retries := some 3, total := some 1024 }).text =
    "[message_queue]\nmax_retries = 3\n[allocator]\nmax_total_bytes = 1024\n" := by decide

-- a total that would do by itself does not do beside the default of one peer
example : parse "[allocator]\nmax_total_bytes = 1024\n" =
    .error (.limit "max_per_peer_bytes (16777216) exceeds max_total_bytes (1024)") := by decide

end Settings

end Outbox
