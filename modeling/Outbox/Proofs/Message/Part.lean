import Outbox.Proofs.Message.Drawer

/-!
# What a builder holds for one request

A builder files everything but blocks under requests, and no edit looks at what is filed under
another request than its own.  What a builder holds for one request is therefore a small builder of
its own, which a scrub of the request empties and which nothing else fills again.

* `Part`, `Builder.part` — what is filed under one request;
* `Builder.part_apply`, `Builder.part_apply_of_not_for`, `Builder.part_scrub` — edits and scrubs,
  seen from one request;
* `Builder.mem_requests` — the requests that fall with a message are those with a response or a
  stream in it;
* `Builder.contains_statuses` — observers are told a status for every request with a response.
-/

namespace Outbox

/-- What is filed under one request. -/
structure Part where
  /-- What is said about links. -/
  links : Option (List LinkEntry) := none
  /-- The status. -/
  status : Option Status := none
  /-- Further data by name. -/
  extensions : Option (Dict String (List UInt8)) := none
  /-- The block records. -/
  records : Option (List BlockRecord) := none
  /-- The stream. -/
  stream : Option Stream := none
  /-- The sinks of those who watch the request. -/
  notifees : Option (List Sink) := none

namespace Builder

/-- What the builder holds for a request. -/
def part (b : Builder) (r : RequestId) : Part where
  links := b.links.get? r
  status := b.statuses.get? r
  extensions := b.extensions.get? r
  records := b.records.get? r
  stream := b.streams.get? r
  notifees := b.notifees.get? r

variable {b b' : Builder} {r : RequestId}

@[simp] theorem part_new (t : Topic) (r : RequestId) : ({ topic := t } : Builder).part r = {} := rfl

theorem part_eq_iff : b.part r = b'.part r ↔ b.links.get? r = b'.links.get? r ∧
    b.statuses.get? r = b'.statuses.get? r ∧ b.extensions.get? r = b'.extensions.get? r ∧
    b.records.get? r = b'.records.get? r ∧ b.streams.get? r = b'.streams.get? r ∧
    b.notifees.get? r = b'.notifees.get? r := by
  simp only [part, Part.mk.injEq]

/-- A scrub takes all that is filed under its requests and nothing else. -/
theorem part_scrub (b : Builder) (rs : List RequestId) (r : RequestId) :
    (b.scrub rs).part r = if r ∈ rs then {} else b.part r := by
  have hlinks := Drawer.links.get?_scrub b rs r
  have hstatuses := Drawer.statuses.get?_scrub b rs r
  have hextensions := Drawer.extensions.get?_scrub b rs r
  have hrecords := Drawer.records.get?_scrub b rs r
  have hstreams := Drawer.streams.get?_scrub b rs r
  have hnotifees := Drawer.notifees.get?_scrub b rs r
  by_cases hr : r ∈ rs
  · rw [if_pos hr] at *
    have hnew : (b.scrub rs).part r = ({ topic := b.topic } : Builder).part r :=
      part_eq_iff.mpr ⟨hlinks, hstatuses, hextensions, hrecords, hstreams, hnotifees⟩
    exact hnew
  · rw [if_neg hr] at *
    exact part_eq_iff.mpr ⟨hlinks, hstatuses, hextensions, hrecords, hstreams, hnotifees⟩

/-- An edit looks at nothing but what is filed under the request in question. -/
theorem part_apply (h : b.part r = b'.part r) (e : Edit) :
    (b.apply e).part r = (b'.apply e).part r := by
  obtain ⟨hlinks, hstatuses, hextensions, hrecords, hstreams, hnotifees⟩ := part_eq_iff.mp h
  exact part_eq_iff.mpr ⟨Drawer.links.get?_apply_congr hlinks e,
    Drawer.statuses.get?_apply_congr hstatuses e,
    Drawer.extensions.get?_apply_congr hextensions e,
    Drawer.records.get?_apply_congr hrecords e,
    Drawer.streams.get?_apply_congr hstreams e,
    Drawer.notifees.get?_apply_congr hnotifees e⟩

/-- An edit for another request changes nothing that is filed under a request. -/
theorem part_apply_of_not_for (b : Builder) {e : Edit} (he : e.isScrub = false)
    (hr : e.isFor r = false) : (b.apply e).part r = b.part r :=
  part_eq_iff.mpr ⟨Drawer.links.get?_apply_of_not_for b he hr,
    Drawer.statuses.get?_apply_of_not_for b he hr,
    Drawer.extensions.get?_apply_of_not_for b he hr,
    Drawer.records.get?_apply_of_not_for b he hr,
    Drawer.streams.get?_apply_of_not_for b he hr,
    Drawer.notifees.get?_apply_of_not_for b he hr⟩

theorem part_applyAll (h : b.part r = b'.part r) (edits : List Edit) :
    (b.applyAll edits).part r = (b'.applyAll edits).part r := by
  induction edits generalizing b b' with
  | nil => exact h
  | cons e rest ih => exact ih (part_apply h e)

/-! ## The finished message -/

theorem hasResponse_iff : b.hasResponse r = true ↔ b.links.contains r = true ∨
    b.statuses.contains r = true ∨ b.extensions.contains r = true := by
  simp only [hasResponse, Bool.or_eq_true, or_assoc]

theorem mem_responders : r ∈ b.responders ↔ b.hasResponse r = true := by
  rw [responders, Dict.mem_sorted, List.mem_append, List.mem_append, Dict.mem_keys, Dict.mem_keys,
    Dict.mem_keys, hasResponse_iff, or_assoc]

/-- A message answers the requests with a response. -/
theorem requests_of_finish? {d : Finished} (h : b.finish? = some d) :
    d.message.responses.map Response.request = b.responders := by
  obtain ⟨-, rfl⟩ := finish?_eq_some_iff.mp h
  have hrequest : Response.request ∘ b.response = id := rfl
  rw [message, List.map_map, hrequest, List.map_id]

/-- Each answer in a message is what the builder holds for its request. -/
theorem response_of_finish? {d : Finished} (h : b.finish? = some d) {a : Response}
    (ha : a ∈ d.message.responses) : a = b.response a.request := by
  obtain ⟨-, rfl⟩ := finish?_eq_some_iff.mp h
  obtain ⟨r, -, rfl⟩ := List.mem_map.mp ha
  rfl

/-- A message has the streams of its builder. -/
theorem streams_of_finish? {d : Finished} (h : b.finish? = some d) : d.streams = b.streams := by
  obtain ⟨-, rfl⟩ := finish?_eq_some_iff.mp h
  rfl

/-- What observers are told is made from the answers in the message. -/
theorem metadata_of_finish? {d : Finished} (h : b.finish? = some d) :
    d.metadata = ⟨b.records, d.message.statuses⟩ := by
  obtain ⟨-, rfl⟩ := finish?_eq_some_iff.mp h
  rfl

/-- Observers are told a status for exactly the requests with a response. -/
theorem contains_statuses {d : Finished} (h : b.finish? = some d) :
    d.metadata.statuses.contains r = true ↔ b.hasResponse r = true := by
  have hfst : ((fun e : RequestId × Status => e.1) ∘ fun p : Response => (p.request, p.status)) =
      Response.request := rfl
  rw [metadata_of_finish? h, Message.statuses, Dict.contains_ofList, List.map_map, hfst,
    requests_of_finish? h, mem_responders]

/-- The requests that fall with a message are those with a response or a stream in it. -/
theorem mem_requests {d : Finished} (h : b.finish? = some d) :
    r ∈ d.requests ↔ b.hasResponse r = true ∨ b.streams.contains r = true := by
  rw [Finished.requests, Dict.mem_sorted, List.mem_append, Dict.mem_keys, Dict.mem_keys,
    contains_statuses h, streams_of_finish? h]

end Builder

end Outbox
