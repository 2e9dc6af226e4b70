import Outbox.Proofs.Message.Shelf
import Outbox.Proofs.Message.Watchers

/-!
# What edits tell a builder

As long as nothing is scrubbed, a builder is what its edits say: in its drawers is what they file
there, and under each link stands the first block that they add.

* `told`, `Drawer.get?_applyAll` — what edits file under a request, and what is in a drawer then;
* `firstUnderLinks`, `Builder.blocks_applyAll` — the blocks after edits;
* `Builder.isEmpty_applyAll` — whether there is anything in the builder;
* `Builder.Holds`, `Builder.holds_applyAll` — the builder in the words of its edits;
* `Finished.Faithful`, `Builder.Holds.faithful` — the finished message in the words of the edits.
-/

namespace Outbox

variable {α β : Type} {e : Edit} {edits : List Edit} {r : RequestId}

/-! ## What an edit adds -/

namespace Edit

/-- The block that the edit adds. -/
def block? : Edit → Option Block
  | addBlock block => some block
  | _ => none

/-- The edit adds something that a message is made of. -/
def isContent : Edit → Bool
  | addBlock _ => true
  | addLink .. => true
  | setStatus .. => true
  | setExtension .. => true
  | _ => false

end Edit

/-- What edits file under a request, in order. -/
def told (filed? : Edit → Option (RequestId × α)) (r : RequestId) (edits : List Edit) : List α :=
  Dict.under r (edits.filterMap filed?)

theorem told_cons (filed? : Edit → Option (RequestId × α)) (r : RequestId) (e : Edit)
    (rest : List Edit) : told filed? r (e :: rest) =
      ((filed? e).filter (fun x => x.1 = r)).elim (told filed? r rest) fun x =>
        x.2 :: told filed? r rest := by
  unfold told
  cases hx : filed? e with
  | none =>
    rw [List.filterMap_cons_none hx]
    rfl
  | some x =>
    rw [List.filterMap_cons_some hx, Dict.under_cons, Option.filter_some]
    by_cases hr : x.1 = r <;> simp [hr]

/-- A list that is there unless it is empty. -/
def listed (l : List α) : Option (List α) := if l.isEmpty then none else some l

@[simp] theorem getD_listed (l : List α) : (listed l).getD [] = l := by
  cases l <;> rfl

theorem getD_map_listed (l : List (String × α)) :
    ((listed l).map Dict.ofList).getD ∅ = Dict.ofList l := by
  cases l <;> rfl

theorem isSome_listed {l : List α} : (listed l).isSome = true ↔ l ≠ [] := by
  cases l <;> simp [listed]

/-! ## Drawers -/

namespace Drawer

variable (d : Drawer α β)

/-- What edits file under a request is merged one by one with what is there. -/
theorem get?_applyAll (b : Builder) (h : ∀ e ∈ edits, e.isScrub = false) (r : RequestId) :
    (d.dict (b.applyAll edits)).get? r =
      (told d.filed? r edits).foldl (fun old x => some (d.merge old x)) ((d.dict b).get? r) := by
  induction edits generalizing b with
  | nil => rfl
  | cons e rest ih =>
    obtain ⟨he, hrest⟩ := List.forall_mem_cons.mp h
    rw [Builder.applyAll_cons, ih _ hrest, d.get?_apply b he, told_cons]
    cases (d.filed? e).filter (fun x => x.1 = r) <;> rfl

theorem get?_applyAll_new (t : Topic) (h : ∀ e ∈ edits, e.isScrub = false) (r : RequestId) :
    (d.dict (({ topic := t } : Builder).applyAll edits)).get? r =
      (told d.filed? r edits).foldl (fun old x => some (d.merge old x)) none := by
  rw [d.get?_applyAll _ h, d.dict_new, Dict.get?_empty]

theorem foldl_append (l : List α) :
    l.foldl (fun old x => some (append old x)) none = listed l := by
  induction l using List.reverseRecOn with
  | nil => rfl
  | append_singleton l x ih =>
    rw [List.foldl_concat, ih, append, getD_listed, listed, if_neg (by simp)]

theorem foldl_replace (l : List α) :
    l.foldl (fun old x => some (replace old x)) none = l.getLast? := by
  induction l using List.reverseRecOn with
  | nil => rfl
  | append_singleton l x ih => rw [List.foldl_concat, List.getLast?_concat, replace]

theorem foldl_rename (l : List (String × α)) :
    l.foldl (fun old x => some (rename old x)) none = (listed l).map Dict.ofList := by
  induction l using List.reverseRecOn with
  | nil => rfl
  | append_singleton l x ih =>
    have hmore : listed (l ++ [x]) = some (l ++ [x]) := if_neg (by simp)
    rw [List.foldl_concat, ih, rename, getD_map_listed, hmore, Option.map_some, Dict.ofList_concat]

end Drawer

/-! ## Blocks -/

/-- The first block under each link, in the order in which the links first come. -/
def firstUnderLinks (blocks : List Block) : List Block :=
  blocks.eraseDupsBy fun block block' => block.link = block'.link

namespace Builder

variable {b : Builder}

theorem blocks_apply (b : Builder) (he : e.isScrub = false) :
    (b.apply e).blocks = e.block?.elim b.blocks fun block => store block b.blocks := by
  cases e with
  | scrub rs => cases he
  | _ => rfl

theorem size_apply (b : Builder) (he : e.isScrub = false) :
    (b.apply e).size = b.size + e.block?.elim 0 Block.size := by
  cases e with
  | scrub rs => cases he
  | _ => rfl

/-- Blocks come after those that are there, and only the first one under a link does. -/
theorem blocks_applyAll (b : Builder) (h : ∀ e ∈ edits, e.isScrub = false) :
    (b.applyAll edits).blocks.map StoredBlock.block = b.blocks.map StoredBlock.block ++
      firstUnderLinks ((edits.filterMap Edit.block?).filter
        (fun block => block.link ∉ blockLinks b.blocks)) := by
  induction edits generalizing b with
  | nil => exact (List.append_nil _).symm
  | cons e rest ih =>
    obtain ⟨he, hrest⟩ := List.forall_mem_cons.mp h
    rw [applyAll_cons, ih _ hrest, b.blocks_apply he]
    cases hblock : e.block? with
    | none => rw [List.filterMap_cons_none hblock, Option.elim_none]
    | some block =>
      rw [List.filterMap_cons_some hblock, Option.elim_some, map_block_store, blockLinks_store]
      by_cases hlink : block.link ∈ blockLinks b.blocks
      · rw [if_pos hlink, if_pos hlink, List.filter_cons_of_neg (by simpa using hlink)]
      · -- the block comes first among the new ones, and takes later ones under its link away
        rw [if_neg hlink, if_neg hlink, List.filter_cons_of_pos (by simpa using hlink),
          firstUnderLinks, firstUnderLinks, List.eraseDupsBy_cons, List.filter_filter,
          List.append_assoc, List.singleton_append]
        congr 3
        refine List.filter_congr fun block' _ => ?_
        simp [and_comm]

/-- The blocks that are added count towards the size, each time. -/
theorem size_applyAll (b : Builder) (h : ∀ e ∈ edits, e.isScrub = false) :
    (b.applyAll edits).size = b.size + ((edits.filterMap Edit.block?).map Block.size).sum := by
  induction edits generalizing b with
  | nil => rfl
  | cons e rest ih =>
    obtain ⟨he, hrest⟩ := List.forall_mem_cons.mp h
    rw [applyAll_cons, ih _ hrest, b.size_apply he]
    cases hblock : e.block? with
    | none => rw [List.filterMap_cons_none hblock, Option.elim_none, Nat.add_zero]
    | some block =>
      rw [List.filterMap_cons_some hblock, Option.elim_some, List.map_cons, List.sum_cons,
        Nat.add_assoc]

/-! ## Anything at all -/

/-- A builder is empty after an edit that scrubs nothing if it was and no content was added. -/
theorem isEmpty_apply (b : Builder) (he : e.isScrub = false) :
    (b.apply e).isEmpty = (b.isEmpty && !e.isContent) := by
  cases e with
  | addBlock block =>
    have hblocks : (store block b.blocks).isEmpty = false := by
      simpa using store_ne_nil block b.blocks
    simp [isEmpty, apply, addBlock, Edit.isContent, hblocks]
  | addLink r link action =>
    simp [isEmpty, apply, addLink, Edit.isContent, Dict.update, isEmpty_insert]
  | setStatus r status => simp [isEmpty, apply, setStatus, Edit.isContent, isEmpty_insert]
  | setExtension r name data =>
    simp [isEmpty, apply, setExtension, Edit.isContent, Dict.update, isEmpty_insert]
  | scrub rs => cases he
  | _ => exact (Bool.and_true _).symm

/-- Without a scrub a builder is empty if no content was added. -/
theorem isEmpty_applyAll (b : Builder) (h : ∀ e ∈ edits, e.isScrub = false) :
    (b.applyAll edits).isEmpty = true ↔
      b.isEmpty = true ∧ ∀ e ∈ edits, e.isContent = false := by
  induction edits generalizing b with
  | nil => simp [applyAll]
  | cons e rest ih =>
    obtain ⟨he, hrest⟩ := List.forall_mem_cons.mp h
    rw [applyAll_cons, ih _ hrest, b.isEmpty_apply he, Bool.and_eq_true, Bool.not_eq_true',
      List.forall_mem_cons, and_assoc]

/-- There is nothing in the message of an empty builder, and something in any other. -/
theorem isEmpty_message (b : Builder) : b.message.isEmpty = b.isEmpty := by
  rw [Bool.eq_iff_iff, isEmpty_iff_hasResponse, Message.isEmpty, message, Bool.and_eq_true,
    List.isEmpty_iff, List.isEmpty_iff, List.map_eq_nil_iff, List.map_eq_nil_iff, and_comm,
    List.eq_nil_iff_forall_not_mem (l := b.responders)]
  simp only [mem_responders, Bool.not_eq_true]

/-! ## The whole builder -/

/-- The builder is what the edits say, all of them and in their order. -/
structure Holds (t : Topic) (edits : List Edit) (b : Builder) : Prop where
  /-- The topic is the one it was opened with. -/
  topic : b.topic = t
  /-- It has the first block under each link. -/
  blocks : b.blocks.map StoredBlock.block = firstUnderLinks (edits.filterMap Edit.block?)
  /-- The size is that of all blocks that were added. -/
  size : b.size = ((edits.filterMap Edit.block?).map Block.size).sum
  /-- Everything that is said about links is there in its order. -/
  links : ∀ r, b.links.get? r = listed (told Edit.link? r edits)
  /-- The last status counts. -/
  statuses : ∀ r, b.statuses.get? r = (told Edit.status? r edits).getLast?
  /-- The last data counts for each name. -/
  extensions : ∀ r, b.extensions.get? r = (listed (told Edit.extension? r edits)).map Dict.ofList
  /-- All block records are there in their order. -/
  records : ∀ r, b.records.get? r = listed (told Edit.record? r edits)
  /-- The last stream counts. -/
  streams : ∀ r, b.streams.get? r = (told Edit.stream? r edits).getLast?
  /-- All sinks are there in their order. -/
  notifees : ∀ r, b.notifees.get? r = listed (told Edit.notifee? r edits)
  /-- A sink is there as often as it was added. -/
  copies : ∀ s, b.copies s = attached s edits

/-- A new builder is what is said to it, unless something is scrubbed. -/
theorem holds_applyAll (t : Topic) (h : ∀ e ∈ edits, e.isScrub = false) :
    (({ topic := t } : Builder).applyAll edits).Holds t edits where
  topic := by rw [applyAll_topic]
  blocks := by
    rw [blocks_applyAll _ h]
    simp [blockLinks]
  size := by rw [size_applyAll _ h, Nat.zero_add]
  links r := (Drawer.links.get?_applyAll_new t h r).trans (Drawer.foldl_append _)
  statuses r := (Drawer.statuses.get?_applyAll_new t h r).trans (Drawer.foldl_replace _)
  extensions r := (Drawer.extensions.get?_applyAll_new t h r).trans (Drawer.foldl_rename _)
  records r := (Drawer.records.get?_applyAll_new t h r).trans (Drawer.foldl_append _)
  streams r := (Drawer.streams.get?_applyAll_new t h r).trans (Drawer.foldl_replace _)
  notifees r := (Drawer.notifees.get?_applyAll_new t h r).trans (Drawer.foldl_append _)
  copies s := by rw [copies_applyAll _ h, copies_new, Nat.zero_add]

/-- There is a response to a request that has a link, a status or further data. -/
theorem Holds.hasResponse_iff {t : Topic} (h : b.Holds t edits) : b.hasResponse r = true ↔
    told Edit.link? r edits ≠ [] ∨ told Edit.status? r edits ≠ [] ∨
      told Edit.extension? r edits ≠ [] := by
  rw [Builder.hasResponse_iff, Dict.contains, Dict.contains, Dict.contains, h.links, h.statuses,
    h.extensions, Option.isSome_map, isSome_listed, isSome_listed, List.getLast?_isSome]

end Builder

/-! ## The finished message -/

/-- The message and what goes with it are what the edits say. -/
structure Finished.Faithful (t : Topic) (edits : List Edit) (d : Finished) : Prop where
  /-- There is something in the message. -/
  full : d.message.isEmpty = false
  /-- It answers the requests with a link, a status or further data. -/
  answered : ∀ r, r ∈ d.message.responses.map Response.request ↔
    told Edit.link? r edits ≠ [] ∨ told Edit.status? r edits ≠ [] ∨
      told Edit.extension? r edits ≠ []
  /-- It answers each of them once, in the order of the requests. -/
  increasing : (d.message.responses.map Response.request).Pairwise
    (fun r r' => Key.precedes r r' = true)
  /-- The last status counts, and without one the response is partial. -/
  status : ∀ a ∈ d.message.responses,
    a.status = (told Edit.status? a.request edits).getLast?.getD .partialResponse
  /-- Everything that is said about links is there in its order. -/
  links : ∀ a ∈ d.message.responses, a.links = told Edit.link? a.request edits
  /-- The last data counts for each name. -/
  extensions : ∀ a ∈ d.message.responses, ∀ name,
    a.extensions.get? name = (Dict.under name (told Edit.extension? a.request edits)).getLast?
  /-- The first payload counts for each link, in the order in which the links first come. -/
  blocks : d.message.blocks = firstUnderLinks (edits.filterMap Edit.block?)
  /-- The topic is that of the builder. -/
  topic : d.topic = t
  /-- The size is that of all blocks that were added. -/
  size : d.size = ((edits.filterMap Edit.block?).map Block.size).sum
  /-- Observers are told the statuses of the responses, one for each. -/
  statuses : d.metadata.statuses.entries =
    d.message.responses.map fun a => (a.request, a.status)
  /-- They are told all block records in their order. -/
  records : ∀ r, d.metadata.records.get? r = listed (told Edit.record? r edits)
  /-- The last stream counts. -/
  streams : ∀ r, d.streams.get? r = (told Edit.stream? r edits).getLast?
  /-- A sink is to be registered as often as it was added. -/
  sinks : ∀ s, d.sinks.count s = attached s edits

namespace Builder

variable {b : Builder} {d : Finished}

/-- The requests that a message answers are in their order. -/
theorem pairwise_requests (h : b.finish? = some d) :
    (d.message.responses.map Response.request).Pairwise (fun r r' => Key.precedes r r' = true) := by
  rw [requests_of_finish? h]
  exact Dict.pairwise_keys _

/-- What observers are told lists the statuses as the message lists its responses. -/
theorem entries_statuses (h : b.finish? = some d) : d.metadata.statuses.entries =
    d.message.responses.map fun a => (a.request, a.status) := by
  rw [metadata_of_finish? h]
  refine Dict.entries_ofList (List.pairwise_map.mpr ?_)
  exact List.pairwise_map.mp (pairwise_requests h)

/-- A builder that is what the edits say has a message that is what they say. -/
theorem Holds.faithful {t : Topic} (h : b.Holds t edits) (hd : b.finish? = some d) :
    d.Faithful t edits := by
  obtain ⟨hfull, htopic, hsize⟩ := finish?_eq_some hd
  have hresponse : ∀ a ∈ d.message.responses, a = b.response a.request := fun a ha =>
    response_of_finish? hd ha
  exact {
    full := by
      obtain ⟨-, rfl⟩ := finish?_eq_some_iff.mp hd
      exact b.isEmpty_message.trans hfull
    answered r := by rw [requests_of_finish? hd, mem_responders, h.hasResponse_iff]
    increasing := pairwise_requests hd
    status a ha := by
      rw [hresponse a ha]
      show (b.statuses.get? a.request).getD _ = _
      rw [h.statuses]
      rfl
    links a ha := by
      rw [hresponse a ha]
      show (b.links.get? a.request).getD [] = _
      rw [h.links, getD_listed]
      rfl
    extensions a ha name := by
      rw [hresponse a ha]
      show ((b.extensions.get? a.request).getD ∅).get? name = _
      rw [h.extensions, getD_map_listed, Dict.get?_ofList]
      rfl
    blocks := (blocks_of_finish? hd).trans h.blocks
    topic := htopic.trans h.topic
    size := hsize.trans h.size
    statuses := entries_statuses hd
    records r := by rw [metadata_of_finish? hd, h.records]
    streams r := by rw [streams_of_finish? hd, h.streams]
    sinks s := (count_sinks hd).trans (h.copies s) }

end Builder

end Outbox
