import Outbox.Proofs.Message.Erasure
import Outbox.Proofs.Message.Told

/-!
# Producers take turns in any order

Many producers edit one builder, and nobody says in which order their turns come.  What is filed
under a request depends on the edits for that request alone, and what stands under a link on the
blocks with that link.  So two interleavings of the same edits lead to the same builder, up to the
order of its blocks, and to the same message.

* `Interleaves` — the edits for each request come in a given order, with given blocks in between;
* `Drawer.told_filter`, `Drawer.dict_eq` — a drawer depends on the edits for each request alone;
* `Builder.stored?_applyAll`, `Builder.perm_blocks` — the blocks depend on what is added alone;
* `Finished.Alike`, `Builder.Alike.finish?` — builders that are alike are finished alike;
* `Builder.interleavings_agree` — two interleavings of the same edits.
-/

namespace Outbox

variable {α β : Type} {edits edits' : List Edit} {script : RequestId → List Edit}
  {added added' : List Block} {block : Block} {link : Link} {t : Topic}

/-- Edits without a scrub that are an interleaving of what is done for each request, and of the
blocks that are added. -/
structure Interleaves (script : RequestId → List Edit) (added : List Block) (edits : List Edit) :
    Prop where
  /-- Nothing is scrubbed. -/
  plain : ∀ e ∈ edits, e.isScrub = false
  /-- What is filed under a request is filed in the order given for the request. -/
  script : ∀ r, edits.filter (Edit.isFor r) = script r
  /-- The blocks are added in some order, each as often as it is listed. -/
  added : (edits.filterMap Edit.block?).Perm added

/-! ## What is filed under requests -/

namespace Drawer

/-- Edits for other requests file nothing under a request. -/
theorem told_filter (d : Drawer α β) (edits : List Edit) (r : RequestId) :
    told d.filed? r (edits.filter (Edit.isFor r)) = told d.filed? r edits := by
  rw [told, told, Dict.under, Dict.under, List.filterMap_filterMap, List.filterMap_filterMap,
    List.filterMap_filter]
  refine List.filterMap_congr fun e _ => ?_
  cases hx : d.filed? e with
  | none => simp
  | some x =>
    by_cases hr : x.1 = r
    · subst hr
      rw [if_pos (d.isFor e x hx)]
    · simp [hr]

/-- A drawer depends on what is done for each request alone. -/
theorem dict_eq (d : Drawer α β) (t : Topic) (h : Interleaves script added edits)
    (h' : Interleaves script added' edits') :
    d.dict (({ topic := t } : Builder).applyAll edits) =
      d.dict (({ topic := t } : Builder).applyAll edits') := by
  refine Dict.ext_get? fun r => ?_
  rw [d.get?_applyAll_new t h.plain, d.get?_applyAll_new t h'.plain, ← d.told_filter edits,
    ← d.told_filter edits', h.script, h'.script]

end Drawer

/-! ## What stands under links -/

/-- Where blocks with one link are one block, the block under a link is the one with that link. -/
theorem find?_link_eq_some_iff
    (hsame : ∀ block ∈ added, ∀ block' ∈ added, block.link = block'.link → block = block') :
    added.find? (fun block => block.link = link) = some block ↔
      block ∈ added ∧ block.link = link := by
  constructor
  · intro hfind
    exact ⟨List.mem_of_find?_eq_some hfind, by simpa using List.find?_some hfind⟩
  · rintro ⟨hmem, hlink⟩
    cases hfind : added.find? (fun block => block.link = link) with
    | none =>
      have hnone := List.find?_eq_none.mp hfind block hmem
      simp [hlink] at hnone
    | some block' =>
      have hlink' : block'.link = link := by simpa using List.find?_some hfind
      rw [hsame block' (List.mem_of_find?_eq_some hfind) block hmem (hlink'.trans hlink.symm)]

namespace Builder

variable {b c : Builder}

/-- Under a link stands the first block that was added there, with one contribution for each. -/
theorem stored?_applyAll (t : Topic) (h : ∀ e ∈ edits, e.isScrub = false) (link : Link) :
    stored? (({ topic := t } : Builder).applyAll edits).blocks link =
      ((edits.filterMap Edit.block?).find? (fun block => block.link = link)).map fun block =>
        ⟨block, (edits.filterMap Edit.block?).countP (fun block => block.link = link)⟩ := by
  induction edits using List.reverseRecOn with
  | nil => rfl
  | append_singleton past e ih =>
    obtain ⟨hpast, he⟩ := List.forall_mem_append.mp h
    rw [applyAll_concat, blocks_apply _ (he e (List.mem_singleton_self e)), List.filterMap_append]
    cases hblock : e.block? with
    | none => rw [List.filterMap_cons_none hblock, List.filterMap_nil, List.append_nil,
        Option.elim_none, ih hpast]
    | some block =>
      rw [List.filterMap_cons_some hblock, List.filterMap_nil, Option.elim_some, stored?_store,
        ih hpast, List.find?_append, List.countP_append]
      by_cases hlink : link = block.link
      · subst hlink
        rw [if_pos rfl]
        cases hfind : (past.filterMap Edit.block?).find? (fun b => b.link = block.link) with
        | none =>
          have hzero : (past.filterMap Edit.block?).countP (fun b => b.link = block.link) = 0 :=
            List.countP_eq_zero.mpr (List.find?_eq_none.mp hfind)
          simp [hzero]
        | some first => simp [StoredBlock.again]
      · simp [hlink, Ne.symm hlink]

/-- The stored blocks depend on which blocks are added alone, up to their order. -/
theorem perm_blocks (t : Topic) (h : Interleaves script added edits)
    (h' : Interleaves script added edits')
    (hsame : ∀ block ∈ added, ∀ block' ∈ added, block.link = block'.link → block = block') :
    (({ topic := t } : Builder).applyAll edits).blocks.Perm
      (({ topic := t } : Builder).applyAll edits').blocks := by
  refine perm_of_stored? ((tidy_new t).applyAll edits).nodup ((tidy_new t).applyAll edits').nodup
    fun link => ?_
  have hperm := h.added.trans h'.added.symm
  have hsingle : ∀ {edits : List Edit}, Interleaves script added edits →
      ∀ block ∈ edits.filterMap Edit.block?, ∀ block' ∈ edits.filterMap Edit.block?,
        block.link = block'.link → block = block' := fun hedits block hblock block' hblock' =>
    hsame block (hedits.added.mem_iff.mp hblock) block' (hedits.added.mem_iff.mp hblock')
  have hfind : (edits.filterMap Edit.block?).find? (fun block => block.link = link) =
      (edits'.filterMap Edit.block?).find? (fun block => block.link = link) := by
    refine Option.ext fun block => ?_
    rw [find?_link_eq_some_iff (hsingle h), find?_link_eq_some_iff (hsingle h'), hperm.mem_iff]
  rw [stored?_applyAll t h.plain, stored?_applyAll t h'.plain, hfind, hperm.countP_eq]

/-- Interleavings of the same edits lead to the same builder. -/
theorem alike_of_interleaves (t : Topic) (h : Interleaves script added edits)
    (h' : Interleaves script added edits')
    (hsame : ∀ block ∈ added, ∀ block' ∈ added, block.link = block'.link → block = block') :
    (({ topic := t } : Builder).applyAll edits).Alike
      (({ topic := t } : Builder).applyAll edits') where
  topic := by rw [applyAll_topic, applyAll_topic]
  size := by
    rw [size_applyAll _ h.plain, size_applyAll _ h'.plain,
      ((h.added.trans h'.added.symm).map _).sum_eq]
  blocks := perm_blocks t h h' hsame
  links := Drawer.links.dict_eq t h h'
  statuses := Drawer.statuses.dict_eq t h h'
  extensions := Drawer.extensions.dict_eq t h h'
  records := Drawer.records.dict_eq t h h'
  streams := Drawer.streams.dict_eq t h h'
  notifees := Drawer.notifees.dict_eq t h h'

end Builder

/-! ## The finished message -/

/-- The messages are the same up to the order of their blocks, and so is what goes with them. -/
structure Finished.Alike (d d' : Finished) : Prop where
  /-- They are for the same topic. -/
  topic : d.topic = d'.topic
  /-- They have the same responses. -/
  responses : d.message.responses = d'.message.responses
  /-- They carry the same blocks. -/
  blocks : d.message.blocks.Perm d'.message.blocks
  /-- They have the same size. -/
  size : d.size = d'.size
  /-- Observers are told the same. -/
  metadata : d.metadata = d'.metadata
  /-- They have the same streams. -/
  streams : d.streams = d'.streams
  /-- They have the same sinks. -/
  sinks : d.sinks = d'.sinks

namespace Builder

variable {b c : Builder}

/-- Builders that are alike are finished alike. -/
theorem Alike.finish? (h : b.Alike c) : Option.Rel Finished.Alike b.finish? c.finish? := by
  have hempty : b.isEmpty = c.isEmpty := by
    rw [isEmpty, isEmpty, h.blocks.isEmpty_eq, h.links, h.statuses, h.extensions]
  have hresponses : b.message.responses = c.message.responses := by
    have hresponse : b.response = c.response := by
      funext r
      rw [response, response, h.links, h.statuses, h.extensions]
    show b.responders.map b.response = c.responders.map c.response
    rw [responders, responders, hresponse, h.links, h.statuses, h.extensions]
  cases hb : b.isEmpty with
  | true =>
    rw [finish?_eq_none_iff.mpr hb, finish?_eq_none_iff.mpr (hempty ▸ hb)]
    exact .none
  | false =>
    rw [finish?_eq_some_iff.mpr ⟨hb, rfl⟩, finish?_eq_some_iff.mpr ⟨hempty ▸ hb, rfl⟩]
    refine .some ⟨h.topic, hresponses, h.blocks.map _, h.size, ?_, h.streams, ?_⟩
    · rw [h.records, Message.statuses, hresponses, Message.statuses]
    · rw [h.notifees]

/-- **The order of producers does not matter.**  Two interleavings of the same edits for each
request, and of the same blocks, lead to the same builder and the same message, up to the order of
the blocks, where blocks with one link have one payload. -/
theorem interleavings_agree (t : Topic) {script : RequestId → List Edit} {added : List Block}
    {edits edits' : List Edit} (h : Interleaves script added edits)
    (h' : Interleaves script added edits')
    (hsame : ∀ block ∈ added, ∀ block' ∈ added,
      block.link = block'.link → block.payload = block'.payload) :
    let start : Builder := { topic := t }
    (start.applyAll edits).Alike (start.applyAll edits') ∧
      Option.Rel Finished.Alike (start.applyAll edits).finish? (start.applyAll edits').finish? := by
  intro start
  have halike := alike_of_interleaves t h h' fun block hb block' hb' hlink =>
    Block.ext hlink (hsame block hb block' hb' hlink)
  exact ⟨halike, halike.finish?⟩

/-- Two requests share a block, and one of them has another block besides.  One after the other they
lead to the same builder as in turns, but the blocks are in another order. -/
theorem interleavings_agree_of_two :
    let shared : Block := .fill default 2 0
    let own : Block := .fill ⟨Octets.fill 32 1⟩ 1 0
    let first : RequestId := ⟨Octets.fill 16 0⟩
    let second : RequestId := ⟨Octets.fill 16 1⟩
    let edits : List Edit := [.addBlock shared, .addLink first shared.link .present,
      .setStatus first .requestCompletedFull, .addNotifee first ⟨7⟩, .addBlock own,
      .addLink second own.link .present, .addBlock shared, .addLink second shared.link .present]
    let edits' : List Edit := [.addBlock own, .addLink first shared.link .present,
      .addLink second own.link .present, .addBlock shared, .addLink second shared.link .present,
      .setStatus first .requestCompletedFull, .addBlock shared, .addNotifee first ⟨7⟩]
    let script (r : RequestId) := edits.filter (Edit.isFor r)
    let start : Builder := { topic := Topic.first }
    Interleaves script [shared, own, shared] edits ∧
      Interleaves script [shared, own, shared] edits' ∧
      (start.applyAll edits).Alike (start.applyAll edits') ∧
      (start.applyAll edits).blocks = [⟨shared, 2⟩, ⟨own, 1⟩] ∧
      (start.applyAll edits').blocks = [⟨own, 1⟩, ⟨shared, 2⟩] := by
  intro shared own first second edits edits' script start
  have hne : first ≠ second := by decide +kernel
  have h : Interleaves script [shared, own, shared] edits :=
    ⟨by decide +kernel, fun r => rfl, by decide +kernel⟩
  have h' : Interleaves script [shared, own, shared] edits' := by
    refine ⟨by decide +kernel, fun r => ?_, by decide +kernel⟩
    by_cases hfirst : first = r
    · simp [script, edits, edits', Edit.isFor, hfirst, (hfirst ▸ hne).symm]
    · simp [script, edits, edits', List.filter_cons, Edit.isFor, hfirst]
  have hsame : ∀ block ∈ [shared, own, shared], ∀ block' ∈ [shared, own, shared],
      block.link = block'.link → block.payload = block'.payload := by
    decide +kernel
  exact ⟨h, h', (interleavings_agree Topic.first h h' hsame).1, by decide +kernel,
    by decide +kernel⟩

end Builder

end Outbox
