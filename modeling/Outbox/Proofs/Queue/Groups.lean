import Outbox.Proofs.Queue.Chapters
import Outbox.Proofs.Queue.Closing
import Outbox.Proofs.Queue.Trace

/-!
# Edits go out in the order in which they came

A message is put together from the edits of several producers, and nothing keeps the worker from
taking a builder that is still being filled.  As long as nothing is scrubbed and the backlog is
open, the queue is nevertheless a simple thing: the edits that were carried out fall into groups,
one after the other and one for each topic, and every message is made from one group.

* `Group` — the edits that went to one topic, with the builder and the message they make;
* `Topic.HandedOut` — topics that are handed out one after the other;
* `Queue.Undisturbed` — no scrub, no failed delivery, no drain and no end so far;
* `Grouped` — how the log falls into the groups that are gone and the groups that wait;
* `Grouped.change` — every entry of the log keeps to it;
* `Queue.messages_in_order` — after every path the groups that are gone make the messages that were
  sent, in order, and the groups that wait make the builders in line.
-/

namespace Outbox

/-! ## Groups -/

/-- The edits that went to one topic, one list for each producer's turn. -/
structure Group where
  /-- The topic. -/
  topic : Topic
  /-- The lists of edits, in the order in which they were carried out. -/
  closures : List (List Edit)

namespace Group

/-- A new builder on which the edits of the group are carried out. -/
def builder (g : Group) : Builder := g.closures.foldl Builder.applyAll { topic := g.topic }

/-- The message that the group makes, if there is anything to send. -/
def message? (g : Group) : Option Message := g.builder.message?

/-- The lists of edits of the group, with their topic. -/
def entries (g : Group) : List (Topic × List Edit) := g.closures.map (fun edits => (g.topic, edits))

/-- The group with one more list of edits. -/
def join (g : Group) (edits : List Edit) : Group := { g with closures := g.closures ++ [edits] }

@[simp] theorem builder_topic (g : Group) : g.builder.topic = g.topic := by
  obtain ⟨t, closures⟩ := g
  induction closures using List.reverseRecOn with
  | nil => rfl
  | append_singleton closures edits ih =>
    rw [builder, List.foldl_append, List.foldl_cons, List.foldl_nil, Builder.applyAll_topic]
    exact ih

@[simp] theorem builder_join (g : Group) (edits : List Edit) :
    (g.join edits).builder = g.builder.applyAll edits := by
  simp [builder, join]

@[simp] theorem entries_join (g : Group) (edits : List Edit) :
    (g.join edits).entries = g.entries ++ [(g.topic, edits)] := by
  simp [entries, join]

end Group

/-! ## Topics -/

/-- The first topic is the next one to be handed out; after these topics it is the last one. -/
def Topic.HandedOut : Option Topic → List Topic → Option Topic → Prop
  | next, [], last => last = next
  | next, t :: rest, last => next = some t ∧ HandedOut t.next? rest last

namespace Topic.HandedOut

theorem concat {next : Option Topic} {ts : List Topic} {t : Topic}
    (h : HandedOut next ts (some t)) : HandedOut next (ts ++ [t]) t.next? := by
  induction ts generalizing next with
  | nil => exact ⟨h.symm, rfl⟩
  | cons t' rest ih => exact ⟨h.1, ih h.2⟩

/-- Topics that are handed out one after the other only increase. -/
theorem increasing {next last : Option Topic} {ts : List Topic} (h : HandedOut next ts last) :
    ts.Pairwise Topic.Before ∧ ∀ t ∈ ts, ∀ n ∈ next, n = t ∨ n.Before t := by
  induction ts generalizing next with
  | nil =>
    refine ⟨.nil, ?_⟩
    intro t ht
    cases ht
  | cons t rest ih =>
    obtain ⟨rfl, hrest⟩ := h
    obtain ⟨hpair, hlater⟩ := ih hrest
    have hafter : ∀ t' ∈ rest, t.Before t' := by
      intro t' ht'
      cases hn : t.next? with
      | none =>
        rw [hn] at hrest
        cases rest with
        | nil => cases ht'
        | cons t'' rest => cases hrest.1
      | some n =>
        have htn := Topic.before_next hn
        rcases hlater t' ht' n hn with rfl | hbefore
        · exact htn
        · exact htn.trans hbefore
    refine ⟨List.pairwise_cons.mpr ⟨hafter, hpair⟩, ?_⟩
    intro t' ht' n hn
    cases hn
    rcases List.mem_cons.mp ht' with rfl | ht'
    · exact .inl rfl
    · exact .inr (hafter t' ht')

end Topic.HandedOut

/-! ## The log falls into groups -/

/-- The edits that were carried out, with the topic that is reported for them. -/
def Action.carriedOut? : Action → Option (Topic × List Edit)
  | mutated _ edits report => some (report.topic, edits)
  | _ => none

/-- Something is scrubbed. -/
def Action.isScrub : Action → Bool
  | scrubbed _ => true
  | _ => false

/-- The edits that the log tells of fall into these groups: some whose builders are gone, and some
whose builders wait. -/
structure Grouped (first : Option Topic) (log : List Action) (gone waiting : List Group)
    (backlog : Backlog) : Prop where
  /-- All edits, in the order in which they were carried out, are the edits of the groups. -/
  closures : log.filterMap Action.carriedOut? = (gone ++ waiting).flatMap Group.entries
  /-- No topic is opened without edits. -/
  nonempty : ∀ g ∈ gone ++ waiting, g.closures ≠ []
  /-- There is one group for each topic, in the order in which topics are handed out. -/
  topics : Topic.HandedOut first ((gone ++ waiting).map Group.topic) backlog.nextTopic
  /-- The builders that were taken are those of the groups that are gone. -/
  taken : log.filterMap Action.taken? = gone.map Group.builder
  /-- The builders in line are those of the groups that wait. -/
  waiting : backlog.builders = waiting.map Group.builder

namespace Grouped

variable {first : Option Topic} {log : List Action} {gone waiting : List Group}
  {backlog backlog' : Backlog}

/-- Edits join the last group. -/
theorem join {p : Nat} {edits : List Edit} {report : EditReport} {front : List Builder}
    {b : Builder} (h : Grouped first log gone waiting backlog)
    (hb : backlog.builders = front ++ [b]) (hreport : report.topic = b.topic) :
    ∃ waiting', Grouped first (log ++ [.mutated p edits report]) gone waiting'
      { backlog with builders := front ++ [b.applyAll edits] } := by
  obtain ⟨groups, last, rfl, hfront, hlast⟩ : ∃ groups last, waiting = groups ++ last ∧
      groups.map Group.builder = front ∧ last.map Group.builder = [b] :=
    List.map_eq_append_iff.mp (h.waiting.symm.trans hb)
  obtain ⟨g, rfl, hg⟩ := List.map_eq_singleton_iff.mp hlast
  have htopic : report.topic = g.topic := by rw [hreport, ← hg, g.builder_topic]
  refine ⟨groups ++ [g.join edits], ?_, ?_, ?_, ?_, ?_⟩
  · rw [filterMap_concat, h.closures]
    simp [Action.carriedOut?, htopic]
  · intro g' hg'
    rcases List.mem_append.mp hg' with hg' | hg'
    · exact h.nonempty g' (List.mem_append_left _ hg')
    · rcases List.mem_append.mp hg' with hg' | hg'
      · exact h.nonempty g' (List.mem_append_right _ (List.mem_append_left _ hg'))
      · rw [List.mem_singleton.mp hg']
        simp [Group.join]
  · have htopics := h.topics
    simp only [List.map_append, List.map_singleton, Group.join] at htopics ⊢
    exact htopics
  · rw [filterMap_concat, h.taken]
    exact List.append_nil _
  · simp [hfront, hg]

/-- A new group begins. -/
theorem begin {p : Nat} {edits : List Edit} {report : EditReport} {t : Topic}
    (h : Grouped first log gone waiting backlog) (ht : backlog.nextTopic = some t)
    (hreport : report.topic = t) :
    Grouped first (log ++ [.mutated p edits report]) gone (waiting ++ [⟨t, [edits]⟩])
      { backlog with
        builders := backlog.builders ++ [({ topic := t } : Builder).applyAll edits]
        nextTopic := t.next? } := by
  refine ⟨?_, ?_, ?_, ?_, ?_⟩
  · rw [filterMap_concat, h.closures]
    simp [Action.carriedOut?, hreport, Group.entries]
  · intro g hg
    rw [← List.append_assoc] at hg
    rcases List.mem_append.mp hg with hg | hg
    · exact h.nonempty g hg
    · rw [List.mem_singleton.mp hg]
      simp
  · have htopics := h.topics
    rw [ht] at htopics
    have hnext := htopics.concat
    simpa using hnext
  · rw [filterMap_concat, h.taken]
    exact List.append_nil _
  · simp [h.waiting, Group.builder]

/-- The first group goes. -/
theorem dequeue {b : Builder} {rest : List Builder}
    (h : Grouped first log gone waiting backlog) (hb : backlog.builders = b :: rest) :
    ∃ gone' waiting', Grouped first (log ++ [.dequeued b]) gone' waiting'
      { backlog with builders := rest } := by
  obtain ⟨g, groups, rfl, hg, hrest⟩ : ∃ g groups, waiting = g :: groups ∧ g.builder = b ∧
      groups.map Group.builder = rest :=
    List.map_eq_cons_iff.mp (h.waiting.symm.trans hb)
  have hall : gone ++ [g] ++ groups = gone ++ g :: groups := by simp
  refine ⟨gone ++ [g], groups, ?_, ?_, ?_, ?_, ?_⟩
  · rw [filterMap_concat, h.closures, hall]
    exact List.append_nil _
  · rw [hall]
    exact h.nonempty
  · rw [hall]
    exact h.topics
  · rw [filterMap_concat, h.taken, List.map_append, List.map_singleton, hg]
    rfl
  · exact hrest.symm

/-- An entry that scrubs nothing and throws nothing away. -/
theorem change {a : Action} (h : Grouped first log gone waiting backlog)
    (c : Backlog.Change backlog a backlog') (hs : a.isScrub = false)
    (hd : ∀ b, a ≠ .discarded b) :
    ∃ gone' waiting', Grouped first (log ++ [a]) gone' waiting' backlog' := by
  cases c with
  | edited hm hreport =>
    cases hm with
    | join hb hfit =>
      obtain ⟨waiting', hnext⟩ := h.join hb hreport
      exact ⟨gone, waiting', hnext⟩
    | begin hnew ht => exact ⟨gone, _, h.begin ht hreport⟩
  | scrubbed rs => cases hs
  | dequeued hb => exact h.dequeue hb
  | discarded hb => exact absurd rfl (hd _)
  | other ha =>
    have hedits : a.carriedOut? = none := by cases a <;> first | rfl | cases ha
    have htaken : a.taken? = none := by cases a <;> first | rfl | cases ha
    refine ⟨gone, waiting, ?_, h.nonempty, h.topics, ?_, h.waiting⟩
    · rw [filterMap_concat, hedits, h.closures]
      exact List.append_nil _
    · rw [filterMap_concat, htaken, h.taken]
      exact List.append_nil _

/-- Along a trace without scrubs the log falls into groups. -/
theorem of_trace (t : Backlog.Trace backlog log backlog') (hb : backlog.builders = [])
    (hs : ∀ a ∈ log, a.isScrub = false) (hd : ∀ b, .discarded b ∉ log) :
    ∃ gone waiting, Grouped backlog.nextTopic log gone waiting backlog' := by
  induction t with
  | nil =>
    refine ⟨[], [], rfl, ?_, rfl, rfl, hb⟩
    intro g hg
    cases hg
  | @concat log a middle backlog' t c ih =>
    obtain ⟨hsl, hsa⟩ := List.forall_mem_append.mp hs
    have hdl : ∀ b, .discarded b ∉ log := fun b hmem => hd b (List.mem_append_left _ hmem)
    obtain ⟨gone, waiting, hgrouped⟩ := ih hsl hdl
    refine hgrouped.change c (hsa a (List.mem_singleton_self a)) ?_
    rintro b rfl
    exact hd b (by simp)

end Grouped

/-! ## Queues -/

namespace Queue

variable {start q : Queue}

/-- Nothing was scrubbed and the backlog accepts edits.  A delivery that fails and a message that is
left when the worker is asked to stop scrub their requests, and a drain and the end of the worker
close the backlog; so none of these has happened. -/
def Undisturbed (q : Queue) : Prop :=
  q.backlog.closed = false ∧ ∀ a ∈ q.log, a.isScrub = false

instance (q : Queue) : Decidable q.Undisturbed := inferInstanceAs (Decidable (_ ∧ _))

/-- **First in, first out.**  Whatever happens to a queue before the first scrub, failure or end:
the edits that were carried out fall into groups, one for each topic that was opened and in the
order of the topics.  The builders in line are those that the last groups make, each from a new
builder; the messages that were sent, and the one for which a sender is being opened, are those that
the groups before them make, in the same order and each once; only a group that makes no message is
not among them. -/
theorem messages_in_order (hnew : start.IsNew) (h : Path (fun _ => True) start q)
    (hu : q.Undisturbed) :
    ∃ gone waiting, Grouped start.backlog.nextTopic q.log gone waiting q.backlog ∧
      ((gone ++ waiting).map Group.topic).Pairwise Topic.Before ∧
      q.transmitted ++ q.awaited = gone.filterMap Group.message? := by
  obtain ⟨hopen, hscrubs⟩ := hu
  have hkept : ∀ b, .discarded b ∉ q.log := by
    intro b hb
    have hclosed := (hnew.orderly h).closing b hb
    rw [hopen] at hclosed
    cases hclosed
  obtain ⟨gone, waiting, hgrouped⟩ :=
    Grouped.of_trace (hnew.trace h) hnew.builders_eq hscrubs hkept
  refine ⟨gone, waiting, ⟨hgrouped.closures, hgrouped.nonempty, hgrouped.topics, hgrouped.taken,
    hgrouped.waiting⟩, hgrouped.topics.increasing.1, ?_⟩
  -- a failure would have left a scrub in the log
  obtain ⟨told, hwritten⟩ := hnew.written h
  have hfails : ∀ c ∈ told, c.fails = false := by
    intro c hc
    by_contra hfail
    obtain ⟨-, -, rs, hrs⟩ := hwritten.failure c hc (by simpa using hfail)
    have hscrub := hscrubs _ hrs
    cases hscrub
  rw [hwritten.transmitted_eq hfails, taken_eq_filterMap, hgrouped.taken, List.filterMap_map]
  rfl

/-- An empty builder is opened and passed over, one message is sent, and a third builder takes in
the edits of two producers. -/
theorem messages_in_order_behind_empty :
    let start : Queue := { peer := Peer.zero, settings := {} }
    let status : List Edit := [.setStatus default .requestAcknowledged]
    let q := start.run [.reserve 0 0 [], .reserve 1 600000 status, .startup, .work none,
      .work none, .work (some .opened), .work (some .sent), .reserve 2 0 status,
      .reserve 3 0 [.askSize]]
    q.Undisturbed ∧ q.transmitted.length = 1 ∧ q.backlog.builders.length = 1 ∧
      ∃ gone waiting, Grouped start.backlog.nextTopic q.log gone waiting q.backlog ∧
        ((gone ++ waiting).map Group.topic).Pairwise Topic.Before ∧
        q.transmitted ++ q.awaited = gone.filterMap Group.message? := by
  intro start status q
  have hnew : start.IsNew := rfl
  have hreach : Reachable start q := ⟨_, rfl⟩
  have hu : q.Undisturbed := by decide
  exact ⟨hu, by decide, by decide, messages_in_order hnew hreach.path hu⟩

end Queue

end Outbox
