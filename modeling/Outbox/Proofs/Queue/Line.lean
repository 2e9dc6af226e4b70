import Outbox.Proofs.Queue.Lifecycle
import Outbox.Proofs.Queue.Trace

/-!
# The line of builders, told from the log

Which builders wait, and with what in them, can be told from the log alone: edits go to the builder
whose topic they report or open it, scrubs reach every builder and drop those that are left empty,
and the first builder leaves when it is taken or thrown away.  So there is a line for every moment
of a run, not only for its end.

* `Builder.retell`, `Builder.retold` — what the log says of one builder;
* `Line`, `Line.of` — the builders in line, and the topics of those that scrubs have dropped;
* `Line.Kept` — the line that is told is the line that is there, each topic that was ever opened is
  in one place, and topics come in the order in which they were handed out;
* `Queue.IsNew.kept` — so it is in every queue that a path leads to.
-/

namespace Outbox

/-! ## One builder -/

namespace Builder

/-- What an entry of the log means for a builder in line. -/
def retell (b : Builder) : Action → Builder
  | .mutated _ edits report => if report.topic = b.topic then b.applyAll edits else b
  | .scrubbed rs => b.scrub rs
  | _ => b

/-- A new builder with this topic after everything that the entries say about it. -/
def retold (t : Topic) (log : List Action) : Builder := log.foldl retell { topic := t }

@[simp] theorem retell_topic (b : Builder) (a : Action) : (b.retell a).topic = b.topic := by
  cases a with
  | mutated p edits report =>
    show (if report.topic = b.topic then b.applyAll edits else b).topic = b.topic
    split
    · exact b.applyAll_topic edits
    · rfl
  | scrubbed rs => exact b.scrub_topic rs
  | _ => rfl

theorem retold_concat (t : Topic) (log : List Action) (a : Action) :
    retold t (log ++ [a]) = (retold t log).retell a := by
  simp [retold]

@[simp] theorem retold_topic (t : Topic) (log : List Action) : (retold t log).topic = t := by
  induction log using List.reverseRecOn with
  | nil => rfl
  | append_singleton log a ih => rw [retold_concat, retell_topic, ih]

end Builder

/-! ## The whole line -/

/-- The builders in line, and what scrubs have dropped. -/
structure Line where
  /-- The builders in line, the oldest first. -/
  builders : List Builder := []
  /-- The topics of the builders that a scrub left empty. -/
  dropped : List Topic := []

namespace Line

/-- The builders that take part in edits which report this topic: those in line, and a new one if
none of them has it. -/
def opened (l : Line) (t : Topic) : List Builder :=
  if l.builders.any (fun b => b.topic = t) then l.builders else l.builders ++ [{ topic := t }]

/-- What an entry of the log means for the line. -/
def hear (l : Line) : Action → Line
  | .mutated p edits report =>
    { l with builders := (l.opened report.topic).map (·.retell (.mutated p edits report)) }
  | .scrubbed rs =>
    { builders := (l.builders.map (·.scrub rs)).filter (fun b => !b.isEmpty)
      dropped := l.dropped ++
        ((l.builders.map (·.scrub rs)).filter (fun b => b.isEmpty)).map Builder.topic }
  | .dequeued _ => { l with builders := l.builders.tail }
  | .discarded _ => { l with builders := l.builders.tail }
  | _ => l

/-- The line that the log tells of. -/
def of (log : List Action) : Line := log.foldl hear {}

theorem of_concat (log : List Action) (a : Action) : of (log ++ [a]) = (of log).hear a := by
  simp [of]

/-- The builder with this topic, which is new if it is not in line. -/
def builder (l : Line) (t : Topic) : Builder :=
  (l.builders.find? (fun b => b.topic = t)).getD { topic := t }

theorem hear_of_other (l : Line) {a : Action} (h : a.isOfBacklog = false) : l.hear a = l := by
  cases a <;> first | rfl | cases h

/-- What a scrub has dropped stays on record. -/
theorem dropped_prefix (log later : List Action) :
    (of log).dropped <+: (of (log ++ later)).dropped := by
  induction later using List.reverseRecOn with
  | nil => rw [List.append_nil]
  | append_singleton later a ih =>
    rw [← List.append_assoc, of_concat]
    refine ih.trans ?_
    cases a with
    | scrubbed rs => exact List.prefix_append _ _
    | _ => exact List.prefix_refl _

end Line

/-! ## Topics in the log -/

/-- The topic of the builder that edits were carried out on. -/
def Action.edited? : Action → Option Topic
  | mutated _ _ report => some report.topic
  | _ => none

/-- The topic of the builder that left the line. -/
def Action.removed? : Action → Option Topic
  | dequeued b => some b.topic
  | discarded b => some b.topic
  | _ => none

/-- The topics of the builders that left the line, in order. -/
def removed (log : List Action) : List Topic := log.filterMap Action.removed?

/-- The topics of the builders that edits were carried out on. -/
def edited (log : List Action) : List Topic := log.filterMap Action.edited?

theorem removed_concat (log : List Action) (a : Action) :
    removed (log ++ [a]) = removed log ++ a.removed?.toList := filterMap_concat _ _ _

theorem removed_append (log later : List Action) :
    removed (log ++ later) = removed log ++ removed later := List.filterMap_append ..

theorem edited_append (log later : List Action) :
    edited (log ++ later) = edited log ++ edited later := List.filterMap_append ..

theorem edited_concat (log : List Action) (a : Action) :
    edited (log ++ [a]) = edited log ++ a.edited?.toList := filterMap_concat _ _ _

namespace Line

/-- The line that the log tells of is this one, and topics are used in order and once. -/
structure Kept (log : List Action) (backlog : Backlog) : Prop where
  /-- The builders in line are those that are told of. -/
  builders : (of log).builders = backlog.builders
  /-- Builders leave in the order of their topics. -/
  order : backlog.ComesAfter (removed log)
  /-- The next topic comes after all that were ever opened. -/
  fresh : ∀ n ∈ backlog.nextTopic, ∀ t ∈ edited log, t.Before n
  /-- Every topic that was opened was taken or thrown away, was dropped, or is in line. -/
  tally : ∀ t, (removed log).count t + (of log).dropped.count t + backlog.topics.count t =
    if t ∈ edited log then 1 else 0

namespace Kept

variable {log : List Action} {backlog backlog' : Backlog}

theorem of_nil (hb : backlog.builders = []) : Kept [] backlog := by
  have htopics : backlog.topics = [] := by
    rw [Backlog.topics, hb]
    rfl
  refine ⟨hb.symm, ⟨?_, ?_⟩, ?_, ?_⟩
  · rw [htopics]
    exact .nil
  · rw [htopics]
    intro n _ t ht
    cases ht
  · intro n _ t ht
    cases ht
  · rw [htopics]
    intro t
    rfl

/-- Only the builder with the reported topic takes part in edits. -/
theorem map_retell {front : List Builder} {b : Builder} (p : Nat) (edits : List Edit)
    {report : EditReport} (hb : report.topic = b.topic)
    (hfront : ∀ b' ∈ front, b'.topic ≠ report.topic) :
    (front ++ [b]).map (·.retell (.mutated p edits report)) = front ++ [b.applyAll edits] := by
  have hsame : front.map (·.retell (.mutated p edits report)) = front := by
    refine (List.map_congr_left fun b' hb' => ?_).trans (List.map_id front)
    exact if_neg (Ne.symm (hfront b' hb'))
  rw [List.map_append, hsame, List.map_singleton]
  exact congrArg (fun b => front ++ [b]) (if_pos hb)

/-- The builders that a scrub drops and those it keeps are all the builders. -/
theorem count_scrub (backlog : Backlog) (rs : List RequestId) (t : Topic) :
    (((backlog.builders.map (·.scrub rs)).filter (fun b => b.isEmpty)).map
        Builder.topic).count t + (backlog.scrub rs).topics.count t = backlog.topics.count t := by
  have hmap : backlog.topics = (backlog.builders.map (·.scrub rs)).map Builder.topic := by
    simp [Backlog.topics, Function.comp_def]
  have hperm := (List.filter_append_perm (fun b : Builder => b.isEmpty)
    (backlog.builders.map (·.scrub rs))).map Builder.topic
  rw [hmap, ← hperm.count_eq t, List.map_append, List.count_append]
  rfl

/-- The topics in line and those that have left it are different. -/
theorem ne_of_mem {front : List Builder} {b : Builder} (h : Kept log backlog)
    (hb : backlog.builders = front ++ [b]) : ∀ b' ∈ front, b'.topic ≠ b.topic := by
  intro b' hb'
  have hline := (List.pairwise_append.mp h.order.increasing).2.1
  rw [Backlog.topics, hb, List.map_append, List.pairwise_append] at hline
  exact (hline.2.2 b'.topic (List.mem_map_of_mem hb') b.topic (by simp)).ne

/-- The next topic is not in line. -/
theorem ne_next {t : Topic} (h : Kept log backlog) (ht : backlog.nextTopic = some t) :
    ∀ b ∈ backlog.builders, b.topic ≠ t := fun b hb =>
  (h.order.next t ht b.topic (List.mem_append_right _ (List.mem_map_of_mem hb))).ne

/-- A builder in line has not left it and was not dropped. -/
theorem not_gone {b : Builder} (h : Kept log backlog) (hb : b ∈ backlog.builders) :
    b.topic ∉ removed log ∧ b.topic ∉ (of log).dropped := by
  have htally := h.tally b.topic
  have hline : 0 < backlog.topics.count b.topic :=
    List.count_pos_iff.mpr (List.mem_map_of_mem hb)
  rw [← List.count_eq_zero, ← List.count_eq_zero]
  split at htally <;> omega

/-- Edits were carried out on a builder in line. -/
theorem mem_edited {b : Builder} (h : Kept log backlog) (hb : b ∈ backlog.builders) :
    b.topic ∈ edited log := by
  have htally := h.tally b.topic
  have hline : 0 < backlog.topics.count b.topic :=
    List.count_pos_iff.mpr (List.mem_map_of_mem hb)
  by_contra hnot
  rw [if_neg hnot] at htally
  omega

/-- A topic names one builder in line. -/
theorem eq_of_topic_eq {b b' : Builder} (h : Kept log backlog) (hb : b ∈ backlog.builders)
    (hb' : b' ∈ backlog.builders) (ht : b.topic = b'.topic) : b = b' := by
  have hline := (List.pairwise_append.mp h.order.increasing).2.1
  have hnodup : backlog.topics.Nodup := hline.imp fun hbefore => hbefore.ne
  exact List.inj_on_of_nodup_map hnodup hb hb' ht

theorem builder_eq {b : Builder} (h : Kept log backlog) (hb : b ∈ backlog.builders) :
    (of log).builder b.topic = b := by
  rw [builder, h.builders]
  cases hf : backlog.builders.find? (fun b' => b'.topic = b.topic) with
  | none => exact absurd (List.find?_eq_none.mp hf b hb) (by simp)
  | some b' =>
    have ht : b'.topic = b.topic := by simpa using List.find?_some hf
    exact h.eq_of_topic_eq (List.mem_of_find?_eq_some hf) hb ht

/-- The builder with a topic that is not in line is new. -/
theorem builder_eq_new {t : Topic} (h : Kept log backlog)
    (hnone : ∀ b ∈ backlog.builders, b.topic ≠ t) : (of log).builder t = { topic := t } := by
  have hf : backlog.builders.find? (fun b => b.topic = t) = none :=
    List.find?_eq_none.mpr fun b hb => by simpa using hnone b hb
  rw [builder, h.builders, hf]
  rfl

/-- A builder leaves the line for good. -/
theorem remove {a : Action} {b : Builder} {rest : List Builder} (h : Kept log backlog)
    (hb : backlog.builders = b :: rest) (hremoved : a.removed? = some b.topic)
    (hedited : a.edited? = none) (hhear : (of log).hear a = { of log with builders := rest }) :
    Kept (log ++ [a]) { backlog with builders := rest } := by
  have hr : removed (log ++ [a]) = removed log ++ [b.topic] := by
    rw [removed_concat, hremoved]
    rfl
  have he : edited (log ++ [a]) = edited log := by
    rw [edited_concat, hedited]
    exact List.append_nil _
  refine ⟨?_, ?_, ?_, ?_⟩
  · rw [of_concat, hhear]
  · rw [hr]
    exact h.order.take hb
  · rw [he]
    exact h.fresh
  · intro t
    have htally := h.tally t
    rw [hr, he, of_concat, hhear, List.count_append]
    simp only [Backlog.topics, hb, List.map_cons, List.count_cons, List.count_nil] at htally ⊢
    omega

theorem scrub (h : Kept log backlog) (rs : List RequestId) :
    Kept (log ++ [.scrubbed rs]) (backlog.scrub rs) := by
  have hr : removed (log ++ [.scrubbed rs]) = removed log := by
    rw [removed_concat]
    exact List.append_nil _
  have he : edited (log ++ [.scrubbed rs]) = edited log := by
    rw [edited_concat]
    exact List.append_nil _
  refine ⟨?_, ?_, ?_, ?_⟩
  · rw [of_concat]
    simp [hear, h.builders, Backlog.scrub]
  · rw [hr]
    exact h.order.follows (backlog.follows_scrub rs)
  · rw [he]
    exact h.fresh
  · intro t
    have htally := h.tally t
    have hcount := count_scrub backlog rs t
    rw [hr, he, of_concat]
    simp only [hear, h.builders, List.count_append]
    omega

/-- Edits join the last builder. -/
theorem join {p : Nat} {edits : List Edit} {report : EditReport} {front : List Builder}
    {b : Builder} (h : Kept log backlog) (hb : backlog.builders = front ++ [b])
    (ht : report.topic = b.topic) :
    Kept (log ++ [.mutated p edits report])
      { backlog with builders := front ++ [b.applyAll edits] } := by
  have hr : removed (log ++ [.mutated p edits report]) = removed log := by
    rw [removed_concat]
    exact List.append_nil _
  have he : edited (log ++ [.mutated p edits report]) = edited log ++ [b.topic] := by
    rw [edited_concat, ← ht]
    rfl
  have htopics : { backlog with builders := front ++ [b.applyAll edits] }.topics =
      backlog.topics := by
    simp [Backlog.topics, hb]
  have hopened : (of log).opened b.topic = front ++ [b] := by
    unfold opened
    rw [h.builders, hb, if_pos (by simp)]
  -- the last builder was opened before
  have hmem : b.topic ∈ edited log := by
    by_contra hnot
    have htally := h.tally b.topic
    rw [if_neg hnot] at htally
    simp [Backlog.topics, hb, List.count_append] at htally
  refine ⟨?_, ?_, ?_, ?_⟩
  · rw [of_concat]
    show ((of log).opened report.topic).map _ = _
    rw [ht, hopened]
    exact map_retell p edits ht (ht ▸ h.ne_of_mem hb)
  · rw [hr]
    exact h.order.of_sublist (htopics ▸ List.Sublist.refl _) rfl
  · rw [he]
    intro n hn t ht
    rcases List.mem_append.mp ht with ht | ht
    · exact h.fresh n hn t ht
    · rw [List.mem_singleton.mp ht]
      exact h.fresh n hn b.topic hmem
  · intro t
    have hiff : t ∈ edited log ++ [b.topic] ↔ t ∈ edited log := by
      constructor
      · intro ht
        rcases List.mem_append.mp ht with ht | ht
        · exact ht
        · rw [List.mem_singleton.mp ht]
          exact hmem
      · exact List.mem_append_left _
    rw [hr, he, of_concat, htopics, if_congr hiff rfl rfl]
    exact h.tally t

/-- A new builder is opened for edits. -/
theorem begin {p : Nat} {edits : List Edit} {report : EditReport} {t : Topic}
    (h : Kept log backlog) (ht : backlog.nextTopic = some t) (htopic : report.topic = t) :
    Kept (log ++ [.mutated p edits report])
      { backlog with
        builders := backlog.builders ++ [({ topic := t } : Builder).applyAll edits]
        nextTopic := t.next? } := by
  have hr : removed (log ++ [.mutated p edits report]) = removed log := by
    rw [removed_concat]
    exact List.append_nil _
  have he : edited (log ++ [.mutated p edits report]) = edited log ++ [t] := by
    rw [edited_concat, ← htopic]
    rfl
  have hother := h.ne_next ht
  have hopened : (of log).opened t = backlog.builders ++ [{ topic := t }] := by
    unfold opened
    rw [h.builders, if_neg (by simpa using hother)]
  have hfollows : backlog.Follows { backlog with
      builders := backlog.builders ++ [({ topic := t } : Builder).applyAll edits]
      nextTopic := t.next? } := .inr ⟨t, ht, by simp [Backlog.topics], rfl⟩
  refine ⟨?_, ?_, ?_, ?_⟩
  · rw [of_concat]
    show ((of log).opened report.topic).map _ = _
    rw [htopic, hopened]
    exact map_retell p edits htopic (htopic ▸ hother)
  · rw [hr]
    exact h.order.follows hfollows
  · rw [he]
    intro n hn t' ht'
    have htn : t.Before n := Topic.before_next hn
    rcases List.mem_append.mp ht' with ht' | ht'
    · exact (h.fresh t ht t' ht').trans htn
    · rw [List.mem_singleton.mp ht']
      exact htn
  · intro t'
    have htally := h.tally t'
    have hnew : t ∉ edited log := fun hmem => (h.fresh t ht t hmem).ne rfl
    rw [hr, he, of_concat]
    simp only [hear, Backlog.topics, List.map_append, List.map_cons, List.map_nil,
      Builder.applyAll_topic, List.count_append, List.mem_append, List.mem_singleton]
    simp only [Backlog.topics] at htally
    by_cases htt : t' = t
    · subst htt
      simp [hnew] at htally ⊢
      omega
    · have hzero : List.count t' [t] = 0 := List.count_eq_zero.mpr (by simpa using htt)
      rw [if_congr (or_iff_left htt) rfl rfl, hzero]
      exact htally

theorem change {a : Action} (h : Kept log backlog) (c : Backlog.Change backlog a backlog') :
    Kept (log ++ [a]) backlog' := by
  cases c with
  | edited hm htopic =>
    cases hm with
    | join hb hfit => exact h.join hb htopic
    | begin hnew ht => exact h.begin ht htopic
  | scrubbed rs => exact h.scrub rs
  | dequeued hb => exact h.remove hb rfl rfl (by simp [hear, h.builders, hb])
  | discarded hb => exact h.remove hb rfl rfl (by simp [hear, h.builders, hb])
  | other ha =>
    have hr : removed (log ++ [a]) = removed log := by
      rw [removed_concat]
      cases a <;> first | exact List.append_nil _ | cases ha
    have he : edited (log ++ [a]) = edited log := by
      rw [edited_concat]
      cases a <;> first | exact List.append_nil _ | cases ha
    have hof : of (log ++ [a]) = of log := by rw [of_concat, hear_of_other _ ha]
    refine ⟨?_, ?_, ?_, ?_⟩
    · rw [hof]
      exact h.builders
    · rw [hr]
      exact h.order
    · rw [he]
      exact h.fresh
    · rw [hr, he, hof]
      exact h.tally

/-- The line is told along every trace. -/
theorem of_trace (t : Backlog.Trace backlog log backlog') (hb : backlog.builders = []) :
    Kept log backlog' := by
  induction t with
  | nil => exact of_nil hb
  | concat t c ih => exact ih.change c

end Kept

end Line

/-! ## Queues -/

namespace Queue

variable {others : Sink → Prop} {start q : Queue}

/-- The log of a queue that was new tells the line of its builders. -/
theorem IsNew.kept (hnew : start.IsNew) (h : Path others start q) :
    Line.Kept q.log q.backlog.line :=
  .of_trace (hnew.trace h) hnew.builders_eq

end Queue

end Outbox
