import Outbox.Proofs.Queue.Closing
import Outbox.Proofs.Queue.Hearing
import Outbox.Proofs.Queue.Sinks

/-!
# What a subscriber sees

Whoever watches a request hands a sink to a builder and reads what arrives.  The sink goes with the
builder: it is registered for its topic when the builder is taken and is let go of when the topic is
closed, unless a scrub of the request takes it out on the way.

* `Queue.IsNew.fate` — what became of a builder in which a sink was filed;
* `Queue.Seen` — the sequences of events that a subscriber may see;
* `Queue.subscriber_sees` — every subscription ends after one of them, or after nothing if the
  request was scrubbed or everything was called off.
-/

namespace Outbox

variable {s : Sink} {r : RequestId} {t : Topic} {past future : List Action}

/-- The sink leaves with the builders that are taken. -/
theorem carried_eq (s : Sink) (log : List Action) :
    carried s log = ((log.filterMap Action.taken?).map (Builder.copies s)).sum := by
  induction log with
  | nil => rfl
  | cons a rest ih =>
    rw [carried, List.map_cons, List.sum_cons, ← carried, ih]
    cases a <;> first | rfl | exact Nat.zero_add _

/-! ## Queues -/

namespace Queue

variable {others : Sink → Prop} {start q : Queue} {told : List Chapter}

theorem IsNew.copies_eq (hnew : start.IsNew) (s : Sink) : start.backlog.line.copies s = 0 := by
  rw [Backlog.copies, Backlog.line, hnew.builders_eq]
  rfl

/-- A sink leaves the line no more often than it was put in. -/
theorem IsNew.carried_le (hnew : start.IsNew) (h : Path others start q) :
    carried s q.log ≤ attachments s q.log := by
  have hle := (hnew.trace h).copies_le (s := s)
  rw [hnew.copies_eq] at hle
  omega

/-- **What became of a builder** in which a sink was filed under a request that is answered: it is
in line, it was taken, or the sink is gone. -/
theorem IsNew.fate (hnew : start.IsNew) (h : Path others start q) (hcut : Cut q.log past future)
    (hfiled : Filed s r t past) (hanswered : Answered r t past future) :
    q.backlog.builders ≠ [] ∨
      (∃ b, .dequeued b ∈ future ∧ b.topic = t ∧ b.Watched s r True) ∨
      (Backlog.Scrubbed r t future ∨ ∃ b, .discarded b ∈ future ∧ b.topic = t) ∧
        carried s q.log + 1 ≤ attachments s q.log := by
  obtain ⟨middle, hpast, hfuture⟩ := (hnew.trace h).cut hcut
  obtain ⟨b, hb, rfl, hw⟩ := hpast.watched hfiled
  cases hfuture.fate_of_answered (.of_trace hpast hnew.builders_eq) hb hw hanswered with
  | waits hb' _ _ => exact .inl (List.ne_nil_of_mem hb')
  | taken hb' ht' hw' => exact .inr (.inl ⟨_, hb', ht', hw'⟩)
  | lost hwhy hle =>
    refine .inr (.inr ⟨?_, ?_⟩)
    · rcases hwhy with hscrub | hdiscarded | ⟨hfalse, -⟩
      · exact .inl hscrub
      · exact .inr hdiscarded
      · exact absurd trivial hfalse
    · -- the sink was in line at most as often as it was put in
      have hcopies := hpast.copies_le (s := s)
      rw [hnew.copies_eq] at hcopies
      rw [hcut.carried_eq s, hcut.attachments_eq s]
      omega

/-- A sink is registered in a chapter at most as often as it was in the builder. -/
theorem registrations_le {c : Chapter} (h : c.Proper) : c.registrations s ≤ c.builder.copies s := by
  cases c with
  | skipped b => exact Nat.zero_le _
  | sent b d => exact (Builder.count_sinks h).le
  | failed b d begun cause => exact (Builder.count_sinks h.1).le
  | drained b d => exact (Builder.count_sinks h).le

/-- The chapters are about the builders with which sinks left the line. -/
theorem Written.carried_eq (h : Written told q) (hnone : q.worker.delivery? = none) (s : Sink) :
    carried s q.log = (told.map (fun c => c.builder.copies s)).sum := by
  rw [Outbox.carried_eq, ← taken_eq_filterMap, h.taken_eq hnone, List.map_map]
  rfl

/-- A sink that left with no builder has heard nothing. -/
theorem heard_eq_nil (hproper : ∀ c ∈ told, c.Proper)
    (hnone : (told.map (fun c => c.builder.copies s)).sum = 0) :
    told.flatMap (Chapter.heard s) = [] := by
  refine List.flatMap_eq_nil_iff.mpr fun c hc => ?_
  have hzero : c.builder.copies s = 0 :=
    List.sum_eq_zero_iff.mp hnone _ (List.mem_map_of_mem (f := fun c => c.builder.copies s) hc)
  have hle := registrations_le (s := s) (hproper c hc)
  rw [hzero] at hle
  simp [Chapter.heard, Nat.le_zero.mp hle]

/-- A sink that left with one builder has heard the events of its chapter. -/
theorem heard_eq_events {c : Chapter} (hproper : ∀ c ∈ told, c.Proper) (hc : c ∈ told)
    (hone : (told.map (fun c => c.builder.copies s)).sum ≤ 1) (hreg : 1 ≤ c.registrations s) :
    told.flatMap (Chapter.heard s) = c.events := by
  obtain ⟨left, right, rfl⟩ := List.append_of_mem hc
  have hle := registrations_le (s := s) (hproper c hc)
  simp only [List.map_append, List.map_cons, List.sum_append, List.sum_cons] at hone
  have hleft : left.flatMap (Chapter.heard s) = [] := heard_eq_nil
    (fun c' hc' => hproper c' (List.mem_append_left _ hc')) (by omega)
  have hright : right.flatMap (Chapter.heard s) = [] := heard_eq_nil
    (fun c' hc' => hproper c' (List.mem_append_right _ (List.mem_cons_of_mem _ hc'))) (by omega)
  have hexact : c.registrations s = 1 := by omega
  rw [List.flatMap_append, List.flatMap_cons, hleft, hright, List.nil_append, List.append_nil,
    Chapter.heard, hexact]
  exact List.flatMap_singleton' c.events

/-- The subscriber has seen that its message was queued and sent, that it was queued and failed, or
that it failed when the queue was shut down; and each time it was told the same about the message,
with a status for the request. -/
def Seen (s : Sink) (r : RequestId) (q : Queue) : Prop :=
  ∃ md : Metadata, md.statuses.contains r = true ∧
    (q.post.unread s = [⟨.queued, md⟩, ⟨.sent, md⟩] ∨
      (∃ cause, cause ≠ .shutdown ∧ q.post.unread s = [⟨.queued, md⟩, ⟨.failed cause, md⟩]) ∨
      q.post.unread s = [⟨.failed .shutdown, md⟩])

/-- The events of a chapter about a watched builder are what a subscriber may see. -/
theorem seen_of_events {c : Chapter} (hproper : c.Proper) (hw : c.builder.Watched s r True)
    (hunread : 1 ≤ c.registrations s → q.post.unread s = c.events) : Seen s r q := by
  obtain ⟨d, hd, hcount, hstatus⟩ := hw.finish?
  cases c with
  | skipped b =>
    have hnone : b.finish? = none := hproper
    rw [Chapter.builder, hnone] at hd
    cases hd
  | sent b d' =>
    have hsome : b.finish? = some d' := hproper
    rw [Chapter.builder, hsome] at hd
    cases hd
    exact ⟨d.metadata, hstatus, .inl (hunread hcount)⟩
  | failed b d' begun cause =>
    obtain ⟨hsome, hcause⟩ := hproper
    rw [Chapter.builder, hsome] at hd
    cases hd
    refine ⟨d.metadata, hstatus, .inr (.inl ⟨cause, ?_, hunread hcount⟩)⟩
    rintro rfl
    cases hcause
  | drained b d' =>
    have hsome : b.finish? = some d' := hproper
    rw [Chapter.builder, hsome] at hd
    cases hd
    exact ⟨d.metadata, hstatus, .inr (.inr (hunread hcount))⟩

/-- **What a subscriber sees.**  When the worker is gone, the subscription of a sink that nobody
else touches is over.  If no edits put the sink into a builder, nothing came.  If they did so once,
and the request has a response in the builder then or later, one of the three sequences of events
came, unless none did: then the request was scrubbed from that builder, by later edits or with all
builders in line; or everything was called off and the builder was thrown away. -/
theorem subscriber_sees (hnew : start.IsNew) (h : Path (· ≠ s) start q)
    (hstop : q.isStopped = true) :
    q.holds s = false ∧ (attachments s q.log = 0 → q.post.unread s = []) ∧
    (attachments s q.log = 1 → ∀ r t past future, Cut q.log past future → Filed s r t past →
      Answered r t past future →
      Seen s r q ∨ (q.post.unread s = [] ∧
        (Backlog.Scrubbed r t future ∨
          (q.cancelled = true ∧ ∃ b, .discarded b ∈ future ∧ b.topic = t)))) := by
  have hgone := isStopped_iff.mp hstop
  have horderly := hnew.orderly h
  have hempty := horderly.builders_eq hstop
  have hnone : q.worker.delivery? = none := by
    rw [hgone]
    rfl
  have hheard := hnew.heard h
  obtain ⟨told, hwritten⟩ := hnew.written h
  have hunread := hnew.unread_eq h hwritten hnone
  have hcarried := hwritten.carried_eq hnone s
  have hle := hnew.carried_le (s := s) h
  refine ⟨?_, ?_, ?_⟩
  · have hphase : q.bus.phase = .stopped := by
      rw [hheard.phase, hgone]
      rfl
    rw [holds, Backlog.holds, hempty, Bus.holds, hheard.ended hphase]
    rfl
  · intro hzero
    rw [hunread]
    exact heard_eq_nil hwritten.proper (by omega)
  · intro hone r t past future hcut hfiled hanswered
    rcases hnew.fate h hcut hfiled hanswered with hleft | ⟨b, hb, -, hw⟩ | ⟨hwhy, hlost⟩
    · exact absurd hempty hleft
    · have htaken : b ∈ told.map Chapter.builder := by
        rw [← hwritten.taken_eq hnone, mem_taken]
        exact hcut.mem_of_mem_future hb rfl
      obtain ⟨c, hc, rfl⟩ := List.mem_map.mp htaken
      refine .inl (seen_of_events (hwritten.proper c hc) hw fun hreg => ?_)
      rw [hunread]
      exact heard_eq_events hwritten.proper hc (by omega) hreg
    · refine .inr ⟨?_, ?_⟩
      · rw [hunread]
        exact heard_eq_nil hwritten.proper (by omega)
      · rcases hwhy with hscrub | ⟨b, hb, ht⟩
        · exact .inl hscrub
        · exact .inr ⟨horderly.cancelled_of_discarded hstop (hcut.mem_of_mem_future hb rfl),
            b, hb, ht⟩

/-- A request is watched whose message is sent before the queue is shut down. -/
theorem subscriber_sees_of_sent :
    let start : Queue := { peer := Peer.zero, settings := {} }
    let watch : Edit := .addNotifee default ⟨7⟩
    let status : Edit := .setStatus default .requestAcknowledged
    let moves : List Move := [.startup, .work none, .work none, .work (some .opened),
      .work (some .sent), .shutdown, .work none, .work (some .resetDone)]
    let q := (start.step (.reserve 0 0 [watch, status])).run moves
    q.isStopped = true ∧ attachments ⟨7⟩ q.log = 1 ∧ q.holds ⟨7⟩ = false ∧
      (q.post.unread ⟨7⟩).length = 2 ∧ Seen ⟨7⟩ default q := by
  intro start watch status moves q
  have hnew : start.IsNew := rfl
  have hmoves : ∀ m ∈ moves, ∀ s' ∈ sinkOf? m, s' ≠ ⟨7⟩ := by simp [moves, sinkOf?]
  have hfirst : Path (· ≠ ⟨7⟩) start (start.step (.reserve 0 0 [watch, status])) :=
    step_path start _ (by simp [sinkOf?])
  have hrest : Path (· ≠ ⟨7⟩) (start.step (.reserve 0 0 [watch, status])) q := run_path hmoves
  have hstop : q.isStopped = true := by decide +kernel
  have hone : attachments ⟨7⟩ q.log = 1 := by decide +kernel
  have htwo : (q.post.unread ⟨7⟩).length = 2 := by decide +kernel
  obtain ⟨post, hlog⟩ := hrest.log_prefix
  -- the sink is filed first, and the status is set by the same producer
  let report : EditReport := Backlog.report { topic := Topic.first } [watch, status]
  have hcut : Cut q.log [.mutated 0 [watch] report] (.mutated 0 [status] report :: post) :=
    ⟨[], 0, [watch], [status], report, post, hlog.symm, rfl, rfl⟩
  have hfiled : Filed ⟨7⟩ default Topic.first [.mutated 0 [watch] report] :=
    ⟨[], 0, [], report, rfl, rfl⟩
  have hanswered : Answered default Topic.first [.mutated 0 [watch] report]
      (.mutated 0 [status] report :: post) :=
    ⟨[.mutated 0 [status] report], .mutated 0 [] report :: post,
      ⟨[], 0, [status], [], report, post, rfl, rfl, rfl⟩, by decide⟩
  obtain ⟨hend, -, hsees⟩ := subscriber_sees hnew (hfirst.trans hrest) hstop
  refine ⟨hstop, hone, hend, htwo, ?_⟩
  refine (hsees hone default Topic.first _ _ hcut hfiled hanswered).resolve_right ?_
  rintro ⟨hnil, -⟩
  rw [hnil] at htwo
  cases htwo

end Queue

end Outbox
