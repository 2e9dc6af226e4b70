import Outbox.Proofs.Message.Backlog
import Outbox.Queue.Worker

/-!
# What the worker tells its publisher

The worker makes two kinds of calls on its publisher: it publishes a step in the life of a message
and it closes a topic.  This file describes the sequences of such calls in which a worker's whole
life can be told: messages that were sent, then at most one whose delivery failed, then those that
were reported as failed by the shutdown.

* `Report`, `Queue.reports` — one call, and the calls made so far;
* `History` — a worker's life, as a list of topics for each fate of a message;
* `History.reports` — the calls in which it is told;
* `History.reports_on` — a topic that was announced gets exactly one outcome and is closed then;
* `History.reports_closed` — nothing follows a close;
* `History.reports_pairwise` — nothing is announced or sent after the first failure.
-/

namespace Outbox

/-! ## Calls -/

/-- A call of the worker on its publisher. -/
inductive Report where
  /-- It publishes a step in the life of the message with this topic. -/
  | published (topic : Topic) (stage : Stage)
  /-- It closes the topic. -/
  | closed (topic : Topic)
deriving DecidableEq

/-- The call that an action is, if it is one. -/
def Action.report? : Action → Option Report
  | .published t event _ => some (.published t event.stage)
  | .closed t => some (.closed t)
  | _ => none

/-- The calls made so far, in order. -/
def Queue.reports (q : Queue) : List Report := q.log.filterMap Action.report?

namespace Report

/-- The topic that a call is about. -/
def topic : Report → Topic
  | published t _ => t
  | closed t => t

/-- A failure is published. -/
def isFailure : Report → Bool
  | published _ (.failed _) => true
  | _ => false

/-- A message is announced or reported as sent. -/
def isProgress : Report → Bool
  | published _ .queued => true
  | published _ .sent => true
  | _ => false

end Report

/-- The failure of one delivery, rather than of the whole queue. -/
def QueueError.isOfDelivery : QueueError → Bool
  | .senderOpen .. => true
  | .sendFailed .. => true
  | .cancelled _ => true
  | _ => false

/-! ## Histories -/

/-- What became of the messages that a worker has reported on, by their topics. -/
structure History where
  /-- They were sent, in this order. -/
  sent : List Topic := []
  /-- Its delivery failed. -/
  failed : Option (Topic × QueueError) := none
  /-- They were left when the worker was shut down, in this order. -/
  drained : List Topic := []

namespace History

/-- The calls about a message that was sent. -/
def sentReports (t : Topic) : List Report :=
  [.published t .queued, .published t .sent, .closed t]

/-- The calls about a message whose delivery failed. -/
def failedReports (f : Topic × QueueError) : List Report :=
  [.published f.1 .queued, .published f.1 (.failed f.2), .closed f.1]

/-- The calls about a message that was left when the worker was shut down. -/
def drainedReports (t : Topic) : List Report :=
  [.published t (.failed .shutdown), .closed t]

/-- The calls in which a history is told. -/
def reports (w : History) : List Report :=
  w.sent.flatMap sentReports ++ (w.failed.toList.flatMap failedReports ++
    w.drained.flatMap drainedReports)

/-- The topics in the order of their reports. -/
def topics (w : History) : List Topic :=
  w.sent ++ (w.failed.toList.map Prod.fst ++ w.drained)

/-- The topics come in the order in which they were handed out, and the failure is one of a
delivery. -/
structure Proper (w : History) : Prop where
  /-- Topics only increase. -/
  increasing : w.topics.Pairwise Topic.Before
  /-- The failed delivery has a cause of its own. -/
  cause : ∀ f ∈ w.failed, f.2.isOfDelivery = true

/-! ### The calls about one topic -/

/-- Among the calls about several topics, each listed once, those about one topic stand
together. -/
theorem filter_flatMap_topic {g : Topic → List Report} (hg : ∀ t, ∀ r ∈ g t, r.topic = t)
    {ts : List Topic} (hn : ts.Nodup) (t : Topic) :
    (ts.flatMap g).filter (fun r => r.topic = t) = if t ∈ ts then g t else [] := by
  induction ts with
  | nil => simp
  | cons s rest ih =>
    obtain ⟨hs, hrest⟩ := List.nodup_cons.mp hn
    rw [List.flatMap_cons, List.filter_append, ih hrest]
    by_cases hst : s = t
    · subst hst
      have hall : (g s).filter (fun r => r.topic = s) = g s :=
        List.filter_eq_self.mpr fun r hr => by simpa using hg s r hr
      simp [hs, hall]
    · have hnone : (g s).filter (fun r => r.topic = t) = [] := by
        refine List.filter_eq_nil_iff.mpr fun r hr => ?_
        rw [hg s r hr]
        simpa using hst
      simp [hnone, Ne.symm hst]

theorem topic_of_mem_sentReports (t : Topic) : ∀ r ∈ sentReports t, r.topic = t := by
  intro r hr
  simp only [sentReports, List.mem_cons, List.not_mem_nil, or_false] at hr
  rcases hr with rfl | rfl | rfl <;> rfl

theorem topic_of_mem_drainedReports (t : Topic) : ∀ r ∈ drainedReports t, r.topic = t := by
  intro r hr
  simp only [drainedReports, List.mem_cons, List.not_mem_nil, or_false] at hr
  rcases hr with rfl | rfl <;> rfl

/-- The call about a failed delivery, if it is about this topic. -/
theorem filter_failed (f : Option (Topic × QueueError)) (t : Topic) :
    (f.toList.flatMap failedReports).filter (fun r => r.topic = t) =
      (f.filter (fun f => f.1 = t)).toList.flatMap failedReports := by
  cases f with
  | none => rfl
  | some f =>
    by_cases hft : f.1 = t
    · simp [hft, Option.filter_some, failedReports, Report.topic]
    · simp [hft, Option.filter_some, failedReports, Report.topic]

/-- **One outcome for each message.**  The calls about a topic are those of one message that was
sent, failed or was left; a message that was announced has one outcome, is closed then, and nothing
comes after that. -/
theorem reports_on {w : History} (hw : w.Proper) (t : Topic) :
    w.reports.filter (fun r => r.topic = t) = sentReports t ∨
      (∃ c, c.isOfDelivery = true ∧
        w.reports.filter (fun r => r.topic = t) = failedReports (t, c)) ∨
      w.reports.filter (fun r => r.topic = t) = drainedReports t ∨
      w.reports.filter (fun r => r.topic = t) = [] := by
  have hn : w.topics.Nodup := hw.increasing.imp fun h => h.ne
  obtain ⟨hsent, hrest, hdisj⟩ := List.nodup_append.mp hn
  obtain ⟨-, hdrained, hdisj'⟩ := List.nodup_append.mp hrest
  simp only [reports, List.filter_append, filter_failed,
    filter_flatMap_topic topic_of_mem_sentReports hsent,
    filter_flatMap_topic topic_of_mem_drainedReports hdrained]
  by_cases hf : ∃ f ∈ w.failed, f.1 = t
  · obtain ⟨f, hfm, rfl⟩ := hf
    have hmem : f.1 ∈ w.failed.toList.map Prod.fst :=
      List.mem_map_of_mem (Option.mem_toList.mpr hfm)
    have hs : f.1 ∉ w.sent := fun hs => hdisj f.1 hs f.1 (List.mem_append_left _ hmem) rfl
    have hd : f.1 ∉ w.drained := fun hd => hdisj' f.1 hmem f.1 hd rfl
    have hfailed : w.failed = some f := hfm
    exact .inr (.inl ⟨f.2, hw.cause f hfm, by simp [hs, hd, hfailed, Option.filter_some]⟩)
  · have hnone : w.failed.filter (fun f => f.1 = t) = none := by
      refine Option.filter_eq_none_iff.mpr fun f hfm => ?_
      simpa using fun hft => hf ⟨f, hfm, hft⟩
    by_cases hs : t ∈ w.sent
    · have hd : t ∉ w.drained := fun hd => hdisj t hs t (List.mem_append_right _ hd) rfl
      exact .inl (by simp [hs, hd, hnone])
    · by_cases hd : t ∈ w.drained
      · exact .inr (.inr (.inl (by simp [hs, hd, hnone])))
      · exact .inr (.inr (.inr (by simp [hs, hd, hnone])))

/-- **Nothing follows a close.** -/
theorem reports_closed {w : History} (hw : w.Proper) :
    w.reports.Pairwise (fun r r' => r ≠ .closed r'.topic) := by
  refine List.pairwise_iff_forall_sublist.mpr fun {r r'} hsub hr => ?_
  subst hr
  have hpair := hsub.filter (fun r => r.topic = r'.topic)
  rw [List.filter_eq_self.mpr (by simp [Report.topic])] at hpair
  have hlist : ∀ l : List Report, l = sentReports r'.topic ∨
      (∃ c, l = failedReports (r'.topic, c)) ∨ l = drainedReports r'.topic ∨ l = [] →
      ¬ [.closed r'.topic, r'].Sublist l := by
    rintro l (rfl | ⟨c, rfl⟩ | rfl | rfl) h <;>
      simp [sentReports, failedReports, drainedReports, List.sublist_cons_iff] at h
  refine hlist _ ?_ hpair
  rcases reports_on hw r'.topic with h | ⟨c, -, h⟩ | h | h
  · exact .inl h
  · exact .inr (.inl ⟨c, h⟩)
  · exact .inr (.inr (.inl h))
  · exact .inr (.inr (.inr h))

/-- **Nothing is announced or sent after the first failure.** -/
theorem reports_pairwise (w : History) :
    w.reports.Pairwise (fun r r' => r.isFailure = true → r'.isProgress = false) := by
  have hsent : ∀ r ∈ w.sent.flatMap sentReports, r.isFailure = false := by
    intro r hr
    obtain ⟨t, -, hr⟩ := List.mem_flatMap.mp hr
    simp only [sentReports, List.mem_cons, List.not_mem_nil, or_false] at hr
    rcases hr with rfl | rfl | rfl <;> rfl
  have hdrained : ∀ r ∈ w.drained.flatMap drainedReports, r.isProgress = false := by
    intro r hr
    obtain ⟨t, -, hr⟩ := List.mem_flatMap.mp hr
    simp only [drainedReports, List.mem_cons, List.not_mem_nil, or_false] at hr
    rcases hr with rfl | rfl <;> rfl
  unfold reports
  refine List.pairwise_append.mpr ⟨?_, List.pairwise_append.mpr ⟨?_, ?_, ?_⟩, ?_⟩
  · exact List.Pairwise.imp_of_mem (fun hr _ _ hfail => by simp [hsent _ hr] at hfail)
      (List.pairwise_of_forall (fun _ _ => trivial))
  · cases w.failed with
    | none => simp
    | some f => simp [failedReports, Report.isFailure, Report.isProgress]
  · exact List.Pairwise.imp_of_mem (fun _ hr' _ _ => hdrained _ hr')
      (List.pairwise_of_forall (fun _ _ => trivial))
  · exact fun r _ r' hr' _ => hdrained r' hr'
  · exact fun r hr r' _ hfail => by simp [hsent r hr] at hfail

end History

end Outbox
