import Outbox.Proofs.Queue.History
import Outbox.Proofs.Queue.Outcome

/-!
# The life of every message is told in order

Whatever producers, the owner of the queue and the network do, the calls of the worker on its
publisher tell a history: messages that were sent, at most one whose delivery failed, and the
messages that were left when the worker was shut down, in the order of their topics.

* `Queue.Told` — a history is told so far, with at most one message announced beyond it, and the
  builders in line come after all of it;
* `Queue.Chronicled` — the invariant: such a history exists, and the place where the worker stands
  says how it may go on;
* `Queue.chronicled_step` — every move keeps the invariant.
-/

namespace Outbox

namespace Queue

variable {q q' : Queue}

/-! ## Which operations report -/

@[simp] theorem reports_note (q : Queue) (a : Action) :
    (q.note a).reports = q.reports ++ a.report?.toList := by
  unfold reports note
  rw [List.filterMap_append]
  cases h : a.report? <;> simp [h]

/-- Most actions are no calls on the publisher. -/
theorem reports_note_silent (q : Queue) {a : Action} (h : a.report? = none) :
    (q.note a).reports = q.reports := by
  rw [reports_note, h]
  exact List.append_nil _

@[simp] theorem reports_release (q : Queue) (n : Nat) : (q.release n).reports = q.reports := by
  unfold release
  split
  · rfl
  · split
    · rename_i pool _
      exact reports_note_silent { q with pool } rfl
    · exact reports_note_silent q rfl

@[simp] theorem reports_scrub (q : Queue) (rs : List RequestId) :
    (q.scrub rs).reports = q.reports := by
  unfold scrub
  rw [reports_release]
  exact reports_note_silent { q with backlog := q.backlog.scrub rs } rfl

@[simp] theorem reports_publish (q : Queue) (t : Topic) (e : Event) :
    (q.publish t e).reports = q.reports ++ [.published t e.stage] :=
  reports_note _ _

@[simp] theorem reports_closeTopic (q : Queue) (t : Topic) :
    (q.closeTopic t).reports = q.reports ++ [.closed t] :=
  reports_note _ _

theorem reports_append_of_silent {entries : List Action} (h : ∀ a ∈ entries, a.report? = none)
    (q : Queue) : ({ q with log := q.log ++ entries } : Queue).reports = q.reports := by
  have hnil : entries.filterMap Action.report? = [] :=
    List.filterMap_eq_nil_iff.mpr h
  show (q.log ++ entries).filterMap Action.report? = _
  rw [List.filterMap_append, hnil, List.append_nil]
  rfl

@[simp] theorem reports_closeStreams (q : Queue) (d : Finished) :
    (q.closeStreams d).reports = q.reports := by
  rw [closeStreams_eq]
  refine reports_append_of_silent ?_ q
  intro a ha
  obtain ⟨s, -, rfl⟩ := List.mem_map.mp ha
  rfl

@[simp] theorem reports_subscribeAll (q : Queue) (d : Finished) :
    (q.subscribeAll d).reports = q.reports := by
  rw [subscribeAll_eq]
  refine reports_append_of_silent ?_ q
  intro a ha
  obtain ⟨s, -, rfl⟩ := List.mem_map.mp ha
  rfl

@[simp] theorem reports_closeBacklog (q : Queue) : q.closeBacklog.reports = q.reports := by
  refine reports_append_of_silent ?_ q
  intro a ha
  obtain ⟨b, -, rfl⟩ := List.mem_map.mp ha
  rfl

@[simp] theorem reports_fail (q : Queue) (d : Finished) (cause : QueueError) :
    (q.fail d cause).reports = q.reports ++ [.published d.topic (.failed cause)] := by
  simp [fail]

theorem reports_failDelivery (q : Queue) (d : Finished) (cause : QueueError) :
    (q.failDelivery d cause).reports =
      q.reports ++ [.published d.topic (.failed cause), .closed d.topic] := by
  show (closeTopic { q.fail d cause with stopRequested := true } d.topic).reports = _
  rw [reports_closeTopic]
  show (q.fail d cause).reports ++ _ = _
  rw [reports_fail, List.append_assoc]
  rfl

theorem reports_completeDelivery (q : Queue) (d : Finished) :
    (q.completeDelivery d).reports =
      q.reports ++ [.published d.topic .sent, .closed d.topic] := by
  show (closeTopic ((q.publish d.topic ⟨.sent, d.metadata⟩).release d.size) d.topic).reports = _
  simp

theorem reports_beginDelivery (q : Queue) (d : Finished) (sender : Bool) :
    (q.beginDelivery d sender).reports = q.reports ++ [.published d.topic .queued] := by
  have h : ((q.subscribeAll d).publish d.topic ⟨.queued, d.metadata⟩).reports =
      q.reports ++ [.published d.topic .queued] := by simp
  unfold beginDelivery
  cases sender with
  | true => exact (reports_note _ _).trans (by simp [h, Action.report?])
  | false => exact (reports_note _ _).trans (by simp [h, Action.report?])

/-! ## What is told so far -/

/-- The history `w` is told, then the messages with the topics `current` were announced, and the
builders in line come after them. -/
structure Told (w : History) (current : List Topic) (q : Queue) : Prop where
  /-- These are the calls made so far. -/
  reports : q.reports = w.reports ++ current.map (.published · .queued)
  /-- The builders in line have later topics. -/
  later : q.backlog.ComesAfter (w.topics ++ current)

/-- A change of the queue that makes no call and moves no worker. -/
structure Aside (q q' : Queue) : Prop where
  /-- No call is made. -/
  reports : q'.reports = q.reports
  /-- The worker stands where it stood. -/
  worker : q'.worker = q.worker
  /-- A worker that is asked to stop stays so. -/
  stop : q.stopRequested = true → q'.stopRequested = true
  /-- The backlog goes on. -/
  backlog : q.backlog.Follows q'.backlog

theorem Told.aside {w : History} {current : List Topic} (h : Told w current q)
    (ha : Aside q q') : Told w current q' :=
  ⟨ha.reports.trans h.reports, h.later.follows ha.backlog⟩

/-- The drain adds to the history what it finds in line. -/
theorem Drains.told {w : History} (t : Drains q q') (h : Told w [] q) :
    ∃ ts, Told { w with drained := w.drained ++ ts } [] q' := by
  induction t generalizing w with
  | @done q hb =>
    refine ⟨[], ?_, ?_⟩
    · simpa using h.reports
    · have hclosed : q.closeBacklog.backlog.ComesAfter (w.topics ++ []) := h.later.close
      simpa only [List.append_nil] using hclosed
  | @skip q q' b rest hb hf t ih =>
    refine ih ⟨?_, h.later.skip hb⟩
    exact (reports_note_silent q rfl).trans h.reports
  | @report q q' b rest d hb hf t ih =>
    have htopic : d.topic = b.topic := (Builder.finish?_eq_some hf).2.1
    have htold : Told { w with drained := w.drained ++ [d.topic] } []
        ((q.withoutHead b rest).reportShutdown d) := by
      refine ⟨?_, ?_⟩
      · have hq : (q.withoutHead b rest).reports = q.reports := reports_note_silent _ rfl
        simp [reportShutdown, hq, h.reports, History.reports, History.drainedReports]
      · have hlater := (h.later.take hb).follows (Backlog.follows_scrub _ d.requests)
        rw [reportShutdown_backlog]
        simpa [History.topics, htopic, withoutHead, note] using hlater
    obtain ⟨ts, hts⟩ := ih htold
    refine ⟨d.topic :: ts, ?_⟩
    simpa using hts

/-! ## The worker -/

end Queue

/-- The topic of the message under way, if there is one. -/
def Worker.underWay : Worker → List Topic
  | .opening d => [d.topic]
  | .sending d => [d.topic]
  | .resetting d _ => [d.topic]
  | _ => []

/-- What the place of the worker says about the history: nothing is drained before it leaves its
loop, and after a failed delivery it is asked to stop. -/
def Worker.Allows (w : History) (stopRequested : Bool) : Worker → Prop
  | .opening _ => w.drained = [] ∧ w.failed = none
  | .sending _ => w.drained = [] ∧ w.failed = none
  | .resetting _ cause => w.drained = [] ∧ w.failed = none ∧ cause.isOfDelivery = true
  | .parting => True
  | .stopped => True
  | _ => w.drained = [] ∧ (w.failed.isSome = true → stopRequested = true)

/-- A worker may stand where it stood when it is asked to stop. -/
theorem Worker.Allows.mono {w : History} {stop stop' : Bool} {worker : Worker}
    (h : worker.Allows w stop) (hs : stop = true → stop' = true) : worker.Allows w stop' := by
  cases worker with
  | unstarted => exact ⟨h.1, fun hf => hs (h.2 hf)⟩
  | launched => exact ⟨h.1, fun hf => hs (h.2 hf)⟩
  | choosing sender => exact ⟨h.1, fun hf => hs (h.2 hf)⟩
  | opening d => exact h
  | sending d => exact h
  | resetting d cause => exact h
  | parting => trivial
  | stopped => trivial

namespace Queue

variable {q q' : Queue} {w : History}

/-- The history `w` is the one of this queue. -/
structure Chronicle (w : History) (q : Queue) : Prop where
  /-- The failed delivery has a cause of its own. -/
  cause : ∀ f ∈ w.failed, f.2.isOfDelivery = true
  /-- The history is told, and the message under way is announced. -/
  told : Told w q.worker.underWay q
  /-- The worker stands where the history lets it stand. -/
  stands : q.worker.Allows w q.stopRequested

/-- The calls made so far tell a history. -/
def Chronicled (q : Queue) : Prop := ∃ w, Chronicle w q

theorem Chronicled.aside (h : q.Chronicled) (ha : Aside q q') : q'.Chronicled := by
  obtain ⟨w, hcause, htold, hstands⟩ := h
  refine ⟨w, hcause, ?_, ?_⟩
  · rw [ha.worker]
    exact htold.aside ha
  · rw [ha.worker]
    exact hstands.mono ha.stop

/-- A worker that leaves its loop tells nothing more. -/
theorem Told.leave (h : Told w [] q) (sender : Bool) : Told w [] (q.leave sender) := by
  cases sender with
  | true => exact ⟨(reports_note_silent q rfl).trans h.reports, h.later⟩
  | false =>
    refine ⟨?_, h.later.close⟩
    have hq : q.teardown.reports = q.reports := by
      have hp : (q.closeBacklog.note (.releasePeer q.peer)).reports = q.reports :=
        (reports_note_silent _ rfl).trans (reports_closeBacklog q)
      exact (reports_note_silent _ rfl).trans hp
    exact hq.trans h.reports

theorem chronicled_leave (hcause : ∀ f ∈ w.failed, f.2.isOfDelivery = true) (h : Told w [] q)
    (sender : Bool) : (q.leave sender).Chronicled := by
  refine ⟨w, hcause, ?_, ?_⟩
  · have hu : (q.leave sender).worker.underWay = [] := by
      rw [leave_worker]
      cases sender <;> rfl
    rw [hu]
    exact h.leave sender
  · rw [leave_worker]
    cases sender <;> trivial

theorem Choice.chronicled {sender : Bool} (t : Choice sender q q')
    (hcause : ∀ f ∈ w.failed, f.2.isOfDelivery = true) (h : Told w [] q)
    (hdrained : w.drained = []) (hstop : w.failed.isSome = true → q.stopRequested = true) :
    q'.Chronicled := by
  cases t with
  | callOff hc => exact chronicled_leave hcause h sender
  | stop hc hs t =>
    obtain ⟨ts, hts⟩ := t.told (w := w) ⟨h.reports, h.later⟩
    exact chronicled_leave (w := { w with drained := w.drained ++ ts }) hcause hts sender
  | rest hc hs ht => exact ⟨w, hcause, ⟨h.reports, h.later⟩, hdrained, hstop⟩
  | idle hc hs ht hb => exact ⟨w, hcause, ⟨h.reports, h.later⟩, hdrained, hstop⟩
  | @skip b rest hc hs ht hb hf =>
    have hr : (q.takeHead b rest).reports = q.reports := reports_note_silent _ rfl
    exact ⟨w, hcause, ⟨hr.trans h.reports, h.later.skip hb⟩, hdrained, hstop⟩
  | @deliver b rest d hc hs ht hb hf =>
    have htopic : d.topic = b.topic := (Builder.finish?_eq_some hf).2.1
    have hfailed : w.failed = none := by
      cases hwf : w.failed with
      | none => rfl
      | some f => rw [hstop (by rw [hwf]; rfl)] at hs; cases hs
    have hr : (q.takeHead b rest).reports = q.reports := reports_note_silent _ rfl
    have htold : Told w [d.topic] ((q.takeHead b rest).beginDelivery d sender) := by
      refine ⟨?_, ?_⟩
      · rw [reports_beginDelivery, hr, h.reports]
        simp
      · have hlater := h.later.take hb
        rw [beginDelivery_backlog, htopic]
        simpa [takeHead, withoutHead, note] using hlater
    cases sender with
    | true => exact ⟨w, hcause, htold, hdrained, hfailed⟩
    | false => exact ⟨w, hcause, htold, hdrained, hfailed⟩

/-- A failed delivery ends the history of the deliveries. -/
theorem chronicled_failDelivery {d : Finished} {cause : QueueError} (h : Told w [d.topic] q)
    (hdrained : w.drained = []) (hfailed : w.failed = none)
    (hcause : cause.isOfDelivery = true) : (q.failDelivery d cause).Chronicled := by
  refine ⟨{ w with failed := some (d.topic, cause) }, ?_, ⟨?_, ?_⟩, hdrained, fun _ => rfl⟩
  · intro f hf
    cases hf
    exact hcause
  · rw [reports_failDelivery, h.reports]
    simp [History.reports, History.failedReports, hdrained, hfailed, failDelivery,
      Worker.underWay]
  · have hlater := h.later.follows (Backlog.follows_scrub _ d.requests)
    rw [failDelivery_backlog]
    simpa [History.topics, hdrained, hfailed, failDelivery, Worker.underWay] using hlater

theorem Turn.chronicled (t : Turn q q') (h : q.Chronicled) : q'.Chronicled := by
  obtain ⟨w, hcause, htold, hstands⟩ := h
  cases t with
  | wait => exact ⟨w, hcause, htold, hstands⟩
  | start hw t =>
    rw [hw] at htold hstands
    have hr : q.openBus.reports = q.reports := reports_note_silent _ rfl
    exact t.chronicled hcause ⟨hr.trans htold.reports, htold.later⟩ hstands.1 hstands.2
  | choose hw t =>
    rw [hw] at htold hstands
    exact t.chronicled hcause htold hstands.1 hstands.2
  | callOffOpen hw hc =>
    rw [hw] at htold hstands
    exact chronicled_failDelivery htold hstands.1 hstands.2 rfl
  | @opened d hw hc =>
    rw [hw] at htold hstands
    have hopen : (q.note .opened).reports = q.reports := reports_note_silent _ rfl
    have hr : ((q.note .opened).note (.sending d.message)).reports = q.reports :=
      (reports_note_silent _ rfl).trans hopen
    exact ⟨w, hcause, ⟨hr.trans htold.reports, htold.later⟩, hstands⟩
  | openFailed hw hc e =>
    rw [hw] at htold hstands
    exact chronicled_failDelivery htold hstands.1 hstands.2 rfl
  | callOffSend hw hc =>
    rw [hw] at htold hstands
    have hr : (q.note .senderReset).reports = q.reports := reports_note_silent _ rfl
    exact ⟨w, hcause, ⟨hr.trans htold.reports, htold.later⟩, hstands.1, hstands.2, rfl⟩
  | @sent d hw hc =>
    rw [hw] at htold hstands
    obtain ⟨hdrained, hfailed⟩ := hstands
    refine ⟨{ w with sent := w.sent ++ [d.topic] }, hcause, ⟨?_, ?_⟩, hdrained, ?_⟩
    · have hr : (q.note .sendOk).reports = q.reports := reports_note_silent _ rfl
      rw [reports_completeDelivery, hr, htold.reports]
      simp [History.reports, History.sentReports, hdrained, hfailed, completeDelivery,
        Worker.underWay]
    · have hlater := htold.later
      simpa [History.topics, hdrained, hfailed, completeDelivery, closeTopic, publish, note,
        Worker.underWay] using hlater
    · intro hf
      rw [show w.failed = none from hfailed] at hf
      cases hf
  | sendFailed hw hc e =>
    rw [hw] at htold hstands
    have hr : ((q.note (.sendFailed e)).note .senderReset).reports = q.reports :=
      (reports_note_silent _ rfl).trans (reports_note_silent _ rfl)
    exact ⟨w, hcause, ⟨hr.trans htold.reports, htold.later⟩, hstands.1, hstands.2, rfl⟩
  | resetDone hw =>
    rw [hw] at htold hstands
    exact chronicled_failDelivery htold hstands.1 hstands.2.1 hstands.2.2
  | part hw =>
    rw [hw] at htold
    exact chronicled_leave hcause htold false

/-! ## Everyone else -/

theorem aside_mutate (q : Queue) (p size : Nat) (edits : List Edit) :
    Aside q (q.mutate p size edits) := by
  have he := mutate_editing q p size edits
  generalize q.mutate p size edits = q' at he
  cases he with
  | refused hr =>
    refine ⟨?_, release_worker q size, fun hs => (release_stopRequested q size).trans hs, ?_⟩
    · rw [reports_note_silent _ rfl, reports_release]
    · show q.backlog.Follows (q.release size).backlog
      rw [release_backlog]
      exact .refl _
  | @done report backlog hc hm =>
    have hr : ({ q with backlog }.note (.mutated p edits report)).reports = q.reports :=
      reports_note_silent _ rfl
    exact ⟨hr, rfl, id, hm.follows⟩

theorem aside_answer (q : Queue) (t : Ticket) (size : Nat) (edits : List Edit) (grant : Grant) :
    Aside q (q.answer t size edits grant) := by
  cases grant with
  | granted =>
    have hm := aside_mutate (q.note (.allocated t size none)) t size edits
    refine ⟨hm.reports.trans (reports_note_silent q rfl), hm.worker, hm.stop, hm.backlog⟩
  | refused e =>
    have hr : ((q.note (.allocated t size (some e))).note (.skipped t)).reports = q.reports :=
      (reports_note_silent _ rfl).trans (reports_note_silent _ rfl)
    exact ⟨hr, rfl, id, .refl _⟩

theorem Arrival.aside {t : Ticket} {size : Nat} {edits : List Edit}
    (a : Arrival q t size edits q') : Aside q q' := by
  cases a with
  | free hs => exact aside_mutate q t 0 edits
  | callOff hs hc => exact ⟨reports_note_silent _ rfl, rfl, id, .refl _⟩
  | @answered grant pool hs hc ha =>
    have hm := aside_answer { q.ask t size with pool } t size edits grant
    have hr : ({ q.ask t size with pool } : Queue).reports = q.reports :=
      reports_note_silent q (a := .allocate t size) rfl
    exact ⟨hm.reports.trans hr, hm.worker, hm.stop, hm.backlog⟩
  | wait hs hc ha =>
    exact ⟨reports_note_silent q (a := .allocate t size) rfl, rfl, id, .refl _⟩

theorem Return.aside {t : Ticket} {edits : List Edit} (r : Return q t edits q') :
    Aside q q' := by
  cases r with
  | unknown hw => exact ⟨rfl, rfl, id, .refl _⟩
  | callOff hw hc =>
    exact ⟨reports_note_silent q (a := .skipped t) rfl, rfl, id, .refl _⟩
  | @answered size grant pool hw hc ha =>
    have hm := aside_answer ({ q with pool }.forgetProducer t) t size edits grant
    exact ⟨hm.reports, hm.worker, hm.stop, hm.backlog⟩
  | wait hw hc ha => exact ⟨rfl, rfl, id, .refl _⟩

theorem aside_scrub (q : Queue) (rs : List RequestId) : Aside q (q.scrub rs) := by
  refine ⟨reports_scrub q rs, scrub_worker q rs, (scrub_stopRequested q rs).trans, ?_⟩
  rw [scrub_backlog]
  exact q.backlog.follows_scrub rs

theorem aside_abandon (q : Queue) (t : Ticket) : Aside q (q.abandon t) := by
  unfold Queue.abandon
  split <;> exact ⟨rfl, rfl, id, .refl _⟩

/-- The moves of others than the worker tell nothing. -/
theorem chronicled_step (q : Queue) (m : Move) (h : q.Chronicled) : (q.step m).Chronicled := by
  have t := step_outcome q m
  generalize q.step m = q' at t
  cases t with
  | refused _ => exact h
  | @arrived t size edits hr ht => exact h.aside (reserve_arrival q t size edits).aside
  | @returned t edits => exact h.aside (resume_return q t edits).aside
  | @abandoned t => exact h.aside (aside_abandon q t)
  | launched hr hw =>
    obtain ⟨w, hcause, htold, hstands⟩ := h
    rw [hw] at htold hstands
    exact ⟨w, hcause, ⟨htold.reports, htold.later⟩, hstands⟩
  | @scrubbed rs hr => exact h.aside (aside_scrub q rs)
  | @worked reply => exact (work_turn q reply).chronicled h
  | dropped hr hw hp =>
    have hreports := reports_closeBacklog { q with reachable := false, stopRequested := true }
    exact h.aside ⟨hreports, rfl, fun _ => rfl, .inl ⟨List.nil_sublist _, rfl⟩⟩
  | shared ho hk => exact h.aside ⟨rfl, rfl, id, .refl _⟩
  | withheld => exact h.aside ⟨rfl, rfl, id, .refl _⟩
  | aside hproducer hr hs hc => exact h.aside ⟨rfl, rfl, hs, .refl _⟩

/-! ## The whole life -/

theorem chronicled_of_isNew (h : q.IsNew) : q.Chronicled := by
  refine ⟨{}, ?_, ⟨?_, ?_, ?_⟩, ?_⟩
  · intro f hf
    cases hf
  · rw [h.worker_eq]
    simp [reports, h.log_eq, History.reports, Worker.underWay]
  · rw [h.worker_eq]
    simp [Backlog.topics, h.builders_eq, History.topics, Worker.underWay]
  · rw [h.worker_eq]
    simp [Backlog.topics, h.builders_eq, History.topics, Worker.underWay]
  · rw [h.worker_eq]
    refine ⟨rfl, fun hf => ?_⟩
    cases hf

/-- While a message is under way, nothing failed and nothing was drained. -/
theorem Chronicle.underWay_eq (h : Chronicle w q) :
    q.worker.underWay = [] ∨ ∃ t, q.worker.underWay = [t] ∧ w.drained = [] ∧ w.failed = none := by
  have hstands := h.stands
  cases hw : q.worker with
  | opening d => rw [hw] at hstands; exact .inr ⟨d.topic, rfl, hstands⟩
  | sending d => rw [hw] at hstands; exact .inr ⟨d.topic, rfl, hstands⟩
  | resetting d cause => rw [hw] at hstands; exact .inr ⟨d.topic, rfl, hstands.1, hstands.2.1⟩
  | unstarted => exact .inl rfl
  | launched => exact .inl rfl
  | choosing sender => exact .inl rfl
  | parting => exact .inl rfl
  | stopped => exact .inl rfl

theorem underWay_of_isStopped (hq : q.isStopped = true) : q.worker.underWay = [] := by
  unfold isStopped at hq
  split at hq
  · rename_i hw
    rw [hw]
    rfl
  · cases hq

/-- The calls made so far begin a proper history, in which the message under way counts as
sent. -/
theorem Chronicle.begins (h : Chronicle w q) :
    ∃ w' : History, w'.Proper ∧ q.reports <+: w'.reports ∧
      (q.isStopped = true → q.reports = w'.reports) ∧
      (w'.topics ++ q.backlog.topics).Pairwise Topic.Before := by
  have hreports := h.told.reports
  have hlater := h.told.later.increasing
  rcases h.underWay_eq with hu | ⟨t, hu, hdrained, hfailed⟩
  · rw [hu, List.map_nil, List.append_nil] at hreports
    rw [hu, List.append_nil] at hlater
    have hproper : w.Proper := ⟨(List.pairwise_append.mp hlater).1, h.cause⟩
    exact ⟨w, hproper, hreports ▸ List.prefix_refl _, fun _ => hreports, hlater⟩
  · have htopics : ({ w with sent := w.sent ++ [t] } : History).topics =
        w.topics ++ q.worker.underWay := by
      simp [History.topics, hdrained, hfailed, hu]
    have hword : ({ w with sent := w.sent ++ [t] } : History).reports =
        q.reports ++ [.published t .sent, .closed t] := by
      rw [hreports, hu]
      simp [History.reports, History.sentReports, hdrained, hfailed]
    rw [← htopics] at hlater
    have hproper : ({ w with sent := w.sent ++ [t] } : History).Proper :=
      ⟨(List.pairwise_append.mp hlater).1, h.cause⟩
    refine ⟨_, hproper, ⟨_, hword.symm⟩, fun hq => ?_, hlater⟩
    rw [underWay_of_isStopped hq] at hu
    cases hu

/-- **The lifecycle log.**  After any run, the calls of the worker begin a history of messages that
were sent, at most one whose delivery failed and those that were drained, their topics in the order
in which they were handed out and before those of the builders in line; when the worker is gone the
history is complete.  So each announced topic then has exactly one outcome and one close, no call
follows the close of its topic, and nothing is announced or sent after a failure. -/
theorem reports_lifecycle {start q : Queue} (hnew : start.IsNew) (h : Reachable start q) :
    (∃ w : History, w.Proper ∧ q.reports <+: w.reports ∧
      (q.isStopped = true → q.reports = w.reports) ∧
      (w.topics ++ q.backlog.topics).Pairwise Topic.Before) ∧
    (q.isStopped = true → ∀ t, .published t .queued ∈ q.reports →
      q.reports.filter (fun r => r.topic = t) = History.sentReports t ∨
      ∃ c, c.isOfDelivery = true ∧
        q.reports.filter (fun r => r.topic = t) = History.failedReports (t, c)) ∧
    q.reports.Pairwise (fun r r' => r ≠ .closed r'.topic) ∧
    q.reports.Pairwise (fun r r' => r.isFailure = true → r'.isProgress = false) := by
  obtain ⟨w, hw⟩ : q.Chronicled := h.invariant (chronicled_of_isNew hnew) chronicled_step
  obtain ⟨w', hproper, hprefix, hstopped, hlater⟩ := hw.begins
  refine ⟨⟨w', hproper, hprefix, hstopped, hlater⟩, fun hq t ht => ?_, ?_, ?_⟩
  · have hmem : .published t .queued ∈ q.reports.filter (fun r => r.topic = t) :=
      List.mem_filter.mpr ⟨ht, by simp [Report.topic]⟩
    rw [hstopped hq] at hmem ⊢
    rcases History.reports_on hproper t with hs | ⟨c, hc, hf⟩ | hd | hn
    · exact .inl hs
    · exact .inr ⟨c, hc, hf⟩
    · rw [hd] at hmem
      simp [History.drainedReports] at hmem
    · rw [hn] at hmem
      cases hmem
  · exact (History.reports_closed hproper).sublist hprefix.sublist
  · exact w'.reports_pairwise.sublist hprefix.sublist

/-- One message is sent before the worker is asked to stop. -/
theorem reports_lifecycle_of_sent :
    let start : Queue := { peer := Peer.zero, settings := {} }
    let q := start.run [.reserve 0 0 [.setStatus default .requestAcknowledged], .startup,
      .work none, .work (some .opened), .work (some .sent), .shutdown, .work none,
      .work (some .resetDone)]
    q.isStopped = true ∧ .published Topic.first .queued ∈ q.reports ∧
      (q.reports.filter (fun r => r.topic = Topic.first) = History.sentReports Topic.first ∨
        ∃ c, c.isOfDelivery = true ∧ q.reports.filter (fun r => r.topic = Topic.first) =
          History.failedReports (Topic.first, c)) := by
  intro start q
  have hstopped : q.isStopped = true := by decide
  have hqueued : .published Topic.first .queued ∈ q.reports := by decide
  have hnew : start.IsNew := rfl
  have hreach : Reachable start q := ⟨_, rfl⟩
  have hlife := reports_lifecycle hnew hreach
  exact ⟨hstopped, hqueued, hlife.2.1 hstopped Topic.first hqueued⟩

end Queue

end Outbox
