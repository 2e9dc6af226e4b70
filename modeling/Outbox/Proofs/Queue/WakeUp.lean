import Outbox.Proofs.Queue.Outcome

/-!
# No wake-up is lost

Producers leave one wake-up for any number of messages, and the worker takes one message for each
wake-up.  Still no message waits unnoticed: as long as some builder in line holds something, a
wake-up is pending.  A producer that adds nothing leaves none, a scrub removes builders under a
pending one, and the worker leaves another for the builders behind the one it takes.

* `Queue.Wakeful` — a builder that holds something comes with a wake-up;
* `Queue.Blocked` — the worker is free to choose and finds nothing to do;
* `Queue.wakeful_step` — every move keeps the queue wakeful.
-/

namespace Outbox.Queue

variable {q q' : Queue}

/-- While some builder in line holds something, a wake-up is pending. -/
def Wakeful (q : Queue) : Prop :=
  ∀ b ∈ q.backlog.builders, b.isEmpty = false → q.token = true

/-- The worker is free to choose and its turn changes nothing. -/
def Blocked (q : Queue) : Prop := (∃ sender, q.worker = .choosing sender) ∧ q.work none = q

/-! ## Producers and scrubs -/

theorem Wakeful.scrub (h : q.Wakeful) (rs : List RequestId) : (q.scrub rs).Wakeful := by
  intro b hb hne
  rw [scrub_backlog] at hb
  obtain ⟨⟨b', hb', rfl⟩, -⟩ := Backlog.mem_scrub.mp hb
  have hne' : b'.isEmpty = false := by
    by_contra hcon
    rw [Builder.isEmpty_scrub (by simpa using hcon) rs] at hne
    cases hne
  have ht : q.token = true := h b' hb' hne'
  rwa [scrub_token]

/-- A producer whose edits leave the last builder empty need not wake the worker: the wake-up that
the other builders need was there before. -/
theorem Wakeful.mutate (h : q.Wakeful) (p size : Nat) (edits : List Edit) :
    (q.mutate p size edits).Wakeful := by
  have he := mutate_editing q p size edits
  generalize q.mutate p size edits = q' at he
  cases he with
  | refused hr =>
    intro b hb hne
    simp only [note, release_backlog] at hb
    simpa [note] using h b hb hne
  | @done report backlog hc hm =>
    intro b hb hne
    obtain ⟨front, last, hbuilders, hlast, hfront⟩ := hm.last_isEmpty
    have hb' : b ∈ front ++ [last] := hbuilders ▸ hb
    show (q.token || !report.isEmpty) = true
    rcases List.mem_append.mp hb' with hf | hl
    · rw [h b (hfront b hf) hne, Bool.true_or]
    · rw [List.mem_singleton.mp hl] at hne
      rw [← hlast, hne, Bool.not_false, Bool.or_true]

theorem Wakeful.answer (h : q.Wakeful) (t : Ticket) (size : Nat) (edits : List Edit)
    (grant : Grant) : (q.answer t size edits grant).Wakeful := by
  cases grant with
  | granted => exact Wakeful.mutate (q := q.note (.allocated t size none)) h t size edits
  | refused e => exact h

theorem Arrival.wakeful {t : Ticket} {size : Nat} {edits : List Edit}
    (a : Arrival q t size edits q') (h : q.Wakeful) : q'.Wakeful := by
  cases a with
  | free hs => exact h.mutate t 0 edits
  | callOff hs hc => exact h
  | @answered grant pool hs hc ha =>
    exact Wakeful.answer (q := { q.ask t size with pool }) h t size edits grant
  | wait hs hc ha => exact h

theorem Return.wakeful {t : Ticket} {edits : List Edit} (r : Return q t edits q')
    (h : q.Wakeful) : q'.Wakeful := by
  cases r with
  | unknown hw => exact h
  | callOff hw hc => exact h
  | @answered size grant pool hw hc ha =>
    exact Wakeful.answer (q := { q with pool }.forgetProducer t) h t size edits grant
  | wait hw hc ha => exact h

/-! ## The worker -/

theorem wakeful_of_nil (h : q.backlog.builders = []) : q.Wakeful := by
  intro b hb
  rw [h] at hb
  cases hb

theorem Wakeful.leave (h : q.Wakeful) (sender : Bool) : (q.leave sender).Wakeful := by
  cases sender with
  | true => exact h
  | false => exact wakeful_of_nil rfl

/-- The worker leaves another wake-up for the builders behind the one it takes. -/
theorem wakeful_takeHead (q : Queue) (b : Builder) (rest : List Builder) :
    Wakeful (q.takeHead b rest) := by
  intro b' hb' _
  have hmem : b' ∈ rest := hb'
  cases rest with
  | nil => cases hmem
  | cons b'' rest => rfl

theorem Wakeful.beginDelivery (h : q.Wakeful) (d : Finished) (sender : Bool) :
    (q.beginDelivery d sender).Wakeful := by
  unfold Queue.beginDelivery
  simp only [subscribeAll_eq]
  cases sender with
  | true => exact h
  | false => exact h

theorem Wakeful.failDelivery (h : q.Wakeful) (d : Finished) (cause : QueueError) :
    (q.failDelivery d cause).Wakeful := by
  have hs : (q.scrub d.requests).Wakeful := h.scrub d.requests
  intro b hb hne
  have hb' : b ∈ (q.scrub d.requests).backlog.builders := by
    simpa [Queue.failDelivery, closeTopic, note] using hb
  have ht := hs b hb' hne
  simpa [Queue.failDelivery, closeTopic, note] using ht

theorem Choice.wakeful {sender : Bool} (t : Choice sender q q') (h : q.Wakeful) :
    q'.Wakeful := by
  cases t with
  | callOff hc => exact h.leave sender
  | stop hc hs t => exact (wakeful_of_nil t.builders_eq).leave sender
  | rest hc hs ht => exact h
  | idle hc hs ht hb => exact wakeful_of_nil hb
  | @skip b rest hc hs ht hb hf => exact wakeful_takeHead q b rest
  | @deliver b rest d hc hs ht hb hf => exact (wakeful_takeHead q b rest).beginDelivery d sender

theorem Turn.wakeful (t : Turn q q') (h : q.Wakeful) : q'.Wakeful := by
  cases t with
  | wait => exact h
  | start hw t => exact Choice.wakeful t h
  | choose hw t => exact t.wakeful h
  | callOffOpen hw hc => exact h.failDelivery _ _
  | opened hw hc => exact h
  | openFailed hw hc e => exact h.failDelivery _ _
  | callOffSend hw hc => exact h
  | sent hw hc =>
    intro b hb hne
    have hb' : b ∈ q.backlog.builders := by
      simpa [completeDelivery, closeTopic, note, publish] using hb
    simpa [completeDelivery, closeTopic, note, publish] using h b hb' hne
  | sendFailed hw hc e => exact h
  | resetDone hw => exact h.failDelivery _ _
  | part hw => exact wakeful_of_nil rfl

/-! ## Every move -/

theorem wakeful_step (q : Queue) (m : Move) (h : q.Wakeful) : (q.step m).Wakeful := by
  have t := step_outcome q m
  generalize q.step m = q' at t
  cases t with
  | refused _ => exact h
  | @arrived t size edits hr ht => exact (reserve_arrival q t size edits).wakeful h
  | @returned t edits => exact (resume_return q t edits).wakeful h
  | abandoned =>
    unfold Queue.abandon
    split <;> exact h
  | launched hr hw => exact h
  | @scrubbed rs hr => exact h.scrub rs
  | @worked reply => exact (work_turn q reply).wakeful h
  | dropped hr hw hp => exact wakeful_of_nil rfl
  | shared ho hk => exact h
  | withheld => exact h
  | aside hproducer hr hs hc => exact h

/-! ## The worker is never blocked over a message -/

/-- A blocked worker has nothing to do: it was not called off, not asked to stop, and no wake-up
is pending. -/
theorem Blocked.idle (h : q.Blocked) :
    q.cancelled = false ∧ q.stopRequested = false ∧ q.token = false := by
  obtain ⟨⟨sender, hw⟩, hq⟩ := h
  have hchoose : q.choose sender = q := by
    simpa only [work, hw] using hq
  have t := choose_choice q sender
  generalize q.choose sender = q' at t hchoose
  have hworker : q'.worker = .choosing sender := by rw [hchoose, hw]
  cases t with
  | callOff hc => rw [leave_worker] at hworker; cases sender <;> cases hworker
  | stop hc hs t => rw [leave_worker] at hworker; cases sender <;> cases hworker
  | rest hc hs ht => exact ⟨hc, hs, ht⟩
  | idle hc hs ht hb => rw [← hchoose] at ht; cases ht
  | skip hc hs ht hb hf =>
    have hlog := congrArg (List.length ∘ Queue.log) hchoose
    simp [takeHead, withoutHead, note] at hlog
  | deliver hc hs ht hb hf => cases sender <;> cases hworker

/-- **No lost wake-up.**  In every state that a new queue can come to, a wake-up is pending as long
as some builder in line holds something — before the worker is started, while it is busy with an
earlier message, and whatever producers, scrubs and turns of the worker came before.  So a worker
that is blocked has only empty builders in line. -/
theorem token_of_nonempty_builder {start q : Queue} (hnew : start.IsNew)
    (h : Reachable start q) :
    (∀ b ∈ q.backlog.builders, b.isEmpty = false → q.token = true) ∧
      (q.Blocked → ∀ b ∈ q.backlog.builders, b.isEmpty = true) := by
  have hq : q.Wakeful := h.invariant (wakeful_of_nil hnew.builders_eq) wakeful_step
  refine ⟨hq, fun hblocked b hb => ?_⟩
  by_contra hne
  have ht : q.token = true := hq b hb (by simpa using hne)
  exact absurd (hblocked.idle.2.2.symm.trans ht) (by simp)

/-- A message is added while an earlier one is under way; and a started queue whose only producer
added nothing is blocked. -/
theorem token_of_nonempty_builder_behind :
    let start : Queue := { peer := Peer.zero, settings := {} }
    let busy := start.run [.reserve 0 0 [.setStatus default .requestAcknowledged], .startup,
      .work none, .reserve 1 0 [.setStatus default .partialResponse]]
    let blocked := start.run [.startup, .reserve 0 0 [], .work none]
    ((∃ b ∈ busy.backlog.builders, b.isEmpty = false) ∧ busy.token = true) ∧
      (blocked.Blocked ∧ ∀ b ∈ blocked.backlog.builders, b.isEmpty = true) := by
  intro start busy blocked
  have hnew : start.IsNew := rfl
  have hbusy := token_of_nonempty_builder hnew (q := busy) ⟨_, rfl⟩
  have hblocked := token_of_nonempty_builder hnew (q := blocked) ⟨_, rfl⟩
  obtain ⟨b, hb, hne⟩ : ∃ b ∈ busy.backlog.builders, b.isEmpty = false :=
    ⟨_, List.mem_singleton.mpr rfl, rfl⟩
  have hidle : blocked.Blocked := ⟨⟨false, rfl⟩, rfl⟩
  exact ⟨⟨⟨b, hb, hne⟩, hbusy.1 b hb hne⟩, hidle, hblocked.2 hidle⟩

end Outbox.Queue
