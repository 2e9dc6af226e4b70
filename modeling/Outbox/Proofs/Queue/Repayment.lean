import Outbox.Proofs.Queue.Flow

/-!
# What a queue does to its pool

But for a teardown, which gives everything back at once, the worker does one thing to the pool: it
gives amounts back, one after the other.  So does a producer once it has its answer.  This is so
whatever the edits of the producers are, and whether or not the pool takes what it is given.

* `Action.isOfGrant` — the entries about memory that a producer learns it has, and about memory that
  is given back;
* `Queue.Repays` — amounts are given back and nothing else is done to the pool;
* `Queue.Repayment`, `Queue.Turn.repayment` — a turn of the worker does nothing else, unless it ends
  in a teardown;
* `Queue.answer_repays` — nor does a producer with its answer.
-/

namespace Outbox

/-- A producer learns that it has memory, or memory is given back. -/
def Action.isOfGrant : Action → Bool
  | allocated _ _ none => true
  | release .. => true
  | _ => false

namespace Queue

variable {q q' : Queue}

/-! ## Repaying -/

/-- Amounts are given back to the pool, and nothing else happens to it or to the producers. -/
inductive Repays : Queue → Queue → Prop
  /-- Something happens elsewhere. -/
  | aside {q q' : Queue} {entries : List Action} (hpool : q'.pool = q.pool)
      (hpeer : q'.peer = q.peer) (hproducers : q'.producers = q.producers)
      (hlog : q'.log = q.log ++ entries) (he : ∀ a ∈ entries, a.isOfGrant = false) : Repays q q'
  /-- An amount is given back. -/
  | release (q : Queue) (n : Nat) : Repays q (q.release n)
  /-- One after the other. -/
  | trans {q q' q'' : Queue} (h : Repays q q') (h' : Repays q' q'') : Repays q q''

namespace Repays

/-- Nothing is written down. -/
theorem still (hpool : q'.pool = q.pool) (hpeer : q'.peer = q.peer)
    (hproducers : q'.producers = q.producers) (hlog : q'.log = q.log) : Repays q q' :=
  .aside hpool hpeer hproducers (hlog.trans (List.append_nil _).symm) (List.forall_mem_nil _)

theorem refl (q : Queue) : Repays q q := still rfl rfl rfl rfl

theorem note (q : Queue) {a : Action} (h : a.isOfGrant = false) : Repays q (q.note a) :=
  .aside rfl rfl rfl rfl (List.forall_mem_singleton.mpr h)

theorem peer (h : Repays q q') : q'.peer = q.peer := by
  induction h with
  | aside hpool hpeer hproducers hlog he => exact hpeer
  | release q n => exact release_peer q n
  | trans h h' ih ih' => exact ih'.trans ih

theorem producers (h : Repays q q') : q'.producers = q.producers := by
  induction h with
  | aside hpool hpeer hproducers hlog he => exact hproducers
  | release q n => exact release_producers q n
  | trans h h' ih ih' => exact ih'.trans ih

theorem answers (h : Repays q q') : q.pool.answers <+: q'.pool.answers := by
  induction h with
  | aside hpool hpeer hproducers hlog he => rw [hpool]
  | release q n => exact (Flow.release q 0 n).answers
  | trans h h' ih ih' => exact ih.trans ih'

end Repays

/-! ## Turns of producers -/

/-- A producer that holds bytes uses them or gives them back. -/
theorem mutate_repays (q : Queue) (p size : Nat) (edits : List Edit) :
    Repays q (q.mutate p size edits) := by
  have he := mutate_editing q p size edits
  generalize q.mutate p size edits = q' at he
  cases he with
  | refused hr => exact (Repays.release q size).trans (.note _ rfl)
  | done hc hm => exact .aside rfl rfl rfl rfl (List.forall_mem_singleton.mpr rfl)

/-- What happens once a producer has learnt its answer. -/
theorem answer_repays (q : Queue) (t : Ticket) (size : Nat) (edits : List Edit) (grant : Grant) :
    Repays (q.hear t size grant) (q.answer t size edits grant) := by
  cases grant with
  | granted => exact mutate_repays (q.hear t size .granted) t size edits
  | refused e => exact .note (q.hear t size (.refused e)) rfl

/-! ## Turns of the worker -/

theorem repays_publish (q : Queue) (t : Topic) (e : Event) : Repays q (q.publish t e) :=
  .aside rfl rfl rfl rfl (List.forall_mem_singleton.mpr rfl)

theorem repays_closeTopic (q : Queue) (t : Topic) : Repays q (q.closeTopic t) :=
  .aside rfl rfl rfl rfl (List.forall_mem_singleton.mpr rfl)

theorem repays_subscribeAll (q : Queue) (d : Finished) : Repays q (q.subscribeAll d) := by
  rw [subscribeAll_eq]
  exact .aside rfl rfl rfl rfl (by simp [Action.isOfGrant])

theorem repays_withoutHead (q : Queue) (b : Builder) (rest : List Builder) :
    Repays q (q.withoutHead b rest) :=
  .aside rfl rfl rfl rfl (List.forall_mem_singleton.mpr rfl)

theorem repays_closeBacklog (q : Queue) : Repays q q.closeBacklog :=
  .aside rfl rfl rfl rfl (by simp [Action.isOfGrant])

theorem repays_scrub (q : Queue) (rs : List RequestId) : Repays q (q.scrub rs) := by
  have hscrubbed : Repays q ({ q with backlog := q.backlog.scrub rs }.note (.scrubbed rs)) :=
    .aside rfl rfl rfl rfl (List.forall_mem_singleton.mpr rfl)
  exact hscrubbed.trans (.release _ _)

theorem repays_fail (q : Queue) (d : Finished) (cause : QueueError) :
    Repays q (q.fail d cause) := by
  have hstreams : Repays q (q.closeStreams d) := by
    rw [closeStreams_eq]
    exact .aside rfl rfl rfl rfl (by simp [Action.isOfGrant])
  exact ((hstreams.trans (repays_scrub _ _)).trans (repays_publish _ _ _)).trans (.release _ _)

theorem repays_failDelivery (q : Queue) (d : Finished) (cause : QueueError) :
    Repays q (q.failDelivery d cause) := by
  have hclosed : Repays q ((q.fail d cause).closeTopic d.topic) :=
    (repays_fail q d cause).trans (repays_closeTopic _ _)
  exact hclosed.trans (.still rfl rfl rfl rfl)

theorem Drains.repays (t : Drains q q') : Repays q q' := by
  induction t with
  | done hb => exact repays_closeBacklog _
  | skip hb hf t ih => exact (repays_withoutHead _ _ _).trans ih
  | @report q q' b rest d hb hf t ih =>
    have hfailed : Repays q (((q.withoutHead b rest).subscribeAll d).fail d .shutdown) :=
      ((repays_withoutHead q b rest).trans (repays_subscribeAll _ d)).trans (repays_fail _ _ _)
    exact (hfailed.trans (repays_closeTopic _ d.topic)).trans ih

/-- The worker gives amounts back, and a teardown may follow. -/
inductive Repayment (q : Queue) : Queue → Prop
  /-- The worker goes on. -/
  | goesOn {q' : Queue} (h : Repays q q') (hw : q'.worker = .stopped → q.worker = .stopped) :
      Repayment q q'
  /-- The worker ends. -/
  | ends {q' : Queue} (h : Repays q q') : Repayment q q'.teardown

theorem Repayment.producers (h : Repayment q q') : q'.producers = q.producers := by
  cases h with
  | goesOn h hw => exact h.producers
  | ends h => exact h.producers

theorem Repayment.of_repays {q'' : Queue} (h : Repays q q') (hw : q'.worker ≠ .stopped)
    (h' : Repayment q' q'') : Repayment q q'' := by
  cases h' with
  | goesOn h' hw' => exact .goesOn (h.trans h') fun hs => absurd (hw' hs) hw
  | ends h' => exact .ends (h.trans h')

theorem Repayment.of_leave (h : Repays q q') (sender : Bool) :
    Repayment q (q'.leave sender) := by
  cases sender with
  | true =>
    refine .goesOn (h.trans ?_) (by rintro ⟨⟩)
    exact .aside rfl rfl rfl rfl (List.forall_mem_singleton.mpr rfl)
  | false => exact .ends h

theorem repays_beginDelivery (q : Queue) (d : Finished) (sender : Bool) :
    Repays q (q.beginDelivery d sender) := by
  have hannounced : Repays q ((q.subscribeAll d).publish d.topic ⟨.queued, d.metadata⟩) :=
    (repays_subscribeAll q d).trans (repays_publish _ _ _)
  unfold beginDelivery
  cases sender
  all_goals exact hannounced.trans (.aside rfl rfl rfl rfl (List.forall_mem_singleton.mpr rfl))

theorem Choice.repayment {sender : Bool} (t : Choice sender q q') : Repayment q q' := by
  have hhead : ∀ b rest, Repays q (q.takeHead b rest) := fun b rest =>
    (repays_withoutHead q b rest).trans (.still rfl rfl rfl rfl)
  cases t with
  | callOff hc => exact .of_leave (.refl q) sender
  | stop hc hs t =>
    have htoken : Repays q { q with token := false } := .still rfl rfl rfl rfl
    exact .of_leave (htoken.trans t.repays) sender
  | rest hc hs ht => exact .goesOn (.still rfl rfl rfl rfl) (by rintro ⟨⟩)
  | idle hc hs ht hb => exact .goesOn (.still rfl rfl rfl rfl) (by rintro ⟨⟩)
  | skip hc hs ht hb hf =>
    exact .goesOn ((hhead _ _).trans (.still rfl rfl rfl rfl)) (by rintro ⟨⟩)
  | deliver hc hs ht hb hf =>
    refine .goesOn ((hhead _ _).trans (repays_beginDelivery _ _ sender)) ?_
    intro hw
    cases sender <;> cases hw

/-- **The worker only gives back.**  Whatever a turn of the worker does to the pool, it gives
amounts back, and a teardown may follow. -/
theorem Turn.repayment (t : Turn q q') : Repayment q q' := by
  have hfail : ∀ d cause, Repayment q (q.failDelivery d cause) := fun d cause =>
    .goesOn (repays_failDelivery q d cause) (by rintro ⟨⟩)
  cases t with
  | wait => exact .goesOn (.refl q) id
  | start hw t =>
    have hbus : Repays q q.openBus := .aside rfl rfl rfl rfl (List.forall_mem_singleton.mpr rfl)
    have hlaunched : q.openBus.worker ≠ .stopped := by
      show q.worker ≠ .stopped
      rw [hw]
      rintro ⟨⟩
    exact t.repayment.of_repays hbus hlaunched
  | choose hw t => exact t.repayment
  | callOffOpen hw hc => exact hfail _ _
  | opened hw hc =>
    refine .goesOn ((Repays.note q (a := .opened) rfl).trans ?_) (by rintro ⟨⟩)
    exact .aside rfl rfl rfl rfl (List.forall_mem_singleton.mpr rfl)
  | openFailed hw hc e => exact hfail _ _
  | callOffSend hw hc =>
    exact .goesOn (.aside rfl rfl rfl rfl (List.forall_mem_singleton.mpr rfl)) (by rintro ⟨⟩)
  | @sent d hw hc =>
    have hout : Repays q ((q.note .sendOk).publish d.topic ⟨.sent, d.metadata⟩) :=
      (Repays.note q rfl).trans (repays_publish _ _ _)
    have hback := (hout.trans (.release _ d.size)).trans (repays_closeTopic _ d.topic)
    exact .goesOn (hback.trans (.still rfl rfl rfl rfl)) (by rintro ⟨⟩)
  | sendFailed hw hc e =>
    refine .goesOn ((Repays.note q (a := .sendFailed e) rfl).trans ?_) (by rintro ⟨⟩)
    exact .aside rfl rfl rfl rfl (List.forall_mem_singleton.mpr rfl)
  | resetDone hw => exact hfail _ _
  | part hw => exact .ends (.refl q)

end Queue

end Outbox
