import Outbox.Proofs.Queue.Fates
import Outbox.Proofs.Queue.Finality

/-!
# What a cancellation leaves to be done

Once a queue is called off its worker takes no builder and begins no send.  It reports the message
under way as failed, if there is one, and the next time that it could choose what to do it leaves
its loop without a drain.  What is in line is thrown away unreported.  Producers have no edits
carried out any more but those that reserve nothing.

* `Queue.Beside`, `Queue.step_beside` — what is done by everyone but the worker;
* `Queue.Blamed` — a message whose sender is being reset has failed, or was called off;
* `Queue.lastDeeds`, `Queue.Aborts` — what is still done about the message under way;
* `Queue.aborts_step`, `Queue.aborts_run` — nothing else is done by moves and runs;
* `Queue.cancellation_aborts` — the same together with the builders in line and the way out.
-/

namespace Outbox

/-- The edits that are carried out, and the producer whose edits they are. -/
def Action.mutation? : Action → Option (Ticket × List Edit)
  | mutated p edits _ => some (p, edits)
  | _ => none

/-- The entry comes from somebody else than the worker, or with the end of the worker. -/
def Action.isBeside : Action → Bool
  | mutated .. => true
  | scrubbed _ => true
  | discarded _ => true
  | a => a.isQuiet

/-- A send begins or ends. -/
def Action.isOfSend : Action → Bool
  | sending _ => true
  | sendOk => true
  | sendFailed _ => true
  | _ => false

/-- The edits that a producer brings and that reserve nothing. -/
def Move.freeEdits : Move → List (Ticket × List Edit)
  | reserve t 0 edits => [(t, edits)]
  | _ => []

/-- How many turns a worker needs to end when everything is called off and every reset succeeds. -/
def Worker.turnsLeft : Worker → Nat
  | launched => 1
  | choosing sender => if sender then 2 else 1
  | opening _ => 2
  | sending _ => 3
  | resetting .. => 2
  | parting => 1
  | _ => 0

namespace Action

theorem isBeside_of_isQuiet {a : Action} (h : a.isQuiet = true) : a.isBeside = true := by
  cases a <;> first | rfl | cases h

theorem mutation?_of_isQuiet {a : Action} (h : a.isQuiet = true) : a.mutation? = none := by
  cases a <;> first | rfl | cases h

theorem isOfSend_of_isBeside {a : Action} (h : a.isBeside = true) : a.isOfSend = false := by
  cases a <;> first | rfl | cases h

theorem deed?_of_isBeside {a : Action} (h : a.isBeside = true) : a.deed? = none := by
  cases a <;> first | rfl | cases h

end Action

namespace Queue

variable {start q q' q'' : Queue} {entries : List Action} {t : Ticket} {size : Nat}
  {edits : List Edit} {done done' : List (Ticket × List Edit)}

/-! ## Everyone but the worker -/

/-- The worker does nothing, and these edits are carried out. -/
structure Beside (q q' : Queue) (done : List (Ticket × List Edit)) : Prop where
  /-- Nothing is done about messages. -/
  entries : ∃ entries, q'.log = q.log ++ entries ∧ (∀ a ∈ entries, a.isBeside = true) ∧
    entries.filterMap Action.mutation? = done
  /-- The worker stands where it stood. -/
  worker : q'.worker = q.worker
  /-- The peer is the same. -/
  peer : q'.peer = q.peer

namespace Beside

theorem of_quiet (hlog : q'.log = q.log ++ entries) (he : ∀ a ∈ entries, a.isQuiet = true)
    (hworker : q'.worker = q.worker) (hpeer : q'.peer = q.peer) : Beside q q' [] := by
  refine ⟨⟨entries, hlog, fun a ha => Action.isBeside_of_isQuiet (he a ha), ?_⟩, hworker, hpeer⟩
  exact List.filterMap_eq_nil_iff.mpr fun a ha => Action.mutation?_of_isQuiet (he a ha)

theorem still (hlog : q'.log = q.log) (hworker : q'.worker = q.worker) (hpeer : q'.peer = q.peer) :
    Beside q q' [] :=
  of_quiet (hlog.trans (List.append_nil _).symm) (List.forall_mem_nil _) hworker hpeer

theorem note (q : Queue) {a : Action} (h : a.isQuiet = true) : Beside q (q.note a) [] :=
  of_quiet rfl (List.forall_mem_singleton.mpr h) rfl rfl

theorem release (q : Queue) (n : Nat) : Beside q (q.release n) [] := by
  obtain ⟨pool, receipt, hreceipt, heq⟩ := release_eq q n
  exact of_quiet (by rw [heq]) hreceipt.isQuiet (release_worker q n) (release_peer q n)

theorem trans (h : Beside q q' done) (h' : Beside q' q'' done') :
    Beside q q'' (done ++ done') := by
  obtain ⟨entries, hlog, hbeside, hdone⟩ := h.entries
  obtain ⟨entries', hlog', hbeside', hdone'⟩ := h'.entries
  refine ⟨⟨entries ++ entries', ?_, List.forall_mem_append.mpr ⟨hbeside, hbeside'⟩, ?_⟩,
    h'.worker.trans h.worker, h'.peer.trans h.peer⟩
  · rw [hlog', hlog, List.append_assoc]
  · rw [List.filterMap_append, hdone, hdone']

end Beside

theorem mutate_beside (q : Queue) (p size : Nat) (edits : List Edit) :
    ∃ done, Beside q (q.mutate p size edits) done ∧ done.Sublist [(p, edits)] := by
  have he := mutate_editing q p size edits
  generalize q.mutate p size edits = q' at he
  cases he with
  | refused hr =>
    exact ⟨_, (Beside.release q size).trans (.note _ rfl), List.nil_sublist _⟩
  | @done report backlog hc hm =>
    refine ⟨_, ⟨⟨[.mutated p edits report], rfl, ?_, rfl⟩, rfl, rfl⟩, .refl _⟩
    exact List.forall_mem_singleton.mpr rfl

theorem answer_beside (q : Queue) (t : Ticket) (size : Nat) (edits : List Edit) (grant : Grant) :
    ∃ done, Beside q (q.answer t size edits grant) done := by
  cases grant with
  | granted =>
    obtain ⟨done, hmutated, -⟩ := mutate_beside (q.note (.allocated t size none)) t size edits
    exact ⟨_, (Beside.note q rfl).trans hmutated⟩
  | refused e => exact ⟨_, (Beside.note q rfl).trans (.note _ (a := .skipped t) rfl)⟩

theorem Arrival.beside (a : Arrival q t size edits q') :
    ∃ done, Beside q q' done ∧
      (q.cancelled = true → done.Sublist (Move.reserve t size edits).freeEdits) := by
  have hpool : Beside q { q with pool := q.pool.request t q.peer size } [] := .still rfl rfl rfl
  have hasked : Beside q (q.ask t size) [] := hpool.trans (.note _ rfl)
  cases a with
  | free hs =>
    subst hs
    obtain ⟨done, hmutated, hdone⟩ := mutate_beside q t 0 edits
    exact ⟨done, hmutated, fun _ => hdone⟩
  | callOff hs hc => exact ⟨[], .note q rfl, fun _ => List.nil_sublist _⟩
  | @answered grant pool hs hc ha =>
    obtain ⟨done, hanswered⟩ := answer_beside { q.ask t size with pool } t size edits grant
    have hread : Beside (q.ask t size) { q.ask t size with pool } [] := .still rfl rfl rfl
    exact ⟨_, (hasked.trans hread).trans hanswered, fun hc' => by simp [hc] at hc'⟩
  | wait hs hc ha =>
    exact ⟨_, hasked.trans (.still rfl rfl rfl), fun hc' => by simp [hc] at hc'⟩

theorem Return.beside (r : Return q t edits q') :
    ∃ done, Beside q q' done ∧
      (q.cancelled = true → done.Sublist (Move.resume t edits).freeEdits) := by
  cases r with
  | unknown hw => exact ⟨[], .still rfl rfl rfl, fun _ => .refl _⟩
  | callOff hw hc =>
    have hleft : Beside q ({ q with pool := q.pool.abandon t }.forgetProducer t) [] :=
      .still rfl rfl rfl
    exact ⟨_, hleft.trans (.note _ rfl), fun _ => .refl _⟩
  | @answered size grant pool hw hc ha =>
    have hread : Beside q ({ q with pool }.forgetProducer t) [] := .still rfl rfl rfl
    obtain ⟨done, hanswered⟩ := answer_beside ({ q with pool }.forgetProducer t) t size edits grant
    exact ⟨_, hread.trans hanswered, fun hc' => by simp [hc] at hc'⟩
  | wait hw hc ha => exact ⟨[], .still rfl rfl rfl, fun _ => .refl _⟩

/-- A move is the worker's, or starts the worker, or is beside it.  After a cancellation no edits
are carried out but those that reserve nothing. -/
theorem step_beside (q : Queue) (m : Move) :
    (∃ reply, q.step m = q.work reply) ∨
      (q.worker = .unstarted ∧ q.step m = { q with worker := .launched }) ∨
      ∃ done, Beside q (q.step m) done ∧ (q.cancelled = true → done.Sublist m.freeEdits) := by
  have hstill : ∀ {q' : Queue}, q'.log = q.log → q'.worker = q.worker → q'.peer = q.peer →
      ∃ done, Beside q q' done ∧ (q.cancelled = true → done.Sublist m.freeEdits) :=
    fun hlog hworker hpeer => ⟨[], .still hlog hworker hpeer, fun _ => List.nil_sublist _⟩
  have c := step_outcome q m
  generalize q.step m = q' at c
  cases c with
  | refused _ => exact .inr (.inr (hstill rfl rfl rfl))
  | @arrived t size edits hr ht => exact .inr (.inr (reserve_arrival q t size edits).beside)
  | @returned t edits => exact .inr (.inr (resume_return q t edits).beside)
  | abandoned =>
    refine .inr (.inr ?_)
    unfold Queue.abandon
    split <;> exact hstill rfl rfl rfl
  | launched hr hw => exact .inr (.inl ⟨hw, rfl⟩)
  | @scrubbed rs hr =>
    have hscrubbed : Beside q ({ q with backlog := q.backlog.scrub rs }.note (.scrubbed rs)) [] :=
      ⟨⟨[.scrubbed rs], rfl, List.forall_mem_singleton.mpr rfl, rfl⟩, rfl, rfl⟩
    exact .inr (.inr ⟨_, hscrubbed.trans (.release _ _), fun _ => List.nil_sublist _⟩)
  | @worked reply => exact .inl ⟨reply, rfl⟩
  | dropped hr hw hp =>
    refine .inr (.inr ⟨[], ⟨⟨q.backlog.builders.map .discarded, rfl, ?_, ?_⟩, rfl, rfl⟩,
      fun _ => List.nil_sublist _⟩)
    · simp [Action.isBeside]
    · simp [List.filterMap_eq_nil_iff, Action.mutation?]
  | shared ho hk => exact .inr (.inr (hstill rfl rfl rfl))
  | withheld => exact .inr (.inr (hstill rfl rfl rfl))
  | aside hproducer hr hs hc => exact .inr (.inr (hstill rfl rfl rfl))

/-! ## Whose fault a failure is -/

/-- The sends that began and ended so far. -/
def sends (q : Queue) : List Action := q.log.filter Action.isOfSend

/-- A message that is being sent was the last whose send began.  If its sender is being reset, the
send has failed, for the reason that is going to be reported, or everything was called off. -/
structure Blamed (q : Queue) : Prop where
  /-- The send has begun. -/
  sending : ∀ d, q.worker = .sending d → ∃ before, q.sends = before ++ [.sending d.message]
  /-- The send has failed. -/
  resetting : ∀ d cause, q.worker = .resetting d cause → q.cancelled = false →
    ∃ before e, cause = .sendFailed q.peer e.message ∧
      q.sends = before ++ [.sending d.message, .sendFailed e]

theorem sends_note (q : Queue) (a : Action) :
    (q.note a).sends = q.sends ++ if a.isOfSend then [a] else [] := by
  cases ha : a.isOfSend <;> simp [sends, Queue.note, ha]

theorem Beside.sends_eq (h : Beside q q' done) : q'.sends = q.sends := by
  obtain ⟨entries, hlog, hbeside, -⟩ := h.entries
  have hnone : entries.filter Action.isOfSend = [] :=
    List.filter_eq_nil_iff.mpr fun a ha => by simp [Action.isOfSend_of_isBeside (hbeside a ha)]
  rw [sends, hlog, List.filter_append, hnone, List.append_nil, sends]

theorem Blamed.of_beside (h : Blamed q) (hb : Beside q q' done)
    (hc : q.cancelled = true → q'.cancelled = true) : Blamed q' := by
  refine ⟨fun d hw => ?_, fun d cause hw hc' => ?_⟩
  · rw [hb.sends_eq]
    exact h.sending d (hb.worker ▸ hw)
  · rw [hb.sends_eq, hb.peer]
    refine h.resetting d cause (hb.worker ▸ hw) ?_
    by_contra hcancelled
    rw [hc (by simpa using hcancelled)] at hc'
    cases hc'

/-- Nobody is to blame while no message is being sent and no sender is being reset. -/
theorem Blamed.of_worker (hs : ∀ d, q.worker ≠ .sending d)
    (hr : ∀ d cause, q.worker ≠ .resetting d cause) : Blamed q :=
  ⟨fun d hw => absurd hw (hs d), fun d cause hw => absurd hw (hr d cause)⟩

theorem blamed_leave (q : Queue) (sender : Bool) : Blamed (q.leave sender) := by
  refine .of_worker ?_ ?_ <;> rw [leave_worker] <;> cases sender <;> simp

theorem blamed_beginSend (q : Queue) (d : Finished) : Blamed (q.beginSend d) := by
  refine ⟨fun d' hw => ?_, fun d' cause hw => ?_⟩
  · cases hw
    exact ⟨q.sends, sends_note q (.sending d.message)⟩
  · cases hw

theorem Choice.blamed {sender : Bool} (c : Choice sender q q') : Blamed q' := by
  cases c with
  | callOff hc => exact blamed_leave _ sender
  | stop hc hs t => exact blamed_leave _ sender
  | deliver hc hs ht hb hf =>
    unfold beginDelivery
    cases sender with
    | true => exact blamed_beginSend _ _
    | false => exact .of_worker (by simp [beginOpen]) (by simp [beginOpen])
  | _ => exact .of_worker (by simp) (by simp)

theorem Turn.blamed (c : Turn q q') (h : Blamed q) : Blamed q' := by
  have hfail : ∀ d cause, Blamed (q.failDelivery d cause) := fun d cause =>
    .of_worker (by simp [failDelivery]) (by simp [failDelivery])
  cases c with
  | wait => exact h
  | start hw c => exact c.blamed
  | choose hw c => exact c.blamed
  | callOffOpen hw hc => exact hfail _ _
  | opened hw hc => exact blamed_beginSend (q.note .opened) _
  | openFailed hw hc e => exact hfail _ _
  | callOffSend hw hc =>
    refine ⟨fun d' hw' => ?_, fun d' cause hw' hc' => ?_⟩
    · cases hw'
    · rw [beginReset, note, hc] at hc'
      cases hc'
  | sent hw hc => exact .of_worker (by simp [completeDelivery]) (by simp [completeDelivery])
  | @sendFailed d hw hc e =>
    refine ⟨fun d' hw' => ?_, fun d' cause hw' hc' => ?_⟩
    · cases hw'
    · cases hw'
      obtain ⟨before, hbefore⟩ := h.sending d hw
      refine ⟨before, e, rfl, ?_⟩
      show ((q.note (.sendFailed e)).note .senderReset).sends = _
      rw [sends_note, sends_note, hbefore]
      simp [Action.isOfSend]
  | resetDone hw => exact hfail _ _
  | part hw => exact .of_worker (by simp [teardown]) (by simp [teardown])

theorem blamed_step (q : Queue) (m : Move) (h : Blamed q) : Blamed (q.step m) := by
  have hc := cancelled_step q m
  rcases step_beside q m with ⟨reply, hstep⟩ | ⟨hw, hstep⟩ | ⟨done, hb, -⟩
  · rw [hstep]
    exact (work_turn q reply).blamed h
  · rw [hstep]
    exact .of_worker (by simp) (by simp)
  · exact h.of_beside hb hc

theorem IsNew.blamed (hnew : start.IsNew) (h : Reachable start q) : Blamed q := by
  refine h.invariant (.of_worker ?_ ?_) blamed_step
  · rw [hnew.worker_eq]
    rintro d ⟨⟩
  · rw [hnew.worker_eq]
    rintro d cause ⟨⟩

/-! ## What is still done -/

/-- What is still done about the message under way once everything is called off: its failure is
told, and its topic closed. -/
def lastDeeds (q : Queue) : List Deed :=
  match q.worker with
  | .opening d => Chapter.ending d (.failed (.cancelled q.peer))
  | .sending d => Chapter.ending d (.failed (.cancelled q.peer))
  | .resetting d cause => Chapter.ending d (.failed cause)
  | _ => []

/-- Of the deeds that are left some are done now, and these edits are carried out at most. -/
def Aborts (q q' : Queue) (free : List (Ticket × List Edit)) : Prop :=
  ∃ entries, q'.log = q.log ++ entries ∧
    entries.filterMap Action.deed? ++ q'.lastDeeds = q.lastDeeds ∧
    (entries.filterMap Action.mutation?).Sublist free

namespace Aborts

variable {free free' : List (Ticket × List Edit)}

theorem trans (h : Aborts q q' free) (h' : Aborts q' q'' free') : Aborts q q'' (free ++ free') := by
  obtain ⟨entries, hlog, hdeeds, hfree⟩ := h
  obtain ⟨entries', hlog', hdeeds', hfree'⟩ := h'
  refine ⟨entries ++ entries', ?_, ?_, ?_⟩
  · rw [hlog', hlog, List.append_assoc]
  · rw [List.filterMap_append, List.append_assoc, hdeeds', hdeeds]
  · rw [List.filterMap_append]
    exact hfree.append hfree'

theorem mono (h : Aborts q q' free) (hfree : free.Sublist free') : Aborts q q' free' := by
  obtain ⟨entries, hlog, hdeeds, hdone⟩ := h
  exact ⟨entries, hlog, hdeeds, hdone.trans hfree⟩

theorem of_beside (h : Beside q q' done) (hfree : done.Sublist free) : Aborts q q' free := by
  obtain ⟨entries, hlog, hbeside, rfl⟩ := h.entries
  have hnone : entries.filterMap Action.deed? = [] :=
    List.filterMap_eq_nil_iff.mpr fun a ha => Action.deed?_of_isBeside (hbeside a ha)
  refine ⟨entries, hlog, ?_, hfree⟩
  unfold lastDeeds
  rw [hnone, List.nil_append, h.worker, h.peer]

end Aborts

theorem mutation?_failureEntries {d : Finished} {cause : QueueError} {n m m' : Nat}
    {purge back : List Action} (hpurge : Receipt m purge) (hback : Receipt m' back) :
    (failureEntries d cause n purge back).filterMap Action.mutation? = [] :=
  List.filterMap_eq_nil_iff.mpr <| forall_mem_failureEntries hpurge hback
    (fun _ => Action.mutation?_of_isQuiet) (fun _ => rfl) rfl rfl rfl

/-- The message under way fails. -/
theorem aborts_failDelivery {d : Finished} {cause : QueueError}
    (h : q.lastDeeds = Chapter.ending d (.failed cause)) :
    Aborts q (q.failDelivery d cause) [] := by
  obtain ⟨pool, bus, post, n, purge, back, hpurge, hback, -, heq⟩ := fail_close_eq q d cause
  have hlog : (q.failDelivery d cause).log = q.log ++ failureEntries d cause n purge back :=
    congrArg Queue.log heq
  refine ⟨_, hlog, ?_, ?_⟩
  · rw [filterMap_deed?_failureEntries hpurge hback, h]
    exact List.append_nil _
  · rw [mutation?_failureEntries hpurge hback]

/-- The worker leaves its loop. -/
theorem aborts_leave (h : q.lastDeeds = []) (sender : Bool) : Aborts q (q.leave sender) [] := by
  cases sender with
  | true => exact ⟨[.senderReset], rfl, by rw [h]; rfl, .refl _⟩
  | false =>
    refine ⟨q.teardownEntries, ?_, ?_, ?_⟩
    · simp [leave, teardown, teardownEntries, closeBacklog, Queue.note]
    · rw [h, teardownEntries, List.filterMap_append, filterMap_deed?_discards]
      rfl
    · rw [teardownEntries, List.filterMap_append]
      simp [List.filterMap_eq_nil_iff, Action.mutation?]

/-- A worker that could choose leaves its loop. -/
theorem Choice.eq_leave {sender : Bool} (c : Choice sender q q') (hc : q.cancelled = true) :
    q' = q.leave sender := by
  cases c with
  | callOff hc => rfl
  | _ => simp_all

theorem Turn.aborts (c : Turn q q') (hc : q.cancelled = true) : Aborts q q' [] := by
  cases c with
  | wait => exact .of_beside (.still rfl rfl rfl) (.refl _)
  | start hw c =>
    have hbefore : q.lastDeeds = [] := by simp [lastDeeds, hw]
    have hopen : q.openBus.lastDeeds = [] := hbefore
    have hbus : Aborts q q.openBus [] := ⟨[.busStarted], rfl, hopen.trans hbefore.symm, .refl _⟩
    rw [c.eq_leave hc]
    exact hbus.trans (aborts_leave hopen false)
  | choose hw c =>
    rw [c.eq_leave hc]
    exact aborts_leave (by simp [lastDeeds, hw]) _
  | callOffOpen hw hc => exact aborts_failDelivery (by simp [lastDeeds, hw])
  | @callOffSend d hw hc =>
    have hlast : q.lastDeeds = Chapter.ending d (.failed (.cancelled q.peer)) := by
      simp [lastDeeds, hw]
    exact ⟨[.senderReset], rfl, hlast.symm, .refl _⟩
  | resetDone hw => exact aborts_failDelivery (by simp [lastDeeds, hw])
  | part hw => exact aborts_leave (by simp [lastDeeds, hw]) false
  | _ => simp_all

/-- After a cancellation a move does of what is left to be done, and of the edits that its producer
brings with it those that reserve nothing. -/
theorem aborts_step (q : Queue) (m : Move) (hc : q.cancelled = true) :
    Aborts q (q.step m) m.freeEdits := by
  rcases step_beside q m with ⟨reply, hstep⟩ | ⟨hw, hstep⟩ | ⟨done, hb, hfree⟩
  · rw [hstep]
    exact ((work_turn q reply).aborts hc).mono (List.nil_sublist _)
  · rw [hstep]
    exact ⟨[], (List.append_nil _).symm, by simp [lastDeeds, hw], List.nil_sublist _⟩
  · exact .of_beside hb (hfree hc)

theorem aborts_run (q : Queue) (moves : List Move) (hc : q.cancelled = true) :
    Aborts q (q.run moves) (moves.flatMap Move.freeEdits) := by
  induction moves generalizing q with
  | nil => exact .of_beside (.still rfl rfl rfl) (.refl _)
  | cons m rest ih => exact (aborts_step q m hc).trans (ih _ (cancelled_step q m hc))

/-- What is left to be done is about the message under way.  It is reported as called off, unless
its send has failed. -/
theorem IsNew.lastDeeds_eq (hnew : start.IsNew) (h : Reachable start q) (hc : q.cancelled = false) :
    q.lastDeeds = [] ∨ ∃ d cause, q.worker.delivery? = some d ∧
      q.lastDeeds = Chapter.ending d (.failed cause) ∧
      (cause = .cancelled q.peer ∨ ∃ before e, cause = .sendFailed q.peer e.message ∧
        q.sends = before ++ [.sending d.message, .sendFailed e]) := by
  have hblamed := hnew.blamed h
  unfold lastDeeds
  cases hw : q.worker with
  | opening d => exact .inr ⟨d, _, rfl, rfl, .inl rfl⟩
  | sending d => exact .inr ⟨d, _, rfl, rfl, .inl rfl⟩
  | resetting d cause => exact .inr ⟨d, cause, rfl, rfl, .inr (hblamed.resetting d cause hw hc)⟩
  | _ => exact .inl rfl

/-! ## What is in line -/

/-- A builder in line leaves it in one of three ways until the worker is gone. -/
theorem IsNew.leaves_line (hnew : start.IsNew) (h : Reachable start q) (h' : Reachable q q')
    (hlog : q'.log = q.log ++ entries) (hstop : q'.isStopped = true) {b : Builder}
    (hb : b ∈ q.backlog.builders) :
    b.topic ∈ removed entries ∨ b.topic ∈ (Line.of q'.log).dropped := by
  have hpath := h.path.trans h'.path
  have hkept := hnew.kept h.path
  have hempty : q'.backlog.line.topics = [] := by
    rw [Backlog.topics, Backlog.line, (hnew.orderly hpath).builders_eq hstop]
    rfl
  have hedited : b.topic ∈ edited q'.log := by
    rw [hlog, edited_append]
    exact List.mem_append_left _ (hkept.mem_edited hb)
  have htally := (hnew.kept hpath).tally b.topic
  rw [if_pos hedited, hempty, List.count_nil, hlog, removed_append, List.count_append,
    List.count_eq_zero.mpr (hkept.not_gone hb).1] at htally
  rw [hlog, ← List.count_pos_iff, ← List.count_pos_iff]
  omega

/-- Nothing that is left to be done is about a builder in line. -/
theorem IsNew.lastDeeds_ne (hnew : start.IsNew) (h : Reachable start q) {b : Builder}
    (hb : b ∈ q.backlog.builders) {e : Event} : .told b.topic e ∉ q.lastDeeds := by
  intro htold
  obtain ⟨d, hd, htopic⟩ : ∃ d, q.worker.delivery? = some d ∧ b.topic = d.topic := by
    unfold lastDeeds at htold
    split at htold
    all_goals simp_all [Chapter.ending, Worker.delivery?]
  obtain ⟨told, hwritten⟩ := hnew.written h.path
  obtain ⟨b', hf, htaken⟩ := hwritten.taken_eq_concat hd
  have hdequeued : .dequeued b' ∈ q.log := by
    rw [← mem_taken, htaken]
    exact List.mem_append_right _ (List.mem_singleton.mpr rfl)
  refine ((hnew.kept h.path).not_gone hb).1 ?_
  rw [htopic, (Builder.finish?_eq_some hf).2.1]
  exact List.mem_filterMap.mpr ⟨_, hdequeued, rfl⟩

/-! ## The way out -/

theorem choose_of_cancelled (q : Queue) (sender : Bool) (hc : q.cancelled = true) :
    q.choose sender = q.leave sender :=
  (choose_choice q sender).eq_leave hc

theorem over_choose (q : Queue) (sender : Bool) (hc : q.cancelled = true) :
    (q.choose sender).Over := by
  rw [choose_of_cancelled q sender hc]
  exact over_leave q sender

/-- A worker that could choose leaves its loop, whatever else it was asked for. -/
theorem leaves_of_cancelled (hc : q.cancelled = true)
    (hw : q.worker = .launched ∨ ∃ sender, q.worker = .choosing sender)
    (reply : Option NetworkReply) : (q.step (.work reply)).Over := by
  show (q.work reply).Over
  rcases hw with hw | ⟨sender, hw⟩
  · simp only [work, hw]
    exact over_choose _ false hc
  · simp only [work, hw]
    exact over_choose q sender hc

theorem turnsLeft_work (hc : q.cancelled = true) :
    (q.step (.work (some .resetDone))).worker.turnsLeft = q.worker.turnsLeft - 1 := by
  show (q.work (some .resetDone)).worker.turnsLeft = _
  unfold work
  split
  next hw =>
    rw [hw]
    rfl
  next hw =>
    show (q.openBus.choose false).worker.turnsLeft = _
    rw [choose_of_cancelled q.openBus false hc, hw]
    rfl
  next sender hw =>
    rw [choose_of_cancelled q sender hc, hw]
    cases sender <;> rfl
  next d hw =>
    rw [if_pos hc, hw]
    rfl
  next d hw =>
    rw [if_pos hc, hw]
    rfl
  next d cause hw =>
    rw [hw]
    rfl
  next hw =>
    rw [hw]
    rfl
  next hw =>
    rw [hw]
    rfl

/-- Three turns are enough. -/
theorem stops_of_cancelled (hc : q.cancelled = true) (hs : q.isStarted = true) :
    (q.run (List.replicate 3 (.work (some .resetDone)))).isStopped = true := by
  let q₁ := q.step (.work (some .resetDone))
  let q₂ := q₁.step (.work (some .resetDone))
  let q₃ := q₂.step (.work (some .resetDone))
  have hc₁ : q₁.cancelled = true := cancelled_step q _ hc
  have hc₂ : q₂.cancelled = true := cancelled_step q₁ _ hc₁
  have hfew : q.worker.turnsLeft ≤ 3 := by
    cases q.worker with
    | choosing sender => cases sender <;> simp [Worker.turnsLeft]
    | _ => simp [Worker.turnsLeft]
  have hnone : q₃.worker.turnsLeft = 0 := by
    rw [turnsLeft_work hc₂, turnsLeft_work hc₁, turnsLeft_work hc]
    omega
  have hstarted : q₃.isStarted = true :=
    isStarted_step q₂ _ (isStarted_step q₁ _ (isStarted_step q _ hs))
  rw [isStarted_iff] at hstarted
  show q₃.isStopped = true
  rw [isStopped_iff]
  cases hw : q₃.worker with
  | stopped => rfl
  | unstarted => exact absurd hw hstarted
  | choosing sender =>
    rw [hw] at hnone
    cases sender <;> cases hnone
  | _ =>
    rw [hw] at hnone
    cases hnone

/-- **A cancellation aborts.**  From then on the worker does no more about messages than to report
the message under way as failed and to close its topic; it is reported as called off unless its send
has failed already.  No edits are carried out but those that reserve nothing.  Whatever was in line
is never reported, and is thrown away when the worker ends, unless a scrub has left it empty.  The
next time that the worker could choose it leaves its loop, even if it was asked to stop before or
since; a worker that was started needs three turns at most to end. -/
theorem cancellation_aborts {start q : Queue} (hnew : start.IsNew) (hreach : Reachable start q)
    (hc : q.cancelled = false) (moves : List Move) :
    let q' := (q.step .cancel).run moves
    ∃ entries, q'.log = q.log ++ entries ∧
      (entries.filterMap Action.mutation?).Sublist (moves.flatMap Move.freeEdits) ∧
      entries.filterMap Action.deed? ++ q'.lastDeeds = q.lastDeeds ∧
      (q.lastDeeds = [] ∨ ∃ d cause, q.worker.delivery? = some d ∧
        q.lastDeeds = Chapter.ending d (.failed cause) ∧
        (cause = .cancelled q.peer ∨ ∃ before e, cause = .sendFailed q.peer e.message ∧
          q.sends = before ++ [.sending d.message, .sendFailed e])) ∧
      (∀ b ∈ q.backlog.builders, (∀ e n, .published b.topic e n ∉ entries) ∧
        (q'.isStopped = true → (∃ b', .discarded b' ∈ entries ∧ b'.topic = b.topic) ∨
          b.topic ∈ (Line.of q'.log).dropped)) ∧
      ((q'.worker = .launched ∨ ∃ sender, q'.worker = .choosing sender) →
        ∀ reply, (q'.step (.work reply)).Over) ∧
      (q'.isStarted = true →
        (q'.run (List.replicate 3 (.work (some .resetDone)))).isStopped = true) := by
  intro q'
  have hcancelled : (q.step .cancel).cancelled = true := rfl
  have hcancelled' : q'.cancelled = true := by
    refine Reachable.invariant (I := fun q => q.cancelled = true) ⟨moves, rfl⟩ hcancelled ?_
    exact cancelled_step
  have hreach' : Reachable q q' := ⟨.cancel :: moves, rfl⟩
  have hlast := hnew.lastDeeds_eq hreach hc
  obtain ⟨entries, hlog, hdeeds, hfree⟩ := aborts_run (q.step .cancel) moves hcancelled
  have hlog' : q'.log = q.log ++ entries := hlog
  have hdeeds' : entries.filterMap Action.deed? ++ q'.lastDeeds = q.lastDeeds := hdeeds
  have hdeed : ∀ {a : Action} {deed : Deed}, a ∈ entries → a.deed? = some deed →
      deed ∈ q.lastDeeds := by
    intro a deed ha hdeed
    rw [← hdeeds']
    exact List.mem_append_left _ (List.mem_filterMap.mpr ⟨a, ha, hdeed⟩)
  refine ⟨entries, hlog', hfree, hdeeds', hlast, fun b hb => ⟨fun e n he => ?_, fun hstop => ?_⟩,
    leaves_of_cancelled hcancelled', stops_of_cancelled hcancelled'⟩
  · exact hnew.lastDeeds_ne hreach hb (hdeed he rfl)
  · refine (hnew.leaves_line hreach hreach' hlog' hstop hb).imp_left fun hremoved => ?_
    obtain ⟨a, ha, htopic⟩ := List.mem_filterMap.mp hremoved
    cases a with
    | discarded b' => exact ⟨b', ha, Option.some.inj htopic⟩
    | dequeued b' =>
      -- no builder is taken any more
      have htook := hdeed ha rfl
      rcases hlast with hnone | ⟨d, cause, -, hending, -⟩
      · rw [hnone] at htook
        cases htook
      · rw [hending] at htook
        simp [Chapter.ending] at htook
    | _ => cases htopic

/-- Everything is called off while a message is being sent, another one is in line and a producer
waits for memory; the worker is asked to stop as well.  The first message is reported as called off,
the other one is thrown away, and the producer has nothing done although its memory is free then. -/
theorem cancellation_aborts_of_send :
    let start : Queue :=
      { peer := Peer.zero, settings := {},
        pool := .limited { limits := { total := 20, perPeer := 20 } } }
    let block : Edit := .addBlock (Block.fill default 10 1)
    let q := start.run [.reserve 0 10 [block], .startup, .work none, .work (some .opened),
      .reserve 1 10 [block], .reserve 2 10 [block], .shutdown]
    let moves : List Move := [.work none, .work (some .resetDone), .resume 2 [block], .work none]
    let q' := (q.step .cancel).run moves
    q.cancelled = false ∧ q.lastDeeds.length = 2 ∧ q.backlog.builders.length = 1 ∧
      q.producers = [⟨2, 10⟩] ∧ q'.isStopped = true ∧
      ∃ entries, q'.log = q.log ++ entries ∧ entries.filterMap Action.mutation? = [] ∧
        entries.filterMap Action.deed? = q.lastDeeds ∧
        ∀ b ∈ q.backlog.builders, (∀ e n, .published b.topic e n ∉ entries) ∧
          ((∃ b', .discarded b' ∈ entries ∧ b'.topic = b.topic) ∨
            b.topic ∈ (Line.of q'.log).dropped) := by
  intro start block q moves q'
  have hnew : start.IsNew := rfl
  have hreach : Reachable start q := ⟨_, rfl⟩
  have hc : q.cancelled = false := by decide +kernel
  have hstop : q'.isStopped = true := by decide +kernel
  have hlast : q'.lastDeeds = [] := by
    rw [lastDeeds, isStopped_iff.mp hstop]
  obtain ⟨entries, hlog, hfree, hdeeds, -, hline, -⟩ :=
    cancellation_aborts hnew hreach hc moves
  have hdeeds' : entries.filterMap Action.deed? ++ q'.lastDeeds = q.lastDeeds := hdeeds
  rw [hlast, List.append_nil] at hdeeds'
  refine ⟨hc, by decide +kernel, by decide +kernel, by decide +kernel, hstop, entries, hlog,
    List.sublist_nil.mp hfree, hdeeds', fun b hb => ?_⟩
  exact ⟨(hline b hb).1, (hline b hb).2 hstop⟩

end Queue

end Outbox
