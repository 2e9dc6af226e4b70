import Outbox.Proofs.Queue.Closing
import Outbox.Proofs.Queue.Sole

/-!
# The end of a queue is final

A queue can be asked to stop in several ways and any number of times.  Its worker runs once, ends
once, and closes the backlog by then.  Nothing is put into a closed backlog, nothing is taken out of
it, and nobody hears of a message any more.  A producer that learns then that it has its bytes gives
them back in the same turn.

* `Queue.Coursed` — the life of the worker as the log has it, with `Queue.Coursed.act`;
* `Queue.launchesIn` — how often a worker is started;
* `Queue.Over`, `Queue.over_step` — where the worker stands when the backlog is closed;
* `Queue.Late`, `Queue.Shut.step` — what happens to a queue with a closed backlog;
* `Queue.stop_is_final` — the same for whole runs.
-/

namespace Outbox

/-- The worker begins or ends: the bus goes up or down, or all the memory of the peer is given back.
-/
def Action.isOfLife : Action → Bool
  | busStarted => true
  | releasePeer _ => true
  | busStopped => true
  | _ => false

theorem Action.isOfLife_of_isQuiet {a : Action} (h : a.isQuiet = true) : a.isOfLife = false := by
  cases a <;> first | rfl | cases h

/-- Edits are carried out, a builder is taken, or an event is published. -/
def Action.isOfWork : Action → Bool
  | mutated .. => true
  | dequeued _ => true
  | published .. => true
  | _ => false

/-- What a worker that stands here has begun and ended. -/
def Worker.course (peer : Peer) : Worker → List Action
  | unstarted => []
  | launched => []
  | stopped => [.busStarted, .releasePeer peer, .busStopped]
  | _ => [.busStarted]

theorem Worker.course_prefix (peer : Peer) (w : Worker) :
    w.course peer <+: [.busStarted, .releasePeer peer, .busStopped] := by
  cases w <;> simp [course]

namespace Queue

variable {others : Sink → Prop} {start q q' q'' : Queue} {entries : List Action} {t : Ticket}
  {size : Nat} {edits : List Edit}

/-! ## One worker -/

/-- The worker has begun and ended as often as where it stands tells. -/
def Coursed (q : Queue) : Prop := q.log.filter Action.isOfLife = q.worker.course q.peer

theorem Coursed.aside (h : Coursed q) (hlog : q'.log = q.log ++ entries)
    (he : ∀ a ∈ entries, a.isOfLife = false)
    (hw : q'.worker.course q'.peer = q.worker.course q.peer) : Coursed q' := by
  have hnone : entries.filter Action.isOfLife = [] :=
    List.filter_eq_nil_iff.mpr fun a ha => by simp [he a ha]
  unfold Coursed
  rw [hlog, List.filter_append, hnone, List.append_nil, hw]
  exact h

/-- A message that fails neither begins nor ends the worker. -/
theorem isOfLife_of_mem_failureEntries {d : Finished} {cause : QueueError} {n m m' : Nat}
    {purge back : List Action} (hpurge : Receipt m purge) (hback : Receipt m' back) :
    ∀ a ∈ failureEntries d cause n purge back, a.isOfLife = false :=
  forall_mem_failureEntries hpurge hback (fun _ => Action.isOfLife_of_isQuiet) (fun _ => rfl) rfl
    rfl rfl

theorem Coursed.act (h : Coursed q) (a : Act others q entries q') : Coursed q' := by
  have hlog := a.log_eq
  cases a with
  | aside he hs hc hr =>
    exact h.aside hlog (fun a ha => Action.isOfLife_of_isQuiet (he a ha)) rfl
  | attached ho => exact h
  | departed ho => exact h
  | edited hc hm => exact h.aside hlog (by simp [Action.isOfLife]) rfl
  | scrubbed hr =>
    refine h.aside hlog (List.forall_mem_cons.mpr ⟨rfl, fun a ha => ?_⟩) rfl
    exact Action.isOfLife_of_isQuiet (hr.isQuiet a ha)
  | launched hw hr => exact h.aside hlog (List.forall_mem_nil _) (by rw [hw]; rfl)
  | dropped hw => exact h.aside hlog (by simp [Action.isOfLife]) rfl
  | started hw =>
    unfold Coursed at h ⊢
    rw [hlog, List.filter_append, h, hw]
    rfl
  | skipped hw hb hf => exact h.aside hlog (by simp [Action.isOfLife]) rfl
  | @announced sender token b rest d bus post n entries hw hs hb hf hp he =>
    subst he
    refine h.aside hlog ?_ ?_
    · exact forall_mem_announcement rfl (fun _ => rfl) rfl (by cases sender <;> rfl)
    · rw [hw]
      cases sender <;> rfl
  | opened hw => exact h.aside hlog (by simp [Action.isOfLife]) (by rw [hw]; rfl)
  | @sent d pool bus post n back entries hw hback hp he =>
    subst he
    refine h.aside hlog ?_ (by rw [hw]; rfl)
    exact forall_mem_completion hback (fun _ => Action.isOfLife_of_isQuiet) rfl rfl rfl
  | interrupted hw hcause he =>
    refine h.aside hlog ?_ (by rw [hw]; rfl)
    rcases he with rfl | ⟨e, rfl⟩
    · simp [Action.isOfLife]
    · simp [Action.isOfLife]
  | failed hw hpurge hback hp he =>
    subst he
    refine h.aside hlog (isOfLife_of_mem_failureEntries hpurge hback) ?_
    rcases hw with ⟨hw, -⟩ | hw
    · rw [hw]
      rfl
    · rw [hw]
      rfl
  | drained hw hs hb hf hpurge hback hp he =>
    subst he
    refine h.aside hlog (List.forall_mem_cons.mpr ⟨rfl, fun a ha => ?_⟩) rfl
    rcases List.mem_append.mp ha with ha | ha
    · obtain ⟨s, -, rfl⟩ := List.mem_map.mp ha
      rfl
    · exact isOfLife_of_mem_failureEntries hpurge hback a ha
  | emptied hw hs hb => exact h
  | parted hw hend => exact h.aside hlog (by simp [Action.isOfLife]) (by rw [hw]; rfl)
  | ended hw =>
    have hbegun : q.worker.course q.peer = [.busStarted] := by
      rcases hw with hw | ⟨hw, -⟩
      · rw [hw]
        rfl
      · rw [hw]
        rfl
    have hdiscards : (q.backlog.builders.map Action.discarded).filter Action.isOfLife = [] := by
      simp [List.filter_eq_nil_iff, Action.isOfLife]
    unfold Coursed at h ⊢
    rw [hlog, List.filter_append, h, hbegun, teardownEntries, List.filter_append, hdiscards]
    rfl

/-- The worker of a queue begins once and ends once. -/
theorem IsNew.coursed (hnew : start.IsNew) (h : Path others start q) : Coursed q := by
  refine h.invariant (I := Coursed) ?_ fun a hq => hq.act a
  unfold Coursed
  rw [hnew.log_eq, hnew.worker_eq]
  rfl

theorem Act.peer_eq (a : Act others q entries q') : q'.peer = q.peer := by
  cases a <;> rfl

/-- The worker was started. -/
def isStarted (q : Queue) : Bool := !(q.worker matches .unstarted)

theorem isStarted_iff : q.isStarted = true ↔ q.worker ≠ .unstarted := by
  unfold isStarted
  cases q.worker <;> simp

/-- A worker that was started stays so. -/
theorem Act.isStarted (a : Act others q entries q') (h : q.isStarted = true) :
    q'.isStarted = true := by
  cases a with
  | @announced sender => cases sender <;> rfl
  | dropped hw => exact absurd hw (isStarted_iff.mp h)
  | _ => first | exact h | rfl

theorem isStarted_step (q : Queue) (m : Move) (h : q.isStarted = true) :
    (q.step m).isStarted = true := by
  have hpath : Path (fun _ => True) q (q.step m) := step_path q m fun _ _ => trivial
  exact hpath.invariant h fun a => a.isStarted

theorem Act.unreachable (a : Act others q entries q') (h : q.reachable = false) :
    q'.reachable = false := by
  cases a with
  | aside he hs hc hr =>
    by_contra hreach
    rw [hr (by simpa using hreach)] at h
    cases h
  | dropped hw => rfl
  | _ => exact h

/-- A queue that nobody can reach stays so. -/
theorem unreachable_step (q : Queue) (m : Move) (h : q.reachable = false) :
    (q.step m).reachable = false := by
  have hpath : Path (fun _ => True) q (q.step m) := step_path q m fun _ _ => trivial
  exact hpath.invariant h fun a => a.unreachable

/-- How many workers are started in a move. -/
def launchesIn (q : Queue) (m : Move) : Nat :=
  if q.isStarted = false ∧ (q.step m).isStarted = true then 1 else 0

theorem launches_le_one (q : Queue) (moves : List Move) :
    q.sumAlong launchesIn moves ≤ if q.isStarted then 0 else 1 := by
  induction moves generalizing q with
  | nil => exact Nat.zero_le _
  | cons m rest ih =>
    have hrest := ih (q.step m)
    rw [sumAlong_cons, launchesIn]
    cases hq : q.isStarted with
    | true =>
      rw [isStarted_step q m hq] at hrest
      simpa using hrest
    | false =>
      cases hq' : (q.step m).isStarted with
      | true => simpa [hq'] using hrest
      | false => simpa [hq'] using hrest

/-! ## When the backlog is closed -/

/-- The worker has left its loop for good, or will never be started. -/
def Over (q : Queue) : Prop :=
  q.worker = .parting ∨ q.worker = .stopped ∨ (q.worker = .unstarted ∧ q.reachable = false)

theorem mutate_closed (q : Queue) (p size : Nat) (edits : List Edit) :
    (q.mutate p size edits).backlog.closed = q.backlog.closed := by
  have he := mutate_editing q p size edits
  generalize q.mutate p size edits = q' at he
  cases he with
  | refused hr => exact congrArg Backlog.closed (release_backlog q size)
  | done hc hm => cases hm <;> rfl

theorem answer_closed (q : Queue) (t : Ticket) (size : Nat) (edits : List Edit) (grant : Grant) :
    (q.answer t size edits grant).backlog.closed = q.backlog.closed := by
  cases grant with
  | granted => exact mutate_closed (q.note (.allocated t size none)) t size edits
  | refused e => rfl

/-- Producers leave a backlog as open as it is. -/
theorem Arrival.closed_eq (a : Arrival q t size edits q') :
    q'.backlog.closed = q.backlog.closed := by
  cases a with
  | free hs => exact mutate_closed q t 0 edits
  | callOff hs hc => rfl
  | answered hs hc ha => exact answer_closed _ t size edits _
  | wait hs hc ha => rfl

theorem Return.closed_eq (r : Return q t edits q') : q'.backlog.closed = q.backlog.closed := by
  cases r with
  | unknown hw => rfl
  | callOff hw hc => rfl
  | answered hw hc ha => exact answer_closed _ t _ edits _
  | wait hw hc ha => rfl

theorem over_leave (q : Queue) (sender : Bool) : (q.leave sender).Over := by
  cases sender with
  | true => exact .inl rfl
  | false => exact .inr (.inl rfl)

theorem Choice.over {sender : Bool} (c : Choice sender q q') :
    q'.backlog.closed = q.backlog.closed ∨ q'.Over := by
  cases c with
  | callOff hc => exact .inr (over_leave _ sender)
  | stop hc hs t => exact .inr (over_leave _ sender)
  | deliver hc hs ht hb hf =>
    rw [beginDelivery_backlog]
    exact .inl rfl
  | _ => exact .inl rfl

/-- A worker that closes the backlog leaves its loop in the same turn. -/
theorem Turn.over (c : Turn q q') : q'.backlog.closed = q.backlog.closed ∨ q'.Over := by
  have hfail : ∀ d cause, (q.failDelivery d cause).backlog.closed = q.backlog.closed := by
    intro d cause
    rw [failDelivery_backlog]
    rfl
  cases c with
  | start hw c => exact c.over
  | choose hw c => exact c.over
  | callOffOpen hw hc => exact .inl (hfail _ _)
  | openFailed hw hc e => exact .inl (hfail _ _)
  | sent hw hc => exact .inl (by simp [completeDelivery, closeTopic, publish, note])
  | resetDone hw => exact .inl (hfail _ _)
  | part hw => exact .inr (.inr (.inl rfl))
  | _ => exact .inl rfl

/-- A move that closes the backlog is one after which no worker will have a turn in its loop. -/
theorem over_step (q : Queue) (m : Move) (hopen : q.backlog.closed = false)
    (hclosed : (q.step m).backlog.closed = true) : (q.step m).Over := by
  have hsame : ∀ {q' : Queue}, q'.backlog.closed = true →
      q'.backlog.closed = q.backlog.closed → q'.Over := by
    intro q' hq' heq
    rw [heq, hopen] at hq'
    cases hq'
  have c := step_outcome q m
  generalize q.step m = q' at c hclosed
  cases c with
  | @arrived t size edits hr ht => exact hsame hclosed (reserve_arrival q t size edits).closed_eq
  | @returned t edits => exact hsame hclosed (resume_return q t edits).closed_eq
  | abandoned =>
    refine hsame hclosed ?_
    unfold Queue.abandon
    split <;> rfl
  | scrubbed hr =>
    refine hsame hclosed ?_
    rw [scrub_backlog]
    rfl
  | worked => exact (work_turn q _).over.elim (hsame hclosed) id
  | dropped hr hw hp => exact .inr (.inr ⟨hw, rfl⟩)
  | _ => exact hsame hclosed rfl

/-- The producers that wait reserve something. -/
def Sized (q : Queue) : Prop := ∀ p ∈ q.producers, p.size ≠ 0

theorem sized_step (q : Queue) (m : Move) (h : q.Sized) : (q.step m).Sized := by
  have hsame : ∀ {q' : Queue}, q'.producers = q.producers → q'.Sized := by
    intro q' heq
    unfold Sized
    rw [heq]
    exact h
  have hothers : ∀ {q' : Queue} {t : Ticket},
      q'.producers = q.producers.filter (fun p => p.ticket ≠ t) → q'.Sized := by
    intro q' t heq p hp
    rw [heq] at hp
    exact h p (List.mem_of_mem_filter hp)
  have c := step_outcome q m
  generalize q.step m = q' at c
  cases c with
  | @arrived t size edits hr ht =>
    have a := reserve_arrival q t size edits
    generalize q.reserve t size edits = q' at a
    cases a with
    | free hs => exact hsame (mutate_frame q t 0 edits).2
    | callOff hs hc => exact h
    | answered hs hc ha => exact hsame (answer_frame _ t size edits _).2
    | wait hs hc ha =>
      intro p hp
      rcases List.mem_append.mp hp with hp | hp
      · exact h p hp
      · rw [List.mem_singleton.mp hp]
        exact hs
  | @returned t edits =>
    have r := resume_return q t edits
    generalize q.resume t edits = q' at r
    cases r with
    | unknown hw => exact h
    | callOff hw hc => exact hothers rfl
    | answered hw hc ha => exact hothers (answer_frame _ t _ edits _).2
    | wait hw hc ha => exact h
  | abandoned =>
    unfold Queue.abandon
    split
    · exact h
    · exact hothers rfl
  | scrubbed hr => exact hsame (repays_scrub q _).producers
  | worked => exact hsame (work_turn q _).repayment.producers
  | _ => exact h

/-! ## What happens then -/

/-- A producer learns that it has its bytes and gives them back, and the pool may refuse them. -/
def lateVisit (v : Producer × Option MemoryError) : List Action :=
  [.allocated v.1.ticket v.1.size none, .release v.1.size v.2]

/-- What a closed backlog leaves to happen: no work is done, and memory is only given back, by the
producers of these visits. -/
structure Late (q q' : Queue) (visits : List (Producer × Option MemoryError)) : Prop where
  /-- No work is done, and what is about memory are the visits. -/
  entries : ∃ entries, q'.log = q.log ++ entries ∧ (∀ a ∈ entries, a.isOfWork = false) ∧
    entries.filter Action.isOfGrant = visits.flatMap lateVisit
  /-- Everyone gives something back. -/
  sizes : ∀ v ∈ visits, v.1.size ≠ 0

namespace Late

variable {visits visits' : List (Producer × Option MemoryError)}

theorem of_silent (hlog : q'.log = q.log ++ entries) (hwork : ∀ a ∈ entries, a.isOfWork = false)
    (hgrant : ∀ a ∈ entries, a.isOfGrant = false) : Late q q' [] := by
  refine ⟨⟨entries, hlog, hwork, ?_⟩, List.forall_mem_nil _⟩
  exact List.filter_eq_nil_iff.mpr fun a ha => by simp [hgrant a ha]

theorem of_eq (hlog : q'.log = q.log) : Late q q' [] :=
  of_silent (hlog.trans (List.append_nil _).symm) (List.forall_mem_nil _) (List.forall_mem_nil _)

theorem note (q : Queue) {a : Action} (hwork : a.isOfWork = false) (hgrant : a.isOfGrant = false) :
    Late q (q.note a) [] :=
  of_silent rfl (List.forall_mem_singleton.mpr hwork) (List.forall_mem_singleton.mpr hgrant)

theorem trans (h : Late q q' visits) (h' : Late q' q'' visits') :
    Late q q'' (visits ++ visits') := by
  obtain ⟨entries, hlog, hwork, hgrant⟩ := h.entries
  obtain ⟨entries', hlog', hwork', hgrant'⟩ := h'.entries
  refine ⟨⟨entries ++ entries', ?_, ?_, ?_⟩, ?_⟩
  · rw [hlog', hlog, List.append_assoc]
  · exact List.forall_mem_append.mpr ⟨hwork, hwork'⟩
  · rw [List.filter_append, hgrant, hgrant', List.flatMap_append]
  · exact List.forall_mem_append.mpr ⟨h.sizes, h'.sizes⟩

/-- The visits are those of the producers that learn that they have their bytes. -/
theorem learnt_eq (h : Late q q' visits) : q'.learnt = q.learnt ++ visits.map Prod.fst := by
  obtain ⟨entries, hlog, -, hgrant⟩ := h.entries
  have hlearnt : entries.filterMap Action.learnt? =
      (entries.filter Action.isOfGrant).filterMap Action.learnt? := by
    rw [List.filterMap_filter]
    refine List.filterMap_congr fun a _ => ?_
    cases a with
    | allocated p n failure => cases failure <;> rfl
    | _ => rfl
  have hvisits : (visits.flatMap lateVisit).filterMap Action.learnt? = visits.map Prod.fst := by
    rw [List.filterMap_flatMap, List.map_eq_flatMap]
    rfl
  rw [learnt, hlog, List.filterMap_append, hlearnt, hgrant, hvisits, learnt]

end Late

/-- The backlog is closed, the worker is over, and every producer that waits reserves something. -/
structure Shut (q : Queue) : Prop where
  /-- The backlog is closed. -/
  closed : q.backlog.closed = true
  /-- Nothing is in line. -/
  builders : q.backlog.builders = []
  /-- The worker is over. -/
  worker : q.Over
  /-- The producers that wait reserve something. -/
  sized : q.Sized

theorem late_release (q : Queue) (hs : size ≠ 0) :
    ∃ failure, (q.release size).log = q.log ++ [.release size failure] := by
  obtain ⟨pool, receipt, hreceipt, heq⟩ := release_eq q size
  rw [heq]
  cases hreceipt with
  | none => exact absurd rfl hs
  | one hn failure => exact ⟨failure, rfl⟩

/-- A producer that comes with its answer gives back what it has. -/
theorem late_answer (hc : q.backlog.closed = true) (t : Ticket) (hs : size ≠ 0)
    (edits : List Edit) (grant : Grant) :
    ∃ visits, Late q (q.answer t size edits grant) visits := by
  cases grant with
  | refused e =>
    exact ⟨[], (Late.note q rfl rfl).trans (Late.note _ (a := .skipped t) rfl rfl)⟩
  | granted =>
    obtain ⟨failure, hlog⟩ := late_release (q.note (.allocated t size none)) hs
    refine ⟨[(⟨t, size⟩, failure)], ⟨[.allocated t size none, .release size failure, .skipped t],
      ?_, ?_, rfl⟩, List.forall_mem_singleton.mpr hs⟩
    · rw [answer, mutate_of_closed (q := q.note (.allocated t size none)) hc]
      show (release _ size).log ++ [.skipped t] = _
      rw [hlog]
      simp [Queue.note]
    · simp [Action.isOfWork]

theorem Arrival.late (a : Arrival q t size edits q') (hc : q.backlog.closed = true) :
    ∃ visits, Late q q' visits := by
  have hpool : Late q { q with pool := q.pool.request t q.peer size } [] := .of_eq rfl
  have hasked : Late q (q.ask t size) [] := hpool.trans (.note _ rfl rfl)
  cases a with
  | free hs =>
    rw [mutate_of_closed hc]
    exact ⟨[], .note q rfl rfl⟩
  | callOff hs hc' => exact ⟨[], .note q rfl rfl⟩
  | @answered grant pool hs hc' ha =>
    obtain ⟨visits, hlate⟩ := late_answer (q := { q.ask t size with pool }) hc t hs edits grant
    have hread : Late (q.ask t size) { q.ask t size with pool } [] := .of_eq rfl
    exact ⟨_, (hasked.trans hread).trans hlate⟩
  | wait hs hc' ha => exact ⟨_, hasked.trans (.of_eq rfl)⟩

theorem Return.late (r : Return q t edits q') (h : Shut q) : ∃ visits, Late q q' visits := by
  cases r with
  | unknown hw => exact ⟨[], .of_eq rfl⟩
  | callOff hw hc =>
    have hleft : Late q ({ q with pool := q.pool.abandon t }.forgetProducer t) [] := .of_eq rfl
    exact ⟨_, hleft.trans (.note _ rfl rfl)⟩
  | @answered size grant pool hw hc ha =>
    have hs : size ≠ 0 := h.sized _ (mem_of_waitingSize?_eq_some hw)
    obtain ⟨visits, hlate⟩ := late_answer (q := { q with pool }.forgetProducer t) h.closed t hs
      edits grant
    have hread : Late q ({ q with pool }.forgetProducer t) [] := .of_eq rfl
    exact ⟨_, hread.trans hlate⟩
  | wait hw hc ha => exact ⟨[], .of_eq rfl⟩

theorem answer_of_closed (hc : q.backlog.closed = true) (t : Ticket) (size : Nat)
    (edits : List Edit) (grant : Grant) :
    (q.answer t size edits grant).backlog = q.backlog := by
  cases grant with
  | refused e => rfl
  | granted =>
    rw [answer, mutate_of_closed (q := q.note (.allocated t size none)) hc]
    exact release_backlog _ size

theorem Arrival.backlog_of_closed (a : Arrival q t size edits q') (hc : q.backlog.closed = true) :
    q'.backlog = q.backlog := by
  cases a with
  | free hs =>
    rw [mutate_of_closed hc]
    exact release_backlog q 0
  | callOff hs hc' => rfl
  | @answered grant pool hs hc' ha =>
    exact answer_of_closed (q := { q.ask t size with pool }) hc t size edits grant
  | wait hs hc' ha => rfl

theorem Return.backlog_of_closed (r : Return q t edits q') (hc : q.backlog.closed = true) :
    q'.backlog = q.backlog := by
  cases r with
  | unknown hw => rfl
  | callOff hw hc' => rfl
  | @answered size grant pool hw hc' ha =>
    exact answer_of_closed (q := { q with pool }.forgetProducer t) hc t size edits grant
  | wait hw hc' ha => rfl

theorem Shut.teardown_late (h : Shut q) : Late q q.teardown [] := by
  have hlog : q.teardown.log = q.log ++ [.releasePeer q.peer, .busStopped] := by
    simp [teardown, closeBacklog, Queue.note, h.builders]
  exact .of_silent hlog (by simp [Action.isOfWork]) (by simp [Action.isOfGrant])

/-- Whatever happens to a queue with a closed backlog, the backlog stays closed and empty, no work
is done, and what is granted is given back. -/
theorem Shut.step (h : Shut q) (m : Move) :
    Shut (q.step m) ∧ ∃ visits, Late q (q.step m) visits := by
  have hunreachable := unreachable_step q m
  have hsized := sized_step q m h.sized
  have c := step_outcome q m
  generalize q.step m = q' at c hunreachable hsized
  have hshut : q'.backlog = q.backlog → q'.worker = q.worker → Shut q' := by
    intro hbacklog hworker
    refine ⟨by rw [hbacklog]; exact h.closed, by rw [hbacklog]; exact h.builders, ?_, hsized⟩
    unfold Over
    rw [hworker]
    exact h.worker.imp_right (.imp_right (.imp_right hunreachable))
  have hstarted : q.worker = .unstarted → q.reachable = true → False := by
    intro hw hr
    rcases h.worker with hw' | hw' | ⟨-, hr'⟩
    · rw [hw] at hw'
      cases hw'
    · rw [hw] at hw'
      cases hw'
    · rw [hr] at hr'
      cases hr'
  cases c with
  | refused _ => exact ⟨h, [], .of_eq rfl⟩
  | @arrived t size edits hr ht =>
    have a := reserve_arrival q t size edits
    exact ⟨hshut (a.backlog_of_closed h.closed) a.worker_eq, a.late h.closed⟩
  | @returned t edits =>
    have r := resume_return q t edits
    exact ⟨hshut (r.backlog_of_closed h.closed) r.worker_eq, r.late h⟩
  | @abandoned t =>
    unfold Queue.abandon at hshut ⊢
    split at hshut
    · exact ⟨h, [], .of_eq rfl⟩
    · exact ⟨hshut rfl rfl, [], .of_eq rfl⟩
  | launched hr hw => exact (hstarted hw hr).elim
  | @scrubbed rs hr =>
    have hfrees : q.backlog.scrubFrees rs = 0 := by simp [Backlog.scrubFrees, h.builders]
    have hscrub : q.backlog.scrub rs = q.backlog := by
      have hbuilders := h.builders
      generalize q.backlog = backlog at hbuilders
      obtain ⟨builders, nextTopic, closed⟩ := backlog
      cases hbuilders
      rfl
    rw [Queue.scrub, hfrees, hscrub] at hshut ⊢
    exact ⟨hshut rfl rfl, [], .note q rfl rfl⟩
  | @worked reply =>
    have c := work_turn q reply
    generalize q.work reply = q' at c hsized
    cases c with
    | wait => exact ⟨h, [], .of_eq rfl⟩
    | part hw => exact ⟨⟨rfl, rfl, .inr (.inl rfl), hsized⟩, [], h.teardown_late⟩
    | _ => exact absurd h.worker (by simp [Over, *])
  | dropped hr hw hp => exact (hstarted hw hr).elim
  | _ => exact ⟨hshut rfl rfl, [], .of_eq rfl⟩

theorem Shut.run (h : Shut q) (moves : List Move) :
    Shut (q.run moves) ∧ ∃ visits, Late q (q.run moves) visits := by
  induction moves generalizing q with
  | nil => exact ⟨h, [], .of_eq rfl⟩
  | cons m rest ih =>
    obtain ⟨hshut, visits, hfirst⟩ := h.step m
    obtain ⟨hshut', visits', hrest⟩ := ih hshut
    exact ⟨hshut', _, hfirst.trans hrest⟩

/-! ## Whole runs -/

/-- Whenever the backlog of a queue is closed, it is shut for good. -/
theorem IsNew.shut (hnew : start.IsNew) (h : Reachable start q)
    (hclosed : q.backlog.closed = true) : Shut q := by
  have hopen : start.backlog.closed = false := congrArg (·.backlog.closed) hnew
  obtain ⟨horderly, hsized, hover⟩ :
      Orderly q ∧ q.Sized ∧ (q.backlog.closed = true → q.Over) := by
    refine h.invariant
      (I := fun q => Orderly q ∧ q.Sized ∧ (q.backlog.closed = true → q.Over)) ?_ ?_
    · have hhere : Path (fun _ => True) start start := .refl
      refine ⟨hnew.orderly hhere, ?_, fun hq => ?_⟩
      · unfold Sized
        rw [hnew.producers_eq]
        exact List.forall_mem_nil _
      · rw [hopen] at hq
        cases hq
    · rintro q m ⟨horderly, hsized, hover⟩
      have hpath : Path (fun _ => True) q (q.step m) := step_path q m fun _ _ => trivial
      refine ⟨hpath.invariant horderly fun a hq => hq.act a, sized_step q m hsized, fun hq => ?_⟩
      cases hc : q.backlog.closed with
      | true => exact (Shut.step ⟨hc, horderly.empty hc, hover hc, hsized⟩ m).1.worker
      | false => exact over_step q m hc hq
  exact ⟨hclosed, horderly.empty hclosed, hover hclosed, hsized⟩

/-- A worker that is gone does not come back. -/
theorem Act.isStopped (a : Act others q entries q') (h : q.isStopped = true) :
    q'.isStopped = true := by
  rw [isStopped_iff] at h ⊢
  cases a with
  | aside => exact h
  | attached => exact h
  | departed => exact h
  | edited => exact h
  | scrubbed => exact h
  | emptied => exact h
  | _ => simp_all

/-- A queue with an allocator of its own keeps it to itself until it has given everything back. -/
theorem sole_run {moves : List Move} (h : (q.worker ≠ .stopped ∧ IsSole q) ∨ Gone 0 q)
    (ho : ∀ m ∈ moves, m.isOfOther = false) :
    ((q.run moves).worker ≠ .stopped ∧ IsSole (q.run moves)) ∨ Gone 0 (q.run moves) := by
  induction moves generalizing q with
  | nil => exact h
  | cons m rest ih =>
    obtain ⟨hm, hrest⟩ := List.forall_mem_cons.mp ho
    refine ih ?_ hrest
    rcases h with ⟨hw, h⟩ | h
    · exact (h.step hw hm).1.imp_left fun hq => ⟨hq.1, hq.2.1⟩
    · exact .inr (gone_step q m hm h)

/-- Nothing is in use any more. -/
theorem Gone.use_eq (h : Gone 0 q) : ∃ a, q.pool = .limited a ∧ a.use = ⟨0, 0, 0⟩ := by
  obtain ⟨limits, answers, hpool, -⟩ := h.pool
  refine ⟨_, hpool, ?_⟩
  unfold Allocator.sole Allocator.only Allocator.use
  rw [if_pos rfl]
  rfl

/-- **The end is final and comes once.**  Whatever a queue is asked for and in whichever order, at
most one worker is started; it opens the bus, gives all the memory of the peer back and shuts the
bus down at most once each.  A worker that is gone has closed the backlog and does not come back.
Once the backlog is closed it stays closed and empty: no edits are carried out, no builder is taken
and no event is published.  Of the producers whose grants lay unread then or who are granted their
bytes later, everyone who is not waiting for its turn and has not gone away or seen a cancellation
has given its bytes back, in one release of its own size.  If the queue is the only user of its
allocator, nothing is in use once the worker is gone. -/
theorem stop_is_final {start : Queue} (hnew : start.IsNew) (before after : List Move) :
    let q := start.run before
    let q' := q.run after
    start.sumAlong launchesIn (before ++ after) ≤ 1 ∧
      q'.log.filter Action.isOfLife <+: [.busStarted, .releasePeer start.peer, .busStopped] ∧
      (q.isStopped = true → q.backlog.closed = true ∧ q'.isStopped = true) ∧
      (q.backlog.closed = true → Shut q' ∧ ∃ visits, Late q q' visits ∧
        (visits.map Prod.fst ++ (q'.grantees ++ q.collectAlong leaversIn after)).Perm
          (q.grantees ++ q.collectAlong granteesIn after)) ∧
      (q.isStopped = true → ∀ limits, start.pool = .limited { limits } →
        (∀ m ∈ before ++ after, m.isOfOther = false) →
        ∃ a, q'.pool = .limited a ∧ a.use = ⟨0, 0, 0⟩) := by
  intro q q'
  have hreach : Reachable start q := ⟨before, rfl⟩
  have hpath : Path (fun _ => True) q q' := Reachable.path ⟨after, rfl⟩
  have hwhole : Path (fun _ => True) start q' := hreach.path.trans hpath
  have hpeer : q'.peer = start.peer :=
    hwhole.invariant (I := fun q => q.peer = start.peer) rfl fun a hq => a.peer_eq.trans hq
  refine ⟨?_, ?_, fun hstopped => ⟨?_, ?_⟩, fun hclosed => ?_, fun hstopped limits hpool ho => ?_⟩
  · exact (launches_le_one start _).trans (by split <;> simp)
  · rw [hnew.coursed hwhole, hpeer]
    exact q'.worker.course_prefix start.peer
  · exact (hnew.orderly hreach.path).stopped (isStopped_iff.mp hstopped)
  · exact hpath.invariant hstopped fun a => a.isStopped
  · obtain ⟨hshut, visits, hlate⟩ := (hnew.shut hreach hclosed).run after
    refine ⟨hshut, visits, hlate, ?_⟩
    have hdistinct : q.Distinct :=
      hreach.invariant hnew.distinct distinct_step
    have htraced := traced_run hdistinct after
    unfold Traced at htraced
    rw [hlate.learnt_eq, List.append_assoc] at htraced
    exact (List.perm_append_left_iff _).mp htraced
  · rw [List.forall_mem_append] at ho
    have hsole : Sole limits {} [] start := sole_of_isNew hnew hpool
    have hstart : start.worker ≠ .stopped := by
      rw [hnew.worker_eq]
      rintro ⟨⟩
    rcases sole_run (.inl ⟨hstart, hsole.isSole⟩) ho.1 with hthere | hgone
    · exact absurd (isStopped_iff.mp hstopped) hthere.1
    · rcases sole_run (.inr hgone) ho.2 with hthere | hgone'
      · exact absurd (isStopped_iff.mp (hpath.invariant hstopped fun a => a.isStopped)) hthere.1
      · exact hgone'.use_eq

/-- A worker is started twice and asked to stop in every way.  One producer reads its grant when the
worker is gone, another one comes only then; both give back what they have. -/
theorem stop_is_final_of_late :
    let start : Queue :=
      { peer := Peer.zero, settings := {},
        pool := .limited { limits := { total := 10, perPeer := 10 } } }
    let block : Edit := .addBlock (Block.fill default 10 1)
    let before : List Move := [.reserve 0 10 [block], .reserve 1 10 [block], .startup, .shutdown,
      .startup, .work none]
    let after : List Move := [.resume 1 [block], .shutdown, .reserve 2 5 [block], .startup,
      .work none, .cancel, .letGo]
    let q := start.run before
    let q' := q.run after
    start.sumAlong launchesIn (before ++ after) = 1 ∧ q.isStopped = true ∧
      q.grantees = [⟨1, 10⟩] ∧ q.collectAlong granteesIn after = [⟨2, 5⟩] ∧ Shut q' ∧
      (∃ visits, Late q q' visits ∧ (visits.map Prod.fst).Perm [⟨1, 10⟩, ⟨2, 5⟩]) ∧
      ∃ a, q'.pool = .limited a ∧ a.use = ⟨0, 0, 0⟩ := by
  intro start block before after q q'
  have hnew : start.IsNew := rfl
  have hstopped : q.isStopped = true := by decide +kernel
  have hunread : q.grantees = [⟨1, 10⟩] := by decide +kernel
  have hgranted : q.collectAlong granteesIn after = [⟨2, 5⟩] := by decide +kernel
  have hleft : q'.grantees ++ q.collectAlong leaversIn after = [] := by decide +kernel
  obtain ⟨-, -, hclosed, hend, huse⟩ := stop_is_final hnew before after
  obtain ⟨hshut, visits, hlate, hperm⟩ := hend (hclosed hstopped).1
  refine ⟨by decide +kernel, hstopped, hunread, hgranted, hshut, ⟨visits, hlate, ?_⟩, ?_⟩
  · have hvisits : (visits.map Prod.fst ++ (q'.grantees ++ q.collectAlong leaversIn after)).Perm
        (q.grantees ++ q.collectAlong granteesIn after) := hperm
    rw [hleft, hunread, hgranted, List.append_nil] at hvisits
    exact hvisits
  · exact huse hstopped _ rfl (by simp [before, after, Move.isOfOther])

end Queue

end Outbox
