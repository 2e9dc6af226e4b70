import Mathlib.Logic.Relation
import Outbox.Proofs.Queue.History
import Outbox.Proofs.Queue.Run
import Outbox.Proofs.Queue.Visit

/-!
# What happens to a queue, act by act

A run is what happens on one thread: a move is all that one task does until it has to wait, and no
other task does anything meanwhile.  A move can be long, since a drain takes one builder after the
other.  This file cuts every move into acts, which are small enough to prove things about; a
sequence of acts is a path, and every run is one.

Paths are a little freer than runs, as they let a producer edit or an owner scrub after each act of
one and the same move.  They do not describe tasks on several threads.  The backlog is unlocked more
than once while a message fails, before the failure is published and before the memory goes back, so
that a producer on another thread could come in there; inside an act nobody does.

* `Queue.Receipt` — what giving memory back leaves in the log;
* `Queue.Act` — one act, with the entries it adds to the log and the queue after it;
* `Queue.Path` — the queues that a sequence of acts leads to;
* `Queue.step_path`, `Queue.run_path` — every move, and so every run, is a path;
* `Queue.Path.cut` — every entry of the log was added by one act of the path.
-/

namespace Outbox

/-- The bus after the sinks of a message are registered for its topic. -/
def Bus.register (bus : Bus) (d : Finished) : Bus :=
  d.sinks.foldl (fun bus s => bus.subscribe d.topic s) bus

/-- The action is about memory only, or about edits that are not carried out. -/
def Action.isQuiet : Action → Bool
  | allocate .. => true
  | allocated .. => true
  | skipped _ => true
  | release .. => true
  | _ => false

namespace Queue

/-! ## Memory that is given back -/

/-- What giving back so many bytes leaves in the log: nothing if there are none. -/
inductive Receipt : Nat → List Action → Prop
  /-- There is nothing to give back. -/
  | none : Receipt 0 []
  /-- The pool takes the bytes, or refuses them. -/
  | one {n : Nat} (hn : n ≠ 0) (failure : Option MemoryError) :
      Receipt n [.release n failure]

theorem Receipt.isQuiet {n : Nat} {receipt : List Action} (h : Receipt n receipt) :
    ∀ a ∈ receipt, a.isQuiet = true := by
  intro a ha
  cases h with
  | none => cases ha
  | one hn failure =>
    rw [List.mem_singleton.mp ha]
    rfl

theorem release_eq (q : Queue) (n : Nat) : ∃ pool receipt, Receipt n receipt ∧
    q.release n = { q with pool, log := q.log ++ receipt } := by
  unfold release
  by_cases hn : n = 0
  · subst hn
    exact ⟨q.pool, [], .none, by simp⟩
  rw [if_neg hn]
  split
  · exact ⟨_, _, .one hn none, rfl⟩
  · exact ⟨q.pool, _, .one hn _, rfl⟩

/-! ## Messages that fail -/

/-- The entries about a message that will never be delivered, between the two receipts for what its
requests had pending elsewhere and for its own bytes. -/
def failureEntries (d : Finished) (cause : QueueError) (receivers : Nat)
    (purge back : List Action) : List Action :=
  (streamsInOrder d).map .streamClosed ++ .scrubbed d.requests ::
    (purge ++ .published d.topic ⟨.failed cause, d.metadata⟩ receivers ::
      (back ++ [.closed d.topic]))

/-- A message fails and its topic is closed. -/
theorem fail_close_eq (q : Queue) (d : Finished) (cause : QueueError) :
    ∃ pool bus post n purge back,
      Receipt (q.backlog.scrubFrees d.requests) purge ∧ Receipt d.size back ∧
      q.bus.publish q.post d.topic ⟨.failed cause, d.metadata⟩ = (bus, post, n) ∧
      (q.fail d cause).closeTopic d.topic = { q with
        backlog := q.backlog.scrub d.requests, pool, bus := bus.close d.topic, post
        log := q.log ++ failureEntries d cause n purge back } := by
  unfold fail
  rw [closeStreams_eq]
  unfold scrub
  simp only [note]
  obtain ⟨pool, purge, hpurge, heq⟩ := release_eq
    { q with
      backlog := q.backlog.scrub d.requests
      log := q.log ++ (streamsInOrder d).map .streamClosed ++ [.scrubbed d.requests] }
    (q.backlog.scrubFrees d.requests)
  rw [heq]
  unfold publish
  obtain ⟨bus, post, n, hp⟩ : ∃ bus post n,
      q.bus.publish q.post d.topic ⟨.failed cause, d.metadata⟩ = (bus, post, n) := ⟨_, _, _, rfl⟩
  simp only [note, hp]
  obtain ⟨pool', back, hback, heq'⟩ := release_eq
    { q with
      backlog := q.backlog.scrub d.requests, pool, bus, post
      log := q.log ++ (streamsInOrder d).map .streamClosed ++ [.scrubbed d.requests] ++ purge ++
        [.published d.topic ⟨.failed cause, d.metadata⟩ n] } d.size
  refine ⟨pool', bus, post, n, purge, back, hpurge, hback, rfl, ?_⟩
  rw [heq']
  simp [closeTopic, note, failureEntries]

/-! ## Acts -/

/-- What a worker does with a message first: it sends it if it has a sender, and asks for one if it
has none. -/
def firstAction (q : Queue) (sender : Bool) (d : Finished) : Action :=
  if sender then .sending d.message else .opening q.peer q.settings

/-- Where a worker stands then. -/
def firstStand (sender : Bool) (d : Finished) : Worker :=
  if sender then .sending d else .opening d

/-- The entries about a message that is taken and announced. -/
def announcement (q : Queue) (sender : Bool) (b : Builder) (d : Finished) (receivers : Nat) :
    List Action :=
  .dequeued b :: (d.sinks.map (.subscribed d.topic) ++
    [.published d.topic ⟨.queued, d.metadata⟩ receivers, q.firstAction sender d])

/-- The entries about a message that was sent. -/
def completion (d : Finished) (receivers : Nat) (back : List Action) : List Action :=
  .sendOk :: .published d.topic ⟨.sent, d.metadata⟩ receivers :: (back ++ [.closed d.topic])

/-- The entries about the end of a worker that throws the builders away. -/
def teardownEntries (q : Queue) : List Action :=
  q.backlog.builders.map .discarded ++ [.releasePeer q.peer, .busStopped]

section Entries

variable {P : Action → Prop} {d : Finished} {n m m' : Nat} {purge back : List Action}

/-- What holds of every entry about a message that fails. -/
theorem forall_mem_failureEntries {cause : QueueError} (hpurge : Receipt m purge)
    (hback : Receipt m' back) (hquiet : ∀ a, a.isQuiet = true → P a)
    (hstream : ∀ s, P (.streamClosed s)) (hscrub : P (.scrubbed d.requests))
    (hpublish : P (.published d.topic ⟨.failed cause, d.metadata⟩ n))
    (hclose : P (.closed d.topic)) : ∀ a ∈ failureEntries d cause n purge back, P a := by
  intro a ha
  simp only [failureEntries, List.mem_append, List.mem_cons, List.mem_map, List.not_mem_nil,
    or_false] at ha
  rcases ha with ⟨s, -, rfl⟩ | rfl | ha | rfl | ha | rfl
  · exact hstream s
  · exact hscrub
  · exact hquiet a (hpurge.isQuiet a ha)
  · exact hpublish
  · exact hquiet a (hback.isQuiet a ha)
  · exact hclose

/-- What holds of every entry about a message that is taken and announced. -/
theorem forall_mem_announcement {q : Queue} {sender : Bool} {b : Builder} (htake : P (.dequeued b))
    (hsink : ∀ s, P (.subscribed d.topic s))
    (hpublish : P (.published d.topic ⟨.queued, d.metadata⟩ n))
    (hfirst : P (q.firstAction sender d)) : ∀ a ∈ q.announcement sender b d n, P a := by
  intro a ha
  simp only [announcement, List.mem_cons, List.mem_append, List.mem_map, List.not_mem_nil,
    or_false] at ha
  rcases ha with rfl | ⟨s, -, rfl⟩ | rfl | rfl
  · exact htake
  · exact hsink s
  · exact hpublish
  · exact hfirst

/-- What holds of every entry about a message that was sent. -/
theorem forall_mem_completion (hback : Receipt m back) (hquiet : ∀ a, a.isQuiet = true → P a)
    (hok : P .sendOk) (hpublish : P (.published d.topic ⟨.sent, d.metadata⟩ n))
    (hclose : P (.closed d.topic)) : ∀ a ∈ completion d n back, P a := by
  intro a ha
  simp only [completion, List.mem_cons, List.mem_append, List.not_mem_nil, or_false] at ha
  rcases ha with rfl | rfl | ha | rfl
  · exact hok
  · exact hpublish
  · exact hquiet a (hback.isQuiet a ha)
  · exact hclose

end Entries

/-- One act, with what it adds to the log.  Only sinks among the `others` are registered, and only
their readers leave, by someone else. -/
inductive Act (others : Sink → Prop) (q : Queue) : List Action → Queue → Prop
  /-- Something happens around the queue: to its memory, to the producers that wait, or to what is
  asked of the worker, which is not taken back. -/
  | aside {entries : List Action} {token stopRequested cancelled reachable : Bool} {pool : Pool}
      {producers : List Producer} (he : ∀ a ∈ entries, a.isQuiet = true)
      (hs : q.stopRequested = true → stopRequested = true)
      (hc : q.cancelled = true → cancelled = true)
      (hr : reachable = true → q.reachable = true) :
      Act others q entries { q with
        token, stopRequested, cancelled, reachable, pool, producers, log := q.log ++ entries }
  /-- Someone else registers a sink. -/
  | attached {t : Topic} {s : Sink} (ho : others s) :
      Act others q [] { q with bus := q.bus.subscribe t s }
  /-- A reader leaves. -/
  | departed {s : Sink} (ho : others s) : Act others q [] { q with post := q.post.depart s }
  /-- The edits of a producer are carried out. -/
  | edited {p size : Nat} {edits : List Edit} {report : EditReport} {backlog : Backlog}
      {token : Bool} (hc : q.backlog.closed = false)
      (hm : Backlog.Mutation q.backlog size edits (.ok (report, backlog))) :
      Act others q [.mutated p edits report] { q with
        backlog, token, log := q.log ++ [.mutated p edits report] }
  /-- Requests are scrubbed. -/
  | scrubbed {rs : List RequestId} {pool : Pool} {receipt : List Action}
      (hr : Receipt (q.backlog.scrubFrees rs) receipt) :
      Act others q (.scrubbed rs :: receipt) { q with
        backlog := q.backlog.scrub rs, pool, log := q.log ++ .scrubbed rs :: receipt }
  /-- The worker is started. -/
  | launched (hw : q.worker = .unstarted) (hr : q.reachable = true) :
      Act others q [] { q with worker := .launched }
  /-- The queue is let go of before its worker was started. -/
  | dropped (hw : q.worker = .unstarted) :
      Act others q (q.backlog.builders.map .discarded) { q with
        reachable := false
        stopRequested := true
        backlog := q.backlog.close
        log := q.log ++ q.backlog.builders.map .discarded }
  /-- The worker opens the bus. -/
  | started (hw : q.worker = .launched) :
      Act others q [.busStarted] { q with
        bus := q.bus.startup, worker := .choosing false, log := q.log ++ [.busStarted] }
  /-- The worker takes an empty builder. -/
  | skipped {sender token : Bool} {b : Builder} {rest : List Builder}
      (hw : q.worker = .choosing sender) (hb : q.backlog.builders = b :: rest)
      (hf : b.finish? = none) :
      Act others q [.dequeued b] { q with
        backlog := { q.backlog with builders := rest }, token, log := q.log ++ [.dequeued b] }
  /-- The worker takes a builder with a message and announces it. -/
  | announced {sender token : Bool} {b : Builder} {rest : List Builder} {d : Finished} {bus : Bus}
      {post : Post Event} {n : Nat} {entries : List Action} (hw : q.worker = .choosing sender)
      (hs : q.stopRequested = false) (hb : q.backlog.builders = b :: rest)
      (hf : b.finish? = some d)
      (hp : (q.bus.register d).publish q.post d.topic ⟨.queued, d.metadata⟩ = (bus, post, n))
      (he : entries = q.announcement sender b d n) :
      Act others q entries { q with
        backlog := { q.backlog with builders := rest }, token, bus, post
        worker := firstStand sender d, log := q.log ++ entries }
  /-- The sender is open and the send begins. -/
  | opened {d : Finished} (hw : q.worker = .opening d) :
      Act others q [.opened, .sending d.message] { q with
        worker := .sending d, log := q.log ++ [.opened, .sending d.message] }
  /-- The message was sent. -/
  | sent {d : Finished} {pool : Pool} {bus : Bus} {post : Post Event} {n : Nat}
      {back entries : List Action} (hw : q.worker = .sending d) (hback : Receipt d.size back)
      (hp : q.bus.publish q.post d.topic ⟨.sent, d.metadata⟩ = (bus, post, n))
      (he : entries = completion d n back) :
      Act others q entries { q with
        pool, bus := bus.close d.topic, post, worker := .choosing true, log := q.log ++ entries }
  /-- The send failed or was called off, and the sender is reset. -/
  | interrupted {d : Finished} {cause : QueueError} {entries : List Action}
      (hw : q.worker = .sending d) (hcause : cause.isOfDelivery = true)
      (he : entries = [.senderReset] ∨ ∃ e, entries = [.sendFailed e, .senderReset]) :
      Act others q entries { q with worker := .resetting d cause, log := q.log ++ entries }
  /-- The delivery failed.  Streams, scrub, report and memory are dealt with in one go, since the
  worker does not have to wait in between. -/
  | failed {d : Finished} {cause : QueueError} {pool : Pool} {bus : Bus} {post : Post Event}
      {n : Nat} {purge back entries : List Action}
      (hw : (q.worker = .opening d ∧ cause.isOfDelivery = true) ∨ q.worker = .resetting d cause)
      (hpurge : Receipt (q.backlog.scrubFrees d.requests) purge) (hback : Receipt d.size back)
      (hp : q.bus.publish q.post d.topic ⟨.failed cause, d.metadata⟩ = (bus, post, n))
      (he : entries = failureEntries d cause n purge back) :
      Act others q entries { q with
        backlog := q.backlog.scrub d.requests, stopRequested := true, pool
        bus := bus.close d.topic, post, worker := .choosing false, log := q.log ++ entries }
  /-- A worker that is asked to stop takes a builder and reports its message as failed, without
  having to wait in between. -/
  | drained {sender : Bool} {b : Builder} {rest : List Builder} {d : Finished} {pool : Pool}
      {bus : Bus} {post : Post Event} {n : Nat} {purge back entries : List Action}
      (hw : q.worker = .choosing sender) (hs : q.stopRequested = true)
      (hb : q.backlog.builders = b :: rest) (hf : b.finish? = some d)
      (hpurge : Receipt ({ q.backlog with builders := rest }.scrubFrees d.requests) purge)
      (hback : Receipt d.size back)
      (hp : (q.bus.register d).publish q.post d.topic ⟨.failed .shutdown, d.metadata⟩ =
        (bus, post, n))
      (he : entries = .dequeued b :: (d.sinks.map (.subscribed d.topic) ++
        failureEntries d .shutdown n purge back)) :
      Act others q entries { q with
        backlog := { q.backlog with builders := rest }.scrub d.requests, pool
        bus := bus.close d.topic, post, log := q.log ++ entries }
  /-- A worker that is asked to stop finds the backlog empty and closes it. -/
  | emptied {sender : Bool} (hw : q.worker = .choosing sender) (hs : q.stopRequested = true)
      (hb : q.backlog.builders = []) : Act others q [] { q with backlog := q.backlog.close }
  /-- A worker with a sender leaves its loop and resets the sender. -/
  | parted (hw : q.worker = .choosing true)
      (hend : q.cancelled = true ∨ q.backlog.closed = true) :
      Act others q [.senderReset] { q with worker := .parting, log := q.log ++ [.senderReset] }
  /-- The worker ends. -/
  | ended {pool : Pool} (hw : q.worker = .parting ∨
        (q.worker = .choosing false ∧ (q.cancelled = true ∨ q.backlog.closed = true))) :
      Act others q q.teardownEntries { q with
        backlog := q.backlog.close
        pool
        bus := q.bus.shutdown
        worker := .stopped
        log := q.log ++ q.teardownEntries }

theorem Act.log_eq {others : Sink → Prop} {q q' : Queue} {entries : List Action}
    (a : Act others q entries q') : q'.log = q.log ++ entries := by
  cases a <;> first | rfl | exact (List.append_nil _).symm

/-- A sequence of acts leads from one queue to the other.  Every run of moves is such a path
(`run_path`). -/
def Path (others : Sink → Prop) : Queue → Queue → Prop :=
  Relation.ReflTransGen fun q q' => ∃ entries, Act others q entries q'

/-! ## Turns of producers -/

section Turns

variable {others : Sink → Prop} {q q' : Queue}

theorem Act.path {entries : List Action} (a : Act others q entries q') : Path others q q' :=
  .single ⟨entries, a⟩

/-- Entries about memory are an act. -/
theorem aside_path (others : Sink → Prop) (q : Queue) {entries : List Action}
    (he : ∀ a ∈ entries, a.isQuiet = true) (pool : Pool) (producers : List Producer) :
    Path others q { q with pool, producers, log := q.log ++ entries } :=
  Act.path (.aside he id id id)

theorem mutate_path (q : Queue) (p size : Nat) (edits : List Edit) :
    Path others q (q.mutate p size edits) := by
  have he := mutate_editing q p size edits
  generalize q.mutate p size edits = q' at he
  cases he with
  | refused hr =>
    obtain ⟨pool, receipt, hreceipt, heq⟩ := release_eq q size
    rw [heq]
    have hquiet : ∀ a ∈ receipt ++ [.skipped p], a.isQuiet = true := by
      intro a ha
      rcases List.mem_append.mp ha with ha | ha
      · exact hreceipt.isQuiet a ha
      · rw [List.mem_singleton.mp ha]
        rfl
    have hpath := aside_path others q hquiet pool q.producers
    simpa [note] using hpath
  | done hc hm => exact Act.path (.edited hc hm)

theorem answer_path (q : Queue) (t : Ticket) (size : Nat) (edits : List Edit) (grant : Grant) :
    Path others q (q.answer t size edits grant) := by
  cases grant with
  | granted =>
    have hheard : Path others q (q.note (.allocated t size none)) :=
      aside_path _ _ (by simp [Action.isQuiet]) q.pool q.producers
    exact hheard.trans (mutate_path _ t size edits)
  | refused e =>
    have hheard : Path others q { q with
        log := q.log ++ [.allocated t size (some e), .skipped t] } :=
      aside_path _ _ (by simp [Action.isQuiet]) q.pool q.producers
    simpa [answer, note] using hheard

theorem Arrival.path {t : Ticket} {size : Nat} {edits : List Edit}
    (a : Arrival q t size edits q') : Path others q q' := by
  have hasked : ∀ pool producers, Path others q
      { q with pool, producers, log := q.log ++ [.allocate t size] } :=
    aside_path _ _ (by simp [Action.isQuiet])
  cases a with
  | free hs => exact mutate_path q t 0 edits
  | callOff hs hc => exact aside_path _ _ (by simp [Action.isQuiet]) q.pool q.producers
  | @answered grant pool hs hc ha =>
    exact (hasked pool q.producers).trans (answer_path _ t size edits grant)
  | wait hs hc ha => exact hasked _ _

theorem Return.path {t : Ticket} {edits : List Edit} (r : Return q t edits q') :
    Path others q q' := by
  cases r with
  | unknown hw => exact .refl
  | callOff hw hc => exact aside_path _ _ (by simp [Action.isQuiet]) _ _
  | @answered size grant pool hw hc ha =>
    have hleft : Path others q ({ q with pool }.forgetProducer t) := by
      have hpath := aside_path others q (List.forall_mem_nil _) pool
        (q.producers.filter (fun p => p.ticket ≠ t))
      simpa [forgetProducer] using hpath
    exact hleft.trans (answer_path _ t size edits grant)
  | wait hw hc ha => exact .refl

/-! ## Turns of the worker -/

theorem failDelivery_path {d : Finished} {cause : QueueError}
    (hw : (q.worker = .opening d ∧ cause.isOfDelivery = true) ∨ q.worker = .resetting d cause) :
    Path others q (q.failDelivery d cause) := by
  obtain ⟨pool, bus, post, n, purge, back, hpurge, hback, hp, heq⟩ := fail_close_eq q d cause
  have hend : q.failDelivery d cause =
      { (q.fail d cause).closeTopic d.topic with
        stopRequested := true, worker := .choosing false } := rfl
  rw [hend, heq]
  exact Act.path (.failed hw hpurge hback hp rfl)

theorem completeDelivery_path {d : Finished} (hw : q.worker = .sending d) :
    Path others q ((q.note .sendOk).completeDelivery d) := by
  obtain ⟨bus, post, n, hp⟩ : ∃ bus post n,
      q.bus.publish q.post d.topic ⟨.sent, d.metadata⟩ = (bus, post, n) := ⟨_, _, _, rfl⟩
  unfold completeDelivery publish
  simp only [note, hp]
  obtain ⟨pool, back, hback, heq⟩ := release_eq
    { q with
      bus, post
      log := q.log ++ [.sendOk] ++ [.published d.topic ⟨.sent, d.metadata⟩ n] } d.size
  rw [heq]
  have hpath : Path others q _ :=
    Act.path (@Act.sent others q d pool bus post n back _ hw hback hp rfl)
  simpa [closeTopic, note, completion] using hpath

theorem teardown_path (hw : q.worker = .parting ∨
    (q.worker = .choosing false ∧ (q.cancelled = true ∨ q.backlog.closed = true))) :
    Path others q q.teardown := by
  have hpath : Path others q _ := Act.path (@Act.ended others q (q.pool.releasePeer q.peer) hw)
  simpa [teardown, closeBacklog, note, teardownEntries] using hpath

/-- The queue with a worker that is free to choose.  A worker that has opened the bus is free to
choose from then on, although it is said to stand there only when its turn is over. -/
def choosing (q : Queue) (sender : Bool) : Queue := { q with worker := .choosing sender }

theorem choosing_eq {sender : Bool} (hw : q.worker = .choosing sender) : q.choosing sender = q := by
  rw [choosing, ← hw]

variable {sender : Bool}

theorem leave_path (hend : q.cancelled = true ∨ q.backlog.closed = true) :
    Path others (q.choosing sender) (q.leave sender) := by
  cases sender with
  | true => exact Act.path (.parted rfl hend)
  | false => exact teardown_path (.inr ⟨rfl, hend⟩)

/-- One builder with a message is reported as failed by the shutdown. -/
theorem reportShutdown_path (others : Sink → Prop) (sender : Bool) {b : Builder}
    {rest : List Builder} {d : Finished}
    (hs : q.stopRequested = true) (hb : q.backlog.builders = b :: rest)
    (hf : b.finish? = some d) :
    Path others (q.choosing sender)
        (((q.withoutHead b rest).reportShutdown d).choosing sender) ∧
      ((q.withoutHead b rest).reportShutdown d).stopRequested = true := by
  obtain ⟨pool, bus, post, n, purge, back, hpurge, hback, hp, heq⟩ :=
    fail_close_eq ((q.withoutHead b rest).subscribeAll d) d .shutdown
  unfold reportShutdown
  rw [heq]
  simp only [subscribeAll_eq, withoutHead, note] at hpurge hp ⊢
  refine ⟨?_, hs⟩
  have hpath : Path others (q.choosing sender) _ :=
    Act.path (@Act.drained others (q.choosing sender) sender b rest d pool bus post n purge back _
      rfl hs hb hf hpurge hback hp rfl)
  simpa [choosing] using hpath

/-- A drain is a sequence of acts; it ends with a closed backlog. -/
theorem Drains.path (t : Drains q q') (hs : q.stopRequested = true) :
    Path others (q.choosing sender) (q'.choosing sender) ∧ q'.backlog.closed = true := by
  induction t with
  | @done q hb =>
    refine ⟨?_, rfl⟩
    have hclosed : q.closeBacklog = { q with backlog := q.backlog.close } := by
      simp [closeBacklog, hb]
    rw [hclosed]
    exact Act.path (.emptied rfl hs hb)
  | @skip q q' b rest hb hf t ih =>
    obtain ⟨hrest, hclosed⟩ := ih hs
    have hhead : Path others (q.choosing sender) ((q.withoutHead b rest).choosing sender) :=
      Act.path (.skipped rfl hb hf)
    exact ⟨hhead.trans hrest, hclosed⟩
  | @report q q' b rest d hb hf t ih =>
    obtain ⟨hhead, hs'⟩ := reportShutdown_path others sender hs hb hf
    obtain ⟨hrest, hclosed⟩ := ih hs'
    exact ⟨hhead.trans hrest, hclosed⟩

theorem beginDelivery_path {b : Builder} {rest : List Builder} {d : Finished}
    (hs : q.stopRequested = false) (hb : q.backlog.builders = b :: rest)
    (hf : b.finish? = some d) :
    Path others (q.choosing sender) ((q.takeHead b rest).beginDelivery d sender) := by
  obtain ⟨bus, post, n, hp⟩ : ∃ bus post n,
      (q.bus.register d).publish q.post d.topic ⟨.queued, d.metadata⟩ = (bus, post, n) :=
    ⟨_, _, _, rfl⟩
  have hpath : Path others (q.choosing sender) _ :=
    Act.path (@Act.announced others (q.choosing sender) sender (!rest.isEmpty) b rest d bus post n _
      rfl hs hb hf hp rfl)
  unfold Bus.register at hp
  unfold beginDelivery publish
  simp only [subscribeAll_eq, takeHead, withoutHead, note, hp]
  cases sender with
  | true =>
    simpa [choosing, beginSend, note, announcement, firstAction, firstStand] using hpath
  | false =>
    simpa [choosing, beginOpen, note, announcement, firstAction, firstStand] using hpath

/-- Nothing happens but that the wake-up is taken. -/
theorem token_path (q : Queue) (token : Bool) : Path others q { q with token } := by
  have hpath : Path others q _ := Act.path (@Act.aside others q [] token q.stopRequested q.cancelled
    q.reachable q.pool q.producers (List.forall_mem_nil _) id id id)
  simpa using hpath

theorem Choice.path (t : Choice sender q q') : Path others (q.choosing sender) q' := by
  cases t with
  | callOff hc =>
    have hleave : Path others (q.choosing sender) (q.leave sender) := leave_path (.inl hc)
    exact hleave
  | @stop q'' hc hs t =>
    obtain ⟨hdrain, hclosed⟩ : Path others ({ q with token := false }.choosing sender)
        (q''.choosing sender) ∧ q''.backlog.closed = true := Drains.path t hs
    have htoken : Path others (q.choosing sender) ({ q with token := false }.choosing sender) :=
      token_path (q.choosing sender) false
    exact (htoken.trans hdrain).trans (leave_path (.inr hclosed))
  | rest hc hs ht => exact .refl
  | idle hc hs ht hb => exact token_path (q.choosing sender) false
  | @skip b rest hc hs ht hb hf =>
    exact Act.path (@Act.skipped others (q.choosing sender) sender (!rest.isEmpty) b rest rfl hb hf)
  | deliver hc hs ht hb hf => exact beginDelivery_path hs hb hf

theorem Turn.path (t : Turn q q') : Path others q q' := by
  cases t with
  | wait => exact .refl
  | start hw t =>
    have hstart : Path others q (q.openBus.choosing false) := Act.path (.started hw)
    exact hstart.trans t.path
  | @choose q' sender hw t =>
    rw [← choosing_eq hw]
    exact t.path
  | callOffOpen hw hc => exact failDelivery_path (.inl ⟨hw, rfl⟩)
  | opened hw hc =>
    have hpath : Path others q _ := Act.path (.opened hw)
    simpa [beginSend, note] using hpath
  | openFailed hw hc e => exact failDelivery_path (.inl ⟨hw, rfl⟩)
  | callOffSend hw hc => exact Act.path (.interrupted hw rfl (.inl rfl))
  | sent hw hc => exact completeDelivery_path hw
  | sendFailed hw hc e =>
    have hpath : Path others q _ :=
      Act.path (@Act.interrupted others q _ (.sendFailed q.peer e.message) _ hw rfl (.inr ⟨e, rfl⟩))
    simpa [beginReset, note] using hpath
  | resetDone hw => exact failDelivery_path (.inr hw)
  | part hw => exact teardown_path (.inl hw)

end Turns

/-! ## Moves and runs -/

/-- The sink that someone else registers, or whose reader leaves. -/
def sinkOf? : Move → Option Sink
  | .attach _ s => some s
  | .depart s => some s
  | _ => none

variable {others : Sink → Prop} {start q : Queue}

/-- Another pool, and other answers in it, are an act. -/
theorem pool_path (q : Queue) (pool : Pool) : Path others q { q with pool } := by
  have hpath := aside_path others q (List.forall_mem_nil _) pool q.producers
  simpa using hpath

/-- Every move is a path. -/
theorem step_path (q : Queue) (m : Move) (ho : ∀ s ∈ sinkOf? m, others s) :
    Path others q (q.step m) := by
  have hasked : ∀ reachable stopRequested cancelled, (reachable = true → q.reachable = true) →
      (q.stopRequested = true → stopRequested = true) →
      (q.cancelled = true → cancelled = true) →
      Path others q { q with reachable, stopRequested, cancelled } := by
    intro reachable stopRequested cancelled hr hs hc
    have hpath : Path others q _ := Act.path (@Act.aside others q [] q.token stopRequested cancelled
      reachable q.pool q.producers (List.forall_mem_nil _) hs hc hr)
    simpa using hpath
  cases m with
  | reserve t size edits =>
    simp only [step]
    split
    · exact (reserve_arrival q t size edits).path
    · exact .refl
  | resume t edits => exact (resume_return q t edits).path
  | abandon t =>
    simp only [step, abandon]
    split
    · exact .refl
    · have hpath := aside_path others q (List.forall_mem_nil _)
        (q.pool.abandon t) (q.producers.filter (fun p => p.ticket ≠ t))
      simpa [forgetProducer] using hpath
  | startup =>
    simp only [step, startup]
    split
    · rename_i hr
      split
      · rename_i hw
        exact Act.path (.launched hw hr)
      · exact .refl
    · exact .refl
  | shutdown =>
    simp only [step]
    split
    · exact hasked _ _ _ id (fun _ => rfl) id
    · exact .refl
  | cancel => exact hasked _ _ _ id id (fun _ => rfl)
  | scrub rs =>
    simp only [step]
    split
    · obtain ⟨pool, receipt, hreceipt, heq⟩ := release_eq
        ({ q with backlog := q.backlog.scrub rs }.note (.scrubbed rs)) (q.backlog.scrubFrees rs)
      rw [scrub, heq]
      have hpath : Path others q _ := Act.path (@Act.scrubbed others q rs pool receipt hreceipt)
      simpa [note] using hpath
    · exact .refl
  | work reply => exact (work_turn q reply).path
  | letGo =>
    simp only [step, letGo]
    split
    · split
      · rename_i hw
        exact Act.path (.dropped hw)
      · exact hasked _ _ _ (by simp) (fun _ => rfl) id
    · exact .refl
  | borrow t p amount =>
    simp only [step]
    split
    · exact .refl
    · exact pool_path q _
  | collect t =>
    simp only [step]
    split
    · exact pool_path q _
    · exact .refl
  | repay p amount =>
    simp only [step]
    split
    · exact pool_path q _
    · exact .refl
  | withhold value => exact pool_path q _
  | attach t s => exact Act.path (.attached (ho s rfl))
  | depart s => exact Act.path (.departed (ho s rfl))

/-- Every run is a path. -/
theorem run_path {moves : List Move} (ho : ∀ m ∈ moves, ∀ s ∈ sinkOf? m, others s) :
    Path others start (start.run moves) := by
  induction moves generalizing start with
  | nil => exact .refl
  | cons m rest ih =>
    obtain ⟨hm, hrest⟩ := List.forall_mem_cons.mp ho
    exact (step_path start m hm).trans (ih hrest)

/-- Every state that a run ends in lies at the end of a path. -/
theorem Reachable.path (h : Reachable start q) : Path (fun _ => True) start q := by
  obtain ⟨moves, rfl⟩ := h
  exact run_path fun _ _ _ _ => trivial

namespace Path

/-- **Invariants.**  What is kept by every act is kept along a path. -/
theorem invariant {I : Queue → Prop} (h : Path others start q) (h0 : I start)
    (hact : ∀ {q q' entries}, Act others q entries q' → I q → I q') : I q := by
  induction h with
  | refl => exact h0
  | tail h a ih =>
    obtain ⟨entries, a⟩ := a
    exact hact a ih

/-- The log only grows. -/
theorem log_prefix (h : Path others start q) : start.log <+: q.log := by
  refine h.invariant (I := fun q => start.log <+: q.log) (List.prefix_refl _) ?_
  intro q q' entries a hq
  rw [a.log_eq]
  exact hq.trans (List.prefix_append _ _)

/-- **Where an entry comes from.**  Every entry of the log that was not there at the start was added
by an act, which cuts the path in two. -/
theorem cut {pre post : List Action} {a : Action} (h : Path others start q)
    (hlog : q.log = pre ++ a :: post) (hpre : start.log <+: pre) :
    ∃ q₁ q₂ left right rest, Path others start q₁ ∧ Act others q₁ (left ++ a :: right) q₂ ∧
      Path others q₂ q ∧ pre = q₁.log ++ left ∧ post = right ++ rest ∧
      q.log = q₂.log ++ rest := by
  induction h generalizing post with
  | refl =>
    have hlength := hpre.length_le
    rw [hlog] at hlength
    simp at hlength
  | @tail q q' h hact ih =>
    obtain ⟨entries, act⟩ := hact
    have hsplit : q.log ++ entries = pre ++ a :: post := by rw [← act.log_eq, hlog]
    rcases List.append_eq_append_iff.mp hsplit with ⟨left, hl, hr⟩ | ⟨left, hl, hr⟩
    · rw [hr] at act
      exact ⟨q, q', left, post, [], h, act, .refl, hl, by simp, by simp⟩
    · cases left with
      | nil =>
        rw [List.nil_append] at hr
        rw [← hr] at act
        rw [List.append_nil] at hl
        exact ⟨q, q', [], post, [], h, act, .refl, by simp [hl], by simp, by simp⟩
      | cons a' left =>
        obtain ⟨rfl, rfl⟩ := List.cons.inj hr
        obtain ⟨q₁, q₂, l, r, rest, h₁, hcut, h₂, hpre', hpost, hlog'⟩ := ih hl
        refine ⟨q₁, q₂, l, r, rest ++ entries, h₁, hcut, h₂.tail ⟨entries, act⟩, hpre', ?_, ?_⟩
        · rw [hpost]
          exact List.append_assoc r rest entries
        · rw [act.log_eq, hlog', List.append_assoc]

end Path

end Queue

end Outbox
