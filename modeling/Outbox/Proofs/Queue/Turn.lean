import Outbox.Proofs.Queue.Run

/-!
# What a turn of the worker can be

The worker's functions are taken apart once and for all.  Each relation below lists what one of
them can do, with everything that is known when it does it, so that an invariant of the worker
is proved by one case for each constructor.

* `Queue.Drains` — the backlog is reported builder by builder and closed when it is empty;
* `Queue.Choice` — what a worker does that is free to choose;
* `Queue.Turn` — one turn of the worker;
* `Queue.drain_drains`, `Queue.choose_choice` and `Queue.work_turn` — the functions do nothing
  else.  The first one also says that the drain never stops early.
-/

namespace Outbox.Queue

variable (q : Queue)

/-! ## What giving memory back leaves alone -/

@[simp] theorem release_peer (n : Nat) : (q.release n).peer = q.peer := by
  unfold release; repeat' split
  all_goals rfl

@[simp] theorem release_backlog (n : Nat) : (q.release n).backlog = q.backlog := by
  unfold release; repeat' split
  all_goals rfl

@[simp] theorem release_token (n : Nat) : (q.release n).token = q.token := by
  unfold release; repeat' split
  all_goals rfl

@[simp] theorem release_stopRequested (n : Nat) :
    (q.release n).stopRequested = q.stopRequested := by
  unfold release; repeat' split
  all_goals rfl

@[simp] theorem release_cancelled (n : Nat) : (q.release n).cancelled = q.cancelled := by
  unfold release; repeat' split
  all_goals rfl

@[simp] theorem release_worker (n : Nat) : (q.release n).worker = q.worker := by
  unfold release; repeat' split
  all_goals rfl

@[simp] theorem release_producers (n : Nat) : (q.release n).producers = q.producers := by
  unfold release; repeat' split
  all_goals rfl

/-! ## Streams and sinks -/

/-- The streams of a message in the order in which they are closed. -/
def streamsInOrder (d : Finished) : List Stream :=
  d.streams.values.mergeSort (fun s s' => s.name ≤ s'.name)

/-- Closing the streams of a message only writes that down. -/
theorem closeStreams_eq (d : Finished) :
    q.closeStreams d = { q with log := q.log ++ (streamsInOrder d).map .streamClosed } := by
  unfold closeStreams
  rw [← streamsInOrder]
  induction streamsInOrder d generalizing q with
  | nil => simp
  | cons s rest ih => rw [List.foldl_cons, ih]; simp [note]

/-- Registering the sinks of a message only changes the bus and writes that down. -/
theorem subscribeAll_eq (d : Finished) :
    q.subscribeAll d = { q with
      bus := d.sinks.foldl (fun bus s => bus.subscribe d.topic s) q.bus
      log := q.log ++ d.sinks.map (.subscribed d.topic) } := by
  unfold subscribeAll
  induction d.sinks generalizing q with
  | nil => simp
  | cons s rest ih => rw [List.foldl_cons, ih]; simp [subscribe, note]

/-! ## A message that fails -/

@[simp] theorem scrub_backlog (rs : List RequestId) :
    (q.scrub rs).backlog = q.backlog.scrub rs := by
  simp [scrub, note]

@[simp] theorem scrub_token (rs : List RequestId) : (q.scrub rs).token = q.token := by
  simp [scrub, note]

@[simp] theorem scrub_stopRequested (rs : List RequestId) :
    (q.scrub rs).stopRequested = q.stopRequested := by
  simp [scrub, note]

@[simp] theorem scrub_cancelled (rs : List RequestId) :
    (q.scrub rs).cancelled = q.cancelled := by
  simp [scrub, note]

@[simp] theorem scrub_worker (rs : List RequestId) : (q.scrub rs).worker = q.worker := by
  simp [scrub, note]

variable (d : Finished) (cause : QueueError)

@[simp] theorem fail_backlog :
    (q.fail d cause).backlog = q.backlog.scrub d.requests := by
  simp [fail, publish, note, closeStreams_eq]

@[simp] theorem fail_token : (q.fail d cause).token = q.token := by
  simp [fail, publish, note, closeStreams_eq]

@[simp] theorem fail_cancelled : (q.fail d cause).cancelled = q.cancelled := by
  simp [fail, publish, note, closeStreams_eq]

theorem failDelivery_backlog :
    (q.failDelivery d cause).backlog = q.backlog.scrub d.requests := by
  simp [failDelivery, closeTopic, note]

/-! ## Taking the first builder -/

/-- The queue without its first builder, when `rest` are the others. -/
def withoutHead (b : Builder) (rest : List Builder) : Queue :=
  { q with backlog := { q.backlog with builders := rest } }.note (.dequeued b)

variable {q}

theorem dequeue_of_nil (h : q.backlog.builders = []) : q.dequeue = none := by
  simp [dequeue, Backlog.pop?, h]

theorem dequeue_of_cons {b : Builder} {rest : List Builder}
    (h : q.backlog.builders = b :: rest) :
    q.dequeue = some (b.finish?, q.withoutHead b rest) := by
  simp [dequeue, Backlog.pop?, h, withoutHead]

/-! ## The drain -/

/-- The queue after a builder's message is reported as failed by the shutdown. -/
def reportShutdown (q : Queue) (d : Finished) : Queue :=
  ((q.subscribeAll d).fail d .shutdown).closeTopic d.topic

/-- Every builder is taken and, unless it is empty, reported as failed by the shutdown; the
backlog is closed when no builder is left. -/
inductive Drains : Queue → Queue → Prop
  /-- No builder is left. -/
  | done {q : Queue} (hb : q.backlog.builders = []) : Drains q q.closeBacklog
  /-- The first builder is empty. -/
  | skip {q q' : Queue} {b : Builder} {rest : List Builder}
      (hb : q.backlog.builders = b :: rest) (hf : b.finish? = none)
      (t : Drains (q.withoutHead b rest) q') : Drains q q'
  /-- The first builder has a message. -/
  | report {q q' : Queue} {b : Builder} {rest : List Builder} {d : Finished}
      (hb : q.backlog.builders = b :: rest) (hf : b.finish? = some d)
      (t : Drains ((q.withoutHead b rest).reportShutdown d) q') : Drains q q'

theorem length_scrub_le (backlog : Backlog) (rs : List RequestId) :
    (backlog.scrub rs).builders.length ≤ backlog.builders.length := by
  simpa [Backlog.scrub] using
    List.length_filter_le (fun b => !b.isEmpty) (backlog.builders.map (·.scrub rs))

theorem reportShutdown_backlog (q : Queue) (d : Finished) :
    (q.reportShutdown d).backlog = q.backlog.scrub d.requests := by
  simp [reportShutdown, closeTopic, note, subscribeAll_eq]

/-- As many rounds as there are builders are enough to find the backlog empty. -/
theorem drainFor_drains (n : Nat) (h : q.backlog.builders.length ≤ n) :
    Drains q (q.drainFor n) := by
  induction n generalizing q with
  | zero => exact .done (List.eq_nil_of_length_eq_zero (Nat.le_zero.mp h))
  | succ n ih =>
    unfold drainFor
    cases hb : q.backlog.builders with
    | nil => rw [dequeue_of_nil hb]; exact .done hb
    | cons b rest =>
      have hrest : rest.length ≤ n := by simpa [hb] using h
      rw [dequeue_of_cons hb]
      cases hf : b.finish? with
      | none => exact .skip hb hf (ih hrest)
      | some d =>
        refine .report hb hf (ih ?_)
        rw [reportShutdown_backlog]
        exact (length_scrub_le _ _).trans hrest

/-- The drain does not stop before the backlog is empty. -/
theorem drain_drains (q : Queue) : Drains { q with token := false } q.drain :=
  drainFor_drains _ le_rfl

/-- The drain leaves no builder in line. -/
theorem Drains.builders_eq {q q' : Queue} (t : Drains q q') : q'.backlog.builders = [] := by
  induction t with
  | done hb => rfl
  | skip hb hf t ih => exact ih
  | report hb hf t ih => exact ih

/-! ## Choices -/

/-- The queue after the worker answers a wake-up by taking the first builder: another wake-up is
pending if there are more. -/
def takeHead (q : Queue) (b : Builder) (rest : List Builder) : Queue :=
  { q.withoutHead b rest with token := !rest.isEmpty }

/-- The delivery of a message begins: it is announced, and sent if there is a sender for it. -/
def beginDelivery (q : Queue) (d : Finished) (sender : Bool) : Queue :=
  let q := (q.subscribeAll d).publish d.topic ⟨.queued, d.metadata⟩
  if sender then q.beginSend d else q.beginOpen d

/-- What a worker does that is free to choose. -/
inductive Choice (sender : Bool) (q : Queue) : Queue → Prop
  /-- Everything was called off. -/
  | callOff (hc : q.cancelled = true) : Choice sender q (q.leave sender)
  /-- It was asked to stop. -/
  | stop {q' : Queue} (hc : q.cancelled = false) (hs : q.stopRequested = true)
      (t : Drains { q with token := false } q') : Choice sender q (q'.leave sender)
  /-- There is no wake-up. -/
  | rest (hc : q.cancelled = false) (hs : q.stopRequested = false) (ht : q.token = false) :
      Choice sender q { q with worker := .choosing sender }
  /-- There is a wake-up, but nothing in line. -/
  | idle (hc : q.cancelled = false) (hs : q.stopRequested = false) (ht : q.token = true)
      (hb : q.backlog.builders = []) :
      Choice sender q { q with token := false, worker := .choosing sender }
  /-- The first builder is empty. -/
  | skip {b : Builder} {rest : List Builder} (hc : q.cancelled = false)
      (hs : q.stopRequested = false) (ht : q.token = true)
      (hb : q.backlog.builders = b :: rest) (hf : b.finish? = none) :
      Choice sender q { q.takeHead b rest with worker := .choosing sender }
  /-- The first builder has a message. -/
  | deliver {b : Builder} {rest : List Builder} {d : Finished} (hc : q.cancelled = false)
      (hs : q.stopRequested = false) (ht : q.token = true)
      (hb : q.backlog.builders = b :: rest) (hf : b.finish? = some d) :
      Choice sender q ((q.takeHead b rest).beginDelivery d sender)

theorem deliverNext_of_nil (sender : Bool) (hb : q.backlog.builders = []) :
    q.deliverNext sender = { q with token := false } := by
  have hd : { q with token := false }.dequeue = none := dequeue_of_nil hb
  unfold deliverNext
  rw [hd]

theorem deliverNext_of_cons {b : Builder} {rest : List Builder} (sender : Bool)
    (hb : q.backlog.builders = b :: rest) :
    q.deliverNext sender = match b.finish? with
      | none => q.takeHead b rest
      | some d => (q.takeHead b rest).beginDelivery d sender := by
  have hd : { q with token := false }.dequeue =
      some (b.finish?, { q with token := false }.withoutHead b rest) := dequeue_of_cons hb
  have hq : (if rest.isEmpty then { q with token := false }.withoutHead b rest
      else ({ q with token := false }.withoutHead b rest).signal) = q.takeHead b rest := by
    cases rest <;> rfl
  unfold deliverNext
  rw [hd]
  simp only [show ({ q with token := false }.withoutHead b rest).backlog.builders = rest from rfl,
    hq]
  cases b.finish? <;> rfl

/-- Where the worker stood does not matter for the delivery that it begins. -/
theorem beginDelivery_worker (w : Worker) (d : Finished) (sender : Bool) :
    { q with worker := w }.beginDelivery d sender = q.beginDelivery d sender := by
  unfold beginDelivery
  simp only [subscribeAll_eq]
  cases sender <;> rfl

theorem beginDelivery_backlog (d : Finished) (sender : Bool) :
    (q.beginDelivery d sender).backlog = q.backlog := by
  unfold beginDelivery
  simp only [subscribeAll_eq]
  cases sender <;> rfl

/-- A worker that is free to choose does one of these. -/
theorem choose_choice (q : Queue) (sender : Bool) : Choice sender q (q.choose sender) := by
  unfold choose
  by_cases hc : q.cancelled = true
  · rw [if_pos hc]
    exact .callOff hc
  rw [if_neg hc]
  rw [Bool.not_eq_true] at hc
  by_cases hs : q.stopRequested = true
  · rw [if_pos hs]
    exact .stop hc hs q.drain_drains
  rw [if_neg hs]
  rw [Bool.not_eq_true] at hs
  by_cases ht : q.token = true
  · rw [if_pos ht]
    cases hb : q.backlog.builders with
    | nil =>
      rw [deliverNext_of_nil (q := { q with worker := .choosing sender }) sender hb]
      exact .idle hc hs ht hb
    | cons b rest =>
      rw [deliverNext_of_cons (q := { q with worker := .choosing sender }) sender hb]
      cases hf : b.finish? with
      | none => exact .skip hc hs ht hb hf
      | some d =>
        have hd : Choice sender q ((q.takeHead b rest).beginDelivery d sender) :=
          .deliver hc hs ht hb hf
        rwa [← beginDelivery_worker (.choosing sender)] at hd
  · rw [if_neg ht]
    exact .rest hc hs (Bool.not_eq_true _ ▸ ht)

theorem leave_worker (q : Queue) (sender : Bool) :
    (q.leave sender).worker = if sender then .parting else .stopped := by
  cases sender <;> rfl

theorem isStopped_iff : q.isStopped = true ↔ q.worker = .stopped := by
  unfold isStopped
  cases q.worker <;> simp

/-! ## Turns -/

/-- The queue after the worker of a queue that was just started opens the bus. -/
def openBus (q : Queue) : Queue := { q with bus := q.bus.startup }.note .busStarted

/-- One turn of the worker. -/
inductive Turn (q : Queue) : Queue → Prop
  /-- It has to wait. -/
  | wait : Turn q q
  /-- Its first turn. -/
  | start {q' : Queue} (h : q.worker = .launched) (t : Choice false q.openBus q') : Turn q q'
  /-- It is free to choose. -/
  | choose {q' : Queue} {sender : Bool} (h : q.worker = .choosing sender)
      (t : Choice sender q q') : Turn q q'
  /-- The opening of a sender is called off. -/
  | callOffOpen {d : Finished} (h : q.worker = .opening d) (hc : q.cancelled = true) :
      Turn q (q.failDelivery d (.cancelled q.peer))
  /-- The sender is open. -/
  | opened {d : Finished} (h : q.worker = .opening d) (hc : q.cancelled = false) :
      Turn q ((q.note .opened).beginSend d)
  /-- No sender can be opened. -/
  | openFailed {d : Finished} (h : q.worker = .opening d) (hc : q.cancelled = false)
      (e : NetworkError) : Turn q (q.failDelivery d (.senderOpen q.peer e.message))
  /-- The send is called off. -/
  | callOffSend {d : Finished} (h : q.worker = .sending d) (hc : q.cancelled = true) :
      Turn q (q.beginReset d (.cancelled q.peer))
  /-- The message was sent. -/
  | sent {d : Finished} (h : q.worker = .sending d) (hc : q.cancelled = false) :
      Turn q ((q.note .sendOk).completeDelivery d)
  /-- The send failed. -/
  | sendFailed {d : Finished} (h : q.worker = .sending d) (hc : q.cancelled = false)
      (e : NetworkError) :
      Turn q ((q.note (.sendFailed e)).beginReset d (.sendFailed q.peer e.message))
  /-- The sender of a failed delivery is reset. -/
  | resetDone {d : Finished} {cause : QueueError} (h : q.worker = .resetting d cause) :
      Turn q (q.failDelivery d cause)
  /-- The last reset is over. -/
  | part (h : q.worker = .parting) : Turn q q.teardown

/-- A turn of the worker is one of these, whatever the network replies. -/
theorem work_turn (q : Queue) (reply : Option NetworkReply) : Turn q (q.work reply) := by
  unfold work
  split
  next h => exact .wait
  next h => exact .start h (choose_choice q.openBus false)
  next sender h => exact .choose h (choose_choice q sender)
  next d h =>
    by_cases hc : q.cancelled = true
    · rw [if_pos hc]
      exact .callOffOpen h hc
    rw [if_neg hc]
    rw [Bool.not_eq_true] at hc
    split
    · exact .opened h hc
    · exact .openFailed h hc _
    · exact .wait
  next d h =>
    by_cases hc : q.cancelled = true
    · rw [if_pos hc]
      exact .callOffSend h hc
    rw [if_neg hc]
    rw [Bool.not_eq_true] at hc
    split
    · exact .sent h hc
    · exact .sendFailed h hc _
    · exact .wait
  next d cause h =>
    split
    · exact .resetDone h
    · exact .wait
  next h =>
    split
    · exact .part h
    · exact .wait
  next h => exact .wait

end Outbox.Queue
