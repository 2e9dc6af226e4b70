import Outbox.Proofs.Queue.Passage
import Outbox.Proofs.Queue.WakeUp

/-!
# A network that succeeds

While nobody asks the worker to stop and the network does what it is asked for, builders only go
from the line to the worker, one by one, and every message that is taken is sent.  Where the network
replies at once, the worker gets through the line in a number of turns that is known beforehand.

* `Move.isService` — turns of the worker in which the network succeeds, and what others do;
* `Queue.Serving` — a worker that was started and that nothing keeps from its work;
* `Queue.course` — the builders that were taken and those in line, with `Queue.Serving.run`: while
  the worker serves they stay as they are;
* `Queue.Serving.sends` — what is sent is what these builders hold, in their order;
* `Queue.attend`, `Queue.Serving.blocked` — after enough turns of a prompt network the worker has
  nothing left to do.
-/

namespace Outbox

/-! ## What may happen -/

/-- The network has done what it was asked for. -/
def NetworkReply.isSuccess : NetworkReply → Bool
  | openFailed _ => false
  | sendFailed _ => false
  | _ => true

namespace Move

/-- Something happens around the queue: to its pool, to its bus and its post, or to the producers
that wait. -/
def isAround : Move → Bool
  | abandon _ => true
  | borrow .. => true
  | collect _ => true
  | repay .. => true
  | withhold _ => true
  | attach .. => true
  | depart _ => true
  | _ => false

/-- The worker is started or has a turn in which the network does not fail, or something happens
around the queue. -/
def isService : Move → Bool
  | startup => true
  | work reply => reply.all NetworkReply.isSuccess
  | m => m.isAround

theorem isService_cases {m : Move} (h : m.isService = true) : m = startup ∨
    (∃ reply, m = work reply ∧ reply.all NetworkReply.isSuccess = true) ∨ m.isAround = true := by
  cases m <;> first | exact .inl rfl | exact .inr (.inl ⟨_, rfl, h⟩) | exact .inr (.inr h)

end Move

namespace Worker

/-- The reply that the worker waits for. -/
def awaited? : Worker → Option NetworkReply
  | opening _ => some .opened
  | sending _ => some .sent
  | _ => none

/-- It was started, no delivery is failing and it is not about to end. -/
def serves : Worker → Bool
  | launched => true
  | choosing _ => true
  | opening _ => true
  | sending _ => true
  | _ => false

/-- How many turns it takes until the worker is free to choose. -/
def turnsAhead : Worker → Nat
  | launched => 1
  | opening _ => 2
  | sending _ => 1
  | _ => 0

end Worker

namespace Queue

variable {q q' : Queue} {m : Move} {moves : List Move}

/-- What happens around the queue leaves the queue itself alone. -/
theorem step_around (q : Queue) (h : m.isAround = true) : ∃ pool bus post producers,
    q.step m = { q with pool, bus, post, producers } := by
  have hsame : ∃ pool bus post producers, q = { q with pool, bus, post, producers } :=
    ⟨q.pool, q.bus, q.post, q.producers, rfl⟩
  cases m with
  | abandon t =>
    simp only [step, Queue.abandon]
    split
    · exact hsame
    · exact ⟨q.pool.abandon t, q.bus, q.post, _, rfl⟩
  | borrow t p amount =>
    simp only [step]
    split
    · exact hsame
    · exact ⟨_, q.bus, q.post, q.producers, rfl⟩
  | collect t =>
    simp only [step]
    split
    · exact ⟨_, q.bus, q.post, q.producers, rfl⟩
    · exact hsame
  | repay p amount =>
    simp only [step]
    split
    · exact ⟨_, q.bus, q.post, q.producers, rfl⟩
    · exact hsame
  | withhold value => exact ⟨_, q.bus, q.post, q.producers, rfl⟩
  | attach topic sink => exact ⟨q.pool, _, q.post, q.producers, rfl⟩
  | depart sink => exact ⟨q.pool, q.bus, _, q.producers, rfl⟩
  | _ => cases h

/-! ## Builders that were taken and builders in line -/

/-- The builders that were taken and those in line, in order. -/
def course (q : Queue) : List Builder := q.taken ++ q.backlog.builders

theorem course_of_silent {entries : List Action}
    (hbuilders : q'.backlog.builders = q.backlog.builders) (hlog : q'.log = q.log ++ entries)
    (he : ∀ a ∈ entries, a.isOfBacklog = false) : q'.course = q.course := by
  rw [course, course, taken_of_silent hlog he, hbuilders]

/-- A builder goes from the line to those that were taken. -/
theorem course_takeHead (q : Queue) {b : Builder} {rest : List Builder}
    (hb : q.backlog.builders = b :: rest) : (q.takeHead b rest).course = q.course := by
  have htaken : (q.takeHead b rest).taken = q.taken ++ [b] := by
    rw [taken_eq_filterMap, taken_eq_filterMap, takeHead, withoutHead, note, filterMap_concat]
    rfl
  rw [course, course, htaken, hb, List.append_assoc]
  rfl

theorem beginDelivery_eq (q : Queue) (d : Finished) (sender : Bool) : ∃ bus post entries,
    (∀ a ∈ entries, a.isOfBacklog = false) ∧ q.beginDelivery d sender =
      { q with bus, post, log := q.log ++ entries, worker := firstStand sender d } := by
  obtain ⟨bus, post, n, hp⟩ : ∃ bus post n,
      (q.bus.register d).publish q.post d.topic ⟨.queued, d.metadata⟩ = (bus, post, n) :=
    ⟨_, _, _, rfl⟩
  refine ⟨bus, post, d.sinks.map (.subscribed d.topic) ++
    [.published d.topic ⟨.queued, d.metadata⟩ n, q.firstAction sender d], ?_, ?_⟩
  · refine List.forall_mem_append.mpr ⟨List.forall_mem_map.mpr fun _ _ => rfl, ?_⟩
    refine List.forall_mem_cons.mpr ⟨rfl, List.forall_mem_singleton.mpr ?_⟩
    cases sender <;> rfl
  · unfold Bus.register at hp
    unfold beginDelivery publish
    simp only [subscribeAll_eq, note, hp]
    cases sender <;> simp [beginSend, beginOpen, note, firstAction, firstStand]

theorem completeDelivery_eq (q : Queue) (d : Finished) : ∃ pool bus post entries,
    (∀ a ∈ entries, a.isOfBacklog = false) ∧ (q.note .sendOk).completeDelivery d =
      { q with pool, bus, post, log := q.log ++ entries, worker := .choosing true } := by
  obtain ⟨bus, post, n, hp⟩ : ∃ bus post n,
      q.bus.publish q.post d.topic ⟨.sent, d.metadata⟩ = (bus, post, n) := ⟨_, _, _, rfl⟩
  unfold completeDelivery publish
  simp only [note, hp]
  obtain ⟨pool, back, hback, heq⟩ := release_eq
    { q with
      bus, post
      log := q.log ++ [.sendOk] ++ [.published d.topic ⟨.sent, d.metadata⟩ n] } d.size
  rw [heq]
  refine ⟨pool, bus.close d.topic, post, completion d n back, ?_, ?_⟩
  · exact forall_mem_completion hback (fun _ => Action.isOfBacklog_of_isQuiet) rfl rfl rfl
  · simp [closeTopic, note, completion]

/-! ## Turns -/

/-- A turn that goes well leaves the worker serving, and no builder is lost, added or changed. -/
structure Proceeds (q q' : Queue) : Prop where
  /-- Nothing is called off. -/
  cancelled : q'.cancelled = q.cancelled
  /-- Nobody asks the worker to stop. -/
  stop : q'.stopRequested = q.stopRequested
  /-- The worker serves. -/
  worker : q'.worker.serves = true
  /-- The builders are the same. -/
  course : q'.course = q.course

/-- At most so many turns of a prompt network are left: for a builder it takes one to take it, one
to open a sender and one to send its message. -/
def toGo (q : Queue) : Nat :=
  3 * q.backlog.builders.length + q.token.toNat + q.worker.turnsAhead

theorem beginDelivery_proceeds (q : Queue) (d : Finished) (sender : Bool) :
    Proceeds q (q.beginDelivery d sender) ∧ (q.beginDelivery d sender).toGo ≤
      3 * q.backlog.builders.length + q.token.toNat + 2 := by
  obtain ⟨bus, post, entries, he, heq⟩ := beginDelivery_eq q d sender
  rw [heq]
  refine ⟨⟨rfl, rfl, ?_, course_of_silent rfl rfl he⟩, ?_⟩
  · cases sender <;> rfl
  · cases sender <;> simp [toGo, firstStand, Worker.turnsAhead]

/-- A worker that is free to choose takes the first builder if a wake-up is pending, and otherwise
waits. -/
theorem Choice.proceeds {sender : Bool} (t : Choice sender q q') (hc : q.cancelled = false)
    (hs : q.stopRequested = false) : Proceeds q q' ∧
      (q' = { q with worker := .choosing sender } ∨
        q'.toGo < 3 * q.backlog.builders.length + q.token.toNat) := by
  cases t with
  | callOff hc' => cases hc.symm.trans hc'
  | stop _ hs' t => cases hs.symm.trans hs'
  | rest _ _ ht => exact ⟨⟨rfl, rfl, rfl, rfl⟩, .inl rfl⟩
  | idle _ _ ht hb =>
    refine ⟨⟨rfl, rfl, rfl, rfl⟩, .inr ?_⟩
    simp [toGo, ht, Worker.turnsAhead]
  | @skip b rest _ _ ht hb hf =>
    refine ⟨⟨rfl, rfl, rfl, course_takeHead q hb⟩, .inr ?_⟩
    have hone : (!rest.isEmpty).toNat ≤ 1 := Bool.toNat_le _
    simp only [toGo, takeHead, withoutHead, note, hb, List.length_cons, ht, Bool.toNat_true,
      Worker.turnsAhead]
    omega
  | @deliver b rest d _ _ ht hb hf =>
    obtain ⟨hproceeds, hgo⟩ := beginDelivery_proceeds (q.takeHead b rest) d sender
    refine ⟨⟨hproceeds.cancelled, hproceeds.stop, hproceeds.worker,
      hproceeds.course.trans (course_takeHead q hb)⟩, .inr (hgo.trans_lt ?_)⟩
    have hone : (!rest.isEmpty).toNat ≤ 1 := Bool.toNat_le _
    simp only [takeHead, withoutHead, note, hb, List.length_cons, ht, Bool.toNat_true]
    omega

/-- The worker was started, and nothing keeps it from its work. -/
structure Serving (q : Queue) : Prop where
  /-- Nothing was called off. -/
  cancelled : q.cancelled = false
  /-- Nobody asked it to stop. -/
  stop : q.stopRequested = false
  /-- It serves. -/
  worker : q.worker.serves = true
  /-- Builders that hold something come with a wake-up. -/
  wakeful : q.Wakeful

/-- A turn of a worker that serves, when the network does not fail. -/
inductive GoodTurn (q : Queue) (reply : Option NetworkReply) : Queue → Prop
  /-- It goes on waiting for the network. -/
  | wait (h : reply ≠ q.worker.awaited?) : GoodTurn q reply q
  /-- Its first turn. -/
  | start {q' : Queue} (hw : q.worker = .launched) (t : Choice false q.openBus q') :
      GoodTurn q reply q'
  /-- It is free to choose. -/
  | choose {q' : Queue} {sender : Bool} (hw : q.worker = .choosing sender)
      (t : Choice sender q q') : GoodTurn q reply q'
  /-- The sender is open. -/
  | opened {d : Finished} (hw : q.worker = .opening d) :
      GoodTurn q reply ((q.note .opened).beginSend d)
  /-- The message was sent. -/
  | sent {d : Finished} (hw : q.worker = .sending d) :
      GoodTurn q reply ((q.note .sendOk).completeDelivery d)

namespace Serving

/-- While the worker serves and the network does not fail, every turn is a good one. -/
theorem goodTurn (h : q.Serving) {reply : Option NetworkReply}
    (hr : reply.all NetworkReply.isSuccess = true) : GoodTurn q reply (q.work reply) := by
  have hworker := h.worker
  unfold work
  split
  next hw => cases hw ▸ hworker
  next hw => exact .start hw (choose_choice q.openBus false)
  next sender hw => exact .choose hw (choose_choice q sender)
  next d hw =>
    rw [if_neg (by simp [h.cancelled])]
    split
    · exact .opened hw
    · cases hr
    · rename_i hne _
      exact .wait fun heq => hne (by rw [heq, hw]; rfl)
  next d hw =>
    rw [if_neg (by simp [h.cancelled])]
    split
    · exact .sent hw
    · cases hr
    · rename_i hne _
      exact .wait fun heq => hne (by rw [heq, hw]; rfl)
  next hw => cases hw ▸ hworker
  next hw => cases hw ▸ hworker
  next hw => cases hw ▸ hworker

end Serving

namespace GoodTurn

variable {reply : Option NetworkReply}

/-- A good turn leaves the worker serving. -/
theorem proceeds (t : GoodTurn q reply q') (h : q.Serving) : Proceeds q q' := by
  cases t with
  | wait => exact ⟨rfl, rfl, h.worker, rfl⟩
  | start hw t =>
    obtain ⟨hproceeds, -⟩ := Choice.proceeds t h.cancelled h.stop
    have hlog : q.openBus.log = q.log ++ [.busStarted] := rfl
    have hcourse : q.openBus.course = q.course :=
      course_of_silent rfl hlog (by simp [Action.isOfBacklog])
    exact ⟨hproceeds.cancelled, hproceeds.stop, hproceeds.worker, hproceeds.course.trans hcourse⟩
  | choose hw t => exact (t.proceeds h.cancelled h.stop).1
  | @opened d hw =>
    have hlog : ((q.note .opened).beginSend d).log =
        q.log ++ [.opened, .sending d.message] := by
      simp [beginSend, note]
    exact ⟨rfl, rfl, rfl, course_of_silent rfl hlog (by simp [Action.isOfBacklog])⟩
  | @sent d hw =>
    obtain ⟨pool, bus, post, entries, he, heq⟩ := completeDelivery_eq q d
    rw [heq]
    exact ⟨rfl, rfl, rfl, course_of_silent rfl rfl he⟩

/-- A good turn is a step forward, unless the worker has to wait for the network or is free to
choose and finds nothing to do. -/
theorem forward (t : GoodTurn q reply q') (h : q.Serving) (hreply : reply = q.worker.awaited?) :
    (∃ sender, q.worker = .choosing sender) ∧ q' = q ∨ q'.toGo < q.toGo := by
  cases t with
  | wait hne => exact absurd hreply hne
  | start hw t =>
    obtain ⟨-, hgo⟩ := Choice.proceeds t h.cancelled h.stop
    refine .inr ?_
    rw [toGo.eq_def q, hw]
    rcases hgo with rfl | hgo
    · exact Nat.lt_succ_self _
    · exact hgo.trans (Nat.lt_succ_self _)
  | @choose _ sender hw t =>
    obtain ⟨-, rfl | hgo⟩ := t.proceeds h.cancelled h.stop
    · exact .inl ⟨⟨sender, hw⟩, by rw [← hw]⟩
    · refine .inr ?_
      rw [toGo.eq_def q, hw]
      exact hgo
  | opened hw =>
    refine .inr ?_
    simp [toGo, beginSend, note, hw, Worker.turnsAhead]
  | @sent d hw =>
    obtain ⟨pool, bus, post, entries, -, heq⟩ := completeDelivery_eq q d
    refine .inr ?_
    rw [heq]
    simp [toGo, hw, Worker.turnsAhead]

end GoodTurn

namespace Serving

/-- What may happen leaves the worker serving and every builder what it is. -/
theorem step (h : q.Serving) (hm : m.isService = true) :
    (q.step m).Serving ∧ (q.step m).course = q.course := by
  have hwakeful := wakeful_step q m h.wakeful
  rcases Move.isService_cases hm with rfl | ⟨reply, rfl, hr⟩ | haround
  · have hsame : q.step .startup = q := by
      simp only [Queue.step, Queue.startup]
      split
      · split
        · rename_i hw
          cases hw ▸ h.worker
        · rfl
      · rfl
    rw [hsame]
    exact ⟨h, rfl⟩
  · have hproceeds := (h.goodTurn hr).proceeds h
    exact ⟨⟨hproceeds.cancelled.trans h.cancelled, hproceeds.stop.trans h.stop, hproceeds.worker,
      hwakeful⟩, hproceeds.course⟩
  · obtain ⟨pool, bus, post, producers, heq⟩ := step_around q haround
    rw [heq] at hwakeful ⊢
    exact ⟨⟨h.cancelled, h.stop, h.worker, hwakeful⟩, rfl⟩

theorem run (h : q.Serving) (hm : ∀ m ∈ moves, m.isService = true) :
    (q.run moves).Serving ∧ (q.run moves).course = q.course := by
  induction moves generalizing q with
  | nil => exact ⟨h, rfl⟩
  | cons m rest ih =>
    obtain ⟨hfirst, hrest⟩ := List.forall_mem_cons.mp hm
    obtain ⟨hserving, hcourse⟩ := h.step hfirst
    obtain ⟨hserving', hcourse'⟩ := ih hserving hrest
    exact ⟨hserving', hcourse'.trans hcourse⟩

/-! ## Messages -/

/-- What was sent, or waits for a sender, is what the builders that were taken hold. -/
theorem transmitted_eq {start : Queue} (h : q.Serving) (hnew : start.IsNew)
    (hreach : Reachable start q) :
    q.transmitted ++ q.awaited = q.taken.filterMap Builder.message? := by
  obtain ⟨told, hwritten⟩ := hnew.written hreach.path
  exact hwritten.transmitted_eq (hwritten.fails_eq (.inl h.stop))

/-- While the worker serves, messages are sent in the order of their builders and each once. -/
theorem transmitted_prefix {start : Queue} (h : q.Serving) (hnew : start.IsNew)
    (hreach : Reachable start q) :
    q.transmitted ++ q.awaited <+: q.course.filterMap Builder.message? := by
  rw [h.transmitted_eq hnew hreach, course, List.filterMap_append]
  exact List.prefix_append ..

/-- A worker without anything to do has sent all there was. -/
theorem transmitted_of_blocked {start : Queue} (h : q.Serving) (hnew : start.IsNew)
    (hreach : Reachable start q) (hblocked : q.Blocked) :
    q.transmitted = q.course.filterMap Builder.message? := by
  have hempty : q.backlog.builders.filterMap Builder.message? = [] := by
    refine List.filterMap_eq_nil_iff.mpr fun b hb => ?_
    have hb' : b.isEmpty = true := by
      by_contra hne
      have ht := h.wakeful b hb (by simpa using hne)
      cases hblocked.idle.2.2.symm.trans ht
    rw [Builder.message?, Builder.finish?_eq_none_iff.mpr hb']
    rfl
  have hawaited : q.awaited = [] := by
    obtain ⟨⟨sender, hw⟩, -⟩ := hblocked
    rw [awaited, hw]
  have hsent := h.transmitted_eq hnew hreach
  rw [hawaited, List.append_nil] at hsent
  rw [hsent, course, List.filterMap_append, hempty, List.append_nil]

/-- Whatever may happen from then on, what is sent is what the builders hold that were in line or
taken, in their order; and all of it, when the worker has nothing left to do. -/
theorem sends {start : Queue} (h : q.Serving) (hnew : start.IsNew) (hreach : Reachable start q)
    (hm : ∀ m ∈ moves, m.isService = true) :
    (q.run moves).transmitted ++ (q.run moves).awaited <+: q.course.filterMap Builder.message? ∧
      ((q.run moves).Blocked →
        (q.run moves).transmitted = q.course.filterMap Builder.message?) := by
  obtain ⟨hserving, hcourse⟩ := h.run hm
  have hreach' : Reachable start (q.run moves) := by
    obtain ⟨before, rfl⟩ := hreach
    exact ⟨before ++ moves, run_append start before moves⟩
  rw [← hcourse]
  exact ⟨hserving.transmitted_prefix hnew hreach', hserving.transmitted_of_blocked hnew hreach'⟩

end Serving

/-! ## A prompt network -/

/-- A turn of the worker in which the network replies at once, as the worker hopes. -/
def attend (q : Queue) : Queue := q.step (.work q.worker.awaited?)

theorem isService_attend (w : Worker) : (Move.work w.awaited?).isService = true := by
  cases w <;> rfl

/-- Turns with a prompt network are moves like others. -/
theorem exists_run_attend (q : Queue) (n : Nat) :
    ∃ moves, (∀ m ∈ moves, m.isService = true) ∧ attend^[n] q = q.run moves := by
  induction n generalizing q with
  | zero => exact ⟨[], List.forall_mem_nil _, rfl⟩
  | succ n ih =>
    obtain ⟨moves, hmoves, heq⟩ := ih q.attend
    refine ⟨.work q.worker.awaited? :: moves,
      List.forall_mem_cons.mpr ⟨isService_attend _, hmoves⟩, ?_⟩
    rw [Function.iterate_succ_apply, heq]
    rfl

/-- With a prompt network every turn is a step forward until the worker has nothing to do. -/
theorem Serving.attend (h : q.Serving) : (Queue.attend q).Serving ∧
    (q.Blocked ∧ Queue.attend q = q ∨ (Queue.attend q).toGo < q.toGo) := by
  have hservice := isService_attend q.worker
  refine ⟨(h.step hservice).1, ?_⟩
  rcases (h.goodTurn hservice).forward h rfl with ⟨⟨sender, hw⟩, hstill⟩ | hgo
  · refine .inl ⟨⟨⟨sender, hw⟩, ?_⟩, hstill⟩
    rwa [hw] at hstill
  · exact .inr hgo

/-- After enough turns with a prompt network the worker has nothing left to do. -/
theorem Serving.blocked {n : Nat} (h : q.Serving) (hn : q.toGo ≤ n) :
    (Queue.attend^[n] q).Blocked := by
  induction n generalizing q with
  | zero =>
    rcases h.attend.2 with ⟨hblocked, -⟩ | hgo
    · exact hblocked
    · omega
  | succ n ih =>
    obtain ⟨hserving, ⟨hblocked, hstill⟩ | hgo⟩ := h.attend
    · -- from here on no turn changes anything
      rw [Function.iterate_fixed hstill]
      exact hblocked
    · rw [Function.iterate_succ_apply]
      exact ih hserving (by omega)

end Queue

end Outbox
