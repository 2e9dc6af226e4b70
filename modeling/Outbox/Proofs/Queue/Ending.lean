import Outbox.Proofs.Queue.Backing

/-!
# Queues that come to an end

A queue ends for its producers in one of two ways.  When it was called off, that is never taken
back, and every producer sees it at its next turn.  When its worker is gone, the teardown has
answered everyone in line and given everything back; from then on every producer gets its answer at
once, and gives back what it is granted because its edits come too late.

* `Queue.cancelled_step` — a cancellation is not taken back;
* `Queue.Gone` — the state after a teardown, with `Queue.gone_teardown`;
* `Queue.Gone.arrive`, `Queue.Gone.comeBack`, `Queue.Gone.abandon` — what producers do then;
* `Queue.gone_step` — as long as nobody else uses the pool, it stays like this.
-/

namespace Outbox.Queue

open Allocator (sole)

variable {q q' : Queue} {t : Ticket} {edits : List Edit} {size : Nat}

/-! ## A cancellation is not taken back -/

theorem Arrival.cancelled_eq (a : Arrival q t size edits q') : q'.cancelled = q.cancelled := by
  cases a with
  | free hs => exact mutate_cancelled q t 0 edits
  | callOff hs hc => rfl
  | answered hs hc ha => exact answer_cancelled _ t size edits _
  | wait hs hc ha => rfl

theorem Return.cancelled_eq (r : Return q t edits q') : q'.cancelled = q.cancelled := by
  cases r with
  | unknown hw => rfl
  | callOff hw hc => rfl
  | answered hw hc ha => exact answer_cancelled _ t _ edits _
  | wait hw hc ha => rfl

theorem failDelivery_cancelled (q : Queue) (d : Finished) (cause : QueueError) :
    (q.failDelivery d cause).cancelled = q.cancelled := by
  simp [failDelivery, closeTopic, note]

theorem Choice.cancelled {sender : Bool} (t : Choice sender q q') (h : q.cancelled = true) :
    q'.cancelled = true := by
  cases t with
  | callOff hc => cases sender <;> exact h
  | stop hc hs t => rw [h] at hc; cases hc
  | rest hc hs ht => exact h
  | idle hc hs ht hb => exact h
  | skip hc hs ht hb hf => exact h
  | deliver hc hs ht hb hf => rw [h] at hc; cases hc

theorem Turn.cancelled (t : Turn q q') (h : q.cancelled = true) : q'.cancelled = true := by
  cases t with
  | wait => exact h
  | start hw t => exact Choice.cancelled t h
  | choose hw t => exact t.cancelled h
  | callOffOpen hw hc => exact (failDelivery_cancelled _ _ _).trans h
  | opened hw hc => exact h
  | openFailed hw hc e => exact (failDelivery_cancelled _ _ _).trans h
  | callOffSend hw hc => exact h
  | sent hw hc => rw [h] at hc; cases hc
  | sendFailed hw hc e => exact h
  | resetDone hw => exact (failDelivery_cancelled _ _ _).trans h
  | part hw => exact h

theorem cancelled_step (q : Queue) (m : Move) (h : q.cancelled = true) :
    (q.step m).cancelled = true := by
  have t := step_outcome q m
  generalize q.step m = q' at t
  cases t with
  | refused _ => exact h
  | @arrived t size edits hr ht => exact (reserve_arrival q t size edits).cancelled_eq.trans h
  | @returned t edits => exact (resume_return q t edits).cancelled_eq.trans h
  | abandoned =>
    unfold Queue.abandon
    split <;> exact h
  | launched hr hw => exact h
  | scrubbed hr => simpa using h
  | @worked reply => exact (work_turn q reply).cancelled h
  | dropped hr hw hp => exact h
  | shared ho hk => exact h
  | withheld => exact h
  | aside hproducer hr hs hc => exact hc h

/-! ## After the teardown -/

/-- The worker is gone: nothing is held but what a producer has in hand, and every producer that
waits has its answer. -/
structure Gone (held : Nat) (q : Queue) : Prop where
  /-- Nothing else is held, and everyone is answered. -/
  pool : ∃ limits answers, q.pool = .limited (sole limits q.peer { held } answers) ∧
    ∀ p ∈ q.producers, answers.lookup p.ticket ≠ none
  /-- The worker is gone. -/
  worker : q.worker = .stopped
  /-- Nothing is in line. -/
  builders : q.backlog.builders = []
  /-- Nothing will be. -/
  closed : q.backlog.closed = true

namespace Gone

variable {held : Nat}

theorem note (h : Gone held q) (a : Action) : Gone held (q.note a) :=
  ⟨h.pool, h.worker, h.builders, h.closed⟩

/-- All that is held can be given back. -/
theorem release_held (h : Gone held q) (hn : held ≠ 0) : ∃ limits answers,
    q.release held = { q with pool := .limited (sole limits q.peer {} answers) }.note
      (.release held none) ∧ ∀ p ∈ q.producers, answers.lookup p.ticket ≠ none := by
  obtain ⟨limits, answers, hpool, hanswered⟩ := h.pool
  refine ⟨limits, answers, release_of_ok hn ?_, hanswered⟩
  rw [hpool, Pool.release, Allocator.sole_release_all limits q.peer answers hn]
  rfl

/-- When nothing is held, nothing can be given back. -/
theorem release_nothing {n : Nat} (h : Gone 0 q) (hn : n ≠ 0) :
    q.release n = q.note (.release n (some (.unknownPeer q.peer))) := by
  obtain ⟨limits, answers, hpool, -⟩ := h.pool
  refine release_of_error hn ?_
  rw [hpool, Pool.release, Allocator.sole_release_empty]
  rfl

/-- Bytes in hand are given back; bytes that were given back by the teardown are refused. -/
theorem release {n : Nat} (h : Gone held q) (hn : held = n ∨ held = 0) : Gone 0 (q.release n) := by
  by_cases hzero : n = 0
  · have hheld : held = 0 := by omega
    subst hzero hheld
    exact h
  rcases hn with rfl | rfl
  · obtain ⟨limits, answers, heq, hanswered⟩ := h.release_held hzero
    rw [heq]
    exact ⟨⟨limits, answers, rfl, hanswered⟩, h.worker, h.builders, h.closed⟩
  · rw [h.release_nothing hzero]
    exact h.note _

/-- Edits come too late. -/
theorem mutate (h : Gone held q) (hs : held = size ∨ held = 0) (p : Nat) (edits : List Edit) :
    Gone 0 (q.mutate p size edits) := by
  rw [mutate_of_closed h.closed]
  exact (h.release hs).note _

theorem answer (h : Gone held q) (t : Ticket) (edits : List Edit) {grant : Grant}
    (hs : held = grant.bytes size ∨ held = 0) : Gone 0 (q.answer t size edits grant) := by
  cases grant with
  | granted => exact (h.note (.allocated t size none)).mutate hs t edits
  | refused e =>
    have hheld : held = 0 := hs.elim id id
    subst hheld
    exact (h.note _).note _

/-- A producer that comes now is granted its bytes at once. -/
theorem served (h : Gone 0 q) (ht : q.isTaken t = false) (hs : size ≠ 0) :
    ∃ pool, (q.ask t size).pool.take? t = some (.granted, pool) ∧
      Gone size { q.ask t size with pool } := by
  obtain ⟨hwaiting, hopen⟩ := not_taken ht
  have hothers := ne_of_waitingSize?_eq_none hwaiting
  obtain ⟨limits, answers, hpool, hanswered⟩ := h.pool
  rw [hpool] at hopen
  have hnone : answers.lookup t = none := (Allocator.sole_isOpen hopen).2
  have hasked : (q.ask t size).pool =
      .limited (sole limits q.peer { held := size } (answers ++ [(t, .granted)])) := by
    have hr : ({} : Account).line = [] ∧ (sole limits q.peer {} answers).request t q.peer size =
        sole limits q.peer { held := 0 + size } (answers ++ [(t, .granted)]) := by
      rcases Allocator.sole_request (c := {}) (fun _ => rfl) t hs with hr | ⟨hheld, -⟩
      · exact hr
      · exact absurd rfl hheld
    show q.pool.request t q.peer size = _
    rw [hpool, Pool.request, hr.2, Nat.zero_add]
  rw [hasked, take?_sole, Answers.lookup_concat_self hnone]
  refine ⟨_, rfl, ⟨limits, _, rfl, ?_⟩, h.worker, h.builders, h.closed⟩
  intro p hp
  have hne : p.ticket ≠ t := hothers p hp
  rw [Answers.lookup_without _ hne, Answers.lookup_concat_of_ne _ hne]
  exact hanswered p hp

/-- A producer that comes now gives back what it is granted. -/
theorem arrive (h : Gone 0 q) (a : Arrival q t size edits q') (ht : q.isTaken t = false) :
    Gone 0 q' := by
  cases a with
  | free hs => exact h.mutate (.inr rfl) t edits
  | callOff hs hc => exact h.note _
  | answered hs hc ha =>
    obtain ⟨pool, hserved, hgone⟩ := h.served ht hs
    cases hserved.symm.trans ha
    have hsize : size = Grant.granted.bytes size := rfl
    exact hgone.answer t edits (.inl hsize)
  | wait hs hc ha =>
    obtain ⟨pool, hserved, -⟩ := h.served ht hs
    cases hserved.symm.trans ha

/-- The others still have their answers when one producer leaves. -/
theorem leave {limits : MemoryLimits} {answers : List (Ticket × Grant)} (h : Gone 0 q)
    (hanswered : ∀ p ∈ q.producers, answers.lookup p.ticket ≠ none) (t : Ticket) :
    Gone 0 ({ q with pool := .limited (sole limits q.peer {}
      (answers.filter (fun e => e.1 ≠ t))) }.forgetProducer t) := by
  refine ⟨⟨limits, _, rfl, ?_⟩, h.worker, h.builders, h.closed⟩
  intro p hp
  obtain ⟨hp, hpt⟩ := List.mem_filter.mp hp
  rw [Answers.lookup_without _ (by simpa using hpt)]
  exact hanswered p hp

theorem abandon (h : Gone 0 q) (t : Ticket) : Gone 0 (q.abandon t) := by
  obtain ⟨limits, answers, hpool, hanswered⟩ := h.pool
  unfold Queue.abandon
  split
  · exact h
  · have hp : q.pool.abandon t = .limited (sole limits q.peer {}
        (answers.filter (fun e => e.1 ≠ t))) := by
      rw [hpool, Pool.abandon, Allocator.sole_abandon]
      rfl
    rw [hp]
    exact h.leave hanswered t

/-- A scrub finds nothing to give back. -/
theorem scrub (h : Gone held q) (rs : List RequestId) : Gone held (q.scrub rs) := by
  have hfrees : q.backlog.scrubFrees rs = 0 := by
    simp [Backlog.scrubFrees, h.builders]
  have hnothing : (q.backlog.scrub rs).builders = [] := by
    simp [Backlog.scrub, h.builders]
  rw [Queue.scrub, hfrees]
  exact ⟨h.pool, h.worker, hnothing, h.closed⟩

/-- A producer that comes back reads its answer. -/
theorem comeBack (h : Gone 0 q) (r : Return q t edits q') : Gone 0 q' := by
  obtain ⟨limits, answers, hpool, hanswered⟩ := h.pool
  cases r with
  | unknown hw => exact h
  | @callOff size hw hc =>
    have hleft := h.abandon t
    rw [Queue.abandon, hw] at hleft
    exact hleft.note _
  | @answered size grant pool hw hc ha =>
    rw [hpool, take?_sole] at ha
    cases hlookup : answers.lookup t with
    | none =>
      rw [hlookup] at ha
      cases ha
    | some g =>
      rw [hlookup] at ha
      cases ha
      exact (h.leave hanswered t).answer t edits (.inr rfl)
  | wait hw hc ha => exact h

end Gone

/-- The teardown answers everyone. -/
theorem gone_teardown (h : IsSole q) : Gone 0 q.teardown := by
  obtain ⟨limits, c, answers, h⟩ := h
  refine ⟨⟨limits, answers ++ c.wanted.map fun w => (w.ticket, .refused (.peerReleased q.peer)),
    ?_, ?_⟩, rfl, rfl, rfl⟩
  · show q.pool.releasePeer q.peer = _
    rw [h.pool, Pool.releasePeer, Allocator.sole_releasePeer]
    rfl
  · intro p hp hnone
    rw [List.lookup_append, Option.or_eq_none_iff] at hnone
    obtain ⟨hbefore, hrefused⟩ := hnone
    obtain ⟨w, hw, hwp⟩ := List.mem_map.mp (h.line.waits p hp hbefore)
    rw [List.lookup_eq_none_iff] at hrefused
    have hne := hrefused _ (List.mem_map_of_mem hw)
    simp [hwp] at hne

/-- An allocator cannot be told to withhold its answers. -/
theorem withhold_of_limited {a : Allocator} (h : q.pool = .limited a) (value : Bool) :
    { q with pool := q.pool.withhold value } = q := by
  have hpool : q.pool.withhold value = q.pool := by
    rw [h]
    rfl
  rw [hpool]

/-- After the teardown nobody waits without an answer. -/
theorem gone_step (q : Queue) (m : Move) (hm : m.isOfOther = false) (h : Gone 0 q) :
    Gone 0 (q.step m) := by
  have hstarted : q.worker ≠ .unstarted := by
    rw [h.worker]
    intro hw
    cases hw
  have t := step_outcome q m
  generalize q.step m = q' at t
  cases t with
  | refused _ => exact h
  | @arrived t size edits hr ht => exact h.arrive (reserve_arrival q t size edits) ht
  | @returned t edits => exact h.comeBack (resume_return q t edits)
  | @abandoned t => exact h.abandon t
  | launched hr hw => exact absurd hw hstarted
  | @scrubbed rs hr => exact h.scrub rs
  | @worked reply =>
    have hwork : q.work reply = q := by simp only [work, h.worker]
    rw [hwork]
    exact h
  | dropped hr hw hp => exact absurd hw hstarted
  | shared ho hk =>
    rw [hm] at ho
    cases ho
  | @withheld value =>
    obtain ⟨limits, answers, hpool, -⟩ := h.pool
    rw [withhold_of_limited hpool value]
    exact h
  | aside hproducer hr hs hc => exact ⟨h.pool, h.worker, h.builders, h.closed⟩

end Outbox.Queue
