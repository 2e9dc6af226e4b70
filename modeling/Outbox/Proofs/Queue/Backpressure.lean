import Outbox.Proofs.Queue.Ending
import Outbox.Proofs.Queue.WakeUp

/-!
# Backpressure never deadlocks

Producers that ask for more memory than there is wait for the worker to send what others have
added.  When nobody can make a step any more, nobody waits: the worker is blocked only when the
builders in line are empty, then every byte that is still held belongs to a grant that some
producer can read, and when nothing is held nobody waits in the line of the allocator.

* `Queue.OwnMove` — what the moves have to meet;
* `Queue.Sustained` — the invariant, with `Queue.sustained_step`;
* `Queue.Quiescent` — nobody can make a step;
* `Queue.no_producer_waits` — then no producer waits;
* `Queue.free_edits_strand_producers` — why edits that reserve nothing must not touch blocks.
-/

namespace Outbox.Queue

variable {len : Link → Nat} {q q' : Queue} {t : Ticket} {edits : List Edit} {size : Nat}

/-! ## Every move -/

/-- What a move has to meet: edits add exactly what was reserved, nobody else uses the pool, and no
producer goes away with a grant that it has not read. -/
def OwnMove (len : Link → Nat) (q : Queue) (m : Move) : Prop :=
  q.HonestMove len m ∧
    match m with
    | .abandon t =>
      ∀ size, q.waitingSize? t = some size → Answers.hasGranted q.pool.answers t = false
    | .borrow .. => False
    | .collect .. => False
    | .repay .. => False
    | _ => True

/-- The queue was called off, it was let go of before it was started, its bytes are in their
places, or the worker is gone. -/
inductive Sustained (len : Link → Nat) (q : Queue) : Prop
  /-- The queue was called off. -/
  | calledOff (hc : q.cancelled = true)
  /-- It will never be started. -/
  | dropped (hw : q.worker = .unstarted) (hr : q.reachable = false) (hp : q.producers = [])
  /-- Every byte is in its place. -/
  | backed (hw : q.worker ≠ .stopped) (hacc : q.backlog.Accounted len)
      (hb : IsBacked q.worker.bytes q)
  /-- The worker is gone. -/
  | gone (hg : Gone 0 q)

theorem WorkFlow.sustained (hf : WorkFlow q.worker.bytes q q') (hw : q.worker ≠ .stopped)
    (hacc : q'.backlog.Accounted len) (hb : IsBacked q.worker.bytes q) : Sustained len q' := by
  cases hf with
  | goesOn hf hw' => exact .backed (fun hs => hw (hw' hs)) hacc (hb.flow hf)
  | ends hf => exact .gone (gone_teardown (hb.flow hf).sole)

theorem OwnMove.isOfOther_eq {m : Move} (h : q.OwnMove len m) : m.isOfOther = false := by
  cases m with
  | borrow t p amount => exact h.2.elim
  | collect t => exact h.2.elim
  | repay p amount => exact h.2.elim
  | _ => rfl

/-- A queue that was let go of before it was started stays as it is. -/
theorem dropped_step (q : Queue) (m : Move) (hm : q.OwnMove len m) (hw : q.worker = .unstarted)
    (hr : q.reachable = false) (hp : q.producers = []) : Sustained len (q.step m) := by
  have hnobody : ∀ t, q.waitingSize? t = none := by
    intro t
    simp [waitingSize?, hp]
  have hunreachable : q.reachable ≠ true := by simp [hr]
  have t := step_outcome q m
  generalize q.step m = q' at t
  cases t with
  | refused _ => exact .dropped hw hr hp
  | arrived hr' ht => exact absurd hr' hunreachable
  | @returned t edits => simpa [resume, hnobody] using Sustained.dropped hw hr hp
  | @abandoned t => simpa [Queue.abandon, hnobody] using Sustained.dropped hw hr hp
  | launched hr' hw' => exact absurd hr' hunreachable
  | scrubbed hr' => exact absurd hr' hunreachable
  | worked => simpa [work, hw] using Sustained.dropped hw hr hp
  | dropped hr' hw' hp' => exact absurd hr' hunreachable
  | shared ho hk =>
    rw [hm.isOfOther_eq] at ho
    cases ho
  | withheld => exact .dropped hw hr hp
  | aside hproducer hr' hs hc => exact .dropped hw (hr' hr) hp

/-- While the worker is there, every byte stays in its place. -/
theorem backed_step (q : Queue) (m : Move) (hm : q.OwnMove len m) (hc : q.cancelled = false)
    (hw : q.worker ≠ .stopped) (hacc : q.backlog.Accounted len) (hb : IsBacked q.worker.bytes q) :
    Sustained len (q.step m) := by
  have t := step_outcome q m
  generalize q.step m = q' at t
  cases t with
  | refused _ => exact .backed hw hacc hb
  | @arrived t size edits hr ht =>
    have ha := reserve_arrival q t size edits
    obtain ⟨hleft, hbacked⟩ := ha.backed hb hacc hm.1 ht
    refine .backed (by rw [ha.worker_eq]; exact hw) hleft ?_
    rw [ha.worker_eq]
    exact hbacked
  | @returned t edits =>
    have hr := resume_return q t edits
    obtain ⟨hleft, hbacked⟩ := hr.backed hb hacc hm.1 hc
    refine .backed (by rw [hr.worker_eq]; exact hw) hleft ?_
    rw [hr.worker_eq]
    exact hbacked
  | @abandoned t =>
    have hframe : (q.abandon t).worker = q.worker ∧ (q.abandon t).backlog = q.backlog := by
      unfold Queue.abandon
      split <;> exact ⟨rfl, rfl⟩
    refine .backed (by rw [hframe.1]; exact hw) (by rw [hframe.2]; exact hacc) ?_
    rw [hframe.1]
    exact hb.abandon t hm.2
  | launched hr hunstarted =>
    have hlaunch : Flow 0 q 0 { q with worker := .launched } :=
      .still ⟨rfl, rfl, rfl, rfl⟩ rfl
    rw [hunstarted] at hb
    exact .backed (by intro hs; cases hs) hacc (hb.flow hlaunch)
  | @scrubbed rs hr =>
    obtain ⟨hleft, hflow⟩ := flow_scrub q.worker.bytes hacc rs
    have hworker : (q.scrub rs).worker = q.worker := scrub_worker q rs
    refine .backed (by rw [hworker]; exact hw) hleft ?_
    rw [hworker]
    exact hb.flow hflow
  | @worked reply =>
    obtain ⟨hleft, hflow⟩ := (work_turn q reply).flow hacc
    exact hflow.sustained hw hleft hb
  | dropped hr hunstarted hp => exact .dropped hunstarted rfl hp
  | shared ho hk =>
    rw [hm.isOfOther_eq] at ho
    cases ho
  | @withheld value =>
    obtain ⟨limits, c, answers, hb'⟩ := hb
    rw [withhold_of_limited hb'.pool value]
    exact .backed hw hacc ⟨limits, c, answers, hb'⟩
  | aside hproducer hr hs hc =>
    obtain ⟨limits, c, answers, hb⟩ := hb
    exact .backed hw hacc ⟨limits, c, answers, hb.pool, hb.line, hb.idle, hb.held⟩

theorem sustained_step (q : Queue) (m : Move) (hm : q.OwnMove len m) (h : Sustained len q) :
    Sustained len (q.step m) := by
  by_cases hc : q.cancelled = true
  · exact .calledOff (cancelled_step q m hc)
  rw [Bool.not_eq_true] at hc
  cases h with
  | calledOff hc' =>
    rw [hc] at hc'
    cases hc'
  | dropped hw hr hp => exact dropped_step q m hm hw hr hp
  | backed hw hacc hb => exact backed_step q m hm hc hw hacc hb
  | gone hg => exact .gone (gone_step q m hm.isOfOther_eq hg)

theorem sustained_of_isNew {limits : MemoryLimits} (hnew : q.IsNew)
    (hpool : q.pool = .limited { limits }) : Sustained len q := by
  refine .backed ?_ ?_ ⟨limits, {}, [], ?_, ?_, fun _ => rfl, ?_⟩
  · rw [hnew.worker_eq]
    intro hs
    cases hs
  · intro b hb
    rw [hnew.builders_eq] at hb
    cases hb
  · rw [hpool, Allocator.sole_empty]
  · rw [hnew.producers_eq]
    exact .nil []
  · simp [hnew.producers_eq, hnew.worker_eq, hnew.builders_eq, Backlog.bytes, Worker.bytes]

/-! ## When nobody can make a step -/

/-- Nobody can make a step: not the worker, whatever the network replies to it, and no producer. -/
def Quiescent (q : Queue) : Prop :=
  (∀ reply, q.step (.work reply) = q) ∧ ∀ t edits, q.step (.resume t edits) = q

theorem Choice.worker_ne {sender : Bool} (t : Choice sender q q') : q'.worker ≠ .launched := by
  intro hw
  cases t with
  | callOff hc => rw [leave_worker] at hw; cases sender <;> cases hw
  | stop hc hs t => rw [leave_worker] at hw; cases sender <;> cases hw
  | rest hc hs ht => cases hw
  | idle hc hs ht hb => cases hw
  | skip hc hs ht hb hf => cases hw
  | deliver hc hs ht hb hf => cases sender <;> cases hw

namespace Quiescent

/-- A worker that cannot make a step was not started, is gone, or is blocked. -/
theorem worker_eq (h : q.Quiescent) :
    q.worker = .unstarted ∨ q.worker = .stopped ∨ q.Blocked := by
  have hturn : ∀ reply, (q.work reply).worker = q.worker := fun reply =>
    congrArg Queue.worker (h.1 reply)
  cases hw : q.worker with
  | unstarted => exact .inl rfl
  | stopped => exact .inr (.inl rfl)
  | choosing sender => exact .inr (.inr ⟨⟨sender, hw⟩, h.1 none⟩)
  | launched =>
    have hstay := hturn none
    simp only [work, hw] at hstay
    exact absurd hstay (choose_choice _ false).worker_ne
  | opening d =>
    have hstay := hturn (some .opened)
    simp only [work, hw] at hstay
    split at hstay <;> cases hstay
  | sending d =>
    have hstay := hturn (some .sent)
    simp only [work, hw] at hstay
    split at hstay <;> cases hstay
  | resetting d cause =>
    have hstay := hturn (some .resetDone)
    simp only [work, hw] at hstay
    cases hstay
  | parting =>
    have hstay := hturn (some .resetDone)
    simp only [work, hw] at hstay
    cases hstay

/-- A producer that cannot make a step sees no cancellation and has no answer. -/
theorem producer_waits (h : q.Quiescent) {p : Producer} (hp : p ∈ q.producers) :
    q.cancelled = false ∧ q.pool.answers.lookup p.ticket = none := by
  have hstay : q.resume p.ticket [] = q := h.2 p.ticket []
  have hleft : ∀ q' : Queue, q' = q → q'.producers =
      q.producers.filter (fun p' => p'.ticket ≠ p.ticket) → False := by
    rintro q' rfl hfilter
    have hp' := hp
    rw [hfilter] at hp'
    simpa using (List.mem_filter.mp hp').2
  have r := resume_return q p.ticket []
  generalize q.resume p.ticket [] = q' at r hstay
  cases r with
  | unknown hw => exact absurd rfl (ne_of_waitingSize?_eq_none hw p hp)
  | callOff hw hc => exact (hleft _ hstay rfl).elim
  | answered hw hc ha => exact (hleft _ hstay (answer_frame _ _ _ _ _).2).elim
  | wait hw hc ha => exact ⟨hc, Pool.take?_eq_none_iff.mp ha⟩

end Quiescent

/-- The worker is free to choose and has no reason to do anything, and no producer has an
answer. -/
def isIdle (q : Queue) : Bool :=
  (q.worker matches .choosing _) && !q.cancelled && !q.stopRequested && !q.token &&
    q.producers.all fun p => q.pool.answers.lookup p.ticket = none

/-- Nobody can make a step then. -/
theorem quiescent_of_isIdle (h : q.isIdle = true) :
    q.worker ≠ .unstarted ∧ q.Quiescent := by
  simp only [isIdle, Bool.and_eq_true, Bool.not_eq_true', List.all_eq_true,
    decide_eq_true_eq] at h
  obtain ⟨⟨⟨⟨hworker, hc⟩, hs⟩, ht⟩, hp⟩ := h
  obtain ⟨sender, hw⟩ : ∃ sender, q.worker = .choosing sender := by
    split at hworker
    · exact ⟨_, ‹_›⟩
    · cases hworker
  have hstarted : q.worker ≠ .unstarted := by
    rw [hw]
    intro he
    cases he
  refine ⟨hstarted, fun reply => ?_, fun t edits => ?_⟩
  · show q.work reply = q
    simp only [work, hw]
    unfold choose
    rw [if_neg (by simp [hc]), if_neg (by simp [hs]), if_neg (by simp [ht]), ← hw]
  · have r := resume_return q t edits
    show q.resume t edits = q
    generalize q.resume t edits = q' at r
    cases r with
    | unknown hw' => rfl
    | callOff hw' hc' =>
      rw [hc] at hc'
      cases hc'
    | answered hw' hc' ha =>
      have hnone := hp _ (mem_of_waitingSize?_eq_some hw')
      rw [(Pool.take?_eq_some ha).1] at hnone
      cases hnone
    | wait hw' hc' ha => rfl

/-- Builders that hold nothing have no bytes. -/
theorem bytes_of_isEmpty (hacc : q.backlog.Accounted len)
    (h : ∀ b ∈ q.backlog.builders, b.isEmpty = true) : q.backlog.bytes = 0 := by
  refine List.sum_eq_zero fun n hn => ?_
  obtain ⟨b, hb, rfl⟩ := List.mem_map.mp hn
  exact (hacc b hb).size_of_isEmpty (h b hb)

/-- When a worker is blocked and no producer can read an answer, nobody waits for one. -/
theorem IsBacked.producers_eq (h : IsBacked q.worker.bytes q) (hacc : q.backlog.Accounted len)
    (hwakeful : q.Wakeful) (hblocked : q.Blocked)
    (hanswers : ∀ p ∈ q.producers, q.pool.answers.lookup p.ticket = none) :
    q.producers = [] := by
  obtain ⟨limits, c, answers, h⟩ := h
  have hanswers : ∀ p ∈ q.producers, answers.lookup p.ticket = none := by
    intro p hp
    have hnone := hanswers p hp
    rw [h.pool] at hnone
    exact hnone
  have hempty : ∀ b ∈ q.backlog.builders, b.isEmpty = true := by
    intro b hb
    by_contra hne
    have htoken : q.token = true := hwakeful b hb (by simpa using hne)
    rw [hblocked.idle.2.2] at htoken
    cases htoken
  have hbuilders : q.backlog.bytes = 0 := bytes_of_isEmpty hacc hempty
  have hworker : q.worker.bytes = 0 := by
    obtain ⟨⟨sender, hw⟩, -⟩ := hblocked
    rw [hw]
    rfl
  have hgrants : (q.producers.map (grantOf answers)).sum = 0 := by
    refine List.sum_eq_zero fun n hn => ?_
    obtain ⟨p, hp, rfl⟩ := List.mem_map.mp hn
    exact grantOf_of_none (hanswers p hp)
  -- so nothing is held, and nobody waits in the line of the allocator
  have hheld : c.held = 0 := by
    rw [h.held, hbuilders, hworker, hgrants]
  have hwanted : c.wanted = [] := by
    rw [Account.wanted, h.idle hheld]
    rfl
  refine List.eq_nil_iff_forall_not_mem.mpr fun p hp => ?_
  have hmem := h.line.waits p hp (hanswers p hp)
  rw [hwanted] at hmem
  cases hmem

/-- **Backpressure never deadlocks.**  When a started queue is the only user of its allocator,
every producer adds exactly what it reserved and none goes away with a grant that it has not read,
no producer waits once nobody can make a step: whatever the limits are, whatever was asked for or
scrubbed, and whether the queue is running, failed, shut down or cancelled. -/
theorem no_producer_waits {start : Queue} {moves : List Move} {limits : MemoryLimits}
    (hnew : start.IsNew) (hpool : start.pool = .limited { limits })
    (hm : start.Along (OwnMove len) moves) (hstarted : (start.run moves).worker ≠ .unstarted)
    (hq : (start.run moves).Quiescent) : (start.run moves).producers = [] := by
  have hsustained : Sustained len (start.run moves) :=
    hm.run sustained_step (sustained_of_isNew hnew hpool)
  have hwakeful : (start.run moves).Wakeful :=
    Reachable.invariant ⟨moves, rfl⟩ (wakeful_of_nil hnew.builders_eq) wakeful_step
  cases hsustained with
  | dropped hw hr hp => exact hp
  | calledOff hc =>
    refine List.eq_nil_iff_forall_not_mem.mpr fun p hp => ?_
    rw [(hq.producer_waits hp).1] at hc
    cases hc
  | gone hg =>
    refine List.eq_nil_iff_forall_not_mem.mpr fun p hp => ?_
    obtain ⟨limits, answers, hpool, hanswered⟩ := hg.pool
    have hnone := (hq.producer_waits hp).2
    rw [hpool] at hnone
    exact hanswered p hp hnone
  | backed hw hacc hb =>
    rcases hq.worker_eq with hunstarted | hstopped | hblocked
    · exact absurd hunstarted hstarted
    · exact absurd hstopped hw
    · exact hb.producers_eq hacc hwakeful hblocked fun p hp => (hq.producer_waits hp).2

/-- Two producers ask for all the memory there is; the second one is served when the first message
was sent. -/
theorem no_producer_waits_after_two :
    let start : Queue :=
      { peer := Peer.zero, settings := {},
        pool := .limited { limits := { total := 10, perPeer := 10 } } }
    let block : Edit := .addBlock (Block.fill default 10 1)
    let moves : List Move := [.reserve 0 10 [block], .reserve 1 10 [block], .startup,
      .work none, .work (some .opened), .work (some .sent), .resume 1 [block], .work none,
      .work (some .sent)]
    (start.run moves).Quiescent ∧ (start.run moves).producers = [] := by
  intro start block moves
  have hblock : Honest (fun _ => 10) 10 [block] := honest_addBlock rfl rfl
  have hresumed : ∀ q' : Queue, q'.waitingSize? 1 = some 10 →
      ∀ size, q'.waitingSize? 1 = some size → Honest (fun _ => 10) size [block] := by
    intro q' hq' size hsize
    rw [hq'] at hsize
    cases hsize
    exact hblock
  have hm : start.Along (OwnMove fun _ => 10) moves :=
    ⟨⟨hblock, trivial⟩, ⟨hblock, trivial⟩, ⟨trivial, trivial⟩, ⟨trivial, trivial⟩,
      ⟨trivial, trivial⟩, ⟨trivial, trivial⟩, ⟨hresumed _ (by decide +kernel), trivial⟩,
      ⟨trivial, trivial⟩, ⟨trivial, trivial⟩, trivial⟩
  obtain ⟨hstarted, hquiet⟩ := quiescent_of_isIdle (q := start.run moves) (by decide +kernel)
  exact ⟨hquiet, no_producer_waits rfl rfl hm hstarted hquiet⟩

/-! ## Edits that reserve nothing -/

/-- As for `OwnMove`, but the edits of a producer that reserves nothing may do anything. -/
def LooseMove (len : Link → Nat) (q : Queue) : Move → Prop
  | .reserve t size edits => size ≠ 0 → q.OwnMove len (.reserve t size edits)
  | m => q.OwnMove len m

/-- **Edits that reserve nothing must not touch blocks.**  One that adds a block makes the message
larger than what is held for it, so nothing can be given back when it was sent; one that scrubs
leaves bytes held that belong to no builder.  Either way the next producer waits for ever. -/
theorem free_edits_strand_producers :
    let start : Queue :=
      { peer := Peer.zero, settings := {},
        pool := .limited { limits := { total := 10, perPeer := 10 } } }
    let block : Edit := .addBlock (Block.fill default 10 1)
    let present : Edit := .addLink default default .present
    let adding : List Move := [.reserve 0 10 [block], .reserve 1 0 [block],
      .reserve 2 10 [block], .startup, .work none, .work (some .opened), .work (some .sent)]
    let scrubbing : List Move := [.reserve 0 10 [block, present], .reserve 1 0 [.scrub [default]],
      .reserve 2 10 [block], .startup, .work none]
    start.IsNew ∧ start.pool = .limited { limits := { total := 10, perPeer := 10 } } ∧
      ∀ moves ∈ [adding, scrubbing], start.Along (LooseMove fun _ => 10) moves ∧
        (start.run moves).worker ≠ .unstarted ∧ (start.run moves).Quiescent ∧
        (start.run moves).producers ≠ [] := by
  intro start block present adding scrubbing
  have hblock : Honest (fun _ => 10) 10 [block] := honest_addBlock rfl rfl
  have hpresent : Honest (fun _ => 10) 10 [block, present] := by
    refine ⟨?_, rfl⟩
    intro e he
    rcases List.mem_cons.mp he with rfl | he
    · exact rfl
    · rw [List.mem_singleton.mp he]
      trivial
  refine ⟨rfl, rfl, fun moves hmoves => ?_⟩
  rcases List.mem_cons.mp hmoves with rfl | hmoves
  · obtain ⟨hstarted, hquiet⟩ := quiescent_of_isIdle (q := start.run adding) (by decide +kernel)
    have hm : start.Along (LooseMove fun _ => 10) adding :=
      ⟨fun _ => ⟨hblock, trivial⟩, fun h => absurd rfl h, fun _ => ⟨hblock, trivial⟩,
        ⟨trivial, trivial⟩, ⟨trivial, trivial⟩, ⟨trivial, trivial⟩, ⟨trivial, trivial⟩, trivial⟩
    exact ⟨hm, hstarted, hquiet, by decide +kernel⟩
  · rw [List.mem_singleton.mp hmoves]
    obtain ⟨hstarted, hquiet⟩ := quiescent_of_isIdle (q := start.run scrubbing) (by decide +kernel)
    have hm : start.Along (LooseMove fun _ => 10) scrubbing :=
      ⟨fun _ => ⟨hpresent, trivial⟩, fun h => absurd rfl h, fun _ => ⟨hblock, trivial⟩,
        ⟨trivial, trivial⟩, ⟨trivial, trivial⟩, trivial⟩
    exact ⟨hm, hstarted, hquiet, by decide +kernel⟩

end Outbox.Queue
