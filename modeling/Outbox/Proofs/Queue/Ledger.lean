import Outbox.Proofs.Queue.Grants

/-!
# The memory ledger of a queue

All block memory that the pool ever granted to the producers of a queue can be found somewhere: it
was given back, it is reserved for a builder in line or for the message under way, its grant lies
unread or was stranded, or it was thrown away with the builders that a teardown found.  Nothing is
given back twice and nothing is forgotten.

* `Queue.Balanced` — what producers learnt they have is given back, in use, or thrown away;
* `Queue.Ledger` — the invariant of single moves, with `Queue.ledger_step`;
* `Queue.memory_ledger` — the equation for whole runs.
-/

namespace Outbox.Queue

variable {len : Link → Nat} {q q' : Queue} {t : Ticket} {edits : List Edit} {size : Nat}

/-! ## The balance -/

/-- What producers learnt they have was given back, lies with the builders in line, is in hand, or
was thrown away. -/
def Balanced (hand : Nat) (q : Queue) : Prop :=
  q.books.allocated = q.books.released + (hand + q.backlog.bytes) + q.books.discarded

theorem Balanced.flow {hand hand' : Nat} (h : Balanced hand q) (hf : Flow hand q hand' q') :
    Balanced hand' q' := by
  obtain ⟨hallocated, hdiscarded, hreleased⟩ := hf.books
  unfold Balanced at *
  omega

/-- Closing the backlog throws away what is in line. -/
theorem Balanced.discard {hand : Nat} (h : Balanced hand q)
    (hb : q'.books = q.books.add { discarded := q.backlog.bytes })
    (hl : q'.backlog.builders = []) : Balanced hand q' := by
  unfold Balanced Backlog.bytes at *
  rw [hb, hl]
  simp only [Books.add_allocated, Books.add_released, Books.add_discarded,
    List.map_nil, List.sum_nil]
  omega

theorem WorkFlow.balanced {hand : Nat} (hf : WorkFlow hand q q') (h : Balanced hand q) :
    Balanced q'.worker.bytes q' := by
  cases hf with
  | goesOn hf hw => exact h.flow hf
  | ends hf => exact (h.flow hf).discard (books_teardown _) rfl

/-- A producer that learns an answer has the bytes in hand, and spends them. -/
theorem Balanced.answer {hand : Nat} (h : Balanced hand q) (hacc : q.backlog.Accounted len)
    (t : Ticket) (he : Honest len size edits) (grant : Grant) :
    (q.answer t size edits grant).backlog.Accounted len ∧
      Balanced hand (q.answer t size edits grant) := by
  obtain ⟨hleft, hflow⟩ := flow_answer hand hacc t he grant
  have hheard : Balanced (hand + grant.bytes size) (q.hear t size grant) := by
    unfold Balanced at *
    rw [books_hear]
    show q.books.allocated + grant.bytes size =
      q.books.released + 0 + (hand + grant.bytes size + q.backlog.bytes) + (q.books.discarded + 0)
    omega
  exact ⟨hleft, hheard.flow hflow⟩

/-! ## Each move -/

/-- Sizes are right, producers have different names, and the books balance. -/
structure Ledger (len : Link → Nat) (q : Queue) : Prop where
  /-- The sizes of the builders in line are right. -/
  accounted : q.backlog.Accounted len
  /-- The producers that wait have different names. -/
  distinct : q.Distinct
  /-- The books balance. -/
  balanced : Balanced q.worker.bytes q

theorem Arrival.balanced (a : Arrival q t size edits q') (h : Ledger len q)
    (he : Honest len size edits) :
    q'.backlog.Accounted len ∧ Balanced q'.worker.bytes q' := by
  have hasked : Balanced q.worker.bytes (q.ask t size) := by
    have hbooks : (q.ask t size).books = q.books := (unmoved_note _ rfl).books
    unfold Balanced
    rw [hbooks]
    exact h.balanced
  rw [a.worker_eq]
  cases a with
  | free hs =>
    subst hs
    obtain ⟨hleft, hflow⟩ := flow_mutate q.worker.bytes h.accounted he
    exact ⟨hleft, h.balanced.flow hflow⟩
  | callOff hs hc =>
    exact ⟨h.accounted, h.balanced.flow (.still (unmoved_note q rfl) rfl)⟩
  | @answered grant pool hs hc ha =>
    have htaken : Balanced q.worker.bytes { q.ask t size with pool } := hasked
    exact htaken.answer h.accounted t he grant
  | wait hs hc ha => exact ⟨h.accounted, hasked⟩

theorem Return.balanced (r : Return q t edits q') (h : Ledger len q)
    (he : ∀ size, q.waitingSize? t = some size → Honest len size edits) :
    q'.backlog.Accounted len ∧ Balanced q'.worker.bytes q' := by
  rw [r.worker_eq]
  cases r with
  | unknown hw => exact ⟨h.accounted, h.balanced⟩
  | callOff hw hc =>
    have hleft : Balanced q.worker.bytes
        ({ q with pool := q.pool.abandon t }.forgetProducer t) := h.balanced
    exact ⟨h.accounted, hleft.flow (.still (unmoved_note _ rfl) rfl)⟩
  | @answered size grant pool hw hc ha =>
    have htaken : Balanced q.worker.bytes ({ q with pool }.forgetProducer t) := h.balanced
    exact htaken.answer h.accounted t (he size hw) grant
  | wait hw hc ha => exact ⟨h.accounted, h.balanced⟩

theorem ledger_step (q : Queue) (m : Move) (hm : q.HonestMove len m) (h : Ledger len q) :
    Ledger len (q.step m) := by
  suffices hq : (q.step m).backlog.Accounted len ∧ Balanced (q.step m).worker.bytes (q.step m) by
    exact ⟨hq.1, distinct_step q m h.distinct, hq.2⟩
  have t := step_outcome q m
  generalize q.step m = q' at t
  cases t with
  | refused _ => exact ⟨h.accounted, h.balanced⟩
  | @arrived t size edits hr ht => exact (reserve_arrival q t size edits).balanced h hm
  | @returned t edits => exact (resume_return q t edits).balanced h hm
  | @abandoned t =>
    unfold Queue.abandon
    split
    · exact ⟨h.accounted, h.balanced⟩
    · exact ⟨h.accounted, h.balanced⟩
  | launched hr hw =>
    have hbalanced := h.balanced
    rw [hw] at hbalanced
    exact ⟨h.accounted, hbalanced⟩
  | @scrubbed rs hr =>
    obtain ⟨hleft, hflow⟩ := flow_scrub q.worker.bytes h.accounted rs
    have hworker : (q.scrub rs).worker = q.worker := scrub_worker q rs
    rw [hworker]
    exact ⟨hleft, h.balanced.flow hflow⟩
  | @worked reply =>
    obtain ⟨hleft, hflow⟩ := (work_turn q reply).flow h.accounted
    exact ⟨hleft, hflow.balanced h.balanced⟩
  | dropped hr hw hp =>
    have hbefore : Balanced q.worker.bytes { q with reachable := false, stopRequested := true } :=
      h.balanced
    exact ⟨List.forall_mem_nil _, hbefore.discard (books_closeBacklog _) rfl⟩
  | shared ho hk => exact ⟨h.accounted, h.balanced⟩
  | withheld => exact ⟨h.accounted, h.balanced⟩
  | aside hproducer hr hs hc => exact ⟨h.accounted, h.balanced⟩

/-! ## Whole runs -/

theorem ledger_of_isNew (h : q.IsNew) : Ledger len q := by
  refine ⟨?_, ?_, ?_⟩
  · intro b hb
    rw [h.builders_eq] at hb
    cases hb
  · exact h.distinct
  · simp [Balanced, books, h.log_eq, h.worker_eq, h.builders_eq, Backlog.bytes, Books.total,
      Worker.bytes]

/-- **The memory ledger.**  After any run in which every producer adds exactly what it reserved,
the bytes that the pool granted to producers are the bytes given back together with the sizes of
the builders in line, the size of the message under way, the grants that lie unread, those that
were stranded, and the sizes of the builders that a teardown threw away. -/
theorem memory_ledger {start : Queue} {moves : List Move} (hnew : start.IsNew)
    (hm : start.Along (HonestMove len) moves) :
    start.sumAlong grantedIn moves =
      (start.run moves).books.released +
        ((start.run moves).backlog.bytes + (start.run moves).worker.bytes +
          ((start.run moves).unread + start.sumAlong strandedIn moves) +
          (start.run moves).books.discarded) := by
  have hstart : Ledger len start := ledger_of_isNew hnew
  have hrecorded := recorded_run hnew.distinct moves
  have hend : Ledger len (start.run moves) := hm.run ledger_step hstart
  have hbalanced := hend.balanced
  have hallocated : start.books.allocated = 0 := by
    simp [books, hnew.log_eq, Books.total]
  have hunread : start.unread = 0 := by
    simp [unread, hnew.producers_eq]
  unfold Recorded at hrecorded
  unfold Balanced at hbalanced
  omega

/-- Two producers ask for all the memory there is; the second one goes away when it is granted. -/
theorem memory_ledger_of_stranded :
    let start : Queue :=
      { peer := Peer.zero, settings := {},
        pool := .limited { limits := { total := 10, perPeer := 10 } } }
    let block : Edit := .addBlock (Block.fill default 10 1)
    let moves : List Move := [.reserve 0 10 [block], .reserve 1 10 [block], .startup, .work none,
      .work (some .opened), .work (some .sent), .abandon 1]
    start.sumAlong grantedIn moves = 20 ∧ (start.run moves).books.released = 10 ∧
      start.sumAlong strandedIn moves = 10 ∧
      start.sumAlong grantedIn moves =
        (start.run moves).books.released +
          ((start.run moves).backlog.bytes + (start.run moves).worker.bytes +
            ((start.run moves).unread + start.sumAlong strandedIn moves) +
            (start.run moves).books.discarded) := by
  intro start block moves
  have hblock : Honest (fun _ => 10) 10 [block] := honest_addBlock rfl rfl
  have hm : start.Along (HonestMove fun _ => 10) moves :=
    ⟨hblock, hblock, trivial, trivial, trivial, trivial, trivial, trivial⟩
  exact ⟨by decide, by decide, by decide, memory_ledger rfl hm⟩

end Outbox.Queue
