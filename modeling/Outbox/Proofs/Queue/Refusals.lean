import Outbox.Proofs.Queue.Ledger
import Outbox.Proofs.Queue.Sole

/-!
# What a queue gives back

Until the worker is gone, all that was granted to the producers of a queue is held or was given
back, once.  The teardown gives the rest back at once: also the bytes of grants that lie unread.  A
producer that reads such a grant later finds the backlog closed and gives its bytes back a second
time.  The allocator refuses them as long as the peer holds nothing.

* `Queue.refusedIn` — what is given back a second time in a move;
* `Queue.Sound` — the invariant until the worker is gone, with `Queue.Sound.step`;
* `Queue.Gone.accounts` — every move after that;
* `Queue.grants_given_back` — what was given back and what was refused, for whole runs;
* `Queue.late_producer_gives_back_twice` — what happens when another queue has taken memory for the
  same peer.
-/

namespace Outbox.Queue

open Allocator (sole)

variable {len : Link → Nat} {q q' : Queue} {stranded : Nat} {m : Move} {moves : List Move}

/-- What is given back a second time in a move: a producer reads a grant that the teardown found
unread and has given back. -/
def refusedIn (q : Queue) : Move → List (Nat × MemoryError)
  | .resume t _ =>
    if q.isStopped = true ∧ q.cancelled = false ∧ q.unreadOf t ≠ 0 then
      [(q.unreadOf t, .unknownPeer q.peer)]
    else []
  | _ => []

/-- Nothing is given back twice while the worker is there. -/
theorem refusedIn_eq_nil (h : q.worker ≠ .stopped) (m : Move) : q.refusedIn m = [] := by
  have hstopped : ¬ q.isStopped = true := fun hs => h (isStopped_iff.mp hs)
  cases m <;> simp [refusedIn, hstopped]

/-! ## Until the worker is gone -/

/-- The worker is there, nothing was refused, and what was granted is held or was taken back. -/
structure Sound (len : Link → Nat) (stranded : Nat) (q : Queue) : Prop where
  /-- The worker is there. -/
  worker : q.worker ≠ .stopped
  /-- The queue is the only user of its allocator. -/
  sole : IsSole q
  /-- The books balance. -/
  ledger : Ledger len q
  /-- Nothing was refused. -/
  refusals : q.refusals = []
  /-- What was granted is held or was taken back. -/
  conserved : q.held + q.accepted = q.unread + q.books.allocated + stranded

/-- The grants that lie unread are held, and so is what may be given back. -/
theorem Sound.fits (h : Sound len stranded q) :
    q.unread ≤ q.held ∧ q.worker.bytes + q.backlog.bytes ≤ q.held := by
  have hconserved := h.conserved
  have hbalanced := h.ledger.balanced
  have hreleased := q.released_eq
  rw [h.refusals, List.map_nil, List.sum_nil] at hreleased
  unfold Balanced at hbalanced
  omega

/-- Nobody but a producer gives back more than the worker and the builders in line have. -/
theorem released_step_le (q : Queue) (m : Move) (hacc : q.backlog.Accounted len)
    (hm : m.isOfProducer = false) :
    (q.step m).books.released ≤ q.books.released + (q.worker.bytes + q.backlog.bytes) := by
  have t := step_outcome q m
  generalize q.step m = q' at t
  cases t with
  | refused _ => cases hm
  | arrived hr ht => cases hm
  | returned => cases hm
  | abandoned => cases hm
  | @scrubbed rs hr =>
    have hbooks := (flow_scrub q.worker.bytes hacc rs).2.books
    omega
  | @worked reply =>
    have hflow := ((work_turn q reply).flow hacc).2
    generalize q.work reply = q' at hflow
    cases hflow with
    | goesOn hflow hw =>
      have hbooks := hflow.books
      omega
    | ends hflow =>
      have hbooks := hflow.books
      rw [books_teardown, Books.add_released, Nat.add_zero]
      omega
  | dropped hr hw hp =>
    rw [books_closeBacklog]
    exact Nat.le_add_right _ _
  | launched hr hw => exact Nat.le_add_right _ _
  | shared ho hk => exact Nat.le_add_right _ _
  | withheld => exact Nat.le_add_right _ _
  | aside hproducer hr hs hc => exact Nat.le_add_right _ _

/-- Every move keeps it so, until the worker is gone. -/
theorem Sound.step (h : Sound len stranded q) (hm : q.HonestMove len m)
    (ho : m.isOfOther = false) :
    Sound len (stranded + q.strandedIn m) (q.step m) ∨
      (Gone 0 (q.step m) ∧ (q.step m).refusals = []) := by
  obtain ⟨hunread, huse⟩ := h.fits
  obtain ⟨hstep, hkept⟩ := h.sole.step h.worker ho
  have hrefusals : (q.step m).refusals = [] := by
    refine (hkept hunread fun hp => ?_).trans h.refusals
    have hreleased := released_step_le q m h.ledger.accounted hp
    omega
  rcases hstep with ⟨hworker, hsole, hconserved⟩ | hgone
  · refine .inl ⟨hworker, hsole, ledger_step q m hm h.ledger, hrefusals, ?_⟩
    have hbefore := h.conserved
    unfold Conserved at hconserved
    omega
  · exact .inr ⟨hgone, hrefusals⟩

theorem sound_of_isNew {limits : MemoryLimits} (hnew : q.IsNew)
    (hpool : q.pool = .limited { limits }) : Sound len 0 q := by
  have hsole := sole_of_isNew hnew hpool
  have hheld : q.held = 0 := hsole.held_eq
  have hunread : q.unread = 0 := by rw [hsole.unread_eq, hnew.producers_eq]; rfl
  refine ⟨by rw [hnew.worker_eq]; rintro ⟨⟩, hsole.isSole, ledger_of_isNew hnew, ?_, ?_⟩
  · simp [refusals, hnew.log_eq]
  · simp [hheld, hunread, accepted, books, hnew.log_eq, Books.total]

/-! ## After that -/

namespace Gone

/-- Everyone has an answer, so nobody gets another one. -/
theorem newlyGranted_eq (h : Gone 0 q) (q' : Queue) : q.newlyGranted q' = 0 := by
  obtain ⟨limits, answers, hpool, hanswered⟩ := h.pool
  refine List.sum_eq_zero ?_
  simp only [List.mem_map, forall_exists_index, and_imp]
  rintro n p hp rfl
  obtain ⟨g, hg⟩ := Option.ne_none_iff_exists'.mp (hanswered p hp)
  refine newGrantOf_of_some (g := g) ?_
  rw [hpool]
  exact hg

/-- Bytes that are held are taken back. -/
theorem spend {held : Nat} (h : Gone held q) :
    (q.release held).accepted = q.accepted + held ∧ (q.release held).refusals = q.refusals := by
  by_cases hn : held = 0
  · subst hn
    exact ⟨rfl, rfl⟩
  · obtain ⟨limits, answers, heq, -⟩ := h.release_held hn
    rw [heq, accepted_note, refusals_note]
    exact ⟨rfl, List.append_nil _⟩

/-- Bytes that nobody holds are refused. -/
theorem refuse (h : Gone 0 q) (n : Nat) : (q.release n).accepted = q.accepted ∧
    (q.release n).refusals = q.refusals ++ if n ≠ 0 then [(n, .unknownPeer q.peer)] else [] := by
  by_cases hn : n = 0
  · subst hn
    exact ⟨rfl, (List.append_nil _).symm⟩
  · rw [h.release_nothing hn, accepted_note, refusals_note, if_pos hn]
    exact ⟨rfl, rfl⟩

/-- A producer that has bytes in hand gives them back. -/
theorem spend_answer {held : Nat} (h : Gone held q) (t : Ticket) (edits : List Edit) :
    (q.answer t held edits .granted).refusals = q.refusals ∧
      (q.answer t held edits .granted).accepted = q.accepted + held := by
  have hheard := h.note (.allocated t held none)
  obtain ⟨haccepted, hrefusals⟩ := hheard.spend
  rw [Queue.answer, mutate_of_closed hheard.closed, refusals_note, accepted_note, haccepted,
    hrefusals, refusals_note, accepted_note]
  exact ⟨(List.append_nil _).trans (List.append_nil _), rfl⟩

/-- A producer whose bytes were given back by the teardown cannot give them back again. -/
theorem refuse_answer (h : Gone 0 q) (t : Ticket) (size : Nat) (edits : List Edit) :
    (q.answer t size edits .granted).refusals =
        q.refusals ++ (if size ≠ 0 then [(size, .unknownPeer q.peer)] else []) ∧
      (q.answer t size edits .granted).accepted = q.accepted := by
  have hheard := h.note (.allocated t size none)
  obtain ⟨haccepted, hrefusals⟩ := hheard.refuse size
  rw [Queue.answer, mutate_of_closed hheard.closed, refusals_note, accepted_note, haccepted,
    hrefusals, refusals_note, accepted_note]
  exact ⟨by simp [Action.refusal?, Queue.note], rfl⟩

/-- A producer that comes gives back what it is granted. -/
theorem arrival_accounts {t : Ticket} {size : Nat} {edits : List Edit} (h : Gone 0 q)
    (a : Arrival q t size edits q') (hr : q.reachable = true) (ht : q.isTaken t = false) :
    q'.refusals = q.refusals ∧
      q'.accepted = q.accepted + q.grantedAtOnce (.reserve t size edits) := by
  cases a with
  | free hs =>
    have honce : q.grantedAtOnce (.reserve t size edits) = 0 := by simp [grantedAtOnce, hs]
    rw [mutate_of_closed h.closed, honce, refusals_note, accepted_note]
    exact ⟨List.append_nil _, rfl⟩
  | callOff hs hc =>
    have honce : q.grantedAtOnce (.reserve t size edits) = 0 := by simp [grantedAtOnce, hc]
    rw [honce, refusals_note, accepted_note]
    exact ⟨List.append_nil _, rfl⟩
  | @answered grant pool hs hc ha =>
    obtain ⟨pool', hserved, hgone⟩ := h.served ht hs
    obtain ⟨rfl, rfl⟩ : grant = .granted ∧ pool' = pool := by
      cases ha.symm.trans hserved
      exact ⟨rfl, rfl⟩
    have honce : q.grantedAtOnce (.reserve t size edits) = size := by
      have hlookup := (Pool.take?_eq_some hserved).1
      simp [grantedAtOnce, hr, ht, hs, hc, Answers.hasGranted, hlookup]
    have hbefore : { q.ask t size with pool := pool' }.accepted = q.accepted ∧
        { q.ask t size with pool := pool' }.refusals = q.refusals :=
      ⟨accepted_note _ _, (refusals_note _ _).trans (List.append_nil _)⟩
    obtain ⟨hrefusals, haccepted⟩ := hgone.spend_answer t edits
    rw [honce, hrefusals, haccepted, hbefore.1, hbefore.2]
    exact ⟨rfl, rfl⟩
  | wait hs hc ha =>
    obtain ⟨pool, hserved, -⟩ := h.served ht hs
    cases hserved.symm.trans ha

/-- A producer that comes back with an unread grant gives back what is given back already. -/
theorem return_accounts {t : Ticket} {edits : List Edit} (h : Gone 0 q)
    (r : Return q t edits q') :
    q'.refusals = q.refusals ++ q.refusedIn (.resume t edits) ∧ q'.accepted = q.accepted := by
  have hstopped : q.isStopped = true := isStopped_iff.mpr h.worker
  cases r with
  | unknown hw => simp [refusedIn, unreadOf, hw]
  | callOff hw hc =>
    rw [refusals_note, accepted_note]
    exact ⟨by simp [refusedIn, hc, Action.refusal?, refusals, forgetProducer], rfl⟩
  | @answered size grant pool hw hc ha =>
    have hlookup := (Pool.take?_eq_some ha).1
    have hunread : q.unreadOf t = grant.bytes size := by
      simp only [unreadOf, hw]
      exact grantOf_of_some hlookup
    have hread : Gone 0 ({ q with pool }.forgetProducer t) := by
      obtain ⟨limits, answers, hpool, hanswered⟩ := h.pool
      rw [hpool, take?_sole] at ha
      obtain ⟨g, -, hg⟩ := Option.map_eq_some_iff.mp ha
      cases hg
      exact h.leave hanswered t
    cases grant with
    | refused e =>
      have hnothing : q.refusedIn (.resume t edits) = [] := by
        simp [refusedIn, hunread, Grant.bytes]
      rw [hnothing, Queue.answer, refusals_note, accepted_note, refusals_note, accepted_note]
      exact ⟨by simp [Action.refusal?, refusals, forgetProducer], rfl⟩
    | granted =>
      have htwice : q.refusedIn (.resume t edits) =
          if size ≠ 0 then [(size, .unknownPeer q.peer)] else [] := by
        simp [refusedIn, hstopped, hc, hunread, Grant.bytes]
      obtain ⟨hrefusals, haccepted⟩ := hread.refuse_answer t size edits
      rw [htwice]
      exact ⟨hrefusals, haccepted⟩
  | wait hw hc ha =>
    have hnone := Pool.take?_eq_none_iff.mp ha
    simp [refusedIn, unreadOf, hw, grantOf, Answers.hasGranted, hnone]

/-- **After the teardown.**  What is granted is taken back in the same move.  What is given back a
second time is refused. -/
theorem accounts (h : Gone 0 q) (ho : m.isOfOther = false) :
    (q.step m).refusals = q.refusals ++ q.refusedIn m ∧
      (q.step m).accepted = q.accepted + q.grantedIn m := by
  have hsame : ∀ {q' : Queue}, m.isOfProducer = false → q'.log = q.log →
      q'.refusals = q.refusals ++ q.refusedIn m ∧
        q'.accepted = q.accepted + (q.newlyGranted q' + q.grantedAtOnce m) := by
    intro q' hm hlog
    rw [h.newlyGranted_eq, grantedAtOnce_eq_zero hm]
    have hnothing : q.refusedIn m = [] := by
      cases m <;> first | rfl | cases hm
    rw [hnothing]
    simp [refusals, accepted, hlog]
  have hstarted : q.worker ≠ .unstarted := by
    rw [h.worker]
    rintro ⟨⟩
  have t := step_outcome q m
  unfold grantedIn
  generalize q.step m = q' at t
  cases t with
  | @refused t size edits hno =>
    have honce : q.grantedAtOnce (.reserve t size edits) = 0 := by
      simp only [grantedAtOnce]
      exact if_neg fun hgo => hno ⟨hgo.1, hgo.2.1⟩
    rw [h.newlyGranted_eq, honce]
    exact ⟨(List.append_nil _).symm, rfl⟩
  | @arrived t size edits hr ht =>
    obtain ⟨hrefusals, haccepted⟩ := h.arrival_accounts (reserve_arrival q t size edits) hr ht
    rw [h.newlyGranted_eq, Nat.zero_add]
    exact ⟨hrefusals.trans (List.append_nil _).symm, haccepted⟩
  | @returned t edits =>
    obtain ⟨hrefusals, haccepted⟩ := h.return_accounts (resume_return q t edits)
    rw [h.newlyGranted_eq]
    exact ⟨hrefusals, haccepted⟩
  | @abandoned t =>
    rw [h.newlyGranted_eq]
    unfold Queue.abandon
    split
    · exact ⟨(List.append_nil _).symm, rfl⟩
    · exact ⟨(List.append_nil _).symm, rfl⟩
  | launched hr hw => exact absurd hw hstarted
  | @scrubbed rs hr =>
    have hfrees : q.backlog.scrubFrees rs = 0 := by
      simp [Backlog.scrubFrees, h.builders]
    rw [h.newlyGranted_eq, Queue.scrub, hfrees]
    exact ⟨by simp [Queue.release, refusals, Queue.note, Action.refusal?, refusedIn],
      by simp [Queue.release, accepted, Queue.note, Action.accepted, grantedAtOnce]⟩
  | @worked reply =>
    have hwork : q.work reply = q := by simp only [work, h.worker]
    rw [hwork]
    exact hsame rfl rfl
  | dropped hr hw hp => exact absurd hw hstarted
  | shared ho' hk =>
    rw [ho] at ho'
    cases ho'
  | withheld => exact hsame rfl rfl
  | aside hm hr hs hc => exact hsame hm rfl

/-- The same for whole runs. -/
theorem run (h : Gone 0 q) (ho : ∀ m ∈ moves, m.isOfOther = false) :
    Gone 0 (q.run moves) ∧
      (q.run moves).refusals = q.refusals ++ q.collectAlong refusedIn moves ∧
      (q.run moves).accepted = q.accepted + q.sumAlong grantedIn moves := by
  induction moves generalizing q with
  | nil => exact ⟨h, (List.append_nil _).symm, rfl⟩
  | cons m rest ih =>
    obtain ⟨hm, hrest⟩ := List.forall_mem_cons.mp ho
    obtain ⟨hrefusals, haccepted⟩ := h.accounts hm
    obtain ⟨hgone, hrefusals', haccepted'⟩ := ih (gone_step q m hm h) hrest
    rw [run_cons, collectAlong_cons, sumAlong_cons]
    refine ⟨hgone, ?_, ?_⟩
    · rw [hrefusals', hrefusals, List.append_assoc]
    · rw [haccepted', haccepted, Nat.add_assoc]

end Gone

/-! ## Whole runs -/

/-- A run of a queue with an allocator of its own. -/
theorem Sound.run (h : Sound len stranded q) (hm : q.Along (HonestMove len) moves)
    (ho : ∀ m ∈ moves, m.isOfOther = false) :
    (q.run moves).refusals = q.collectAlong refusedIn moves ∧
      (Sound len (stranded + q.sumAlong strandedIn moves) (q.run moves) ∨
        Gone 0 (q.run moves)) := by
  induction moves generalizing q stranded with
  | nil => exact ⟨h.refusals, .inl h⟩
  | cons m rest ih =>
    obtain ⟨hfirst, hrest⟩ := List.forall_mem_cons.mp ho
    rw [run_cons, collectAlong_cons, sumAlong_cons, refusedIn_eq_nil h.worker, List.nil_append,
      ← Nat.add_assoc]
    rcases h.step hm.1 hfirst with hsound | ⟨hgone, hrefusals⟩
    · exact ih hsound hm.2 hrest
    · obtain ⟨hgone', hrefusals', -⟩ := hgone.run hrest
      rw [hrefusals, List.nil_append] at hrefusals'
      exact ⟨hrefusals', .inr hgone'⟩

/-- **What is given back.**  A queue is the only user of its allocator, and its producers add
exactly what they reserve.  Until its worker is gone, what was granted is held or was taken back.
Then nothing is held, and what is granted later is taken back in full.  A release is refused only
when a producer reads a grant that lay unread at the teardown: its bytes are given back twice. -/
theorem grants_given_back {start : Queue} {limits : MemoryLimits} (hnew : start.IsNew)
    (hpool : start.pool = .limited { limits }) (hm : start.Along (HonestMove len) moves)
    (ho : ∀ m ∈ moves, m.isOfOther = false) :
    (start.run moves).refusals = start.collectAlong refusedIn moves ∧
      ((start.run moves).isStopped = false →
        start.sumAlong grantedIn moves = (start.run moves).accepted + (start.run moves).held) ∧
      ((start.run moves).isStopped = true → (start.run moves).held = 0 ∧
        ∀ late : List Move, (∀ m ∈ late, m.isOfOther = false) →
          ((start.run moves).run late).accepted =
            (start.run moves).accepted + (start.run moves).sumAlong grantedIn late) := by
  have hstart : Sound len 0 start := sound_of_isNew hnew hpool
  have hrecorded := recorded_run hnew.distinct moves
  have hallocated : start.books.allocated = 0 := by simp [books, hnew.log_eq, Books.total]
  have hunread : start.unread = 0 := by simp [unread, hnew.producers_eq]
  obtain ⟨hrefusals, hend⟩ := hstart.run hm ho
  refine ⟨hrefusals, fun hthere => ?_, fun hstopped => ?_⟩
  · rcases hend with hsound | hgone
    · have hconserved := hsound.conserved
      unfold Recorded at hrecorded
      omega
    · rw [isStopped_iff.mpr hgone.worker] at hthere
      cases hthere
  · rcases hend with hsound | hgone
    · exact absurd (isStopped_iff.mp hstopped) hsound.worker
    · refine ⟨?_, fun late hlate => (hgone.run hlate).2.2⟩
      obtain ⟨limits, answers, hpool, -⟩ := hgone.pool
      unfold held
      rw [hpool]
      exact congrArg Account.held Allocator.account_sole

/-- Two producers ask for all the memory there is.  The drain gives the bytes of the first one back,
so the second one is granted its own; the teardown follows before it has a turn. -/
theorem grants_given_back_of_late :
    let start : Queue :=
      { peer := Peer.zero, settings := {},
        pool := .limited { limits := { total := 10, perPeer := 10 } } }
    let block : Edit := .addBlock (Block.fill default 10 1)
    let moves : List Move := [.reserve 0 10 [block], .reserve 1 10 [block], .shutdown, .startup,
      .work none, .resume 1 [block]]
    (start.run moves).isStopped = true ∧
      (start.run moves).refusals = [(10, .unknownPeer Peer.zero)] ∧
      (start.run moves).refusals = start.collectAlong refusedIn moves ∧
      ((start.run moves).isStopped = false →
        start.sumAlong grantedIn moves = (start.run moves).accepted + (start.run moves).held) ∧
      ((start.run moves).isStopped = true → (start.run moves).held = 0 ∧
        ∀ late : List Move, (∀ m ∈ late, m.isOfOther = false) →
          ((start.run moves).run late).accepted =
            (start.run moves).accepted + (start.run moves).sumAlong grantedIn late) := by
  intro start block moves
  have hblock : Honest (fun _ => 10) 10 [block] := honest_addBlock rfl rfl
  have hlate : ∀ q : Queue, q.waitingSize? 1 = some 10 →
      q.HonestMove (fun _ => 10) (.resume 1 [block]) := by
    intro q hw size hsize
    obtain rfl : 10 = size := Option.some.inj (hw.symm.trans hsize)
    exact hblock
  have hm : start.Along (HonestMove fun _ => 10) moves :=
    ⟨hblock, hblock, trivial, trivial, trivial, hlate _ (by decide +kernel), trivial⟩
  exact ⟨by decide +kernel, by decide +kernel,
    grants_given_back rfl rfl hm (by simp [moves, Move.isOfOther])⟩

/-- A grant can be given back twice.  The second producer of a queue has been granted its bytes and
has not had a turn when the teardown gives them back.  When it has its turn it gives them back once
more, which the allocator refuses as unknown; if another queue has taken memory for the same peer by
then, it is the bytes of that queue that are given back, and none are held for it any more. -/
theorem late_producer_gives_back_twice :
    let start : Queue :=
      { peer := Peer.zero, settings := {},
        pool := .limited { limits := { total := 10, perPeer := 10 } } }
    let block : Edit := .addBlock (Block.fill default 10 1)
    let q := start.run [.reserve 0 10 [block], .reserve 1 10 [block], .shutdown, .startup,
      .work none]
    let q' := q.step (.borrow 9 Peer.zero 10)
    start.IsNew ∧ q.isStopped = true ∧ q.unreadOf 1 = 10 ∧ q.held = 0 ∧
      (q.step (.resume 1 [block])).refusals = [(10, .unknownPeer Peer.zero)] ∧
      q'.held = 10 ∧ (q'.step (.resume 1 [block])).held = 0 ∧
      (q'.step (.resume 1 [block])).refusals = [] := by
  refine ⟨rfl, ?_⟩
  decide +kernel

end Outbox.Queue
