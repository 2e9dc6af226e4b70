import Outbox.Proofs.Queue.Ending
import Outbox.Proofs.Queue.Repayment

/-!
# A queue with an allocator of its own

As long as a queue is the only user of its allocator, what was granted to its producers is still
held or was taken back, until the teardown of the queue leaves nothing held.  This does not depend
on what the producers do with the memory.  An amount that is given back is refused only if less than
that is held.

* `Queue.held`, `Queue.accepted`, `Queue.refusals` — what is held, what the pool took back, and what
  it refused to take;
* `Queue.Conserved` — what was granted in between is held or was taken back;
* `Queue.Repays.sole`, `Queue.Arrival.sole`, `Queue.Return.sole` — turns of the worker and of
  producers;
* `Queue.IsSole.step` — every move, until the worker is gone.
-/

namespace Outbox

/-- The bytes that the pool took back in an action. -/
def Action.accepted : Action → Nat
  | release n none => n
  | _ => 0

/-- What the pool refused to take back, and why. -/
def Action.refusal? : Action → Option (Nat × MemoryError)
  | release n (some e) => some (n, e)
  | _ => none

namespace Queue

open Allocator (sole grants Served)

variable {q q' : Queue} {t : Ticket} {edits : List Edit} {size : Nat}

/-! ## Amounts -/

/-- The bytes that an allocator holds for the peer of the queue. -/
def held (q : Queue) : Nat :=
  match q.pool with
  | .limited a => a.held q.peer
  | .unlimited _ => 0

/-- The bytes that the pool took back so far. -/
def accepted (q : Queue) : Nat := (q.log.map Action.accepted).sum

/-- What the pool refused to take back so far. -/
def refusals (q : Queue) : List (Nat × MemoryError) := q.log.filterMap Action.refusal?

@[simp] theorem accepted_note (q : Queue) (a : Action) :
    (q.note a).accepted = q.accepted + a.accepted := by
  simp [accepted, note]

@[simp] theorem refusals_note (q : Queue) (a : Action) :
    (q.note a).refusals = q.refusals ++ a.refusal?.toList := by
  cases h : a.refusal? <;> simp [refusals, note, h]

/-- What is given back is taken or refused. -/
theorem released_eq (q : Queue) :
    q.books.released = q.accepted + (q.refusals.map Prod.fst).sum := by
  unfold books accepted refusals
  induction q.log with
  | nil => rfl
  | cons a rest ih =>
    have ha : a.books.released = a.accepted + (a.refusal?.toList.map Prod.fst).sum := by
      cases a with
      | release n failure => cases failure <;> simp [Action.books, Action.accepted, Action.refusal?]
      | allocated p n failure => cases failure <;> rfl
      | _ => rfl
    rw [List.map_cons, Books.total, Books.add_released, ih, ha, List.map_cons, List.sum_cons]
    cases h : a.refusal?
    · simp [h, Nat.add_assoc]
    · simp [h]
      omega

theorem zero_of_silent {a : Action} (h : a.isOfGrant = false) : a.accepted = 0 ∧
    a.refusal? = none ∧ a.books.allocated = 0 ∧ a.books.released = 0 := by
  cases a with
  | release n failure => cases h
  | allocated p n failure =>
    cases failure with
    | none => cases h
    | some e => exact ⟨rfl, rfl, rfl, rfl⟩
  | _ => exact ⟨rfl, rfl, rfl, rfl⟩

/-- Entries about other things change none of this. -/
theorem amounts_of_silent {entries : List Action} (hlog : q'.log = q.log ++ entries)
    (he : ∀ a ∈ entries, a.isOfGrant = false) :
    q'.accepted = q.accepted ∧ q'.refusals = q.refusals ∧
      q'.books.allocated = q.books.allocated ∧ q'.books.released = q.books.released := by
  have hrefusals : entries.filterMap Action.refusal? = [] :=
    List.filterMap_eq_nil_iff.mpr fun a ha => (zero_of_silent (he a ha)).2.1
  have hzero : ∀ f : Action → Nat, (∀ a ∈ entries, f a = 0) → (entries.map f).sum = 0 :=
    fun f hf => List.sum_eq_zero (by simpa using hf)
  have haccepted := hzero Action.accepted fun a ha => (zero_of_silent (he a ha)).1
  have hallocated := hzero (·.books.allocated) fun a ha => (zero_of_silent (he a ha)).2.2.1
  have hreleased := hzero (·.books.released) fun a ha => (zero_of_silent (he a ha)).2.2.2
  simp only [accepted, refusals, books, hlog, List.map_append, List.sum_append,
    List.filterMap_append, Books.total_append, Books.add_allocated, Books.add_released, hrefusals,
    haccepted, Books.total_allocated, Books.total_released, List.map_map, Function.comp_def,
    hallocated, hreleased, List.append_nil, Nat.add_zero, and_self]

namespace Repays

theorem allocated_eq (h : Repays q q') : q'.books.allocated = q.books.allocated := by
  induction h with
  | aside hpool hpeer hproducers hlog he => exact (amounts_of_silent hlog he).2.2.1
  | release q n => rw [books_release, Books.add_allocated, Nat.add_zero]
  | trans h h' ih ih' => exact ih'.trans ih

theorem released_le (h : Repays q q') : q.books.released ≤ q'.books.released := by
  induction h with
  | aside hpool hpeer hproducers hlog he => exact (amounts_of_silent hlog he).2.2.2.ge
  | release q n => rw [books_release, Books.add_released]; exact Nat.le_add_right _ _
  | trans h h' ih ih' => exact ih.trans ih'

end Repays

/-- A producer gives back no more than it holds. -/
theorem mutate_released_le (q : Queue) (p size : Nat) (edits : List Edit) :
    (q.mutate p size edits).books.released ≤ q.books.released + size := by
  have he := mutate_editing q p size edits
  generalize q.mutate p size edits = q' at he
  cases he with
  | refused hr =>
    rw [books_note, books_release]
    exact le_rfl
  | @done report backlog hc hm =>
    have hbooks : ({ { q with backlog }.note (.mutated p edits report) with
        token := q.token || !report.isEmpty } : Queue).books = q.books :=
      (unmoved_note { q with backlog } rfl).books
    rw [hbooks]
    exact Nat.le_add_right _ _

/-! ## What is conserved -/

/-- But for the stranded bytes, what was granted from one state to the other is held or was taken
back. -/
def Conserved (q q' : Queue) (stranded : Nat) : Prop :=
  q'.held + q'.accepted + (q.unread + q.books.allocated) =
    q.held + q.accepted + (q'.unread + q'.books.allocated + stranded)

theorem Conserved.trans {q'' : Queue} {stranded : Nat} (h : Conserved q q' stranded)
    (h' : Conserved q' q'' 0) : Conserved q q'' stranded := by
  unfold Conserved at *
  omega

namespace Sole

variable {limits : MemoryLimits} {c : Account} {answers : List (Ticket × Grant)}

theorem held_eq (h : Sole limits c answers q) : q.held = c.held := by
  unfold held
  rw [h.pool]
  exact congrArg Account.held Allocator.account_sole

theorem unread_eq (h : Sole limits c answers q) :
    q.unread = (q.producers.map (grantOf answers)).sum := by
  unfold unread
  rw [h.pool]
  rfl

theorem isSole (h : Sole limits c answers q) : IsSole q := ⟨limits, c, answers, h⟩

/-- One amount is given back: it is taken, unless less than that is held. -/
theorem repay (h : Sole limits c answers q) (n : Nat) :
    IsSole (q.release n) ∧ Conserved q (q.release n) 0 ∧
      (n ≤ c.held → (q.release n).refusals = q.refusals) := by
  by_cases hn : n = 0
  · have heq : q.release n = q := by rw [hn]; rfl
    rw [heq]
    exact ⟨h.isSole, rfl, fun _ => rfl⟩
  have hallocated : (q.release n).books.allocated = q.books.allocated :=
    (Repays.release q n).allocated_eq
  have hheld := h.held_eq
  have hunread := h.unread_eq
  unfold Conserved
  rw [hallocated]
  rcases h.release hn with ⟨hle, c', granted, hserved, heq⟩ | ⟨hlt, e, heq⟩
  · obtain ⟨hsole, hsum⟩ := h.served hserved
    have hsole' : Sole limits c' (answers ++ grants granted) (q.release n) := by
      rw [heq]
      exact hsole.of_eq rfl rfl rfl
    have hheld' := hsole'.held_eq
    have hunread' := hsole'.unread_eq
    rw [release_producers] at hunread'
    have haccepted : (q.release n).accepted = q.accepted + n := by
      rw [heq, accepted_note]
      rfl
    have hbytes := hserved.held
    refine ⟨hsole'.isSole, ?_, fun _ => ?_⟩
    · simp only at hbytes
      omega
    · rw [heq, refusals_note]
      simp [refusals, Action.refusal?]
  · rw [heq]
    have hsole : Sole limits c answers (q.note (.release n (some e))) := h.of_eq rfl rfl rfl
    refine ⟨hsole.isSole, ?_, fun hle => by omega⟩
    rw [accepted_note]
    rfl

end Sole

/-- **Repayments.**  The queue stays the only user, what is granted meanwhile is held or was taken
back, and nothing is refused as long as no more is given back than was held. -/
theorem Repays.sole (hr : Repays q q') (h : IsSole q) : IsSole q' ∧ Conserved q q' 0 ∧
    (q'.books.released ≤ q.books.released + q.held → q'.refusals = q.refusals) := by
  induction hr with
  | @aside q q' entries hpool hpeer hproducers hlog he =>
    obtain ⟨limits, c, answers, h⟩ := h
    obtain ⟨haccepted, hrefusals, hallocated, -⟩ := amounts_of_silent hlog he
    have hheld : q'.held = q.held := by
      unfold held
      rw [hpool, hpeer]
    have hunread : q'.unread = q.unread := by
      unfold unread
      rw [hpool, hproducers]
    refine ⟨(h.of_eq hpool hpeer hproducers).isSole, ?_, fun _ => hrefusals⟩
    unfold Conserved
    omega
  | release q n =>
    obtain ⟨limits, c, answers, h⟩ := h
    obtain ⟨hsole, hconserved, hrefusals⟩ := h.repay n
    refine ⟨hsole, hconserved, fun hle => hrefusals ?_⟩
    rw [books_release, Books.add_released] at hle
    rw [← h.held_eq]
    exact Nat.le_of_add_le_add_left hle
  | @trans q q' q'' hr hr' ih ih' =>
    obtain ⟨hsole, hconserved, hrefusals⟩ := ih h
    obtain ⟨hsole', hconserved', hrefusals'⟩ := ih' hsole
    refine ⟨hsole', hconserved.trans hconserved', fun hle => ?_⟩
    have hfirst := hrefusals (hr'.released_le.trans hle)
    -- what was not given back at first is still held
    have hunread := hr.unread_le
    have hallocated := hr.allocated_eq
    have hreleased := q.released_eq
    have hreleased' := q'.released_eq
    rw [hfirst] at hreleased'
    unfold Conserved at hconserved
    exact (hrefusals' (by omega)).trans hfirst

/-! ## Turns of producers -/

/-- What a producer does with its answer. -/
theorem IsSole.answer (h : IsSole q) (t : Ticket) (size : Nat) (edits : List Edit) (grant : Grant) :
    IsSole (q.answer t size edits grant) ∧
      (q.answer t size edits grant).held + (q.answer t size edits grant).accepted +
          (q.unread + q.books.allocated + grant.bytes size) =
        q.held + q.accepted + ((q.answer t size edits grant).unread +
          (q.answer t size edits grant).books.allocated) ∧
      (grant.bytes size ≤ q.held → (q.answer t size edits grant).refusals = q.refusals) := by
  have hheard : IsSole (q.hear t size grant) := by
    obtain ⟨limits, c, answers, h⟩ := h
    exact ⟨limits, c, answers, h.of_eq rfl rfl rfl⟩
  have hallocated : (q.hear t size grant).books.allocated =
      q.books.allocated + grant.bytes size := by
    rw [books_hear]
    rfl
  have hreleased : (q.hear t size grant).books.released = q.books.released := by
    rw [books_hear]
    rfl
  have haccepted : (q.hear t size grant).accepted = q.accepted := accepted_note _ _
  have hrefusals : (q.hear t size grant).refusals = q.refusals := by
    rw [hear, refusals_note]
    exact List.append_nil _
  have hspent : (q.answer t size edits grant).books.released ≤
      (q.hear t size grant).books.released + grant.bytes size := by
    cases grant with
    | granted => exact mutate_released_le (q.hear t size .granted) t size edits
    | refused e =>
      have hbooks := (unmoved_note (q.hear t size (.refused e)) (a := .skipped t) rfl).books
      exact (congrArg Books.released hbooks).le
  obtain ⟨hsole, hconserved, hkept⟩ := (answer_repays q t size edits grant).sole hheard
  have hheld : (q.hear t size grant).held = q.held := rfl
  have hunread : (q.hear t size grant).unread = q.unread := rfl
  refine ⟨hsole, ?_, fun hle => (hkept (by omega)).trans hrefusals⟩
  unfold Conserved at hconserved
  omega

/-- A producer that comes finds the bytes of its own reservation, or waits in line. -/
theorem Arrival.sole (a : Arrival q t size edits q') (h : IsSole q) (ht : q.isTaken t = false) :
    IsSole q' ∧ Conserved q q' 0 ∧ q'.refusals = q.refusals := by
  obtain ⟨hwaiting, hopen⟩ := not_taken ht
  have hothers := ne_of_waitingSize?_eq_none hwaiting
  have hq := h
  obtain ⟨limits, c, answers, h⟩ := h
  have hheld := h.held_eq
  have hunread := h.unread_eq
  rw [h.pool] at hopen
  have hnone : answers.lookup t = none := (Allocator.sole_isOpen hopen).2
  have hpool : (q.ask t size).pool =
      .limited ((Allocator.sole limits q.peer c answers).request t q.peer size) := by
    show q.pool.request t q.peer size = _
    rw [h.pool]
    rfl
  obtain ⟨haccepted, hrefusals, hallocated, -⟩ : (q.ask t size).accepted = q.accepted ∧
      (q.ask t size).refusals = q.refusals ∧
      (q.ask t size).books.allocated = q.books.allocated ∧ _ :=
    @amounts_of_silent q (q.ask t size) [.allocate t size] rfl (List.forall_mem_singleton.mpr rfl)
  cases a with
  | free hs =>
    subst hs
    obtain ⟨hsole, hconserved, hkept⟩ := (mutate_repays q t 0 edits).sole hq
    have hspent := mutate_released_le q t 0 edits
    exact ⟨hsole, hconserved, hkept (by omega)⟩
  | callOff hs hc =>
    obtain ⟨hsole, hconserved, hkept⟩ := (Repays.note q (a := .skipped t) rfl).sole hq
    have hbooks := (unmoved_note q (a := .skipped t) rfl).books
    exact ⟨hsole, hconserved, hkept (by rw [hbooks]; omega)⟩
  | @answered grant pool hs hc ha =>
    rcases Allocator.sole_request h.idle t hs with ⟨hline, hr⟩ | ⟨hnot, hr⟩
    · have hanswers : (answers ++ [(t, Grant.granted)]).filter (fun e => e.1 ≠ t) =
          answers.filter (fun e => e.1 ≠ t) := by
        simp
      rw [hpool, hr, take?_sole, Answers.lookup_concat_self hnone, hanswers] at ha
      cases ha
      let served : Queue := { q.ask t size with
        pool := .limited (Allocator.sole limits q.peer { c with held := c.held + size }
          (answers.filter (fun e => e.1 ≠ t))) }
      have hserved : Sole limits { c with held := c.held + size }
          (answers.filter (fun e => e.1 ≠ t)) served :=
        ⟨rfl, h.line.without hothers, fun _ => hline⟩
      have hheld' : served.held = c.held + size := hserved.held_eq
      have hunread' : served.unread = q.unread := by
        rw [hserved.unread_eq, hunread]
        exact sum_grantOf_without answers hothers
      have hallocated' : served.books.allocated = q.books.allocated := hallocated
      have haccepted' : served.accepted = q.accepted := haccepted
      obtain ⟨hsole, hconserved, hkept⟩ := hserved.isSole.answer t size edits .granted
      have hbytes : Grant.granted.bytes size = size := rfl
      refine ⟨hsole, ?_, (hkept ?_).trans hrefusals⟩
      · show Conserved q (served.answer t size edits .granted) 0
        unfold Conserved
        omega
      · rw [hheld']
        exact Nat.le_add_left _ _
    · rw [hpool, hr, take?_sole, hnone] at ha
      cases ha
  | wait hs hc ha =>
    rcases Allocator.sole_request h.idle t hs with ⟨hline, hr⟩ | ⟨hnot, hr⟩
    · rw [hpool, hr, take?_sole, Answers.lookup_concat_self hnone] at ha
      cases ha
    · let waiting : Queue := { q.ask t size with producers := q.producers ++ [⟨t, size⟩] }
      have hwanted : Account.wanted { c with line := c.line ++ [⟨t, size, true⟩] } =
          c.wanted ++ [⟨t, size, true⟩] := by
        simp [Account.wanted]
      have hjoined :
          Sole limits { c with line := c.line ++ [⟨t, size, true⟩] } answers waiting := by
        refine ⟨hpool.trans (congrArg Pool.limited hr), ?_, fun hzero => absurd hzero hnot⟩
        rw [hwanted]
        exact h.line.join hothers hnone size
      have hnew : grantOf answers ⟨t, size⟩ = 0 := grantOf_of_none hnone
      have hheld' : waiting.held = c.held := hjoined.held_eq
      have hunread' : waiting.unread = q.unread := by
        rw [hjoined.unread_eq, hunread, List.map_append, List.sum_append, List.map_singleton,
          List.sum_singleton, hnew, Nat.add_zero]
      have hallocated' : waiting.books.allocated = q.books.allocated := hallocated
      have haccepted' : waiting.accepted = q.accepted := haccepted
      refine ⟨hjoined.isSole, ?_, hrefusals⟩
      show Conserved q waiting 0
      unfold Conserved
      omega

/-- A producer that goes away leaves its grant, if it has one. -/
theorem IsSole.abandon (h : IsSole q) (t : Ticket) :
    IsSole (q.abandon t) ∧ Conserved q (q.abandon t) (q.unreadOf t) ∧
      (q.abandon t).refusals = q.refusals := by
  unfold Queue.abandon unreadOf
  cases hw : q.waitingSize? t with
  | none => exact ⟨h, rfl, rfl⟩
  | some size =>
    obtain ⟨limits, c, answers, h⟩ := h
    have hleft := h.leave t
    have hheld := h.held_eq
    have hheld' := hleft.held_eq
    have hunread := h.unread_eq
    have hunread' := hleft.unread_eq
    have hsum := h.line.sum_leave (mem_of_waitingSize?_eq_some hw)
    have hanswers : q.pool.answers = answers := by
      rw [h.pool]
      rfl
    have hamounts : ({ q with pool := q.pool.abandon t }.forgetProducer t).accepted = q.accepted ∧
        ({ q with pool := q.pool.abandon t }.forgetProducer t).books = q.books := ⟨rfl, rfl⟩
    have hproducers : ({ q with pool := q.pool.abandon t }.forgetProducer t).producers =
        q.producers.filter (fun p => p.ticket ≠ t) := rfl
    rw [hproducers] at hunread'
    refine ⟨hleft.isSole, ?_, rfl⟩
    unfold Conserved
    simp only [hamounts, hanswers] at *
    omega

/-- A producer that comes back reads its answer, or leaves it. -/
theorem Return.sole (r : Return q t edits q') (h : IsSole q) :
    IsSole q' ∧ Conserved q q' (q.strandedIn (.resume t edits)) ∧
      (q.unread ≤ q.held → q'.refusals = q.refusals) := by
  cases r with
  | unknown hw =>
    have hstranded : q.strandedIn (.resume t edits) = 0 := by simp [strandedIn, unreadOf, hw]
    rw [hstranded]
    exact ⟨h, rfl, fun _ => rfl⟩
  | @callOff size hw hc =>
    obtain ⟨hsole, hconserved, hrefusals⟩ := h.abandon t
    have hstranded : q.strandedIn (.resume t edits) = q.unreadOf t := by simp [strandedIn, hc]
    rw [hstranded]
    rw [Queue.abandon, hw] at hsole hconserved hrefusals
    obtain ⟨hsole', hconserved', hrefusals'⟩ := (Repays.note _ (a := .skipped t) rfl).sole hsole
    have hbooks := (unmoved_note ({ q with pool := q.pool.abandon t }.forgetProducer t)
      (a := .skipped t) rfl).books
    refine ⟨hsole', hconserved.trans hconserved', fun _ => (hrefusals' ?_).trans hrefusals⟩
    rw [hbooks]
    exact Nat.le_add_right _ _
  | @answered size grant pool hw hc ha =>
    have hstranded : q.strandedIn (.resume t edits) = 0 := by simp [strandedIn, hc]
    rw [hstranded]
    obtain ⟨limits, c, answers, h⟩ := h
    rw [h.pool, take?_sole] at ha
    cases hlookup : answers.lookup t with
    | none =>
      rw [hlookup] at ha
      cases ha
    | some g =>
      rw [hlookup] at ha
      cases ha
      let read : Queue := { q with
        pool := .limited (Allocator.sole limits q.peer c (answers.filter (fun e => e.1 ≠ t))) }
        |>.forgetProducer t
      have hread : Sole limits c (answers.filter (fun e => e.1 ≠ t)) read :=
        ⟨rfl, h.line.leave_answered hlookup, h.idle⟩
      have hheld := h.held_eq
      have hheld' := hread.held_eq
      have hunread := h.unread_eq
      have hunread' : read.unread = ((q.producers.filter (fun p => p.ticket ≠ t)).map
          (grantOf (answers.filter (fun e => e.1 ≠ t)))).sum := hread.unread_eq
      have hsum := h.line.sum_leave (mem_of_waitingSize?_eq_some hw)
      have hgrant : grantOf answers ⟨t, size⟩ = grant.bytes size := grantOf_of_some hlookup
      have hamounts : read.accepted = q.accepted ∧ read.books = q.books ∧
          read.refusals = q.refusals := ⟨rfl, rfl, rfl⟩
      obtain ⟨hsole, hconserved, hkept⟩ := hread.isSole.answer t size edits grant
      simp only [hamounts] at hconserved hkept
      refine ⟨hsole, ?_, fun hle => hkept (by omega)⟩
      show Conserved q (read.answer t size edits grant) 0
      unfold Conserved
      omega
  | @wait size hw hc ha =>
    have hstranded : q.strandedIn (.resume t edits) = 0 := by simp [strandedIn, hc]
    rw [hstranded]
    exact ⟨h, rfl, fun _ => rfl⟩

/-! ## Every move -/

/-- Nothing that matters here changes. -/
theorem IsSole.aside (h : IsSole q) (hpool : q'.pool = q.pool) (hpeer : q'.peer = q.peer)
    (hproducers : q'.producers = q.producers) (hlog : q'.log = q.log) :
    IsSole q' ∧ Conserved q q' 0 ∧ q'.refusals = q.refusals := by
  obtain ⟨hsole, hconserved, hrefusals⟩ := (Repays.still hpool hpeer hproducers hlog).sole h
  refine ⟨hsole, hconserved, hrefusals ?_⟩
  unfold books
  rw [hlog]
  exact Nat.le_add_right _ _

/-- **Every move.**  Until the worker is gone, what was granted is held or was taken back; then
nothing is held.  Nothing is refused as long as the unread grants are held and the worker gives back
no more than is held. -/
theorem IsSole.step {m : Move} (h : IsSole q) (hw : q.worker ≠ .stopped)
    (ho : m.isOfOther = false) :
    (((q.step m).worker ≠ .stopped ∧ IsSole (q.step m) ∧ Conserved q (q.step m) (q.strandedIn m)) ∨
      Gone 0 (q.step m)) ∧
    (q.unread ≤ q.held → (m.isOfProducer = false →
      (q.step m).books.released ≤ q.books.released + q.held) →
      (q.step m).refusals = q.refusals) := by
  have hsame : ∀ {q' : Queue}, m.isOfProducer = false → q'.worker ≠ .stopped →
      IsSole q' ∧ Conserved q q' 0 ∧ q'.refusals = q.refusals →
      ((q'.worker ≠ .stopped ∧ IsSole q' ∧ Conserved q q' (q.strandedIn m)) ∨ Gone 0 q') ∧
      (q.unread ≤ q.held → (m.isOfProducer = false →
        q'.books.released ≤ q.books.released + q.held) → q'.refusals = q.refusals) := by
    intro q' hm hw' hq'
    rw [strandedIn_eq_zero hm]
    exact ⟨.inl ⟨hw', hq'.1, hq'.2.1⟩, fun _ _ => hq'.2.2⟩
  have t := step_outcome q m
  generalize q.step m = q' at t
  cases t with
  | @refused t size edits hno => exact ⟨.inl ⟨hw, h, rfl⟩, fun _ _ => rfl⟩
  | @arrived t size edits hr ht =>
    have ha := reserve_arrival q t size edits
    obtain ⟨hsole, hconserved, hrefusals⟩ := ha.sole h ht
    exact ⟨.inl ⟨by rw [ha.worker_eq]; exact hw, hsole, hconserved⟩, fun _ _ => hrefusals⟩
  | @returned t edits =>
    have hr := resume_return q t edits
    obtain ⟨hsole, hconserved, hrefusals⟩ := hr.sole h
    exact ⟨.inl ⟨by rw [hr.worker_eq]; exact hw, hsole, hconserved⟩, fun hle _ => hrefusals hle⟩
  | @abandoned t =>
    obtain ⟨hsole, hconserved, hrefusals⟩ := h.abandon t
    have hworker : (q.abandon t).worker = q.worker := by
      unfold Queue.abandon
      split <;> rfl
    exact ⟨.inl ⟨by rw [hworker]; exact hw, hsole, hconserved⟩, fun _ _ => hrefusals⟩
  | launched hr hunstarted => exact hsame rfl (by rintro ⟨⟩) (h.aside rfl rfl rfl rfl)
  | @scrubbed rs hr =>
    obtain ⟨hsole, hconserved, hrefusals⟩ := (repays_scrub q rs).sole h
    exact ⟨.inl ⟨by rw [scrub_worker]; exact hw, hsole, hconserved⟩,
      fun _ hle => hrefusals (hle rfl)⟩
  | @worked reply =>
    have hturn := (work_turn q reply).repayment
    generalize q.work reply = q' at hturn
    cases hturn with
    | goesOn hrepays hw' =>
      obtain ⟨hsole, hconserved, hrefusals⟩ := hrepays.sole h
      exact ⟨.inl ⟨fun hs => hw (hw' hs), hsole, hconserved⟩, fun _ hle => hrefusals (hle rfl)⟩
    | @ends q'' hrepays =>
      obtain ⟨hsole, -, hrefusals⟩ := hrepays.sole h
      refine ⟨.inr (gone_teardown hsole), fun _ hle => ?_⟩
      have hreleased : q''.teardown.books.released = q''.books.released := by
        rw [books_teardown]
        rfl
      have hlate : q''.teardown.refusals = q''.refusals := by
        simp [teardown, closeBacklog, note, refusals, Action.refusal?, List.filterMap_map,
          Function.comp_def]
      rw [hlate]
      exact hrefusals (hreleased ▸ hle rfl)
  | dropped hr hunstarted hp =>
    obtain ⟨hsole, hconserved, hrefusals⟩ :
        IsSole { q with reachable := false, stopRequested := true } ∧ Conserved q _ 0 ∧ _ = _ :=
      h.aside rfl rfl rfl rfl
    obtain ⟨hsole', hconserved', hrefusals'⟩ := (repays_closeBacklog _).sole hsole
    refine hsame rfl hw ⟨hsole', hconserved.trans hconserved', (hrefusals' ?_).trans hrefusals⟩
    rw [books_closeBacklog]
    exact Nat.le_add_right _ _
  | shared ho' hk =>
    rw [ho] at ho'
    cases ho'
  | @withheld value =>
    obtain ⟨limits, c, answers, h⟩ := h
    rw [withhold_of_limited h.pool value]
    exact ⟨.inl ⟨hw, h.isSole, rfl⟩, fun _ _ => rfl⟩
  | aside hm hr hs hc => exact hsame hm hw (h.aside rfl rfl rfl rfl)

end Queue

end Outbox
