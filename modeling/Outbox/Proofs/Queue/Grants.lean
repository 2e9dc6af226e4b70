import Outbox.Proofs.Queue.Outcome
import Outbox.Proofs.Queue.Repayment

/-!
# Grants and what becomes of them

The pool may grant a request long before the producer that waits for it has its next turn.  Until
then the grant lies unread; it is stranded if the producer goes away, or sees the cancellation of
the queue, instead of reading it.

* `Queue.unread` — the bytes of the grants that lie unread;
* `Queue.grantedIn`, `Queue.strandedIn` — the bytes granted and stranded in one move;
* `Queue.learnt`, `Queue.grantees`, `Queue.granteesIn`, `Queue.leaversIn` — the same, producer by
  producer;
* `Queue.Distinct` — the producers that wait have different names;
* `Queue.traced_step` — a grant of this move or an earlier one is read, stranded or left unread;
* `Queue.recorded_step` — the same in bytes;
* `Queue.traced_run`, `Queue.recorded_run` — the same for whole runs.
-/

namespace Outbox

/-- The producer that learns that it has its bytes. -/
def Action.learnt? : Action → Option Producer
  | allocated t n none => some ⟨t, n⟩
  | _ => none

namespace Queue

variable {q q' : Queue} {t : Ticket} {edits : List Edit} {size : Nat}

/-! ## Amounts -/

/-- The bytes of a producer if its grant lies unread. -/
def grantOf (answers : List (Ticket × Grant)) (p : Producer) : Nat :=
  if Answers.hasGranted answers p.ticket then p.size else 0

/-- The bytes of a producer if it had no answer before and its grant lies unread now. -/
def newGrantOf (answers answers' : List (Ticket × Grant)) (p : Producer) : Nat :=
  if answers.lookup p.ticket = none ∧ Answers.hasGranted answers' p.ticket = true then p.size
  else 0

/-- The bytes of the grants that lie unread. -/
def unread (q : Queue) : Nat := (q.producers.map (grantOf q.pool.answers)).sum

/-- The bytes granted to a producer that comes with this move, before it has to wait. -/
def grantedAtOnce (q : Queue) : Move → Nat
  | .reserve t size _ =>
    if q.reachable = true ∧ q.isTaken t = false ∧ size ≠ 0 ∧ q.cancelled = false ∧
        Answers.hasGranted (q.ask t size).pool.answers t = true then size
    else 0
  | _ => 0

/-- The bytes granted to the producers that waited, from one state to a later one. -/
def newlyGranted (q q' : Queue) : Nat :=
  (q.producers.map (newGrantOf q.pool.answers q'.pool.answers)).sum

/-- The bytes that the pool grants to producers in a move. -/
def grantedIn (q : Queue) (m : Move) : Nat := q.newlyGranted (q.step m) + q.grantedAtOnce m

/-- The bytes of the unread grant of a producer that waits under this name. -/
def unreadOf (q : Queue) (t : Ticket) : Nat :=
  match q.waitingSize? t with
  | some size => grantOf q.pool.answers ⟨t, size⟩
  | none => 0

/-- The bytes of the grant that nobody will read after a move: the producer went away, or had a
turn after the queue was cancelled. -/
def strandedIn (q : Queue) : Move → Nat
  | .resume t _ => if q.cancelled then q.unreadOf t else 0
  | .abandon t => q.unreadOf t
  | _ => 0

/-! ## Producer by producer -/

/-- The producers that learnt so far that they have their bytes, in order. -/
def learnt (q : Queue) : List Producer := q.log.filterMap Action.learnt?

/-- The producers whose grants lie unread. -/
def grantees (q : Queue) : List Producer :=
  q.producers.filter fun p => Answers.hasGranted q.pool.answers p.ticket

/-- The producers that were granted their bytes while they waited, from one state to a later one. -/
def newGrantees (q q' : Queue) : List Producer :=
  q.producers.filter fun p =>
    q.pool.answers.lookup p.ticket = none ∧ Answers.hasGranted q'.pool.answers p.ticket = true

/-- The producer that comes with this move and is granted its bytes before it has to wait. -/
def granteeAtOnce (q : Queue) : Move → List Producer
  | .reserve t size edits => if q.grantedAtOnce (.reserve t size edits) = 0 then [] else [⟨t, size⟩]
  | _ => []

/-- The producers that are granted their bytes in a move. -/
def granteesIn (q : Queue) (m : Move) : List Producer :=
  q.newGrantees (q.step m) ++ q.granteeAtOnce m

/-- The producers whose grants nobody will read after a move: they went away, or had a turn after
the queue was cancelled. -/
def leaversIn (q : Queue) : Move → List Producer
  | .resume t _ => if q.cancelled then q.grantees.filter (fun p => p.ticket = t) else []
  | .abandon t => q.grantees.filter (fun p => p.ticket = t)
  | _ => []

/-! ## Small facts -/

/-- Without an answer there is no grant. -/
theorem grantOf_of_none {answers : List (Ticket × Grant)} {p : Producer}
    (h : answers.lookup p.ticket = none) : grantOf answers p = 0 := by
  simp [grantOf, Answers.hasGranted, h]

/-- A producer with an answer has the bytes that come with it. -/
theorem grantOf_of_some {answers : List (Ticket × Grant)} {p : Producer} {g : Grant}
    (h : answers.lookup p.ticket = some g) : grantOf answers p = g.bytes p.size := by
  unfold grantOf Answers.hasGranted
  rw [h]
  cases g <;> simp [Grant.bytes]

/-- Nothing is granted in between to a producer that had its answer before. -/
theorem newGrantOf_of_some {answers answers' : List (Ticket × Grant)} {p : Producer} {g : Grant}
    (h : answers.lookup p.ticket = some g) : newGrantOf answers answers' p = 0 := by
  simp [newGrantOf, h]

/-- Only a producer that comes is granted anything at once. -/
theorem grantedAtOnce_eq_zero {m : Move} (h : m.isOfProducer = false) : q.grantedAtOnce m = 0 := by
  cases m <;> first | rfl | cases h

theorem granteeAtOnce_eq_nil {m : Move} (h : m.isOfProducer = false) : q.granteeAtOnce m = [] := by
  cases m <;> first | rfl | cases h

/-- Only producers leave grants unread. -/
theorem strandedIn_eq_zero {m : Move} (h : m.isOfProducer = false) : q.strandedIn m = 0 := by
  cases m <;> first | rfl | cases h

theorem leaversIn_eq_nil {m : Move} (h : m.isOfProducer = false) : q.leaversIn m = [] := by
  cases m <;> first | rfl | cases h

/-! ## Names of producers -/

/-- The producers that wait have different names. -/
def Distinct (q : Queue) : Prop := (q.producers.map Producer.ticket).Nodup

theorem distinct_forget (h : q.Distinct) (t : Ticket) : (q.forgetProducer t).Distinct :=
  List.Nodup.sublist (List.filter_sublist.map _) h

theorem not_taken (h : q.isTaken t = false) :
    q.waitingSize? t = none ∧ q.pool.isOpen t = false := by
  simpa [isTaken] using h

/-! ## What is kept -/

variable {answers answers' : List (Ticket × Grant)} {ps : List Producer}

/-- Producers whose answers are kept were granted their bytes before, or are now. -/
theorem filter_granted (h : Keeps answers answers' ps) :
    (ps.filter fun p => Answers.hasGranted answers' p.ticket).Perm
      ((ps.filter fun p => Answers.hasGranted answers p.ticket) ++
        ps.filter fun p =>
          answers.lookup p.ticket = none ∧ Answers.hasGranted answers' p.ticket = true) := by
  induction ps with
  | nil => exact .refl []
  | cons p rest ih =>
    have hrest := ih fun p' hp' => h p' (List.mem_cons_of_mem _ hp')
    cases hl : answers.lookup p.ticket with
    | none =>
      have hbefore : Answers.hasGranted answers p.ticket = false := by simp [Answers.hasGranted, hl]
      by_cases hg : Answers.hasGranted answers' p.ticket = true
      · simpa [List.filter_cons, hbefore, hl, hg] using (hrest.cons p).trans List.perm_middle.symm
      · simpa [List.filter_cons, hbefore, hl, hg] using hrest
    | some g =>
      have hl' := h p (List.mem_cons_self ..) g hl
      by_cases hg : g = .granted
      · simpa [List.filter_cons, Answers.hasGranted, hl, hl', hg] using hrest.cons p
      · simpa [List.filter_cons, Answers.hasGranted, hl, hl', hg] using hrest

/-! ## Each move -/

/-- The producers that learn or strand their grants, and those whose grants lie unread then, are
those that are granted their bytes now and those whose grants lay unread. -/
def Traced (q q' : Queue) (granted stranded : List Producer) : Prop :=
  (q'.learnt ++ (q'.grantees ++ stranded)).Perm (q.learnt ++ (q.grantees ++ granted))

theorem Repays.learnt_eq (h : Repays q q') : q'.learnt = q.learnt := by
  induction h with
  | @aside q q' entries hpool hpeer hproducers hlog he =>
    have hnone : entries.filterMap Action.learnt? = [] := by
      refine List.filterMap_eq_nil_iff.mpr fun a ha => ?_
      have hsilent := he a ha
      cases a with
      | allocated p n failure => cases failure <;> first | rfl | cases hsilent
      | _ => rfl
    rw [learnt, hlog, List.filterMap_append, hnone, List.append_nil, learnt]
  | release q n =>
    unfold Queue.release
    split
    · rfl
    · split <;> simp [learnt, Queue.note, Action.learnt?]
  | trans h h' ih ih' => exact ih'.trans ih

/-- Nobody reads an answer. -/
theorem traced_of_keeps (hp : q'.producers = q.producers) (hl : q'.learnt = q.learnt)
    (hk : Keeps q.pool.answers q'.pool.answers q.producers) :
    Traced q q' (q.newGrantees q') [] := by
  unfold Traced grantees newGrantees
  rw [hl, hp, List.append_nil]
  exact (filter_granted hk).append_left _

theorem Repays.traced (h : Repays q q') : Traced q q' (q.newGrantees q') [] :=
  traced_of_keeps h.producers h.learnt_eq (keeps_of_grown h.answers _)

/-- A producer leaves the line: its grant is learnt or stranded. -/
theorem traced_of_forget {told stranded : List Producer} (hn : q.Distinct)
    (hw : q.waitingSize? t = some size)
    (hp : q'.producers = q.producers.filter (fun p => p.ticket ≠ t))
    (hk : Keeps q.pool.answers q'.pool.answers (q.producers.filter (fun p => p.ticket ≠ t)))
    (hnew : q.pool.answers.lookup t ≠ none ∨ Answers.hasGranted q'.pool.answers t = false)
    (hl : q'.learnt = q.learnt ++ told)
    (htold : told ++ stranded = [⟨t, size⟩].filter fun p =>
      Answers.hasGranted q.pool.answers p.ticket) :
    Traced q q' (q.newGrantees q') stranded := by
  have hall : q.producers.Perm (⟨t, size⟩ :: q.producers.filter (fun p => p.ticket ≠ t)) :=
    perm_others hn (mem_of_waitingSize?_eq_some hw)
  have hothers := filter_granted hk
  have hgrantees := hall.filter fun p => Answers.hasGranted q.pool.answers p.ticket
  have hnews := hall.filter fun p =>
    q.pool.answers.lookup p.ticket = none ∧ Answers.hasGranted q'.pool.answers p.ticket = true
  have hnone : ¬ (q.pool.answers.lookup t = none ∧
      Answers.hasGranted q'.pool.answers t = true) := by
    rintro ⟨hlookup, hgranted⟩
    rcases hnew with hnew | hnew
    · exact hnew hlookup
    · rw [hgranted] at hnew
      cases hnew
  rw [List.filter_cons_of_neg (by simpa using hnone)] at hnews
  rw [← List.singleton_append, List.filter_append, ← htold] at hgrantees
  refine List.perm_iff_count.mpr fun p => ?_
  have h₁ := hothers.count_eq p
  have h₂ := hgrantees.count_eq p
  have h₃ := hnews.count_eq p
  unfold grantees newGrantees
  rw [hl, hp]
  simp only [List.count_append] at h₁ h₂ ⊢
  omega

/-- A producer leaves the line without reading its answer: a grant is stranded. -/
theorem traced_of_abandon (hn : q.Distinct) (hw : q.waitingSize? t = some size)
    (hp : q'.producers = q.producers.filter (fun p => p.ticket ≠ t))
    (hpool : q'.pool = q.pool.abandon t) (hl : q'.learnt = q.learnt) :
    Traced q q' (q.newGrantees q') (q.grantees.filter (fun p => p.ticket = t)) := by
  have hanswers : q'.pool.answers = q.pool.answers.filter (fun e => e.1 ≠ t) := by
    rw [hpool, q.pool.answers_abandon]
  have hgone : Answers.hasGranted q'.pool.answers t = false := by
    unfold Answers.hasGranted
    rw [hanswers, Answers.lookup_without_self]
    rfl
  refine traced_of_forget hn hw hp (keeps_without hanswers ne_of_mem_others) (.inr hgone)
    (hl.trans (List.append_nil _).symm) ?_
  have hone : q.producers.filter (fun p => p.ticket = t) = [⟨t, size⟩] :=
    filter_ticket_eq hn (mem_of_waitingSize?_eq_some hw)
  rw [List.nil_append, grantees, List.filter_comm, hone]

theorem learnt_hear (q : Queue) (t : Ticket) (size : Nat) (grant : Grant) :
    (q.hear t size grant).learnt = q.learnt ++ if grant = .granted then [⟨t, size⟩] else [] := by
  cases grant <;> simp [hear, learnt, note, Action.learnt?, Grant.cause?]

theorem Arrival.traced (a : Arrival q t size edits q') (hreach : q.reachable = true)
    (ht : q.isTaken t = false) :
    Traced q q' (q.newGrantees q' ++ q.granteeAtOnce (.reserve t size edits)) [] := by
  have hothers := ne_of_waitingSize?_eq_none (not_taken ht).1
  have hasked : q.pool.answers <+: (q.ask t size).pool.answers := q.pool.answers_request _ _ _
  have haskedLearnt : (q.ask t size).learnt = q.learnt :=
    Repays.learnt_eq (q := { q with pool := (q.ask t size).pool }) (.note _ rfl)
  have hnobody : q.grantedAtOnce (.reserve t size edits) = 0 →
      q.granteeAtOnce (.reserve t size edits) = [] := fun h => if_pos h
  cases a with
  | free hs =>
    rw [hnobody (by simp [grantedAtOnce, hs]), List.append_nil]
    exact (mutate_repays q t 0 edits).traced
  | callOff hs hc =>
    rw [hnobody (by simp [grantedAtOnce, hc]), List.append_nil]
    exact (Repays.note q (a := .skipped t) rfl).traced
  | @answered grant pool hs hc ha =>
    obtain ⟨hlookup, hanswers⟩ := Pool.take?_eq_some ha
    have hspent := answer_repays { q.ask t size with pool } t size edits grant
    have honce : q.granteeAtOnce (.reserve t size edits) =
        if grant = .granted then [⟨t, size⟩] else [] := by
      simp only [granteeAtOnce, grantedAtOnce, Answers.hasGranted, hlookup, hreach, ht, hc]
      cases grant <;> simp [hs]
    have hkeep :
        Keeps q.pool.answers (Queue.answer _ t size edits grant).pool.answers q.producers :=
      ((keeps_of_grown hasked _).trans (keeps_without hanswers hothers)).trans
        (keeps_of_grown hspent.answers _)
    have hlearnt := hspent.learnt_eq
    rw [learnt_hear] at hlearnt
    have hbefore : ({ q.ask t size with pool } : Queue).learnt = q.learnt := haskedLearnt
    have hwaiting := filter_granted hkeep
    refine List.perm_iff_count.mpr fun p => ?_
    have hcount := hwaiting.count_eq p
    unfold grantees newGrantees
    rw [hlearnt, hbefore, honce, hspent.producers]
    show List.count p (_ ++ ((q.producers.filter _) ++ _)) = _
    simp only [List.count_append, List.count_nil] at hcount ⊢
    omega
  | wait hs hc ha =>
    have hlookup := Pool.take?_eq_none_iff.mp ha
    rw [hnobody (by simp [grantedAtOnce, Answers.hasGranted, hlookup]), List.append_nil]
    have hwaiting := filter_granted (keeps_of_grown hasked q.producers)
    have hlearnt : ({ q.ask t size with producers := q.producers ++ [⟨t, size⟩] } : Queue).learnt =
        q.learnt := haskedLearnt
    unfold Traced grantees newGrantees
    rw [hlearnt, List.append_nil, List.filter_append]
    refine List.Perm.append_left _ ?_
    simpa [Answers.hasGranted, hlookup] using hwaiting

theorem Return.traced (r : Return q t edits q') (hn : q.Distinct) :
    Traced q q' (q.newGrantees q') (q.leaversIn (.resume t edits)) := by
  cases r with
  | unknown hw =>
    have hnobody : q.leaversIn (.resume t edits) = [] := by
      have hothers := ne_of_waitingSize?_eq_none hw
      have hnone : q.grantees.filter (fun p => p.ticket = t) = [] := by
        refine List.filter_eq_nil_iff.mpr fun p hp => ?_
        simpa using hothers p (List.mem_of_mem_filter hp)
      simp [leaversIn, hnone]
    rw [hnobody]
    exact traced_of_keeps rfl rfl (.refl _ _)
  | @callOff size hw hc =>
    have hleaver : q.leaversIn (.resume t edits) = q.grantees.filter (fun p => p.ticket = t) := by
      simp [leaversIn, hc]
    rw [hleaver]
    exact traced_of_abandon hn hw rfl rfl (Repays.note _ rfl).learnt_eq
  | @answered size grant pool hw hc ha =>
    obtain ⟨hlookup, hanswers⟩ := Pool.take?_eq_some ha
    have hspent := answer_repays ({ q with pool }.forgetProducer t) t size edits grant
    have hnobody : q.leaversIn (.resume t edits) = [] := by simp [leaversIn, hc]
    rw [hnobody]
    refine traced_of_forget hn hw hspent.producers ?_ (.inl (by simp [hlookup]))
      (hspent.learnt_eq.trans (learnt_hear _ t size grant)) ?_
    · exact (keeps_without hanswers ne_of_mem_others).trans (keeps_of_grown hspent.answers _)
    · cases grant <;> simp [Answers.hasGranted, hlookup]
  | @wait size hw hc ha =>
    have hnobody : q.leaversIn (.resume t edits) = [] := by simp [leaversIn, hc]
    rw [hnobody]
    exact traced_of_keeps rfl rfl (.refl _ _)

theorem traced_abandon (hn : q.Distinct) (t : Ticket) :
    Traced q (q.abandon t) (q.newGrantees (q.abandon t)) (q.leaversIn (.abandon t)) := by
  unfold Queue.abandon
  cases hw : q.waitingSize? t with
  | none =>
    have hothers := ne_of_waitingSize?_eq_none hw
    have hnone : q.leaversIn (.abandon t) = [] := by
      refine List.filter_eq_nil_iff.mpr fun p hp => ?_
      simpa using hothers p (List.mem_of_mem_filter hp)
    rw [hnone]
    exact traced_of_keeps rfl rfl (.refl _ _)
  | some size => exact traced_of_abandon hn hw rfl rfl rfl

theorem Repayment.traced (h : Repayment q q') : Traced q q' (q.newGrantees q') [] := by
  cases h with
  | goesOn h hw => exact h.traced
  | @ends q' h =>
    refine traced_of_keeps h.producers ?_ ?_
    · have hlate : q'.teardown.learnt = q'.learnt := by
        simp [teardown, closeBacklog, note, learnt, Action.learnt?, List.filterMap_map,
          Function.comp_def]
      exact hlate.trans h.learnt_eq
    · exact (keeps_of_grown h.answers _).trans
        (keeps_of_grown (q'.pool.answers_releasePeer q'.peer) _)

/-- **Every grant is accounted for.**  A producer that was granted its bytes in a move, or whose
grant lay unread before, learns of it, strands it, or leaves it unread. -/
theorem traced_step (q : Queue) (m : Move) (hn : q.Distinct) :
    Traced q (q.step m) (q.granteesIn m) (q.leaversIn m) := by
  have hsilent : ∀ {q' : Queue}, m.isOfProducer = false →
      Traced q q' (q.newGrantees q') [] →
      Traced q q' (q.newGrantees q' ++ q.granteeAtOnce m) (q.leaversIn m) := by
    intro q' hproducer h
    rwa [granteeAtOnce_eq_nil hproducer, leaversIn_eq_nil hproducer, List.append_nil]
  have hkept := Keeps.refl q.pool.answers q.producers
  have t := step_outcome q m
  unfold granteesIn
  generalize q.step m = q' at t
  cases t with
  | @refused t size edits h =>
    have honce : q.granteeAtOnce (.reserve t size edits) = [] := by
      refine if_pos ?_
      simp only [grantedAtOnce]
      exact if_neg fun hgo => h ⟨hgo.1, hgo.2.1⟩
    rw [honce, List.append_nil]
    exact traced_of_keeps rfl rfl hkept
  | @arrived t size edits hr ht => exact (reserve_arrival q t size edits).traced hr ht
  | @returned t edits =>
    have hnobody : q.granteeAtOnce (.resume t edits) = [] := rfl
    rw [hnobody, List.append_nil]
    exact (resume_return q t edits).traced hn
  | @abandoned t =>
    have hnobody : q.granteeAtOnce (.abandon t) = [] := rfl
    rw [hnobody, List.append_nil]
    exact traced_abandon hn t
  | launched hr hw => exact hsilent rfl (traced_of_keeps rfl rfl hkept)
  | scrubbed hr => exact hsilent rfl (repays_scrub q _).traced
  | worked => exact hsilent rfl (work_turn q _).repayment.traced
  | dropped hr hw hp =>
    have hclosed : Repays { q with reachable := false, stopRequested := true } _ :=
      repays_closeBacklog _
    exact hsilent rfl (traced_of_keeps rfl hclosed.learnt_eq hkept)
  | shared ho hk =>
    exact hsilent (Move.isOfProducer_of_isOfOther ho) (traced_of_keeps rfl rfl hk)
  | @withheld value =>
    refine hsilent rfl (traced_of_keeps rfl rfl (keeps_of_grown ?_ _))
    show q.pool.answers <+: (q.pool.withhold value).answers
    rw [Pool.answers_withhold]
  | aside hproducer hr hs hc => exact hsilent hproducer (traced_of_keeps rfl rfl hkept)

/-! ## In bytes -/

/-- What was learnt, stranded and left unread makes up what was granted. -/
def Recorded (q q' : Queue) (granted stranded : Nat) : Prop :=
  q'.books.allocated + (q'.unread + stranded) = q.books.allocated + (q.unread + granted)

/-- The bytes of some producers. -/
def sizesOf (ps : List Producer) : Nat := (ps.map Producer.size).sum

theorem sizesOf_filter (f : Producer → Bool) :
    sizesOf (ps.filter f) = (ps.map fun p => if f p then p.size else 0).sum := by
  unfold sizesOf
  induction ps with
  | nil => rfl
  | cons p rest ih =>
    cases hf : f p <;> simp [hf, ih]

theorem sizesOf_learnt (q : Queue) : sizesOf q.learnt = q.books.allocated := by
  unfold learnt books sizesOf
  induction q.log with
  | nil => rfl
  | cons a rest ih =>
    have ha : (a.learnt?.toList.map Producer.size).sum = a.books.allocated := by
      cases a with
      | allocated p n failure => cases failure <;> simp [Action.learnt?, Action.books]
      | _ => rfl
    rw [List.map_cons, Books.total, Books.add_allocated, ← ih, ← ha]
    cases h : a.learnt? <;> simp [h]

theorem sizesOf_grantees (q : Queue) : sizesOf q.grantees = q.unread :=
  sizesOf_filter _

theorem sizesOf_granteesIn (q : Queue) (m : Move) :
    sizesOf (q.granteesIn m) = q.grantedIn m := by
  have honce : sizesOf (q.granteeAtOnce m) = q.grantedAtOnce m := by
    cases m with
    | reserve t size edits =>
      have hbytes : q.grantedAtOnce (.reserve t size edits) = 0 ∨
          q.grantedAtOnce (.reserve t size edits) = size := by
        simp only [grantedAtOnce]
        split
        · exact .inr rfl
        · exact .inl rfl
      rw [granteeAtOnce]
      split_ifs with hzero
      · rw [hzero]
        rfl
      · rw [hbytes.resolve_left hzero]
        simp [sizesOf]
    | _ => rfl
  have hnew : sizesOf (q.newGrantees (q.step m)) = q.newlyGranted (q.step m) := by
    unfold newGrantees newlyGranted newGrantOf
    rw [sizesOf_filter]
    simp only [decide_eq_true_eq]
  rw [granteesIn, sizesOf, List.map_append, List.sum_append]
  exact congrArg₂ (· + ·) hnew honce

theorem sizesOf_leaversIn (hn : q.Distinct) (m : Move) :
    sizesOf (q.leaversIn m) = q.strandedIn m := by
  have hone : ∀ t, sizesOf (q.grantees.filter (fun p => p.ticket = t)) = q.unreadOf t := by
    intro t
    unfold unreadOf
    cases hw : q.waitingSize? t with
    | none =>
      have hothers := ne_of_waitingSize?_eq_none hw
      have hnone : q.grantees.filter (fun p => p.ticket = t) = [] := by
        refine List.filter_eq_nil_iff.mpr fun p hp => ?_
        simpa using hothers p (List.mem_of_mem_filter hp)
      rw [hnone]
      rfl
    | some size =>
      have hfilter : q.producers.filter (fun p => p.ticket = t) = [⟨t, size⟩] :=
        filter_ticket_eq hn (mem_of_waitingSize?_eq_some hw)
      rw [grantees, List.filter_comm, hfilter, sizesOf_filter]
      simp [grantOf]
  cases m with
  | resume t edits =>
    simp only [leaversIn, strandedIn]
    split
    · exact hone t
    · rfl
  | abandon t => exact hone t
  | _ => rfl

/-- Where the answers are kept, the bytes that lie unread are those that did and those granted. -/
theorem sum_grantOf (h : Keeps answers answers' ps) :
    (ps.map (grantOf answers')).sum =
      (ps.map (grantOf answers)).sum + (ps.map (newGrantOf answers answers')).sum := by
  have hsizes := ((filter_granted h).map Producer.size).sum_eq
  rw [List.map_append, List.sum_append] at hsizes
  change sizesOf _ = sizesOf _ + sizesOf _ at hsizes
  simp only [sizesOf_filter, decide_eq_true_eq] at hsizes
  exact hsizes

/-- Answers that were there are still there, so nothing that lay unread is lost. -/
theorem Repays.unread_le (h : Repays q q') : q.unread ≤ q'.unread := by
  have hsum := sum_grantOf (keeps_of_grown h.answers q.producers)
  unfold unread
  rw [h.producers]
  omega

/-- Every grant is accounted for in bytes. -/
theorem recorded_step (q : Queue) (m : Move) (hn : q.Distinct) :
    Recorded q (q.step m) (q.grantedIn m) (q.strandedIn m) := by
  have htraced := ((traced_step q m hn).map Producer.size).sum_eq
  simp only [List.map_append, List.sum_append] at htraced
  unfold Recorded
  rw [← sizesOf_learnt, ← sizesOf_learnt, ← sizesOf_grantees, ← sizesOf_grantees,
    ← sizesOf_granteesIn, ← sizesOf_leaversIn hn]
  exact htraced

/-- What each move has to meet for the books to be right: the edits of every producer add exactly
what it reserved. -/
def HonestMove (len : Link → Nat) (q : Queue) : Move → Prop
  | .reserve _ size edits => Honest len size edits
  | .resume t edits => ∀ size, q.waitingSize? t = some size → Honest len size edits
  | _ => True

/-! ## Names stay different -/

theorem Distinct.of_eq (h : q.Distinct) (hp : q'.producers = q.producers) : q'.Distinct := by
  unfold Distinct
  rw [hp]
  exact h

theorem Arrival.distinct (a : Arrival q t size edits q') (h : q.Distinct)
    (ht : q.waitingSize? t = none) : q'.Distinct := by
  cases a with
  | free hs => exact h.of_eq (mutate_frame q t 0 edits).2
  | callOff hs hc => exact h
  | answered hs hc ha => exact h.of_eq (answer_frame _ t size edits _).2
  | wait hs hc ha => exact nodup_map_concat h (ne_of_waitingSize?_eq_none ht)

theorem Return.distinct (r : Return q t edits q') (h : q.Distinct) : q'.Distinct := by
  cases r with
  | unknown hw => exact h
  | callOff hw hc => exact distinct_forget h t
  | answered hw hc ha => exact (distinct_forget h t).of_eq (answer_frame _ t _ edits _).2
  | wait hw hc ha => exact h

theorem distinct_step (q : Queue) (m : Move) (h : q.Distinct) :
    (q.step m).Distinct := by
  have t := step_outcome q m
  generalize q.step m = q' at t
  cases t with
  | refused _ => exact h
  | @arrived t size edits hr ht =>
    exact (reserve_arrival q t size edits).distinct h (not_taken ht).1
  | @returned t edits => exact (resume_return q t edits).distinct h
  | @abandoned t =>
    unfold Queue.abandon
    split
    · exact h
    · exact distinct_forget h t
  | launched hr hw => exact h
  | scrubbed hr => exact h.of_eq (repays_scrub q _).producers
  | worked => exact h.of_eq (work_turn q _).repayment.producers
  | dropped hr hw hp => exact h
  | shared ho hk => exact h
  | withheld => exact h
  | aside hproducer hr hs hc => exact h

/-! ## Runs -/

/-- Nobody waits at first. -/
theorem IsNew.distinct (h : q.IsNew) : q.Distinct := by
  unfold Distinct
  rw [h.producers_eq]
  exact List.nodup_nil

/-- Every grant of a run is accounted for. -/
theorem traced_run (hn : q.Distinct) (moves : List Move) :
    Traced q (q.run moves) (q.collectAlong granteesIn moves) (q.collectAlong leaversIn moves) := by
  induction moves generalizing q with
  | nil => exact .refl _
  | cons m rest ih =>
    have hfirst := traced_step q m hn
    have hrest := ih (distinct_step q m hn)
    rw [run_cons, collectAlong_cons, collectAlong_cons]
    unfold Traced at *
    refine List.perm_iff_count.mpr fun p => ?_
    have hfirst' := hfirst.count_eq p
    have hrest' := hrest.count_eq p
    simp only [List.count_append] at hfirst' hrest' ⊢
    omega

/-- Every grant of a run is accounted for in bytes. -/
theorem recorded_run (hn : q.Distinct) (moves : List Move) :
    Recorded q (q.run moves) (q.sumAlong grantedIn moves) (q.sumAlong strandedIn moves) := by
  induction moves generalizing q with
  | nil => rfl
  | cons m rest ih =>
    have hfirst := recorded_step q m hn
    have hrest := ih (distinct_step q m hn)
    rw [run_cons, sumAlong_cons, sumAlong_cons]
    unfold Recorded at *
    omega

end Queue

end Outbox
