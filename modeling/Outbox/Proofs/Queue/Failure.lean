import Outbox.Proofs.Queue.Chapters

/-!
# How a message fails

A failure is published by two acts only: a delivery that fails, and a worker that is asked to stop
and finds a message in line.  Both go the same way from there, so what is proved of one failure is
proved of all of them.  The worker does not have to wait while a message fails, so on one thread no
producer comes between the scrub, the report and the return of the memory.  Afterwards the worker is on its way out: it starts no delivery any more and
reports what it still finds as failed by the shutdown.

* `Action.isFailure`, `Action.isOfFailure` — the publication of a failure; what is done for a
  failure only;
* `Queue.Failing` — an act in which a message fails, with everything it does;
* `Queue.Act.failing` — no other act publishes a failure or closes a stream;
* `Queue.Leaving` — a worker on its way out, with `Queue.Leaving.act`;
* `Queue.Leaving.path` — what can still be published then.
-/

namespace Outbox

/-- The failure of a message is published. -/
def Action.isFailure : Action → Bool
  | published _ ⟨.failed _, _⟩ _ => true
  | _ => false

theorem Action.of_isFailure {a : Action} (h : a.isFailure = true) :
    ∃ t cause md n, a = .published t ⟨.failed cause, md⟩ n := by
  unfold isFailure at h
  split at h
  · exact ⟨_, _, _, _, rfl⟩
  · cases h

/-- It is done for a message that fails: its failure is published, or a stream of it is closed. -/
def Action.isOfFailure (a : Action) : Bool := a.isFailure || a matches .streamClosed _

theorem Action.isFailure_of_isQuiet {a : Action} (h : a.isQuiet = true) : a.isFailure = false := by
  cases a <;> first | rfl | cases h

theorem Action.isOfFailure_of_isQuiet {a : Action} (h : a.isQuiet = true) :
    a.isOfFailure = false := by
  cases a <;> first | rfl | cases h

/-- A list has one place for the only element that passes a test. -/
theorem eq_of_append_cons_eq {α : Type} {p : α → Bool} {l l' r r' : List α} {a a' : α}
    (h : l ++ a :: r = l' ++ a' :: r') (ha : p a = true) (hl : ∀ x ∈ l', p x = false)
    (hr : ∀ x ∈ r', p x = false) : l = l' ∧ a = a' ∧ r = r' := by
  rcases List.append_eq_append_iff.mp h with ⟨m, rfl, hm⟩ | ⟨m, rfl, hm⟩
  · cases m with
    | nil =>
      obtain ⟨rfl, rfl⟩ := List.cons.inj hm
      exact ⟨(List.append_nil l).symm, rfl, rfl⟩
    | cons x m =>
      obtain ⟨rfl, -⟩ := List.cons.inj hm
      rw [hl a (by simp)] at ha
      cases ha
  · cases m with
    | nil =>
      obtain ⟨rfl, rfl⟩ := List.cons.inj hm
      exact ⟨List.append_nil l', rfl, rfl⟩
    | cons x m =>
      obtain ⟨rfl, rfl⟩ := List.cons.inj hm
      rw [hr a (by simp)] at ha
      cases ha

namespace Queue

variable {others : Sink → Prop} {q q' : Queue} {entries : List Action}

/-! ## Failing -/

/-- The entries with which a builder and its message are taken, if they are taken only now. -/
def taking (d : Finished) : Option Builder → List Action
  | none => []
  | some b => .dequeued b :: d.sinks.map (.subscribed d.topic)

/-- In an act with these entries a message fails.  It is the message under way, or that of the first
builder in line, and `rest` are the other builders. -/
structure Failing (q : Queue) (d : Finished) (cause : QueueError) (head : Option Builder)
    (rest : List Builder) (entries : List Action) (q' : Queue) : Prop where
  /-- The message is under way, or is made by the builder that is taken. -/
  message : (head = none ∧ q.worker.delivery? = some d ∧ rest = q.backlog.builders) ∨
    ∃ b, head = some b ∧ b.finish? = some d ∧ q.backlog.builders = b :: rest
  /-- These are the entries. -/
  entries : ∃ n purge back,
    Receipt ({ q.backlog with builders := rest }.scrubFrees d.requests) purge ∧
      Receipt d.size back ∧ entries = taking d head ++ failureEntries d cause n purge back
  /-- Its requests are scrubbed from the other builders. -/
  backlog : q'.backlog = { q.backlog with builders := rest }.scrub d.requests
  /-- The worker is asked to stop. -/
  stopRequested : q'.stopRequested = true
  /-- No message is under way. -/
  delivery? : q'.worker.delivery? = none

theorem isOfFailure_of_mem_announcement {sender : Bool} {b : Builder} {d : Finished} {n : Nat} :
    ∀ a ∈ q.announcement sender b d n, a.isOfFailure = false :=
  forall_mem_announcement rfl (fun _ => rfl) rfl (by cases sender <;> rfl)

theorem isOfFailure_of_mem_completion {d : Finished} {n m : Nat} {back : List Action}
    (hback : Receipt m back) : ∀ a ∈ completion d n back, a.isOfFailure = false :=
  forall_mem_completion hback (fun _ => Action.isOfFailure_of_isQuiet) rfl rfl rfl

/-- **Where failures come from.**  An act that publishes a failure, or closes a stream,
makes a message fail. -/
theorem Act.failing {a : Action} (act : Act others q entries q') (ha : a ∈ entries)
    (hfail : a.isOfFailure = true) :
    ∃ d cause head rest, Failing q d cause head rest entries q' := by
  cases act with
  | aside he hs hc hr =>
    rw [Action.isOfFailure_of_isQuiet (he a ha)] at hfail
    cases hfail
  | attached ho => cases ha
  | departed ho => cases ha
  | edited hc hm =>
    rw [List.mem_singleton.mp ha] at hfail
    cases hfail
  | scrubbed hr =>
    rcases List.mem_cons.mp ha with rfl | ha
    · cases hfail
    · rw [Action.isOfFailure_of_isQuiet (hr.isQuiet a ha)] at hfail
      cases hfail
  | launched hw hr => cases ha
  | dropped hw =>
    obtain ⟨b, -, rfl⟩ := List.mem_map.mp ha
    cases hfail
  | started hw =>
    rw [List.mem_singleton.mp ha] at hfail
    cases hfail
  | skipped hw hb hf =>
    rw [List.mem_singleton.mp ha] at hfail
    cases hfail
  | announced hw hs hb hf hp he =>
    subst he
    rw [isOfFailure_of_mem_announcement a ha] at hfail
    cases hfail
  | opened hw =>
    rcases List.mem_pair.mp ha with rfl | rfl
    · cases hfail
    · cases hfail
  | sent hw hback hp he =>
    subst he
    rw [isOfFailure_of_mem_completion hback a ha] at hfail
    cases hfail
  | interrupted hw hcause he =>
    rcases he with rfl | ⟨e, rfl⟩
    · rw [List.mem_singleton.mp ha] at hfail
      cases hfail
    · simp only [List.mem_cons, List.not_mem_nil, or_false] at ha
      rcases ha with rfl | rfl <;> cases hfail
  | @failed d cause pool bus post n purge back entries hw hpurge hback hp he =>
    have hdelivery : q.worker.delivery? = some d := by
      rcases hw with ⟨hw, -⟩ | hw
      · rw [hw]
        rfl
      · rw [hw]
        rfl
    exact ⟨d, cause, none, q.backlog.builders, .inl ⟨rfl, hdelivery, rfl⟩,
      ⟨n, purge, back, hpurge, hback, he⟩, rfl, rfl, rfl⟩
  | @drained sender b rest d pool bus post n purge back entries hw hs hb hf hpurge hback hp he =>
    refine ⟨d, .shutdown, some b, rest, .inr ⟨b, rfl, hf, hb⟩,
      ⟨n, purge, back, hpurge, hback, by simp [he, taking]⟩, rfl, hs, ?_⟩
    show q.worker.delivery? = none
    rw [hw]
    rfl
  | emptied hw hs hb => cases ha
  | parted hw hend =>
    rw [List.mem_singleton.mp ha] at hfail
    cases hfail
  | ended hw =>
    simp only [teardownEntries, List.mem_append, List.mem_map, List.mem_cons, List.not_mem_nil,
      or_false] at ha
    rcases ha with ⟨b, -, rfl⟩ | rfl | rfl <;> cases hfail

/-- An act in which a message fails publishes one failure. -/
theorem eq_of_failure {d : Finished} {cause : QueueError} {head : Option Builder} {n m m' : Nat}
    {a : Action} {left right purge back : List Action} (hpurge : Receipt m purge)
    (hback : Receipt m' back)
    (h : left ++ a :: right = taking d head ++ failureEntries d cause n purge back)
    (ha : a.isFailure = true) :
    left = taking d head ++
        ((streamsInOrder d).map .streamClosed ++ .scrubbed d.requests :: purge) ∧
      a = .published d.topic ⟨.failed cause, d.metadata⟩ n ∧ right = back ++ [.closed d.topic] := by
  refine eq_of_append_cons_eq (p := Action.isFailure) ?_ ha ?_ ?_
  · rw [h, failureEntries]
    simp
  · intro a ha
    simp only [List.mem_append, List.mem_cons, List.mem_map] at ha
    rcases ha with ha | ⟨s, -, rfl⟩ | rfl | ha
    · cases head with
      | none => cases ha
      | some b =>
        simp only [taking, List.mem_cons, List.mem_map] at ha
        rcases ha with rfl | ⟨s, -, rfl⟩ <;> rfl
    · rfl
    · rfl
    · exact Action.isFailure_of_isQuiet (hpurge.isQuiet a ha)
  · intro a ha
    rcases List.mem_append.mp ha with ha | ha
    · exact Action.isFailure_of_isQuiet (hback.isQuiet a ha)
    · rw [List.mem_singleton.mp ha]
      rfl

/-! ## On the way out -/

end Queue

/-- A send begins, or something is published. -/
def Action.isPublic : Action → Bool
  | sending _ => true
  | published .. => true
  | _ => false

theorem Action.isPublic_of_isQuiet {a : Action} (h : a.isQuiet = true) : a.isPublic = false := by
  cases a <;> first | rfl | cases h

namespace Queue

/-- The worker is asked to stop, and no message is under way. -/
def Leaving (q : Queue) : Prop := q.stopRequested = true ∧ q.worker.delivery? = none

/-- Entries of a worker on its way out: no send begins, and whatever is published is the failure of
a message whose builder was taken before. -/
structure Idling (entries : List Action) : Prop where
  /-- No send begins. -/
  unsent : ∀ m, .sending m ∉ entries
  /-- A message whose builder was taken is reported as failed. -/
  reports : ∀ t e n, .published t e n ∈ entries → ∃ left b right d,
    entries = left ++ .dequeued b :: right ∧ .published t e n ∈ right ∧ b.finish? = some d ∧
      d.topic = t ∧ e = ⟨.failed .shutdown, d.metadata⟩

namespace Idling

theorem of_silent (h : ∀ a ∈ entries, a.isPublic = false) : Idling entries := by
  refine ⟨?_, ?_⟩
  · intro m hm
    have hpublic := h _ hm
    cases hpublic
  · intro t e n hmem
    have hpublic := h _ hmem
    cases hpublic

theorem append {entries' : List Action} (h : Idling entries) (h' : Idling entries') :
    Idling (entries ++ entries') := by
  refine ⟨?_, ?_⟩
  · intro m hm
    rcases List.mem_append.mp hm with hm | hm
    · exact h.unsent m hm
    · exact h'.unsent m hm
  · intro t e n hmem
    rcases List.mem_append.mp hmem with hmem | hmem
    · obtain ⟨left, b, right, d, rfl, hright, hrest⟩ := h.reports t e n hmem
      refine ⟨left, b, right ++ entries', d, ?_, List.mem_append_left _ hright, hrest⟩
      rw [List.append_assoc, List.cons_append]
    · obtain ⟨left, b, right, d, rfl, hright, hrest⟩ := h'.reports t e n hmem
      exact ⟨entries ++ left, b, right, d, by rw [List.append_assoc], hright, hrest⟩

/-- A message in line is reported as failed. -/
theorem drained {b : Builder} {d : Finished} {n m m' : Nat} {purge back : List Action}
    (hf : b.finish? = some d) (hpurge : Receipt m purge) (hback : Receipt m' back) :
    Idling (taking d (some b) ++ failureEntries d .shutdown n purge back) := by
  have hmem : ∀ a ∈ d.sinks.map (.subscribed d.topic) ++ failureEntries d .shutdown n purge back,
      a.isPublic = true → a = .published d.topic ⟨.failed .shutdown, d.metadata⟩ n := by
    intro a ha hpublic
    simp only [failureEntries, List.mem_append, List.mem_cons, List.mem_map, List.not_mem_nil,
      or_false] at ha
    rcases ha with ⟨s, -, rfl⟩ | ⟨s, -, rfl⟩ | rfl | ha | rfl | ha | rfl
    · cases hpublic
    · cases hpublic
    · cases hpublic
    · rw [Action.isPublic_of_isQuiet (hpurge.isQuiet a ha)] at hpublic
      cases hpublic
    · rfl
    · rw [Action.isPublic_of_isQuiet (hback.isQuiet a ha)] at hpublic
      cases hpublic
    · cases hpublic
  refine ⟨?_, ?_⟩
  · intro msg hmsg
    rcases List.mem_cons.mp hmsg with hmsg | hmsg
    · cases hmsg
    · have heq := hmem _ hmsg rfl
      cases heq
  · intro t e n' hpub
    rcases List.mem_cons.mp hpub with hpub | hpub
    · cases hpub
    · have heq := hmem _ hpub rfl
      cases heq
      exact ⟨[], b, _, d, rfl, hpub, hf, rfl, rfl⟩

end Idling

/-- A worker on its way out stays on it. -/
theorem Leaving.act (h : Leaving q) (act : Act others q entries q') :
    Leaving q' ∧ Idling entries := by
  obtain ⟨hstop, hnone⟩ := h
  cases act with
  | aside he hs hc hr =>
    exact ⟨⟨hs hstop, hnone⟩, .of_silent fun a ha => Action.isPublic_of_isQuiet (he a ha)⟩
  | attached ho => exact ⟨⟨hstop, hnone⟩, .of_silent (by simp)⟩
  | departed ho => exact ⟨⟨hstop, hnone⟩, .of_silent (by simp)⟩
  | edited hc hm => exact ⟨⟨hstop, hnone⟩, .of_silent (by simp [Action.isPublic])⟩
  | scrubbed hr =>
    refine ⟨⟨hstop, hnone⟩, .of_silent (List.forall_mem_cons.mpr ⟨rfl, ?_⟩)⟩
    exact fun a ha => Action.isPublic_of_isQuiet (hr.isQuiet a ha)
  | launched hw hr => exact ⟨⟨hstop, rfl⟩, .of_silent (by simp)⟩
  | dropped hw => exact ⟨⟨rfl, hnone⟩, .of_silent (by simp [Action.isPublic])⟩
  | started hw => exact ⟨⟨hstop, rfl⟩, .of_silent (by simp [Action.isPublic])⟩
  | skipped hw hb hf => exact ⟨⟨hstop, hnone⟩, .of_silent (by simp [Action.isPublic])⟩
  | announced hw hs hb hf hp he =>
    rw [hstop] at hs
    cases hs
  | opened hw =>
    rw [hw] at hnone
    cases hnone
  | sent hw hback hp he =>
    rw [hw] at hnone
    cases hnone
  | interrupted hw hcause he =>
    rw [hw] at hnone
    cases hnone
  | failed hw hpurge hback hp he =>
    rcases hw with ⟨hw, -⟩ | hw
    · rw [hw] at hnone
      cases hnone
    · rw [hw] at hnone
      cases hnone
  | @drained sender b rest d pool bus post n purge back entries hw hs hb hf hpurge hback hp he =>
    subst he
    refine ⟨⟨hstop, hnone⟩, ?_⟩
    have hidling := Idling.drained (n := n) hf hpurge hback
    rwa [taking, List.cons_append] at hidling
  | emptied hw hs hb => exact ⟨⟨hstop, hnone⟩, .of_silent (by simp)⟩
  | parted hw hend => exact ⟨⟨hstop, rfl⟩, .of_silent (by simp [Action.isPublic])⟩
  | ended hw =>
    refine ⟨⟨hstop, rfl⟩, .of_silent ?_⟩
    intro a ha
    simp only [teardownEntries, List.mem_append, List.mem_map, List.mem_cons, List.not_mem_nil,
      or_false] at ha
    rcases ha with ⟨b, -, rfl⟩ | rfl | rfl <;> rfl

/-- From then on no send begins, and only failures by the shutdown are published. -/
theorem Leaving.path (h : Leaving q) (p : Path others q q') :
    ∃ log, q'.log = q.log ++ log ∧ Idling log := by
  have hboth := p.invariant
    (I := fun q' => Leaving q' ∧ ∃ log, q'.log = q.log ++ log ∧ Idling log)
    ⟨h, [], by simp, .of_silent (by simp)⟩ ?_
  · exact hboth.2
  · rintro q₁ q₂ entries act ⟨hq, log, hlog, hidling⟩
    obtain ⟨hq', hentries⟩ := hq.act act
    refine ⟨hq', log ++ entries, ?_, hidling.append hentries⟩
    rw [act.log_eq, hlog, List.append_assoc]

end Queue

end Outbox
