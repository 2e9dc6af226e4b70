import Outbox.Proofs.Queue.Act

/-!
# The log is a trace of the backlog

Every change of the builders in line is written down, so the log of a queue retraces its backlog:
each entry says how the backlog went on, and the entries about anything else leave it as it was.
What is said about the builders in line then needs no more than the log, and is proved one entry at
a time, whoever made the entry.

* `Backlog.Change` — what one entry says about the backlog;
* `Backlog.Trace` — what a list of entries says;
* `Backlog.Trace.split` — a trace can be cut between any two entries;
* `Cut`, `Backlog.Trace.cut` — and between any two edits;
* `Queue.Path.trace` — along every path the log retraces the backlog.
-/

namespace Outbox

/-- The action changes the builders in line. -/
def Action.isOfBacklog : Action → Bool
  | mutated .. => true
  | scrubbed _ => true
  | dequeued _ => true
  | discarded _ => true
  | _ => false

theorem Action.isOfBacklog_of_isQuiet {a : Action} (h : a.isQuiet = true) :
    a.isOfBacklog = false := by
  cases a <;> first | rfl | cases h

theorem filterMap_concat {α β : Type} (f : α → Option β) (l : List α) (a : α) :
    (l ++ [a]).filterMap f = l.filterMap f ++ (f a).toList := by
  rw [List.filterMap_append]
  cases h : f a <;> simp [h]

namespace Backlog

/-! ## Traces -/

/-- How the builders in line go on with one entry of the log. -/
inductive Change (backlog : Backlog) : Action → Backlog → Prop
  /-- Edits are carried out.  Only the topic of the report matters here. -/
  | edited {p size : Nat} {edits : List Edit} {report report' : EditReport} {backlog' : Backlog}
      (hm : Mutation backlog size edits (.ok (report', backlog')))
      (ht : report.topic = report'.topic) : Change backlog (.mutated p edits report) backlog'
  /-- Requests are scrubbed. -/
  | scrubbed (rs : List RequestId) : Change backlog (.scrubbed rs) (backlog.scrub rs)
  /-- The first builder is taken. -/
  | dequeued {b : Builder} {rest : List Builder} (hb : backlog.builders = b :: rest) :
      Change backlog (.dequeued b) { backlog with builders := rest }
  /-- The first builder is thrown away. -/
  | discarded {b : Builder} {rest : List Builder} (hb : backlog.builders = b :: rest) :
      Change backlog (.discarded b) { backlog with builders := rest }
  /-- The entry is about something else. -/
  | other {a : Action} (ha : a.isOfBacklog = false) : Change backlog a backlog

/-- How the builders in line go on with a list of entries. -/
inductive Trace (backlog : Backlog) : List Action → Backlog → Prop
  /-- Nothing happens. -/
  | nil : Trace backlog [] backlog
  /-- One entry follows. -/
  | concat {log : List Action} {a : Action} {backlog' backlog'' : Backlog}
      (t : Trace backlog log backlog') (c : Change backlog' a backlog'') :
      Trace backlog (log ++ [a]) backlog''

namespace Trace

variable {backlog backlog' backlog'' : Backlog} {log log' : List Action}

theorem append (t : Trace backlog log backlog') (t' : Trace backlog' log' backlog'') :
    Trace backlog (log ++ log') backlog'' := by
  induction t' with
  | nil => simpa using t
  | concat t' c ih =>
    rw [← List.append_assoc]
    exact ih.concat c

theorem of_change {a : Action} (c : Change backlog a backlog') : Trace backlog [a] backlog' :=
  Trace.nil.concat c

theorem cons {a : Action} (c : Change backlog a backlog') (t : Trace backlog' log backlog'') :
    Trace backlog (a :: log) backlog'' :=
  (of_change c).append t

/-- A trace can be cut between any two entries. -/
theorem split (t : Trace backlog (log ++ log') backlog'') :
    ∃ backlog', Trace backlog log backlog' ∧ Trace backlog' log' backlog'' := by
  generalize hall : log ++ log' = all at t
  induction t generalizing log' with
  | nil =>
    obtain ⟨rfl, rfl⟩ := List.append_eq_nil_iff.mp hall
    exact ⟨_, .nil, .nil⟩
  | @concat all a backlog' backlog'' t c ih =>
    rcases List.eq_nil_or_concat log' with rfl | ⟨front, a', rfl⟩
    · rw [List.append_nil] at hall
      rw [hall]
      exact ⟨_, t.concat c, .nil⟩
    · rw [List.concat_eq_append, ← List.append_assoc] at hall
      obtain ⟨hfront, ha⟩ := List.append_inj' hall rfl
      obtain ⟨middle, hleft, hright⟩ := ih hfront
      cases ha
      refine ⟨middle, hleft, ?_⟩
      rw [List.concat_eq_append]
      exact hright.concat c

theorem eq_of_nil (t : Trace backlog [] backlog') : backlog' = backlog := by
  generalize hlog : ([] : List Action) = log at t
  cases t with
  | nil => rfl
  | concat t c => exact absurd hlog.symm (by simp)

/-- The first entry of a trace is a change. -/
theorem uncons {a : Action} (t : Trace backlog (a :: log) backlog'') :
    ∃ backlog', Change backlog a backlog' ∧ Trace backlog' log backlog'' := by
  obtain ⟨backlog', hfirst, hrest⟩ : ∃ backlog', Trace backlog [a] backlog' ∧
      Trace backlog' log backlog'' := split t
  generalize hone : [a] = one at hfirst
  cases hfirst with
  | nil => cases hone
  | @concat front a' middle _ t c =>
    have hboth : [] ++ [a] = front ++ [a'] := hone
    obtain ⟨hfront, ha⟩ := List.append_inj' hboth rfl
    rw [← hfront] at t
    rw [t.eq_of_nil] at c
    cases ha
    exact ⟨backlog', c, hrest⟩

/-- Entries about other things leave the backlog as it is. -/
theorem of_other (backlog : Backlog) (h : ∀ a ∈ log, a.isOfBacklog = false) :
    Trace backlog log backlog := by
  induction log with
  | nil => exact .nil
  | cons a rest ih =>
    obtain ⟨ha, hrest⟩ := List.forall_mem_cons.mp h
    exact cons (.other ha) (ih hrest)

/-- All builders are thrown away, the first one first. -/
theorem discards (backlog : Backlog) :
    Trace backlog (backlog.builders.map .discarded) { backlog with builders := [] } := by
  obtain ⟨builders, nextTopic, closed⟩ := backlog
  induction builders with
  | nil => exact .nil
  | cons b rest ih => exact cons (.discarded rfl) ih

end Trace

/-! ## Cuts between edits -/

/-- The edits of a producer change the builders in line one after the other. -/
theorem Change.cut {p : Nat} {e₁ e₂ : List Edit} {report : EditReport}
    {backlog backlog'' : Backlog} (c : Change backlog (.mutated p (e₁ ++ e₂) report) backlog'') :
    ∃ backlog', Change backlog (.mutated p e₁ report) backlog' ∧
      Change backlog' (.mutated p e₂ report) backlog'' := by
  have hboth : ∀ b : Builder, b.applyAll (e₁ ++ e₂) = (b.applyAll e₁).applyAll e₂ :=
    fun b => List.foldl_append
  -- edits that reserve nothing join the last builder whatever it holds
  have hfits : ∀ b, overflows b 0 = false := fun b => by simp [overflows]
  cases c with
  | edited hm ht =>
    cases hm with
    | @join front b hb hfit =>
      refine ⟨{ backlog with builders := front ++ [b.applyAll e₁] }, .edited (.join hb hfit) ht, ?_⟩
      rw [hboth]
      exact .edited (.join rfl (hfits _)) (ht.trans (b.applyAll_topic e₁).symm)
    | @begin t hnew hopen =>
      refine ⟨_, .edited (.begin hnew hopen) ht, ?_⟩
      rw [hboth]
      exact .edited (.join rfl (hfits _))
        (ht.trans (Builder.applyAll_topic { topic := t } e₁).symm)
  | other ha => cases ha

end Backlog

/-- The log falls into these two parts, with the edits of one producer on both sides of the cut. -/
def Cut (log past future : List Action) : Prop :=
  ∃ before p e₁ e₂ report post, log = before ++ .mutated p (e₁ ++ e₂) report :: post ∧
    past = before ++ [.mutated p e₁ report] ∧ future = .mutated p e₂ report :: post

namespace Backlog

/-- A trace can be cut between any two edits. -/
theorem Trace.cut {backlog backlog'' : Backlog} {log past future : List Action}
    (t : Trace backlog log backlog'') (h : Cut log past future) :
    ∃ backlog', Trace backlog past backlog' ∧ Trace backlog' future backlog'' := by
  obtain ⟨before, p, e₁, e₂, report, post, rfl, rfl, rfl⟩ := h
  obtain ⟨middle, hbefore, hafter⟩ := t.split
  obtain ⟨middle', hchange, hpost⟩ := hafter.uncons
  obtain ⟨backlog', hfirst, hsecond⟩ := hchange.cut
  exact ⟨backlog', hbefore.concat hfirst, .cons hsecond hpost⟩

/-! ## The line -/

/-- The builders in line and the next topic, whether or not changes are accepted. -/
def line (backlog : Backlog) : Backlog := { backlog with closed := false }

theorem Mutation.line {backlog backlog' : Backlog} {size : Nat} {edits : List Edit}
    {report : EditReport} (h : Mutation backlog size edits (.ok (report, backlog'))) :
    Mutation backlog.line size edits (.ok (report, backlog'.line)) := by
  cases h with
  | join hb hfit => exact .join (q := backlog.line) hb hfit
  | begin hnew ht => exact .begin (q := backlog.line) hnew ht

end Backlog

namespace Queue

open Backlog (Trace)

variable {others : Sink → Prop} {start q q' : Queue}

/-! ## Acts -/

theorem Receipt.isOfBacklog {n : Nat} {receipt : List Action} (h : Receipt n receipt) :
    ∀ a ∈ receipt, a.isOfBacklog = false :=
  fun a ha => Action.isOfBacklog_of_isQuiet (h.isQuiet a ha)

/-- A failure scrubs the requests of the message. -/
theorem trace_failureEntries (backlog : Backlog) {d : Finished} {cause : QueueError} {n : Nat}
    {purge back : List Action} {m m' : Nat} (hpurge : Receipt m purge) (hback : Receipt m' back) :
    Trace backlog (failureEntries d cause n purge back) (backlog.scrub d.requests) := by
  have hstreams : Trace backlog ((streamsInOrder d).map .streamClosed) backlog := by
    refine .of_other _ ?_
    intro a ha
    obtain ⟨s, -, rfl⟩ := List.mem_map.mp ha
    rfl
  refine hstreams.append (.cons (.scrubbed _) (.of_other _ ?_))
  intro a ha
  simp only [List.mem_append, List.mem_cons, List.not_mem_nil, or_false] at ha
  rcases ha with ha | rfl | ha | rfl
  · exact hpurge.isOfBacklog a ha
  · rfl
  · exact hback.isOfBacklog a ha
  · rfl

theorem trace_subscribed (backlog : Backlog) (d : Finished) :
    Trace backlog (d.sinks.map (.subscribed d.topic)) backlog := by
  refine .of_other _ ?_
  intro a ha
  obtain ⟨s, -, rfl⟩ := List.mem_map.mp ha
  rfl

/-- The entries of an act retrace the backlog. -/
theorem Act.trace {entries : List Action} (a : Act others q entries q') :
    Trace q.backlog.line entries q'.backlog.line := by
  cases a with
  | aside he hs hc hr => exact .of_other _ fun a ha => Action.isOfBacklog_of_isQuiet (he a ha)
  | attached ho => exact .nil
  | departed ho => exact .nil
  | edited hc hm => exact .of_change (.edited hm.line rfl)
  | scrubbed hr => exact .cons (.scrubbed _) (.of_other _ hr.isOfBacklog)
  | launched hw hr => exact .nil
  | dropped hw => exact .discards q.backlog.line
  | started hw => exact .of_change (.other rfl)
  | @skipped sender token b rest hw hb hf =>
    have hline : q.backlog.line.builders = b :: rest := hb
    exact .of_change (.dequeued hline)
  | @announced sender token b rest d bus post n entries hw hs hb hf hp he =>
    subst he
    have hline : q.backlog.line.builders = b :: rest := hb
    refine .cons (.dequeued hline) ?_
    refine (trace_subscribed _ d).append (.of_other _ ?_)
    intro a ha
    simp only [List.mem_cons, List.not_mem_nil, or_false] at ha
    rcases ha with rfl | rfl
    · rfl
    · cases sender <;> rfl
  | opened hw => exact .cons (.other rfl) (.of_change (.other rfl))
  | @sent d pool bus post n back entries hw hback hp he =>
    subst he
    refine .of_other _ ?_
    exact forall_mem_completion hback (fun _ => Action.isOfBacklog_of_isQuiet) rfl rfl rfl
  | interrupted hw hcause he =>
    refine .of_other _ ?_
    rcases he with rfl | ⟨e, rfl⟩
    · simp [Action.isOfBacklog]
    · simp [Action.isOfBacklog]
  | failed hw hpurge hback hp he =>
    subst he
    exact trace_failureEntries q.backlog.line hpurge hback
  | @drained sender b rest d pool bus post n purge back entries hw hs hb hf hpurge hback hp he =>
    subst he
    have hline : q.backlog.line.builders = b :: rest := hb
    refine .cons (.dequeued hline) ?_
    exact (trace_subscribed _ d).append (trace_failureEntries _ hpurge hback)
  | emptied hw hs hb =>
    have hline : q.backlog.close.line = q.backlog.line := by
      simp [Backlog.line, Backlog.close, hb]
    rw [hline]
    exact .nil
  | parted hw hend => exact .of_change (.other rfl)
  | ended hw =>
    refine (Trace.discards q.backlog.line).append (.of_other _ ?_)
    simp [Action.isOfBacklog]

/-- **The log retraces the backlog.** -/
theorem Path.trace (h : Path others start q) :
    ∃ log, q.log = start.log ++ log ∧ Trace start.backlog.line log q.backlog.line := by
  refine h.invariant (I := fun q => ∃ log, q.log = start.log ++ log ∧
    Trace start.backlog.line log q.backlog.line) ⟨[], by simp, .nil⟩ ?_
  rintro q q' entries a ⟨log, hlog, t⟩
  refine ⟨log ++ entries, ?_, t.append a.trace⟩
  rw [a.log_eq, hlog, List.append_assoc]

/-- The log of a queue that was new retraces its backlog from the start. -/
theorem IsNew.trace (hnew : start.IsNew) (h : Path others start q) :
    Trace start.backlog.line q.log q.backlog.line := by
  obtain ⟨log, hlog, t⟩ := h.trace
  rw [hnew.log_eq, List.nil_append] at hlog
  rwa [hlog]

end Queue

end Outbox
