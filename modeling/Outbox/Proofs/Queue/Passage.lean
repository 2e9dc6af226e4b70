import Outbox.Proofs.Message.Room
import Outbox.Proofs.Queue.Chapters
import Outbox.Proofs.Queue.Groups
import Outbox.Proofs.Queue.Outcome

/-!
# A queue drives its backlog

Whatever happens to a queue, its backlog only goes through moves of its own: edits are carried out
with the size that was announced for them, builders are taken and requests scrubbed, and at the end
the line is closed.  The log tells which edits were carried out and which builders were taken.  So
what is proved of runs of a backlog holds of the backlog of every queue.

* `Queue.asked?` — the edits that a move asks to be carried out, and the size announced for them;
* `Queue.Passage` — the moves of the backlog that happen meanwhile;
* `Queue.Passes` — edits are carried out only as a condition on them allows;
* `Queue.step_passes`, `Queue.run_passage` — every move, and so every run, drives the backlog.
-/

namespace Outbox

theorem Action.silent_of_isOfBacklog {a : Action} (h : a.isOfBacklog = false) :
    a.carriedOut? = none ∧ a.taken? = none := by
  cases a <;> first | exact ⟨rfl, rfl⟩ | cases h

/-- What becomes of edits is determined. -/
theorem Backlog.Mutation.mutate_eq {backlog : Backlog} {size : Nat} {edits : List Edit}
    {result : Except QueueError (EditReport × Backlog)}
    (h : Mutation backlog size edits result) : backlog.mutate size edits = result := by
  cases h with
  | @join front b hb hfit =>
    have hjoined : backlog.joined? size = some b := by
      rw [joined?, hb, List.getLast?_append, List.getLast?_singleton, Option.some_or,
        Option.filter_some, if_pos (by simpa using hfit)]
    rw [mutate, hjoined, hb, List.dropLast_concat]
  | begin hnew ht =>
    rw [beginsNew, Option.isNone_iff_eq_none] at hnew
    rw [mutate, hnew, ht]
  | exhausted hnew ht =>
    rw [beginsNew, Option.isNone_iff_eq_none] at hnew
    rw [mutate, hnew, ht]

namespace Queue

variable {P : Nat → List Edit → Prop} {q q' q'' : Queue} {m : Move} {t : Ticket} {size : Nat}
  {edits : List Edit}

/-- The edits carried out so far, with the topics that they went to. -/
def carriedOut (q : Queue) : List (Topic × List Edit) := q.log.filterMap Action.carriedOut?

/-- The edits that a move asks to be carried out, and the size announced for them. -/
def asked? (q : Queue) : Move → Option (Nat × List Edit)
  | .reserve _ size edits => some (size, edits)
  | .resume t edits => (q.waitingSize? t).map (·, edits)
  | _ => none

/-- The backlog goes through these moves, and the log tells of them. -/
structure Passage (q : Queue) (moves : List BacklogMove) (q' : Queue) : Prop where
  /-- The backlog goes through the moves. -/
  backlog : q'.backlog = q.backlog.run moves
  /-- The edits carried out are written down. -/
  carriedOut : q'.carriedOut = q.carriedOut ++ q.backlog.carriedOut moves
  /-- So are the builders taken. -/
  taken : q'.taken = q.taken ++ q.backlog.popped moves

theorem Passage.trans {moves moves' : List BacklogMove} (h : Passage q moves q')
    (h' : Passage q' moves' q'') : Passage q (moves ++ moves') q'' where
  backlog := by rw [Backlog.run_append, ← h.backlog, h'.backlog]
  carriedOut := by
    rw [Backlog.carriedOut_append, ← h.backlog, ← List.append_assoc, ← h.carriedOut, h'.carriedOut]
  taken := by rw [Backlog.popped_append, ← h.backlog, ← List.append_assoc, ← h.taken, h'.taken]

/-- Entries that are not about the backlog tell of no builder that is taken. -/
theorem taken_of_silent {entries : List Action} (hlog : q'.log = q.log ++ entries)
    (he : ∀ a ∈ entries, a.isOfBacklog = false) : q'.taken = q.taken := by
  have htaken : entries.filterMap Action.taken? = [] :=
    List.filterMap_eq_nil_iff.mpr fun a ha => (Action.silent_of_isOfBacklog (he a ha)).2
  rw [taken_eq_filterMap, taken_eq_filterMap, hlog, List.filterMap_append, htaken,
    List.append_nil]

/-- Nothing happens to the backlog. -/
theorem Passage.aside {entries : List Action} (hbacklog : q'.backlog = q.backlog)
    (hlog : q'.log = q.log ++ entries) (he : ∀ a ∈ entries, a.isOfBacklog = false) :
    Passage q [] q' where
  backlog := hbacklog
  carriedOut := by
    have hcarried : entries.filterMap Action.carriedOut? = [] :=
      List.filterMap_eq_nil_iff.mpr fun a ha => (Action.silent_of_isOfBacklog (he a ha)).1
    rw [Queue.carriedOut, hlog, List.filterMap_append, hcarried]
    rfl
  taken := (taken_of_silent hlog he).trans (List.append_nil _).symm

theorem Passage.still (hbacklog : q'.backlog = q.backlog) (hlog : q'.log = q.log) :
    Passage q [] q' :=
  .aside hbacklog (hlog.trans (List.append_nil _).symm) (List.forall_mem_nil _)

theorem Passage.note (q : Queue) {a : Action} (h : a.isOfBacklog = false) :
    Passage q [] (q.note a) :=
  .aside rfl rfl (List.forall_mem_singleton.mpr h)

/-- One move of the backlog is made, and one entry tells of it. -/
theorem Passage.of_move {move : BacklogMove} {a : Action}
    (hbacklog : q'.backlog = q.backlog.step move) (hlog : q'.log = q.log ++ [a])
    (hc : a.carriedOut? = q.backlog.carriedOut? move) (ht : a.taken? = q.backlog.popped? move) :
    Passage q [move] q' where
  backlog := hbacklog
  carriedOut := by
    rw [Queue.carriedOut, hlog, filterMap_concat, hc, Backlog.carriedOut, Backlog.carriedOut,
      List.append_nil]
    rfl
  taken := by
    rw [taken_eq_filterMap, taken_eq_filterMap, hlog, filterMap_concat, ht, Backlog.popped,
      Backlog.popped, List.append_nil]

/-- The backlog goes through moves of its own; what edits are carried out is under a condition. -/
def Passes (P : Nat → List Edit → Prop) (q q' : Queue) : Prop :=
  ∃ moves, Passage q moves q' ∧ ∀ size edits, .mutate size edits ∈ moves → P size edits

namespace Passes

theorem trans (h : Passes P q q') (h' : Passes P q' q'') : Passes P q q'' := by
  obtain ⟨moves, hpassage, hmoves⟩ := h
  obtain ⟨moves', hpassage', hmoves'⟩ := h'
  refine ⟨moves ++ moves', hpassage.trans hpassage', fun size edits hmem => ?_⟩
  rcases List.mem_append.mp hmem with hmem | hmem
  · exact hmoves size edits hmem
  · exact hmoves' size edits hmem

theorem aside {entries : List Action} (hbacklog : q'.backlog = q.backlog)
    (hlog : q'.log = q.log ++ entries) (he : ∀ a ∈ entries, a.isOfBacklog = false) :
    Passes P q q' :=
  ⟨[], .aside hbacklog hlog he, fun _ _ hmem => nomatch hmem⟩

theorem still (hbacklog : q'.backlog = q.backlog) (hlog : q'.log = q.log) : Passes P q q' :=
  ⟨[], .still hbacklog hlog, fun _ _ hmem => nomatch hmem⟩

theorem refl (q : Queue) : Passes P q q := still rfl rfl

theorem note (q : Queue) {a : Action} (h : a.isOfBacklog = false) : Passes P q (q.note a) :=
  ⟨[], .note q h, fun _ _ hmem => nomatch hmem⟩

theorem release (q : Queue) (n : Nat) : Passes P q (q.release n) := by
  obtain ⟨pool, receipt, hreceipt, heq⟩ := release_eq q n
  rw [heq]
  exact aside rfl rfl hreceipt.isOfBacklog

theorem of_move {move : BacklogMove} {a : Action} (hbacklog : q'.backlog = q.backlog.step move)
    (hlog : q'.log = q.log ++ [a]) (hc : a.carriedOut? = q.backlog.carriedOut? move)
    (ht : a.taken? = q.backlog.popped? move)
    (hP : ∀ size edits, move = .mutate size edits → P size edits) : Passes P q q' :=
  ⟨[move], .of_move hbacklog hlog hc ht,
    fun size edits hmem => hP size edits (List.mem_singleton.mp hmem).symm⟩

end Passes

/-! ## Turns of producers -/

/-- As long as the backlog is open, a producer's edits are a move of it, be it that no topic is left
for them. -/
theorem mutate_passage (hopen : q.backlog.closed = false) (p size : Nat) (edits : List Edit) :
    Passage q [.mutate size edits] (q.mutate p size edits) := by
  have he := mutate_editing q p size edits
  generalize q.mutate p size edits = q' at he
  cases he with
  | refused hr =>
    obtain ⟨hnew, ht⟩ := hr.resolve_left (by simp [hopen])
    have hm : Backlog.Mutation q.backlog size edits (.error .topicsExhausted) :=
      .exhausted hnew ht
    have hmutate := hm.mutate_eq
    obtain ⟨pool, receipt, hreceipt, heq⟩ := release_eq q size
    have hback : Passage q [] (q.release size) := by
      rw [heq]
      exact .aside rfl rfl hreceipt.isOfBacklog
    have haside : Passage q [] ((q.release size).note (.skipped p)) :=
      hback.trans (.note _ rfl)
    refine ⟨haside.backlog.trans ?_, haside.carriedOut.trans ?_, haside.taken⟩
    · simp [Backlog.step, hmutate]
    · simp [Backlog.carriedOut, Backlog.carriedOut?, hmutate, Except.toOption]
  | done hc hm =>
    have hmutate := hm.mutate_eq
    refine .of_move ?_ rfl ?_ rfl
    · simp [Backlog.step, hmutate, Queue.note]
    · simp [Backlog.carriedOut?, hmutate, Except.toOption, Action.carriedOut?]

theorem mutate_passes (q : Queue) (p : Nat) (hP : P size edits) :
    Passes P q (q.mutate p size edits) := by
  by_cases hc : q.backlog.closed = true
  · rw [mutate_of_closed hc]
    exact (Passes.release q size).trans (.note _ rfl)
  · refine ⟨_, mutate_passage (by simpa using hc) p size edits, fun size' edits' hmem => ?_⟩
    cases List.mem_singleton.mp hmem
    exact hP

theorem answer_passes (q : Queue) (t : Ticket) (hP : P size edits) (grant : Grant) :
    Passes P q (q.answer t size edits grant) := by
  cases grant with
  | granted => exact (Passes.note q rfl).trans (mutate_passes _ t hP)
  | refused e => exact (Passes.note q rfl).trans (.note _ (a := .skipped t) rfl)

theorem Arrival.passes (a : Arrival q t size edits q') (hP : P size edits) : Passes P q q' := by
  have hasked : Passes P q (q.ask t size) :=
    .aside rfl rfl (List.forall_mem_singleton.mpr rfl)
  cases a with
  | free hs => exact mutate_passes q t (hs ▸ hP)
  | callOff hs hc => exact .note q rfl
  | @answered grant pool hs hc ha =>
    have hread : Passes P (q.ask t size) { q.ask t size with pool } := .still rfl rfl
    exact (hasked.trans hread).trans (answer_passes _ t hP grant)
  | wait hs hc ha => exact hasked.trans (.still rfl rfl)

theorem Return.passes (r : Return q t edits q')
    (hP : ∀ size, q.waitingSize? t = some size → P size edits) : Passes P q q' := by
  cases r with
  | unknown hw => exact .refl q
  | callOff hw hc =>
    have hleft : Passes P q ({ q with pool := q.pool.abandon t }.forgetProducer t) :=
      .still rfl rfl
    exact hleft.trans (.note _ rfl)
  | @answered size grant pool hw hc ha =>
    have hread : Passes P q ({ q with pool }.forgetProducer t) := .still rfl rfl
    exact hread.trans (answer_passes _ t (hP size hw) grant)
  | wait hw hc ha => exact .refl q

/-! ## Turns of the worker -/

theorem passes_publish (q : Queue) (t : Topic) (e : Event) : Passes P q (q.publish t e) :=
  .aside rfl rfl (List.forall_mem_singleton.mpr rfl)

theorem passes_closeTopic (q : Queue) (t : Topic) : Passes P q (q.closeTopic t) :=
  .aside rfl rfl (List.forall_mem_singleton.mpr rfl)

theorem passes_subscribeAll (q : Queue) (d : Finished) : Passes P q (q.subscribeAll d) := by
  rw [subscribeAll_eq]
  exact .aside rfl rfl (by simp [Action.isOfBacklog])

theorem passes_withoutHead {b : Builder} {rest : List Builder}
    (hb : q.backlog.builders = b :: rest) : Passes P q (q.withoutHead b rest) := by
  have hpop : q.backlog.pop? = some (b, { q.backlog with builders := rest }) := by
    rw [Backlog.pop?, hb]
  have hbacklog : (q.withoutHead b rest).backlog = q.backlog.step .pop := by
    simp [Backlog.step, hpop, withoutHead, Queue.note]
  refine Passes.of_move hbacklog rfl rfl ?_ (by rintro _ _ ⟨⟩)
  rw [Backlog.popped?, hpop]
  rfl

theorem passes_closeBacklog (q : Queue) : Passes P q q.closeBacklog := by
  have hsilent {α : Type} (f : Action → Option α) (h : ∀ b, f (.discarded b) = none) :
      (q.backlog.builders.map Action.discarded).filterMap f = [] := by
    rw [List.filterMap_map]
    exact List.filterMap_eq_nil_iff.mpr fun b _ => h b
  refine ⟨[.close], ⟨rfl, ?_, ?_⟩, fun size edits hmem => ?_⟩
  · rw [carriedOut, closeBacklog, List.filterMap_append, hsilent _ fun _ => rfl]
    rfl
  · rw [taken_eq_filterMap, taken_eq_filterMap, closeBacklog, List.filterMap_append,
      hsilent _ fun _ => rfl]
    rfl
  · cases List.mem_singleton.mp hmem

theorem passes_scrub (q : Queue) (rs : List RequestId) : Passes P q (q.scrub rs) := by
  have hbacklog : q.backlog.scrub rs = q.backlog.step (.scrub rs) := rfl
  have hscrubbed : Passes P q ({ q with backlog := q.backlog.scrub rs }.note (.scrubbed rs)) :=
    Passes.of_move hbacklog rfl rfl rfl (by rintro _ _ ⟨⟩)
  exact hscrubbed.trans (.release _ _)

theorem passes_fail (q : Queue) (d : Finished) (cause : QueueError) :
    Passes P q (q.fail d cause) := by
  have hstreams : Passes P q (q.closeStreams d) := by
    rw [closeStreams_eq]
    exact .aside rfl rfl (by simp [Action.isOfBacklog])
  exact ((hstreams.trans (passes_scrub _ _)).trans (passes_publish _ _ _)).trans (.release _ _)

theorem passes_failDelivery (q : Queue) (d : Finished) (cause : QueueError) :
    Passes P q (q.failDelivery d cause) := by
  have hclosed : Passes P q ((q.fail d cause).closeTopic d.topic) :=
    (passes_fail q d cause).trans (passes_closeTopic _ _)
  exact hclosed.trans (.still rfl rfl)

theorem passes_teardown (q : Queue) : Passes P q q.teardown := by
  have hlog : q.teardown.log = q.closeBacklog.log ++ [.releasePeer q.peer, .busStopped] := by
    simp [teardown, closeBacklog, Queue.note]
  exact (passes_closeBacklog q).trans (.aside rfl hlog (by simp [Action.isOfBacklog]))

theorem passes_leave (q : Queue) (sender : Bool) : Passes P q (q.leave sender) := by
  cases sender with
  | true => exact .aside rfl rfl (List.forall_mem_singleton.mpr rfl)
  | false => exact passes_teardown q

theorem passes_beginDelivery (q : Queue) (d : Finished) (sender : Bool) :
    Passes P q (q.beginDelivery d sender) := by
  have hannounced : Passes P q ((q.subscribeAll d).publish d.topic ⟨.queued, d.metadata⟩) :=
    (passes_subscribeAll q d).trans (passes_publish _ _ _)
  unfold beginDelivery
  cases sender
  all_goals exact hannounced.trans (.aside rfl rfl (List.forall_mem_singleton.mpr rfl))

theorem Drains.passes (t : Drains q q') : Passes P q q' := by
  induction t with
  | done hb => exact passes_closeBacklog _
  | skip hb hf t ih => exact (passes_withoutHead hb).trans ih
  | @report q q' b rest d hb hf t ih =>
    have hfailed : Passes P q (((q.withoutHead b rest).subscribeAll d).fail d .shutdown) :=
      ((passes_withoutHead hb).trans (passes_subscribeAll _ d)).trans (passes_fail _ _ _)
    exact (hfailed.trans (passes_closeTopic _ d.topic)).trans ih

theorem Choice.passes {sender : Bool} (t : Choice sender q q') : Passes P q q' := by
  have hhead {b : Builder} {rest : List Builder} (hb : q.backlog.builders = b :: rest) :
      Passes P q (q.takeHead b rest) := (passes_withoutHead hb).trans (.still rfl rfl)
  cases t with
  | callOff hc => exact passes_leave q sender
  | stop hc hs t =>
    have htoken : Passes P q { q with token := false } := .still rfl rfl
    exact (htoken.trans t.passes).trans (passes_leave _ sender)
  | rest hc hs ht => exact .still rfl rfl
  | idle hc hs ht hb => exact .still rfl rfl
  | skip hc hs ht hb hf => exact (hhead hb).trans (.still rfl rfl)
  | deliver hc hs ht hb hf => exact (hhead hb).trans (passes_beginDelivery _ _ sender)

theorem Turn.passes (t : Turn q q') : Passes P q q' := by
  cases t with
  | wait => exact .refl q
  | start hw t =>
    have hbus : Passes P q q.openBus := .aside rfl rfl (List.forall_mem_singleton.mpr rfl)
    exact hbus.trans t.passes
  | choose hw t => exact t.passes
  | callOffOpen hw hc => exact passes_failDelivery q _ _
  | opened hw hc =>
    refine (Passes.note q (a := .opened) rfl).trans ?_
    exact .aside rfl rfl (List.forall_mem_singleton.mpr rfl)
  | openFailed hw hc e => exact passes_failDelivery q _ _
  | callOffSend hw hc => exact .aside rfl rfl (List.forall_mem_singleton.mpr rfl)
  | @sent d hw hc =>
    have hout : Passes P q ((q.note .sendOk).publish d.topic ⟨.sent, d.metadata⟩) :=
      (Passes.note q rfl).trans (passes_publish _ _ _)
    have hback := (hout.trans (.release _ d.size)).trans (passes_closeTopic _ d.topic)
    exact hback.trans (.still rfl rfl)
  | sendFailed hw hc e =>
    refine (Passes.note q (a := .sendFailed e) rfl).trans ?_
    exact .aside rfl rfl (List.forall_mem_singleton.mpr rfl)
  | resetDone hw => exact passes_failDelivery q _ _
  | part hw => exact passes_teardown q

/-! ## Moves and runs -/

theorem run_append (q : Queue) (moves moves' : List Move) :
    q.run (moves ++ moves') = (q.run moves).run moves' := List.foldl_append

/-- Every move drives the backlog through moves of its own, and the edits carried out are those it
asks for, with the size that was announced for them. -/
theorem step_passes (q : Queue) (m : Move) (hP : ∀ x ∈ q.asked? m, P x.1 x.2) :
    Passes P q (q.step m) := by
  have c := step_outcome q m
  generalize q.step m = q' at c
  cases c with
  | refused _ => exact .refl q
  | arrived hr ht => exact (reserve_arrival q _ _ _).passes (hP _ rfl)
  | @returned t edits =>
    refine (resume_return q t edits).passes fun size hw => hP (size, edits) ?_
    rw [asked?, hw]
    rfl
  | abandoned =>
    unfold Queue.abandon
    split <;> exact .still rfl rfl
  | launched hr hw => exact .still rfl rfl
  | scrubbed hr => exact passes_scrub q _
  | worked => exact (work_turn q _).passes
  | dropped hr hw hp =>
    have hasked : Passes P q { q with reachable := false, stopRequested := true } := .still rfl rfl
    exact hasked.trans (passes_closeBacklog _)
  | shared ho hk => exact .still rfl rfl
  | withheld => exact .still rfl rfl
  | aside hproducer hr hs hc => exact .still rfl rfl

/-- **A queue drives its backlog.**  In every run the backlog goes through moves of its own, and the
edits carried out are those that were asked for. -/
theorem run_passage {moves : List Move}
    (h : q.Along (fun q m => ∀ x ∈ q.asked? m, P x.1 x.2) moves) :
    Passes P q (q.run moves) := by
  induction moves generalizing q with
  | nil => exact .refl q
  | cons m rest ih => exact (step_passes q m h.1).trans (ih h.2)

end Queue

end Outbox
