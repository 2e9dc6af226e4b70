import Outbox.Proofs.Message.Batches
import Outbox.Proofs.Queue.Service

/-!
# Batching follows its rule

Before the worker of a queue is started, producers put their edits together.  Whatever the order in
which their memory is granted, the builders in line then have the sizes that the batching rule makes
of the sizes alone; and once the worker is started and the network does its part, the messages of
these builders are sent in their order, and no others.

* `Queue.granted?`, `Queue.granted` — the edits for which memory is granted;
* `Queue.Idle`, `Queue.Idle.run` — until the worker is started, just these edits are carried out;
* `Queue.granted_of_unlimited` — with a pool without limits that is every list of edits;
* `Queue.FollowsRule` — what a queue has to satisfy;
* `Queue.batching_follows_rule` — every new queue satisfies it.
-/

namespace Outbox

/-- It is a turn of a producer, or something happens around the queue. -/
def Move.isPreparation : Move → Bool
  | reserve .. => true
  | resume .. => true
  | m => m.isAround

/-- The edits, if the answer to the request for their bytes is a grant. -/
def Grant.pass : Grant → Nat → List Edit → Option (Nat × List Edit)
  | granted, size, edits => some (size, edits)
  | refused _, _, _ => none

namespace Queue

variable {len : Link → Nat} {start q q' : Queue} {m : Move} {before after : List Move}

/-! ## Edits for which memory is granted -/

/-- The edits with which a producer comes or comes back, and the bytes announced for them, if memory
for them is granted or none is needed. -/
def granted? (q : Queue) : Move → Option (Nat × List Edit)
  | .reserve t size edits =>
    if q.reachable && !q.isTaken t then
      if size = 0 then some (size, edits)
      else if q.cancelled then none
      else ((q.ask t size).pool.take? t).bind fun a => a.1.pass size edits
    else none
  | .resume t edits =>
    if q.cancelled then none
    else (q.waitingSize? t).bind fun size => (q.pool.take? t).bind fun a => a.1.pass size edits
  | _ => none

/-- The edits of a run for which memory is granted, in the order in which it is. -/
def granted (q : Queue) (moves : List Move) : List (Nat × List Edit) :=
  q.collectAlong (fun q m => (q.granted? m).toList) moves

/-- Edits that are carried out one after the other. -/
def changes (edits : List (Nat × List Edit)) : List BacklogMove :=
  edits.map fun c => .mutate c.1 c.2

/-- The worker was not started, and nothing keeps producers from their work. -/
structure Idle (q : Queue) : Prop where
  /-- The worker was not started. -/
  worker : q.worker = .unstarted
  /-- The queue can be reached. -/
  reachable : q.reachable = true
  /-- Nothing was called off. -/
  cancelled : q.cancelled = false
  /-- Nobody asked the worker to stop. -/
  stop : q.stopRequested = false
  /-- The backlog accepts edits. -/
  opened : q.backlog.closed = false

theorem IsNew.idle (h : q.IsNew) : q.Idle where
  worker := h.worker_eq
  reachable := congrArg (·.reachable) h
  cancelled := congrArg (·.cancelled) h
  stop := congrArg (·.stopRequested) h
  opened := congrArg (·.backlog.closed) h

namespace Idle

theorem mutate (h : q.Idle) (p size : Nat) (edits : List Edit) :
    (q.mutate p size edits).Idle ∧ Passage q (changes [(size, edits)]) (q.mutate p size edits) := by
  refine ⟨?_, mutate_passage h.opened p size edits⟩
  have he := mutate_editing q p size edits
  generalize q.mutate p size edits = q' at he
  cases he with
  | refused hr =>
    obtain ⟨pool, receipt, -, heq⟩ := release_eq q size
    rw [heq]
    exact ⟨h.worker, h.reachable, h.cancelled, h.stop, h.opened⟩
  | done hc hm =>
    refine ⟨h.worker, h.reachable, h.cancelled, h.stop, ?_⟩
    cases hm with
    | join hb hfit => exact hc
    | begin hnew ht => exact hc

/-- Nothing but the log, the pool and the producers that wait has changed. -/
theorem aside (h : q.Idle) (pool : Pool) (producers : List Producer) (log : List Action) :
    Idle { q with pool, producers, log } :=
  ⟨h.worker, h.reachable, h.cancelled, h.stop, h.opened⟩

/-- An answer to a producer is followed by its edits if it is a grant. -/
theorem answer (h : q.Idle) (t : Ticket) (size : Nat) (edits : List Edit) (grant : Grant) :
    (q.answer t size edits grant).Idle ∧
      Passage q (changes (grant.pass size edits).toList) (q.answer t size edits grant) := by
  cases grant with
  | granted =>
    have hnoted : Idle (q.note (.allocated t size none)) := h.aside q.pool q.producers _
    obtain ⟨hidle, hpassage⟩ := hnoted.mutate t size edits
    exact ⟨hidle, (Passage.note q rfl).trans hpassage⟩
  | refused e =>
    refine ⟨h.aside q.pool q.producers _, ?_⟩
    exact (Passage.note q (a := .allocated t size (some e)) rfl).trans (Passage.note _ rfl)

theorem arrived {t : Ticket} {size : Nat} {edits : List Edit} (h : q.Idle)
    (ht : q.isTaken t = false) (a : Arrival q t size edits q') :
    q'.Idle ∧ Passage q (changes (q.granted? (.reserve t size edits)).toList) q' := by
  have hasked : Passage q [] (q.ask t size) :=
    .aside rfl rfl (List.forall_mem_singleton.mpr rfl)
  cases a with
  | free hs =>
    subst hs
    simpa [granted?, h.reachable, ht] using h.mutate t 0 edits
  | callOff hs hc => cases h.cancelled.symm.trans hc
  | @answered grant pool hs hc ha =>
    have hidle : Idle { q.ask t size with pool } := h.aside pool q.producers _
    have hread : Passage q [] { q.ask t size with pool } := hasked.trans (.still rfl rfl)
    obtain ⟨hidle', hpassage⟩ := hidle.answer t size edits grant
    have hgranted : q.granted? (.reserve t size edits) = grant.pass size edits := by
      simp [granted?, h.reachable, ht, hs, hc, ha]
    rw [hgranted]
    exact ⟨hidle', hread.trans hpassage⟩
  | wait hs hc ha =>
    have hnone : q.granted? (.reserve t size edits) = none := by
      simp [granted?, hs, ha]
    rw [hnone]
    exact ⟨h.aside _ _ _, hasked.trans (.still rfl rfl)⟩

theorem returned {t : Ticket} {edits : List Edit} (h : q.Idle) (r : Return q t edits q') :
    q'.Idle ∧ Passage q (changes (q.granted? (.resume t edits)).toList) q' := by
  cases r with
  | unknown hw =>
    have hnone : q.granted? (.resume t edits) = none := by simp [granted?, hw]
    rw [hnone]
    exact ⟨h, .still rfl rfl⟩
  | callOff hw hc => cases h.cancelled.symm.trans hc
  | @answered size grant pool hw hc ha =>
    have hidle : Idle ({ q with pool }.forgetProducer t) := h.aside pool _ q.log
    have hread : Passage q [] ({ q with pool }.forgetProducer t) := .still rfl rfl
    obtain ⟨hidle', hpassage⟩ := hidle.answer t size edits grant
    have hgranted : q.granted? (.resume t edits) = grant.pass size edits := by
      simp [granted?, hc, hw, ha]
    rw [hgranted]
    exact ⟨hidle', hread.trans hpassage⟩
  | wait hw hc ha =>
    have hnone : q.granted? (.resume t edits) = none := by simp [granted?, hw, ha]
    rw [hnone]
    exact ⟨h, .still rfl rfl⟩

/-- Until the worker is started, every move carries out the edits for which it grants memory. -/
theorem step (h : q.Idle) (hm : m.isPreparation = true) :
    (q.step m).Idle ∧ Passage q (changes (q.granted? m).toList) (q.step m) := by
  have hcases : (∃ t size edits, m = .reserve t size edits) ∨ (∃ t edits, m = .resume t edits) ∨
      m.isAround = true ∧ q.granted? m = none := by
    cases m <;> first
      | exact .inl ⟨_, _, _, rfl⟩
      | exact .inr (.inl ⟨_, _, rfl⟩)
      | exact .inr (.inr ⟨hm, rfl⟩)
  rcases hcases with ⟨t, size, edits, rfl⟩ | ⟨t, edits, rfl⟩ | ⟨haround, hnone⟩
  · cases ht : q.isTaken t with
    | true =>
      have hnone : q.granted? (.reserve t size edits) = none := by simp [granted?, ht]
      have hsame : q.step (.reserve t size edits) = q := by simp [Queue.step, ht]
      rw [hnone, hsame]
      exact ⟨h, .still rfl rfl⟩
    | false =>
      have hstep : q.step (.reserve t size edits) = q.reserve t size edits := by
        simp [Queue.step, h.reachable, ht]
      rw [hstep]
      exact h.arrived ht (reserve_arrival q t size edits)
  · exact h.returned (resume_return q t edits)
  · obtain ⟨pool, bus, post, producers, heq⟩ := step_around q haround
    rw [hnone, heq]
    exact ⟨⟨h.worker, h.reachable, h.cancelled, h.stop, h.opened⟩, .still rfl rfl⟩

/-- Until the worker is started, a run carries out the edits for which it grants memory, in the
order in which it does. -/
theorem run (h : q.Idle) (hm : ∀ m ∈ before, m.isPreparation = true) :
    (q.run before).Idle ∧ Passage q (changes (q.granted before)) (q.run before) := by
  induction before generalizing q with
  | nil => exact ⟨h, .still rfl rfl⟩
  | cons m rest ih =>
    obtain ⟨hfirst, hrest⟩ := List.forall_mem_cons.mp hm
    obtain ⟨hidle, hpassage⟩ := h.step hfirst
    obtain ⟨hidle', hpassage'⟩ := ih hidle hrest
    refine ⟨hidle', ?_⟩
    rw [granted, collectAlong_cons, changes, List.map_append]
    exact hpassage.trans hpassage'

end Idle

/-! ## A pool without limits -/

/-- The pool has no limits, grants what is asked for and has no answer left. -/
def Free (q : Queue) : Prop :=
  q.producers = [] ∧ ∃ l : Tally, q.pool = .unlimited l ∧ l.withholding = false ∧ l.answers = []

theorem Free.mutate (h : q.Free) (p size : Nat) (edits : List Edit) :
    (q.mutate p size edits).Free := by
  have he := mutate_editing q p size edits
  generalize q.mutate p size edits = q' at he
  obtain ⟨hproducers, l, hpool, hopen, hread⟩ := h
  cases he with
  | refused hr =>
    refine ⟨(release_producers q size).trans hproducers, ?_⟩
    by_cases hs : size = 0
    · exact ⟨l, by simp [Queue.release, hs, hpool, note], hopen, hread⟩
    · exact ⟨l.release size, by simp [Queue.release, hs, hpool, Pool.release, note], hopen, hread⟩
  | done hc hm => exact ⟨hproducers, l, hpool, hopen, hread⟩

/-- A producer that comes gets what it asks for. -/
theorem Free.reserve (h : q.Free) (hidle : q.Idle) (t : Ticket) (size : Nat) (edits : List Edit) :
    q.granted? (.reserve t size edits) = some (size, edits) ∧
      (q.step (.reserve t size edits)).Free := by
  have hfree := h
  obtain ⟨hproducers, l, hpool, hopen, hread⟩ := h
  have ht : q.isTaken t = false := by
    simp [isTaken, waitingSize?, hproducers, Pool.isOpen, hpool, hread]
  have hstep : q.step (.reserve t size edits) = q.reserve t size edits := by
    simp [step, hidle.reachable, ht]
  rw [hstep]
  by_cases hs : size = 0
  · refine ⟨by simp [granted?, hidle.reachable, ht, hs], ?_⟩
    rw [Queue.reserve, if_pos hs]
    exact hfree.mutate t 0 edits
  · have htake : (q.pool.request t q.peer size).take? t =
        some (.granted, .unlimited { l with granted := l.granted ++ [size] }) := by
      simp [hpool, Pool.request, Tally.request, hopen, hread, Pool.take?, Tally.take?]
    refine ⟨by simp [granted?, hidle.reachable, hidle.cancelled, ht, hs, ask, note, htake,
      Grant.pass], ?_⟩
    rw [Queue.reserve, if_neg hs, if_neg (by simp [hidle.cancelled])]
    simp only [note, htake, answer]
    have hserved : Free { q with
        pool := .unlimited { l with granted := l.granted ++ [size] }
        log := q.log ++ [.allocate t size] ++ [.allocated t size none] } :=
      ⟨hproducers, _, rfl, hopen, hread⟩
    exact hserved.mutate t size edits

/-- A pool without limits grants whatever producers ask for, so every list of edits is granted in
some run. -/
theorem granted_of_unlimited (jobs : List (Ticket × Nat × List Edit)) (hidle : q.Idle)
    (h : q.Free) : q.granted (jobs.map fun j => .reserve j.1 j.2.1 j.2.2) = jobs.map Prod.snd := by
  induction jobs generalizing q with
  | nil => rfl
  | cons j rest ih =>
    obtain ⟨hgranted, hfree⟩ := h.reserve hidle j.1 j.2.1 j.2.2
    have hrest := ih (hidle.step rfl).1 hfree
    rw [List.map_cons, granted, collectAlong_cons, hgranted]
    exact congrArg (_ :: ·) hrest

/-! ## Every run -/

/-- The messages of the builders in line. -/
def prepared (q : Queue) : List Finished := q.backlog.builders.filterMap Builder.finish?

/-- What a queue has to satisfy whose worker is started after these moves. -/
structure FollowsRule (start : Queue) (before : List Move) : Prop where
  /-- The builders in line are the batches that the rule makes of the sizes. -/
  line : (start.run before).backlog.sizes = batches ((start.granted before).map Prod.fst)
  /-- Their messages are as large as the batches, of which those with an empty builder are left
  out. -/
  sizes : (start.run before).prepared.map Finished.size =
    (((start.run before).backlog.builders.zip
      (batches ((start.granted before).map Prod.fst))).filter fun b => !b.1.isEmpty).map Prod.snd
  /-- Just these messages are sent, in their order, while the network does not fail. -/
  order : ∀ after, (∀ m ∈ after, m.isService = true) →
    (start.run (before ++ .startup :: after)).transmitted ++
        (start.run (before ++ .startup :: after)).awaited <+:
      (start.run before).prepared.map Finished.message
  /-- All of them are sent when the worker has nothing left to do. -/
  complete : ∀ after, (∀ m ∈ after, m.isService = true) →
    (start.run (before ++ .startup :: after)).Blocked →
      (start.run (before ++ .startup :: after)).transmitted =
        (start.run before).prepared.map Finished.message
  /-- That is after three turns for each builder, and two more, if the network is prompt. -/
  prompt : ∀ n, 3 * (start.run before).backlog.builders.length + 2 ≤ n →
    (attend^[n] (start.run (before ++ [.startup]))).Blocked ∧
      (attend^[n] (start.run (before ++ [.startup]))).transmitted =
        (start.run before).prepared.map Finished.message

theorem popped_changes (backlog : Backlog) (edits : List (Nat × List Edit)) :
    backlog.popped (changes edits) = [] := by
  induction edits generalizing backlog with
  | nil => rfl
  | cons c rest ih => exact ih _

theorem filterMap_message? (builders : List Builder) : builders.filterMap Builder.message? =
    (builders.filterMap Builder.finish?).map Finished.message := by
  rw [List.map_filterMap]
  rfl

theorem sizes_prepared (q : Queue) : q.prepared.map Finished.size =
    ((q.backlog.builders.zip q.backlog.sizes).filter fun b => !b.1.isEmpty).map Prod.snd := by
  unfold prepared Backlog.sizes
  induction q.backlog.builders with
  | nil => rfl
  | cons b rest ih =>
    rw [List.map_cons, List.zip_cons_cons]
    cases hf : b.finish? with
    | none =>
      rw [List.filterMap_cons_none hf, List.filter_cons_of_neg, ih]
      simp [Builder.finish?_eq_none_iff.mp hf]
    | some d =>
      obtain ⟨hfull, -, hsize⟩ := Builder.finish?_eq_some hf
      rw [List.filterMap_cons_some hf, List.filter_cons_of_pos, List.map_cons, List.map_cons, ih,
        hsize]
      simp [hfull]

/-- Starting the worker puts it to work on the builders that are in line. -/
theorem IsNew.launched (hnew : start.IsNew) (hm : ∀ m ∈ before, m.isPreparation = true) :
    (start.run (before ++ [.startup])).Serving ∧
      (start.run (before ++ [.startup])).course = (start.run before).backlog.builders ∧
      (start.run (before ++ [.startup])).toGo ≤
        3 * (start.run before).backlog.builders.length + 2 := by
  obtain ⟨hidle, hpassage⟩ := hnew.idle.run hm
  have htaken : (start.run before).taken = [] := by
    rw [hpassage.taken, popped_changes, taken_eq_filterMap, hnew.log_eq]
    rfl
  have hwakeful : (start.run before).Wakeful :=
    Reachable.invariant ⟨before, rfl⟩ (wakeful_of_nil hnew.builders_eq) wakeful_step
  have hlaunched : start.run (before ++ [.startup]) =
      { start.run before with worker := .launched } := by
    rw [run_append, run_cons, step, if_pos hidle.reachable, startup, hidle.worker]
    rfl
  rw [hlaunched]
  refine ⟨⟨hidle.cancelled, hidle.stop, rfl, hwakeful⟩, ?_, ?_⟩
  · show (start.run before).taken ++ (start.run before).backlog.builders = _
    rw [htaken, List.nil_append]
  · have hone := Bool.toNat_le (start.run before).token
    simp only [toGo, Worker.turnsAhead]
    omega

/-- **Batching follows its rule.**  Before the worker of a new queue is started, producers put edits
together that add what is announced for them, in whatever order memory is granted and with topics
enough.  Then the builders in line are the batches that the rule makes of the sizes, one after the
other; and once the worker is started and the network does not fail, their messages are sent, in
this order and no others, but for the builders that hold nothing. -/
theorem batching_follows_rule (hnew : start.IsNew) (hm : ∀ m ∈ before, m.isPreparation = true)
    (hedits : ∀ c ∈ start.granted before, Honest len c.1 c.2)
    (hroom : (batches ((start.granted before).map Prod.fst)).length ≤
      Topic.left start.backlog.nextTopic) : FollowsRule start before := by
  have hline : (start.run before).backlog.sizes =
      batches ((start.granted before).map Prod.fst) := by
    rw [(hnew.idle.run hm).2.backlog]
    exact Backlog.sizes_run hnew.builders_eq hedits hroom
  obtain ⟨hserving, hcourse, hgo⟩ := hnew.launched hm
  have hsends {after : List Move} (hafter : ∀ m ∈ after, m.isService = true) :=
    hserving.sends hnew ⟨_, rfl⟩ hafter
  rw [hcourse, filterMap_message?] at hsends
  have hrun (after : List Move) : start.run (before ++ .startup :: after) =
      (start.run (before ++ [.startup])).run after := by
    rw [← run_append, List.append_assoc]
    rfl
  refine ⟨hline, ?_, fun after hafter => ?_, fun after hafter hblocked => ?_, fun n hn => ?_⟩
  · rw [sizes_prepared, hline]
  · rw [hrun]
    exact (hsends hafter).1
  · rw [hrun] at hblocked ⊢
    exact (hsends hafter).2 hblocked
  · obtain ⟨after, hafter, hattend⟩ := exists_run_attend (start.run (before ++ [.startup])) n
    have hblocked := hserving.blocked (hgo.trans hn)
    refine ⟨hblocked, ?_⟩
    rw [hattend] at hblocked ⊢
    exact (hsends hafter).2 hblocked

/-- A builder is opened for nothing, the next change is larger than the limit and gets one of its
own, and the last, which adds nothing, joins it. -/
theorem batching_follows_rule_of_three :
    let start : Queue := { peer := Peer.zero, settings := {} }
    let block : Edit := .addBlock (Block.fill default 600000 1)
    let status : Edit := .setStatus default .requestAcknowledged
    let before : List Move := [.reserve 0 0 [], .reserve 1 600000 [block], .reserve 2 0 [status]]
    start.granted before = [(0, []), (600000, [block]), (0, [status])] ∧
      batches [0, 600000, 0] = [0, 600000] ∧ FollowsRule start before := by
  intro start block status before
  have hnew : start.IsNew := rfl
  have hgranted : start.granted before = [(0, []), (600000, [block]), (0, [status])] :=
    granted_of_unlimited [(0, 0, []), (1, 600000, [block]), (2, 0, [status])] hnew.idle
      ⟨rfl, {}, rfl, rfl, rfl⟩
  have hblock : Honest (fun _ => 600000) 600000 [block] :=
    honest_addBlock (Block.size_fill ..) (Block.size_fill ..)
  have hstatus : Honest (fun _ => 600000) 0 [status] := ⟨List.forall_mem_singleton.mpr trivial, rfl⟩
  have hedits : ∀ c ∈ start.granted before, Honest (fun _ => 600000) c.1 c.2 := by
    rw [hgranted]
    simpa using ⟨⟨List.forall_mem_nil _, rfl⟩, hblock, hstatus⟩
  refine ⟨hgranted, by decide, batching_follows_rule hnew ?_ hedits ?_⟩
  · simp [before, Move.isPreparation]
  · rw [hgranted]
    decide

end Queue

end Outbox
