import Outbox.Proofs.Message.Backlog
import Outbox.Proofs.Queue.Turn

/-!
# What a turn of a producer can be

A producer comes once with its edits and, if it has to wait for memory, comes back for the answer.
As for the worker, the functions are taken apart once.

* `Queue.Editing` — what becomes of the edits themselves, with `Queue.mutate_editing`;
* `Queue.Arrival` — the first turn of a producer, with `Queue.reserve_arrival`;
* `Queue.Return` — a later turn, with `Queue.resume_return`.
-/

namespace Outbox.Queue

/-- What becomes of the edits of a producer that holds `size` bytes for them. -/
inductive Editing (q : Queue) (p size : Nat) (edits : List Edit) : Queue → Prop
  /-- They are not carried out, and the bytes go back. -/
  | refused (h : q.backlog.closed = true ∨
        (q.backlog.beginsNew size = true ∧ q.backlog.nextTopic = none)) :
      Editing q p size edits ((q.release size).note (.skipped p))
  /-- They are carried out; the worker is woken unless the builder holds nothing then. -/
  | done {report : EditReport} {backlog : Backlog} (hc : q.backlog.closed = false)
      (hm : Backlog.Mutation q.backlog size edits (.ok (report, backlog))) :
      Editing q p size edits { { q with backlog }.note (.mutated p edits report) with
        token := q.token || !report.isEmpty }

/-- Nothing else becomes of edits. -/
theorem mutate_editing (q : Queue) (p size : Nat) (edits : List Edit) :
    Editing q p size edits (q.mutate p size edits) := by
  unfold mutate
  by_cases hc : q.backlog.closed = true
  · rw [if_pos hc]
    exact .refused (.inl hc)
  rw [if_neg hc]
  rw [Bool.not_eq_true] at hc
  have hm := q.backlog.mutate_mutation size edits
  cases hr : q.backlog.mutate size edits with
  | error e =>
    rw [hr] at hm
    cases hm with
    | exhausted hnew ht => exact .refused (.inr ⟨hnew, ht⟩)
  | ok result =>
    obtain ⟨report, backlog⟩ := result
    rw [hr] at hm
    have hdone := Editing.done (p := p) hc hm
    cases he : report.isEmpty with
    | true => simpa [he, note] using hdone
    | false => simpa [he, note, signal] using hdone

/-- Edits come too late for a closed backlog, and the bytes for them go back. -/
theorem mutate_of_closed {q : Queue} (hc : q.backlog.closed = true) (p size : Nat)
    (edits : List Edit) : q.mutate p size edits = (q.release size).note (.skipped p) := by
  unfold mutate
  rw [if_pos hc]

/-- Edits move neither the worker nor the producers that wait. -/
theorem mutate_frame (q : Queue) (p size : Nat) (edits : List Edit) :
    (q.mutate p size edits).worker = q.worker ∧
      (q.mutate p size edits).producers = q.producers := by
  have he := mutate_editing q p size edits
  generalize q.mutate p size edits = q' at he
  cases he with
  | refused hr => exact ⟨release_worker q size, release_producers q size⟩
  | done hc hm => exact ⟨rfl, rfl⟩

theorem answer_frame (q : Queue) (t : Ticket) (size : Nat) (edits : List Edit) (grant : Grant) :
    (q.answer t size edits grant).worker = q.worker ∧
      (q.answer t size edits grant).producers = q.producers := by
  cases grant with
  | granted => exact mutate_frame (q.note (.allocated t size none)) t size edits
  | refused e => exact ⟨rfl, rfl⟩

theorem mutate_cancelled (q : Queue) (p size : Nat) (edits : List Edit) :
    (q.mutate p size edits).cancelled = q.cancelled := by
  have he := mutate_editing q p size edits
  generalize q.mutate p size edits = q' at he
  cases he with
  | refused hr => exact release_cancelled q size
  | done hc hm => rfl

theorem answer_cancelled (q : Queue) (t : Ticket) (size : Nat) (edits : List Edit)
    (grant : Grant) : (q.answer t size edits grant).cancelled = q.cancelled := by
  cases grant with
  | granted => exact mutate_cancelled (q.note (.allocated t size none)) t size edits
  | refused e => rfl

/-- The queue after a producer asked its pool for memory. -/
def ask (q : Queue) (t : Ticket) (size : Nat) : Queue :=
  { q with pool := q.pool.request t q.peer size }.note (.allocate t size)

/-- The first turn of a producer. -/
inductive Arrival (q : Queue) (t : Ticket) (size : Nat) (edits : List Edit) : Queue → Prop
  /-- Its edits need no memory. -/
  | free (hs : size = 0) : Arrival q t size edits (q.mutate t 0 edits)
  /-- Everything was called off. -/
  | callOff (hs : size ≠ 0) (hc : q.cancelled = true) :
      Arrival q t size edits (q.note (.skipped t))
  /-- The pool answers at once. -/
  | answered {grant : Grant} {pool : Pool} (hs : size ≠ 0) (hc : q.cancelled = false)
      (ha : (q.ask t size).pool.take? t = some (grant, pool)) :
      Arrival q t size edits ({ q.ask t size with pool }.answer t size edits grant)
  /-- It has to wait. -/
  | wait (hs : size ≠ 0) (hc : q.cancelled = false)
      (ha : (q.ask t size).pool.take? t = none) :
      Arrival q t size edits
        { q.ask t size with producers := q.producers ++ [⟨t, size⟩] }

/-- The first turn of a producer is one of these. -/
theorem reserve_arrival (q : Queue) (t : Ticket) (size : Nat) (edits : List Edit) :
    Arrival q t size edits (q.reserve t size edits) := by
  unfold reserve
  by_cases hs : size = 0
  · rw [if_pos hs]
    exact .free hs
  rw [if_neg hs]
  by_cases hc : q.cancelled = true
  · rw [if_pos hc]
    exact .callOff hs hc
  rw [if_neg hc]
  rw [Bool.not_eq_true] at hc
  simp only
  split
  · rename_i ha
    exact .answered hs hc ha
  · rename_i ha
    exact .wait hs hc ha

/-- A later turn of a producer. -/
inductive Return (q : Queue) (t : Ticket) (edits : List Edit) : Queue → Prop
  /-- Nobody of this name waits. -/
  | unknown (hw : q.waitingSize? t = none) : Return q t edits q
  /-- Everything was called off; an answer that came is not looked at. -/
  | callOff {size : Nat} (hw : q.waitingSize? t = some size) (hc : q.cancelled = true) :
      Return q t edits
        (({ q with pool := q.pool.abandon t }.forgetProducer t).note (.skipped t))
  /-- The answer came. -/
  | answered {size : Nat} {grant : Grant} {pool : Pool} (hw : q.waitingSize? t = some size)
      (hc : q.cancelled = false) (ha : q.pool.take? t = some (grant, pool)) :
      Return q t edits (({ q with pool }.forgetProducer t).answer t size edits grant)
  /-- It still has to wait. -/
  | wait {size : Nat} (hw : q.waitingSize? t = some size) (hc : q.cancelled = false)
      (ha : q.pool.take? t = none) : Return q t edits q

/-- A later turn of a producer is one of these. -/
theorem resume_return (q : Queue) (t : Ticket) (edits : List Edit) :
    Return q t edits (q.resume t edits) := by
  unfold resume
  cases hw : q.waitingSize? t with
  | none => exact .unknown hw
  | some size =>
    simp only
    by_cases hc : q.cancelled = true
    · rw [if_pos hc]
      exact .callOff hw hc
    rw [if_neg hc]
    rw [Bool.not_eq_true] at hc
    split
    · rename_i ha
      exact .answered hw hc ha
    · rename_i ha
      exact .wait hw hc ha

/-! ## The worker and the producers after a visit -/

variable {q q' : Queue} {t : Ticket} {edits : List Edit}

theorem Arrival.worker_eq {size : Nat} (a : Arrival q t size edits q') :
    q'.worker = q.worker := by
  cases a with
  | free hs => exact (mutate_frame q t 0 edits).1
  | callOff hs hc => rfl
  | answered hs hc ha => exact (answer_frame _ t size edits _).1
  | wait hs hc ha => rfl

theorem Return.worker_eq (r : Return q t edits q') : q'.worker = q.worker := by
  cases r with
  | unknown hw => rfl
  | callOff hw hc => rfl
  | answered hw hc ha => exact (answer_frame _ t _ edits _).1
  | wait hw hc ha => rfl

/-! ## Who waits -/

/-- Nobody of this name waits, so no waiting producer has it. -/
theorem ne_of_waitingSize?_eq_none (h : q.waitingSize? t = none) :
    ∀ p ∈ q.producers, p.ticket ≠ t := by
  intro p hp
  have hnone := List.find?_eq_none.mp (Option.map_eq_none_iff.mp h) p hp
  simpa using hnone

/-- Someone of this name waits. -/
theorem mem_of_waitingSize?_eq_some {size : Nat} (h : q.waitingSize? t = some size) :
    ⟨t, size⟩ ∈ q.producers := by
  obtain ⟨p, hp, hsize⟩ := Option.map_eq_some_iff.mp h
  have hmem := List.mem_of_find?_eq_some hp
  have hticket : p.ticket = t := by simpa using List.find?_some hp
  rw [← hticket, ← hsize]
  exact hmem

/-- The producers that stay when one leaves have other names. -/
theorem ne_of_mem_others {ps : List Producer} :
    ∀ p ∈ ps.filter (fun p => p.ticket ≠ t), p.ticket ≠ t := by
  intro p hp
  simpa using (List.mem_filter.mp hp).2

/-- Different names stay different when one joins that is not among them. -/
theorem nodup_map_concat {α : Type} {name : α → Ticket} {l : List α} {a : α}
    (hn : (l.map name).Nodup) (ha : ∀ x ∈ l, name x ≠ name a) :
    ((l ++ [a]).map name).Nodup := by
  rw [List.map_append]
  refine List.nodup_append.mpr ⟨hn, List.nodup_singleton _, ?_⟩
  intro s hs s' hs'
  obtain ⟨x, hx, rfl⟩ := List.mem_map.mp hs
  rw [List.mem_singleton.mp hs']
  exact ha x hx

/-- A producer is the only one of its name. -/
theorem filter_ticket_eq {ps : List Producer} (hn : (ps.map Producer.ticket).Nodup) {p : Producer}
    (hp : p ∈ ps) : ps.filter (fun p' => p'.ticket = p.ticket) = [p] := by
  induction ps with
  | nil => cases hp
  | cons p' rest ih =>
    obtain ⟨hp', hrest⟩ := List.nodup_cons.mp hn
    rcases List.mem_cons.mp hp with rfl | hp
    · have hothers : rest.filter (fun p' => p'.ticket = p.ticket) = [] := by
        refine List.filter_eq_nil_iff.mpr fun p'' hp'' => ?_
        have hne : p''.ticket ≠ p.ticket := fun he => hp' (he ▸ List.mem_map_of_mem hp'')
        simpa using hne
      rw [List.filter_cons_of_pos (by simp), hothers]
    · have hne : p'.ticket ≠ p.ticket := fun he => hp' (he ▸ List.mem_map_of_mem hp)
      rw [List.filter_cons_of_neg (by simpa using hne), ih hrest hp]

/-- A producer and the others make up all that wait. -/
theorem perm_others {ps : List Producer} (hn : (ps.map Producer.ticket).Nodup) {p : Producer}
    (hp : p ∈ ps) : ps.Perm (p :: ps.filter (fun p' => p'.ticket ≠ p.ticket)) := by
  have hparts := List.filter_append_perm (fun p' : Producer => decide (p'.ticket = p.ticket)) ps
  rw [filter_ticket_eq hn hp] at hparts
  simpa using hparts.symm

/-- What the producers that wait amount to is what one of them amounts to and the others. -/
theorem sum_producers {ps : List Producer} (hn : (ps.map Producer.ticket).Nodup)
    {p : Producer} (hp : p ∈ ps) (f : Producer → Nat) :
    (ps.map f).sum = f p + ((ps.filter (fun p' => p'.ticket ≠ p.ticket)).map f).sum := by
  rw [((perm_others hn hp).map f).sum_eq, List.map_cons, List.sum_cons]

end Outbox.Queue
