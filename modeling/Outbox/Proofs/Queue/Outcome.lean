import Outbox.Proofs.Memory.Answers
import Outbox.Proofs.Queue.Turn
import Outbox.Proofs.Queue.Visit

/-!
# What a move can come to

The moves of a queue are taken apart once, as the turns of its worker and of its producers are: a
move that is not possible changes nothing, and of the others most change only what is around the
queue.  An invariant of runs is proved by one case for each constructor.

* `Queue.Keeps` — the answers to some producers are still there;
* `Queue.Outcome` — what a move can come to, with `Queue.step_outcome`.
-/

namespace Outbox

/-! ## Whose move it is -/

namespace Move

/-- It is the turn of a producer, or a producer goes away. -/
def isOfProducer : Move → Bool
  | reserve .. => true
  | resume .. => true
  | abandon .. => true
  | _ => false

/-- Another user of the pool does something. -/
def isOfOther : Move → Bool
  | borrow .. => true
  | collect .. => true
  | repay .. => true
  | _ => false

theorem isOfProducer_of_isOfOther {m : Move} (h : m.isOfOther = true) :
    m.isOfProducer = false := by
  cases m <;> first | rfl | cases h

end Move

namespace Queue

/-! ## Answers that are kept -/

/-- The answers to these producers are still there. -/
def Keeps (answers answers' : List (Ticket × Grant)) (ps : List Producer) : Prop :=
  ∀ p ∈ ps, ∀ g, answers.lookup p.ticket = some g → answers'.lookup p.ticket = some g

section Keeps

variable {answers answers' : List (Ticket × Grant)} {ps : List Producer} {t : Ticket}

theorem Keeps.refl (answers : List (Ticket × Grant)) (ps : List Producer) :
    Keeps answers answers ps :=
  fun _ _ _ hg => hg

theorem Keeps.trans {answers'' : List (Ticket × Grant)} (h : Keeps answers answers' ps)
    (h' : Keeps answers' answers'' ps) : Keeps answers answers'' ps :=
  fun p hp g hg => h' p hp g (h p hp g hg)

theorem keeps_of_grown (h : answers <+: answers') (ps : List Producer) :
    Keeps answers answers' ps :=
  fun _ _ _ hg => Answers.lookup_of_grown h hg

/-- Removing the answers to one request keeps those to others. -/
theorem keeps_without (h : answers' = answers.filter (fun e => e.1 ≠ t))
    (ht : ∀ p ∈ ps, p.ticket ≠ t) : Keeps answers answers' ps := by
  intro p hp g hg
  rw [h, Answers.lookup_without _ (ht p hp)]
  exact hg

end Keeps

/-! ## Moves -/

/-- What a move can come to. -/
inductive Outcome (q : Queue) : Move → Queue → Prop
  /-- A producer comes that cannot reach the queue, or whose name is in use. -/
  | refused {t : Ticket} {size : Nat} {edits : List Edit}
      (h : ¬ (q.reachable = true ∧ q.isTaken t = false)) : Outcome q (.reserve t size edits) q
  /-- A producer comes. -/
  | arrived {t : Ticket} {size : Nat} {edits : List Edit} (hr : q.reachable = true)
      (ht : q.isTaken t = false) : Outcome q (.reserve t size edits) (q.reserve t size edits)
  /-- A producer comes back. -/
  | returned {t : Ticket} {edits : List Edit} : Outcome q (.resume t edits) (q.resume t edits)
  /-- A producer goes away. -/
  | abandoned {t : Ticket} : Outcome q (.abandon t) (q.abandon t)
  /-- The worker is started. -/
  | launched (hr : q.reachable = true) (hw : q.worker = .unstarted) :
      Outcome q .startup { q with worker := .launched }
  /-- Requests are scrubbed. -/
  | scrubbed {rs : List RequestId} (hr : q.reachable = true) :
      Outcome q (.scrub rs) (q.scrub rs)
  /-- The worker has a turn. -/
  | worked {reply : Option NetworkReply} : Outcome q (.work reply) (q.work reply)
  /-- The queue is let go of before its worker was started. -/
  | dropped (hr : q.reachable = true) (hw : q.worker = .unstarted) (hp : q.producers = []) :
      Outcome q .letGo { q with reachable := false, stopRequested := true }.closeBacklog
  /-- Another user of the pool has done something to it. -/
  | shared {m : Move} {pool : Pool} (hm : m.isOfOther = true)
      (hk : Keeps q.pool.answers pool.answers q.producers) : Outcome q m { q with pool }
  /-- The pool is told whether to answer. -/
  | withheld {value : Bool} :
      Outcome q (.withhold value) { q with pool := q.pool.withhold value }
  /-- Nothing changes but what is around the queue and what the worker is asked for, which is not
  taken back. -/
  | aside {m : Move} {reachable stopRequested cancelled : Bool} {bus : Bus} {post : Post Event}
      (hm : m.isOfProducer = false) (hr : q.reachable = false → reachable = false)
      (hs : q.stopRequested = true → stopRequested = true)
      (hc : q.cancelled = true → cancelled = true) :
      Outcome q m { q with reachable, stopRequested, cancelled, bus, post }

/-- A move comes to one of these. -/
theorem step_outcome (q : Queue) (m : Move) : Outcome q m (q.step m) := by
  have hsame : m.isOfProducer = false → Outcome q m q := fun hm =>
    .aside hm id id id
  have hkept := Keeps.refl q.pool.answers q.producers
  cases m with
  | reserve t size edits =>
    by_cases hgo : q.reachable = true ∧ q.isTaken t = false
    · have hstep : q.step (.reserve t size edits) = q.reserve t size edits := by
        simp [step, hgo.1, hgo.2]
      rw [hstep]
      exact .arrived hgo.1 hgo.2
    · have hstep : q.step (.reserve t size edits) = q := by
        simp only [step, Bool.and_eq_true, Bool.not_eq_true', if_neg hgo]
      rw [hstep]
      exact .refused hgo
  | resume t edits => exact .returned
  | abandon t => exact .abandoned
  | startup =>
    simp only [step, Queue.startup]
    split
    · rename_i hr
      split
      · rename_i hw
        exact .launched hr hw
      · exact hsame rfl
    · exact hsame rfl
  | shutdown =>
    simp only [step]
    split
    · exact .aside rfl id (fun _ => rfl) id
    · exact hsame rfl
  | cancel => exact .aside rfl id id fun _ => rfl
  | scrub rs =>
    simp only [step]
    split
    · rename_i hr
      exact .scrubbed hr
    · exact hsame rfl
  | work reply => exact .worked
  | letGo =>
    simp only [step, Queue.letGo]
    split
    · rename_i hgo
      obtain ⟨hr, hp⟩ := Bool.and_eq_true_iff.mp hgo
      split
      · rename_i hw
        exact .dropped hr hw (List.isEmpty_iff.mp hp)
      · exact .aside rfl (fun _ => rfl) (fun _ => rfl) id
    · exact hsame rfl
  | borrow t p amount =>
    simp only [step]
    split
    · exact hsame rfl
    · exact .shared rfl (keeps_of_grown (q.pool.answers_request t p amount) _)
  | collect t =>
    simp only [step]
    split
    · rename_i hw ha
      exact .shared rfl
        (keeps_without (Pool.take?_eq_some ha).2 (ne_of_waitingSize?_eq_none hw))
    · exact hsame rfl
  | repay p amount =>
    simp only [step]
    split
    · rename_i hr
      exact .shared rfl (keeps_of_grown (Pool.answers_release hr) _)
    · exact hsame rfl
  | withhold value => exact .withheld
  | attach topic sink => exact .aside rfl id id id
  | depart sink => exact .aside rfl id id id

end Queue

end Outbox
