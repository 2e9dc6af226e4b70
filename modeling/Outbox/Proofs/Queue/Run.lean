import Mathlib
import Outbox.Queue.Run

/-!
# Runs of a queue, move by move

What is said of every run of a queue is proved one move at a time.  A run starts from a queue to
which nothing has happened yet; the number of its first topic is left open, so that runs at the
end of the topics are runs like any other.

* `Queue.IsNew` — a queue to which nothing has happened;
* `Queue.Along` — every move of a run meets a condition in the state in which it is made;
* `Queue.sumAlong`, `Queue.collectAlong` — what single moves amount to or bring up, over a run;
* `Queue.Along.run` and `Queue.Reachable.invariant` — what a new queue satisfies and every move
  keeps is satisfied after every run.
-/

namespace Outbox.Queue

/-! ## New queues -/

/-- Nothing has happened to the queue: but for its peer, its settings, its pool and its first
topic it is as every queue is at first. -/
def IsNew (q : Queue) : Prop :=
  q = { peer := q.peer, settings := q.settings, pool := q.pool,
        backlog := { nextTopic := q.backlog.nextTopic } }

/-- A queue that was just made is new. -/
theorem isNew_of_new? {peer : Peer} {settings : SendSettings} {pool : Pool} {q : Queue}
    (h : new? peer settings pool = .ok q) : q.IsNew := by
  unfold new? at h
  cases hv : settings.validate with
  | error e => rw [hv] at h; cases h
  | ok u =>
    rw [hv] at h
    cases h
    rfl

namespace IsNew

variable {q : Queue}

theorem builders_eq (h : q.IsNew) : q.backlog.builders = [] := congrArg (·.backlog.builders) h

theorem worker_eq (h : q.IsNew) : q.worker = .unstarted := congrArg (·.worker) h

theorem producers_eq (h : q.IsNew) : q.producers = [] := congrArg (·.producers) h

theorem log_eq (h : q.IsNew) : q.log = [] := congrArg (·.log) h

end IsNew

/-! ## Runs -/

@[simp] theorem run_cons (q : Queue) (m : Move) (moves : List Move) :
    q.run (m :: moves) = (q.step m).run moves := rfl

/-- Every move meets the condition in the state in which it is made. -/
def Along (P : Queue → Move → Prop) (q : Queue) : List Move → Prop
  | [] => True
  | m :: rest => P q m ∧ Along P (q.step m) rest

/-- A quantity of single moves, summed over a run. -/
def sumAlong (f : Queue → Move → Nat) (q : Queue) : List Move → Nat
  | [] => 0
  | m :: rest => f q m + sumAlong f (q.step m) rest

@[simp] theorem sumAlong_cons (f : Queue → Move → Nat) (q : Queue) (m : Move)
    (moves : List Move) : q.sumAlong f (m :: moves) = f q m + (q.step m).sumAlong f moves := rfl

/-- What single moves bring up, in the order of a run. -/
def collectAlong {α : Type} (f : Queue → Move → List α) (q : Queue) : List Move → List α
  | [] => []
  | m :: rest => f q m ++ collectAlong f (q.step m) rest

@[simp] theorem collectAlong_cons {α : Type} (f : Queue → Move → List α) (q : Queue) (m : Move)
    (moves : List Move) :
    q.collectAlong f (m :: moves) = f q m ++ (q.step m).collectAlong f moves := rfl

/-- **Invariants.**  What holds at the start, and is kept by every move that meets the condition,
holds after a run whose moves all meet it. -/
theorem Along.run {P : Queue → Move → Prop} {I : Queue → Prop}
    (hstep : ∀ q m, P q m → I q → I (q.step m)) {q : Queue} {moves : List Move}
    (h : q.Along P moves) (h0 : I q) : I (q.run moves) := by
  induction moves generalizing q with
  | nil => exact h0
  | cons m rest ih => exact ih h.2 (hstep q m h.1 h0)

/-- What holds at the start and is kept by every move holds in every reachable state. -/
theorem Reachable.invariant {I : Queue → Prop} {start q : Queue} (h : Reachable start q)
    (h0 : I start) (hstep : ∀ q m, I q → I (q.step m)) : I q := by
  obtain ⟨moves, rfl⟩ := h
  induction moves generalizing start with
  | nil => exact h0
  | cons m rest ih => exact ih (hstep start m h0)

end Outbox.Queue
