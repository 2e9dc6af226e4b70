import Outbox.Message.Backlog

/-!
# Runs of a backlog

What is done to the builders in line, move by move. Producers, the worker and the owner of the
queue make these moves in any order.

* `BacklogMove` — one thing that is done to a backlog;
* `Backlog.step`, `Backlog.run` — one move, and moves one after the other.
-/

namespace Outbox

/-- One thing that is done to a backlog. -/
inductive BacklogMove where
  /-- A producer that reserved so many bytes has its edits carried out. -/
  | mutate (size : Nat) (edits : List Edit)
  /-- The oldest builder is taken. -/
  | pop
  /-- Everything that belongs to the requests is removed. -/
  | scrub (requests : List RequestId)
  /-- No further changes are accepted and all builders are dropped. -/
  | close

namespace Backlog

/-- The backlog after a move. A move that is not possible changes nothing. -/
def step (q : Backlog) : BacklogMove → Backlog
  | .mutate size edits =>
    match q.mutate size edits with
    | .ok (_, q') => q'
    | .error _ => q
  | .pop => (q.pop?).elim q Prod.snd
  | .scrub requests => q.scrub requests
  | .close => q.close

/-- The backlog after a sequence of moves. -/
def run (q : Backlog) (moves : List BacklogMove) : Backlog := moves.foldl step q

end Backlog

end Outbox
