import Mathlib
import Outbox.Memory.Pool

/-!
# Answers of a pool

A pool keeps its answers until they are read.  Whatever is asked of it, it only adds answers at the
end; reading an answer or going away removes the answers to one request and no others.

* `Pool.answers_request`, `Pool.answers_release`, `Pool.answers_releasePeer` — answers are added;
* `Pool.answers_abandon`, `Pool.take?_eq_some` — those to one request are removed;
* `Answers.lookup_of_grown`, `Answers.lookup_concat_self`, `Answers.lookup_without` — what that
  means for a look-up.
-/

namespace Outbox

/-! ## Look-ups -/

namespace Answers

/-- The request of this name was granted, and nobody has read that. -/
def hasGranted (answers : List (Ticket × Grant)) (t : Ticket) : Bool :=
  answers.lookup t = some .granted

variable {answers answers' : List (Ticket × Grant)} {t s : Ticket} {g : Grant}

theorem lookup_of_grown (h : answers <+: answers') (hs : answers.lookup s = some g) :
    answers'.lookup s = some g := by
  obtain ⟨more, rfl⟩ := h
  rw [List.lookup_append, hs]
  rfl

/-- A new answer is the only one to its request. -/
theorem lookup_concat_self (h : answers.lookup t = none) (g : Grant) :
    (answers ++ [(t, g)]).lookup t = some g := by
  rw [List.lookup_append, h, List.lookup_cons_self]
  rfl

theorem lookup_concat_of_ne (answers : List (Ticket × Grant)) (h : s ≠ t) (g : Grant) :
    (answers ++ [(t, g)]).lookup s = answers.lookup s := by
  have hst : (s == t) = false := by simpa using h
  rw [List.lookup_append, List.lookup_cons, hst]
  simp

/-- Removing the answers to one request leaves the others. -/
theorem lookup_without (answers : List (Ticket × Grant)) (h : s ≠ t) :
    (answers.filter (fun e => e.1 ≠ t)).lookup s = answers.lookup s := by
  induction answers with
  | nil => rfl
  | cons e rest ih =>
    obtain ⟨u, g⟩ := e
    by_cases hu : u = t
    · have hsu : (s == u) = false := by simpa [hu] using h
      rw [List.filter_cons_of_neg (by simpa using hu), ih, List.lookup_cons, hsu]
    · rw [List.filter_cons_of_pos (by simpa using hu), List.lookup_cons, List.lookup_cons, ih]

theorem lookup_without_self (answers : List (Ticket × Grant)) (t : Ticket) :
    (answers.filter (fun e => e.1 ≠ t)).lookup t = none := by
  rw [List.lookup_eq_none_iff]
  intro e he
  simpa using (of_decide_eq_true (List.mem_filter.mp he).2).symm

end Answers

/-! ## The allocator -/

namespace Allocator

variable {a a' : Allocator}

theorem answers_grantPeer (a : Allocator) (p : Peer) :
    a.answers <+: (a.grantPeer p).answers := by
  unfold grantPeer
  split
  · exact List.prefix_refl _
  · exact List.prefix_append _ _

theorem answers_grantAlong (a : Allocator) (peers : List Peer) :
    a.answers <+: (a.grantAlong peers).answers := by
  show a.answers <+: (peers.foldl grantPeer a).answers
  induction peers generalizing a with
  | nil => exact List.prefix_refl _
  | cons p rest ih => exact (a.answers_grantPeer p).trans (ih _)

theorem answers_grantWaiting (a : Allocator) : a.answers <+: a.grantWaiting.answers :=
  a.answers_grantAlong a.accounts.keys

theorem answers_request (a : Allocator) (t : Ticket) (p : Peer) (n : Nat) :
    a.answers <+: (a.request t p n).answers := by
  unfold request
  simp only
  split
  · exact List.prefix_append _ _
  · exact List.prefix_refl _

theorem answers_release {p : Peer} {n : Nat} (h : a.release p n = .ok a') :
    a.answers <+: a'.answers := by
  unfold release at h
  split at h
  · cases h
  · split at h
    · cases h
    · cases h
      refine List.IsPrefix.trans ?_ (answers_grantWaiting _)
      exact List.prefix_refl _

theorem answers_releasePeer (a : Allocator) (p : Peer) :
    a.answers <+: (a.releasePeer p).answers := by
  unfold releasePeer
  split
  · exact List.prefix_refl _
  · refine List.IsPrefix.trans ?_ (answers_grantWaiting _)
    exact List.prefix_append _ _

end Allocator

/-! ## Either kind of pool -/

namespace Pool

variable {pool pool' : Pool}

theorem answers_request (pool : Pool) (t : Ticket) (p : Peer) (n : Nat) :
    pool.answers <+: (pool.request t p n).answers := by
  cases pool with
  | limited a => exact a.answers_request t p n
  | unlimited l =>
    show l.answers <+: (l.request t n).answers
    unfold Tally.request
    split
    · exact List.prefix_refl _
    · exact List.prefix_append _ _

theorem answers_release {p : Peer} {n : Nat} (h : pool.release p n = .ok pool') :
    pool.answers <+: pool'.answers := by
  cases pool with
  | limited a =>
    cases hr : a.release p n with
    | error e => simp [release, hr, Except.map] at h
    | ok a' =>
      simp only [release, hr, Except.map] at h
      cases h
      exact Allocator.answers_release hr
  | unlimited l =>
    cases h
    exact List.prefix_refl _

theorem answers_releasePeer (pool : Pool) (p : Peer) :
    pool.answers <+: (pool.releasePeer p).answers := by
  cases pool with
  | limited a => exact a.answers_releasePeer p
  | unlimited l => exact List.prefix_refl _

theorem answers_abandon (pool : Pool) (t : Ticket) :
    (pool.abandon t).answers = pool.answers.filter (fun e => e.1 ≠ t) := by
  cases pool <;> rfl

@[simp] theorem answers_withhold (pool : Pool) (value : Bool) :
    (pool.withhold value).answers = pool.answers := by
  cases pool <;> rfl

/-- An answer that is read is the one that was there, and is gone then. -/
theorem take?_eq_some {t : Ticket} {g : Grant} (h : pool.take? t = some (g, pool')) :
    pool.answers.lookup t = some g ∧
      pool'.answers = pool.answers.filter (fun e => e.1 ≠ t) := by
  cases pool with
  | limited a =>
    cases hl : a.answers.lookup t with
    | none => simp [take?, Allocator.take?, hl] at h
    | some g' =>
      simp only [take?, Allocator.take?, hl, Option.map_some] at h
      cases h
      exact ⟨hl, rfl⟩
  | unlimited l =>
    cases hl : l.answers.lookup t with
    | none => simp [take?, Tally.take?, hl] at h
    | some g' =>
      simp only [take?, Tally.take?, hl, Option.map_some] at h
      cases h
      exact ⟨hl, rfl⟩

/-- Nothing is read where there is no answer. -/
theorem take?_eq_none_iff {t : Ticket} :
    pool.take? t = none ↔ pool.answers.lookup t = none := by
  cases pool with
  | limited a => simp [take?, Allocator.take?, answers]
  | unlimited l => simp [take?, Tally.take?, answers]

end Pool

end Outbox
