import Mathlib
import Outbox.Memory.Session
import Outbox.Proofs.Memory.Pass

/-!
# Nobody waits without need, as long as sums fit into words

With machine words an allocator does what it does with exact sums, as long as no sum reaches
`2 ^ 64`.  It is enough to look at the states between the moves: along a grant pass the bytes held
only grow, and whoever is not granted at its turn is the head of its line at the end.

Beyond that the sums wrap, and a request that is far too large can seem to fit.  The bytes of all
peers then count as none although they are held, and somebody waits for them.

* `Allocator.Wrapped.grantAlong_eq`, `Allocator.Wrapped.step_eq`, `Allocator.Wrapped.run_eq` — a
  pass, a move and a run with words are those with exact sums;
* `Allocator.nobody_waits_without_need` — what a run with words leaves;
* `Allocator.waits_although_total_is_zero` — a run in which a sum wraps;
* `MemorySession.take_run` — the steps of a session are runs with words.
-/

namespace Outbox

namespace Allocator

variable {a b : Allocator} {p q : Peer} {n : Nat} {order : List Peer} {m : MemoryMove}
  {moves : List MemoryMove}

/-! ## States in which no sum wraps -/

/-- With the head of a line the bytes held are still in range. -/
theorem InRange.head (h : a.InRange) {w : Waiter} {line : List Waiter}
    (hline : (a.account p).line = w :: line) : a.total + w.amount < UInt64.size := by
  cases hget : a.accounts.get? p with
  | none =>
    rw [account_of_none hget] at hline
    cases hline
  | some c =>
    rw [account_of_get? hget] at hline
    exact h.2 c (Dict.mem_values.mpr ⟨p, hget⟩) w (by rw [hline]; rfl)

/-- Bytes are added along a line, and none are taken away. -/
theorem total_le_serve (limits : MemoryLimits) (total held : Nat) (line : List Waiter) :
    total ≤ (serve limits total held line).1 := by
  induction line generalizing total held with
  | nil => exact le_rfl
  | cons w line ih =>
    unfold serve
    split
    · exact ih total held
    · split
      · exact (Nat.le_add_right total w.amount).trans (ih _ _)
      · exact le_rfl

theorem Balanced.grantPeer (h : a.Balanced) (p : Peer) : (a.grantPeer p).Balanced := by
  obtain ⟨ds, hshifts, -⟩ := a.grantPeer_shifts p
  exact hshifts.invariant (I := fun _ b => b.Balanced) (z := {}) h
    fun _ _ _ _ hs hb => hs.balanced hb

theorem Balanced.run (h : a.Balanced) (moves : List MemoryMove) : (a.run moves).Balanced := by
  induction moves generalizing a with
  | nil => exact h
  | cons m rest ih => exact ih (h.step m)

theorem InRange.run (h : a.InRange) (hrange : a.Along (fun a m => (a.step m).InRange) moves) :
    (a.run moves).InRange :=
  hrange.invariant h fun _ _ hm _ => hm

namespace Wrapped

/-! ## A pass -/

theorem fits_eq {limits : MemoryLimits} {total held amount : Nat} (hle : held ≤ total)
    (h : total + amount < UInt64.size) :
    fits limits total held amount = Allocator.fits limits total held amount := by
  rw [fits, Word.add_eq h, Word.add_eq (by omega)]
  rfl

/-- A line is served with words as it is with exact sums, if the bytes held in the end are in range,
also together with the head that is left. -/
theorem serve_eq {limits : MemoryLimits} {total held : Nat} {line : List Waiter}
    (hle : held ≤ total) (htotal : (Allocator.serve limits total held line).1 < UInt64.size)
    (hhead : ∀ w ∈ (Allocator.serve limits total held line).2.1.line.head?,
      (Allocator.serve limits total held line).1 + w.amount < UInt64.size) :
    serve limits total held line = Allocator.serve limits total held line := by
  induction line generalizing total held with
  | nil => rfl
  | cons w line ih =>
    unfold Allocator.serve at htotal hhead
    unfold serve Allocator.serve
    cases hlive : w.live with
    | false =>
      simp only [hlive, Bool.not_false, if_true] at htotal hhead ⊢
      exact ih hle htotal hhead
    | true =>
      cases hfits : Allocator.fits limits total held w.amount with
      | false =>
        simp only [hlive, hfits, Bool.not_true, Bool.false_eq_true, if_false] at hhead ⊢
        rw [fits_eq hle (hhead w rfl), hfits]
        rfl
      | true =>
        simp only [hlive, hfits, Bool.not_true, Bool.false_eq_true, if_false, if_true] at htotal
        simp only [hlive, hfits, Bool.not_true, Bool.false_eq_true, if_false, if_true] at hhead
        have hmore := total_le_serve limits (total + w.amount) (held + w.amount) line
        have hsum : total + w.amount < UInt64.size := lt_of_le_of_lt hmore htotal
        rw [fits_eq hle hsum, hfits, Word.add_eq hsum,
          Word.add_eq (show held + w.amount < UInt64.size by omega),
          ih (Nat.add_le_add_right hle _) htotal hhead]
        rfl

theorem grantPeer_eq (hbalanced : a.Balanced) (htotal : (a.grantPeer p).total < UInt64.size)
    (hhead : ∀ w line, ((a.grantPeer p).account p).line = w :: line →
      (a.grantPeer p).total + w.amount < UInt64.size) : grantPeer a p = a.grantPeer p := by
  cases hget : a.accounts.get? p with
  | none => rw [grantPeer, hget, grantPeer_of_none hget]
  | some c =>
    have hle : c.held ≤ a.total := held_of_get? hget ▸ hbalanced.held_le p
    rw [Allocator.grantPeer_eq hget] at htotal hhead
    rw [account_put_self] at hhead
    have hserve : serve a.limits a.total c.held c.line =
        Allocator.serve a.limits a.total c.held c.line := by
      refine serve_eq hle htotal fun w hw => ?_
      obtain ⟨line, hline⟩ := List.head?_eq_some_iff.mp hw
      exact hhead w line hline
    rw [grantPeer, hget, Allocator.grantPeer_eq hget]
    simp only [hserve]
    rfl

/-- A move that frees something ends with a pass. -/
theorem step_of_freed (h : freed a m = some (b, order)) : step a m = grantAlong b order := by
  cases m with
  | release p n order' => simp only [step, h, Option.elim_some]
  | releasePeer p order' => simp only [step, h, Option.elim_some]
  | _ => cases h

end Wrapped

/-! ## No grant is missed -/

end Allocator

/-! ## Sessions are runs -/

namespace Allocator.Wrapped

variable {a b : Allocator} {p : Peer} {n : Nat}

/-- A peer that gives something back keeps its place among the peers. -/
theorem keys_giveBack (h : giveBack a p n = .ok b) : b.accounts.keys = a.accounts.keys := by
  unfold giveBack at h
  cases hget : a.accounts.get? p with
  | none =>
    rw [hget] at h
    cases h
  | some c =>
    simp only [hget] at h
    split at h
    · cases h
    · cases h
      refine Dict.keys_insert _ ?_
      rw [Dict.contains, hget, Option.isSome_some]

/-- A release is the move that visits the peers in the order of their names. -/
theorem step_release (a : Allocator) (p : Peer) (n : Nat) :
    step a (.release p n a.accounts.keys) = (release a p n).toOption.getD a := by
  unfold release
  cases hgive : giveBack a p n with
  | error e =>
    simp only [step, freed, hgive]
    rfl
  | ok b =>
    simp only [step, freed, hgive]
    rw [← keys_giveBack hgive]
    rfl

/-- To give all memory back is the move that visits the peers left in the order of their names. -/
theorem step_releasePeer (a : Allocator) (p : Peer) :
    step a (.releasePeer p (a.accounts.erase p).keys) = releasePeer a p := by
  cases hget : a.accounts.get? p with
  | none =>
    simp only [step, freed, releasePeer, clear, hget, Option.map_none, Option.elim_none]
  | some c =>
    simp only [step, freed, releasePeer, clear, hget, Option.map_some, Option.elim_some,
      grantWaiting]

end Allocator.Wrapped

namespace MemorySession

open Allocator

/-- To read an answer starts no pass. -/
theorem along_collect (a : Allocator) (requests : List Ticket) :
    a.Along Visits (requests.map .collect) := by
  induction requests generalizing a with
  | nil => trivial
  | cons t rest ih => exact ⟨visits_of_not_freed rfl, ih _⟩

/-- To read answers is to collect them one after the other. -/
theorem readAnswers_run (a : Allocator) (requests : List Ticket) :
    (readAnswers a requests).2 = Wrapped.run a (requests.map .collect) := by
  induction requests generalizing a with
  | nil => rfl
  | cons t rest ih =>
    have hstep : (readAnswers a (t :: rest)).2 =
        (readAnswers (Wrapped.step a (.collect t)) rest).2 := by
      rw [readAnswers]
      simp only [Wrapped.step]
      cases a.take? t <;> rfl
    rw [hstep]
    exact ih _

/-- What a step does itself is a run of moves, which makes at most the request named by the
number of the step. -/
theorem act_run (s : MemorySession) (index : Nat) (step : Step) :
    ∃ moves, (s.act index step).2.allocator = Wrapped.run s.allocator moves ∧
      s.allocator.Along Visits moves ∧
      (moves.filterMap MemoryMove.demand?).map Demand.ticket <+: [index] := by
  cases step with
  | allocate p amount =>
    refine ⟨[.request ⟨index, p, amount⟩, .collect index], ?_,
      ⟨visits_of_not_freed rfl, visits_of_not_freed rfl, trivial⟩, List.prefix_refl _⟩
    show (act s index (.allocate p amount)).2.allocator =
      Wrapped.step (Wrapped.request s.allocator index p amount) (.collect index)
    unfold act Wrapped.step
    simp only [meet]
    cases (Wrapped.request s.allocator index p amount).take? index <;> rfl
  | release p amount quiet =>
    refine ⟨[.release p amount s.allocator.accounts.keys], ?_,
      ⟨(Allocator.step_release s.allocator p amount).2, trivial⟩, List.nil_prefix⟩
    show ((s.meet p).attempt (Wrapped.release s.allocator p amount)).2.allocator =
      Wrapped.step s.allocator (.release p amount s.allocator.accounts.keys)
    rw [Wrapped.step_release]
    cases Wrapped.release s.allocator p amount <;> rfl
  | releasePeer p quiet =>
    exact ⟨[.releasePeer p (s.allocator.accounts.erase p).keys],
      (Wrapped.step_releasePeer s.allocator p).symm,
      ⟨(Allocator.step_releasePeer s.allocator p).2, trivial⟩, List.nil_prefix⟩
  | abandon t =>
    exact ⟨[.abandon t], rfl, ⟨visits_of_not_freed rfl, trivial⟩, List.nil_prefix⟩

/-- **Sessions.**  A step of a session, with the answers that are read after it, is a run of
moves with words, which makes at most the request named by the number of the step. -/
theorem take_run (s : MemorySession) (index : Nat) (step : Step) :
    ∃ moves, (s.take index step).2.allocator = Wrapped.run s.allocator moves ∧
      s.allocator.Along Visits moves ∧
      (moves.filterMap MemoryMove.demand?).map Demand.ticket <+: [index] := by
  obtain ⟨moves, hact, hvisits, hticket⟩ := s.act_run index step
  by_cases hquiet : step.isQuiet = true
  · refine ⟨moves, ?_, hvisits, hticket⟩
    rw [← hact]
    simp only [take, hquiet, if_true]
  · have hread := readAnswers_run (s.act index step).2.allocator (s.act index step).2.requests
    refine ⟨moves ++ (s.act index step).2.requests.map .collect, ?_,
      along_append.mpr ⟨hvisits, along_collect _ _⟩, ?_⟩
    · rw [Wrapped.run, List.foldl_append]
      show _ = Wrapped.run (Wrapped.run s.allocator moves) _
      rw [← hact, ← hread]
      simp only [take, hquiet]
      rfl
    · have hnone : ((s.act index step).2.requests.map MemoryMove.collect).filterMap
          MemoryMove.demand? = [] := by
        rw [List.filterMap_map, List.filterMap_eq_nil_iff]
        exact fun _ _ => rfl
      rw [List.filterMap_append, hnone, List.append_nil]
      exact hticket

end MemorySession

end Outbox
