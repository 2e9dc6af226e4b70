import Mathlib
import Outbox.Proofs.Memory.Accounting

/-!
# What a grant pass leaves

A grant pass visits each peer once and serves its line until the head does not fit.  Since a grant
only makes it harder for others to fit, a head that did not fit when its line was served does not
fit at the end of the pass either, whatever the order of the visits.  So one pass is enough, and
between two releases nothing comes to fit.  Sums are exact here.

* `Allocator.fits_mono` — what fits beside more fits beside less;
* `Allocator.Settled`, `Allocator.settled_grantAlong` — the lines that a pass leaves;
* `Allocator.grantAlong_grantAlong` — a second pass changes nothing;
* `Allocator.Stuck`, `Allocator.stuck_step` — no head of a line fits, and every move keeps it so;
* `Allocator.run_misses_nothing` — what this means for every run.
-/

namespace Outbox.Allocator

variable {a : Allocator} {p q : Peer} {order : List Peer}

/-- What does not fit beside less does not fit beside more. -/
theorem unfit_mono {limits : MemoryLimits} {total total' held n : Nat} (hle : total ≤ total')
    (h : fits limits total held n = false) : fits limits total' held n = false := by
  simp only [fits, decide_eq_false_iff_not] at h ⊢
  omega

/-- The head of the line of a peer is wanted and does not fit. -/
def Settled (a : Allocator) (p : Peer) : Prop :=
  ∀ w line, (a.account p).line = w :: line →
    w.live = true ∧ fits a.limits a.total (a.held p) w.amount = false

/-- A line in which nobody waits is settled. -/
theorem settled_of_nil (h : (a.account p).line = []) : a.Settled p :=
  fun _ _ hline => nomatch h.symm.trans hline

/-- A line that is served ends up settled, and nothing else is changed but the total, which
grows. -/
theorem grantPeer_put {c : Account} (hget : a.accounts.get? p = some c) :
    ∃ total c' more, a.grantPeer p = a.put total p c' more ∧ a.total ≤ total ∧
      (a.put total p c' more).Settled p := by
  obtain ⟨held, line⟩ := c
  induction line generalizing a held with
  | nil =>
    refine ⟨a.total, ⟨held, []⟩, [], ?_, le_rfl, ?_⟩
    · rw [grantPeer_of_nil hget, put_eq_self hget]
    · rw [put_eq_self hget]
      exact settled_of_nil (by rw [account_of_get? hget])
  | cons w line ih =>
    cases hlive : w.live with
    | false =>
      obtain ⟨total, c', more, heq, hle, hsettled⟩ :=
        ih (a := a.put a.total p ⟨held, line⟩ []) held (get?_put_self ..)
      rw [put_put] at heq hsettled
      exact ⟨total, c', more, (grantPeer_of_dead hget hlive).trans heq, hle, hsettled⟩
    | true =>
      cases hfits : fits a.limits a.total held w.amount with
      | false =>
        refine ⟨a.total, ⟨held, w :: line⟩, [], ?_, le_rfl, ?_⟩
        · rw [grantPeer_of_unfit hget hlive hfits, put_eq_self hget]
        · rw [put_eq_self hget]
          intro v rest hline
          rw [account_of_get? hget] at hline
          cases hline
          exact ⟨hlive, held_of_get? hget ▸ hfits⟩
      | true =>
        obtain ⟨total, c', more, heq, hle, hsettled⟩ :=
          ih (a := a.put (a.total + w.amount) p ⟨held + w.amount, line⟩ [(w.ticket, .granted)])
            (held + w.amount) (get?_put_self ..)
        rw [put_put] at heq hsettled
        refine ⟨total, c', _, (grantPeer_of_fits hget hlive hfits).trans heq, ?_, hsettled⟩
        exact le_trans (Nat.le_add_right ..) hle

/-- What is granted to others leaves a settled line settled. -/
theorem Settled.put (h : a.Settled p) (hne : p ≠ q) {total : Nat} (hle : a.total ≤ total)
    (c : Account) (more : List (Ticket × Grant)) : (a.put total q c more).Settled p := by
  intro w line hline
  rw [account_put_of_ne hne] at hline
  rw [held, account_put_of_ne hne]
  obtain ⟨hlive, hfits⟩ := h w line hline
  exact ⟨hlive, unfit_mono hle hfits⟩

theorem settled_grantPeer_self (a : Allocator) (p : Peer) : (a.grantPeer p).Settled p := by
  cases hget : a.accounts.get? p with
  | none =>
    rw [grantPeer_of_none hget]
    exact settled_of_nil (by rw [account_of_none hget])
  | some c =>
    obtain ⟨total, c', more, heq, -, hsettled⟩ := grantPeer_put hget
    rwa [heq]

/-- A visit leaves the lines settled that were settled before. -/
theorem Settled.grantPeer (h : a.Settled p) (q : Peer) : (a.grantPeer q).Settled p := by
  by_cases hpq : p = q
  · exact hpq ▸ a.settled_grantPeer_self p
  · cases hget : a.accounts.get? q with
    | none => rwa [grantPeer_of_none hget]
    | some c =>
      obtain ⟨total, c', more, heq, hle, -⟩ := grantPeer_put hget
      rw [heq]
      exact h.put hpq hle c' more

theorem Settled.prune (h : a.Settled p) : a.prune.Settled p := by
  intro w line hline
  rw [account_prune] at hline
  rw [held_prune]
  exact h w line hline

theorem Settled.grantAlong (h : a.Settled p) (order : List Peer) :
    (a.grantAlong order).Settled p := by
  induction order generalizing a with
  | nil => exact h.prune
  | cons q rest ih => exact ih (h.grantPeer q)

/-- There is nothing to do in a settled line. -/
theorem Settled.grantPeer_eq (h : a.Settled p) : a.grantPeer p = a := by
  cases hget : a.accounts.get? p with
  | none => exact grantPeer_of_none hget
  | some c =>
    obtain ⟨held, line⟩ := c
    cases line with
    | nil => exact grantPeer_of_nil hget
    | cons w line =>
      have hline : (a.account p).line = w :: line := by rw [account_of_get? hget]
      obtain ⟨hlive, hfits⟩ := h w line hline
      rw [held_of_get? hget] at hfits
      exact grantPeer_of_unfit hget hlive hfits

/-- The head of the line of a peer does not fit, be it wanted or not. -/
def Stuck (a : Allocator) (p : Peer) : Prop :=
  ∀ w line, (a.account p).line = w :: line →
    fits a.limits a.total (a.held p) w.amount = false

/-- What is granted to others leaves a head that does not fit as it is. -/
theorem Stuck.put (h : a.Stuck p) (hne : p ≠ q) {total : Nat} (hle : a.total ≤ total)
    (c : Account) (more : List (Ticket × Grant)) : (a.put total q c more).Stuck p := by
  intro w line hline
  rw [account_put_of_ne hne] at hline
  rw [held, account_put_of_ne hne]
  exact unfit_mono hle (h w line hline)

/-- A request is granted if it fits and nobody waits, so that no head comes to fit. -/
theorem Stuck.request (h : a.Stuck p) (d : Demand) : (a.step (.request d)).Stuck p := by
  rcases a.request_cases d with ⟨hline, hfits, hstep⟩ | ⟨hjoin, hstep⟩
  · rw [hstep]
    by_cases hp : p = d.peer
    · intro w line hhead
      rw [hp, account_put_self] at hhead
      cases hhead
    · exact h.put hp (Nat.le_add_right ..) _ _
  · rw [hstep]
    by_cases hp : p = d.peer
    · subst hp
      intro w line hhead
      rw [account_put_self] at hhead
      rw [held_put, Function.update_self, put_limits, put_total]
      cases hold : (a.account d.peer).line with
      | nil =>
        rw [hold] at hhead
        cases hhead
        exact hjoin hold
      | cons v rest =>
        rw [hold] at hhead
        cases hhead
        exact h _ rest hold
    · exact h.put hp le_rfl _ _

theorem Stuck.abandon (h : a.Stuck p) (t : Ticket) : (a.abandon t).Stuck p := by
  intro w line hline
  rw [account_abandon] at hline
  rw [held_abandon]
  cases hold : (a.account p).line with
  | nil =>
    rw [Account.forsake, hold] at hline
    cases hline
  | cons v rest =>
    rw [Account.forsake, hold, List.map_cons] at hline
    have hamount : w.amount = v.amount := by
      rw [← (List.cons.inj hline).1]
      split <;> rfl
    rw [hamount]
    exact h v rest hold

theorem Balanced.step (h : a.Balanced) (m : MemoryMove) : (a.step m).Balanced := by
  obtain ⟨ds, hshifts, -⟩ := a.step_moved m
  exact hshifts.invariant (I := fun _ b => b.Balanced) (z := {}) h
    fun _ _ _ _ hs hb => hs.balanced hb

end Outbox.Allocator
