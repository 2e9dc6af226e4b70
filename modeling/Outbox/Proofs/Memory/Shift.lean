import Mathlib
import Outbox.Proofs.Memory.Book
import Outbox.Proofs.Memory.Moves

/-!
# Shifts of an allocator

Every move of an allocator is made of shifts, each of which touches one account: somebody joins a
line, is granted memory, is dropped or refused, or gives memory back.  What is to be shown of all
states of an allocator is shown of shifts.

* `Effect` — the requests made, the entries for the book and the answers given;
* `Shift`, `Shifts` — one shift, and shifts one after the other, with their effect;
* `Allocator.grantAlong_shifts` — a grant pass is made of shifts that grant what was asked for;
* `Allocator.Moved`, `Allocator.step_moved` — so is a move.
-/

namespace Outbox

/-- The answer that grants a request. -/
def Demand.grant (d : Demand) : Ticket × Grant := (d.ticket, .granted)

/-- What is seen of shifts. -/
structure Effect where
  /-- The requests made. -/
  made : List Demand := []
  /-- The entries for the book. -/
  posted : List Posting := []
  /-- The answers given. -/
  answers : List (Ticket × Grant) := []

namespace Effect

/-- One effect after the other. -/
def andThen (x y : Effect) : Effect where
  made := x.made ++ y.made
  posted := x.posted ++ y.posted
  answers := x.answers ++ y.answers

@[simp] theorem made_andThen (x y : Effect) : (x.andThen y).made = x.made ++ y.made := rfl

@[simp] theorem posted_andThen (x y : Effect) : (x.andThen y).posted = x.posted ++ y.posted := rfl

@[simp] theorem answers_andThen (x y : Effect) :
    (x.andThen y).answers = x.answers ++ y.answers := rfl

@[simp] theorem andThen_empty (x : Effect) : x.andThen {} = x := by
  simp [andThen]

theorem andThen_assoc (x y z : Effect) : (x.andThen y).andThen z = x.andThen (y.andThen z) := by
  simp [andThen]

/-- The effect of requests being granted. -/
def granting (ds : List Demand) : Effect where
  posted := ds.map .charged
  answers := ds.map Demand.grant

theorem granting_append (ds ds' : List Demand) :
    granting (ds ++ ds') = (granting ds).andThen (granting ds') := by
  simp [granting, andThen]

end Effect

open Allocator

/-- A shift of an allocator. -/
inductive Shift (a : Allocator) : Effect → Allocator → Prop where
  /-- A request joins the line. -/
  | joined (d : Demand) (h : (a.account d.peer).line = [] →
      fits a.limits a.total (a.held d.peer) d.amount = false) :
      Shift a { made := [d] } (a.put a.total d.peer
        ⟨a.held d.peer, (a.account d.peer).line ++ [⟨d.ticket, d.amount, true⟩]⟩ [])
  /-- A request is granted at once. -/
  | granted (d : Demand) (hline : (a.account d.peer).line = [])
      (hfits : fits a.limits a.total (a.held d.peer) d.amount = true) :
      Shift a { made := [d], posted := [.charged d], answers := [d.grant] }
        (a.put (a.total + d.amount) d.peer ⟨a.held d.peer + d.amount, []⟩ [d.grant])
  /-- The head of a line is granted. -/
  | served {p : Peer} {held : Nat} {w : Waiter} {line : List Waiter}
      (hget : a.accounts.get? p = some ⟨held, w :: line⟩) (hlive : w.live = true)
      (hfits : fits a.limits a.total held w.amount = true) :
      Shift a (.granting [⟨w.ticket, p, w.amount⟩])
        (a.put (a.total + w.amount) p ⟨held + w.amount, line⟩ [(w.ticket, .granted)])
  /-- The head of a line is dropped, since nobody wants it. -/
  | dropped {p : Peer} {held : Nat} {w : Waiter} {line : List Waiter}
      (hget : a.accounts.get? p = some ⟨held, w :: line⟩) (hdead : w.live = false) :
      Shift a {} (a.put a.total p ⟨held, line⟩ [])
  /-- The accounts that are empty are dropped. -/
  | pruned : Shift a {} a.prune
  /-- A peer gives some memory back. -/
  | returned {p : Peer} {n : Nat} {c : Account} (hget : a.accounts.get? p = some c)
      (hle : n ≤ c.held) :
      Shift a { posted := [.returned p n] }
        (a.put (a.total - n) p { c with held := c.held - n } [])
  /-- A peer gives all of its memory back. -/
  | cleared {p : Peer} {c : Account} (hget : a.accounts.get? p = some c) :
      Shift a { posted := [.cleared p], answers := dismissals p c.line }
        (a.strike (a.total - c.held) p (dismissals p c.line))
  /-- A peer without an account has nothing to give back. -/
  | missed {p : Peer} (hget : a.accounts.get? p = none) :
      Shift a { posted := [.cleared p] } a
  /-- Nobody wants the answer to a request any more. -/
  | abandoned (t : Ticket) : Shift a {} (a.abandon t)
  /-- The answer to a request is read. -/
  | collected (t : Ticket) :
      Shift a {} { a with answers := a.answers.filter (fun e => e.1 ≠ t) }

/-- Shifts one after the other. -/
inductive Shifts : Allocator → Effect → Allocator → Prop where
  | refl (a : Allocator) : Shifts a {} a
  | head {a b c : Allocator} {x y : Effect} (h : Shift a x b) (rest : Shifts b y c) :
      Shifts a (x.andThen y) c

namespace Shifts

variable {a b c : Allocator} {x y : Effect}

theorem single (h : Shift a x b) : Shifts a x b := x.andThen_empty ▸ head h (refl b)

theorem trans (h : Shifts a x b) (h' : Shifts b y c) : Shifts a (x.andThen y) c := by
  induction h with
  | refl a => exact h'
  | head hshift _ ih => exact Effect.andThen_assoc .. ▸ head hshift (ih h')

/-- What holds of the effect so far and the state, and is kept by every shift, is kept by
shifts. -/
theorem invariant {I : Effect → Allocator → Prop} {z : Effect} (h : Shifts a x b) (h0 : I z a)
    (hshift : ∀ z a x b, Shift a x b → I z a → I (z.andThen x) b) : I (z.andThen x) b := by
  induction h generalizing z with
  | refl a => rwa [Effect.andThen_empty]
  | head hs _ ih =>
    rw [← Effect.andThen_assoc]
    exact ih (hshift _ _ _ _ hs h0)

end Shifts

namespace Allocator

variable {a : Allocator} {p : Peer}

/-! ## A grant pass -/

/-- Serving a line is made of shifts. -/
theorem serve_shifts {held : Nat} {line : List Waiter}
    (hget : a.accounts.get? p = some ⟨held, line⟩) :
    ∃ ds : List Demand, Shifts a (.granting ds) (a.grantPeer p) ∧
      (a.grantPeer p).answers = a.answers ++ ds.map Demand.grant := by
  have hstop {a : Allocator} (hsame : a.grantPeer p = a) : ∃ ds : List Demand,
      Shifts a (.granting ds) (a.grantPeer p) ∧
        (a.grantPeer p).answers = a.answers ++ ds.map Demand.grant := by
    rw [hsame]
    exact ⟨[], .refl a, (List.append_nil _).symm⟩
  induction line generalizing a held with
  | nil => exact hstop (grantPeer_of_nil hget)
  | cons w line ih =>
    cases hlive : w.live with
    | false =>
      obtain ⟨ds, hshifts, hanswers⟩ := ih (a.get?_put_self a.total p ⟨held, line⟩ [])
      rw [grantPeer_of_dead hget hlive]
      refine ⟨ds, .head (.dropped hget hlive) hshifts, ?_⟩
      rw [hanswers, put_answers, List.append_nil]
    | true =>
      cases hfits : fits a.limits a.total held w.amount with
      | false => exact hstop (grantPeer_of_unfit hget hlive hfits)
      | true =>
        obtain ⟨ds, hshifts, hanswers⟩ := ih (a.get?_put_self
          (a.total + w.amount) p ⟨held + w.amount, line⟩ [(w.ticket, .granted)])
        rw [grantPeer_of_fits hget hlive hfits]
        refine ⟨⟨w.ticket, p, w.amount⟩ :: ds, .head (.served hget hlive hfits) hshifts, ?_⟩
        rw [hanswers, put_answers, List.append_assoc]
        rfl

theorem grantPeer_shifts (a : Allocator) (p : Peer) :
    ∃ ds : List Demand, Shifts a (.granting ds) (a.grantPeer p) ∧
      (a.grantPeer p).answers = a.answers ++ ds.map Demand.grant := by
  cases hget : a.accounts.get? p with
  | none =>
    have hsame : a.grantPeer p = a := by rw [grantPeer, hget]
    rw [hsame]
    exact ⟨[], .refl a, (List.append_nil _).symm⟩
  | some c => exact serve_shifts hget

/-- A grant pass is made of shifts. -/
theorem grantAlong_shifts (a : Allocator) (order : List Peer) :
    ∃ ds : List Demand, Shifts a (.granting ds) (a.grantAlong order) ∧
      (a.grantAlong order).answers = a.answers ++ ds.map Demand.grant := by
  induction order generalizing a with
  | nil => exact ⟨[], .single .pruned, (List.append_nil _).symm⟩
  | cons p rest ih =>
    obtain ⟨ds, hshifts, hanswers⟩ := a.grantPeer_shifts p
    obtain ⟨ds', hshifts', hanswers'⟩ := ih (a.grantPeer p)
    refine ⟨ds ++ ds', Effect.granting_append .. ▸ hshifts.trans hshifts', ?_⟩
    rw [List.map_append, ← List.append_assoc, ← hanswers]
    exact hanswers'

/-! ## Moves -/

/-- The entries for what a move itself gives back. -/
def repaid (a : Allocator) (m : MemoryMove) : List Posting :=
  match m with
  | .release p amount _ => if a.refusal? m = none then [.returned p amount] else []
  | .releasePeer p _ => [.cleared p]
  | _ => []

theorem answered_eq {m : MemoryMove} {more : List (Ticket × Grant)}
    (h : (a.step m).answers = a.answers ++ more) : a.answered m = more := by
  rw [answered, h, List.drop_left]

/-- Removing answers gives none. -/
theorem answered_of_le {m : MemoryMove}
    (h : (a.step m).answers.length ≤ a.answers.length) : a.answered m = [] :=
  List.drop_eq_nil_of_le h

/-- The requests that a move grants: its entries for the book are what it gives back itself, and
then a charge for each of them. -/
structure Moved (a : Allocator) (m : MemoryMove) (ds : List Demand) : Prop where
  /-- The move is made of shifts. -/
  shifts : Shifts a ⟨m.demand?.toList, a.repaid m ++ ds.map .charged, a.answered m⟩ (a.step m)
  /-- They are the requests that are answered so. -/
  granted : (a.answered m).filter (·.2 = .granted) = ds.map Demand.grant

theorem filter_grants (ds : List Demand) :
    (ds.map Demand.grant).filter (·.2 = .granted) = ds.map Demand.grant := by
  refine List.filter_eq_self.mpr fun e he => ?_
  obtain ⟨d, -, rfl⟩ := List.mem_map.mp he
  rfl

theorem filter_dismissals (p : Peer) (line : List Waiter) :
    (dismissals p line).filter (·.2 = .granted) = [] := by
  refine List.filter_eq_nil_iff.mpr fun e he => ?_
  obtain ⟨w, -, rfl⟩ := List.mem_map.mp he
  simp

theorem request_moved (a : Allocator) (d : Demand) : ∃ ds, a.Moved (.request d) ds := by
  rcases a.request_cases d with ⟨hline, hfits, hstep⟩ | ⟨hjoin, hstep⟩
  · have hanswered : a.answered (.request d) = [d.grant] := answered_eq (by rw [hstep]; rfl)
    refine ⟨[d], ?_, ?_⟩
    · rw [hanswered, hstep]
      exact .single (.granted d hline hfits)
    · rw [hanswered]
      rfl
  · have hanswered : a.answered (.request d) = [] := answered_eq (by rw [hstep]; rfl)
    refine ⟨[], ?_, ?_⟩
    · rw [hanswered, hstep]
      exact .single (.joined d hjoin)
    · rw [hanswered]
      rfl

theorem release_moved (a : Allocator) (p : Peer) (n : Nat) (order : List Peer) :
    ∃ ds, a.Moved (.release p n order) ds := by
  cases hg : a.giveBack p n with
  | error e =>
    have hsame : a.step (.release p n order) = a := by simp [step, freed, hg, Except.toOption]
    have hanswered : a.answered (.release p n order) = [] := answered_of_le (by rw [hsame])
    have hrepaid : a.repaid (.release p n order) = [] := by simp [repaid, refusal?, hg]
    refine ⟨[], ?_, ?_⟩
    · rw [hanswered, hrepaid, hsame]
      exact .refl a
    · rw [hanswered]
      rfl
  | ok b =>
    have hstep := step_of_freed (freed_release_of_ok hg order)
    have hrepaid : a.repaid (.release p n order) = [.returned p n] := by
      simp [repaid, refusal?, hg]
    obtain ⟨c, hget, hle, rfl⟩ := giveBack_eq_ok_iff.mp hg
    obtain ⟨ds, hshifts, hanswers⟩ := grantAlong_shifts
      (a.put (a.total - n) p { c with held := c.held - n } []) order
    have hanswered : a.answered (.release p n order) = ds.map Demand.grant := by
      refine answered_eq ?_
      rw [hstep, hanswers, put_answers, List.append_nil]
    refine ⟨ds, ?_, ?_⟩
    · rw [hanswered, hrepaid, hstep]
      exact .head (.returned hget hle) hshifts
    · rw [hanswered, filter_grants]

theorem releasePeer_moved (a : Allocator) (p : Peer) (order : List Peer) :
    ∃ ds, a.Moved (.releasePeer p order) ds := by
  cases hget : a.accounts.get? p with
  | none =>
    have hsame : a.step (.releasePeer p order) = a := by simp [step, freed, clear, hget]
    have hanswered : a.answered (.releasePeer p order) = [] := answered_of_le (by rw [hsame])
    refine ⟨[], ?_, ?_⟩
    · rw [hanswered, hsame]
      exact .single (.missed hget)
    · rw [hanswered]
      rfl
  | some c =>
    have hstep := step_of_freed
      (freed_releasePeer_of_clear (clear_eq_some_iff.mpr ⟨c, hget, rfl⟩) order)
    obtain ⟨ds, hshifts, hanswers⟩ := grantAlong_shifts
      (a.strike (a.total - c.held) p (dismissals p c.line)) order
    have hanswered : a.answered (.releasePeer p order) =
        dismissals p c.line ++ ds.map Demand.grant := by
      refine answered_eq ?_
      rw [hstep, hanswers, ← List.append_assoc]
      rfl
    refine ⟨ds, ?_, ?_⟩
    · rw [hanswered, hstep]
      exact .head (.cleared hget) hshifts
    · rw [hanswered, List.filter_append, filter_dismissals, filter_grants, List.nil_append]

/-- A move is made of shifts. -/
theorem step_moved (a : Allocator) (m : MemoryMove) : ∃ ds, a.Moved m ds := by
  cases m with
  | request d => exact a.request_moved d
  | release p n order => exact a.release_moved p n order
  | releasePeer p order => exact a.releasePeer_moved p order
  | abandon t =>
    have hanswered : a.answered (.abandon t) = [] := answered_of_le (List.length_filter_le ..)
    refine ⟨[], ?_, ?_⟩
    · rw [hanswered]
      exact .single (.abandoned t)
    · rw [hanswered]
      rfl
  | collect t =>
    have hanswered : a.answered (.collect t) = [] := by
      refine answered_of_le ?_
      rw [step_collect]
      exact List.length_filter_le ..
    refine ⟨[], ?_, ?_⟩
    · rw [hanswered, step_collect]
      exact .single (.collected t)
    · rw [hanswered]
      rfl

end Allocator

end Outbox
