import Mathlib
import Outbox.Proofs.Memory.Waiting

/-!
# Two allocators apart by one request

One request waits in the line of a peer of one allocator and was never made to the other.  Nothing
else is different, except that behind the request dead ones may have been left which the other
allocator has dropped.  A grant pass over both keeps them so, or makes them equal once the request
is dropped, unless the request holds up one behind it that would fit.

* `Gap` — the line of the peer, with the request and without it;
* `Apart` — two allocators that differ in such a line only;
* `Allocator.blocks`, `Allocator.visited` — the request holds up another one, at some visit of a
  pass;
* `Alike` — two allocators that differ in empty accounts only;
* `Apart.visit`, `Apart.pass` — what a visit and a pass make of both.
-/

namespace Outbox

open Allocator

/-! ## What is there to see -/

namespace Allocator

/-- A request is at the head of the line and still wanted, and the next wanted one would fit. -/
def blocks (a : Allocator) (p : Peer) (t : Ticket) : Bool :=
  match (a.account p).line with
  | [] => false
  | w :: line =>
    w.live && w.ticket = t &&
      (line.find? (·.live)).any fun v => fits a.limits a.total (a.held p) v.amount

/-- The states of a pass right after each visit to a peer. -/
def visited (p : Peer) (a : Allocator) : List Peer → List Allocator
  | [] => []
  | q :: rest => (if q = p then [a.grantPeer q] else []) ++ visited p (a.grantPeer q) rest

end Allocator

/-- A line with a request in it. -/
structure Gap (t : Ticket) where
  /-- The bytes that the peer holds. -/
  held : Nat
  /-- Those ahead of the request. -/
  ahead : List Waiter
  /-- The request. -/
  waiter : Waiter
  /-- Those behind it that are dropped where it was never made. -/
  dropped : List Waiter
  /-- The others behind it. -/
  rest : List Waiter
  ticket : waiter.ticket = t
  dead : ∀ v ∈ dropped, v.live = false
  alone : ∀ v ∈ ahead ++ (dropped ++ rest), v.ticket ≠ t

namespace Gap

variable {t : Ticket}

/-- The account with the request. -/
def full (g : Gap t) : Account := ⟨g.held, g.ahead ++ g.waiter :: (g.dropped ++ g.rest)⟩

/-- The account without it. -/
def bare (g : Gap t) : Account := ⟨g.held, g.ahead ++ g.rest⟩

/-- The next one behind the request that is still wanted is not among those dropped. -/
theorem find?_behind (g : Gap t) :
    (g.dropped ++ g.rest).find? (·.live) = g.rest.find? (·.live) := by
  have hnone : g.dropped.find? (·.live) = none :=
    List.find?_eq_none.mpr fun v hv => by simp [g.dead v hv]
  rw [List.find?_append, hnone, Option.none_or]

/-- The gap after what is ahead has been served in part. -/
def advance (g : Gap t) (held : Nat) (ahead : List Waiter) (h : ahead ⊆ g.ahead) : Gap t :=
  { g with
    held
    ahead
    alone := fun v hv => g.alone v (by
      rcases List.mem_append.mp hv with hv | hv
      · exact List.mem_append_left _ (h hv)
      · exact List.mem_append_right _ hv) }

/-- The gap after a dead one behind the request has been dropped. -/
def drop (g : Gap t) (v : Waiter) (rest : List Waiter) (hrest : g.rest = v :: rest)
    (hdead : v.live = false) : Gap t :=
  { g with
    dropped := g.dropped ++ [v]
    rest
    dead := fun u hu => by
      rcases List.mem_append.mp hu with hu | hu
      · exact g.dead u hu
      · exact List.mem_singleton.mp hu ▸ hdead
    alone := fun u hu => g.alone u (by simpa [hrest] using hu) }

theorem full_drop (g : Gap t) {v : Waiter} {rest : List Waiter} (hrest : g.rest = v :: rest)
    (hdead : v.live = false) : (g.drop v rest hrest hdead).full = g.full := by
  simp [full, drop, hrest]

end Gap

/-- Two allocators that differ by one request in the line of a peer. -/
structure Apart {t : Ticket} (g : Gap t) (p : Peer) (a b : Allocator) : Prop where
  limits_eq : b.limits = a.limits
  total_eq : b.total = a.total
  answers_eq : b.answers = a.answers
  /-- The accounts of other peers are the same. -/
  others : ∀ q, q ≠ p → b.accounts.get? q = a.accounts.get? q
  full : a.account p = g.full
  bare : b.account p = g.bare
  /-- The request is nowhere else. -/
  elsewhere : ∀ q, q ≠ p → ∀ v ∈ (a.account q).line, v.ticket ≠ t
  /-- It has not been answered. -/
  unanswered : ∀ e ∈ a.answers, e.1 ≠ t

namespace Apart

variable {t : Ticket} {g : Gap t} {p q : Peer} {a b : Allocator}

theorem get?_full (h : Apart g p a b) : a.accounts.get? p = some g.full := by
  cases hget : a.accounts.get? p with
  | none =>
    have hline : ([] : List Waiter) = g.ahead ++ g.waiter :: (g.dropped ++ g.rest) :=
      congrArg Account.line ((account_of_none hget).symm.trans h.full)
    simp at hline
  | some c => rw [← h.full, account_of_get? hget]

/-- With nobody ahead of it the request is at the head of the line. -/
theorem get?_full_of_nil (h : Apart g p a b) (hahead : g.ahead = []) :
    a.accounts.get? p = some ⟨g.held, g.waiter :: (g.dropped ++ g.rest)⟩ := by
  rw [h.get?_full, Gap.full, hahead, List.nil_append]

/-- The other allocator has no account for the peer only if it would be empty. -/
theorem get?_bare (h : Apart g p a b) :
    b.accounts.get? p = some g.bare ∨
      b.accounts.get? p = none ∧ g.held = 0 ∧ g.ahead = [] ∧ g.rest = [] := by
  cases hget : b.accounts.get? p with
  | none =>
    have hbare := (account_of_none hget).symm.trans h.bare
    have hline : [] = g.ahead ++ g.rest := congrArg Account.line hbare
    have hheld : 0 = g.held := congrArg Account.held hbare
    exact .inr ⟨rfl, hheld.symm, List.append_eq_nil_iff.mp hline.symm⟩
  | some c => exact .inl (by rw [← h.bare, account_of_get? hget])

theorem account_other (h : Apart g p a b) (hq : q ≠ p) : b.account q = a.account q := by
  rw [account, Dict.getD, h.others q hq]
  rfl

theorem held_eq (h : Apart g p a b) : b.held = a.held := by
  refine funext fun q => ?_
  by_cases hq : q = p
  · rw [hq, held, held, h.full, h.bare]
    rfl
  · rw [held, held, h.account_other hq]

/-! ## Accounts replaced in both -/

/-- Both allocators replace the account of another peer alike. -/
theorem put_other (h : Apart g p a b) (hq : q ≠ p) (total : Nat) {c : Account}
    {more : List (Ticket × Grant)} (hline : ∀ v ∈ c.line, v.ticket ≠ t)
    (hmore : ∀ e ∈ more, e.1 ≠ t) :
    Apart g p (a.put total q c more) (b.put total q c more) where
  limits_eq := h.limits_eq
  total_eq := rfl
  answers_eq := by rw [put_answers, put_answers, h.answers_eq]
  others x hx := by rw [get?_put, get?_put, h.others x hx]
  full := by rw [account_put_of_ne (Ne.symm hq), h.full]
  bare := by rw [account_put_of_ne (Ne.symm hq), h.bare]
  elsewhere x hx := by
    by_cases hxq : x = q
    · rw [hxq, account_put_self]
      exact hline
    · rw [account_put_of_ne hxq]
      exact h.elsewhere x hx
  unanswered e he := by
    rcases List.mem_append.mp he with he | he
    · exact h.unanswered e he
    · exact hmore e he

/-- Both allocators replace the account of the peer, one with the request and one without. -/
theorem put_self (h : Apart g p a b) (total : Nat) (g' : Gap t) (more : List (Ticket × Grant))
    (hmore : ∀ e ∈ more, e.1 ≠ t) :
    Apart g' p (a.put total p g'.full more) (b.put total p g'.bare more) where
  limits_eq := h.limits_eq
  total_eq := rfl
  answers_eq := by rw [put_answers, put_answers, h.answers_eq]
  others x hx := by rw [get?_put_of_ne hx, get?_put_of_ne hx, h.others x hx]
  full := account_put_self
  bare := account_put_self
  elsewhere x hx := by
    rw [account_put_of_ne hx]
    exact h.elsewhere x hx
  unanswered e he := by
    rcases List.mem_append.mp he with he | he
    · exact h.unanswered e he
    · exact hmore e he

/-- The allocator without the request drops a dead one that stands behind it. -/
theorem put_bare (h : Apart g p a b) (g' : Gap t) (hfull : g'.full = g.full) :
    Apart g' p a (b.put b.total p g'.bare []) where
  limits_eq := h.limits_eq
  total_eq := h.total_eq
  answers_eq := by rw [put_answers, List.append_nil, h.answers_eq]
  others x hx := by rw [get?_put_of_ne hx, h.others x hx]
  full := h.full.trans hfull.symm
  bare := account_put_self
  elsewhere := h.elsewhere
  unanswered := h.unanswered

theorem prune (h : Apart g p a b) : Apart g p a.prune b.prune where
  limits_eq := h.limits_eq
  total_eq := h.total_eq
  answers_eq := h.answers_eq
  others x hx := by rw [get?_prune, get?_prune, h.others x hx]
  full := (a.account_prune p).trans h.full
  bare := (b.account_prune p).trans h.bare
  elsewhere x hx := by
    rw [account_prune]
    exact h.elsewhere x hx
  unanswered := h.unanswered

end Apart

/-! ## Equal but for empty accounts -/

/-- Two allocators that differ in empty accounts only. -/
structure Alike (a b : Allocator) : Prop where
  limits_eq : b.limits = a.limits
  total_eq : b.total = a.total
  answers_eq : b.answers = a.answers
  account_eq : ∀ q, b.account q = a.account q

namespace Alike

variable {a b c : Allocator} {p q : Peer}

theorem refl (a : Allocator) : Alike a a := ⟨rfl, rfl, rfl, fun _ => rfl⟩

theorem symm (h : Alike a b) : Alike b a :=
  ⟨h.limits_eq.symm, h.total_eq.symm, h.answers_eq.symm, fun q => (h.account_eq q).symm⟩

theorem trans (h : Alike a b) (h' : Alike b c) : Alike a c :=
  ⟨h'.limits_eq.trans h.limits_eq, h'.total_eq.trans h.total_eq,
    h'.answers_eq.trans h.answers_eq, fun q => (h'.account_eq q).trans (h.account_eq q)⟩

theorem put (h : Alike a b) (total : Nat) (p : Peer) (c : Account)
    (more : List (Ticket × Grant)) : Alike (a.put total p c more) (b.put total p c more) where
  limits_eq := h.limits_eq
  total_eq := rfl
  answers_eq := by rw [put_answers, put_answers, h.answers_eq]
  account_eq q := by
    by_cases hq : q = p
    · rw [hq, account_put_self, account_put_self]
    · rw [account_put_of_ne hq, account_put_of_ne hq, h.account_eq q]

/-- Pruning makes them equal. -/
theorem prune_eq (h : Alike a b) : a.prune = b.prune := by
  refine ext_accounts h.limits_eq.symm h.total_eq.symm h.answers_eq.symm fun x => ?_
  have hx := h.account_eq x
  rw [get?_prune, get?_prune]
  cases ha : a.accounts.get? x with
  | none =>
    cases hb : b.accounts.get? x with
    | none => rfl
    | some c =>
      rw [account_of_none ha, account_of_get? hb] at hx
      rw [hx]
      rfl
  | some c =>
    cases hb : b.accounts.get? x with
    | none =>
      rw [account_of_get? ha, account_of_none hb] at hx
      rw [← hx]
      rfl
    | some c' =>
      rw [account_of_get? ha, account_of_get? hb] at hx
      rw [hx]

/-- A peer without an account is served like one with an empty account. -/
theorem serve (a : Allocator) (p : Peer) :
    Alike (a.grantPeer p) (a.put (serve a.limits a.total (a.account p).held (a.account p).line).1 p
      (serve a.limits a.total (a.account p).held (a.account p).line).2.1
      ((serve a.limits a.total (a.account p).held (a.account p).line).2.2.map (·, .granted))) := by
  cases hget : a.accounts.get? p with
  | some c =>
    rw [grantPeer_eq hget, account_of_get? hget]
    exact refl _
  | none =>
    rw [grantPeer_of_none hget, account_of_none hget]
    refine ⟨rfl, rfl, List.append_nil _, fun q => ?_⟩
    by_cases hq : q = p
    · rw [hq, account_put_self, account_of_none hget]
      rfl
    · rw [account_put_of_ne hq]

theorem grantPeer (h : Alike a b) (q : Peer) : Alike (a.grantPeer q) (b.grantPeer q) := by
  have hb := serve b q
  rw [h.limits_eq, h.total_eq, h.account_eq q] at hb
  exact ((serve a q).trans (h.put ..)).trans hb.symm

theorem grantAlong (h : Alike a b) (order : List Peer) :
    a.grantAlong order = b.grantAlong order := by
  induction order generalizing a b with
  | nil => exact h.prune_eq
  | cons q rest ih => exact ih (h.grantPeer q)

end Alike

/-! ## A visit to the peer -/

/-- Serving a line leaves an end of it and grants some of the rest. -/
theorem Allocator.serve_mem (limits : MemoryLimits) (total held : Nat) (line : List Waiter) :
    (serve limits total held line).2.1.line <:+ line ∧
      ∀ u ∈ (serve limits total held line).2.2, ∃ v ∈ line, v.ticket = u := by
  induction line generalizing total held with
  | nil => exact ⟨List.suffix_refl _, fun u hu => by cases hu⟩
  | cons w line ih =>
    unfold serve
    split
    · obtain ⟨hleft, hgranted⟩ := ih total held
      refine ⟨hleft.trans (List.suffix_cons ..), fun u hu => ?_⟩
      obtain ⟨v, hv, hvu⟩ := hgranted u hu
      exact ⟨v, List.mem_cons_of_mem _ hv, hvu⟩
    · split
      · obtain ⟨hleft, hgranted⟩ := ih (total + w.amount) (held + w.amount)
        refine ⟨hleft.trans (List.suffix_cons ..), fun u hu => ?_⟩
        rcases List.mem_cons.mp hu with rfl | hu
        · exact ⟨w, List.mem_cons_self .., rfl⟩
        · obtain ⟨v, hv, hvu⟩ := hgranted u hu
          exact ⟨v, List.mem_cons_of_mem _ hv, hvu⟩
      · exact ⟨List.suffix_refl _, fun u hu => by cases hu⟩

namespace Apart

variable {t : Ticket} {g : Gap t} {p q : Peer} {a b : Allocator}

/-- A visit to another peer does the same in both. -/
theorem visit_other (h : Apart g p a b) (hq : q ≠ p) :
    Apart g p (a.grantPeer q) (b.grantPeer q) := by
  have hothers := h.others q hq
  cases hget : a.accounts.get? q with
  | none =>
    rw [hget] at hothers
    rwa [grantPeer_of_none hget, grantPeer_of_none hothers]
  | some c =>
    rw [hget] at hothers
    have hline : ∀ v ∈ c.line, v.ticket ≠ t := account_of_get? hget ▸ h.elsewhere q hq
    obtain ⟨hleft, hgranted⟩ := serve_mem a.limits a.total c.held c.line
    rw [grantPeer_eq hget, grantPeer_eq hothers, h.limits_eq, h.total_eq]
    refine h.put_other hq _ (fun v hv => hline v (hleft.subset hv)) fun e he => ?_
    obtain ⟨u, hu, rfl⟩ := List.mem_map.mp he
    obtain ⟨v, hv, rfl⟩ := hgranted u hu
    exact hline v hv

/-- While the request holds up the line of one allocator, the other one drops the dead ones behind
it. -/
theorem visit_behind (h : Apart g p a b) (hahead : g.ahead = [])
    (hnext : ∀ v, g.rest.find? (·.live) = some v →
      fits a.limits a.total g.held v.amount = false) :
    ∃ g' : Gap t, Apart g' p a (b.grantPeer p) := by
  induction hrest : g.rest generalizing g b with
  | nil =>
    refine ⟨g, ?_⟩
    rcases h.get?_bare with hget | ⟨hget, -⟩
    · rw [Gap.bare, hahead, hrest] at hget
      rwa [grantPeer_of_nil hget]
    · rwa [grantPeer_of_none hget]
  | cons v rest ih =>
    have hget : b.accounts.get? p = some ⟨g.held, v :: rest⟩ := by
      rcases h.get?_bare with hget | ⟨-, -, -, hnil⟩
      · rwa [Gap.bare, hahead, hrest] at hget
      · rw [hrest] at hnil
        cases hnil
    cases hlive : v.live with
    | true =>
      refine ⟨g, ?_⟩
      have hunfit := hnext v (by rw [hrest, List.find?_cons_of_pos hlive])
      rw [← h.limits_eq, ← h.total_eq] at hunfit
      rwa [grantPeer_of_unfit hget hlive hunfit]
    | false =>
      have hdrop := h.put_bare (g.drop v rest hrest hlive) (g.full_drop hrest hlive)
      have hbare : (g.drop v rest hrest hlive).bare = ⟨g.held, rest⟩ := by
        show (⟨g.held, g.ahead ++ rest⟩ : Account) = _
        rw [hahead, List.nil_append]
      rw [grantPeer_of_dead hget hlive, ← hbare]
      refine ih hdrop hahead (fun u hu => hnext u ?_) rfl
      rwa [hrest, List.find?_cons_of_neg (by simp [hlive])]

/-- Once nobody wants the request, both allocators are left with the same line. -/
theorem visit_dead (h : Apart g p a b) (hahead : g.ahead = []) (hdead : g.waiter.live = false) :
    Alike (a.grantPeer p) (b.grantPeer p) := by
  have hget := h.get?_full_of_nil hahead
  have hws : ∀ v ∈ g.waiter :: g.dropped, v.live = false := by
    intro v hv
    rcases List.mem_cons.mp hv with rfl | hv
    · exact hdead
    · exact g.dead v hv
  rw [grantPeer_of_all_dead hws hget]
  refine Alike.grantPeer (a := a.put a.total p ⟨g.held, g.rest⟩ [])
    ⟨h.limits_eq, h.total_eq, ?_, fun q => ?_⟩ p
  · rw [h.answers_eq, put_answers, List.append_nil]
  · by_cases hq : q = p
    · rw [hq, h.bare, account_put_self, Gap.bare, hahead, List.nil_append]
    · rw [account_put_of_ne hq, h.account_other hq]

/-- The request is granted: then it waits no more. -/
theorem visit_granted (h : Apart g p a b) (hahead : g.ahead = []) (hlive : g.waiter.live = true)
    (hfits : fits a.limits a.total g.held g.waiter.amount = true) :
    (a.grantPeer p).waits t = 0 := by
  have hget := h.get?_full_of_nil hahead
  rw [grantPeer_of_fits hget hlive hfits]
  refine Nat.le_zero.mp (le_trans (waits_grantPeer_le ..) (Nat.le_of_eq ?_))
  refine waits_eq_zero fun q v hv => ?_
  by_cases hq : q = p
  · rw [hq, account_put_self] at hv
    exact g.alone v (List.mem_append_right _ hv)
  · rw [account_put_of_ne hq] at hv
    exact h.elsewhere q hq v hv

/-- The request, at the head of its line, either holds it up, with nobody behind it who would fit,
or is dropped and makes no difference any more. -/
theorem visit_head (h : Apart g p a b) (hahead : g.ahead = [])
    (hlive : 0 < a.waits t → 0 < (a.grantPeer p).waits t)
    (hquiet : (a.grantPeer p).blocks p t = false) :
    Alike (a.grantPeer p) (b.grantPeer p) ∨
      ∃ g' : Gap t, Apart g' p (a.grantPeer p) (b.grantPeer p) := by
  have hget := h.get?_full_of_nil hahead
  cases hwaiter : g.waiter.live with
  | false => exact .inl (h.visit_dead hahead hwaiter)
  | true =>
    have hhead : g.waiter ∈ (a.account p).line := by
      rw [account_of_get? hget]
      exact List.mem_cons_self ..
    have hwaits := hlive (g.ticket ▸ waits_pos hhead hwaiter)
    cases hfits : fits a.limits a.total g.held g.waiter.amount with
    | true =>
      rw [h.visit_granted hahead hwaiter hfits] at hwaits
      exact absurd hwaits (Nat.lt_irrefl 0)
    | false =>
      have hsame := grantPeer_of_unfit hget hwaiter hfits
      rw [hsame] at hquiet ⊢
      refine .inr (h.visit_behind hahead fun v hv => ?_)
      rw [blocks, account_of_get? hget] at hquiet
      simp only [hwaiter, g.ticket, decide_true, Bool.true_and, g.find?_behind, hv,
        Option.any_some, held_of_get? hget] at hquiet
      exact hquiet

/-- A visit to the peer serves those ahead of the request alike, and then comes to the request. -/
theorem visit_self (h : Apart g p a b) (hlive : 0 < a.waits t → 0 < (a.grantPeer p).waits t)
    (hquiet : (a.grantPeer p).blocks p t = false) :
    Alike (a.grantPeer p) (b.grantPeer p) ∨
      ∃ g' : Gap t, Apart g' p (a.grantPeer p) (b.grantPeer p) := by
  induction hahead : g.ahead generalizing g a b with
  | nil => exact h.visit_head hahead hlive hquiet
  | cons v ahead ih =>
    have hget : a.accounts.get? p =
        some ⟨g.held, v :: (ahead ++ g.waiter :: (g.dropped ++ g.rest))⟩ := by
      rw [h.get?_full, Gap.full, hahead, List.cons_append]
    have hget' : b.accounts.get? p = some ⟨g.held, v :: (ahead ++ g.rest)⟩ := by
      rcases h.get?_bare with hget' | ⟨-, -, hnil, -⟩
      · rw [hget', Gap.bare, hahead, List.cons_append]
      · rw [hahead] at hnil
        cases hnil
    have hsub : ahead ⊆ g.ahead := hahead ▸ List.subset_cons_self ..
    have hv : v.ticket ≠ t :=
      g.alone v (List.mem_append_left _ (hahead ▸ List.mem_cons_self ..))
    cases hvlive : v.live with
    | false =>
      have hnext := h.put_self a.total (g.advance g.held ahead hsub) []
        fun e he => by cases he
      have hwaits := (Shift.dropped hget hvlive).waits_le t
      rw [grantPeer_of_dead hget hvlive] at hlive hquiet ⊢
      rw [grantPeer_of_dead hget' hvlive, h.total_eq]
      exact ih hnext (fun hpos => hlive (lt_of_lt_of_le hpos hwaits)) hquiet rfl
    | true =>
      cases hfits : fits a.limits a.total g.held v.amount with
      | false =>
        have hfits' : fits b.limits b.total g.held v.amount = false := by
          rwa [h.limits_eq, h.total_eq]
        rw [grantPeer_of_unfit hget hvlive hfits, grantPeer_of_unfit hget' hvlive hfits']
        exact .inr ⟨g, h⟩
      | true =>
        have hfits' : fits b.limits b.total g.held v.amount = true := by
          rwa [h.limits_eq, h.total_eq]
        have hnext := h.put_self (a.total + v.amount)
          (g.advance (g.held + v.amount) ahead hsub) [(v.ticket, .granted)]
          fun e he => by
            cases List.mem_singleton.mp he
            exact hv
        have hwaits := le_trans (Nat.le_add_right ..)
          ((Shift.served hget hvlive hfits).waits_le t)
        rw [grantPeer_of_fits hget hvlive hfits] at hlive hquiet ⊢
        rw [grantPeer_of_fits hget' hvlive hfits', h.total_eq]
        exact ih hnext (fun hpos => hlive (lt_of_lt_of_le hpos hwaits)) hquiet rfl

/-! ## A grant pass -/

/-- A pass in which the request, if it waits, goes on waiting and never blocks its line, makes both
equal or keeps them apart by it. -/
theorem pass (h : Apart g p a b) {order : List Peer}
    (hlive : 0 < a.waits t → 0 < (a.grantAlong order).waits t)
    (hquiet : ∀ c ∈ visited p a order, c.blocks p t = false) :
    a.grantAlong order = b.grantAlong order ∨
      ∃ g' : Gap t, Apart g' p (a.grantAlong order) (b.grantAlong order) := by
  induction order generalizing g a b with
  | nil => exact .inr ⟨g, h.prune⟩
  | cons q rest ih =>
    have hrest : ∀ c ∈ visited p (a.grantPeer q) rest, c.blocks p t = false :=
      fun c hc => hquiet c (List.mem_append_right _ hc)
    have hlater : 0 < (a.grantPeer q).waits t →
        0 < ((a.grantPeer q).grantAlong rest).waits t :=
      fun hpos => hlive (lt_of_lt_of_le hpos (a.waits_grantPeer_le q t))
    by_cases hq : q = p
    · subst hq
      have hvisit : 0 < a.waits t → 0 < (a.grantPeer q).waits t :=
        fun hpos => lt_of_lt_of_le (hlive hpos) (waits_grantAlong_le _ rest t)
      have hself : (a.grantPeer q).blocks q t = false :=
        hquiet _ (List.mem_append_left _ (by simp))
      rcases h.visit_self hvisit hself with halike | ⟨g', h'⟩
      · exact .inl (halike.grantAlong rest)
      · exact ih h' hlater hrest
    · exact ih (h.visit_other hq) hlater hrest

end Apart

end Outbox
