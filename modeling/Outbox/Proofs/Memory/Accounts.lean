import Mathlib
import Outbox.Memory.Allocator
import Outbox.Proofs.Dict

/-!
# Accounts of an allocator

Every operation of an allocator replaces accounts one at a time, and serves lines head by head.

* `Allocator.put`, `Allocator.strike` — one account is replaced or removed, and answers are added;
* `Account.forsake` — a request that nobody wants any more stays in line as a dead one;
* `Allocator.ext_accounts` — allocators are equal if nothing tells them apart;
* `Allocator.get?_put`, `Allocator.get?_prune`, `Allocator.get?_abandon` — the accounts after a
  change;
* `Allocator.held_put`, `Allocator.held_prune`, `Allocator.held_abandon` — what is held after it;
* `Allocator.grantPeer_of_fits`, `Allocator.grantPeer_of_unfit`, `Allocator.grantPeer_of_dead` —
  the line of one peer is served.
-/

namespace Outbox

/-- The account when nobody wants the answer to a request any more. -/
def Account.forsake (t : Ticket) (c : Account) : Account :=
  { c with line := c.line.map fun w => if w.ticket = t then { w with live := false } else w }

@[simp] theorem Account.held_forsake (t : Ticket) (c : Account) : (c.forsake t).held = c.held := rfl

namespace Allocator

variable {a b : Allocator} {p q : Peer}

/-- Allocators are equal if nothing tells them apart, account by account. -/
theorem ext_accounts (hlimits : a.limits = b.limits) (htotal : a.total = b.total)
    (hanswers : a.answers = b.answers)
    (haccounts : ∀ p, a.accounts.get? p = b.accounts.get? p) : a = b := by
  obtain ⟨limits, total, accounts, answers⟩ := a
  obtain ⟨limits', total', accounts', answers'⟩ := b
  obtain rfl : limits = limits' := hlimits
  obtain rfl : total = total' := htotal
  obtain rfl : answers = answers' := hanswers
  obtain rfl : accounts = accounts' := Dict.ext_get? haccounts
  rfl

/-! ## One account replaced -/

/-- Replaces the account of a peer and what is held in total, and adds answers. -/
def put (a : Allocator) (total : Nat) (p : Peer) (c : Account) (more : List (Ticket × Grant)) :
    Allocator :=
  { a with
    total
    accounts := a.accounts.insert p c
    answers := a.answers ++ more }

/-- Removes the account of a peer, replaces what is held in total, and adds answers. -/
def strike (a : Allocator) (total : Nat) (p : Peer) (more : List (Ticket × Grant)) : Allocator :=
  { a with
    total
    accounts := a.accounts.erase p
    answers := a.answers ++ more }

section put

variable {total : Nat} {c : Account} {more : List (Ticket × Grant)}

@[simp] theorem put_limits : (a.put total p c more).limits = a.limits := rfl

@[simp] theorem put_total : (a.put total p c more).total = total := rfl

@[simp] theorem put_answers : (a.put total p c more).answers = a.answers ++ more := rfl

theorem get?_put (a : Allocator) (total : Nat) (p : Peer) (c : Account)
    (more : List (Ticket × Grant)) (x : Peer) :
    (a.put total p c more).accounts.get? x = if x = p then some c else a.accounts.get? x :=
  Dict.get?_insert ..

theorem get?_strike (a : Allocator) (total : Nat) (p : Peer) (more : List (Ticket × Grant))
    (x : Peer) : (a.strike total p more).accounts.get? x =
      if x = p then none else a.accounts.get? x :=
  Dict.get?_erase ..

theorem get?_put_self (a : Allocator) (total : Nat) (p : Peer) (c : Account)
    (more : List (Ticket × Grant)) : (a.put total p c more).accounts.get? p = some c := by
  rw [get?_put, if_pos rfl]

theorem get?_put_of_ne (h : q ≠ p) :
    (a.put total p c more).accounts.get? q = a.accounts.get? q := by
  rw [get?_put, if_neg h]

/-- Of two accounts put for the same peer the later one counts. -/
theorem put_put (a : Allocator) (total total' : Nat) (p : Peer) (c c' : Account)
    (more more' : List (Ticket × Grant)) :
    (a.put total p c more).put total' p c' more' = a.put total' p c' (more ++ more') := by
  simp only [put, Dict.insert_insert, List.append_assoc]

/-- To put what is there changes nothing. -/
theorem put_eq_self (h : a.accounts.get? p = some c) : a.put a.total p c [] = a := by
  rw [put, Dict.insert_eq_self h, List.append_nil]

end put

theorem account_of_get? {c : Account} (h : a.accounts.get? p = some c) : a.account p = c := by
  rw [account, Dict.getD, h, Option.getD_some]

theorem account_of_none (h : a.accounts.get? p = none) : a.account p = {} := by
  rw [account, Dict.getD, h, Option.getD_none]

/-! ## What is held -/

theorem held_of_get? (h : a.accounts.get? p = some c) : a.held p = c.held := by
  rw [held, account_of_get? h]

theorem held_of_none (h : a.accounts.get? p = none) : a.held p = 0 := by
  rw [held, account_of_none h]

theorem account_put_self {total : Nat} {c : Account} {more : List (Ticket × Grant)} :
    (a.put total p c more).account p = c := account_of_get? (get?_put_self ..)

theorem account_put_of_ne {total : Nat} {c : Account} {more : List (Ticket × Grant)}
    (h : q ≠ p) : (a.put total p c more).account q = a.account q := by
  rw [account, Dict.getD, get?_put_of_ne h]
  rfl

theorem held_put (a : Allocator) (total : Nat) (p : Peer) (c : Account)
    (more : List (Ticket × Grant)) :
    (a.put total p c more).held = Function.update a.held p c.held := by
  refine funext fun x => ?_
  by_cases hx : x = p
  · rw [hx, Function.update_self, held_of_get? (get?_put_self ..)]
  · rw [Function.update_of_ne hx, held, account_put_of_ne hx]
    rfl

theorem account_strike_self {total : Nat} {more : List (Ticket × Grant)} :
    (a.strike total p more).account p = {} := by
  refine account_of_none ?_
  rw [get?_strike, if_pos rfl]

theorem account_strike_of_ne {total : Nat} {more : List (Ticket × Grant)} (h : q ≠ p) :
    (a.strike total p more).account q = a.account q := by
  rw [account, Dict.getD, get?_strike, if_neg h]
  rfl

theorem held_strike (a : Allocator) (total : Nat) (p : Peer) (more : List (Ticket × Grant)) :
    (a.strike total p more).held = Function.update a.held p 0 := by
  refine funext fun x => ?_
  by_cases hx : x = p
  · rw [hx, Function.update_self, held, account_strike_self]
  · rw [Function.update_of_ne hx, held, account_strike_of_ne hx]
    rfl

theorem get?_prune (a : Allocator) (x : Peer) :
    a.prune.accounts.get? x =
      (a.accounts.get? x).filter fun c => decide (0 < c.held ∨ !c.line.isEmpty) :=
  Dict.get?_filter ..

theorem get?_abandon (a : Allocator) (t : Ticket) (x : Peer) :
    (a.abandon t).accounts.get? x = (a.accounts.get? x).map (Account.forsake t) :=
  Dict.get?_mapValues ..

/-- Only accounts that are empty anyway are dropped. -/
theorem account_prune (a : Allocator) (p : Peer) : a.prune.account p = a.account p := by
  have hp := a.get?_prune p
  cases hget : a.accounts.get? p with
  | none =>
    rw [hget, Option.filter_none] at hp
    rw [account_of_none hp, account_of_none hget]
  | some c =>
    rw [account_of_get? hget]
    by_cases hkeep : 0 < c.held ∨ !c.line.isEmpty
    · rw [hget, Option.filter_some, if_pos (by simpa using hkeep)] at hp
      exact account_of_get? hp
    · rw [hget, Option.filter_some, if_neg (by simpa using hkeep)] at hp
      rw [account_of_none hp]
      obtain ⟨held, line⟩ := c
      simp only [not_or, Nat.not_lt, Nat.le_zero, Bool.not_eq_true, Bool.not_eq_false',
        List.isEmpty_iff] at hkeep
      rw [hkeep.1, hkeep.2]

theorem held_prune (a : Allocator) : a.prune.held = a.held :=
  funext fun p => congrArg Account.held (a.account_prune p)

/-- A request that nobody wants any more stays in line as a dead one. -/
theorem account_abandon (a : Allocator) (t : Ticket) (p : Peer) :
    (a.abandon t).account p = (a.account p).forsake t := by
  have hp := a.get?_abandon t p
  cases hget : a.accounts.get? p with
  | none =>
    rw [hget, Option.map_none] at hp
    rw [account_of_none hp, account_of_none hget]
    rfl
  | some c =>
    rw [hget, Option.map_some] at hp
    rw [account_of_get? hget, account_of_get? hp]

theorem abandon_eq_self {t : Ticket} (hline : ∀ p, ∀ w ∈ (a.account p).line, w.ticket ≠ t)
    (hanswers : ∀ e ∈ a.answers, e.1 ≠ t) : a.abandon t = a := by
  refine ext_accounts rfl rfl ?_ fun p => ?_
  · exact List.filter_eq_self.mpr fun e he => by simpa using hanswers e he
  · rw [get?_abandon]
    cases hget : a.accounts.get? p with
    | none => rfl
    | some c =>
      have hsame : c.line.map (fun w => if w.ticket = t then { w with live := false } else w) =
          c.line := by
        refine (List.map_congr_left fun w hw => ?_).trans (List.map_id _)
        rw [if_neg (hline p w (account_of_get? hget ▸ hw))]
        rfl
      rw [Option.map_some, Account.forsake, hsame]

theorem held_abandon (a : Allocator) (t : Ticket) : (a.abandon t).held = a.held :=
  funext fun p => (congrArg Account.held (a.account_abandon t p)).trans (Account.held_forsake ..)

/-! ## Serving a line -/

section line

variable {held : Nat} {w : Waiter} {line : List Waiter}

theorem grantPeer_eq {c : Account} (hget : a.accounts.get? p = some c) :
    a.grantPeer p = a.put (serve a.limits a.total c.held c.line).1 p
      (serve a.limits a.total c.held c.line).2.1
      ((serve a.limits a.total c.held c.line).2.2.map (·, .granted)) := by
  rw [grantPeer, hget]
  rfl

theorem grantPeer_of_none (hget : a.accounts.get? p = none) : a.grantPeer p = a := by
  rw [grantPeer, hget]

theorem grantPeer_of_nil (hget : a.accounts.get? p = some ⟨held, []⟩) : a.grantPeer p = a := by
  rw [grantPeer_eq hget]
  exact put_eq_self hget

/-- A head that does not fit stops the line. -/
theorem grantPeer_of_unfit (hget : a.accounts.get? p = some ⟨held, w :: line⟩)
    (hlive : w.live = true) (hfits : fits a.limits a.total held w.amount = false) :
    a.grantPeer p = a := by
  rw [grantPeer_eq hget]
  simp only [serve, hlive, hfits, Bool.not_true, Bool.false_eq_true, if_false, List.map_nil]
  exact put_eq_self hget

/-- A head that fits is granted, and then the rest of the line is served. -/
theorem grantPeer_of_fits (hget : a.accounts.get? p = some ⟨held, w :: line⟩)
    (hlive : w.live = true) (hfits : fits a.limits a.total held w.amount = true) :
    a.grantPeer p = (a.put (a.total + w.amount) p ⟨held + w.amount, line⟩
      [(w.ticket, .granted)]).grantPeer p := by
  rw [grantPeer_eq hget, grantPeer_eq (get?_put_self ..), put_put]
  simp only [serve, hlive, hfits, Bool.not_true, Bool.false_eq_true, if_false, if_true,
    put_limits, put_total, List.map_cons, List.singleton_append]

/-- A head that nobody wants is dropped, and then the rest of the line is served. -/
theorem grantPeer_of_dead (hget : a.accounts.get? p = some ⟨held, w :: line⟩)
    (hdead : w.live = false) :
    a.grantPeer p = (a.put a.total p ⟨held, line⟩ []).grantPeer p := by
  rw [grantPeer_eq hget, grantPeer_eq (get?_put_self ..), put_put]
  simp only [serve, hdead, Bool.not_false, if_true, put_limits, put_total, List.nil_append]

/-- Those at the front that nobody wants are dropped, and then the rest of the line is served. -/
theorem grantPeer_of_all_dead {ws : List Waiter} (hws : ∀ v ∈ ws, v.live = false)
    (hget : a.accounts.get? p = some ⟨held, ws ++ line⟩) :
    a.grantPeer p = (a.put a.total p ⟨held, line⟩ []).grantPeer p := by
  induction ws generalizing a with
  | nil =>
    rw [List.nil_append] at hget
    rw [put_eq_self hget]
  | cons v ws ih =>
    have hrest := ih (a := a.put a.total p ⟨held, ws ++ line⟩ [])
      (fun u hu => hws u (List.mem_cons_of_mem _ hu)) (get?_put_self ..)
    rw [put_put] at hrest
    exact (grantPeer_of_dead hget (hws v (List.mem_cons_self ..))).trans hrest

end line

end Allocator

end Outbox
