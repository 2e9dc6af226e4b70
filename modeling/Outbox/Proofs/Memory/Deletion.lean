import Mathlib
import Outbox.Proofs.Memory.Apart

/-!
# A request that is abandoned while it waits

Two runs are compared: one in which a request is made, waits and is abandoned, and one without it,
in which everything else is done in the same order.  Nothing is different to be seen, neither what
is refused, granted or read nor what anybody holds, unless the place of the request in its line
decides a move.

* `Account.isLeftTo` — nobody else can be wanted in a line;
* `Allocator.reveals` — the moves that the place of a request decides;
* `Apart.step`, `Matched.records_eq` — all other moves do the same beside the request;
* `Allocator.abandoned_unseen` — so it leaves no trace;
* `Allocator.smaller_request_waits` — while one that is decided by it does.
-/

namespace Outbox

open Allocator

/-- A request is at the head of the line, and nobody behind it is wanted any more. -/
def Account.isLeftTo (t : Ticket) (c : Account) : Bool :=
  match c.line with
  | [] => false
  | w :: line => w.ticket = t && line.all fun v => !v.live

/-- The place of a request in the line of its peer decides a move: a request of the peer that
would fit while the line is left to the request; a release by the peer while it holds nothing and
its line is left to the request; or a grant pass in which the request, still wanted, holds up
another one that would fit. -/
def Allocator.reveals (t : Ticket) (p : Peer) (a : Allocator) (m : MemoryMove) : Bool :=
  (match m with
    | .request d => d.peer = p && (a.account p).isLeftTo t &&
        fits a.limits a.total (a.held p) d.amount
    | .release q _ _ | .releasePeer q _ => q = p && (a.account p).isLeftTo t && a.held p = 0
    | _ => false) ||
  (a.freed m).any fun x => (visited p x.1 x.2).any (·.blocks p t)

/-- Two allocators that are equal or differ by one request in the line of a peer. -/
def Matched (t : Ticket) (p : Peer) (a b : Allocator) : Prop :=
  a = b ∨ ∃ g : Gap t, Apart g p a b

namespace Gap

variable {t : Ticket}

/-- The gap with one more request at the end of the line. -/
def join (g : Gap t) (w : Waiter) (h : w.ticket ≠ t) : Gap t :=
  { g with
    rest := g.rest ++ [w]
    alone := fun v hv => by
      rw [← List.append_assoc, ← List.append_assoc, List.mem_append] at hv
      rcases hv with hv | hv
      · exact g.alone v (by rwa [← List.append_assoc])
      · exact List.mem_singleton.mp hv ▸ h }

/-- The gap after nobody wants a request any more. -/
def forsake (g : Gap t) (u : Ticket) : Gap t :=
  let dead (w : Waiter) : Waiter := if w.ticket = u then { w with live := false } else w
  { held := g.held
    ahead := g.ahead.map dead
    waiter := dead g.waiter
    dropped := g.dropped.map dead
    rest := g.rest.map dead
    ticket := by
      show (if g.waiter.ticket = u then _ else _ : Waiter).ticket = t
      split <;> exact g.ticket
    dead := fun v hv => by
      obtain ⟨w, hw, rfl⟩ := List.mem_map.mp hv
      show (if w.ticket = u then _ else _ : Waiter).live = false
      split
      · rfl
      · exact g.dead w hw
    alone := fun v hv => by
      rw [← List.map_append, ← List.map_append] at hv
      obtain ⟨w, hw, rfl⟩ := List.mem_map.mp hv
      show (if w.ticket = u then _ else _ : Waiter).ticket ≠ t
      split <;> exact g.alone w hw }

theorem full_forsake (g : Gap t) (u : Ticket) : (g.forsake u).full = g.full.forsake u := by
  simp [full, forsake, Account.forsake]

theorem bare_forsake (g : Gap t) (u : Ticket) : (g.forsake u).bare = g.bare.forsake u := by
  simp [bare, forsake, Account.forsake]

/-- With nobody else in the other line, the line is left to the request. -/
theorem isLeftTo_full (g : Gap t) (hahead : g.ahead = []) (hrest : g.rest = []) :
    g.full.isLeftTo t = true := by
  have hall : g.dropped.all (fun v => !v.live) = true :=
    List.all_eq_true.mpr fun v hv => by simp [g.dead v hv]
  simp [full, hahead, hrest, Account.isLeftTo, g.ticket, hall]

end Gap

namespace Apart

variable {t : Ticket} {g : Gap t} {p q : Peer} {a b : Allocator}

/-! ## Moves without a grant pass -/

/-- Another request is granted in both allocators or in neither. -/
theorem request (h : Apart g p a b) {d : Demand} (hne : d.ticket ≠ t)
    (hquiet : a.reveals t p (.request d) = false) :
    ∃ g' : Gap t, Apart g' p (a.step (.request d)) (b.step (.request d)) := by
  have hb := b.request_cases d
  rw [h.limits_eq, h.total_eq, h.held_eq] at hb
  have hgrant : ∀ e ∈ [(d.ticket, Grant.granted)], e.1 ≠ t := by simpa using hne
  by_cases hp : d.peer = p
  · subst hp
    rw [h.bare] at hb
    rcases a.request_cases d with ⟨hline, -, -⟩ | ⟨-, hstep⟩
    · rw [h.full] at hline
      exact absurd hline (by simp [Gap.full])
    rcases hb with ⟨hline, hfits, -⟩ | ⟨-, hstep'⟩
    · obtain ⟨hahead, hrest⟩ := List.append_eq_nil_iff.mp hline
      rw [reveals, h.full, g.isLeftTo_full hahead hrest, hfits] at hquiet
      simp at hquiet
    · refine ⟨g.join ⟨d.ticket, d.amount, true⟩ hne, ?_⟩
      have hheld : a.held d.peer = g.held := congrArg Account.held h.full
      have hnext := h.put_self a.total (g.join ⟨d.ticket, d.amount, true⟩ hne) []
        fun e he => by cases he
      have hfull : (g.join ⟨d.ticket, d.amount, true⟩ hne).full =
          ⟨g.held, g.full.line ++ [⟨d.ticket, d.amount, true⟩]⟩ := by
        simp [Gap.full, Gap.join]
      have hbare : (g.join ⟨d.ticket, d.amount, true⟩ hne).bare =
          ⟨g.held, g.bare.line ++ [⟨d.ticket, d.amount, true⟩]⟩ := by
        simp [Gap.bare, Gap.join]
      rw [hstep, hstep', h.full, hheld, ← hfull, ← hbare]
      exact hnext
  · have hline := h.elsewhere d.peer hp
    rw [h.account_other hp] at hb
    refine ⟨g, ?_⟩
    rcases a.request_cases d with ⟨hnil, hfits, hstep⟩ | ⟨hjoin, hstep⟩ <;>
      rcases hb with ⟨hnil', hfits', hstep'⟩ | ⟨hjoin', hstep'⟩
    · rw [hstep, hstep']
      exact h.put_other hp _ (fun v hv => by cases hv) hgrant
    · rw [hjoin' hnil] at hfits
      cases hfits
    · rw [hjoin hnil'] at hfits'
      cases hfits'
    · rw [hstep, hstep']
      refine h.put_other hp _ (fun v hv => ?_) fun e he => by cases he
      rcases List.mem_append.mp hv with hv | hv
      · exact hline v hv
      · exact List.mem_singleton.mp hv ▸ hne

theorem abandon (h : Apart g p a b) (u : Ticket) :
    Apart (g.forsake u) p (a.abandon u) (b.abandon u) where
  limits_eq := h.limits_eq
  total_eq := h.total_eq
  answers_eq := congrArg (List.filter fun e : Ticket × Grant => e.1 ≠ u) h.answers_eq
  others q hq := by rw [get?_abandon, get?_abandon, h.others q hq]
  full := by rw [account_abandon, h.full, g.full_forsake]
  bare := by rw [account_abandon, h.bare, g.bare_forsake]
  elsewhere q hq v hv := by
    rw [account_abandon] at hv
    obtain ⟨w, hw, rfl⟩ := List.mem_map.mp hv
    split <;> exact h.elsewhere q hq w hw
  unanswered e he := h.unanswered e (List.mem_of_mem_filter he)

theorem collect (h : Apart g p a b) (u : Ticket) :
    Apart g p (a.step (.collect u)) (b.step (.collect u)) := by
  rw [step_collect, step_collect]
  exact ⟨h.limits_eq, h.total_eq, congrArg (List.filter fun e => e.1 ≠ u) h.answers_eq, h.others,
    h.full, h.bare, h.elsewhere, fun e he => h.unanswered e (List.mem_of_mem_filter he)⟩

/-! ## Releases -/

/-- To give memory back is refused alike in both allocators, or leaves them apart by the
request. -/
def GivesBackAlike (t : Ticket) (p q : Peer) (n : Nat) (a b : Allocator) : Prop :=
  (∃ e, a.giveBack q n = .error e ∧ b.giveBack q n = .error e) ∨
    ∃ a' b', a.giveBack q n = .ok a' ∧ b.giveBack q n = .ok b' ∧ a'.waits t ≤ a.waits t ∧
      ∃ g' : Gap t, Apart g' p a' b'

/-- Unless the line is left to the request of a peer that holds nothing, the peer is known to both
allocators. -/
theorem get?_bare_of_quiet (h : Apart g p a b)
    (hquiet : ((a.account p).isLeftTo t && a.held p = 0) = false) :
    b.accounts.get? p = some g.bare := by
  rcases h.get?_bare with hget | ⟨-, hheld, hahead, hrest⟩
  · exact hget
  · have hzero : a.held p = 0 := (congrArg Account.held h.full).trans hheld
    rw [h.full, g.isLeftTo_full hahead hrest, hzero] at hquiet
    cases hquiet

/-- A peer that is known to both allocators can give back as much in both. -/
theorem giveBack_of_get? (h : Apart g p a b) {n : Nat} {c c' : Account}
    (hget : a.accounts.get? q = some c) (hget' : b.accounts.get? q = some c')
    (hheld : c'.held = c.held)
    (hnext : ∃ g' : Gap t, Apart g' p (a.put (a.total - n) q { c with held := c.held - n } [])
      (b.put (a.total - n) q { c' with held := c.held - n } [])) :
    GivesBackAlike t p q n a b := by
  by_cases hle : n ≤ c.held
  · refine .inr ⟨_, _, giveBack_eq_ok_iff.mpr ⟨c, hget, hle, rfl⟩,
      giveBack_eq_ok_iff.mpr ⟨c', hget', hheld ▸ hle, rfl⟩, ?_, ?_⟩
    · exact le_trans (Nat.le_add_right ..) ((Shift.returned hget hle).waits_le t)
    · rwa [h.total_eq, hheld]
  · refine .inl ⟨.releaseExceeds n c.held, giveBack_eq_error_iff.mpr (.inr ?_),
      giveBack_eq_error_iff.mpr (.inr ?_)⟩
    · rw [held_of_get? hget, Dict.contains, hget]
      exact ⟨rfl, by omega, rfl⟩
    · rw [held_of_get? hget', Dict.contains, hget', hheld]
      exact ⟨rfl, by omega, rfl⟩

/-- A peer can give back as much in both allocators. -/
theorem giveBack (h : Apart g p a b) (n : Nat)
    (hquiet : q = p → ((a.account p).isLeftTo t && a.held p = 0) = false) :
    GivesBackAlike t p q n a b := by
  by_cases hq : q = p
  · subst hq
    refine h.giveBack_of_get? h.get?_full (h.get?_bare_of_quiet (hquiet rfl)) rfl ?_
    exact ⟨g.advance (g.held - n) g.ahead (List.Subset.refl _),
      h.put_self _ _ [] fun e he => by cases he⟩
  · have hothers := h.others q hq
    cases hget : a.accounts.get? q with
    | none =>
      rw [hget] at hothers
      refine .inl ⟨.unknownPeer q, giveBack_eq_error_iff.mpr (.inl ⟨?_, rfl⟩),
        giveBack_eq_error_iff.mpr (.inl ⟨?_, rfl⟩)⟩
      · rw [Dict.contains, hget, Option.isSome_none]
      · rw [Dict.contains, hothers, Option.isSome_none]
    | some c =>
      rw [hget] at hothers
      have hline : ∀ v ∈ c.line, v.ticket ≠ t := account_of_get? hget ▸ h.elsewhere q hq
      exact h.giveBack_of_get? hget hothers rfl ⟨g, h.put_other hq _ hline fun e he => by cases he⟩

/-- Both allocators refuse the others in the line of another peer. -/
theorem strike_other (h : Apart g p a b) (hq : q ≠ p) (total : Nat)
    {more : List (Ticket × Grant)} (hmore : ∀ e ∈ more, e.1 ≠ t) :
    Apart g p (a.strike total q more) (b.strike total q more) where
  limits_eq := h.limits_eq
  total_eq := rfl
  answers_eq := congrArg (· ++ more) h.answers_eq
  others x hx := by rw [get?_strike, get?_strike, h.others x hx]
  full := by rw [account_strike_of_ne (Ne.symm hq), h.full]
  bare := by rw [account_strike_of_ne (Ne.symm hq), h.bare]
  elsewhere x hx := by
    by_cases hxq : x = q
    · rw [hxq, account_strike_self]
      exact fun v hv => by cases hv
    · rw [account_strike_of_ne hxq]
      exact h.elsewhere x hx
  unanswered e he := by
    rcases List.mem_append.mp he with he | he
    · exact h.unanswered e he
    · exact hmore e he

/-- When the peer gives all of its memory back, the request makes no difference any more, unless
it is refused with the others. -/
theorem strike_self (h : Apart g p a b) :
    (a.strike (a.total - g.held) p (dismissals p g.full.line)).waits t = 0 ∧
      (g.waiter.live = false → a.strike (a.total - g.held) p (dismissals p g.full.line) =
        b.strike (b.total - g.held) p (dismissals p g.bare.line)) := by
  refine ⟨waits_eq_zero fun q v hv => ?_, fun hdead => ?_⟩
  · by_cases hq : q = p
    · rw [hq, account_strike_self] at hv
      cases hv
    · rw [account_strike_of_ne hq] at hv
      exact h.elsewhere q hq v hv
  · have hdropped : g.dropped.filter (·.live) = [] :=
      List.filter_eq_nil_iff.mpr fun v hv => by simp [g.dead v hv]
    have hrefused : dismissals p g.full.line = dismissals p g.bare.line := by
      simp [dismissals, Gap.full, Gap.bare, List.filter_append, hdead, hdropped]
    rw [hrefused, ← h.total_eq]
    refine ext_accounts h.limits_eq.symm rfl (congrArg (· ++ _) h.answers_eq.symm) fun x => ?_
    rw [get?_strike, get?_strike]
    by_cases hx : x = p
    · rw [if_pos hx, if_pos hx]
    · rw [if_neg hx, if_neg hx, h.others x hx]

/-- All of what a peer holds is given back in both allocators or in neither. -/
theorem clear (h : Apart g p a b)
    (hlive : ∀ a', a.clear q = some a' → 0 < a.waits t → 0 < a'.waits t)
    (hquiet : q = p → ((a.account p).isLeftTo t && a.held p = 0) = false) :
    (a.clear q = none ∧ b.clear q = none) ∨
      ∃ a' b', a.clear q = some a' ∧ b.clear q = some b' ∧ a'.waits t ≤ a.waits t ∧
        Matched t p a' b' := by
  by_cases hq : q = p
  · subst hq
    have hclear := clear_eq_some_iff.mpr ⟨_, h.get?_full, rfl⟩
    have hclear' := clear_eq_some_iff.mpr ⟨_, h.get?_bare_of_quiet (hquiet rfl), rfl⟩
    obtain ⟨hnone, heq⟩ := h.strike_self
    have hdead : g.waiter.live = false := by
      by_contra hnot
      have hhead : g.waiter ∈ (a.account q).line := by
        rw [h.full]
        exact List.mem_append_right _ (List.mem_cons_self ..)
      have hwaits := waits_pos hhead (by simpa using hnot)
      rw [g.ticket] at hwaits
      exact Nat.lt_irrefl 0 (lt_of_lt_of_eq (hlive _ hclear hwaits) hnone)
    exact .inr ⟨_, _, hclear, hclear', hnone ▸ Nat.zero_le _, .inl (heq hdead)⟩
  · have hothers := h.others q hq
    cases hget : a.accounts.get? q with
    | none =>
      rw [hget] at hothers
      exact .inl ⟨by rw [Allocator.clear, hget, Option.map_none],
        by rw [Allocator.clear, hothers, Option.map_none]⟩
    | some c =>
      rw [hget] at hothers
      have hline : ∀ v ∈ c.line, v.ticket ≠ t := account_of_get? hget ▸ h.elsewhere q hq
      refine .inr ⟨_, _, clear_eq_some_iff.mpr ⟨c, hget, rfl⟩,
        clear_eq_some_iff.mpr ⟨c, hothers, rfl⟩, ?_, .inr ⟨g, ?_⟩⟩
      · exact le_trans (Nat.le_add_right ..) ((Shift.cleared hget).waits_le t)
      · rw [h.total_eq]
        refine h.strike_other hq _ fun e he => ?_
        obtain ⟨v, hv, rfl⟩ := List.mem_map.mp he
        exact hline v (List.mem_of_mem_filter hv)

end Apart

/-! ## Moves -/

namespace Matched

variable {t : Ticket} {p : Peer} {a b : Allocator}

theorem total_eq (h : Matched t p a b) : b.total = a.total := by
  rcases h with rfl | ⟨g, h⟩
  · rfl
  · exact h.total_eq

theorem answers_eq (h : Matched t p a b) : b.answers = a.answers := by
  rcases h with rfl | ⟨g, h⟩
  · rfl
  · exact h.answers_eq

theorem held_eq (h : Matched t p a b) : b.held = a.held := by
  rcases h with rfl | ⟨g, h⟩
  · rfl
  · exact h.held_eq

/-- Allocators that match before and after a move show the same. -/
theorem record_eq (h : Matched t p a b) {m : MemoryMove} (hrefusal : a.refusal? m = b.refusal? m)
    (hnext : Matched t p (a.step m) (b.step m)) : a.record m = b.record m := by
  have hanswered : a.answered m = b.answered m := by
    rw [answered, answered, h.answers_eq, hnext.answers_eq]
  have hread : a.read? m = b.read? m := by
    unfold read?
    rw [h.answers_eq]
  rw [record, record, hrefusal, hanswered, hread, hnext.total_eq, hnext.held_eq]

end Matched

namespace Apart

variable {t : Ticket} {g : Gap t} {p : Peer} {a b : Allocator} {m : MemoryMove}

/-- The grant pass after a release goes the same way in both allocators. -/
theorem of_freed {a' b' : Allocator} {order : List Peer} (ha : a.freed m = some (a', order))
    (hb : b.freed m = some (b', order)) (hle : a'.waits t ≤ a.waits t)
    (hnext : Matched t p a' b') (hlive : 0 < a.waits t → 0 < (a.step m).waits t)
    (hquiet : ∀ c ∈ visited p a' order, c.blocks p t = false) :
    Matched t p (a.step m) (b.step m) := by
  rw [step_of_freed ha] at hlive ⊢
  rw [step_of_freed hb]
  rcases hnext with rfl | ⟨g', h'⟩
  · exact .inl rfl
  · exact h'.pass (fun hpos => hlive (lt_of_lt_of_le hpos hle)) hquiet

/-- A move that is not decided by the place of the request, which goes on waiting if it does,
shows the same and keeps the allocators matched. -/
theorem step (h : Apart g p a b) (hask : ∀ d, m = .request d → d.ticket ≠ t)
    (hlive : 0 < a.waits t → 0 < (a.step m).waits t) (hquiet : a.reveals t p m = false) :
    a.refusal? m = b.refusal? m ∧ Matched t p (a.step m) (b.step m) := by
  obtain ⟨hown, hpass⟩ := Bool.or_eq_false_iff.mp hquiet
  have hvisits {a' : Allocator} {order : List Peer} (hfreed : a.freed m = some (a', order)) :
      ∀ c ∈ visited p a' order, c.blocks p t = false := by
    rw [hfreed, Option.any_some, List.any_eq_false] at hpass
    exact fun c hc => by simpa using hpass c hc
  cases m with
  | request d => exact ⟨rfl, .inr (h.request (hask d rfl) hquiet)⟩
  | abandon u => exact ⟨rfl, .inr ⟨_, h.abandon u⟩⟩
  | collect u => exact ⟨rfl, .inr ⟨g, h.collect u⟩⟩
  | release q n order =>
    have hown' : q = p → ((a.account p).isLeftTo t && a.held p = 0) = false := by
      rintro rfl
      simpa using hown
    rcases h.giveBack n hown' with ⟨e, ha, hb⟩ | ⟨a', b', ha, hb, hle, hnext⟩
    · refine ⟨?_, .inr ⟨g, ?_⟩⟩
      · simp only [refusal?, ha, hb]
      · simpa only [Allocator.step, freed, ha, hb, Except.toOption, Option.map_none,
          Option.elim_none] using h
    · have hfreed := freed_release_of_ok ha order
      have hfreed' := freed_release_of_ok hb order
      refine ⟨?_, of_freed hfreed hfreed' hle (.inr hnext) hlive (hvisits hfreed)⟩
      simp only [refusal?, ha, hb]
  | releasePeer q order =>
    have hown' : q = p → ((a.account p).isLeftTo t && a.held p = 0) = false := by
      rintro rfl
      simpa using hown
    have hlive' : ∀ a', a.clear q = some a' → 0 < a.waits t → 0 < a'.waits t := by
      intro a' ha hpos
      have hafter := hlive hpos
      rw [step_of_freed (freed_releasePeer_of_clear ha _)] at hafter
      exact lt_of_lt_of_le hafter (waits_grantAlong_le ..)
    refine ⟨rfl, ?_⟩
    rcases h.clear hlive' hown' with ⟨ha, hb⟩ | ⟨a', b', ha, hb, hle, hnext⟩
    · refine .inr ⟨g, ?_⟩
      simpa only [Allocator.step, freed, ha, hb, Option.map_none, Option.elim_none] using h
    · have hfreed := freed_releasePeer_of_clear ha order
      have hfreed' := freed_releasePeer_of_clear hb order
      exact of_freed hfreed hfreed' hle hnext hlive (hvisits hfreed)

end Apart

/-! ## Runs -/

/-- Moves that are not decided by the place of the request, which goes on waiting if it does, show
the same and keep the allocators matched. -/
theorem Matched.records_eq {t : Ticket} {p : Peer} {a b : Allocator} (h : Matched t p a b)
    {moves : List MemoryMove} (hask : askings t (demands moves) = 0)
    (hlive : 0 < a.waits t → 0 < (a.run moves).waits t)
    (hquiet : a.Along (fun a m => a.reveals t p m = false) moves) :
    a.records moves = b.records moves ∧ Matched t p (a.run moves) (b.run moves) := by
  induction moves generalizing a b with
  | nil => exact ⟨rfl, h⟩
  | cons m rest ih =>
    rw [demands_cons, askings_append] at hask
    obtain ⟨hown, hrest⟩ := Nat.add_eq_zero_iff.mp hask
    have hstep := waits_run_le a [m] t
    have hafter := waits_run_le (a.step m) rest t
    rw [run_cons, run_nil, demands_cons, askings_append, hown] at hstep
    rw [hrest] at hafter
    have hlive' : 0 < a.waits t → 0 < (a.step m).waits t := by
      intro hpos
      have := hlive hpos
      rw [run_cons] at this
      omega
    have hlater : 0 < (a.step m).waits t → 0 < ((a.step m).run rest).waits t := by
      intro hpos
      have hnone : askings t (demands []) = 0 := rfl
      exact hlive (by omega)
    have hask' : ∀ d, m = .request d → d.ticket ≠ t := by
      rintro d rfl hd
      simp [askings, MemoryMove.demand?, hd] at hown
    obtain ⟨hrefusal, hnext⟩ : a.refusal? m = b.refusal? m ∧ Matched t p (a.step m) (b.step m) := by
      rcases h with rfl | ⟨g, h⟩
      · exact ⟨rfl, .inl rfl⟩
      · exact h.step hask' hlive' hquiet.1
    obtain ⟨hrecords, hlast⟩ := ih hnext hrest hlater hquiet.2
    refine ⟨?_, hlast⟩
    rw [records, records, h.record_eq hrefusal hnext, hrecords]

namespace Allocator

/-- A request that was not made is in no line and was not answered. -/
theorem unknown_run (limits : MemoryLimits) (before : List MemoryMove) (t : Ticket)
    (hask : askings t (demands before) = 0) :
    (∀ p, ∀ w ∈ ((run { limits } before).account p).line, w.ticket ≠ t) ∧
      ∀ e ∈ (run { limits } before).answers, e.1 ≠ t := by
  have hknown : Known [] { limits } := fun _ _ hget => by cases hget
  have hnone : ∀ d ∈ demands before, d.ticket ≠ t := fun d hd hdt => by
    simpa [hdt] using List.countP_eq_zero.mp hask d hd
  refine ⟨fun p w hw => hnone _ ((hknown.run before).line p w hw), ?_⟩
  rintro ⟨u, g⟩ he hut
  obtain rfl : u = t := hut
  have hreply : (u, g) ∈ answeredAlong { limits } before := by
    simpa using mem_answers_run { limits } before he
  have hwaits := waits_run_le { limits } before u
  have hstart : waits { limits } u = 0 := rfl
  have := replies_pos hreply
  omega

/-- A request that joins a line is all that two allocators differ by. -/
theorem apart_of_joined {a : Allocator} {d : Demand}
    (hline : ∀ p, ∀ w ∈ (a.account p).line, w.ticket ≠ d.ticket)
    (hanswers : ∀ e ∈ a.answers, e.1 ≠ d.ticket)
    (hwaits : 0 < (a.step (.request d)).waits d.ticket) :
    ∃ g : Gap d.ticket, Apart g d.peer (a.step (.request d)) a := by
  have hothers : ∀ q, q ≠ d.peer → ∀ v ∈ (a.account q).line, v.ticket ≠ d.ticket :=
    fun q _ => hline q
  rcases a.request_cases d with ⟨-, -, hstep⟩ | ⟨-, hstep⟩
  · rw [hstep, waits_eq_zero fun q v hv => ?_] at hwaits
    · exact absurd hwaits (Nat.lt_irrefl 0)
    · by_cases hq : q = d.peer
      · rw [hq, account_put_self] at hv
        cases hv
      · rw [account_put_of_ne hq] at hv
        exact hothers q hq v hv
  · rw [hstep]
    let g : Gap d.ticket :=
      { held := a.held d.peer
        ahead := (a.account d.peer).line
        waiter := ⟨d.ticket, d.amount, true⟩
        dropped := []
        rest := []
        ticket := rfl
        dead := fun _ hv => by cases hv
        alone := fun v hv => hline d.peer v (by simpa using hv) }
    refine ⟨g, rfl, rfl, (List.append_nil _).symm, fun q hq => ?_, account_put_self, ?_,
      fun q hq => ?_, ?_⟩
    · rw [get?_put_of_ne hq]
    · simp [g, Gap.bare, held]
    · rw [account_put_of_ne hq]
      exact hothers q hq
    · rw [put_answers, List.append_nil]
      exact hanswers

/-- **Abandoned requests.**  A request is made, waits, and is abandoned while it waits.  If its
place in the line of its peer decides no move until then or later, then nothing is seen of it: all
other moves show the same without it. -/
theorem abandoned_unseen (limits : MemoryLimits) (before middle after : List MemoryMove)
    (d : Demand)
    (hdistinct : ((demands (before ++ .request d :: (middle ++ .abandon d.ticket :: after))).map
      Demand.ticket).Nodup)
    (hwaiting : (run { limits } (before ++ .request d :: middle)).isWaiting d.ticket = true)
    (hquiet : (run { limits } (before ++ [.request d])).Along
      (fun a m => a.reveals d.ticket d.peer m = false) (middle ++ .abandon d.ticket :: after)) :
    let a := run { limits } before
    let beside := run { limits } (before ++ [.request d])
    beside.records middle = a.records middle ∧
      (beside.run (middle ++ [.abandon d.ticket])).records after =
        (a.run middle).records after := by
  intro a beside
  have hbeside : beside = a.step (.request d) := run_append ..
  obtain ⟨hbefore, hlater⟩ := askings_around hdistinct
  rw [demands_append, demands_cons, askings_append, askings_append] at hlater
  obtain ⟨hmiddle, -, hafter⟩ : askings d.ticket (demands middle) = 0 ∧
      askings d.ticket (MemoryMove.abandon d.ticket).demand?.toList = 0 ∧
        askings d.ticket (demands after) = 0 := by omega
  have hlast : 0 < (beside.run middle).waits d.ticket := by
    rw [run_append] at hwaiting
    rw [hbeside]
    exact isWaiting_iff.mp hwaiting
  have hfirst : 0 < beside.waits d.ticket := by
    have := waits_run_le beside middle d.ticket
    omega
  obtain ⟨hline, hanswers⟩ := unknown_run limits before d.ticket hbefore
  obtain ⟨hquiet, hquiet'⟩ := along_append.mp hquiet
  obtain ⟨g, hapart⟩ := apart_of_joined hline hanswers (hbeside ▸ hfirst)
  rw [← hbeside] at hapart
  have hmatched : Matched d.ticket d.peer beside a := .inr ⟨g, hapart⟩
  obtain ⟨hrecords, hmatched⟩ := hmatched.records_eq hmiddle (fun _ => hlast) hquiet
  refine ⟨hrecords, ?_⟩
  -- without the request there is nothing to abandon
  have hsame : (a.run middle).abandon d.ticket = a.run middle := by
    have hunknown := unknown_run limits (before ++ middle) d.ticket (by
      rw [demands_append, askings_append]
      exact Nat.add_eq_zero_iff.mpr ⟨hbefore, hmiddle⟩)
    rw [run_append] at hunknown
    exact abandon_eq_self hunknown.1 hunknown.2
  have habandoned :
      Matched d.ticket d.peer ((beside.run middle).abandon d.ticket) (a.run middle) := by
    rw [← hsame]
    rcases hmatched with heq | ⟨g', h'⟩
    · exact .inl (by rw [heq])
    · exact .inr ⟨_, h'.abandon d.ticket⟩
  have hgone := waits_abandon_self (beside.run middle) d.ticket
  rw [run_append]
  exact (habandoned.records_eq hafter (fun hpos => absurd hpos (by omega)) hquiet'.2).1

/-- The request of a peer that waits behind another one is granted at the same time, whether the
other one was abandoned or never made. -/
theorem abandoned_unseen_of_behind :
    let p := Peer.zero
    let q : Peer := ⟨Octets.fill 32 1⟩
    let limits : MemoryLimits := { total := 1000, perPeer := 100 }
    let before : List MemoryMove := [.request ⟨0, p, 100⟩]
    let middle : List MemoryMove :=
      [.request ⟨2, q, 50⟩, .request ⟨3, p, 60⟩, .release q 10 [q, p]]
    let after : List MemoryMove := [.release p 100 [p, q]]
    let a := run { limits } before
    let beside := run { limits } (before ++ [.request ⟨1, p, 40⟩])
    beside.records middle = a.records middle ∧
      (beside.run (middle ++ [.abandon 1])).records after = (a.run middle).records after ∧
      (beside.run (middle ++ [.abandon 1])).answeredAlong after = [(3, .granted)] := by
  intro p q limits before middle after a beside
  obtain ⟨hmiddle, hafter⟩ := abandoned_unseen limits before middle after ⟨1, p, 40⟩ (by decide)
    (by decide) (by decide)
  exact ⟨hmiddle, hafter, by decide⟩

theorem answered_eq_of_records {a b : Allocator} {m : MemoryMove}
    (h : a.records [m] = b.records [m]) : a.answered m = b.answered m :=
  congrArg MemoryRecord.answered (List.cons.inj h).1

/-- A smaller request of the same peer waits behind one that does not fit, and goes on waiting when
that is abandoned, although it fits; without the other one it is granted at once. -/
theorem smaller_request_waits :
    let p := Peer.zero
    let limits : MemoryLimits := { total := 1000, perPeer := 100 }
    let a := run { limits } [.request ⟨0, p, 80⟩]
    let beside := run { limits } [.request ⟨0, p, 80⟩, .request ⟨1, p, 40⟩]
    let smaller : MemoryMove := .request ⟨2, p, 20⟩
    (beside.run [smaller]).isWaiting 1 = true ∧
      beside.records [smaller] ≠ a.records [smaller] ∧
      beside.answered smaller = [] ∧ a.answered smaller = [(2, .granted)] ∧
      (beside.run [smaller, .abandon 1]).isWaiting 2 = true ∧
      (beside.run [smaller, .abandon 1]).total = 80 ∧
      (beside.run [smaller, .abandon 1]).held p = 80 ∧ fits limits 80 80 20 = true := by
  intro p limits a beside smaller
  have hwithout : a.answered smaller = [(2, .granted)] := by decide
  have hbeside : beside.answered smaller = [] := by decide
  refine ⟨by decide, fun heq => ?_, hbeside, hwithout, by decide, by decide, by decide, by decide⟩
  have hsame := answered_eq_of_records heq
  rw [hbeside, hwithout] at hsame
  cases hsame

end Allocator

end Outbox
