import Mathlib
import Outbox.Proofs.Memory.Waiting

/-!
# What a grant pass hands out

A grant pass serves every line from its front.  What it takes from the line of a peer are the
oldest in it; those of them who are still wanted are granted in the order in which they stand
there, each within the limits as they are at that moment.

* `Demand.bytes`, `Demand.of` — what requests ask for, and the requests of one peer;
* `Allocator.queue` — the requests of a peer that wait;
* `Allocator.Filled`, `Allocator.grantAlong_filled` — what a grant pass does;
* `Allocator.Dealt`, `Allocator.step_dealt` — what a move grants, and to whom.
-/

namespace Outbox

/-! ## Requests -/

namespace Demand

/-- The bytes that requests ask for. -/
def bytes (ds : List Demand) : Nat := (ds.map amount).sum

/-- The requests of one peer. -/
def of (p : Peer) (ds : List Demand) : List Demand := ds.filter (·.peer = p)

variable {p q : Peer} {d : Demand} {ds ds' : List Demand}

@[simp] theorem bytes_nil : bytes [] = 0 := rfl

@[simp] theorem bytes_cons (d : Demand) (ds : List Demand) :
    bytes (d :: ds) = d.amount + bytes ds := rfl

@[simp] theorem bytes_append (ds ds' : List Demand) :
    bytes (ds ++ ds') = bytes ds + bytes ds' := by
  simp [bytes]

@[simp] theorem of_nil (p : Peer) : of p [] = [] := rfl

@[simp] theorem of_append (p : Peer) (ds ds' : List Demand) :
    of p (ds ++ ds') = of p ds ++ of p ds' := List.filter_append ..

theorem of_cons_self (d : Demand) (ds : List Demand) : of d.peer (d :: ds) = d :: of d.peer ds :=
  List.filter_cons_of_pos (by simp)

theorem of_cons_of_ne (h : d.peer ≠ p) (ds : List Demand) : of p (d :: ds) = of p ds :=
  List.filter_cons_of_neg (by simpa using h)

theorem mem_of : d ∈ of p ds ↔ d ∈ ds ∧ d.peer = p := by
  simp [of]

/-- Requests that are there, peer by peer, are there. -/
theorem subset_of_forall (h : ∀ p, of p ds ⊆ of p ds') : ds ⊆ ds' :=
  fun d hd => (mem_of.mp (h d.peer (mem_of.mpr ⟨hd, rfl⟩))).1

end Demand

/-- The request of one who waits. -/
def Waiter.demand (p : Peer) (w : Waiter) : Demand := ⟨w.ticket, p, w.amount⟩

namespace Allocator

open Demand

/-- The requests in the line of a peer that are still wanted, the oldest first. -/
def wanted (p : Peer) (line : List Waiter) : List Demand :=
  (line.filter (·.live)).map (Waiter.demand p)

/-- The requests of a peer that wait, the oldest first. -/
def queue (a : Allocator) (p : Peer) : List Demand := wanted p (a.account p).line

variable {a b c : Allocator} {p q : Peer} {ds ds' : List Demand}

@[simp] theorem wanted_nil (p : Peer) : wanted p [] = [] := rfl

@[simp] theorem wanted_append (p : Peer) (line line' : List Waiter) :
    wanted p (line ++ line') = wanted p line ++ wanted p line' := by
  simp [wanted]

theorem wanted_of_dead {w : Waiter} (h : w.live = false) : wanted p [w] = [] := by
  simp [wanted, h]

theorem wanted_of_live {w : Waiter} (h : w.live = true) : wanted p [w] = [w.demand p] := by
  simp [wanted, h]

theorem peer_of_mem_queue {d : Demand} (h : d ∈ a.queue p) : d.peer = p := by
  obtain ⟨w, -, rfl⟩ := List.mem_map.mp h
  rfl

/-- Those dismissed are the requests that wait. -/
theorem dismissals_eq (a : Allocator) (p : Peer) : dismissals p (a.account p).line =
    (a.queue p).map fun d => (d.ticket, .refused (.peerReleased p)) := by
  rw [queue, wanted, List.map_map]
  rfl

/-- A request that waits is in the queue of some peer. -/
theorem exists_mem_queue {t : Ticket} (h : a.isWaiting t = true) :
    ∃ p, ∃ d ∈ a.queue p, d.ticket = t := by
  rw [isWaiting, List.any_eq_true] at h
  obtain ⟨c, hc, hany⟩ := h
  obtain ⟨p, hget⟩ := Dict.mem_values.mp hc
  obtain ⟨w, hw, hwt⟩ := List.any_eq_true.mp hany
  obtain ⟨hlive, hticket⟩ := of_decide_eq_true hwt
  refine ⟨p, w.demand p, List.mem_map_of_mem (List.mem_filter.mpr ⟨?_, hlive⟩), hticket⟩
  rwa [account_of_get? hget]

/-! ## A grant pass -/

/-- Requests are granted one after the other. -/
structure Filled (a : Allocator) (ds : List Demand) (b : Allocator) : Prop where
  /-- The limits stay. -/
  limits : b.limits = a.limits
  /-- Each request is answered. -/
  answers : b.answers = a.answers ++ ds.map Demand.grant
  /-- Each request is charged. -/
  total : b.total = a.total + bytes ds
  /-- It is charged to its peer. -/
  held : ∀ p, b.held p = a.held p + bytes (of p ds)
  /-- They are the oldest in line that are still wanted. -/
  line : ∀ p, ∃ passed,
    (a.account p).line = passed ++ (b.account p).line ∧ wanted p passed = of p ds
  /-- Each fits when it is granted. -/
  fits : ∀ before d after, ds = before ++ d :: after →
    fits a.limits (a.total + bytes before) (a.held d.peer + bytes (of d.peer before)) d.amount

namespace Filled

theorem refl (a : Allocator) : a.Filled [] a where
  limits := rfl
  answers := (List.append_nil _).symm
  total := rfl
  held := fun _ => rfl
  line := fun _ => ⟨[], rfl, rfl⟩
  fits := fun before d after h => by simp at h

theorem trans (h : a.Filled ds b) (h' : b.Filled ds' c) : a.Filled (ds ++ ds') c := by
  refine ⟨h'.limits.trans h.limits, ?_, ?_, fun p => ?_, fun p => ?_, fun before d after heq => ?_⟩
  · rw [h'.answers, h.answers, List.map_append, List.append_assoc]
  · rw [h'.total, h.total, bytes_append, Nat.add_assoc]
  · rw [h'.held, h.held, of_append, bytes_append, Nat.add_assoc]
  · obtain ⟨passed, hline, hwanted⟩ := h.line p
    obtain ⟨passed', hline', hwanted'⟩ := h'.line p
    refine ⟨passed ++ passed', ?_, ?_⟩
    · rw [hline, hline', List.append_assoc]
    · rw [wanted_append, hwanted, hwanted', of_append]
  · rcases List.append_eq_append_iff.mp heq with ⟨mid, rfl, htail⟩ | ⟨mid, rfl, htail⟩
    · have hfits := h'.fits mid d after htail
      rw [h.limits, h.total, h.held] at hfits
      rwa [bytes_append, of_append, bytes_append, ← Nat.add_assoc, ← Nat.add_assoc]
    · cases mid with
      | nil =>
        have hfits := h'.fits [] d after htail.symm
        rw [h.limits, h.total, h.held] at hfits
        simpa using hfits
      | cons e rest =>
        obtain ⟨rfl, rfl⟩ := List.cons.inj htail
        exact h.fits before d rest rfl

/-- The head of a line is granted if it fits. -/
theorem head {held : Nat} {w : Waiter} {line : List Waiter}
    (hget : a.accounts.get? p = some ⟨held, w :: line⟩) (hlive : w.live = true)
    (hfits : Allocator.fits a.limits a.total held w.amount = true) :
    a.Filled [w.demand p] (a.put (a.total + w.amount) p ⟨held + w.amount, line⟩
      [(w.ticket, .granted)]) := by
  refine ⟨rfl, rfl, rfl, fun q => ?_, fun q => ?_, fun before d after heq => ?_⟩
  · rw [held_put]
    by_cases hq : q = p
    · subst hq
      rw [Function.update_self, held_of_get? hget]
      exact congrArg (held + bytes ·) (of_cons_self (w.demand q) []).symm
    · rw [Function.update_of_ne hq, of_cons_of_ne (Ne.symm hq)]
      rfl
  · by_cases hq : q = p
    · subst hq
      rw [account_of_get? hget, account_put_self]
      exact ⟨[w], rfl, (wanted_of_live hlive).trans (of_cons_self (w.demand q) []).symm⟩
    · rw [account_put_of_ne hq, of_cons_of_ne (Ne.symm hq)]
      exact ⟨[], rfl, rfl⟩
  · obtain ⟨rfl, rfl, -⟩ : before = [] ∧ w.demand p = d ∧ after = [] := by
      cases before with
      | nil => simpa [eq_comm] using heq
      | cons e rest => simp at heq
    obtain rfl : a.held p = held := held_of_get? hget
    exact hfits

/-- The head of a line is dropped if nobody wants it. -/
theorem drop {held : Nat} {w : Waiter} {line : List Waiter}
    (hget : a.accounts.get? p = some ⟨held, w :: line⟩) (hdead : w.live = false) :
    a.Filled [] (a.put a.total p ⟨held, line⟩ []) := by
  refine ⟨rfl, rfl, rfl, fun q => ?_, fun q => ?_, fun before d after heq => by simp at heq⟩
  · rw [held_put, ← held_of_get? hget, Function.update_eq_self]
    rfl
  · by_cases hq : q = p
    · subst hq
      rw [account_of_get? hget, account_put_self]
      exact ⟨[w], rfl, wanted_of_dead hdead⟩
    · rw [account_put_of_ne hq]
      exact ⟨[], rfl, rfl⟩

theorem prune (a : Allocator) : a.Filled [] a.prune where
  limits := rfl
  answers := (List.append_nil _).symm
  total := rfl
  held := fun p => congrFun a.held_prune p
  line := fun p => ⟨[], by rw [account_prune, List.nil_append], rfl⟩
  fits := fun before d after h => by simp at h

/-- Those granted stood at the front of the queue. -/
theorem queue_eq (h : a.Filled ds b) (p : Peer) : of p ds ++ b.queue p = a.queue p := by
  obtain ⟨passed, hline, hwanted⟩ := h.line p
  rw [queue, queue, hline, wanted_append, hwanted]

end Filled

/-- Serving a line grants requests one after the other. -/
theorem serve_filled {held : Nat} {line : List Waiter}
    (hget : a.accounts.get? p = some ⟨held, line⟩) : ∃ ds, a.Filled ds (a.grantPeer p) := by
  induction line generalizing a held with
  | nil =>
    rw [grantPeer_of_nil hget]
    exact ⟨[], .refl a⟩
  | cons w line ih =>
    cases hlive : w.live with
    | false =>
      obtain ⟨ds, hds⟩ := ih (a.get?_put_self a.total p ⟨held, line⟩ [])
      rw [grantPeer_of_dead hget hlive]
      exact ⟨[] ++ ds, (Filled.drop hget hlive).trans hds⟩
    | true =>
      cases hfits : Allocator.fits a.limits a.total held w.amount with
      | false =>
        rw [grantPeer_of_unfit hget hlive hfits]
        exact ⟨[], .refl a⟩
      | true =>
        obtain ⟨ds, hds⟩ := ih (a.get?_put_self
          (a.total + w.amount) p ⟨held + w.amount, line⟩ [(w.ticket, .granted)])
        rw [grantPeer_of_fits hget hlive hfits]
        exact ⟨[w.demand p] ++ ds, (Filled.head hget hlive hfits).trans hds⟩

theorem grantPeer_filled (a : Allocator) (p : Peer) : ∃ ds, a.Filled ds (a.grantPeer p) := by
  cases hget : a.accounts.get? p with
  | none =>
    rw [grantPeer_of_none hget]
    exact ⟨[], .refl a⟩
  | some c => exact serve_filled hget

/-- A grant pass grants requests one after the other. -/
theorem grantAlong_filled (a : Allocator) (order : List Peer) :
    ∃ ds, a.Filled ds (a.grantAlong order) := by
  induction order generalizing a with
  | nil => exact ⟨[], .prune a⟩
  | cons p rest ih =>
    obtain ⟨ds, hds⟩ := a.grantPeer_filled p
    obtain ⟨ds', hds'⟩ := ih (a.grantPeer p)
    exact ⟨ds ++ ds', hds.trans hds'⟩

/-! ## Moves -/

/-- The allocator after what a move frees, before anything is granted. -/
def relieved (a : Allocator) (m : MemoryMove) : Allocator := (a.freed m).elim a Prod.fst

theorem relieved_of_freed {m : MemoryMove} {order : List Peer} (h : a.freed m = some (b, order)) :
    a.relieved m = b := by
  rw [relieved, h]
  rfl

theorem relieved_of_not_freed {m : MemoryMove} (h : a.freed m = none) : a.relieved m = a := by
  rw [relieved, h]
  rfl

/-- The requests that a move grants. -/
structure Dealt (a : Allocator) (m : MemoryMove) (ds : List Demand) : Prop where
  /-- They are answered so. -/
  granted : (a.answered m).filter (·.2 = .granted) = ds.map Demand.grant
  /-- They are charged. -/
  total : (a.step m).total = (a.relieved m).total + bytes ds
  /-- Each is charged to its peer. -/
  held : ∀ p, (a.step m).held p = (a.relieved m).held p + bytes (of p ds)
  /-- Nobody is granted or stands in line before somebody who stood before them. -/
  order : ∀ p, (of p ds ++ (a.step m).queue p).Sublist (a.queue p ++ of p m.demand?.toList)
  /-- If anything is granted to a peer, nobody of that peer leaves the line otherwise. -/
  front : ∀ p, of p ds ≠ [] →
    of p ds ++ (a.step m).queue p = a.queue p ++ of p m.demand?.toList

/-- A request is granted, or joins the end of the line. -/
theorem request_dealt (a : Allocator) (d : Demand) : ∃ ds, a.Dealt (.request d) ds := by
  have hrelieved : a.relieved (.request d) = a := relieved_of_not_freed rfl
  rcases a.request_cases d with ⟨hline, hfits, hstep⟩ | ⟨-, hstep⟩
  · have hanswered : a.answered (.request d) = [d.grant] := answered_eq (by rw [hstep]; rfl)
    have hqueue (p : Peer) :
        of p [d] ++ (a.step (.request d)).queue p = a.queue p ++ of p [d] := by
      rw [hstep, queue, queue]
      by_cases hp : p = d.peer
      · rw [hp, account_put_self, hline]
        exact (List.append_nil _).trans (List.nil_append _).symm
      · rw [account_put_of_ne hp, of_cons_of_ne (Ne.symm hp)]
        exact (List.append_nil _).symm
    refine ⟨[d], ?_, ?_, fun p => ?_, fun p => ?_, fun p _ => hqueue p⟩
    · rw [hanswered]
      rfl
    · rw [hrelieved, hstep]
      rfl
    · rw [hrelieved, hstep, held_put]
      by_cases hp : p = d.peer
      · rw [hp, Function.update_self, of_cons_self]
        rfl
      · rw [Function.update_of_ne hp, of_cons_of_ne (Ne.symm hp)]
        rfl
    · exact hqueue p ▸ List.Sublist.refl _
  · have hanswered : a.answered (.request d) = [] := answered_eq (by rw [hstep]; rfl)
    have hqueue (p : Peer) : (a.step (.request d)).queue p = a.queue p ++ of p [d] := by
      rw [hstep, queue, queue]
      by_cases hp : p = d.peer
      · rw [hp, account_put_self, wanted_append, wanted_of_live rfl]
        exact congrArg (_ ++ ·) (of_cons_self d []).symm
      · rw [account_put_of_ne hp, of_cons_of_ne (Ne.symm hp)]
        exact (List.append_nil _).symm
    refine ⟨[], ?_, ?_, fun p => ?_, fun p => ?_, fun p hne => absurd rfl hne⟩
    · rw [hanswered]
      rfl
    · rw [hrelieved, hstep]
      rfl
    · rw [hrelieved, hstep, held_put, Function.update_eq_self]
      rfl
    · exact hqueue p ▸ List.Sublist.refl _

/-- A move after which nothing is granted takes at most somebody from a line. -/
theorem dealt_nothing {m : MemoryMove} (hanswered : a.answered m = [])
    (hfreed : a.freed m = none) (htotal : (a.step m).total = a.total)
    (hheld : (a.step m).held = a.held)
    (hqueue : ∀ p, ((a.step m).queue p).Sublist (a.queue p)) : a.Dealt m [] := by
  refine ⟨?_, ?_, fun p => ?_, fun p => ?_, fun p hne => absurd rfl hne⟩
  · rw [hanswered]
    rfl
  · rw [relieved_of_not_freed hfreed]
    exact htotal
  · rw [relieved_of_not_freed hfreed]
    exact congrFun hheld p
  · exact (hqueue p).trans (List.sublist_append_left ..)

theorem dealt_of_unchanged {m : MemoryMove} (hfreed : a.freed m = none) (h : a.step m = a) :
    a.Dealt m [] := by
  refine dealt_nothing (answered_of_le (by rw [h])) hfreed (by rw [h]) (by rw [h]) fun p => ?_
  rw [h]

theorem queue_abandon (a : Allocator) (t : Ticket) (p : Peer) :
    (a.abandon t).queue p = (a.queue p).filter (·.ticket ≠ t) := by
  rw [queue, queue, account_abandon, Account.forsake]
  induction (a.account p).line with
  | nil => rfl
  | cons w line ih =>
    rw [List.map_cons, ← List.singleton_append, ← List.singleton_append (l := line), wanted_append,
      wanted_append, List.filter_append, ih]
    refine congrArg (· ++ _) ?_
    cases hlive : w.live with
    | false => by_cases hw : w.ticket = t <;> simp [wanted, hw, hlive]
    | true => by_cases hw : w.ticket = t <;> simp [wanted, Waiter.demand, hw, hlive]

/-- What somebody else gives back lets requests be granted from the front of the lines. -/
theorem release_dealt (a : Allocator) (p : Peer) (n : Nat) (order : List Peer) :
    ∃ ds, a.Dealt (.release p n order) ds := by
  cases hg : a.giveBack p n with
  | error e =>
    have hfreed : a.freed (.release p n order) = none := by simp [freed, hg, Except.toOption]
    exact ⟨[], dealt_of_unchanged hfreed (by simp [step, hfreed])⟩
  | ok b =>
    have hfreed := freed_release_of_ok hg order
    obtain ⟨c, hget, hle, rfl⟩ := giveBack_eq_ok_iff.mp hg
    obtain ⟨ds, hds⟩ := grantAlong_filled
      (a.put (a.total - n) p { c with held := c.held - n } []) order
    rw [← step_of_freed hfreed] at hds
    have hqueue (q : Peer) :
        of q ds ++ (a.step (.release p n order)).queue q = a.queue q := by
      rw [hds.queue_eq, queue, queue]
      by_cases hq : q = p
      · rw [hq, account_put_self, account_of_get? hget]
      · rw [account_put_of_ne hq]
    have hanswered : a.answered (.release p n order) = ds.map Demand.grant :=
      answered_eq (by rw [hds.answers, put_answers, List.append_nil])
    refine ⟨ds, ?_, ?_, ?_, fun q => ?_, fun q _ => ?_⟩
    · rw [hanswered, filter_grants]
    · rw [relieved_of_freed hfreed]
      exact hds.total
    · rw [relieved_of_freed hfreed]
      exact hds.held
    · rw [hqueue]
      exact List.sublist_append_left ..
    · rw [hqueue]
      exact (List.append_nil _).symm

/-! ## A peer gives everything back -/

/-- What is seen when a peer gives all of its memory back: its requests are refused, and others
may be granted. -/
structure Dismissed (a : Allocator) (p : Peer) (order : List Peer) (ds : List Demand) : Prop where
  /-- All who wait in the line of the peer are refused, and then others are granted. -/
  answered : a.answered (.releasePeer p order) =
    (a.queue p).map (fun d => (d.ticket, .refused (.peerReleased p))) ++ ds.map Demand.grant
  /-- The peer holds nothing then, and nobody is in its line. -/
  gone : (a.step (.releasePeer p order)).account p = {}
  /-- None of those granted is a request of the peer. -/
  others : of p ds = []
  /-- The bytes held in total are less by what the peer held, and more by what is granted. -/
  total : (a.step (.releasePeer p order)).total = a.total - a.held p + bytes ds
  /-- The others hold what they held and what they are granted. -/
  held : ∀ q ≠ p, (a.step (.releasePeer p order)).held q = a.held q + bytes (of q ds)
  /-- Of the lines of the others the front is taken, of which those are granted who are still
  wanted. -/
  line : ∀ q ≠ p, ∃ passed,
    (a.account q).line = passed ++ ((a.step (.releasePeer p order)).account q).line ∧
      wanted q passed = of q ds
  /-- Each fits into what is free when it is granted. -/
  fits : ∀ before d after, ds = before ++ d :: after →
    Allocator.fits a.limits (a.total - a.held p + bytes before)
      (a.held d.peer + bytes (of d.peer before)) d.amount

theorem releasePeer_dismissed (a : Allocator) (p : Peer) (order : List Peer) :
    ∃ ds, a.Dismissed p order ds ∧ a.Dealt (.releasePeer p order) ds := by
  cases hget : a.accounts.get? p with
  | none =>
    have hfreed : a.freed (.releasePeer p order) = none := by simp [freed, clear, hget]
    have hsame : a.step (.releasePeer p order) = a := by simp [step, hfreed]
    have hheld : a.held p = 0 := held_of_none hget
    have haccount : a.account p = {} := account_of_none hget
    refine ⟨[], ⟨?_, ?_, rfl, ?_, fun q _ => ?_, fun q _ => ?_, fun before d after h => ?_⟩,
      dealt_of_unchanged hfreed hsame⟩
    · rw [answered_of_le (by rw [hsame]), queue, haccount]
      rfl
    · rw [hsame, haccount]
    · rw [hsame, hheld]
      rfl
    · rw [hsame]
      rfl
    · rw [hsame]
      exact ⟨[], rfl, rfl⟩
    · simp at h
  | some c =>
    have hfreed := freed_releasePeer_of_clear (clear_eq_some_iff.mpr ⟨c, hget, rfl⟩) order
    have haccount : a.account p = c := account_of_get? hget
    have hheld : a.held p = c.held := held_of_get? hget
    obtain ⟨ds, hds⟩ :=
      (a.strike (a.total - c.held) p (dismissals p c.line)).grantAlong_filled order
    rw [← step_of_freed hfreed] at hds
    have hothers : of p ds = [] ∧ (a.step (.releasePeer p order)).queue p = [] := by
      have hqueue := hds.queue_eq p
      rw [queue, queue, account_strike_self] at hqueue
      exact List.append_eq_nil_iff.mp hqueue
    have hqueue (q : Peer) (hq : q ≠ p) :
        of q ds ++ (a.step (.releasePeer p order)).queue q = a.queue q := by
      rw [hds.queue_eq, queue, queue, account_strike_of_ne hq]
    have hanswered : a.answered (.releasePeer p order) =
        dismissals p c.line ++ ds.map Demand.grant := by
      refine answered_eq ?_
      rw [hds.answers, ← List.append_assoc]
      rfl
    have hpeer {d : Demand} (hd : d ∈ ds) : d.peer ≠ p := by
      intro hp
      have hmem : d ∈ of p ds := mem_of.mpr ⟨hd, hp⟩
      rw [hothers.1] at hmem
      cases hmem
    refine ⟨ds, ⟨?_, ?_, hothers.1, ?_, fun q hq => ?_, fun q hq => ?_, fun before d after h => ?_⟩,
      ⟨?_, ?_, ?_, fun q => ?_, fun q hne => ?_⟩⟩
    · rw [hanswered, ← dismissals_eq, haccount]
    · have hzero := hds.held p
      obtain ⟨passed, hline, -⟩ := hds.line p
      rw [hothers.1, held_strike, Function.update_self] at hzero
      rw [account_strike_self] at hline
      have hnil := (List.append_eq_nil_iff.mp hline.symm).2
      show (⟨(a.step _).held p, ((a.step _).account p).line⟩ : Account) = {}
      rw [hzero, hnil]
      rfl
    · rw [hheld]
      exact hds.total
    · have hmore := hds.held q
      rwa [held_strike, Function.update_of_ne hq] at hmore
    · have hline := hds.line q
      rwa [account_strike_of_ne hq] at hline
    · have hfits := hds.fits before d after h
      have hne : d.peer ≠ p := hpeer (h ▸ List.mem_append_right _ (List.mem_cons_self ..))
      rw [held_strike, Function.update_of_ne hne] at hfits
      rw [hheld]
      exact hfits
    · rw [hanswered, List.filter_append, filter_dismissals, filter_grants, List.nil_append]
    · rw [relieved_of_freed hfreed]
      exact hds.total
    · rw [relieved_of_freed hfreed]
      exact hds.held
    · by_cases hq : q = p
      · rw [hq, hothers.1, hothers.2]
        exact List.nil_sublist _
      · rw [hqueue q hq]
        exact List.sublist_append_left ..
    · by_cases hq : q = p
      · exact absurd (hq ▸ hothers.1) hne
      · rw [hqueue q hq]
        exact (List.append_nil _).symm

/-- What a move grants, and to whom. -/
theorem step_dealt (a : Allocator) (m : MemoryMove) : ∃ ds, a.Dealt m ds := by
  cases m with
  | request d => exact a.request_dealt d
  | release p n order => exact a.release_dealt p n order
  | releasePeer p order =>
    obtain ⟨ds, -, hdealt⟩ := a.releasePeer_dismissed p order
    exact ⟨ds, hdealt⟩
  | abandon t =>
    refine ⟨[], dealt_nothing (answered_of_le (List.length_filter_le ..)) rfl rfl
      (a.held_abandon t) fun p => ?_⟩
    show ((a.abandon t).queue p).Sublist _
    rw [queue_abandon]
    exact List.filter_sublist
  | collect t =>
    have hstep := a.step_collect t
    refine ⟨[], dealt_nothing (answered_of_le ?_) rfl ?_ ?_ fun p => ?_⟩
    · rw [hstep]
      exact List.length_filter_le ..
    · rw [hstep]
    · rw [hstep]
      rfl
    · rw [hstep]
      exact List.Sublist.refl _

end Allocator

end Outbox
