import Mathlib
import Outbox.Memory.Run
import Outbox.Proofs.Memory.Accounts

/-!
# Moves of an allocator

The operations of an allocator are moves whose grant pass visits the peers in the order of their
names.  What a move does is said here once, in terms of the account that it replaces.

* `Allocator.Along` — every move of a run meets a condition in the state in which it is made;
* `Allocator.giveBack_eq_ok_iff`, `Allocator.giveBack_eq_error_iff`, `Allocator.clear_eq_some_iff`,
  `Allocator.request_cases` — what is freed, refused, granted or put in line;
* `Allocator.step_of_freed`, `Allocator.step_of_not_freed` — a release is a grant pass after what
  is freed;
* `Allocator.step_release`, `Allocator.step_releasePeer` — the operations are moves.
-/

namespace Outbox

namespace Allocator

variable {a b : Allocator} {p q : Peer} {n : Nat}

/-! ## Runs -/

@[simp] theorem run_nil (a : Allocator) : a.run [] = a := rfl

@[simp] theorem run_cons (a : Allocator) (m : MemoryMove) (moves : List MemoryMove) :
    a.run (m :: moves) = (a.step m).run moves := rfl

theorem run_append (a : Allocator) (moves moves' : List MemoryMove) :
    a.run (moves ++ moves') = (a.run moves).run moves' := List.foldl_append

/-- Every move meets the condition in the state in which it is made. -/
def Along (P : Allocator → MemoryMove → Prop) (a : Allocator) : List MemoryMove → Prop
  | [] => True
  | m :: rest => P a m ∧ Along P (a.step m) rest

/-- What holds at the start, and is kept by every move that meets the condition, holds after a run
whose moves all meet it. -/
theorem Along.invariant {P : Allocator → MemoryMove → Prop} {I : Allocator → Prop}
    {moves : List MemoryMove} (h : a.Along P moves) (h0 : I a)
    (hstep : ∀ a m, P a m → I a → I (a.step m)) : I (a.run moves) := by
  induction moves generalizing a with
  | nil => exact h0
  | cons m rest ih => exact ih h.2 (hstep a m h.1 h0)

theorem along_append {P : Allocator → MemoryMove → Prop} {moves moves' : List MemoryMove} :
    a.Along P (moves ++ moves') ↔ a.Along P moves ∧ (a.run moves).Along P moves' := by
  induction moves generalizing a with
  | nil => exact (and_iff_right trivial).symm
  | cons m rest ih => exact (and_congr_right fun _ => ih).trans and_assoc.symm

instance decidableAlong {P : Allocator → MemoryMove → Prop} [∀ a m, Decidable (P a m)] :
    (a : Allocator) → (moves : List MemoryMove) → Decidable (a.Along P moves)
  | _, [] => .isTrue trivial
  | a, m :: rest => @instDecidableAnd _ _ inferInstance (decidableAlong (a.step m) rest)

instance (order : List Peer) (a : Allocator) : Decidable (a.Covers order) :=
  inferInstanceAs (Decidable (∀ p ∈ a.accounts.keys, p ∈ order))

theorem visits_iff (a : Allocator) (m : MemoryMove) :
    (∀ x ∈ a.freed m, x.1.Covers x.2) ↔ a.Visits m :=
  ⟨fun h b order hm => h (b, order) hm, fun h x hx => h x.1 x.2 hx⟩

instance (a : Allocator) (m : MemoryMove) : Decidable (a.Visits m) :=
  decidable_of_iff _ (a.visits_iff m)

/-! ## What a move does -/

/-- What can be given back is what the peer holds. -/
theorem giveBack_eq_ok_iff : a.giveBack p n = .ok b ↔ ∃ c, a.accounts.get? p = some c ∧
    n ≤ c.held ∧ b = a.put (a.total - n) p { c with held := c.held - n } [] := by
  unfold giveBack
  cases hp : a.accounts.get? p with
  | none => simp
  | some c =>
    simp only [Option.some.injEq, exists_eq_left']
    by_cases hlt : c.held < n
    · rw [if_pos hlt]
      simp only [reduceCtorEq, false_iff, not_and]
      omega
    · rw [if_neg hlt, Except.ok.injEq, put, List.append_nil, and_iff_right (by omega)]
      exact eq_comm

/-- Nothing can be given back for an unknown peer, nor more than a peer holds. -/
theorem giveBack_eq_error_iff {e : MemoryError} : a.giveBack p n = .error e ↔
    a.accounts.contains p = false ∧ e = .unknownPeer p ∨
      a.accounts.contains p = true ∧ a.held p < n ∧ e = .releaseExceeds n (a.held p) := by
  unfold giveBack Dict.contains held
  cases hp : a.accounts.get? p with
  | none => simp [eq_comm]
  | some c =>
    rw [account_of_get? hp]
    by_cases hlt : c.held < n
    · simp [hlt, eq_comm]
    · simp [hlt]

/-- Everyone who waits in the line of a peer that gives all of its memory back is refused. -/
def dismissals (p : Peer) (line : List Waiter) : List (Ticket × Grant) :=
  (line.filter (·.live)).map fun w => (w.ticket, .refused (.peerReleased p))

theorem clear_eq_some_iff : a.clear p = some b ↔ ∃ c, a.accounts.get? p = some c ∧
    b = a.strike (a.total - c.held) p (dismissals p c.line) := by
  rw [clear, Option.map_eq_some_iff]
  exact exists_congr fun c => and_congr_right fun _ => eq_comm

/-- A request is granted if nobody is in line and it fits, and joins the line otherwise. -/
theorem request_cases (a : Allocator) (d : Demand) :
    ((a.account d.peer).line = [] ∧ fits a.limits a.total (a.held d.peer) d.amount = true ∧
      a.step (.request d) = a.put (a.total + d.amount) d.peer ⟨a.held d.peer + d.amount, []⟩
        [(d.ticket, .granted)]) ∨
    (((a.account d.peer).line = [] → fits a.limits a.total (a.held d.peer) d.amount = false) ∧
      a.step (.request d) = a.put a.total d.peer
        ⟨a.held d.peer, (a.account d.peer).line ++ [⟨d.ticket, d.amount, true⟩]⟩ []) := by
  unfold step request
  simp only
  by_cases hgo : ((a.account d.peer).line.isEmpty &&
      fits a.limits a.total (a.account d.peer).held d.amount) = true
  · rw [if_pos hgo]
    obtain ⟨hline, hfits⟩ := Bool.and_eq_true_iff.mp hgo
    have hline : (a.account d.peer).line = [] := List.isEmpty_iff.mp hline
    refine .inl ⟨hline, hfits, ?_⟩
    rw [hline]
    rfl
  · rw [if_neg hgo]
    refine .inr ⟨fun hline => ?_, ?_⟩
    · simpa [hline, held] using hgo
    · rw [put, List.append_nil]
      rfl

theorem freed_release_eq_some_iff {order order' : List Peer} :
    a.freed (.release p n order) = some (b, order') ↔ a.giveBack p n = .ok b ∧ order = order' := by
  unfold freed
  cases hg : a.giveBack p n with
  | error e => simp [hg, Except.toOption]
  | ok b' => simp [hg, Except.toOption]

theorem freed_releasePeer_eq_some_iff {order order' : List Peer} :
    a.freed (.releasePeer p order) = some (b, order') ↔ a.clear p = some b ∧ order = order' := by
  unfold freed
  cases hc : a.clear p with
  | none => simp [hc]
  | some b' => simp [hc]

theorem freed_release_of_ok (h : a.giveBack p n = .ok b) (order : List Peer) :
    a.freed (.release p n order) = some (b, order) :=
  freed_release_eq_some_iff.mpr ⟨h, rfl⟩

theorem freed_releasePeer_of_clear (h : a.clear p = some b) (order : List Peer) :
    a.freed (.releasePeer p order) = some (b, order) :=
  freed_releasePeer_eq_some_iff.mpr ⟨h, rfl⟩

/-- A move that frees nothing makes no grant pass. -/
theorem visits_of_not_freed {m : MemoryMove} (h : a.freed m = none) : a.Visits m :=
  fun _ _ h' => nomatch h.symm.trans h'

/-- A release that frees something is followed by a grant pass. -/
theorem step_of_freed {m : MemoryMove} {order : List Peer} (h : a.freed m = some (b, order)) :
    a.step m = b.grantAlong order := by
  cases m with
  | release p n order' => simp only [step, h, Option.elim_some]
  | releasePeer p order' => simp only [step, h, Option.elim_some]
  | _ => cases h

/-- Reading an answer removes it. -/
theorem step_collect (a : Allocator) (t : Ticket) :
    a.step (.collect t) = { a with answers := a.answers.filter (fun e => e.1 ≠ t) } := by
  unfold step take?
  simp only
  cases hl : a.answers.lookup t with
  | some g => rfl
  | none =>
    have hself : a.answers.filter (fun e => e.1 ≠ t) = a.answers := by
      refine List.filter_eq_self.mpr fun e he => ?_
      have hne := List.lookup_eq_none_iff.mp hl e he
      rw [decide_eq_true_eq]
      rintro rfl
      simp at hne
    rw [hself]
    rfl

/-! ## The operations are moves -/

theorem release_eq (a : Allocator) (p : Peer) (n : Nat) :
    a.release p n = (a.giveBack p n).map grantWaiting := by
  unfold release giveBack
  cases a.accounts.get? p with
  | none => rfl
  | some c =>
    simp only
    split <;> rfl

theorem releasePeer_eq (a : Allocator) (p : Peer) :
    a.releasePeer p = (a.clear p).elim a grantWaiting := by
  unfold releasePeer clear
  cases a.accounts.get? p <;> rfl

/-- A peer that gives something back keeps its place among the peers. -/
theorem keys_giveBack (h : a.giveBack p n = .ok b) : b.accounts.keys = a.accounts.keys := by
  obtain ⟨c, hc, -, rfl⟩ := giveBack_eq_ok_iff.mp h
  refine Dict.keys_insert _ ?_
  rw [Dict.contains, hc, Option.isSome_some]

/-- A release is the move that visits the peers in the order of their names. -/
theorem step_release (a : Allocator) (p : Peer) (n : Nat) :
    a.step (.release p n a.accounts.keys) = (a.release p n).toOption.getD a ∧
      a.Visits (.release p n a.accounts.keys) := by
  rw [release_eq]
  cases hg : a.giveBack p n with
  | error e =>
    have hnone : a.freed (.release p n a.accounts.keys) = none := by
      simp only [freed, hg, Except.toOption, Option.map_none]
    refine ⟨?_, visits_of_not_freed hnone⟩
    simp only [step, hnone, Option.elim_none]
    rfl
  | ok b =>
    have hkeys := keys_giveBack hg
    have hfreed := freed_release_of_ok hg a.accounts.keys
    constructor
    · rw [step_of_freed hfreed, ← hkeys]
      rfl
    · intro b' order h
      rw [hfreed] at h
      cases h
      exact fun x hx => hkeys ▸ hx

theorem refusal?_eq_some_iff {order : List Peer} {e : MemoryError} :
    a.refusal? (.release p n order) = some e ↔ a.giveBack p n = .error e := by
  simp only [refusal?]
  cases a.giveBack p n <;> simp

/-- A release is refused as the move is. -/
theorem refusal?_release (a : Allocator) (p : Peer) (n : Nat) (order : List Peer)
    (e : MemoryError) :
    a.refusal? (.release p n order) = some e ↔ a.release p n = .error e := by
  rw [refusal?_eq_some_iff, release_eq]
  cases a.giveBack p n <;> simp [Except.map]

/-- To give all memory back is the move that visits the peers left in the order of their names. -/
theorem step_releasePeer (a : Allocator) (p : Peer) :
    a.step (.releasePeer p (a.accounts.erase p).keys) = a.releasePeer p ∧
      a.Visits (.releasePeer p (a.accounts.erase p).keys) := by
  rw [releasePeer_eq]
  cases hc : a.clear p with
  | none =>
    have hnone : a.freed (.releasePeer p (a.accounts.erase p).keys) = none := by
      simp only [freed, hc, Option.map_none]
    exact ⟨by simp only [step, hnone, Option.elim_none], visits_of_not_freed hnone⟩
  | some b =>
    have hfreed := freed_releasePeer_of_clear hc (a.accounts.erase p).keys
    obtain ⟨c, -, rfl⟩ := clear_eq_some_iff.mp hc
    refine ⟨step_of_freed hfreed, fun b' order h => ?_⟩
    rw [hfreed] at h
    cases h
    exact fun x hx => hx

end Allocator

end Outbox
