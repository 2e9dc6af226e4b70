import Mathlib
import Outbox.Memory.Allocator
import Outbox.Proofs.Dict

/-!
# An allocator with one user

While one peer is the only user of an allocator, all that matters is what it holds, who waits in
its line and the answers not read yet.  Every operation is computed here in these terms.  The one
rule that everything rests on is that nobody waits while nothing is held: a request that comes then
is granted, however large it is.

* `Allocator.sole` — the allocator whose only user has the given account;
* `Allocator.sole_request`, `Allocator.sole_release`, `Allocator.sole_releasePeer`,
  `Allocator.sole_abandon`, `Allocator.sole_take?` — the operations;
* `Allocator.Served` — what serving the line does.
-/

namespace Outbox

/-- The requests in a line that somebody still wants. -/
def Account.wanted (c : Account) : List Waiter := c.line.filter (·.live)

/-- The bytes that some requests ask for. -/
def Waiter.bytes (ws : List Waiter) : Nat := (ws.map Waiter.amount).sum

namespace Allocator

variable {limits : MemoryLimits} {p : Peer} {c : Account} {answers : List (Ticket × Grant)}

/-- The table with one account, which is left out when it is empty. -/
def only (p : Peer) (c : Account) : Dict Peer Account :=
  if c = {} then ∅ else (∅ : Dict Peer Account).insert p c

/-- The allocator whose only user has the given account. -/
def sole (limits : MemoryLimits) (p : Peer) (c : Account) (answers : List (Ticket × Grant)) :
    Allocator where
  limits := limits
  total := c.held
  accounts := only p c
  answers := answers

/-- An allocator that nobody has used is one. -/
theorem sole_empty (limits : MemoryLimits) (p : Peer) :
    sole limits p {} [] = { limits } := by
  simp [sole, only]

theorem get?_only (p : Peer) (c : Account) :
    (only p c).get? p = if c = {} then none else some c := by
  unfold only
  by_cases hc : c = {}
  · simp [hc]
  · rw [if_neg hc, if_neg hc, Dict.get?_insert, if_pos rfl]

theorem account_sole : (sole limits p c answers).account p = c := by
  show ((only p c).get? p).getD {} = c
  rw [get?_only]
  by_cases hc : c = {}
  · rw [if_pos hc, hc]
    rfl
  · rw [if_neg hc]
    rfl

/-- A change of the account is the only entry again. -/
theorem insert_only (p : Peer) (c c' : Account) :
    (only p c).insert p c' = (∅ : Dict Peer Account).insert p c' := by
  unfold only
  by_cases hc : c = {}
  · rw [if_pos hc]
  · rw [if_neg hc, Dict.insert_insert]

/-- An empty account is dropped. -/
theorem prune_only (total : Nat) (c : Account) (answers : List (Ticket × Grant)) :
    prune ⟨limits, total, (∅ : Dict Peer Account).insert p c, answers⟩ =
      ⟨limits, total, only p c, answers⟩ := by
  have hentries : ((∅ : Dict Peer Account).insert p c).entries = [(p, c)] := rfl
  unfold prune only
  congr 1
  refine Dict.ext ?_
  simp only [Dict.filter, hentries]
  obtain ⟨held, line⟩ := c
  by_cases hc : (⟨held, line⟩ : Account) = {}
  · cases hc
    rfl
  · rw [if_neg hc]
    have hkeep : 0 < held ∨ line ≠ [] := by
      by_contra hnot
      simp only [not_or, Nat.not_lt, Nat.le_zero, not_not] at hnot
      exact hc (by rw [hnot.1, hnot.2])
    rw [List.filter_cons_of_pos (by simpa using hkeep), hentries]
    rfl

/-! ## Serving the line -/

/-- The first wanted requests of a line are granted; nobody waits any more unless something is
held. -/
structure Served (c c' : Account) (granted : List Waiter) : Prop where
  /-- The requests come from the line. -/
  wanted : c.wanted = granted ++ c'.wanted
  /-- They are held now. -/
  held : c'.held = c.held + Waiter.bytes granted
  /-- Nobody waits while nothing is held. -/
  idle : c'.held = 0 → c'.line = []

theorem serve_served (limits : MemoryLimits) (held : Nat) (line : List Waiter) :
    ∃ c' granted, serve limits held held line = (c'.held, c', granted.map Waiter.ticket) ∧
      Served ⟨held, line⟩ c' granted := by
  induction line generalizing held with
  | nil => exact ⟨⟨held, []⟩, [], rfl, rfl, rfl, fun _ => rfl⟩
  | cons w line ih =>
    unfold serve
    by_cases hl : w.live = true
    · rw [if_neg (by simp [hl])]
      by_cases hfit : fits limits held held w.amount = true
      · rw [if_pos hfit]
        obtain ⟨c', granted, hserve, hserved⟩ := ih (held + w.amount)
        refine ⟨c', w :: granted, ?_, ?_, ?_, hserved.idle⟩
        · rw [hserve]
          rfl
        · have hwanted := hserved.wanted
          simp only [Account.wanted] at hwanted ⊢
          rw [List.filter_cons_of_pos hl, hwanted, List.cons_append]
        · have hheld := hserved.held
          simp only [Waiter.bytes, List.map_cons, List.sum_cons] at hheld ⊢
          omega
      · rw [if_neg hfit]
        refine ⟨⟨held, w :: line⟩, [], rfl, rfl, rfl, ?_⟩
        intro hzero
        refine absurd ?_ hfit
        have hheld : held = 0 := hzero
        simp [fits, hheld]
    · rw [if_pos (by simpa using hl)]
      obtain ⟨c', granted, hserve, hserved⟩ := ih held
      refine ⟨c', granted, hserve, ?_, hserved.held, hserved.idle⟩
      have hwanted := hserved.wanted
      simp only [Account.wanted] at hwanted ⊢
      rw [List.filter_cons_of_neg hl, hwanted]

/-- The answers to requests that are granted. -/
def grants (granted : List Waiter) : List (Ticket × Grant) :=
  granted.map fun w => (w.ticket, .granted)

/-- A release serves the line of the only user. -/
theorem grantWaiting_insert (limits : MemoryLimits) (p : Peer) (c : Account)
    (answers : List (Ticket × Grant)) :
    ∃ c' granted, grantWaiting ⟨limits, c.held, (∅ : Dict Peer Account).insert p c, answers⟩ =
      sole limits p c' (answers ++ grants granted) ∧ Served c c' granted := by
  obtain ⟨c', granted, hserve, hserved⟩ := serve_served limits c.held c.line
  refine ⟨c', granted, ?_, hserved⟩
  have hkeys : ((∅ : Dict Peer Account).insert p c).keys = [p] := rfl
  unfold grantWaiting grantAlong
  simp only [hkeys, List.foldl_cons, List.foldl_nil, grantPeer, Dict.get?_insert, if_pos]
  rw [hserve]
  simp only [Dict.insert_insert, prune_only, List.map_map]
  rfl

/-! ## The operations -/

/-- A request is granted at once, or somebody holds something and it joins the line. -/
theorem sole_request (hidle : c.held = 0 → c.line = []) (t : Ticket) {n : Nat} (hn : n ≠ 0) :
    (c.line = [] ∧ (sole limits p c answers).request t p n =
        sole limits p { c with held := c.held + n } (answers ++ [(t, .granted)])) ∨
      (c.held ≠ 0 ∧ (sole limits p c answers).request t p n =
        sole limits p { c with line := c.line ++ [⟨t, n, true⟩] } answers) := by
  unfold request
  simp only [account_sole]
  by_cases hgo : (c.line.isEmpty && fits (sole limits p c answers).limits
      (sole limits p c answers).total c.held n) = true
  · rw [if_pos hgo]
    refine .inl ⟨?_, ?_⟩
    · simpa using (Bool.and_eq_true_iff.mp hgo).1
    · have hne : ({ c with held := c.held + n } : Account) ≠ {} := by
        intro he
        have hheld : c.held + n = 0 := congrArg Account.held he
        omega
      unfold sole
      rw [insert_only, only, only, if_neg hne]
  · rw [if_neg hgo]
    refine .inr ⟨?_, ?_⟩
    · intro hzero
      refine hgo ?_
      rw [hidle hzero]
      simp [fits, sole, hzero]
    · have hne : ({ c with line := c.line ++ [⟨t, n, true⟩] } : Account) ≠ {} := by
        intro he
        have hline : c.line ++ [⟨t, n, true⟩] = [] := congrArg Account.line he
        simp at hline
      unfold sole
      rw [insert_only, only, only, if_neg hne]

/-- What is given back is handed to those who wait. -/
theorem sole_release (limits : MemoryLimits) (p : Peer) (answers : List (Ticket × Grant))
    {n : Nat} (hn : n ≠ 0) (hle : n ≤ c.held) :
    ∃ c' granted, (sole limits p c answers).release p n =
      .ok (sole limits p c' (answers ++ grants granted)) ∧
        Served { c with held := c.held - n } c' granted := by
  have hne : c ≠ {} := by
    rintro rfl
    have hzero : n ≤ 0 := hle
    omega
  have hget : (sole limits p c answers).accounts.get? p = some c := by
    show (only p c).get? p = some c
    rw [get?_only, if_neg hne]
  obtain ⟨c', granted, hgrant, hserved⟩ :=
    grantWaiting_insert limits p { c with held := c.held - n } answers
  refine ⟨c', granted, ?_, hserved⟩
  unfold release
  rw [hget]
  simp only
  rw [if_neg (by omega), ← hgrant]
  show Except.ok (grantWaiting ⟨limits, c.held - n, (only p c).insert p _, answers⟩) = _
  rw [insert_only]

/-- More than is held cannot be given back. -/
theorem sole_release_excess (limits : MemoryLimits) (p : Peer) (answers : List (Ticket × Grant))
    {n : Nat} (hlt : c.held < n) : ∃ e, (sole limits p c answers).release p n = .error e := by
  have hget : (sole limits p c answers).accounts.get? p = if c = {} then none else some c :=
    get?_only p c
  unfold release
  rw [hget]
  by_cases hc : c = {}
  · rw [if_pos hc]
    exact ⟨_, rfl⟩
  · rw [if_neg hc]
    simp only
    rw [if_pos hlt]
    exact ⟨_, rfl⟩

/-- When nobody waits, all that is held can be given back at once. -/
theorem sole_release_all (limits : MemoryLimits) (p : Peer) (answers : List (Ticket × Grant))
    {n : Nat} (hn : n ≠ 0) :
    (sole limits p { held := n } answers).release p n = .ok (sole limits p {} answers) := by
  have hle : n ≤ ({ held := n } : Account).held := le_refl n
  obtain ⟨⟨held', line'⟩, granted, hrelease, hserved⟩ := sole_release limits p answers hn hle
  have hnobody : granted = [] := by
    have hwanted : [] = granted ++ Account.wanted ⟨held', line'⟩ := hserved.wanted
    exact (List.append_eq_nil_iff.mp hwanted.symm).1
  subst hnobody
  have hheld : held' = 0 := by
    have hserved := hserved.held
    show held' = 0
    simp only [Waiter.bytes, List.map_nil, List.sum_nil] at hserved
    omega
  have hline : line' = [] := hserved.idle hheld
  rw [hrelease, hheld, hline]
  simp [grants]

/-- Nothing can be given back by someone who holds nothing. -/
theorem sole_release_empty (limits : MemoryLimits) (p : Peer) (answers : List (Ticket × Grant))
    (n : Nat) : (sole limits p {} answers).release p n = .error (.unknownPeer p) := rfl

/-- When all is given back at once, everyone in line is refused. -/
theorem sole_releasePeer (limits : MemoryLimits) (p : Peer) (c : Account)
    (answers : List (Ticket × Grant)) :
    (sole limits p c answers).releasePeer p = sole limits p {}
      (answers ++ c.wanted.map fun w => (w.ticket, .refused (.peerReleased p))) := by
  unfold releasePeer
  have hget : (sole limits p c answers).accounts.get? p = if c = {} then none else some c :=
    get?_only p c
  rw [hget]
  by_cases hc : c = {}
  · subst hc
    rw [if_pos rfl]
    simp [Account.wanted]
  · rw [if_neg hc]
    have herase : (only p c).erase p = ∅ := by
      rw [only, if_neg hc, Dict.erase_insert, Dict.erase_eq_self (Dict.get?_empty p)]
    have htotal : c.held - c.held = 0 := Nat.sub_self _
    simp only [sole, herase, htotal]
    rfl

/-- A request that nobody wants any more stays in line as a dead one. -/
theorem sole_abandon (limits : MemoryLimits) (p : Peer) (c : Account)
    (answers : List (Ticket × Grant)) (t : Ticket) :
    (sole limits p c answers).abandon t = sole limits p
      { c with line := c.line.map fun w => if w.ticket = t then { w with live := false } else w }
      (answers.filter (fun e => e.1 ≠ t)) := by
  obtain ⟨held, line⟩ := c
  unfold abandon sole only
  by_cases hc : (⟨held, line⟩ : Account) = {}
  · cases hc
    rfl
  · rw [if_neg hc, if_neg]
    · rfl
    · intro he
      have hheld : held = 0 := congrArg Account.held he
      have hline : line = [] := List.map_eq_nil_iff.mp (congrArg Account.line he)
      exact hc (by rw [hheld, hline])

/-- The requests that are wanted after one is abandoned. -/
theorem wanted_abandon (c : Account) (t : Ticket) :
    Account.wanted { c with
      line := c.line.map fun w => if w.ticket = t then { w with live := false } else w } =
        c.wanted.filter (fun w => w.ticket ≠ t) := by
  unfold Account.wanted
  induction c.line with
  | nil => rfl
  | cons w rest ih =>
    rw [List.map_cons]
    by_cases ht : w.ticket = t
    · rw [if_pos ht, List.filter_cons_of_neg (by simp), ih]
      by_cases hl : w.live = true
      · rw [List.filter_cons_of_pos hl, List.filter_cons_of_neg (by simpa using ht)]
      · rw [List.filter_cons_of_neg hl]
    · rw [if_neg ht]
      by_cases hl : w.live = true
      · rw [List.filter_cons_of_pos hl, List.filter_cons_of_pos hl, ih,
          List.filter_cons_of_pos (by simpa using ht)]
      · rw [List.filter_cons_of_neg hl, List.filter_cons_of_neg hl, ih]

/-- Reading an answer leaves the account alone. -/
theorem sole_take? (limits : MemoryLimits) (p : Peer) (c : Account)
    (answers : List (Ticket × Grant)) (t : Ticket) :
    (sole limits p c answers).take? t = (answers.lookup t).map fun g =>
      (g, sole limits p c (answers.filter (fun e => e.1 ≠ t))) := rfl

/-- A name that is not in use is not that of a wanted request, and has no answer. -/
theorem sole_isOpen {t : Ticket} (h : (sole limits p c answers).isOpen t = false) :
    (∀ w ∈ c.wanted, w.ticket ≠ t) ∧ answers.lookup t = none := by
  obtain ⟨hwaiting, hlookup⟩ := Bool.or_eq_false_iff.mp h
  refine ⟨?_, Option.isNone_iff_eq_none.mp (Option.isSome_eq_false_iff.mp hlookup)⟩
  intro w hw hwt
  obtain ⟨hmem, hlive⟩ := List.mem_filter.mp hw
  by_cases hc : c = {}
  · rw [hc] at hmem
    cases hmem
  · have hvalues : (sole limits p c answers).accounts.values = [c] := by
      show (only p c).values = [c]
      unfold only
      rw [if_neg hc]
      rfl
    simp only [isWaiting, hvalues, List.any_cons, List.any_nil, Bool.or_false,
      List.any_eq_false] at hwaiting
    have hnot := hwaiting w hmem
    simp [hlive, hwt] at hnot

end Allocator

end Outbox
