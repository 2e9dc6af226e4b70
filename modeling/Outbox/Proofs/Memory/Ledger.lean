import Mathlib
import Outbox.Proofs.Memory.Waiting

/-!
# The ledger of a run

The account book of a run is told from what is seen of it: each answer that grants a request is
charged to the peer that made the request, with the bytes it asked for, and each release that was
not refused is what it says.  Against this book everything that an allocator holds is accounted
for.

* `Allocator.ledger` — the account book of a run;
* `Allocator.run_shifts` — a run is made of shifts, with this book;
* `Allocator.Audited` — what a run has to satisfy;
* `Allocator.memory_audited` — every run satisfies it.
-/

namespace Outbox.Allocator

open Posting

/-! ## The book -/

/-- The entry for an answer: a grant charges what was asked for under its name. -/
def charge? (all : List Demand) : Ticket × Grant → Option Posting
  | (t, .granted) => (all.find? (·.ticket = t)).map .charged
  | (_, .refused _) => none

/-- The entries for moves: for each move what it gives back, and then what is granted. -/
def entries (all : List Demand) (a : Allocator) : List MemoryMove → List Posting
  | [] => []
  | m :: rest =>
    a.repaid m ++ (a.answered m).filterMap (charge? all) ++ (a.step m).entries all rest

/-- The account book of a run. -/
def ledger (a : Allocator) (moves : List MemoryMove) : List Posting :=
  a.entries (demands moves) moves

variable {a : Allocator} {all made : List Demand} {moves : List MemoryMove}

/-- Requests with different names can be told apart by their names. -/
theorem charge?_grant (hdistinct : (all.map Demand.ticket).Nodup) {d : Demand} (hd : d ∈ all) :
    charge? all d.grant = some (.charged d) := by
  have hfind : all.find? (·.ticket = d.ticket) = some d := by
    cases hf : all.find? (·.ticket = d.ticket) with
    | none => simpa using List.find?_eq_none.mp hf d hd
    | some d' =>
      have hticket : d'.ticket = d.ticket := by simpa using List.find?_some hf
      rw [List.inj_on_of_nodup_map hdistinct (List.mem_of_find?_eq_some hf) hd hticket]
  show (all.find? (·.ticket = d.ticket)).map Posting.charged = _
  rw [hfind, Option.map_some]

/-- The answers that grant requests are charged as what was asked for. -/
theorem filterMap_charge? (hdistinct : (all.map Demand.ticket).Nodup)
    {answers : List (Ticket × Grant)} {ds : List Demand} (hds : ∀ d ∈ ds, d ∈ all)
    (hgranted : answers.filter (·.2 = .granted) = ds.map Demand.grant) :
    answers.filterMap (charge? all) = ds.map .charged := by
  have honly : answers.filterMap (charge? all) =
      (answers.filter (·.2 = .granted)).filterMap (charge? all) := by
    rw [List.filterMap_filter]
    refine List.filterMap_congr fun e _ => ?_
    obtain ⟨t, g⟩ := e
    cases g <;> rfl
  rw [honly, hgranted, List.filterMap_map]
  refine Eq.trans (List.filterMap_congr (g := some ∘ Posting.charged) fun d hd => ?_)
    (congrFun List.filterMap_eq_map ds)
  exact charge?_grant hdistinct (hds d hd)

/-- A run is made of shifts; what is charged in it is what the book says. -/
theorem run_shifts (hdistinct : (all.map Demand.ticket).Nodup) (hknown : a.Known made)
    (moves : List MemoryMove) (hall : made ++ demands moves ⊆ all) :
    ∃ x, Shifts a x (a.run moves) ∧ x.made = demands moves ∧ x.posted = a.entries all moves ∧
      x.answers = a.answeredAlong moves := by
  induction moves generalizing a made with
  | nil => exact ⟨{}, .refl a, rfl, rfl, rfl⟩
  | cons m rest ih =>
    obtain ⟨ds, hshifts, hgranted⟩ := a.step_moved m
    obtain ⟨hnext, hcharged⟩ := hshifts.known hknown
    rw [demands_cons, ← List.append_assoc] at hall
    have hcharges : (a.answered m).filterMap (charge? all) = ds.map .charged := by
      refine filterMap_charge? hdistinct (fun d hd => hall (List.mem_append_left _ ?_)) hgranted
      exact hcharged d (List.mem_append_right _ (List.mem_map_of_mem hd))
    obtain ⟨y, hrest, hmade, hposted, hanswers⟩ := ih hnext hall
    refine ⟨_, hshifts.trans hrest, ?_, ?_, ?_⟩
    · rw [Effect.made_andThen, hmade, demands_cons]
    · rw [Effect.posted_andThen, hposted, ← hcharges, entries]
    · rw [Effect.answers_andThen, hanswers]
      rfl

/-! ## What every run satisfies -/

/-- What a run has to satisfy that starts from an allocator. -/
structure Audited (start : Allocator) (moves : List MemoryMove) : Prop where
  /-- The bytes held in total are those held by all peers. -/
  total : (start.run moves).total =
    ∑ p ∈ (start.run moves).accounts.keys.toFinset, (start.run moves).held p
  /-- A peer holds what it was granted and has not given back since it last gave everything
  back. -/
  held : ∀ p, (start.run moves).held p + returnedBy p (since p (start.ledger moves)) =
    chargedTo p (since p (start.ledger moves))
  /-- A request that is abandoned while it waits is never charged. -/
  abandoned : ∀ before t after, moves = before ++ .abandon t :: after →
    (start.run before).isWaiting t = true →
    ∀ d, d.ticket = t → .charged d ∉ start.ledger moves
  /-- A request that is refused is never charged. -/
  refused : ∀ t e, (t, .refused e) ∈ start.answeredAlong moves →
    ∀ d, d.ticket = t → .charged d ∉ start.ledger moves
  /-- A release is refused if the peer is unknown or holds less, and then changes nothing. -/
  refusal : ∀ p n order e, (start.run moves).refusal? (.release p n order) = some e →
    ((start.run moves).accounts.contains p = false ∧ e = .unknownPeer p ∨
      (start.run moves).held p < n ∧ e = .releaseExceeds n ((start.run moves).held p)) ∧
    (start.run moves).step (.release p n order) = start.run moves
  /-- A peer that exceeds its limit was granted some bytes exactly once since it held none. -/
  perPeer : ∀ p, start.limits.perPeer < (start.run moves).held p →
    OnceSinceZero (balance p) (isChargeTo p) (start.ledger moves)
  /-- If all peers exceed their limit, some bytes were granted exactly once since they held
  none. -/
  overall : start.limits.total < (start.run moves).total →
    OnceSinceZero balances isCharge (start.ledger moves)

/-- Two different answers to a request are more than one. -/
theorem one_lt_replies {answers : List (Ticket × Grant)} {t : Ticket} {g g' : Grant}
    (hne : g ≠ g') (h : (t, g) ∈ answers) (h' : (t, g') ∈ answers) : 1 < replies t answers := by
  obtain ⟨l, r, rfl⟩ := List.append_of_mem h
  have hrest : (t, g') ∈ l ++ r := by
    simp only [List.mem_append, List.mem_cons, Prod.mk.injEq, true_and] at h' ⊢
    rcases h' with h' | rfl | h'
    · exact .inl h'
    · exact absurd rfl hne
    · exact .inr h'
  have hpos := replies_pos hrest
  simp only [replies, List.countP_append, List.countP_cons, decide_true, if_true] at hpos ⊢
  omega

/-- A request that is abandoned while it waits is granted neither before nor later. -/
theorem abandoned_not_granted {before after : List MemoryMove} {d : Demand}
    (hnone : a.accounts = ∅)
    (hdistinct : ((demands (before ++ .abandon d.ticket :: after)).map Demand.ticket).Nodup)
    (hwaiting : (a.run before).isWaiting d.ticket = true) :
    d.grant ∉ a.answeredAlong (before ++ .abandon d.ticket :: after) := by
  have hstart : a.waits d.ticket = 0 := by
    rw [waits, hnone]
    rfl
  have hbefore := waits_run_le a before d.ticket
  have hafter := waits_run_le ((a.run before).abandon d.ticket) after d.ticket
  have hdead := waits_abandon_self (a.run before) d.ticket
  have hmade := askings_le_one hdistinct d.ticket
  have hlive := isWaiting_iff.mp hwaiting
  rw [demands_append, demands_cons, askings_append, askings_append] at hmade
  have hanswered : (a.run before).answered (.abandon d.ticket) = [] :=
    answered_of_le (List.length_filter_le ..)
  rw [answeredAlong_append, answeredAlong_cons, hanswered, List.nil_append, List.mem_append]
  rintro (hd | hd)
  · have := replies_pos hd
    omega
  · have : 0 < replies d.ticket (((a.run before).abandon d.ticket).answeredAlong after) :=
      replies_pos hd
    omega

/-- A release that is refused changes nothing. -/
theorem refused_unchanged {p : Peer} {n : Nat} {order : List Peer} {e : MemoryError}
    (h : a.refusal? (.release p n order) = some e) :
    (a.accounts.contains p = false ∧ e = .unknownPeer p ∨
      a.held p < n ∧ e = .releaseExceeds n (a.held p)) ∧
    a.step (.release p n order) = a := by
  have herror := refusal?_eq_some_iff.mp h
  refine ⟨?_, ?_⟩
  · rcases giveBack_eq_error_iff.mp herror with hunknown | ⟨-, hexceeds⟩
    · exact .inl hunknown
    · exact .inr hexceeds
  · simp [step, freed, herror, Except.toOption]

/-- **Accounting.**  In every run of an allocator, whose requests have different names, the bytes
held are accounted for peer by peer and in total, requests that are abandoned while they wait or
refused cost nothing, a release that is refused changes nothing, and whoever exceeds a limit does
so by one request that was granted while nothing was held. -/
theorem memory_audited (limits : MemoryLimits) (moves : List MemoryMove)
    (hdistinct : ((demands moves).map Demand.ticket).Nodup) :
    Audited { limits } moves := by
  have hknown : Known [] { limits } := fun _ _ hget => by cases hget
  obtain ⟨x, hshifts, hmade, hposted, hanswers⟩ := run_shifts hdistinct hknown moves (by simp)
  have hsound : Sound limits x (run { limits } moves) :=
    hshifts.invariant (sound_start limits) fun _ _ _ _ hs h => hs.sound h
  have hledger : x.posted = ledger { limits } moves := hposted
  have hgrant {d : Demand} (hd : .charged d ∈ ledger { limits } moves) :
      d.grant ∈ answeredAlong { limits } moves := by
    rw [← hanswers]
    exact hshifts.grant_mem (hledger ▸ hd)
  refine ⟨hsound.balanced.total_eq, fun p => hledger ▸ hsound.booked p, ?_, ?_, ?_, ?_, ?_⟩
  · rintro before t after rfl hwaiting d rfl hd
    exact abandoned_not_granted rfl hdistinct hwaiting (hgrant hd)
  · rintro t e hrefused d rfl hd
    have hmade := askings_le_one hdistinct d.ticket
    have hboth := one_lt_replies (by simp) (hgrant hd) hrefused
    have hle := waits_run_le { limits } moves d.ticket
    have hstart : waits { limits } d.ticket = 0 := rfl
    omega
  · intro p n order e he
    exact refused_unchanged he
  · intro p hlimit
    refine hledger ▸ hsound.perPeer p ?_
    rw [hsound.booked.balance_eq]
    exact hlimit
  · intro hlimit
    refine hledger ▸ hsound.overall ?_
    rw [balances_eq_total hsound.booked hsound.balanced]
    exact hlimit

/-- Of three requests one exceeds the limit of its peer, one is abandoned while it waits, and the
last exceeds both limits, since everything has been given back. -/
theorem memory_audited_of_oversized :
    let start : Allocator := { limits := { total := 100, perPeer := 50 } }
    let moves : List MemoryMove :=
      [.request ⟨0, Peer.zero, 80⟩, .request ⟨1, Peer.zero, 10⟩, .abandon 1,
        .release Peer.zero 80 [Peer.zero], .request ⟨2, Peer.zero, 120⟩]
    ((demands moves).map Demand.ticket).Nodup ∧ (start.run moves).total = 120 ∧
      OnceSinceZero balances isCharge (start.ledger moves) ∧
      .charged ⟨1, Peer.zero, 10⟩ ∉ start.ledger moves := by
  intro start moves
  have haudited : Audited start moves := memory_audited _ moves (by decide)
  refine ⟨by decide, by decide, haudited.overall (by decide), ?_⟩
  exact haudited.abandoned [.request ⟨0, Peer.zero, 80⟩, .request ⟨1, Peer.zero, 10⟩] 1
    [.release Peer.zero 80 [Peer.zero], .request ⟨2, Peer.zero, 120⟩] rfl (by decide) _ rfl

end Outbox.Allocator
