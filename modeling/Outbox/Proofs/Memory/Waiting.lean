import Mathlib
import Outbox.Proofs.Memory.Accounting

/-!
# Who waits for an allocator

A request is made once, may wait, and is answered once; what is charged for it is what it asked
for.  So a request that was abandoned while it waited, or refused, is never charged.

* `Allocator.waits` — how often a request waits;
* `Shifts.waits_le` — what is answered or waits was made or waited before;
* `Allocator.Known` — everyone who waits has asked for it;
* `Shifts.known` — and so has everyone who is charged;
* `Allocator.demands`, `Allocator.answeredAlong` — the requests made and the answers given in a run;
* `Allocator.Known.run`, `Allocator.waits_run_le` — what this means for runs.
-/

namespace Outbox

open Posting Allocator

/-- How often a request waits in the line of an account. -/
def Account.waits (t : Ticket) (c : Account) : Nat := c.line.countP fun w => w.live ∧ w.ticket = t

namespace Allocator

/-- How often a request waits. -/
def waits (a : Allocator) (t : Ticket) : Nat := a.accounts.weigh (Account.waits t)

/-- The answers to a request. -/
def replies (t : Ticket) (answers : List (Ticket × Grant)) : Nat := answers.countP (·.1 = t)

/-- How often a request is made. -/
def askings (t : Ticket) (ds : List Demand) : Nat := ds.countP (·.ticket = t)

theorem replies_append (t : Ticket) (answers answers' : List (Ticket × Grant)) :
    replies t (answers ++ answers') = replies t answers + replies t answers' :=
  List.countP_append

theorem askings_append (t : Ticket) (ds ds' : List Demand) :
    askings t (ds ++ ds') = askings t ds + askings t ds' := List.countP_append

variable {a b : Allocator} {t : Ticket} {x : Effect} {made : List Demand}

theorem isWaiting_iff : a.isWaiting t = true ↔ 0 < a.waits t := by
  rw [waits, Dict.weigh_pos_iff, isWaiting, List.any_eq_true]
  refine exists_congr fun c => and_congr_right fun _ => ?_
  rw [Account.waits, List.countP_pos_iff, List.any_eq_true]

/-- If one account is replaced, nothing else is to be compared. -/
theorem waits_put_le {total : Nat} {p : Peer} {c : Account} {more : List (Ticket × Grant)}
    {r s : Nat} (h : c.waits t + r ≤ (a.account p).waits t + s) :
    (a.put total p c more).waits t + r ≤ a.waits t + s := by
  have hweigh := weigh_put (Account.waits t) a total p c more
  rw [weighAt_eq a p rfl] at hweigh
  unfold waits
  omega

theorem waits_forsake_le (t u : Ticket) (c : Account) : (c.forsake u).waits t ≤ c.waits t := by
  rw [Account.waits, Account.waits, Account.forsake, List.countP_map]
  refine List.countP_mono_left fun w _ hw => ?_
  by_cases hwu : w.ticket = u
  · simp [hwu] at hw
  · simpa [hwu] using hw

/-- A request that nobody wants any more does not wait. -/
theorem waits_abandon_self (a : Allocator) (t : Ticket) : (a.abandon t).waits t = 0 := by
  by_contra hpos
  obtain ⟨v, hv, hweight⟩ := (Dict.weigh_pos_iff _).mp (Nat.pos_of_ne_zero hpos)
  obtain ⟨p, hget⟩ := Dict.mem_values.mp hv
  rw [get?_abandon, Option.map_eq_some_iff] at hget
  obtain ⟨c, -, rfl⟩ := hget
  rw [Account.waits, Account.forsake, List.countP_map, List.countP_pos_iff] at hweight
  obtain ⟨w, -, hwt⟩ := hweight
  by_cases hw : w.ticket = t <;> simp [hw] at hwt

/-- A request that is in no line does not wait. -/
theorem waits_eq_zero (h : ∀ p, ∀ w ∈ (a.account p).line, w.ticket ≠ t) : a.waits t = 0 := by
  by_contra hpos
  obtain ⟨c, hc, hweight⟩ := (Dict.weigh_pos_iff _).mp (Nat.pos_of_ne_zero hpos)
  obtain ⟨p, hget⟩ := Dict.mem_values.mp hc
  obtain ⟨w, hw, hwt⟩ := List.countP_pos_iff.mp hweight
  exact h p w (account_of_get? hget ▸ hw) (of_decide_eq_true hwt).2

/-- A request that is in line and wanted waits. -/
theorem waits_pos {p : Peer} {w : Waiter} (hw : w ∈ (a.account p).line) (hlive : w.live = true) :
    0 < a.waits w.ticket := by
  have hcount : 0 < (a.account p).waits w.ticket :=
    List.countP_pos_iff.mpr ⟨w, hw, by simp [hlive]⟩
  rw [← weighAt_eq a p (w := Account.waits w.ticket) rfl] at hcount
  exact lt_of_lt_of_le hcount (Dict.weighAt_le ..)

/-- Each request that waits is dismissed once. -/
theorem replies_dismissals (t : Ticket) (p : Peer) (c : Account) :
    replies t (dismissals p c.line) = c.waits t := by
  rw [replies, dismissals, List.countP_map, List.countP_filter, Account.waits]
  exact List.countP_congr fun w _ => by simp [and_comm]

end Allocator

/-! ## One answer to each request -/

/-- What is answered or waits after a shift was made by it or waited before. -/
theorem Shift.waits_le {a b : Allocator} {x : Effect} (h : Shift a x b) (t : Ticket) :
    b.waits t + replies t x.answers ≤ a.waits t + askings t x.made := by
  cases h with
  | joined d hjoin =>
    refine waits_put_le ?_
    simp [Account.waits, askings, replies, List.countP_append, List.countP_cons]
  | granted d hline hfits =>
    refine waits_put_le ?_
    simp [Account.waits, askings, replies, Demand.grant, List.countP_cons]
  | @served p held w line hget hlive hfits =>
    refine waits_put_le ?_
    simp [account_of_get? hget, Account.waits, replies, askings, Effect.granting, Demand.grant,
      List.countP_cons, hlive]
  | dropped hget hdead =>
    refine waits_put_le ?_
    simp [account_of_get? hget, Account.waits, replies, hdead]
  | pruned =>
    refine Nat.le_of_eq (Dict.weigh_filter _ fun p c hc => ?_)
    have hline : c.line = [] := by
      by_contra hne
      simp [hne] at hc
    rw [Account.waits, hline, List.countP_nil]
  | returned hget hle =>
    refine waits_put_le ?_
    rw [account_of_get? hget]
    exact le_rfl
  | @cleared p c hget =>
    have herase := Dict.weigh_erase a.accounts p (w := Account.waits t)
    rw [weighAt_eq a p rfl, account_of_get? hget] at herase
    refine Nat.le_of_eq ?_
    rw [replies_dismissals]
    exact herase
  | missed hget => exact le_rfl
  | abandoned u =>
    refine le_trans (Nat.le_of_eq ?_) (Dict.weigh_mono a.accounts (waits_forsake_le t u))
    exact Dict.weigh_mapValues (w := Account.waits t) a.accounts (Account.forsake u)
  | collected u => exact le_rfl

/-- What is answered or waits after shifts was made by them or waited before. -/
theorem Shifts.waits_le {a b : Allocator} {x : Effect} (h : Shifts a x b) (t : Ticket) :
    b.waits t + replies t x.answers ≤ a.waits t + askings t x.made := by
  induction h with
  | refl a => exact le_rfl
  | head hs _ ih =>
    have hshift := hs.waits_le t
    rw [Effect.answers_andThen, Effect.made_andThen, replies_append, askings_append]
    omega

/-- What waits after shifts that make no request waited before. -/
theorem Shifts.waits_le_of_granting {a b : Allocator} {ds : List Demand}
    (h : Shifts a (.granting ds) b) (t : Ticket) : b.waits t ≤ a.waits t :=
  le_trans (Nat.le_add_right ..) (h.waits_le t)

theorem Allocator.waits_grantPeer_le (a : Allocator) (p : Peer) (t : Ticket) :
    (a.grantPeer p).waits t ≤ a.waits t := by
  obtain ⟨ds, hshifts, -⟩ := a.grantPeer_shifts p
  exact hshifts.waits_le_of_granting t

theorem Allocator.waits_grantAlong_le (a : Allocator) (order : List Peer) (t : Ticket) :
    (a.grantAlong order).waits t ≤ a.waits t := by
  obtain ⟨ds, hshifts, -⟩ := a.grantAlong_shifts order
  exact hshifts.waits_le_of_granting t

/-- What is charged was granted. -/
theorem Shifts.grant_mem {a b : Allocator} {x : Effect} (h : Shifts a x b) {d : Demand}
    (hd : .charged d ∈ x.posted) : d.grant ∈ x.answers := by
  induction h with
  | refl a => cases hd
  | head hs _ ih =>
    rcases List.mem_append.mp hd with hd | hd
    · refine List.mem_append_left _ ?_
      cases hs <;> simp_all [Effect.granting, Demand.grant]
    · exact List.mem_append_right _ (ih hd)

/-! ## Charges for what was asked -/

/-- Everyone who waits has asked for what they wait for. -/
def Allocator.Known (made : List Demand) (a : Allocator) : Prop :=
  ∀ p c, a.accounts.get? p = some c → ∀ w ∈ c.line, ⟨w.ticket, p, w.amount⟩ ∈ made

theorem Allocator.Known.put {a : Allocator} {made : List Demand} (h : a.Known made)
    {p : Peer} {c : Account} (hc : ∀ w ∈ c.line, ⟨w.ticket, p, w.amount⟩ ∈ made) (total : Nat)
    (more : List (Ticket × Grant)) : (a.put total p c more).Known made := by
  intro q c' hget w hw
  rw [get?_put] at hget
  by_cases hq : q = p
  · rw [if_pos hq] at hget
    cases hget
    exact hq ▸ hc w hw
  · rw [if_neg hq] at hget
    exact h q c' hget w hw

theorem Allocator.Known.mono {a : Allocator} {made made' : List Demand} (h : a.Known made)
    (hle : made ⊆ made') : a.Known made' :=
  fun p c hget w hw => hle (h p c hget w hw)

theorem Allocator.Known.line {a : Allocator} {made : List Demand} (h : a.Known made) (p : Peer) :
    ∀ w ∈ (a.account p).line, ⟨w.ticket, p, w.amount⟩ ∈ made := by
  intro w hw
  cases hget : a.accounts.get? p with
  | none =>
    rw [account_of_none hget] at hw
    cases hw
  | some c =>
    rw [account_of_get? hget] at hw
    exact h p c hget w hw

/-- A shift puts in line and charges only what was asked for. -/
theorem Shift.known {a b : Allocator} {x : Effect} {made : List Demand} (h : Shift a x b)
    (hk : a.Known made) :
    b.Known (made ++ x.made) ∧ ∀ d, .charged d ∈ x.posted → d ∈ made ++ x.made := by
  have hk' : a.Known (made ++ x.made) := hk.mono (List.subset_append_left ..)
  cases h with
  | joined d hjoin =>
    refine ⟨hk'.put (fun w hw => ?_) _ _, fun _ hd => by cases hd⟩
    rcases List.mem_append.mp hw with hw | hw
    · exact hk'.line d.peer w hw
    · cases List.mem_singleton.mp hw
      exact List.mem_append_right _ (List.mem_singleton_self d)
  | granted d hline hfits =>
    refine ⟨hk'.put (fun w hw => by cases hw) _ _, fun d' hd => ?_⟩
    cases List.mem_singleton.mp hd
    exact List.mem_append_right _ (List.mem_singleton_self d)
  | @served p held w line hget hlive hfits =>
    have hline := hk' p _ hget
    refine ⟨hk'.put (fun v hv => hline v (List.mem_cons_of_mem _ hv)) _ _, fun d hd => ?_⟩
    cases List.mem_singleton.mp hd
    exact hline w (List.mem_cons_self ..)
  | dropped hget hdead =>
    have hline := hk' _ _ hget
    exact ⟨hk'.put (fun v hv => hline v (List.mem_cons_of_mem _ hv)) _ _, fun _ hd => by cases hd⟩
  | pruned =>
    refine ⟨fun p c hget => ?_, fun _ hd => by cases hd⟩
    rw [get?_prune, Option.filter_eq_some_iff] at hget
    exact hk' p c hget.1
  | returned hget hle =>
    have hline := hk' _ _ hget
    refine ⟨hk'.put ?_ _ _, fun _ hd => by cases List.mem_singleton.mp hd⟩
    exact hline
  | @cleared p c hget =>
    refine ⟨fun q c' hget' => ?_, fun _ hd => by cases List.mem_singleton.mp hd⟩
    rw [get?_strike] at hget'
    split at hget'
    · cases hget'
    · exact hk' q c' hget'
  | missed hget => exact ⟨hk', fun _ hd => by cases List.mem_singleton.mp hd⟩
  | abandoned t =>
    refine ⟨fun p c hget w hw => ?_, fun _ hd => by cases hd⟩
    rw [get?_abandon, Option.map_eq_some_iff] at hget
    obtain ⟨c', hget, rfl⟩ := hget
    obtain ⟨v, hv, rfl⟩ := List.mem_map.mp hw
    have hmem := hk' p c' hget v hv
    by_cases hvt : v.ticket = t
    · rwa [if_pos hvt]
    · rwa [if_neg hvt]
  | collected t => exact ⟨hk', fun _ hd => by cases hd⟩

/-- Shifts put in line and charge only what was asked for. -/
theorem Shifts.known {a b : Allocator} {x : Effect} {made : List Demand} (h : Shifts a x b)
    (hk : a.Known made) :
    b.Known (made ++ x.made) ∧ ∀ d, .charged d ∈ x.posted → d ∈ made ++ x.made := by
  induction h generalizing made with
  | refl a =>
    rw [List.append_nil]
    exact ⟨hk, fun _ hd => by cases hd⟩
  | head hs _ ih =>
    obtain ⟨hnext, hcharged⟩ := hs.known hk
    obtain ⟨hlast, hlater⟩ := ih hnext
    rw [Effect.made_andThen, ← List.append_assoc]
    refine ⟨hlast, fun d hd => ?_⟩
    rcases List.mem_append.mp hd with hd | hd
    · exact List.mem_append_left _ (hcharged d hd)
    · exact hlater d hd

/-! ## Runs -/

namespace Allocator

variable {a : Allocator} {all made : List Demand} {moves : List MemoryMove} {t : Ticket}

/-- The requests made in a run. -/
def demands (moves : List MemoryMove) : List Demand := moves.filterMap MemoryMove.demand?

/-- The answers given in a run. -/
def answeredAlong (a : Allocator) (moves : List MemoryMove) : List (Ticket × Grant) :=
  (a.records moves).flatMap MemoryRecord.answered

@[simp] theorem demands_cons (m : MemoryMove) (moves : List MemoryMove) :
    demands (m :: moves) = m.demand?.toList ++ demands moves := by
  unfold demands
  cases hm : m.demand? <;> simp [hm]

@[simp] theorem answeredAlong_cons (a : Allocator) (m : MemoryMove) (moves : List MemoryMove) :
    a.answeredAlong (m :: moves) = a.answered m ++ (a.step m).answeredAlong moves := rfl

theorem answeredAlong_append (a : Allocator) (moves moves' : List MemoryMove) :
    a.answeredAlong (moves ++ moves') =
      a.answeredAlong moves ++ (a.run moves).answeredAlong moves' := by
  induction moves generalizing a with
  | nil => rfl
  | cons m rest ih => rw [List.cons_append, answeredAlong_cons, answeredAlong_cons, ih,
      run_cons, List.append_assoc]

theorem demands_append (moves moves' : List MemoryMove) :
    demands (moves ++ moves') = demands moves ++ demands moves' := List.filterMap_append

/-- Everyone who waits after a run has asked for it. -/
theorem Known.run (h : a.Known made) (moves : List MemoryMove) :
    (a.run moves).Known (made ++ demands moves) := by
  induction moves generalizing a made with
  | nil => exact h.mono (List.subset_append_left ..)
  | cons m rest ih =>
    obtain ⟨ds, hshifts, -⟩ := a.step_moved m
    rw [demands_cons, ← List.append_assoc]
    exact ih (hshifts.known h).1

/-- What is answered or waits after a run was made in it or waited before. -/
theorem waits_run_le (a : Allocator) (moves : List MemoryMove) (t : Ticket) :
    (a.run moves).waits t + replies t (a.answeredAlong moves) ≤
      a.waits t + askings t (demands moves) := by
  induction moves generalizing a with
  | nil => exact le_rfl
  | cons m rest ih =>
    obtain ⟨ds, hshifts, -⟩ := a.step_moved m
    have hmove := hshifts.waits_le t
    have hrest := ih (a.step m)
    rw [run_cons, answeredAlong_cons, demands_cons, replies_append, askings_append]
    simp only at hmove
    omega

/-- What a shift leaves unread was unread before or is an answer that it gives. -/
theorem mem_answers_shifts {b : Allocator} {x : Effect} (h : Shifts a x b) :
    b.answers ⊆ a.answers ++ x.answers := by
  induction h with
  | refl a => exact List.subset_append_left ..
  | @head a b c x y hs _ ih =>
    have hshift : b.answers ⊆ a.answers ++ x.answers := by
      cases hs with
      | abandoned t => exact fun e he => List.mem_append_left _ (List.mem_of_mem_filter he)
      | collected t => exact fun e he => List.mem_append_left _ (List.mem_of_mem_filter he)
      | _ => first | exact List.Subset.refl _ | exact List.subset_append_left ..
    rw [Effect.answers_andThen, ← List.append_assoc]
    exact fun e he => (List.mem_append.mp (ih he)).elim
      (fun he => List.mem_append_left _ (hshift he)) fun he => List.mem_append_right _ he

/-- What is unread after a run was unread before or was answered in it. -/
theorem mem_answers_run (a : Allocator) (moves : List MemoryMove) :
    (a.run moves).answers ⊆ a.answers ++ a.answeredAlong moves := by
  induction moves generalizing a with
  | nil => exact List.subset_append_left ..
  | cons m rest ih =>
    obtain ⟨ds, hshifts, -⟩ := a.step_moved m
    rw [answeredAlong_cons, ← List.append_assoc]
    exact fun e he => (List.mem_append.mp (ih _ he)).elim
      (fun he => List.mem_append_left _ (mem_answers_shifts hshifts he))
      fun he => List.mem_append_right _ he

/-- Each request is made at most once. -/
theorem askings_le_one (hdistinct : (all.map Demand.ticket).Nodup) (t : Ticket) :
    askings t all ≤ 1 := by
  have hcount : askings t all = (all.map Demand.ticket).count t := by
    rw [askings, List.count, List.countP_map]
    exact List.countP_congr fun d _ => by simp
  rw [hcount]
  exact List.nodup_iff_count_le_one.mp hdistinct t

/-- A request with a name of its own is made neither before nor after it is. -/
theorem askings_around {before after : List MemoryMove} {d : Demand}
    (hdistinct : ((demands (before ++ .request d :: after)).map Demand.ticket).Nodup) :
    askings d.ticket (demands before) = 0 ∧ askings d.ticket (demands after) = 0 := by
  have hmade := askings_le_one hdistinct d.ticket
  have hself : askings d.ticket (MemoryMove.request d).demand?.toList = 1 := by
    simp [askings, MemoryMove.demand?]
  rw [demands_append, demands_cons, askings_append, askings_append, hself] at hmade
  omega

/-- An answer that was given counts. -/
theorem replies_pos {answers : List (Ticket × Grant)} {t : Ticket} {g : Grant}
    (h : (t, g) ∈ answers) : 0 < replies t answers :=
  List.countP_pos_iff.mpr ⟨_, h, by simp⟩

end Allocator

end Outbox
