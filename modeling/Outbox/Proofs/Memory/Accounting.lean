import Mathlib
import Outbox.Proofs.Memory.Shift

/-!
# What an allocator charges

The bytes held in total are those held by all peers, and what a peer holds is what its account
book says.  Whoever exceeds a limit does so by one request, granted while nothing was held.

* `Allocator.Balanced` — the bytes held in total are those held by all peers;
* `Allocator.Sound` — what all states have in common;
* `Shift.balanced`, `Shift.booked`, `Shift.sound` — each shift keeps it.
-/

namespace Outbox

open Posting

namespace Allocator

variable {a b : Allocator} {p : Peer} {c : Account}

/-! ## What is held -/

/-- A peer without an account counts like one with an empty account. -/
theorem weighAt_eq (a : Allocator) (p : Peer) {w : Account → Nat} (hw : w {} = 0) :
    a.accounts.weighAt w p = w (a.account p) := by
  unfold Dict.weighAt
  cases hp : a.accounts.get? p with
  | none => rw [account_of_none hp, hw, Option.elim_none]
  | some c => rw [account_of_get? hp, Option.elim_some]

theorem weighAt_held (a : Allocator) (p : Peer) :
    a.accounts.weighAt Account.held p = a.held p := a.weighAt_eq p rfl

theorem held_eq_zero (h : p ∉ a.accounts.keys) : a.held p = 0 := by
  refine held_of_none ?_
  rw [Dict.mem_keys, Dict.contains, Bool.not_eq_true, Option.isSome_eq_false_iff] at h
  exact Option.isNone_iff_eq_none.mp h

theorem weigh_put (w : Account → Nat) (a : Allocator) (total : Nat) (p : Peer) (c : Account)
    (more : List (Ticket × Grant)) :
    (a.put total p c more).accounts.weigh w + a.accounts.weighAt w p =
      a.accounts.weigh w + w c :=
  a.accounts.weigh_update p fun _ => c

/-! ## The balance -/

/-- The bytes held in total are those held by all peers. -/
def Balanced (a : Allocator) : Prop := a.total = a.accounts.weigh Account.held

theorem Balanced.total_eq (h : a.Balanced) :
    a.total = ∑ p ∈ a.accounts.keys.toFinset, a.held p := by
  rw [h, Dict.weigh_eq_sum]
  exact Finset.sum_congr rfl fun p _ => a.weighAt_held p

theorem Balanced.held_le (h : a.Balanced) (p : Peer) : a.held p ≤ a.total := by
  rw [h, ← weighAt_held]
  exact Dict.weighAt_le ..

theorem Balanced.put (h : a.Balanced) {total : Nat} {more : List (Ticket × Grant)}
    (htotal : total + a.held p = a.total + c.held) : (a.put total p c more).Balanced := by
  have hweigh := weigh_put Account.held a total p c more
  rw [weighAt_held, ← h] at hweigh
  rw [Balanced, put_total]
  omega

end Allocator

open Allocator

namespace Shift

variable {a b : Allocator} {x : Effect} {l : List Posting}

/-! ## Every shift -/

theorem limits_eq (h : Shift a x b) : b.limits = a.limits := by
  cases h <;> rfl

theorem balanced (h : Shift a x b) (ha : a.Balanced) : b.Balanced := by
  cases h with
  | joined d hjoin => exact ha.put rfl
  | granted d hline hfits => exact ha.put (by simp only; omega)
  | served hget hlive hfits =>
    refine ha.put ?_
    rw [held_of_get? hget]
    simp only
    omega
  | dropped hget hdead =>
    refine ha.put ?_
    rw [held_of_get? hget]
  | pruned =>
    refine Eq.trans ha (Dict.weigh_filter _ fun p c hc => ?_).symm
    simp only [decide_eq_false_iff_not] at hc
    omega
  | @returned p n c hget hle =>
    have := ha.held_le p
    refine ha.put ?_
    rw [held_of_get? hget] at this ⊢
    simp only
    omega
  | @cleared p c hget =>
    have herase := Dict.weigh_erase a.accounts p (w := Account.held)
    rw [weighAt_held, held_of_get? hget, ← ha] at herase
    show a.total - c.held = (a.accounts.erase p).weigh Account.held
    omega
  | missed hget => exact ha
  | abandoned t =>
    have hsame := Dict.weigh_mapValues (w := Account.held) a.accounts (Account.forsake t)
    exact ha.trans hsame.symm
  | collected t => exact ha

theorem booked (h : Shift a x b) (ha : Booked a.held l) : Booked b.held (l ++ x.posted) := by
  cases h with
  | joined d hjoin =>
    rw [held_put, Function.update_eq_self, List.append_nil]
    exact ha
  | granted d hline hfits =>
    rw [held_put]
    exact ha.charge d
  | @served p held w line hget hlive hfits =>
    obtain rfl : a.held p = held := held_of_get? hget
    rw [held_put]
    exact ha.charge ⟨w.ticket, p, w.amount⟩
  | @dropped p held w line hget hdead =>
    obtain rfl : a.held p = held := held_of_get? hget
    rw [held_put, Function.update_eq_self, List.append_nil]
    exact ha
  | pruned =>
    rw [held_prune, List.append_nil]
    exact ha
  | returned hget hle =>
    rw [held_put, ← held_of_get? hget]
    exact ha.giveBack (held_of_get? hget ▸ hle)
  | @cleared p c hget =>
    rw [held_strike]
    exact ha.clear p
  | @missed p hget =>
    have hclear := ha.clear p
    rwa [← held_of_none hget, Function.update_eq_self] at hclear
  | abandoned t =>
    rw [held_abandon, List.append_nil]
    exact ha
  | collected t =>
    rw [List.append_nil]
    exact ha

end Shift

/-! ## Limits -/

namespace Allocator

/-- What all states have in common: the book says what is held, and what exceeds a limit was
granted while nothing was held. -/
structure Sound (limits : MemoryLimits) (x : Effect) (a : Allocator) : Prop where
  limits_eq : a.limits = limits
  balanced : a.Balanced
  booked : Booked a.held x.posted
  perPeer : ∀ p, Justified (balance p) (isChargeTo p) limits.perPeer x.posted
  overall : Justified balances isCharge limits.total x.posted

variable {limits : MemoryLimits} {x y : Effect} {a b : Allocator}

theorem balances_eq_total (hbooked : Booked a.held x.posted) (hbalanced : a.Balanced) :
    balances x.posted = a.total := by
  rw [hbalanced.total_eq, hbooked.balances_eq fun p hp => ?_]
  exact held_eq_zero fun hmem => hp (List.mem_toFinset.mpr hmem)

/-- Nothing has been charged by an allocator that nobody has used. -/
theorem sound_start (limits : MemoryLimits) : Sound limits {} { limits } where
  limits_eq := rfl
  balanced := rfl
  booked := fun _ => rfl
  perPeer := fun _ h => absurd h (Nat.not_lt_zero _)
  overall := fun h => absurd h (Nat.not_lt_zero _)

/-- A request that fits keeps to the limits, or is granted while nothing is held. -/
theorem Sound.charge (h : Sound limits x a) {d : Demand}
    (hfits : fits a.limits a.total (a.held d.peer) d.amount = true)
    (hposted : y.posted = x.posted ++ [.charged d]) (hlimits : b.limits = limits)
    (hbalanced : b.Balanced) (hbooked : Booked b.held y.posted)
    (htotal : b.total = a.total + d.amount)
    (hheld : b.held = Function.update a.held d.peer (a.held d.peer + d.amount)) :
    Sound limits y b := by
  have hbalances := balances_eq_total hbooked hbalanced
  have hbalance := hbooked.balance_eq
  rw [hposted] at hbalances hbalance
  rw [h.limits_eq] at hfits
  simp only [fits, Bool.decide_and, Bool.decide_or, Bool.and_eq_true, Bool.or_eq_true,
    decide_eq_true_eq] at hfits
  refine ⟨hlimits, hbalanced, hbooked, fun p => ?_, ?_⟩
  · rw [hposted]
    by_cases hkind : isChargeTo p (.charged d) = true
    · obtain rfl : d.peer = p := (of_decide_eq_true hkind).1
      refine .fits hkind ?_
      rw [hbalance, hheld, Function.update_self, h.booked.balance_eq]
      exact hfits.2
    · refine (h.perPeer p).concat (by simpa using hkind) ?_
      rw [hbalance, hheld, h.booked.balance_eq]
      by_cases hp : p = d.peer
      · have hzero : d.amount = 0 := by
          by_contra hne
          exact hkind (by simp [isChargeTo, peer, isCharge, hp, hne])
        rw [hp, Function.update_self, hzero, Nat.add_zero]
      · rw [Function.update_of_ne hp]
  · rw [hposted]
    by_cases hkind : isCharge (.charged d) = true
    · refine .fits hkind ?_
      rw [hbalances, htotal, balances_eq_total h.booked h.balanced]
      exact hfits.1
    · refine h.overall.concat (by simpa using hkind) ?_
      rw [hbalances, htotal, balances_eq_total h.booked h.balanced]
      have hzero : d.amount = 0 := by simpa [isCharge] using hkind
      omega

/-- What is given back makes nothing exceed a limit. -/
theorem Sound.relieve (h : Sound limits x a) {e : Posting} (hkind : e.isCharge = false)
    (hposted : y.posted = x.posted ++ [e]) (hlimits : b.limits = limits)
    (hbalanced : b.Balanced) (hbooked : Booked b.held y.posted)
    (htotal : b.total ≤ a.total) (hheld : ∀ p, b.held p ≤ a.held p) : Sound limits y b := by
  have hbalances := balances_eq_total hbooked hbalanced
  have hbalance := hbooked.balance_eq
  rw [hposted] at hbalances hbalance
  refine ⟨hlimits, hbalanced, hbooked, fun p => ?_, ?_⟩
  · rw [hposted]
    refine (h.perPeer p).concat ?_ ?_
    · simp [isChargeTo, hkind]
    · rw [hbalance, h.booked.balance_eq]
      exact hheld p
  · rw [hposted]
    refine h.overall.concat hkind ?_
    rw [hbalances, balances_eq_total h.booked h.balanced]
    exact htotal

/-- What leaves the book as it is leaves it sound. -/
theorem Sound.keep (h : Sound limits x a) (hposted : y.posted = x.posted)
    (hlimits : b.limits = limits) (hbalanced : b.Balanced) (hbooked : Booked b.held y.posted) :
    Sound limits y b :=
  ⟨hlimits, hbalanced, hbooked, hposted ▸ h.perPeer, hposted ▸ h.overall⟩

end Allocator

/-- Every shift keeps an allocator sound. -/
theorem Shift.sound {limits : MemoryLimits} {x y : Effect} {a b : Allocator} (hs : Shift a y b)
    (h : Sound limits x a) : Sound limits (x.andThen y) b := by
  have hlimits : b.limits = limits := hs.limits_eq.trans h.limits_eq
  have hbalanced := hs.balanced h.balanced
  have hbooked : Booked b.held (x.andThen y).posted := hs.booked h.booked
  cases hs with
  | granted d hline hfits =>
    refine h.charge hfits rfl hlimits hbalanced hbooked rfl ?_
    rw [held_put]
  | @served p held w line hget hlive hfits =>
    obtain rfl : a.held p = held := held_of_get? hget
    refine h.charge (d := ⟨w.ticket, p, w.amount⟩) hfits rfl hlimits hbalanced hbooked rfl ?_
    rw [held_put]
  | @returned p n c hget hle =>
    refine h.relieve rfl rfl hlimits hbalanced hbooked (Nat.sub_le ..) fun q => ?_
    rw [held_put, ← held_of_get? hget]
    by_cases hq : q = p
    · rw [hq, Function.update_self, held_of_get? hget]
      exact Nat.sub_le ..
    · rw [Function.update_of_ne hq]
  | @cleared p c hget =>
    refine h.relieve rfl rfl hlimits hbalanced hbooked (Nat.sub_le ..) fun q => ?_
    rw [held_strike]
    by_cases hq : q = p
    · rw [hq, Function.update_self]
      exact Nat.zero_le _
    · rw [Function.update_of_ne hq]
  | missed hget => exact h.relieve rfl rfl hlimits hbalanced hbooked le_rfl fun _ => le_rfl
  | _ => exact h.keep (List.append_nil _) hlimits hbalanced hbooked

end Outbox
