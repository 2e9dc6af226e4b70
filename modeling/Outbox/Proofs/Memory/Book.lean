import Mathlib
import Outbox.Memory.Run

/-!
# The account book of an allocator

Everything that is charged to a peer or given back by it is an entry of a book, the latest entry
last.  What a peer holds can be told from the book alone; since a limit is exceeded only by a
request that was granted while nothing was held, so can the reason why it is exceeded.

* `Posting` — an entry;
* `Posting.chargedTo`, `Posting.returnedBy`, `Posting.since` — the amounts, since a peer last gave
  all of its memory back;
* `Posting.balance`, `Posting.balances` — what one peer and all peers hold according to the book;
* `Posting.Booked` — the book says what every peer holds;
* `Posting.OnceSinceZero` — one entry of a kind was made since nothing was held;
* `Posting.Justified` — a quantity keeps to a limit or has exceeded it by one entry.
-/

namespace Outbox

/-- An entry of the book. -/
inductive Posting where
  /-- A request was granted. -/
  | charged (demand : Demand)
  /-- A peer gave some memory back. -/
  | returned (peer : Peer) (amount : Nat)
  /-- A peer gave all of its memory back. -/
  | cleared (peer : Peer)
deriving DecidableEq

namespace Posting

variable {p : Peer} {l : List Posting} {e : Posting}

/-- The peer concerned. -/
def peer : Posting → Peer
  | charged d => d.peer
  | returned p _ => p
  | cleared p => p

/-- Some bytes were granted. -/
def isCharge : Posting → Bool
  | charged d => d.amount ≠ 0
  | _ => false

/-- Some bytes were granted to a peer. -/
def isChargeTo (p : Peer) (e : Posting) : Bool := e.peer = p ∧ e.isCharge

/-! ## Amounts -/

/-- The bytes that an entry charges to a peer. -/
def chargeTo (p : Peer) : Posting → Nat
  | charged d => if d.peer = p then d.amount else 0
  | _ => 0

/-- The bytes that a peer gives back bit by bit in an entry. -/
def returnBy (p : Peer) : Posting → Nat
  | returned q n => if q = p then n else 0
  | _ => 0

/-- The bytes charged to a peer. -/
def chargedTo (p : Peer) (l : List Posting) : Nat := (l.map (chargeTo p)).sum

/-- The bytes that a peer gave back bit by bit. -/
def returnedBy (p : Peer) (l : List Posting) : Nat := (l.map (returnBy p)).sum

/-- The entries since a peer last gave all of its memory back. -/
def since (p : Peer) (l : List Posting) : List Posting := l.rtakeWhile (· ≠ cleared p)

/-- What a peer holds according to the book. -/
def balance (p : Peer) (l : List Posting) : Nat :=
  chargedTo p (since p l) - returnedBy p (since p l)

/-- What all peers hold according to the book. -/
def balances (l : List Posting) : Nat := ∑ p ∈ (l.map peer).toFinset, balance p l

@[simp] theorem chargedTo_concat (p : Peer) (l : List Posting) (e : Posting) :
    chargedTo p (l ++ [e]) = chargedTo p l + chargeTo p e := by
  simp [chargedTo]

@[simp] theorem returnedBy_concat (p : Peer) (l : List Posting) (e : Posting) :
    returnedBy p (l ++ [e]) = returnedBy p l + returnBy p e := by
  simp [returnedBy]

theorem since_concat_cleared (p : Peer) (l : List Posting) : since p (l ++ [cleared p]) = [] := by
  rw [since, List.rtakeWhile_concat, if_neg (by simp)]

theorem since_concat_of_ne (h : e ≠ cleared p) : since p (l ++ [e]) = since p l ++ [e] := by
  rw [since, List.rtakeWhile_concat, if_pos (by simpa using h), since]

/-- A peer that is not in the book holds nothing. -/
theorem balance_eq_zero (h : p ∉ l.map peer) : balance p l = 0 := by
  have hzero : chargedTo p (since p l) = 0 := by
    refine List.sum_eq_zero fun n hn => ?_
    obtain ⟨e, he, rfl⟩ := List.mem_map.mp hn
    have hmem : e ∈ l := (List.rtakeWhile_suffix _ l).subset he
    cases e with
    | charged d =>
      refine if_neg fun hp => h ?_
      exact hp ▸ List.mem_map_of_mem (f := peer) hmem
    | returned q n => rfl
    | cleared q => rfl
  rw [balance, hzero, Nat.zero_sub]

/-! ## What is held -/

/-- What every peer holds is what was charged to it and not given back, since it last gave all of
its memory back. -/
def Booked (held : Peer → Nat) (l : List Posting) : Prop :=
  ∀ p, held p + returnedBy p (since p l) = chargedTo p (since p l)

namespace Booked

variable {held : Peer → Nat}

theorem balance_eq (h : Booked held l) (p : Peer) : balance p l = held p := by
  have := h p
  rw [balance]
  omega

/-- What the book says of all peers is the sum of what is held by those who may hold something. -/
theorem balances_eq (h : Booked held l) {s : Finset Peer} (hs : ∀ p, p ∉ s → held p = 0) :
    balances l = ∑ p ∈ s, held p := by
  have hbalance : ∀ p, balance p l = held p := h.balance_eq
  unfold balances
  simp only [hbalance]
  have hleft : (l.map peer).toFinset ⊆ s ∪ (l.map peer).toFinset := Finset.subset_union_right
  have hright : s ⊆ s ∪ (l.map peer).toFinset := Finset.subset_union_left
  rw [Finset.sum_subset hleft fun p _ hp => ?_, Finset.sum_subset hright fun p _ hp => hs p hp]
  rw [← hbalance]
  exact balance_eq_zero fun hmem => hp (List.mem_toFinset.mpr hmem)

theorem charge (h : Booked held l) (d : Demand) :
    Booked (Function.update held d.peer (held d.peer + d.amount)) (l ++ [charged d]) := by
  intro p
  have hp := h p
  rw [since_concat_of_ne (by simp), returnedBy_concat, chargedTo_concat]
  by_cases hdp : d.peer = p
  · subst hdp
    simp only [Function.update_self, chargeTo, returnBy, if_true]
    omega
  · rw [Function.update_of_ne (Ne.symm hdp)]
    simp only [chargeTo, returnBy, if_neg hdp]
    omega

theorem giveBack (h : Booked held l) {q : Peer} {n : Nat} (hle : n ≤ held q) :
    Booked (Function.update held q (held q - n)) (l ++ [returned q n]) := by
  intro p
  have hp := h p
  rw [since_concat_of_ne (by simp), returnedBy_concat, chargedTo_concat]
  by_cases hqp : q = p
  · subst hqp
    simp only [Function.update_self, chargeTo, returnBy, if_true]
    omega
  · rw [Function.update_of_ne (Ne.symm hqp)]
    simp only [chargeTo, returnBy, if_neg hqp]
    omega

theorem clear (h : Booked held l) (q : Peer) :
    Booked (Function.update held q 0) (l ++ [cleared q]) := by
  intro p
  by_cases hqp : q = p
  · subst hqp
    rw [since_concat_cleared, Function.update_self]
    rfl
  · have hne : cleared q ≠ cleared p := fun he => hqp (by injection he)
    rw [since_concat_of_ne hne, Function.update_of_ne (Ne.symm hqp), returnedBy_concat,
      chargedTo_concat]
    exact h p

end Booked

/-! ## Limits -/

/-- Exactly one entry of a kind was made since a quantity was last zero. -/
def OnceSinceZero (f : List Posting → Nat) (kind : Posting → Bool) (l : List Posting) : Prop :=
  ∃ before after, l = before ++ after ∧ f before = 0 ∧
    (∀ part, part <+: after → part ≠ [] → f (before ++ part) ≠ 0) ∧ after.countP kind = 1

variable {f : List Posting → Nat} {kind : Posting → Bool} {limit : Nat}

/-- An entry of the kind, made while the quantity is zero, is the only one. -/
theorem OnceSinceZero.first (hzero : f l = 0) (hne : f (l ++ [e]) ≠ 0) (hkind : kind e = true) :
    OnceSinceZero f kind (l ++ [e]) := by
  refine ⟨l, [e], rfl, hzero, fun part hpart hnil => ?_, ?_⟩
  · obtain rfl : part = [e] := (List.prefix_concat_iff.mp hpart).resolve_right fun h =>
      hnil (List.prefix_nil.mp h)
    exact hne
  · simp [hkind]

/-- Entries of other kinds leave it the only one. -/
theorem OnceSinceZero.concat (h : OnceSinceZero f kind l) (hne : f (l ++ [e]) ≠ 0)
    (hkind : kind e = false) : OnceSinceZero f kind (l ++ [e]) := by
  obtain ⟨before, after, rfl, hzero, hpos, hcount⟩ := h
  refine ⟨before, after ++ [e], List.append_assoc .., hzero, fun part hpart hnil => ?_, ?_⟩
  · rcases List.prefix_concat_iff.mp hpart with rfl | hpart
    · rwa [← List.append_assoc]
    · exact hpos part hpart hnil
  · simp [hcount, hkind]

/-- A quantity keeps to a limit, or one entry of a kind was made since it was last zero. -/
def Justified (f : List Posting → Nat) (kind : Posting → Bool) (limit : Nat) (l : List Posting) :
    Prop :=
  limit < f l → OnceSinceZero f kind l

/-- An entry that is made while the quantity is zero, or keeps it to the limit, justifies what
there is then. -/
theorem Justified.fits (hkind : kind e = true) (hfits : f (l ++ [e]) ≤ limit ∨ f l = 0) :
    Justified f kind limit (l ++ [e]) := by
  intro hlimit
  rcases hfits with hfits | hzero
  · omega
  · exact .first hzero (by omega) hkind

/-- An entry that adds nothing to the quantity leaves it justified. -/
theorem Justified.concat (h : Justified f kind limit l) (hkind : kind e = false)
    (hle : f (l ++ [e]) ≤ f l) : Justified f kind limit (l ++ [e]) := by
  intro hlimit
  exact (h (by omega)).concat (by omega) hkind

end Posting

end Outbox
