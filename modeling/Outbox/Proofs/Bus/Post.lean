import Outbox.Bus.Basic
import Outbox.Proofs.Dict

/-!
# Letters and registrations

What the operations of post and bus do to one mailbox and to one topic.  A letter that is delivered
is the last unread one of its mailbox, a letter that is read is the first, and a reader that leaves
takes only the letters of its own mailbox along.  The sinks that count for a topic are those whose
readers are there; publishing forgets the others and changes nothing about these.

* `Post.unread_deliver`, `Post.unread_deliverAll`, `Post.unread_take?`, `Post.unread_takeAll`,
  `Post.unread_depart` — the unread letters of a mailbox;
* `Post.isClosed_deliverAll`, `Post.isClosed_depart` — the readers that are gone;
* `Bus.live_subscribe`, `Bus.live_close`, `Bus.live_depart` — the sinks that count for a topic;
* `Bus.publish_of_running`, `Bus.publish_of_not_running` — what publishing does.
-/

namespace Outbox

namespace Post

variable {ε : Type} {p p' : Post ε} {s s' : Sink} {letter : ε}

/-! ## Delivery -/

@[simp] theorem isClosed_deliver (p : Post ε) (s' : Sink) (letter : ε) (s : Sink) :
    (p.deliver s' letter).isClosed s = p.isClosed s := by
  unfold deliver
  split <;> rfl

@[simp] theorem isClosed_deliverAll (p : Post ε) (sinks : List Sink) (letter : ε) (s : Sink) :
    (p.deliverAll sinks letter).isClosed s = p.isClosed s := by
  unfold deliverAll
  induction sinks generalizing p with
  | nil => rfl
  | cons s' rest ih => rw [List.foldl_cons, ih, isClosed_deliver]

/-- A letter comes last in its mailbox. -/
theorem unread_deliver (h : p.isClosed s = false) (s' : Sink) (letter : ε) :
    (p.deliver s' letter).unread s = p.unread s ++ if s' = s then [letter] else [] := by
  unfold deliver
  by_cases hs : s' = s
  · subst hs
    rw [h, if_neg (by simp)]
    simp [unread]
  · rw [if_neg hs, List.append_nil]
    split
    · rfl
    · simp [unread, hs]

/-- A mailbox gets a letter as often as its sink is listed. -/
theorem unread_deliverAll (h : p.isClosed s = false) (sinks : List Sink) (letter : ε) :
    (p.deliverAll sinks letter).unread s =
      p.unread s ++ List.replicate (sinks.count s) letter := by
  unfold deliverAll
  induction sinks generalizing p with
  | nil => simp
  | cons s' rest ih =>
    have hclosed : (p.deliver s' letter).isClosed s = false := (isClosed_deliver ..).trans h
    rw [List.foldl_cons, ih hclosed, unread_deliver h, List.append_assoc, List.count_cons]
    by_cases hs : s' = s
    · simp [hs, List.replicate_succ]
    · simp [hs]

/-! ## Reading -/

theorem filter_takeFirst (s : Sink) (letters : List (Sink × ε)) :
    (takeFirst s letters).filter (fun l => l.1 = s) =
      (letters.filter (fun l => l.1 = s)).tail := by
  induction letters with
  | nil => rfl
  | cons l rest ih =>
    rw [takeFirst]
    by_cases hl : l.1 = s
    · rw [if_pos hl, List.filter_cons_of_pos (by simpa using hl), List.tail_cons]
    · rw [if_neg hl, List.filter_cons_of_neg (by simpa using hl),
        List.filter_cons_of_neg (by simpa using hl), ih]

theorem filter_takeFirst_of_ne (hs : s' ≠ s) (letters : List (Sink × ε)) :
    (takeFirst s letters).filter (fun l => l.1 = s') = letters.filter (fun l => l.1 = s') := by
  induction letters with
  | nil => rfl
  | cons l rest ih =>
    rw [takeFirst]
    by_cases hl : l.1 = s
    · have hne : l.1 ≠ s' := fun heq => hs (heq.symm.trans hl)
      rw [if_pos hl, List.filter_cons_of_neg (by simpa using hne)]
    · rw [if_neg hl, List.filter_cons, List.filter_cons, ih]

/-- The first unread letter is read. -/
theorem unread_take? (h : p.take? s = some (letter, p')) :
    p.unread s = letter :: p'.unread s ∧ (∀ s' ≠ s, p'.unread s' = p.unread s') ∧
      ∀ s', p'.isClosed s' = p.isClosed s' := by
  obtain ⟨first, hfirst, hpost⟩ := Option.map_eq_some_iff.mp h
  obtain ⟨rfl, rfl⟩ := Prod.mk.inj hpost
  refine ⟨?_, fun s' hs => ?_, fun s' => rfl⟩
  · obtain ⟨rest, hrest⟩ := List.head?_eq_some_iff.mp hfirst
    simp only [unread, filter_takeFirst, List.map_tail] at hrest ⊢
    rw [hrest, List.tail_cons]
  · simp only [unread, filter_takeFirst_of_ne hs]

theorem take?_eq_none_iff : p.take? s = none ↔ p.unread s = [] := by
  rw [take?, Option.map_eq_none_iff, List.head?_eq_none_iff]

/-- All unread letters are read, and those of other mailboxes stay. -/
theorem unread_takeAll (p : Post ε) (s s' : Sink) :
    (p.takeAll s).2.unread s' = if s' = s then [] else p.unread s' := by
  simp only [unread, takeAll, List.filter_filter]
  by_cases hs : s' = s
  · subst hs
    simp
  · rw [if_neg hs]
    refine congrArg _ (List.filter_congr fun l _ => ?_)
    by_cases hl : l.1 = s'
    · simp [hl, hs]
    · simp [hl]

/-! ## Leaving -/

/-- A reader that has read all letters leaves as one that has not. -/
theorem depart_takeAll (p : Post ε) (s : Sink) : (p.takeAll s).2.depart s = p.depart s := by
  simp [depart, takeAll]

theorem unread_depart (hs : s' ≠ s) : (p.depart s').unread s = p.unread s := by
  simp only [unread, depart, List.filter_filter]
  refine congrArg _ (List.filter_congr fun l _ => ?_)
  by_cases hl : l.1 = s
  · simp [hl, Ne.symm hs]
  · simp [hl]

@[simp] theorem isClosed_depart (p : Post ε) (s' s : Sink) :
    (p.depart s').isClosed s = (decide (s = s') || p.isClosed s) := by
  simp [isClosed, depart]

end Post

namespace Bus

variable {ε : Type} {b : Bus} {p p' : Post ε} {s : Sink} {t t' : Topic}

/-! ## The sinks that count for a topic -/

theorem live_congr (h : ∀ s, p'.isClosed s = p.isClosed s) (b : Bus) (t : Topic) :
    b.live p' t = b.live p t := by
  simp only [live, h]

theorem live_subscribe (h : b.phase ≠ .stopped) (t : Topic) (s : Sink) (p : Post ε) (t' : Topic) :
    (b.subscribe t s).live p t' =
      b.live p t' ++ if t = t' ∧ p.isClosed s = false then [s] else [] := by
  unfold subscribe live
  rw [if_neg h, Dict.get?_update]
  by_cases ht : t = t'
  · subst ht
    rw [if_pos rfl, Option.getD_some, List.filter_append]
    cases hs : p.isClosed s <;> simp [hs]
  · simp [ht, Ne.symm ht]

theorem live_close (b : Bus) (t : Topic) (p : Post ε) (t' : Topic) :
    (b.close t).live p t' = if t' = t then [] else b.live p t' := by
  unfold close live
  rw [Dict.get?_erase]
  split <;> rfl

theorem live_depart (b : Bus) (p : Post ε) (s : Sink) (t : Topic) :
    b.live (p.depart s) t = (b.live p t).filter (fun s' => s' ≠ s) := by
  unfold live
  rw [List.filter_filter]
  refine List.filter_congr fun s' _ => ?_
  rw [Post.isClosed_depart, Bool.not_or, ← decide_not]

/-- A sink whose reader is there is held by the bus if it counts for some topic. -/
theorem holds_iff (h : p.isClosed s = false) : b.holds s = true ↔ ∃ t, s ∈ b.live p t := by
  simp only [holds, List.any_eq_true, List.contains_iff_mem, Dict.mem_values, live,
    List.mem_filter, h, Bool.not_false, and_true]
  constructor
  · rintro ⟨sinks, ⟨t, ht⟩, hs⟩
    exact ⟨t, by rwa [ht]⟩
  · rintro ⟨t, hs⟩
    cases ht : b.topics.get? t with
    | none => rw [ht] at hs; cases hs
    | some sinks => exact ⟨sinks, ⟨t, ht⟩, by rwa [ht] at hs⟩

/-! ## Publishing -/

theorem publish_of_not_running (h : b.phase ≠ .running) (p : Post ε) (t : Topic) (event : ε) :
    b.publish p t event = (b, p, 0) := if_pos h

/-- A running bus delivers to the sinks that count, and they stay the ones that count. -/
theorem publish_of_running {event : ε} {b' : Bus} {n : Nat} (h : b.phase = .running)
    (hpublish : b.publish p t event = (b', p', n)) :
    p' = p.deliverAll (b.live p t) event ∧ n = (b.live p t).length ∧ b'.phase = .running ∧
      ∀ t', b'.live p t' = b.live p t' := by
  unfold publish at hpublish
  rw [if_neg (by simp [h])] at hpublish
  simp only at hpublish
  split at hpublish
  · cases hpublish
    refine ⟨rfl, rfl, h, fun t' => ?_⟩
    unfold live
    rw [Dict.get?_insert]
    by_cases ht : t' = t
    · subst ht
      simp
    · rw [if_neg ht]
  · rename_i hnone
    cases hpublish
    have hget : b.topics.get? t = none := by simpa [Dict.contains] using hnone
    have hlive : b.live p t = [] := by
      rw [live, hget]
      rfl
    rw [hlive]
    exact ⟨rfl, rfl, h, fun t' => rfl⟩

end Bus

end Outbox
