import Mathlib
import Outbox.Proofs.Memory.Moves
import Outbox.Proofs.Message.Run
import Outbox.Proofs.Queue.Groups

/-!
# Running out of topics

Topics are numbers of a machine word.  They are handed out one after the other, never a second
time, and there is a last one.  When it is gone, edits that would need a new builder are refused
before anything is done, and what was reserved for them goes back; edits that may join the last
builder are carried out as ever.

* `Topic.last`, `Topic.next?_eq_none_iff` — the last topic;
* `Backlog.Asks` — the batching rule asks for a new builder, with `Backlog.mutate_eq_error_iff`,
  `Backlog.mutate_of_joins` and `Backlog.mutate_of_asks` for what becomes of edits;
* `Backlog.issued`, `Backlog.handedOut_issued` — the topics that a run hands out;
* `Queue.Refunded`, `Queue.mutate_refunded` — edits that are refused leave a queue as it was, but
  for what goes back to its pool;
* `Backlog.TopicsNeverRepeat`, `Backlog.topics_never_repeat` — every run keeps to it.
-/

namespace Outbox

/-! ## The last topic -/

/-- The last topic there is. -/
def Topic.last : Topic := ⟨18446744073709551615⟩

/-- Only the last topic has none after it. -/
theorem Topic.next?_eq_none_iff {t : Topic} : t.next? = none ↔ t = Topic.last := by
  have hlt := t.number.toNat_lt
  have hlast : Topic.last.number.toNat = 18446744073709551615 := rfl
  unfold Topic.next?
  rw [Topic.ext_iff, ← UInt64.toNat_inj, hlast]
  simp only [UInt64.size]
  split <;> simp <;> omega

namespace Topic.HandedOut

/-- Nothing is handed out after the last topic. -/
theorem eq_none {next after : Option Topic} {ts : List Topic} (h : HandedOut next ts after)
    (hlast : Topic.last ∈ ts) : after = none := by
  induction ts generalizing next with
  | nil => cases hlast
  | cons t rest ih =>
    obtain ⟨rfl, hrest⟩ := h
    rcases List.mem_cons.mp hlast with rfl | hlast
    · rw [Topic.next?_eq_none_iff.mpr rfl] at hrest
      cases rest with
      | nil => exact hrest
      | cons t' rest => cases hrest.1
    · exact ih hrest hlast

end Topic.HandedOut

namespace Backlog

variable {q : Backlog} {size : Nat} {edits : List Edit}

/-! ## The batching rule -/

/-- A new builder is asked for: there is none, or the bytes reserved would push the last one over
the limit. -/
def Asks (q : Backlog) (size : Nat) : Prop :=
  ∀ b ∈ q.builders.getLast?, 0 < size ∧ maxBlockSize < b.size + size

theorem joined?_eq_none_iff : q.joined? size = none ↔ q.Asks size := by
  rw [joined?, Option.filter_eq_none_iff]
  refine forall₂_congr fun b hb => ?_
  simp [overflows]

theorem beginsNew_iff : q.beginsNew size = true ↔ q.Asks size := by
  rw [beginsNew, Option.isNone_iff_eq_none, joined?_eq_none_iff]

/-- Edits are refused if a new builder is asked for and no topic is left, and only then. -/
theorem mutate_eq_error_iff {e : QueueError} : q.mutate size edits = .error e ↔
    e = .topicsExhausted ∧ q.Asks size ∧ q.nextTopic = none := by
  constructor
  · intro h
    have hm := q.mutate_mutation size edits
    rw [h] at hm
    cases hm with
    | exhausted hnew ht => exact ⟨rfl, beginsNew_iff.mp hnew, ht⟩
  · rintro ⟨rfl, hasks, ht⟩
    rw [mutate, joined?_eq_none_iff.mpr hasks, ht]

/-- Edits that may join the last builder do. -/
theorem mutate_of_joins {b : Builder} (hb : q.builders.getLast? = some b) (h : ¬ q.Asks size) :
    q.mutate size edits = .ok (report b edits,
      { q with builders := q.builders.dropLast ++ [b.applyAll edits] }) := by
  cases hj : q.joined? size with
  | none => exact absurd (joined?_eq_none_iff.mp hj) h
  | some b' =>
    have hsame : b' = b := by
      have hlast := (Option.filter_eq_some_iff.mp hj).1
      rw [hb] at hlast
      exact (Option.some.inj hlast).symm
    rw [mutate, hj, hsame]

/-- Edits for which a new builder is asked get one as long as a topic is left. -/
theorem mutate_of_asks {t : Topic} (ht : q.nextTopic = some t) (h : q.Asks size) :
    q.mutate size edits = .ok (report { topic := t } edits,
      { q with
        builders := q.builders ++ [({ topic := t } : Builder).applyAll edits]
        nextTopic := t.next? }) := by
  rw [mutate, joined?_eq_none_iff.mpr h, ht]

/-! ## The topics handed out -/

/-- The topics that a move hands out: they are in line after it and were not before. -/
def opened (q : Backlog) (m : BacklogMove) : List Topic := (q.step m).topics.filter (· ∉ q.topics)

/-- The topics handed out in a run, one after the other. -/
def issued (q : Backlog) : List BacklogMove → List Topic
  | [] => []
  | m :: rest => q.opened m ++ (q.step m).issued rest

/-- A move hands out the next topic or none. -/
theorem opened_cases (h : q.ComesAfter []) (m : BacklogMove) :
    (q.opened m = [] ∧ (q.step m).nextTopic = q.nextTopic) ∨
      ∃ t, q.opened m = [t] ∧ q.nextTopic = some t ∧ (q.step m).nextTopic = t.next? := by
  rcases q.follows_step m with ⟨hsub, hnext⟩ | ⟨t, ht, htopics, hnext⟩
  · refine .inl ⟨List.filter_eq_nil_iff.mpr fun t ht => ?_, hnext⟩
    simpa using hsub.subset ht
  · refine .inr ⟨t, ?_, ht, hnext⟩
    have hfresh : t ∉ q.topics := fun hmem => (h.next t ht t hmem).ne rfl
    rw [opened, htopics, List.filter_append, List.filter_cons_of_pos (by simpa using hfresh),
      List.filter_eq_nil_iff.mpr fun s hs => by simpa using hs]
    rfl

/-- The topics handed out in a run are consecutive. -/
theorem handedOut_issued (h : q.ComesAfter []) (moves : List BacklogMove) :
    Topic.HandedOut q.nextTopic (q.issued moves) (q.run moves).nextTopic := by
  induction moves generalizing q with
  | nil => rfl
  | cons m rest ih =>
    have hrest := ih (h.follows (q.follows_step m))
    rcases opened_cases h m with ⟨hnone, hnext⟩ | ⟨t, hone, ht, hnext⟩
    · rw [issued, hnone, List.nil_append, ← hnext]
      exact hrest
    · rw [issued, hone, ht]
      rw [hnext] at hrest
      exact ⟨rfl, hrest⟩

/-- They come after those of the builders that were in line, whatever became of these. -/
theorem increasing_issued (h : q.ComesAfter []) (moves : List BacklogMove) :
    (q.topics ++ q.issued moves).Pairwise Topic.Before := by
  obtain ⟨hincreasing, hfirst⟩ := (handedOut_issued h moves).increasing
  refine List.pairwise_append.mpr ⟨h.increasing, hincreasing, fun s hs t ht => ?_⟩
  cases hn : q.nextTopic with
  | none =>
    have hout := handedOut_issued h moves
    rw [hn] at hout
    cases hi : q.issued moves with
    | nil =>
      rw [hi] at ht
      cases ht
    | cons t' rest =>
      rw [hi] at hout
      cases hout.1
  | some n =>
    have hsn := h.next n hn s hs
    rcases hfirst t ht n hn with rfl | hbefore
    · exact hsn
    · exact hsn.trans hbefore

end Backlog

/-! ## What goes back -/

namespace Queue

variable {q : Queue}

/-- The edits of a producer are not carried out, and the bytes it reserved go back, no more and no
less.  Nothing else changes. -/
inductive Refunded (q : Queue) (p size : Nat) : Queue → Prop
  /-- Nothing was reserved. -/
  | nothing (hs : size = 0) : Refunded q p size { q with log := q.log ++ [.skipped p] }
  /-- The pool takes the bytes. -/
  | taken {pool : Pool} (hs : size ≠ 0) (hpool : q.pool.release q.peer size = .ok pool) :
      Refunded q p size { q with pool, log := q.log ++ [.release size none, .skipped p] }
  /-- The peer does not hold so much any more, and the pool takes nothing. -/
  | missing {a : Allocator} {e : MemoryError} (hs : size ≠ 0) (hpool : q.pool = .limited a)
      (hless : a.held q.peer < size) (hrefused : a.release q.peer size = .error e) :
      Refunded q p size { q with log := q.log ++ [.release size (some e), .skipped p] }

/-- A pool with limits refuses only what the peer does not hold. -/
theorem held_lt_of_refused {a : Allocator} {p : Peer} {n : Nat} {e : MemoryError} (hn : n ≠ 0)
    (h : a.release p n = .error e) : a.held p < n := by
  have hback : a.giveBack p n = .error e :=
    Allocator.refusal?_eq_some_iff.mp ((a.refusal?_release p n [] e).mpr h)
  rcases Allocator.giveBack_eq_error_iff.mp hback with ⟨hunknown, -⟩ | ⟨-, hless, -⟩
  · rw [Dict.contains, Option.isSome_eq_false_iff, Option.isNone_iff_eq_none] at hunknown
    rw [Allocator.held_of_none hunknown]
    omega
  · exact hless

theorem release_refunded (q : Queue) (p size : Nat) :
    q.Refunded p size ((q.release size).note (.skipped p)) := by
  unfold release
  by_cases hs : size = 0
  · rw [if_pos hs]
    exact .nothing hs
  · rw [if_neg hs]
    cases hr : q.pool.release q.peer size with
    | ok pool =>
      have htaken := Refunded.taken (p := p) hs hr
      rw [List.append_cons] at htaken
      exact htaken
    | error e =>
      cases hpool : q.pool with
      | unlimited l =>
        rw [hpool] at hr
        cases hr
      | limited a =>
        have hrefused : a.release q.peer size = .error e := by
          rw [hpool] at hr
          cases ha : a.release q.peer size with
          | ok b => simp [Pool.release, ha, Except.map] at hr
          | error e' => simpa [Pool.release, ha, Except.map] using hr
        have hless := held_lt_of_refused hs hrefused
        have hmissing := Refunded.missing (p := p) hs hpool hless hrefused
        rw [List.append_cons] at hmissing
        exact hmissing

/-- When a new builder is asked for and no topic is left, the edits are not carried out. -/
theorem mutate_refunded (p size : Nat) (edits : List Edit) (hopen : q.backlog.closed = false)
    (hasks : q.backlog.Asks size) (hnone : q.backlog.nextTopic = none) :
    q.Refunded p size (q.mutate p size edits) := by
  have herror : q.backlog.mutate size edits = .error .topicsExhausted :=
    Backlog.mutate_eq_error_iff.mpr ⟨rfl, hasks, hnone⟩
  unfold mutate
  rw [hopen, herror]
  exact q.release_refunded p size

/-- Otherwise they are, once. -/
theorem mutate_carriedOut (p size : Nat) (edits : List Edit) (hopen : q.backlog.closed = false)
    (h : ¬ (q.backlog.Asks size ∧ q.backlog.nextTopic = none)) :
    ∃ report backlog, q.backlog.mutate size edits = .ok (report, backlog) ∧
      (q.mutate p size edits).backlog = backlog ∧
      (q.mutate p size edits).log = q.log ++ [.mutated p edits report] := by
  cases hm : q.backlog.mutate size edits with
  | error e => exact absurd (Backlog.mutate_eq_error_iff.mp hm).2 h
  | ok result =>
    obtain ⟨report, backlog⟩ := result
    refine ⟨report, backlog, rfl, ?_⟩
    unfold mutate
    rw [hopen, hm]
    cases he : report.isEmpty <;> simp [he, note, signal]

end Queue

/-! ## Every run -/

namespace Backlog

/-- What a run has to satisfy. -/
structure TopicsNeverRepeat (start : Backlog) (moves : List BacklogMove) : Prop where
  /-- The topics in line only increase. -/
  increasing : (start.run moves).topics.Pairwise Topic.Before
  /-- The next topic comes after all of them. -/
  next : ∀ n ∈ (start.run moves).nextTopic, ∀ t ∈ (start.run moves).topics, t.Before n
  /-- The topics handed out are consecutive, from the next one at the start to the next one now. -/
  consecutive : Topic.HandedOut start.nextTopic (start.issued moves) (start.run moves).nextTopic
  /-- None is handed out twice, nor one that was in line at the start. -/
  fresh : (start.topics ++ start.issued moves).Pairwise Topic.Before
  /-- After the last topic nothing is left. -/
  lastOnce : Topic.last ∈ start.issued moves → (start.run moves).nextTopic = none
  /-- Edits are refused exactly when a new builder is asked for and no topic is left. -/
  refused : ∀ size edits e, (start.run moves).mutate size edits = .error e ↔
    e = .topicsExhausted ∧ (start.run moves).Asks size ∧ (start.run moves).nextTopic = none
  /-- Edits that may join the last builder do, whether or not a topic is left. -/
  joins : ∀ size edits b, (start.run moves).builders.getLast? = some b →
    ¬ (start.run moves).Asks size →
      ∃ report q', (start.run moves).mutate size edits = .ok (report, q') ∧
        report.topic = b.topic ∧ q'.nextTopic = (start.run moves).nextTopic ∧
        q'.builders = (start.run moves).builders.dropLast ++ [b.applyAll edits]
  /-- The last topic can be used. -/
  lastUsable : ∀ size edits, (start.run moves).nextTopic = some Topic.last →
    (start.run moves).Asks size →
      ∃ report q', (start.run moves).mutate size edits = .ok (report, q') ∧
        report.topic = Topic.last ∧ q'.nextTopic = none
  /-- In a queue with these builders, edits that are refused leave everything as it is, but for the
  bytes that go back. -/
  refunded : ∀ queue : Queue, queue.backlog = start.run moves → queue.backlog.closed = false →
    ∀ p size edits, (start.run moves).Asks size → (start.run moves).nextTopic = none →
      queue.Refunded p size (queue.mutate p size edits)
  /-- In a queue with these builders, all other edits are carried out. -/
  carriedOut : ∀ queue : Queue, queue.backlog = start.run moves → queue.backlog.closed = false →
    ∀ p size edits, ¬ ((start.run moves).Asks size ∧ (start.run moves).nextTopic = none) →
      ∃ report q', (start.run moves).mutate size edits = .ok (report, q') ∧
        (queue.mutate p size edits).backlog = q' ∧
        (queue.mutate p size edits).log = queue.log ++ [.mutated p edits report]

/-- **Topics never repeat, and running out of them changes nothing.**  From any state whose
builders have increasing topics before the next one, if there is a next one, whatever is done: the
topics in line only increase, those handed out are consecutive and never used again, and edits are
refused exactly when a new builder is asked for and no topic is left, in which case nothing happens
but that the reserved bytes go back. -/
theorem topics_never_repeat (start : Backlog) (h : start.ComesAfter []) (moves : List BacklogMove) :
    TopicsNeverRepeat start moves where
  increasing := (comesAfter_run h moves).increasing
  next := (comesAfter_run h moves).next
  consecutive := handedOut_issued h moves
  fresh := increasing_issued h moves
  lastOnce := (handedOut_issued h moves).eq_none
  refused := fun _ _ _ => mutate_eq_error_iff
  joins := fun _ _ _ hb hfits => ⟨_, _, mutate_of_joins hb hfits, rfl, rfl, rfl⟩
  lastUsable := fun _ _ hlast hasks =>
    ⟨_, _, mutate_of_asks hlast hasks, rfl, Topic.next?_eq_none_iff.mpr rfl⟩
  refunded := by
    intro queue hbacklog hopen p size edits hasks hnone
    rw [← hbacklog] at hasks hnone
    exact Queue.mutate_refunded p size edits hopen hasks hnone
  carriedOut := by
    intro queue hbacklog hopen p size edits hleft
    rw [← hbacklog] at hleft ⊢
    exact Queue.mutate_carriedOut p size edits hopen hleft

/-- The last topic is used for a builder, which others may join; but nobody gets a new one, not even
after that builder is gone. -/
theorem topics_never_repeat_of_last :
    let start : Backlog := { nextTopic := some Topic.last }
    let used := start.run [.mutate 1 []]
    let gone := start.run [.mutate 1 [], .pop]
    start.ComesAfter [] ∧ start.issued [.mutate 1 []] = [Topic.last] ∧
      used.mutate (maxBlockSize + 1) [] = .error .topicsExhausted ∧
      (∃ report q', used.mutate 1 [] = .ok (report, q') ∧ report.topic = Topic.last) ∧
      gone.mutate 0 [] = .error .topicsExhausted := by
  intro start used gone
  have hstart : start.ComesAfter [] := ⟨.nil, fun _ _ _ ht => by cases ht⟩
  have hused := topics_never_repeat start hstart [.mutate 1 []]
  have hgone := topics_never_repeat start hstart [.mutate 1 [], .pop]
  have hissued : start.issued [.mutate 1 []] = [Topic.last] := by decide
  have hnone : used.nextTopic = none := hused.lastOnce (by rw [hissued]; simp)
  have hempty : gone.Asks 0 := fun _ hb => nomatch hb
  refine ⟨hstart, hissued, ?_, ?_, ?_⟩
  · refine (hused.refused (maxBlockSize + 1) [] _).mpr ⟨rfl, fun b hb => ?_, hnone⟩
    exact ⟨Nat.succ_pos _, Nat.lt_of_lt_of_le (Nat.lt_succ_self _) (Nat.le_add_left ..)⟩
  · obtain ⟨report, q', hmutate, htopic, -, -⟩ := hused.joins 1 [] { topic := Topic.last } rfl
      fun hasks => absurd (hasks _ rfl).2 (by decide)
    exact ⟨report, q', hmutate, htopic⟩
  · exact (hgone.refused 0 [] _).mpr ⟨rfl, hempty, rfl⟩

end Backlog

end Outbox
