import Mathlib
import Outbox.Message.Backlog

/-!
# What happens to builders in line

The backlog changes in three ways only: the last builder takes in a producer's edits or a new one
is opened for them, the first builder is taken, and requests are scrubbed from all builders.

* `Backlog.Mutation` — what becomes of a producer's edits, with `Backlog.mutate_mutation` saying
  that nothing else can;
* `Backlog.mem_scrub` — the builders that a scrub leaves;
* `Topic.Before`, `Backlog.ComesAfter` — topics come in the order in which they were handed out;
* `Builder.isEmpty_scrub` — a scrub never fills an empty builder;
* `Builder.finish?_eq_none_iff` and `Builder.finish?_eq_some_iff` — what a builder is finished into.
-/

namespace Outbox

/-! ## Builders -/

/-- The edit is a scrub. -/
def Edit.isScrub : Edit → Bool
  | .scrub _ => true
  | _ => false

namespace Builder

variable (b : Builder)

@[simp] theorem scrub_topic (rs : List RequestId) : (b.scrub rs).topic = b.topic := by
  unfold scrub
  simp only
  split <;> rfl

@[simp] theorem apply_topic (e : Edit) : (b.apply e).topic = b.topic := by
  cases e with
  | scrub rs => exact b.scrub_topic rs
  | _ => rfl

@[simp] theorem applyAll_cons (e : Edit) (edits : List Edit) :
    b.applyAll (e :: edits) = (b.apply e).applyAll edits := rfl

theorem applyAll_concat (edits : List Edit) (e : Edit) :
    b.applyAll (edits ++ [e]) = (b.applyAll edits).apply e := by
  simp [applyAll]

@[simp] theorem applyAll_topic (edits : List Edit) : (b.applyAll edits).topic = b.topic := by
  induction edits generalizing b with
  | nil => rfl
  | cons e edits ih => rw [applyAll_cons, ih, apply_topic]

theorem isEmpty_iff : b.isEmpty = true ↔
    b.blocks = [] ∧ b.links.isEmpty = true ∧ b.statuses.isEmpty = true ∧
      b.extensions.isEmpty = true := by
  simp only [isEmpty, Bool.and_eq_true, List.isEmpty_iff, and_assoc]

theorem isEmpty_eraseAll {κ α : Type} [Key κ] [DecidableEq κ] {d : Dict κ α}
    (h : d.isEmpty = true) (ks : List κ) : (d.eraseAll ks).isEmpty = true := by
  simp only [Dict.isEmpty, List.isEmpty_iff] at h ⊢
  simp [Dict.eraseAll, Dict.filterKeys, h]

variable {b}

/-- A builder that holds nothing holds nothing after a scrub. -/
theorem isEmpty_scrub (h : b.isEmpty = true) (rs : List RequestId) :
    (b.scrub rs).isEmpty = true := by
  rw [isEmpty_iff] at h ⊢
  obtain ⟨hb, hl, hs, he⟩ := h
  unfold scrub
  simp only
  split
  · exact ⟨by simp [recount, forget, hb], isEmpty_eraseAll hl rs, isEmpty_eraseAll hs rs,
      isEmpty_eraseAll he rs⟩
  · exact ⟨hb, isEmpty_eraseAll hl rs, isEmpty_eraseAll hs rs, isEmpty_eraseAll he rs⟩

/-- Exactly the empty builders have no message. -/
theorem finish?_eq_none_iff : b.finish? = none ↔ b.isEmpty = true := by
  unfold finish?
  split <;> simp_all

theorem exists_finish?_iff : (∃ d, b.finish? = some d) ↔ b.isEmpty = false := by
  rw [← Option.ne_none_iff_exists', Ne, finish?_eq_none_iff, Bool.not_eq_true]

/-- A builder that holds something is finished into its message and what goes with it. -/
theorem finish?_eq_some_iff {d : Finished} : b.finish? = some d ↔ b.isEmpty = false ∧
    d = { message := b.message, topic := b.topic, size := b.size,
          metadata := ⟨b.records, b.message.statuses⟩, streams := b.streams,
          sinks := b.notifees.values.flatten } := by
  unfold finish?
  cases b.isEmpty with
  | true => simp
  | false => simp [eq_comm]

theorem finish?_eq_some {d : Finished} (h : b.finish? = some d) :
    b.isEmpty = false ∧ d.topic = b.topic ∧ d.size = b.size := by
  obtain ⟨hfull, rfl⟩ := finish?_eq_some_iff.mp h
  exact ⟨hfull, rfl, rfl⟩

end Builder

/-! ## The backlog -/

namespace Backlog

variable {q : Backlog}

/-- The builders after a scrub are the scrubbed builders that still hold something. -/
theorem mem_scrub {rs : List RequestId} {b : Builder} :
    b ∈ (q.scrub rs).builders ↔ (∃ b' ∈ q.builders, b'.scrub rs = b) ∧ b.isEmpty = false := by
  simp [scrub]

/-! ### The topics in line -/

/-- The topics of the builders in line. -/
def topics (q : Backlog) : List Topic := q.builders.map Builder.topic

/-- The second backlog can come after the first: some builders may be gone, or one new builder
with the next topic stands at the end. -/
def Follows (q q' : Backlog) : Prop :=
  (q'.topics.Sublist q.topics ∧ q'.nextTopic = q.nextTopic) ∨
    ∃ t, q.nextTopic = some t ∧ q'.topics = q.topics ++ [t] ∧ q'.nextTopic = t.next?

theorem Follows.refl (q : Backlog) : q.Follows q := .inl ⟨List.Sublist.refl _, rfl⟩

theorem topics_scrub (q : Backlog) (rs : List RequestId) :
    (q.scrub rs).topics.Sublist q.topics := by
  have hmap : (q.builders.map (·.scrub rs)).map Builder.topic = q.topics := by
    simp [topics, Function.comp_def]
  rw [← hmap]
  exact List.filter_sublist.map _

theorem follows_scrub (q : Backlog) (rs : List RequestId) : q.Follows (q.scrub rs) :=
  .inl ⟨q.topics_scrub rs, rfl⟩

/-! ### Edits -/

/-- What can become of the edits of a producer that reserved `size` bytes. -/
inductive Mutation (q : Backlog) (size : Nat) (edits : List Edit) :
    Except QueueError (EditReport × Backlog) → Prop
  /-- They join the last builder. -/
  | join {front : List Builder} {b : Builder} (hb : q.builders = front ++ [b])
      (hfit : overflows b size = false) :
      Mutation q size edits
        (.ok (report b edits, { q with builders := front ++ [b.applyAll edits] }))
  /-- A new builder is opened for them. -/
  | begin {t : Topic} (hnew : q.beginsNew size = true) (ht : q.nextTopic = some t) :
      Mutation q size edits
        (.ok (report { topic := t } edits,
          { q with
            builders := q.builders ++ [({ topic := t } : Builder).applyAll edits]
            nextTopic := t.next? }))
  /-- A new builder is due and no topic is left for it. -/
  | exhausted (hnew : q.beginsNew size = true) (ht : q.nextTopic = none) :
      Mutation q size edits (.error .topicsExhausted)

/-- Nothing else becomes of edits. -/
theorem mutate_mutation (q : Backlog) (size : Nat) (edits : List Edit) :
    Mutation q size edits (q.mutate size edits) := by
  unfold mutate
  cases hj : q.joined? size with
  | some b =>
    obtain ⟨hl, hfit⟩ := Option.filter_eq_some_iff.mp hj
    obtain ⟨front, hb⟩ := List.getLast?_eq_some_iff.mp hl
    have hfront : q.builders.dropLast = front := by rw [hb, List.dropLast_concat]
    simp only [hfront]
    exact .join hb (by simpa using hfit)
  | none =>
    have hnew : q.beginsNew size = true := by simp [beginsNew, hj]
    cases ht : q.nextTopic with
    | none => exact .exhausted hnew ht
    | some t => exact .begin hnew ht

/-- Edits open at most one new builder. -/
theorem Mutation.follows {size : Nat} {edits : List Edit} {report : EditReport} {q' : Backlog}
    (h : Mutation q size edits (.ok (report, q'))) : q.Follows q' := by
  cases h with
  | @join front b hb hfit =>
    refine .inl ⟨?_, rfl⟩
    simp [topics, hb]
  | begin hnew ht =>
    refine .inr ⟨_, ht, ?_, rfl⟩
    simp [topics]

/-- Whether the report calls the builder empty is whether the last builder is empty. -/
theorem Mutation.last_isEmpty {size : Nat} {edits : List Edit} {report : EditReport}
    {q' : Backlog} (h : Mutation q size edits (.ok (report, q'))) :
    ∃ front b, q'.builders = front ++ [b] ∧ b.isEmpty = report.isEmpty ∧
      ∀ b' ∈ front, b' ∈ q.builders := by
  cases h with
  | @join front b hb hfit =>
    exact ⟨front, _, rfl, rfl, fun b' hb' => hb ▸ List.mem_append_left _ hb'⟩
  | begin hnew ht => exact ⟨q.builders, _, rfl, rfl, fun b' hb' => hb'⟩

end Backlog

/-! ## Topics in order -/

/-- The first topic is handed out before the second. -/
def Topic.Before (t t' : Topic) : Prop := t.number < t'.number

theorem Topic.Before.trans {t t' t'' : Topic} (h : t.Before t') (h' : t'.Before t'') :
    t.Before t'' :=
  UInt64.lt_trans h h'

theorem Topic.Before.ne {t t' : Topic} (h : t.Before t') : t ≠ t' := by
  rintro rfl
  exact UInt64.lt_irrefl _ h

/-- The next topic comes after the topics before it. -/
theorem Topic.before_next {t n : Topic} (h : t.next? = some n) : t.Before n := by
  unfold Topic.next? at h
  split at h
  · rename_i hlt
    cases h
    show t.number < t.number + 1
    rw [UInt64.lt_iff_toNat_lt, UInt64.toNat_add]
    simp only [UInt64.size] at hlt
    simp only [UInt64.toNat_one]
    omega
  · cases h

/-- The builders in line have later topics than the given ones, in order, and the next topic comes
after all of them. -/
structure Backlog.ComesAfter (backlog : Backlog) (ts : List Topic) : Prop where
  /-- Topics only increase. -/
  increasing : (ts ++ backlog.topics).Pairwise Topic.Before
  /-- The next topic was never used. -/
  next : ∀ n ∈ backlog.nextTopic, ∀ t ∈ ts ++ backlog.topics, t.Before n

namespace Backlog.ComesAfter

variable {backlog backlog' : Backlog} {ts : List Topic}

theorem of_sublist (h : backlog.ComesAfter ts) (hsub : backlog'.topics.Sublist backlog.topics)
    (hn : backlog'.nextTopic = backlog.nextTopic) : backlog'.ComesAfter ts := by
  have hall : (ts ++ backlog'.topics).Sublist (ts ++ backlog.topics) :=
    (List.Sublist.refl ts).append hsub
  refine ⟨h.increasing.sublist hall, ?_⟩
  intro n hn' t ht
  exact h.next n (hn ▸ hn') t (hall.subset ht)

/-- A new builder has a topic that comes after all others. -/
theorem follows (h : backlog.ComesAfter ts) (hl : backlog.Follows backlog') :
    backlog'.ComesAfter ts := by
  rcases hl with ⟨hsub, hn⟩ | ⟨t, ht, htopics, hn⟩
  · exact h.of_sublist hsub hn
  · have hlast : ts ++ backlog'.topics = ts ++ backlog.topics ++ [t] := by
      rw [htopics, List.append_assoc]
    refine ⟨?_, ?_⟩
    · rw [hlast]
      refine List.pairwise_append.mpr ⟨h.increasing, List.pairwise_singleton _ _, ?_⟩
      intro s hs t' ht'
      rw [List.mem_singleton.mp ht']
      exact h.next t ht s hs
    · intro n hn' s hs
      have htn : t.Before n := Topic.before_next (hn ▸ hn')
      rw [hlast] at hs
      rcases List.mem_append.mp hs with hs | hs
      · exact (h.next t ht s hs).trans htn
      · rw [List.mem_singleton.mp hs]
        exact htn

/-- The first builder may be taken: its topic comes after the given ones. -/
theorem take {b : Builder} {rest : List Builder} (h : backlog.ComesAfter ts)
    (hb : backlog.builders = b :: rest) :
    { backlog with builders := rest }.ComesAfter (ts ++ [b.topic]) := by
  have hsplit : ts ++ backlog.topics = ts ++ [b.topic] ++ rest.map Builder.topic := by
    simp [topics, hb]
  refine ⟨?_, ?_⟩
  · show (ts ++ [b.topic] ++ rest.map Builder.topic).Pairwise Topic.Before
    rw [← hsplit]
    exact h.increasing
  · intro n hn t ht
    refine h.next n hn t ?_
    rw [hsplit]
    exact ht

/-- The first builder may go unreported. -/
theorem skip {b : Builder} {rest : List Builder} (h : backlog.ComesAfter ts)
    (hb : backlog.builders = b :: rest) : { backlog with builders := rest }.ComesAfter ts := by
  refine h.of_sublist ?_ rfl
  simp [topics, hb]

theorem close (h : backlog.ComesAfter ts) : backlog.close.ComesAfter ts :=
  h.of_sublist (List.nil_sublist _) rfl

end Backlog.ComesAfter

end Outbox
