import Outbox.Proofs.Message.Run
import Outbox.Word

/-!
# Batches

How changes fall into messages depends on nothing but the bytes that each of them adds: a change
goes to the last batch as long as that stays within the limit, and one that adds nothing always
does.  A backlog that takes in one change after the other has a builder for each batch, of the size
of the batch, as long as there are topics for them.

* `batch`, `batches` — the batches that sizes fall into, one size after the other;
* `Topic.left` — how many topics can still be handed out;
* `Backlog.sizes` — the sizes of the builders in line;
* `Backlog.overflows_eq_word` — the rule that decides this, with machine words;
* `Backlog.Holds`, `Backlog.Holds.mutate` — one change goes where the rule says;
* `Backlog.sizes_run` — many changes leave one builder for each batch.
-/

namespace Outbox

variable {len : Link → Nat}

/-! ## The rule on sizes -/

/-- The batches after one more size: it goes to the last batch if it is zero or keeps it within the
limit, and otherwise begins a new one. -/
def batch (done : List Nat) (size : Nat) : List Nat :=
  match done.getLast? with
  | none => [size]
  | some last =>
    if size = 0 ∨ last + size ≤ maxBlockSize then done.dropLast ++ [last + size]
    else done ++ [size]

/-- The batches that sizes fall into. -/
def batches (sizes : List Nat) : List Nat := sizes.foldl batch []

theorem batch_concat (front : List Nat) (last size : Nat) : batch (front ++ [last]) size =
    if size = 0 ∨ last + size ≤ maxBlockSize then front ++ [last + size]
    else front ++ [last] ++ [size] := by
  simp [batch]

/-- Batches are never given up. -/
theorem length_le_batch (done : List Nat) (size : Nat) :
    done.length ≤ (batch done size).length := by
  rcases done.eq_nil_or_concat' with rfl | ⟨front, last, rfl⟩
  · exact Nat.zero_le _
  · rw [batch_concat]
    split <;> simp

theorem length_le_foldl_batch (done sizes : List Nat) :
    done.length ≤ (sizes.foldl batch done).length := by
  induction sizes generalizing done with
  | nil => exact le_rfl
  | cons size rest ih => exact (length_le_batch done size).trans (ih (batch done size))

/-! ## Topics -/

/-- How many topics can still be handed out. -/
def Topic.left : Option Topic → Nat
  | none => 0
  | some t => UInt64.size - t.number.toNat

/-- A topic that is handed out is one less. -/
theorem Topic.left_next (t : Topic) : Topic.left t.next? + 1 = Topic.left (some t) := by
  have hlt := t.number.toNat_lt
  unfold next?
  split
  · rename_i hnext
    have hsucc : (t.number + 1).toNat = t.number.toNat + 1 := by
      rw [UInt64.toNat_add, UInt64.toNat_one, Nat.mod_eq_of_lt hnext]
    simp only [left, hsucc]
    omega
  · simp only [left]
    simp only [UInt64.size] at *
    omega

/-! ## Builders and batches -/

namespace Backlog

variable {q : Backlog} {size : Nat} {edits : List Edit} {done : List Nat} {room : Nat}

/-- The sizes of the builders in line. -/
def sizes (q : Backlog) : List Nat := q.builders.map Builder.size

/-- A change finds room in the last builder exactly if the rule adds it to the last batch. -/
theorem overflows_eq_false_iff {b : Builder} :
    overflows b size = false ↔ size = 0 ∨ b.size + size ≤ maxBlockSize := by
  simp only [overflows, decide_eq_false_iff_not, not_and_or, not_lt, Nat.le_zero]

/-- The rule is the same with machine words, as long as the sum fits into one. -/
theorem overflows_eq_word {b : Builder} (h : b.size + size < UInt64.size) :
    overflows b size = decide (0 < size ∧ maxBlockSize < Word.add b.size size) := by
  rw [overflows, Word.add_eq h]

/-- A change that begins a new builder begins a new batch. -/
theorem batch_of_beginsNew (h : q.beginsNew size = true) :
    batch q.sizes size = q.sizes ++ [size] := by
  rw [beginsNew, Option.isNone_iff_eq_none, joined?, Option.filter_eq_none_iff] at h
  rcases q.builders.eq_nil_or_concat' with hb | ⟨front, b, hb⟩
  · rw [sizes, hb]
    rfl
  · have hover : overflows b size = true := by
      simpa using h b (by rw [hb, List.getLast?_concat])
    have hlast : q.sizes = front.map Builder.size ++ [b.size] := by
      rw [sizes, hb, List.map_append, List.map_singleton]
    rw [hlast, batch_concat, if_neg]
    rw [← overflows_eq_false_iff, hover]
    simp

/-- The builders in line are these batches, and there are topics for `room` of them in all. -/
structure Holds (len : Link → Nat) (done : List Nat) (room : Nat) (q : Backlog) : Prop where
  /-- Sizes are right. -/
  accounted : q.Accounted len
  /-- There is a builder for each batch. -/
  sizes : q.sizes = done
  /-- Every other topic is left. -/
  room : done.length + Topic.left q.nextTopic = room

/-- A change goes where the rule says if there are topics enough. -/
theorem Holds.mutate (h : q.Holds len done room) (he : Honest len size edits)
    (hroom : (batch done size).length ≤ room) :
    (q.step (.mutate size edits)).Holds len (batch done size) room := by
  obtain ⟨hacc, rfl, rfl⟩ := h
  have hmoved := q.step_moved (.mutate size edits)
  generalize q.step (.mutate size edits) = q' at hmoved
  cases hmoved with
  | mutated hm =>
    have hacc' := (bytes_mutation hacc he hm).1
    cases hm with
    | @join front b hb hfit =>
      have hb' : b ∈ q.builders := hb ▸ List.mem_append_right _ (List.mem_singleton_self b)
      have hsize : (b.applyAll edits).size = b.size + size := by
        rw [((hacc b hb').applyAll he.plain).2, he.bytes]
      have hsizes : batch q.sizes size = front.map Builder.size ++ [b.size + size] := by
        rw [Backlog.sizes, hb, List.map_append, List.map_singleton, batch_concat,
          if_pos (overflows_eq_false_iff.mp hfit)]
      refine ⟨hacc', ?_, ?_⟩
      · rw [hsizes, Backlog.sizes, List.map_append, List.map_singleton, hsize]
      · rw [hsizes, Backlog.sizes, hb]
        simp
    | @begin t hnew ht =>
      have hsize : (({ topic := t } : Builder).applyAll edits).size = size := by
        rw [((Builder.accounted_new t).applyAll he.plain).2, he.bytes]
        exact Nat.zero_add size
      refine ⟨hacc', ?_, ?_⟩
      · rw [batch_of_beginsNew hnew, Backlog.sizes, List.map_append, List.map_singleton, hsize]
        rfl
      · rw [batch_of_beginsNew hnew, ht, List.length_append, List.length_singleton,
          ← Topic.left_next t]
        exact Nat.succ_add_eq_add_succ ..
  | refused hm =>
    cases hm with
    | exhausted hnew ht =>
      -- every topic has its batch already, so one more would not fit
      rw [batch_of_beginsNew hnew, ht, List.length_append] at hroom
      simp [Topic.left] at hroom

/-- **Changes fall into batches.**  Changes that add what is announced for them, carried out one
after the other, leave the builders in line that the rule makes of their sizes, as long as there are
topics for all of them. -/
theorem Holds.run {changes : List (Nat × List Edit)} (h : q.Holds len done room)
    (hc : ∀ c ∈ changes, Honest len c.1 c.2)
    (hroom : ((changes.map Prod.fst).foldl batch done).length ≤ room) :
    (q.run (changes.map fun c => .mutate c.1 c.2)).Holds len
      ((changes.map Prod.fst).foldl batch done) room := by
  induction changes generalizing q done with
  | nil => exact h
  | cons c rest ih =>
    obtain ⟨hfirst, hrest⟩ := List.forall_mem_cons.mp hc
    exact ih (h.mutate hfirst ((length_le_foldl_batch _ _).trans hroom)) hrest hroom

/-- Of a backlog without builders the sizes of the builders are the batches of the sizes. -/
theorem sizes_run {changes : List (Nat × List Edit)} (hq : q.builders = [])
    (hc : ∀ c ∈ changes, Honest len c.1 c.2)
    (hroom : (batches (changes.map Prod.fst)).length ≤ Topic.left q.nextTopic) :
    (q.run (changes.map fun c => .mutate c.1 c.2)).sizes = batches (changes.map Prod.fst) := by
  have hempty : q.Holds len [] (Topic.left q.nextTopic) := by
    refine ⟨fun b hb => ?_, ?_, Nat.zero_add _⟩
    · rw [hq] at hb
      cases hb
    · rw [Backlog.sizes, hq]
      rfl
  exact (hempty.run hc hroom).sizes

end Backlog

end Outbox
