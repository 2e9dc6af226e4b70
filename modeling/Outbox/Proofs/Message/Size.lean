import Outbox.Proofs.Message.Backlog

/-!
# The size of builders

A builder's size is the memory reserved for it.  It is kept as a running sum, counted anew by a
scrub and read off again when the builder is finished, and the three agree as long as blocks with
the same link have the same length.

* `Edit.bytes`, `Honest` — what an edit adds, and edits that add exactly what was reserved;
* `Edit.IsEven` — an edit that gives blocks with the same link the same length;
* `Builder.Accounted` — the size is the sum over the stored blocks;
* `Builder.Accounted.applyAll`, `Builder.Accounted.scrub` — what edits and scrubs do to it;
* `Backlog.bytes` — the memory reserved for all builders in line, with `Backlog.bytes_scrub` and
  `Backlog.bytes_mutation`.
-/

namespace Outbox

variable {len : Link → Nat}

/-! ## Edits -/

/-- The bytes that an edit adds. -/
def Edit.bytes : Edit → Nat
  | .addBlock block => block.size
  | _ => 0

/-- An edit that is no scrub and whose block, if it has one, has the length that goes with its
link. -/
def Edit.IsPlain (len : Link → Nat) : Edit → Prop
  | .addBlock block => block.size = len block.link
  | .scrub _ => False
  | _ => True

/-- An edit whose block, if it has one, has the length that goes with its link. -/
def Edit.IsEven (len : Link → Nat) : Edit → Prop
  | .addBlock block => block.size = len block.link
  | _ => True

/-- The edits add exactly `size` bytes and scrub nothing. -/
structure Honest (len : Link → Nat) (size : Nat) (edits : List Edit) : Prop where
  /-- No edit scrubs, and links determine lengths. -/
  plain : ∀ e ∈ edits, e.IsPlain len
  /-- The blocks have the size that was reserved. -/
  bytes : (edits.map Edit.bytes).sum = size

/-- Adding one block is honest if its size is what was reserved. -/
theorem honest_addBlock {block : Block} {size : Nat} (hl : block.size = len block.link)
    (hs : block.size = size) : Honest len size [.addBlock block] := by
  refine ⟨?_, hs⟩
  intro e he
  rw [List.mem_singleton.mp he]
  exact hl

namespace Builder

/-! ## What a builder's size is -/

/-- The size of the builder is what is reserved for its blocks, each of which has the length that
goes with its link. -/
structure Accounted (len : Link → Nat) (b : Builder) : Prop where
  /-- Links determine lengths. -/
  lengths : ∀ s ∈ b.blocks, s.block.size = len s.block.link
  /-- The size is the sum of what is reserved. -/
  size : b.size = (b.blocks.map StoredBlock.reserved).sum

theorem accounted_new (t : Topic) : Accounted len { topic := t } := by
  refine ⟨?_, rfl⟩
  intro s hs
  cases hs

/-- Storing a block reserves its length once more. -/
theorem store_reserved {block : Block} {blocks : List StoredBlock}
    (hblock : block.size = len block.link)
    (hblocks : ∀ s ∈ blocks, s.block.size = len s.block.link) :
    (∀ s ∈ store block blocks, s.block.size = len s.block.link) ∧
      ((store block blocks).map StoredBlock.reserved).sum =
        (blocks.map StoredBlock.reserved).sum + block.size := by
  induction blocks with
  | nil => simp [store, hblock, StoredBlock.reserved]
  | cons s rest ih =>
    obtain ⟨hs, hrest⟩ := List.forall_mem_cons.mp hblocks
    unfold store
    by_cases hlink : s.block.link = block.link
    · rw [if_pos hlink]
      refine ⟨List.forall_mem_cons.mpr ⟨hs, hrest⟩, ?_⟩
      -- the block stored first stands for the new one, which has the same length
      have hsize : s.block.size = block.size := by rw [hs, hblock, hlink]
      simp only [List.map_cons, List.sum_cons, StoredBlock.reserved, hsize, Nat.mul_succ]
      omega
    · rw [if_neg hlink]
      obtain ⟨ihlengths, ihsum⟩ := ih hrest
      refine ⟨List.forall_mem_cons.mpr ⟨hs, ihlengths⟩, ?_⟩
      simp only [List.map_cons, List.sum_cons, ihsum]
      omega

/-- Counting anew never finds more than was reserved for the blocks. -/
theorem size_recount_le (b : Builder) :
    b.recount.size ≤ (b.blocks.map StoredBlock.reserved).sum := by
  show ((_ : List StoredBlock).map StoredBlock.reserved).sum ≤ _
  rw [List.map_map]
  refine le_trans (List.sum_le_sum (g := StoredBlock.reserved) fun s _ => ?_) ?_
  · exact Nat.mul_le_mul_left _ (Nat.min_le_left _ _)
  · exact (List.filter_sublist.map _).sum_le_sum fun _ _ => Nat.zero_le _

namespace Accounted

variable {b : Builder}

/-- A plain edit adds its bytes. -/
theorem apply (h : b.Accounted len) {e : Edit} (he : e.IsPlain len) :
    (b.apply e).Accounted len ∧ (b.apply e).size = b.size + e.bytes := by
  cases e with
  | addBlock block =>
    obtain ⟨hlengths, hsum⟩ := store_reserved he h.lengths
    refine ⟨⟨hlengths, ?_⟩, rfl⟩
    show b.size + block.size = _
    rw [h.size]
    exact hsum.symm
  | scrub rs => exact he.elim
  | _ => exact ⟨⟨h.lengths, h.size⟩, rfl⟩

theorem applyAll (h : b.Accounted len) {edits : List Edit}
    (he : ∀ e ∈ edits, e.IsPlain len) :
    (b.applyAll edits).Accounted len ∧
      (b.applyAll edits).size = b.size + (edits.map Edit.bytes).sum := by
  induction edits generalizing b with
  | nil => exact ⟨h, rfl⟩
  | cons e edits ih =>
    obtain ⟨hplain, hrest⟩ := List.forall_mem_cons.mp he
    obtain ⟨happly, hsize⟩ := h.apply hplain
    obtain ⟨hall, hsizes⟩ := ih happly hrest
    refine ⟨hall, ?_⟩
    rw [applyAll_cons, hsizes, hsize, List.map_cons, List.sum_cons]
    omega

/-- A builder that holds nothing has no size. -/
theorem size_of_isEmpty (h : b.Accounted len) (he : b.isEmpty = true) : b.size = 0 := by
  rw [h.size, ((b.isEmpty_iff).mp he).1]
  rfl

/-- Counting anew never finds more than the running sum. -/
theorem recount (h : b.Accounted len) : b.recount.Accounted len ∧ b.recount.size ≤ b.size := by
  refine ⟨⟨?_, rfl⟩, ?_⟩
  · intro s hs
    obtain ⟨s', hs', rfl⟩ := List.mem_map.mp hs
    exact h.lengths s' (List.mem_filter.mp hs').1
  · rw [h.size]
    exact b.size_recount_le

/-- A scrub leaves the size of what is left. -/
theorem scrub (h : b.Accounted len) (rs : List RequestId) :
    (b.scrub rs).Accounted len ∧ (b.scrub rs).size ≤ b.size := by
  have hforget : (b.forget rs).Accounted len := ⟨h.lengths, h.size⟩
  unfold Builder.scrub
  simp only
  split
  · exact hforget.recount
  · exact ⟨hforget, le_rfl⟩

/-- Edits that keep to the lengths keep the size right, whatever they add or scrub. -/
theorem applyAll_of_isEven (h : b.Accounted len) {edits : List Edit}
    (he : ∀ e ∈ edits, e.IsEven len) : (b.applyAll edits).Accounted len := by
  induction edits generalizing b with
  | nil => exact h
  | cons e edits ih =>
    obtain ⟨heven, hrest⟩ := List.forall_mem_cons.mp he
    refine ih ?_ hrest
    cases e with
    | addBlock block => exact (h.apply (e := .addBlock block) heven).1
    | scrub rs => exact (h.scrub rs).1
    | _ => exact ⟨h.lengths, h.size⟩

end Accounted

/-- What a scrub of several builders frees and what it leaves make up what there was. -/
theorem sum_size_scrub {builders : List Builder} (h : ∀ b ∈ builders, b.Accounted len)
    (rs : List RequestId) :
    (((builders.map (·.scrub rs)).filter (fun b => !b.isEmpty)).map size).sum +
      (builders.map (·.scrubFrees rs)).sum = (builders.map size).sum := by
  induction builders with
  | nil => rfl
  | cons b rest ih =>
    obtain ⟨hb, hrest⟩ := List.forall_mem_cons.mp h
    obtain ⟨hscrub, hle⟩ := hb.scrub rs
    have ih := ih hrest
    simp only [List.map_cons, List.sum_cons, scrubFrees] at ih ⊢
    by_cases he : (b.scrub rs).isEmpty = true
    · -- the builder goes, and nothing was reserved for it any more
      have hzero := hscrub.size_of_isEmpty he
      rw [List.filter_cons_of_neg (by simp [he])]
      omega
    · rw [List.filter_cons_of_pos (by simpa using he), List.map_cons, List.sum_cons]
      omega

end Builder

/-! ## The backlog -/

namespace Backlog

variable {q q' : Backlog}

/-- The memory reserved for the builders in line. -/
def bytes (q : Backlog) : Nat := (q.builders.map Builder.size).sum

/-- Every builder in line has its size. -/
def Accounted (len : Link → Nat) (q : Backlog) : Prop := ∀ b ∈ q.builders, b.Accounted len

/-- What a scrub frees is what the builders in line lose. -/
theorem bytes_scrub (h : q.Accounted len) (rs : List RequestId) :
    (q.scrub rs).Accounted len ∧ (q.scrub rs).bytes + q.scrubFrees rs = q.bytes := by
  refine ⟨?_, Builder.sum_size_scrub h rs⟩
  intro b hb
  obtain ⟨⟨b', hb', rfl⟩, -⟩ := mem_scrub.mp hb
  exact ((h b' hb').scrub rs).1

/-- Honest edits add what was reserved for them. -/
theorem bytes_mutation {size : Nat} {edits : List Edit} {report : EditReport}
    (h : q.Accounted len) (he : Honest len size edits)
    (hm : Mutation q size edits (.ok (report, q'))) :
    q'.Accounted len ∧ q'.bytes = q.bytes + size := by
  cases hm with
  | @join front b hb hfit =>
    have hlast : b.Accounted len := h b (hb ▸ List.mem_append_right _ (List.mem_singleton_self b))
    obtain ⟨hall, hsize⟩ := hlast.applyAll he.plain
    refine ⟨?_, ?_⟩
    · intro b' hb'
      rcases List.mem_append.mp hb' with hf | hl
      · exact h b' (hb ▸ List.mem_append_left _ hf)
      · rw [List.mem_singleton.mp hl]
        exact hall
    · simp only [bytes, hb, List.map_append, List.map_cons, List.map_nil, List.sum_append,
        List.sum_cons, List.sum_nil, hsize, he.bytes]
      omega
  | @begin t hnew ht =>
    have hempty : ({ topic := t } : Builder).Accounted len := Builder.accounted_new t
    obtain ⟨hall, hsize⟩ := hempty.applyAll he.plain
    refine ⟨?_, ?_⟩
    · intro b' hb'
      rcases List.mem_append.mp hb' with hf | hl
      · exact h b' hf
      · rw [List.mem_singleton.mp hl]
        exact hall
    · simp [bytes, hsize, he.bytes]

end Backlog

end Outbox
