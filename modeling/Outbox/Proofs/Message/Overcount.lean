import Outbox.Proofs.Message.Shelf

/-!
# What scrubs report, whatever the payloads

A builder counts every payload by its own length, but a scrub counts anew with the first payload
under each link.  As long as no payload is shorter than the one stored under its link, the bytes
that scrubs report are exactly those that the size loses, and nothing that was added is lost.  A
shorter payload lets a scrub count too much, at most by what the payload falls short, and then the
bytes given back for a builder exceed what was reserved for it.

* `Builder.along` — a number for each edit, added up along a list of edits;
* `Builder.overcount`, `Builder.shortfall` — what a scrub counts too much, and its cause;
* `Builder.size_step`, `Builder.deficit_step` — one edit;
* `Builder.scrubs_report` — every list of edits;
* `Builder.scrub_overcounts` — a scrub that frees nothing and leaves a larger builder.
-/

namespace Outbox

/-- The bytes that a reply says were freed. -/
def Reply.bytesFreed : Reply → Nat
  | .freed n => n
  | _ => 0

namespace Builder

/-- A number for each edit and the builder it finds, added up along a list of edits. -/
def along (f : Builder → Edit → Nat) (b : Builder) : List Edit → Nat
  | [] => 0
  | e :: rest => f b e + along f (b.apply e) rest

/-- The bytes that producers are told were freed. -/
def freedBy (b : Builder) (edits : List Edit) : Nat := ((b.replies edits).map Reply.bytesFreed).sum

/-- The bytes that a scrub leaves over what was there. -/
def overcount (b : Builder) : Edit → Nat
  | .scrub rs => (b.scrub rs).size - b.size
  | _ => 0

/-- The bytes by which an added block is shorter than the one that stands under its link. -/
def shortfall (b : Builder) : Edit → Nat
  | .addBlock block => (stored? b.blocks block.link).elim 0 (·.block.size) - block.size
  | _ => 0

/-- What was reserved for the blocks by their first payloads, over the size. -/
def deficit (b : Builder) : Nat := (b.blocks.map StoredBlock.reserved).sum - b.size

/-! ## One edit -/

/-- What an edit adds, and what a scrub counts too much, is in the size or was freed. -/
theorem size_step (b : Builder) (e : Edit) :
    b.size + e.bytes + b.overcount e = (b.apply e).size + (b.reply e).bytesFreed := by
  cases e with
  | scrub rs =>
    show b.size + 0 + ((b.scrub rs).size - b.size) = (b.scrub rs).size + b.scrubFrees rs
    unfold scrubFrees
    omega
  | _ => rfl

/-- An added block reserves the length of the payload that stands under its link. -/
theorem reserved_store (block : Block) (blocks : List StoredBlock) :
    ((store block blocks).map StoredBlock.reserved).sum =
      (blocks.map StoredBlock.reserved).sum +
        (stored? blocks block.link).elim block.size (·.block.size) := by
  induction blocks with
  | nil => simp [store, StoredBlock.reserved]
  | cons s rest ih =>
    rw [store, stored?_cons]
    by_cases hs : s.block.link = block.link
    · rw [if_pos hs, if_pos hs]
      simp only [List.map_cons, List.sum_cons, StoredBlock.reserved, Nat.mul_succ,
        Option.elim_some]
      omega
    · rw [if_neg hs, if_neg hs]
      simp only [List.map_cons, List.sum_cons, ih]
      omega

/-- A scrub counts too much only what was short before. -/
theorem deficit_step (b : Builder) (e : Edit) :
    b.overcount e + (b.apply e).deficit ≤ b.deficit + b.shortfall e := by
  cases e with
  | addBlock block =>
    have hsum := reserved_store block b.blocks
    show 0 + (((store block b.blocks).map StoredBlock.reserved).sum - (b.size + block.size)) ≤
      ((b.blocks.map StoredBlock.reserved).sum - b.size) +
        ((stored? b.blocks block.link).elim 0 (·.block.size) - block.size)
    rw [hsum]
    cases stored? b.blocks block.link with
    | none =>
      simp only [Option.elim_none]
      omega
    | some s =>
      simp only [Option.elim_some]
      omega
  | scrub rs =>
    show ((b.scrub rs).size - b.size) + (b.scrub rs).deficit ≤ b.deficit + 0
    unfold scrub
    simp only
    split
    · have hle : (b.forget rs).recount.size ≤ (b.blocks.map StoredBlock.reserved).sum :=
        (b.forget rs).size_recount_le
      -- the size that was counted anew is what is reserved
      have hexact : (b.forget rs).recount.deficit = 0 := Nat.sub_self _
      unfold deficit at hexact ⊢
      omega
    · have hsame : (b.forget rs).deficit = b.deficit := rfl
      have hsize : (b.forget rs).size = b.size := rfl
      omega
  | _ => exact (Nat.zero_add _).le

/-! ## Many edits -/

variable {b : Builder} {edits : List Edit}

theorem size_along (b : Builder) (edits : List Edit) :
    b.size + (edits.map Edit.bytes).sum + b.along overcount edits =
      (b.applyAll edits).size + b.freedBy edits := by
  induction edits generalizing b with
  | nil => rfl
  | cons e rest ih =>
    have hfirst := b.size_step e
    have hrest := ih (b.apply e)
    unfold freedBy at hrest ⊢
    rw [applyAll_cons, along, replies, List.map_cons, List.map_cons, List.sum_cons, List.sum_cons]
    omega

theorem deficit_along (b : Builder) (edits : List Edit) :
    b.along overcount edits + (b.applyAll edits).deficit ≤
      b.deficit + b.along shortfall edits := by
  induction edits generalizing b with
  | nil => exact (Nat.add_comm _ _).le
  | cons e rest ih =>
    have hfirst := b.deficit_step e
    have hrest := ih (b.apply e)
    rw [applyAll_cons, along, along]
    omega

/-- Where links determine lengths, no block is short. -/
theorem shortfall_eq_zero {len : Link → Nat} (h : b.Accounted len)
    (he : ∀ e ∈ edits, e.IsEven len) : b.along shortfall edits = 0 := by
  induction edits generalizing b with
  | nil => rfl
  | cons e rest ih =>
    obtain ⟨heven, hrest⟩ := List.forall_mem_cons.mp he
    have hone : ∀ e' ∈ [e], e'.IsEven len := List.forall_mem_singleton.mpr heven
    have happly : (b.apply e).Accounted len := h.applyAll_of_isEven hone
    rw [along, ih happly hrest, Nat.add_zero]
    cases e with
    | addBlock block =>
      show (stored? b.blocks block.link).elim 0 (·.block.size) - block.size = 0
      have hblock : block.size = len block.link := heven
      cases hs : stored? b.blocks block.link with
      | none => exact Nat.zero_sub _
      | some s =>
        have hstored := h.lengths s (mem_of_stored? hs)
        rw [link_of_stored? hs] at hstored
        rw [Option.elim_some, hstored, hblock, Nat.sub_self]
    | _ => rfl

/-- **What scrubs report.**  Whatever edits a new builder goes through, what was added and what
scrubs counted too much is in the size or was freed, and what they counted too much is at most what
payloads fell short of those stored under their links.  If none fell short, which is so if links
determine lengths, then a scrub never leaves a larger size, it reports exactly what the size loses,
and all bytes that were added are in the size or were freed. -/
theorem scrubs_report (t : Topic) (edits : List Edit) (rs : List RequestId) :
    let start : Builder := { topic := t }
    let b := start.applyAll edits
    (edits.map Edit.bytes).sum + start.along overcount edits = b.size + start.freedBy edits ∧
      start.along overcount edits + b.overcount (.scrub rs) ≤ start.along shortfall edits ∧
      (start.along shortfall edits = 0 →
        (b.scrub rs).size ≤ b.size ∧
        b.reply (.scrub rs) = .freed (b.size - (b.scrub rs).size) ∧
        (edits.map Edit.bytes).sum = b.size + start.freedBy edits) ∧
      ∀ len, (∀ e ∈ edits, e.IsEven len) → start.along shortfall edits = 0 := by
  intro start b
  have hsize : 0 + (edits.map Edit.bytes).sum + start.along overcount edits =
      b.size + start.freedBy edits := start.size_along edits
  have hdeficit : start.along overcount edits + b.deficit ≤ 0 + start.along shortfall edits :=
    start.deficit_along edits
  have hnext : b.overcount (.scrub rs) + (b.scrub rs).deficit ≤ b.deficit + 0 :=
    b.deficit_step (.scrub rs)
  refine ⟨by omega, by omega, fun hnone => ⟨?_, rfl, by omega⟩, fun len heven =>
    shortfall_eq_zero (accounted_new t) heven⟩
  have hzero : (b.scrub rs).size - b.size = 0 := by
    show b.overcount (.scrub rs) = 0
    omega
  omega

/-- A payload of one byte is added under the link of one of two bytes, and both are called present.
A scrub of another request frees nothing, but counts the two payloads as two bytes each. -/
theorem scrub_overcounts :
    let long : Block := .fill default 2 0
    let short : Block := .fill default 1 0
    let other : RequestId := ⟨Octets.fill 16 1⟩
    let edits : List Edit := [.addBlock long, .addLink default default .present, .addBlock short,
      .addLink default default .present, .setStatus other .requestAcknowledged]
    let start : Builder := { topic := Topic.first }
    let b := start.applyAll edits
    b.size = 3 ∧ (b.scrub [other]).size = 4 ∧ b.reply (.scrub [other]) = .freed 0 ∧
      ((edits ++ [Edit.scrub [other]]).map Edit.bytes).sum = 3 ∧
      start.freedBy (edits ++ [.scrub [other]]) = 0 ∧
      ¬ (b.scrub [other]).size ≤ b.size ∧
      ((edits ++ [Edit.scrub [other]]).map Edit.bytes).sum ≠
        (b.scrub [other]).size + start.freedBy (edits ++ [.scrub [other]]) := by
  decide +kernel

end Builder

end Outbox
