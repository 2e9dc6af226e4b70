import Outbox.Proofs.Queue.Passage

/-!
# Messages keep to the limit

The limit on the bytes of a message is about what is announced, while the size of a builder follows
what is added.  Where the two agree, whatever producers, scrubs and the worker do in turn, a message
carries more than the limit only if a single change was announced to be larger, and then all its
bytes are from that change.

* `Queue.MeasuredMove` — the edits that a move brings add what is announced for them;
* `Queue.Written.exists_builder` — every message that is sent was held by a builder that was taken;
* `Queue.KeepsToLimit` — what a run has to satisfy;
* `Queue.messages_keep_to_limit` — every run of measured moves satisfies it.
-/

namespace Outbox

/-- A chapter in which the send of a message begins is about the builder that held it. -/
theorem Chapter.message_of_mem {c : Chapter} {m : Message} (h : c.Proper)
    (hm : m ∈ c.text.filterMap Deed.message?) : c.builder.message? = some m := by
  have hopening (b : Builder) (d : Finished) :
      (Chapter.opening b d).filterMap Deed.message? = [] :=
    filterMap_opening _ _ _ (fun _ => rfl) rfl
  cases c with
  | skipped b => cases hm
  | sent b d =>
    have hsome : b.finish? = some d := h
    rw [text, List.filterMap_append, hopening] at hm
    rw [builder, Builder.message?, hsome, List.mem_singleton.mp hm]
    rfl
  | failed b d begun cause =>
    have hsome : b.finish? = some d := h.1
    rw [text, List.filterMap_append, hopening] at hm
    cases begun with
    | true =>
      rw [builder, Builder.message?, hsome, List.mem_singleton.mp hm]
      rfl
    | false => cases hm
  | drained b d =>
    rw [text, List.filterMap_cons, List.filterMap_append,
      filterMap_registered _ _ fun _ => rfl] at hm
    cases hm

namespace Queue

variable {len : Link → Nat} {start q q' : Queue} {moves : List Move}

/-- Every message that is sent was held by a builder that was taken. -/
theorem Written.exists_builder {told : List Chapter} (h : Written told q) {m : Message}
    (hm : m ∈ q.transmitted) : ∃ b ∈ q.taken, b.message? = some m := by
  obtain ⟨b, hdeeds, hbuilder⟩ := h.deeds
  rw [transmitted, hdeeds, List.filterMap_append] at hm
  rcases List.mem_append.mp hm with hm | hm
  · obtain ⟨a, ha, hmessage⟩ := List.mem_filterMap.mp hm
    obtain ⟨c, hc, hac⟩ := List.mem_flatMap.mp ha
    refine ⟨c.builder, ?_, Chapter.message_of_mem (h.proper c hc)
      (List.mem_filterMap.mpr ⟨a, hac, hmessage⟩)⟩
    rw [taken, hdeeds, List.filterMap_append, filterMap_text_builder]
    exact List.mem_append_left _ (List.mem_map_of_mem hc)
  · have hopening (d : Finished) : (Chapter.opening b d).filterMap Deed.message? = [] :=
      Chapter.filterMap_opening _ _ _ (fun _ => rfl) rfl
    -- the message under way is that of the builder that was taken last
    have hlast {d : Finished} (hd : q.worker.delivery? = some d) (hmd : m = d.message) :
        ∃ b ∈ q.taken, b.message? = some m := by
      obtain ⟨b', hf, htaken⟩ := h.taken_eq_concat hd
      refine ⟨b', htaken ▸ List.mem_append_right _ (List.mem_singleton_self _), ?_⟩
      rw [Builder.message?, hf, hmd]
      rfl
    cases hw : q.worker with
    | sending d =>
      rw [hw, Worker.draft, List.filterMap_append, hopening] at hm
      exact hlast (by rw [hw]; rfl) (List.mem_singleton.mp hm)
    | resetting d cause =>
      rw [hw, Worker.draft, List.filterMap_append, hopening] at hm
      exact hlast (by rw [hw]; rfl) (List.mem_singleton.mp hm)
    | opening d =>
      rw [hw, Worker.draft, hopening] at hm
      cases hm
    | _ =>
      rw [hw] at hm
      cases hm

/-! ## Measured moves -/

/-- The edits that a move asks to be carried out add what is announced for them. -/
def MeasuredMove (len : Link → Nat) (q : Queue) (m : Move) : Prop :=
  ∀ x ∈ q.asked? m, Measured len x.1 x.2

/-- The lists of edits that went to a topic, the one that opened its builder first. -/
def editsOf (q : Queue) (t : Topic) : List (List Edit) := editsFor t q.carriedOut

theorem along_append {P : Queue → Move → Prop} {moves' : List Move}
    (h : q.Along P (moves ++ moves')) : q.Along P moves ∧ (q.run moves).Along P moves' := by
  induction moves generalizing q with
  | nil => exact ⟨trivial, h⟩
  | cons m rest ih => exact ⟨⟨h.1, (ih h.2).1⟩, (ih h.2).2⟩

/-- In a run of measured moves the backlog goes through measured moves. -/
theorem measured_passage (h : q.Along (MeasuredMove len) moves) :
    ∃ bmoves, Passage q bmoves (q.run moves) ∧ ∀ m ∈ bmoves, m.IsMeasured len := by
  obtain ⟨bmoves, hpassage, hmeasured⟩ := run_passage h
  refine ⟨bmoves, hpassage, fun m hm => ?_⟩
  cases m with
  | mutate size edits => exact hmeasured size edits hm
  | _ => trivial

/-- After a run of measured moves every builder is bounded by the edits that went to its topic. -/
theorem IsNew.roomy (hnew : start.IsNew) (h : start.Along (MeasuredMove len) moves) :
    (start.run moves).backlog.Roomy len (start.run moves).taken (start.run moves).carriedOut := by
  obtain ⟨bmoves, hpassage, hmeasured⟩ := measured_passage h
  have hempty : start.backlog.Roomy len [] [] := Backlog.roomy_new hnew.builders_eq
  have hroomy := hempty.run hmeasured
  have hcarried : start.carriedOut = [] := by
    rw [carriedOut, hnew.log_eq]
    rfl
  have htaken : start.taken = [] := by
    rw [taken_eq_filterMap, hnew.log_eq]
    rfl
  rw [hpassage.backlog, hpassage.carriedOut, hpassage.taken, hcarried, htaken]
  exact hroomy

/-! ## Every run -/

/-- What a run of a new queue has to satisfy. -/
structure KeepsToLimit (start : Queue) (moves : List Move) : Prop where
  /-- A builder in line keeps to the limit, or the change that opened it is larger by itself and no
  other has added anything. -/
  line : ∀ b ∈ (start.run moves).backlog.builders,
    b.size ≤ maxBlockSize ∨ Oversized ((start.run moves).editsOf b.topic)
  /-- So does a message that is sent, and otherwise all its bytes are from that change. -/
  message : ∀ m ∈ (start.run moves).transmitted,
    ∃ b ∈ (start.run moves).taken, b.message? = some m ∧ (m.blockSize ≤ maxBlockSize ∨
      Oversized ((start.run moves).editsOf b.topic) ∧
        ∃ first ∈ (start.run moves).editsOf b.topic, maxBlockSize < Edit.total first ∧
          ∀ block ∈ m.blocks, block.size ≠ 0 → .addBlock block ∈ first)
  /-- A builder in line that keeps to the limit does so until it is gone. -/
  stays : ∀ before after, moves = before ++ after → ∀ b ∈ (start.run before).backlog.builders,
    b.size ≤ maxBlockSize → ∀ b' ∈ (start.run moves).backlog.builders ++ (start.run moves).taken,
      b'.topic = b.topic → b'.size ≤ maxBlockSize

/-- A builder that keeps to the limit at some time of a run keeps to it from then on. -/
theorem IsNew.stays_small (hnew : start.IsNew) {before after : List Move}
    (h : start.Along (MeasuredMove len) (before ++ after)) {b b' : Builder}
    (hb : b ∈ (start.run before).backlog.builders) (hsmall : b.size ≤ maxBlockSize)
    (hb' : b' ∈ (start.run (before ++ after)).backlog.builders ++
      (start.run (before ++ after)).taken) (htopic : b'.topic = b.topic) :
    b'.size ≤ maxBlockSize := by
  obtain ⟨hbefore, hafter⟩ := along_append h
  obtain ⟨hcapped, hothers⟩ := (hnew.roomy hbefore).capped hb hsmall
  obtain ⟨bmoves, hpassage, hmeasured⟩ := measured_passage hafter
  obtain ⟨hlater, hpopped⟩ := hcapped.run hmeasured
  rw [run_append, hpassage.backlog, hpassage.taken] at hb'
  rcases List.mem_append.mp hb' with hline | hgone
  · exact hlater.small b' hline htopic
  · rcases List.mem_append.mp hgone with hold | hnew
    · exact absurd htopic (hothers b' hold)
    · exact hpopped b' hnew htopic

/-- **Messages keep to the limit.**  In every run of a new queue in which edits add what is
announced for them, and links determine lengths, a builder exceeds the limit only through the change
that opened it; a message that is sent carries no more than the limit unless all its bytes are from
such a change; and a builder that keeps to the limit, be it after a scrub, never exceeds it again.
-/
theorem messages_keep_to_limit (hnew : start.IsNew) (h : start.Along (MeasuredMove len) moves) :
    KeepsToLimit start moves := by
  have hroomy := hnew.roomy h
  refine ⟨fun b hb => ?_, fun m hm => ?_, ?_⟩
  · exact (hroomy.bounded b (List.mem_append_right _ hb)).bound
  · obtain ⟨told, hwritten⟩ := hnew.written (Reachable.path ⟨moves, rfl⟩)
    obtain ⟨b, htaken, hmessage⟩ := hwritten.exists_builder hm
    obtain ⟨d, hf, rfl⟩ := Option.map_eq_some_iff.mp hmessage
    exact ⟨b, htaken, hmessage, (hroomy.bounded b (List.mem_append_left _ htaken)).message hf⟩
  · rintro before after rfl b hb hsmall b' hb' htopic
    exact hnew.stays_small h hb hsmall hb' htopic

/-- A change that is larger than the limit gets a builder of its own, which a change that adds
nothing joins; all bytes of its message are from the large one. -/
theorem messages_keep_to_limit_of_oversized :
    let start : Queue := { peer := Peer.zero, settings := {} }
    let big : List Edit := (List.range 129).map fun i =>
      .addBlock (Block.fill ⟨Octets.fill 32 (UInt8.ofNat i)⟩ 4096 1)
    let present : List Edit := [.addLink default default .present]
    let moves : List Move := [.reserve 0 528384 big, .reserve 1 0 present, .startup, .work none,
      .work (some .opened)]
    start.IsNew ∧ start.Along (MeasuredMove fun _ => 4096) moves ∧
      ∃ m ∈ (start.run moves).transmitted, maxBlockSize < m.blockSize ∧
        ∃ b ∈ (start.run moves).taken, b.message? = some m ∧
          Oversized ((start.run moves).editsOf b.topic) := by
  intro start big present moves
  have hbig : Measured (fun _ => 4096) 528384 big := by
    refine ⟨fun e he => ?_, by simp [Edit.total, big, Function.comp_def, Edit.bytes]⟩
    obtain ⟨i, -, rfl⟩ := List.mem_map.mp he
    exact Block.size_fill ..
  have hpresent : Measured (fun _ => 4096) 0 present :=
    ⟨fun e he => by rw [List.mem_singleton.mp he]; trivial, rfl⟩
  have hmoves : start.Along (MeasuredMove fun _ => 4096) moves := by
    refine ⟨?_, ?_, ?_, ?_, ?_, trivial⟩
    · rintro x ⟨⟩
      exact hbig
    · rintro x ⟨⟩
      exact hpresent
    all_goals rintro x ⟨⟩
  have hsent : ∃ m ∈ (start.run moves).transmitted, maxBlockSize < m.blockSize := by
    decide +kernel
  have hnew : start.IsNew := rfl
  -- the run has been computed once; the rest does not depend on what it is
  clear_value moves big present start
  obtain ⟨m, hm, hsize⟩ := hsent
  obtain ⟨b, htaken, hmessage, hbound⟩ := (messages_keep_to_limit hnew hmoves).message m hm
  refine ⟨hnew, hmoves, m, hm, hsize, b, htaken, hmessage, ?_⟩
  rcases hbound with hsmall | ⟨hoversized, -⟩
  · exact absurd hsmall (Nat.not_le_of_lt hsize)
  · exact hoversized

end Queue

end Outbox
