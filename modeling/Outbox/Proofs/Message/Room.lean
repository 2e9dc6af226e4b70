import Outbox.Proofs.Message.Run
import Outbox.Proofs.Message.Shelf

/-!
# How much a message carries

A change joins the last builder only if what is announced for it keeps the builder within the limit,
or if nothing is announced.  So a builder exceeds the limit only through the change that opened it,
and then no other change has added any bytes; and a builder that is within the limit, be it from the
start or because a scrub brought it there, stays there.

* `Edit.total`, `Measured` — the bytes that edits add, and edits that add what was announced;
* `Oversized` — the first of several lists of edits exceeds the limit, and the others add nothing;
* `Builder.Bounded` — a builder within the limit, or filled by one oversized change, with
  `Builder.Bounded.join`, `Builder.bounded_begin` and `Builder.Bounded.scrub`;
* `Backlog.carriedOut`, `Backlog.popped` — the edits carried out and the builders taken in a run;
* `Backlog.Roomy`, `Backlog.Roomy.run` — every builder of a run is bounded;
* `Backlog.Capped`, `Backlog.Capped.run` — a builder within the limit stays there.
-/

namespace Outbox

variable {len : Link → Nat}

/-! ## Edits that add what was announced -/

/-- The bytes that edits add. -/
def Edit.total (edits : List Edit) : Nat := (edits.map Edit.bytes).sum

/-- The edits add exactly `size` bytes, and links determine lengths.  They may scrub besides. -/
structure Measured (len : Link → Nat) (size : Nat) (edits : List Edit) : Prop where
  /-- Links determine lengths. -/
  even : ∀ e ∈ edits, e.IsEven len
  /-- The blocks have the size that was announced. -/
  total : Edit.total edits = size

/-- Of several lists of edits the first adds more than a message should carry, and the others add
nothing. -/
def Oversized : List (List Edit) → Prop
  | [] => False
  | edits :: others => maxBlockSize < Edit.total edits ∧ ∀ edits' ∈ others, Edit.total edits' = 0

theorem Oversized.concat {closures : List (List Edit)} {edits : List Edit}
    (h : Oversized closures) (hnone : Edit.total edits = 0) : Oversized (closures ++ [edits]) := by
  cases closures with
  | nil => exact h.elim
  | cons first others =>
    refine ⟨h.1, fun edits' hmem => ?_⟩
    rcases List.mem_append.mp hmem with hmem | hmem
    · exact h.2 edits' hmem
    · rw [List.mem_singleton.mp hmem]
      exact hnone

/-- A block that is not empty adds to the bytes of the edits that it stands among. -/
theorem Edit.size_le_total {block : Block} {edits : List Edit} (h : .addBlock block ∈ edits) :
    block.size ≤ Edit.total edits :=
  List.single_le_sum (fun _ _ => Nat.zero_le _) _ (List.mem_map_of_mem (f := Edit.bytes) h)

/-- All blocks come from the change that is too large, but for blocks without bytes. -/
theorem Oversized.source {closures : List (List Edit)} (h : Oversized closures) :
    ∃ first ∈ closures, maxBlockSize < Edit.total first ∧
      ∀ edits ∈ closures, ∀ block, .addBlock block ∈ edits → block.size ≠ 0 →
        .addBlock block ∈ first := by
  cases closures with
  | nil => exact h.elim
  | cons first others =>
    refine ⟨first, List.mem_cons_self .., h.1, fun edits hedits block hblock hsize => ?_⟩
    rcases List.mem_cons.mp hedits with rfl | hedits
    · exact hblock
    · have hle := Edit.size_le_total hblock
      have hnone := h.2 edits hedits
      omega

/-! ## Builders -/

namespace Builder

variable {b : Builder} {edits : List Edit} {closures : List (List Edit)}

/-- Edits add at most their bytes; less is left if they scrub. -/
theorem Accounted.size_applyAll_le (h : b.Accounted len) (he : ∀ e ∈ edits, e.IsEven len) :
    (b.applyAll edits).size ≤ b.size + Edit.total edits := by
  induction edits generalizing b with
  | nil => exact Nat.le_add_right ..
  | cons e edits ih =>
    obtain ⟨heven, hrest⟩ := List.forall_mem_cons.mp he
    have hfirst : (b.apply e).Accounted len ∧ (b.apply e).size ≤ b.size + e.bytes := by
      cases e with
      | addBlock block =>
        obtain ⟨hacc, hsize⟩ := h.apply (e := .addBlock block) heven
        exact ⟨hacc, hsize.le⟩
      | scrub rs => exact h.scrub rs
      | _ => exact ⟨⟨h.lengths, h.size⟩, Nat.le_add_right ..⟩
    have hall := ih hfirst.1 hrest
    rw [applyAll_cons]
    simp only [Edit.total, List.map_cons, List.sum_cons] at hall ⊢
    omega

/-- The payloads that a builder stores. -/
def payloads (b : Builder) : List Block := b.blocks.map StoredBlock.block

theorem payloads_scrub_subset (b : Builder) (rs : List RequestId) :
    (b.scrub rs).payloads ⊆ b.payloads := by
  unfold scrub payloads
  simp only
  split
  · intro block hblock
    obtain ⟨s, hs, rfl⟩ := List.mem_map.mp hblock
    obtain ⟨s', hs', rfl⟩ := List.mem_map.mp hs
    exact List.mem_map.mpr ⟨s', List.mem_of_mem_filter hs', rfl⟩
  · exact List.Subset.refl _

theorem mem_payloads_apply {e : Edit} {block : Block} (h : block ∈ (b.apply e).payloads) :
    block ∈ b.payloads ∨ e = .addBlock block := by
  cases e with
  | addBlock block' =>
    have hstore : block ∈ (store block' b.blocks).map StoredBlock.block := h
    rw [map_block_store] at hstore
    split at hstore
    · exact .inl hstore
    · rcases List.mem_append.mp hstore with hstore | hstore
      · exact .inl hstore
      · exact .inr (by rw [List.mem_singleton.mp hstore])
  | scrub rs => exact .inl (b.payloads_scrub_subset rs h)
  | _ => exact .inl h

/-- What a builder stores after edits was stored before or is added by one of them. -/
theorem mem_payloads_applyAll {block : Block} (h : block ∈ (b.applyAll edits).payloads) :
    block ∈ b.payloads ∨ .addBlock block ∈ edits := by
  induction edits generalizing b with
  | nil => exact .inl h
  | cons e edits ih =>
    rcases ih h with h | h
    · rcases mem_payloads_apply h with h | rfl
      · exact .inl h
      · exact .inr (List.mem_cons_self ..)
    · exact .inr (List.mem_cons_of_mem _ h)

/-- The builder is filled by these lists of edits, and keeps to the limit unless the one that opened
it exceeds the limit by itself and no other has added anything. -/
structure Bounded (len : Link → Nat) (closures : List (List Edit)) (b : Builder) : Prop where
  /-- The builder has its size. -/
  accounted : b.Accounted len
  /-- The payloads are part of the size. -/
  tidy : b.Tidy
  /-- Each payload was added by one of the edits. -/
  source : ∀ block ∈ b.payloads, ∃ edits ∈ closures, .addBlock block ∈ edits
  /-- The limit is kept, or there is an excuse. -/
  bound : b.size ≤ maxBlockSize ∨ Oversized closures

/-- Edits that open a builder may exceed the limit. -/
theorem bounded_begin (t : Topic) (he : ∀ e ∈ edits, e.IsEven len) :
    (({ topic := t } : Builder).applyAll edits).Bounded len [edits] := by
  have hnew : ({ topic := t } : Builder).Accounted len := accounted_new t
  refine ⟨hnew.applyAll_of_isEven he, (tidy_new t).applyAll edits, fun block hblock => ?_, ?_⟩
  · refine ⟨edits, List.mem_singleton_self _, ?_⟩
    exact (mem_payloads_applyAll hblock).resolve_left List.not_mem_nil
  · have hsize := hnew.size_applyAll_le he
    by_cases hle : Edit.total edits ≤ maxBlockSize
    · refine .inl (hsize.trans ?_)
      simpa using hle
    · exact .inr ⟨Nat.lt_of_not_le hle, List.forall_mem_nil _⟩

/-- A builder that other edits may join is within the limit afterwards if they add anything. -/
theorem size_join_le {size : Nat} (h : b.Accounted len) (he : Measured len size edits)
    (hfit : Backlog.overflows b size = false) :
    Edit.total edits = 0 ∧ (b.applyAll edits).size ≤ b.size ∨
      (b.applyAll edits).size ≤ maxBlockSize := by
  have hsize := h.size_applyAll_le he.even
  have htotal := he.total
  simp only [Backlog.overflows, decide_eq_false_iff_not, not_and] at hfit
  by_cases hzero : size = 0
  · exact .inl ⟨htotal.trans hzero, by omega⟩
  · have := hfit (Nat.pos_of_ne_zero hzero)
    exact .inr (by omega)

theorem Bounded.join {size : Nat} (h : b.Bounded len closures) (he : Measured len size edits)
    (hfit : Backlog.overflows b size = false) :
    (b.applyAll edits).Bounded len (closures ++ [edits]) := by
  refine ⟨h.accounted.applyAll_of_isEven he.even, h.tidy.applyAll edits, fun block hblock => ?_, ?_⟩
  · rcases mem_payloads_applyAll hblock with hold | hnew
    · obtain ⟨edits', hmem, hblock'⟩ := h.source block hold
      exact ⟨edits', List.mem_append_left _ hmem, hblock'⟩
    · exact ⟨edits, List.mem_append_right _ (List.mem_singleton_self _), hnew⟩
  · rcases size_join_le h.accounted he hfit with ⟨hzero, hle⟩ | hle
    · exact h.bound.imp hle.trans fun hover => hover.concat hzero
    · exact .inl hle

theorem Bounded.scrub (h : b.Bounded len closures) (rs : List RequestId) :
    (b.scrub rs).Bounded len closures := by
  obtain ⟨hacc, hle⟩ := h.accounted.scrub rs
  exact ⟨hacc, h.tidy.scrub rs, fun block hblock =>
    h.source block (b.payloads_scrub_subset rs hblock), h.bound.imp_left hle.trans⟩

/-- The message of a bounded builder keeps to the limit, or all its bytes come from one change that
exceeds the limit by itself. -/
theorem Bounded.message {d : Finished} (h : b.Bounded len closures) (hf : b.finish? = some d) :
    d.message.blockSize ≤ maxBlockSize ∨ Oversized closures ∧ ∃ first ∈ closures,
      maxBlockSize < Edit.total first ∧
        ∀ block ∈ d.message.blocks, block.size ≠ 0 → .addBlock block ∈ first := by
  have hblocks := blocks_of_finish? hf
  have hsize : d.message.blockSize ≤ b.size := by
    rw [Message.blockSize, hblocks, List.map_map]
    exact h.tidy.payloads
  refine h.bound.imp hsize.trans fun hover => ⟨hover, ?_⟩
  obtain ⟨first, hfirst, hlarge, hsource⟩ := hover.source
  refine ⟨first, hfirst, hlarge, fun block hblock hne => ?_⟩
  rw [hblocks] at hblock
  obtain ⟨edits, hedits, hadd⟩ := h.source block hblock
  exact hsource edits hedits block hadd hne

end Builder

/-! ## Runs -/

/-- The lists of edits that went to a topic. -/
def editsFor (t : Topic) (entries : List (Topic × List Edit)) : List (List Edit) :=
  (entries.filter (·.1 = t)).map Prod.snd

theorem editsFor_concat_self (entries : List (Topic × List Edit)) (t : Topic) (edits : List Edit) :
    editsFor t (entries ++ [(t, edits)]) = editsFor t entries ++ [edits] := by
  simp [editsFor]

theorem editsFor_concat_of_ne {t t' : Topic} (h : t' ≠ t) (entries : List (Topic × List Edit))
    (edits : List Edit) : editsFor t (entries ++ [(t', edits)]) = editsFor t entries := by
  simp [editsFor, h]

/-- The move's edits add what is announced for them. -/
def BacklogMove.IsMeasured (len : Link → Nat) : BacklogMove → Prop
  | .mutate size edits => Measured len size edits
  | _ => True

namespace Backlog

variable {q q' : Backlog} {m : BacklogMove} {moves : List BacklogMove}
  {gone : List Builder} {done : List (Topic × List Edit)}

/-- The edits that a move carries out, with the topic that they go to. -/
def carriedOut? (q : Backlog) : BacklogMove → Option (Topic × List Edit)
  | .mutate size edits => (q.mutate size edits).toOption.map fun r => (r.1.topic, edits)
  | _ => none

/-- The builder that a move takes. -/
def popped? (q : Backlog) : BacklogMove → Option Builder
  | .pop => q.pop?.map Prod.fst
  | _ => none

/-- The edits carried out in a run, with the topics that they go to. -/
def carriedOut (q : Backlog) : List BacklogMove → List (Topic × List Edit)
  | [] => []
  | m :: rest => (q.carriedOut? m).toList ++ (q.step m).carriedOut rest

/-- The builders taken in a run. -/
def popped (q : Backlog) : List BacklogMove → List Builder
  | [] => []
  | m :: rest => (q.popped? m).toList ++ (q.step m).popped rest

theorem run_append (q : Backlog) (moves moves' : List BacklogMove) :
    q.run (moves ++ moves') = (q.run moves).run moves' := List.foldl_append

theorem carriedOut_append (q : Backlog) (moves moves' : List BacklogMove) :
    q.carriedOut (moves ++ moves') = q.carriedOut moves ++ (q.run moves).carriedOut moves' := by
  induction moves generalizing q with
  | nil => rfl
  | cons m rest ih =>
    rw [List.cons_append, carriedOut, carriedOut, ih, run_cons, List.append_assoc]

theorem popped_append (q : Backlog) (moves moves' : List BacklogMove) :
    q.popped (moves ++ moves') = q.popped moves ++ (q.run moves).popped moves' := by
  induction moves generalizing q with
  | nil => rfl
  | cons m rest ih => rw [List.cons_append, popped, popped, ih, run_cons, List.append_assoc]

/-- What a move does to the builders in line, to those taken and to the edits carried out. -/
inductive Deal (q : Backlog) : BacklogMove → Option (Topic × List Edit) → Option Builder →
    Backlog → Prop
  /-- Edits are carried out. -/
  | mutated {size : Nat} {edits : List Edit} {report : EditReport} {q' : Backlog}
      (hm : Mutation q size edits (.ok (report, q'))) :
      Deal q (.mutate size edits) (some (report.topic, edits)) none q'
  /-- The first builder is taken. -/
  | popped {b : Builder} {rest : List Builder} (hb : q.builders = b :: rest) :
      Deal q .pop none (some b) { q with builders := rest }
  /-- Requests are scrubbed. -/
  | scrubbed (rs : List RequestId) : Deal q (.scrub rs) none none (q.scrub rs)
  /-- The line is closed. -/
  | closed : Deal q .close none none q.close
  /-- The move is not possible. -/
  | idle (m : BacklogMove) : Deal q m none none q

theorem step_deal (q : Backlog) (m : BacklogMove) :
    Deal q m (q.carriedOut? m) (q.popped? m) (q.step m) := by
  cases m with
  | mutate size edits =>
    have hm := q.mutate_mutation size edits
    cases hr : q.mutate size edits with
    | error e =>
      have hnone : q.carriedOut? (.mutate size edits) = none := by
        simp [carriedOut?, hr, Except.toOption]
      have hsame : q.step (.mutate size edits) = q := by simp [step, hr]
      rw [hnone, hsame]
      exact .idle _
    | ok result =>
      obtain ⟨report, q'⟩ := result
      rw [hr] at hm
      have hsome : q.carriedOut? (.mutate size edits) = some (report.topic, edits) := by
        simp [carriedOut?, hr, Except.toOption]
      have hstep : q.step (.mutate size edits) = q' := by simp [step, hr]
      rw [hsome, hstep]
      exact .mutated hm
  | pop =>
    cases hb : q.builders with
    | nil =>
      have hpop : q.pop? = none := by rw [pop?, hb]
      have hsame : q.step .pop = q := by simp [step, hpop]
      rw [hsame, popped?, hpop]
      exact .idle _
    | cons b rest =>
      have hpop : q.pop? = some (b, { q with builders := rest }) := by rw [pop?, hb]
      have hstep : q.step .pop = { q with builders := rest } := by simp [step, hpop]
      rw [hstep, popped?, hpop]
      exact .popped hb
  | scrub rs => exact .scrubbed rs
  | close => exact .closed

/-! ## Every builder is bounded -/

/-- Every builder, in line or taken, is bounded by the edits that went to its topic. -/
structure Roomy (len : Link → Nat) (gone : List Builder) (done : List (Topic × List Edit))
    (q : Backlog) : Prop where
  /-- The builders in line come after those taken. -/
  order : q.ComesAfter (gone.map Builder.topic)
  /-- No edits went to a topic that was not handed out. -/
  fresh : ∀ x ∈ done, ∀ n ∈ q.nextTopic, x.1.Before n
  /-- Every builder is bounded. -/
  bounded : ∀ b ∈ gone ++ q.builders, b.Bounded len (editsFor b.topic done)

theorem roomy_new (h : q.builders = []) : q.Roomy len [] [] := by
  have htopics : q.topics = [] := by rw [topics, h, List.map_nil]
  refine ⟨⟨?_, ?_⟩, List.forall_mem_nil _, ?_⟩
  · rw [htopics]
    exact .nil
  · rw [htopics]
    rintro n - t ⟨⟩
  · rw [h]
    exact List.forall_mem_nil _

/-- Edits go to one topic, and all builders with another one are left as they are. -/
theorem Roomy.mutate {size : Nat} {edits : List Edit} {report : EditReport}
    (h : q.Roomy len gone done) (he : Measured len size edits)
    (hm : Mutation q size edits (.ok (report, q'))) :
    q'.Roomy len gone (done ++ [(report.topic, edits)]) := by
  have horder := h.order.follows hm.follows
  cases hm with
  | @join front b hb hfit =>
    have hb' : gone ++ q.builders = gone ++ front ++ [b] := by rw [hb, List.append_assoc]
    have hbounded := h.bounded
    rw [hb'] at hbounded
    -- the last builder has a topic of its own
    have hbefore : ∀ b' ∈ gone ++ front, b'.topic.Before b.topic := by
      intro b' hmem
      have hincreasing := h.order.increasing
      rw [topics, hb, List.map_append, ← List.append_assoc, ← List.map_append] at hincreasing
      exact (List.pairwise_append.mp hincreasing).2.2 _ (List.mem_map_of_mem hmem) _
        (List.mem_singleton_self _)
    refine ⟨horder, fun x hx n hn => ?_, fun b' hmem => ?_⟩
    · rcases List.mem_append.mp hx with hx | hx
      · exact h.fresh x hx n hn
      · rw [List.mem_singleton.mp hx]
        refine h.order.next n hn _ (List.mem_append_right _ ?_)
        rw [topics, hb]
        simp [report]
    · rw [← List.append_assoc] at hmem
      rcases List.mem_append.mp hmem with hmem | hmem
      · rw [report, editsFor_concat_of_ne (hbefore b' hmem).ne.symm]
        exact hbounded b' (List.mem_append_left _ hmem)
      · rw [List.mem_singleton.mp hmem, Builder.applyAll_topic]
        refine (editsFor_concat_self done b.topic edits).symm ▸ ?_
        exact (hbounded b (List.mem_append_right _ (List.mem_singleton_self _))).join he hfit
  | @begin t hnew ht =>
    have hnone : editsFor t done = [] := by
      refine List.map_eq_nil_iff.mpr (List.filter_eq_nil_iff.mpr fun x hx => ?_)
      simpa using (h.fresh x hx t ht).ne
    refine ⟨horder, fun x hx n hn => ?_, fun b' hmem => ?_⟩
    · have htn := Topic.before_next hn
      rcases List.mem_append.mp hx with hx | hx
      · exact (h.fresh x hx t ht).trans htn
      · rw [List.mem_singleton.mp hx]
        exact htn
    · rw [← List.append_assoc] at hmem
      rcases List.mem_append.mp hmem with hmem | hmem
      · have hbefore : b'.topic.Before t := by
          refine h.order.next t ht _ ?_
          rw [topics, ← List.map_append]
          exact List.mem_map_of_mem hmem
        rw [report, editsFor_concat_of_ne hbefore.ne.symm]
        exact h.bounded b' hmem
      · rw [List.mem_singleton.mp hmem, Builder.applyAll_topic]
        refine (editsFor_concat_self done t edits).symm ▸ ?_
        rw [hnone, List.nil_append]
        exact Builder.bounded_begin t he.even

theorem Roomy.step (h : q.Roomy len gone done) (hm : m.IsMeasured len) :
    (q.step m).Roomy len (gone ++ (q.popped? m).toList) (done ++ (q.carriedOut? m).toList) := by
  have hdeal := q.step_deal m
  generalize q.carriedOut? m = x, q.popped? m = y, q.step m = q' at hdeal
  cases hdeal with
  | mutated hmutation =>
    rw [Option.toList_none, List.append_nil]
    exact h.mutate hm hmutation
  | @popped b rest hb =>
    rw [Option.toList_none, List.append_nil]
    refine ⟨?_, h.fresh, fun b' hmem => h.bounded b' ?_⟩
    · rw [List.map_append]
      exact h.order.take hb
    · rw [hb]
      simpa using hmem
  | scrubbed rs =>
    rw [Option.toList_none, Option.toList_none, List.append_nil, List.append_nil]
    refine ⟨h.order.follows (q.follows_scrub rs), h.fresh, fun b' hmem => ?_⟩
    rcases List.mem_append.mp hmem with hmem | hmem
    · exact h.bounded b' (List.mem_append_left _ hmem)
    · obtain ⟨⟨b, hb, rfl⟩, -⟩ := mem_scrub.mp hmem
      rw [Builder.scrub_topic]
      exact (h.bounded b (List.mem_append_right _ hb)).scrub rs
  | closed =>
    rw [Option.toList_none, Option.toList_none, List.append_nil, List.append_nil]
    refine ⟨h.order.close, h.fresh, fun b' hmem => h.bounded b' ?_⟩
    exact List.mem_append_left _ ((List.mem_append.mp hmem).resolve_right List.not_mem_nil)
  | idle m =>
    rw [Option.toList_none, Option.toList_none, List.append_nil, List.append_nil]
    exact h

/-- Whatever is done to the line, every builder is bounded by the edits that went to its topic. -/
theorem Roomy.run (h : q.Roomy len gone done) (hm : ∀ m ∈ moves, m.IsMeasured len) :
    (q.run moves).Roomy len (gone ++ q.popped moves) (done ++ q.carriedOut moves) := by
  induction moves generalizing q gone done with
  | nil =>
    rw [popped, carriedOut, List.append_nil, List.append_nil]
    exact h
  | cons m rest ih =>
    obtain ⟨hfirst, hrest⟩ := List.forall_mem_cons.mp hm
    rw [popped, carriedOut, ← List.append_assoc, ← List.append_assoc]
    exact ih (h.step hfirst) hrest

/-! ## A builder within the limit stays there -/

/-- The builder with this topic, if it is in line, is within the limit, and there will not be
another one. -/
structure Capped (len : Link → Nat) (t : Topic) (q : Backlog) : Prop where
  /-- Every builder has its size. -/
  accounted : q.Accounted len
  /-- The topic was handed out before. -/
  past : ∀ n ∈ q.nextTopic, t.Before n
  /-- The builder is within the limit. -/
  small : ∀ b ∈ q.builders, b.topic = t → b.size ≤ maxBlockSize

variable {t : Topic}

theorem Capped.step (h : q.Capped len t) (hm : m.IsMeasured len) :
    (q.step m).Capped len t ∧ ∀ b ∈ q.popped? m, b.topic = t → b.size ≤ maxBlockSize := by
  have hdeal := q.step_deal m
  generalize q.carriedOut? m = x, q.popped? m = y, q.step m = q' at hdeal
  cases hdeal with
  | @mutated size edits report q' hmutation =>
    have he : Measured len size edits := hm
    refine ⟨?_, fun b hb => nomatch hb⟩
    cases hmutation with
    | @join front b hb hfit =>
      have hlast : b ∈ q.builders := hb ▸ List.mem_append_right _ (List.mem_singleton_self _)
      have hfront {b' : Builder} (hmem : b' ∈ front) : b' ∈ q.builders :=
        hb ▸ List.mem_append_left _ hmem
      refine ⟨fun b' hmem => ?_, h.past, fun b' hmem htopic => ?_⟩
      · rcases List.mem_append.mp hmem with hmem | hmem
        · exact h.accounted b' (hfront hmem)
        · rw [List.mem_singleton.mp hmem]
          exact (h.accounted b hlast).applyAll_of_isEven he.even
      · rcases List.mem_append.mp hmem with hmem | hmem
        · exact h.small b' (hfront hmem) htopic
        · rw [List.mem_singleton.mp hmem] at htopic ⊢
          rw [Builder.applyAll_topic] at htopic
          rcases Builder.size_join_le (h.accounted b hlast) he hfit with ⟨-, hle⟩ | hle
          · exact hle.trans (h.small b hlast htopic)
          · exact hle
    | @begin t' hnew ht =>
      refine ⟨fun b' hmem => ?_, fun n hn => ?_, fun b' hmem htopic => ?_⟩
      · rcases List.mem_append.mp hmem with hmem | hmem
        · exact h.accounted b' hmem
        · rw [List.mem_singleton.mp hmem]
          exact (Builder.accounted_new t').applyAll_of_isEven he.even
      · exact (h.past t' ht).trans (Topic.before_next hn)
      · rcases List.mem_append.mp hmem with hmem | hmem
        · exact h.small b' hmem htopic
        · rw [List.mem_singleton.mp hmem, Builder.applyAll_topic] at htopic
          exact absurd htopic.symm (h.past t' ht).ne
  | @popped b rest hb =>
    have hmem {b' : Builder} (hb' : b' ∈ b :: rest) : b' ∈ q.builders := hb ▸ hb'
    refine ⟨⟨fun b' hb' => h.accounted b' (hmem (List.mem_cons_of_mem _ hb')), h.past,
      fun b' hb' => h.small b' (hmem (List.mem_cons_of_mem _ hb'))⟩, fun b' hb' => ?_⟩
    cases hb'
    exact h.small b (hmem (List.mem_cons_self ..))
  | scrubbed rs =>
    refine ⟨⟨(bytes_scrub h.accounted rs).1, h.past, fun b' hb' htopic => ?_⟩,
      fun b hb => nomatch hb⟩
    obtain ⟨⟨b, hb, rfl⟩, -⟩ := mem_scrub.mp hb'
    rw [Builder.scrub_topic] at htopic
    exact ((h.accounted b hb).scrub rs).2.trans (h.small b hb htopic)
  | closed =>
    exact ⟨⟨List.forall_mem_nil _, h.past, List.forall_mem_nil _⟩, fun b hb => nomatch hb⟩
  | idle m => exact ⟨h, fun b hb => nomatch hb⟩

/-- A builder in line that is within the limit is the only one with its topic. -/
theorem Roomy.capped (h : q.Roomy len gone done) {b : Builder} (hb : b ∈ q.builders)
    (hsmall : b.size ≤ maxBlockSize) :
    q.Capped len b.topic ∧ ∀ b' ∈ gone, b'.topic ≠ b.topic := by
  obtain ⟨-, hincreasing, hacross⟩ := List.pairwise_append.mp h.order.increasing
  have hmem : b.topic ∈ q.topics := List.mem_map_of_mem hb
  have hnodup : q.topics.Nodup := hincreasing.imp Topic.Before.ne
  refine ⟨⟨fun b' hb' => (h.bounded b' (List.mem_append_right _ hb')).accounted, fun n hn =>
    h.order.next n hn _ (List.mem_append_right _ hmem), fun b' hb' htopic => ?_⟩, fun b' hb' => ?_⟩
  · rw [List.inj_on_of_nodup_map hnodup hb' hb htopic]
    exact hsmall
  · exact (hacross _ (List.mem_map_of_mem hb') _ hmem).ne

/-- A builder that is within the limit is so until it is gone. -/
theorem Capped.run (h : q.Capped len t) (hm : ∀ m ∈ moves, m.IsMeasured len) :
    (q.run moves).Capped len t ∧ ∀ b ∈ q.popped moves, b.topic = t → b.size ≤ maxBlockSize := by
  induction moves generalizing q with
  | nil => exact ⟨h, List.forall_mem_nil _⟩
  | cons m rest ih =>
    obtain ⟨hfirst, hrest⟩ := List.forall_mem_cons.mp hm
    obtain ⟨hstep, hpopped⟩ := h.step hfirst
    obtain ⟨hrun, hlater⟩ := ih hstep hrest
    refine ⟨hrun, fun b hb => ?_⟩
    rcases List.mem_append.mp hb with hb | hb
    · exact hpopped b (Option.mem_toList.mp hb)
    · exact hlater b hb

end Backlog

end Outbox
