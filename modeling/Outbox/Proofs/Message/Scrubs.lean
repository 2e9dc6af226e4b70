import Outbox.Proofs.Message.Run
import Outbox.Proofs.Message.Standing
import Outbox.Proofs.Message.Watchers

/-!
# Scrubs one after the other

A scrub that finds nothing leaves blocks and size alone, and any other scrub counts them anew; so
two scrubs can count twice, once or not at all.  It makes no difference: a block that is counted
twice ends with what the second count says, and the second count is never the larger one.  Two
scrubs are therefore one scrub of all their requests, for a builder and for a whole line of
builders, and what they free adds up.

* `Builder.counted` — the blocks that a count leaves, with `Builder.counted_counted`;
* `Builder.scrub_scrub`, `Builder.scrub_congr` — scrubs of one builder;
* `Builder.scrubFrees_append` — what they free;
* `Backlog.scrub_scrub`, `Backlog.scrubFrees_append` — scrubs of a line of builders;
* `Backlog.scrubs_compose` — all of it, in every backlog that a run leads to.
-/

namespace Outbox

variable {xs ys : List RequestId} {len : Link → Nat}

namespace Builder

/-! ## Counting twice -/

/-- The blocks that have a count, with at most as many contributions. -/
def counted (count : Link → Nat) (blocks : List StoredBlock) : List StoredBlock :=
  (blocks.filter (fun s => 0 < count s.block.link)).map (fun s => s.capped (count s.block.link))

theorem counted_cons (count : Link → Nat) (s : StoredBlock) (rest : List StoredBlock) :
    counted count (s :: rest) =
      if 0 < count s.block.link then s.capped (count s.block.link) :: counted count rest
      else counted count rest := by
  unfold counted
  by_cases hpos : 0 < count s.block.link
  · rw [if_pos hpos, List.filter_cons_of_pos (by simpa using hpos), List.map_cons]
  · rw [if_neg hpos, List.filter_cons_of_neg (by simpa using hpos)]

/-- Of two counts the second one decides, if it is not the larger one. -/
theorem counted_counted {count count' : Link → Nat} (h : ∀ link, count' link ≤ count link)
    (blocks : List StoredBlock) :
    counted count' (counted count blocks) = counted count' blocks := by
  induction blocks with
  | nil => rfl
  | cons s rest ih =>
    have hle := h s.block.link
    rw [counted_cons count, counted_cons count']
    by_cases hpos' : 0 < count' s.block.link
    · have hcap : (s.capped (count s.block.link)).capped (count' s.block.link) =
          s.capped (count' s.block.link) := by
        simp only [StoredBlock.capped, Nat.min_assoc, Nat.min_eq_right hle]
      rw [if_pos (lt_of_lt_of_le hpos' hle), if_pos hpos', counted_cons, ih]
      show (if 0 < count' s.block.link then _ else _) = _
      rw [if_pos hpos']
      exact congrArg (· :: _) hcap
    · rw [if_neg hpos']
      split
      · rw [counted_cons, ih]
        exact if_neg hpos'
      · exact ih

/-! ## Scrubs of one builder -/

theorem forget_forget (b : Builder) (xs ys : List RequestId) :
    (b.forget xs).forget ys = b.forget (xs ++ ys) := by
  simp only [forget, Dict.eraseAll_eraseAll]

/-- Counting before more is forgotten makes no difference for the count after it. -/
theorem recount_forget_recount (b : Builder) (ys : List RequestId) :
    (b.recount.forget ys).recount = (b.forget ys).recount := by
  have hblocks : (b.recount.forget ys).recount.blocks = (b.forget ys).recount.blocks :=
    counted_counted (b.presentCount_forget_le ys) b.blocks
  have hsize : (b.recount.forget ys).recount.size = (b.forget ys).recount.size :=
    congrArg (fun blocks => (blocks.map StoredBlock.reserved).foldr (· + ·) 0) hblocks
  calc (b.recount.forget ys).recount
      = { (b.forget ys).recount with
          blocks := (b.recount.forget ys).recount.blocks
          size := (b.recount.forget ys).recount.size } := rfl
    _ = (b.forget ys).recount := by rw [hblocks, hsize]

/-- Forgetting requests takes their responses and no others. -/
theorem hasResponse_forget (b : Builder) (xs : List RequestId) (r : RequestId) :
    (b.forget xs).hasResponse r = (!xs.contains r && b.hasResponse r) := by
  simp only [hasResponse, forget, Dict.contains, Dict.get?_eraseAll]
  by_cases hr : r ∈ xs <;> simp [hr]

theorem hasResponse_scrub_eq (b : Builder) (xs : List RequestId) (r : RequestId) :
    (b.scrub xs).hasResponse r = (!xs.contains r && b.hasResponse r) := by
  rw [← hasResponse_forget]
  unfold scrub
  simp only
  split <;> rfl

/-- A response is found among all requests if it is found among the first ones, or afterwards among
the others. -/
theorem any_hasResponse_append (b : Builder) (xs ys : List RequestId) :
    (xs ++ ys).any b.hasResponse =
      (xs.any b.hasResponse || ys.any (b.scrub xs).hasResponse) := by
  rw [Bool.eq_iff_iff, Bool.or_eq_true]
  simp only [List.any_eq_true, List.mem_append, hasResponse_scrub_eq, Bool.and_eq_true,
    Bool.not_eq_true', List.contains_eq_mem, decide_eq_false_iff_not]
  constructor
  · rintro ⟨r, hr, hresponse⟩
    by_cases hx : r ∈ xs
    · exact .inl ⟨r, hx, hresponse⟩
    · exact .inr ⟨r, hr.resolve_left hx, hx, hresponse⟩
  · rintro (⟨r, hr, hresponse⟩ | ⟨r, hr, -, hresponse⟩)
    · exact ⟨r, .inl hr, hresponse⟩
    · exact ⟨r, .inr hr, hresponse⟩

/-- Two scrubs are one scrub of all their requests. -/
theorem scrub_scrub (b : Builder) (xs ys : List RequestId) :
    (b.scrub xs).scrub ys = b.scrub (xs ++ ys) := by
  have hany := b.any_hasResponse_append xs ys
  cases hx : xs.any b.hasResponse with
  | false =>
    -- the first scrub finds nothing, and the second one decides
    have hscrub : b.scrub xs = b.forget xs := if_neg (by simp [hx])
    rw [hscrub, hx, Bool.false_or] at hany
    rw [hscrub, scrub, scrub, hany, forget_forget]
  | true =>
    have hscrub : b.scrub xs = (b.forget xs).recount := if_pos hx
    have hall : b.scrub (xs ++ ys) = (b.forget (xs ++ ys)).recount :=
      if_pos (by rw [hany, hx, Bool.true_or])
    rw [hall, ← forget_forget]
    cases hy : ys.any (b.scrub xs).hasResponse with
    | true =>
      have hagain : (b.scrub xs).scrub ys = ((b.scrub xs).forget ys).recount := if_pos hy
      rw [hagain, hscrub, recount_forget_recount]
    | false =>
      -- the second scrub finds nothing, so nothing is said about links for its requests
      have hagain : (b.scrub xs).scrub ys = (b.scrub xs).forget ys := if_neg (by simp [hy])
      have hlinks : ((b.forget xs).forget ys).links = (b.forget xs).links := by
        have hnone : ¬ ys.any (b.scrub xs).hasResponse = true := by simp [hy]
        have huntouched := forget_links_of_untouched hnone
        rwa [hscrub] at huntouched
      have hcount : ((b.forget xs).forget ys).presentCount = (b.forget xs).presentCount :=
        funext (presentCount_congr hlinks)
      rw [hagain, hscrub]
      simp only [recount, hcount]
      rfl

/-- The order of the requests, and how often they are listed, makes no difference. -/
theorem scrub_congr (b : Builder) (h : ∀ r, r ∈ xs ↔ r ∈ ys) : b.scrub xs = b.scrub ys := by
  have hforget : b.forget xs = b.forget ys := by
    have hcontains : (fun r => !xs.contains r) = fun r => !ys.contains r := by
      funext r
      simp only [List.contains_eq_mem, h r]
    simp only [forget, Dict.eraseAll, hcontains]
  have hany : xs.any b.hasResponse = ys.any b.hasResponse := by
    rw [Bool.eq_iff_iff]
    simp only [List.any_eq_true, h]
  rw [scrub, scrub, hforget, hany]

/-- What two scrubs free is what one scrub of all their requests frees. -/
theorem scrubFrees_append {b : Builder} (h : b.Accounted len) (xs ys : List RequestId) :
    b.scrubFrees xs + (b.scrub xs).scrubFrees ys = b.scrubFrees (xs ++ ys) := by
  obtain ⟨hfirst, hle⟩ := h.scrub xs
  obtain ⟨-, hle'⟩ := hfirst.scrub ys
  rw [scrub_scrub] at hle'
  simp only [scrubFrees, scrub_scrub]
  omega

/-- From a builder that holds nothing a scrub frees nothing. -/
theorem scrubFrees_of_isEmpty {b : Builder} (h : b.Accounted len) (hempty : b.isEmpty = true)
    (xs : List RequestId) : b.scrubFrees xs = 0 := by
  rw [scrubFrees, h.size_of_isEmpty hempty, Nat.zero_sub]

end Builder

/-! ## Scrubs of a line of builders -/

namespace Backlog

variable {q : Backlog}

/-- Two scrubs of a line are one scrub of all their requests. -/
theorem scrub_scrub (q : Backlog) (xs ys : List RequestId) :
    (q.scrub xs).scrub ys = q.scrub (xs ++ ys) := by
  refine congrArg (fun builders => ({ q with builders } : Backlog)) ?_
  show (((q.builders.map (·.scrub xs)).filter (fun b => !b.isEmpty)).map (·.scrub ys)).filter
    (fun b => !b.isEmpty) = (q.builders.map (·.scrub (xs ++ ys))).filter (fun b => !b.isEmpty)
  induction q.builders with
  | nil => rfl
  | cons b rest ih =>
    simp only [List.map_cons]
    by_cases hempty : (b.scrub xs).isEmpty = true
    · -- a builder that the first scrub drops would be dropped by one scrub, too
      have hempty' : (b.scrub (xs ++ ys)).isEmpty = true := by
        rw [← Builder.scrub_scrub]
        exact Builder.isEmpty_scrub hempty ys
      rw [List.filter_cons_of_neg (by simp [hempty]), List.filter_cons_of_neg (by simp [hempty']),
        ih]
    · rw [List.filter_cons_of_pos (by simpa using hempty), List.map_cons, List.filter_cons,
        List.filter_cons, Builder.scrub_scrub, ih]

/-- The order of the requests, and how often they are listed, makes no difference. -/
theorem scrub_congr (q : Backlog) (h : ∀ r, r ∈ xs ↔ r ∈ ys) :
    q.scrub xs = q.scrub ys ∧ q.scrubFrees xs = q.scrubFrees ys := by
  have hbuilder : (fun b : Builder => b.scrub xs) = fun b => b.scrub ys :=
    funext fun b => b.scrub_congr h
  have hfrees : (fun b : Builder => b.scrubFrees xs) = fun b => b.scrubFrees ys :=
    funext fun b => congrArg (fun c : Builder => b.size - c.size) (b.scrub_congr h)
  exact ⟨by rw [scrub, scrub, hbuilder], by rw [scrubFrees, scrubFrees, hfrees]⟩

/-- What two scrubs of a line free is what one scrub of all their requests frees. -/
theorem scrubFrees_append (h : q.Accounted len) (xs ys : List RequestId) :
    q.scrubFrees xs + (q.scrub xs).scrubFrees ys = q.scrubFrees (xs ++ ys) := by
  unfold Accounted at h
  show (q.builders.map (·.scrubFrees xs)).sum +
    (((q.builders.map (·.scrub xs)).filter (fun b => !b.isEmpty)).map (·.scrubFrees ys)).sum =
      (q.builders.map (·.scrubFrees (xs ++ ys))).sum
  revert h
  induction q.builders with
  | nil => exact fun _ => rfl
  | cons b rest ih =>
    intro h
    obtain ⟨hb, hrest⟩ := List.forall_mem_cons.mp h
    have ih := ih hrest
    have hfirst := Builder.scrubFrees_append hb xs ys
    simp only [List.map_cons, List.sum_cons]
    by_cases hempty : (b.scrub xs).isEmpty = true
    · -- nothing is left of the builder that the second scrub could free
      have hnothing := Builder.scrubFrees_of_isEmpty (hb.scrub xs).1 hempty ys
      rw [List.filter_cons_of_neg (by simp [hempty])]
      omega
    · rw [List.filter_cons_of_pos (by simpa using hempty), List.map_cons, List.sum_cons]
      omega

/-- Where topics are different, a builder's topic stays in line if the scrubbed builder does. -/
theorem mem_topics_scrub (h : q.topics.Pairwise Topic.Before) {b : Builder} (hb : b ∈ q.builders) :
    b.topic ∈ (q.scrub xs).topics ↔ b.scrub xs ∈ (q.scrub xs).builders := by
  have hnodup : q.topics.Nodup := h.imp Topic.Before.ne
  constructor
  · intro htopic
    obtain ⟨c, hc, heq⟩ := List.mem_map.mp htopic
    obtain ⟨⟨b', hb', rfl⟩, -⟩ := mem_scrub.mp hc
    rw [Builder.scrub_topic] at heq
    rwa [← List.inj_on_of_nodup_map hnodup hb' hb heq]
  · intro hmem
    exact List.mem_map.mpr ⟨b.scrub xs, hmem, b.scrub_topic xs⟩

/-- **Scrubs compose.**  In every backlog that a run leads to in which links determine lengths, two
scrubs are one scrub of all their requests, and so is what they free.  Only the set of requests
matters, a scrub that is repeated changes and frees nothing, the builders that stay keep their
topics and their order, and a builder goes if and only if neither a response nor a block is left
in it. -/
theorem scrubs_compose {len : Link → Nat} (next : Option Topic) {moves : List BacklogMove}
    (h : ∀ m ∈ moves, m.IsEven len) (xs ys : List RequestId) :
    let q := ({ nextTopic := next } : Backlog).run moves
    (q.scrub xs).scrub ys = q.scrub (xs ++ ys) ∧
    q.scrubFrees xs + (q.scrub xs).scrubFrees ys = q.scrubFrees (xs ++ ys) ∧
    (∀ zs, (∀ r, r ∈ zs ↔ r ∈ xs) →
      q.scrub zs = q.scrub xs ∧ q.scrubFrees zs = q.scrubFrees xs) ∧
    (q.scrub xs).scrub xs = q.scrub xs ∧ (q.scrub xs).scrubFrees xs = 0 ∧
    q.topics.Pairwise Topic.Before ∧ (q.scrub xs).topics.Sublist q.topics ∧
    ∀ b ∈ q.builders,
      (b.topic ∈ (q.scrub xs).topics → b.scrub xs ∈ (q.scrub xs).builders) ∧
      (b.topic ∉ (q.scrub xs).topics ↔
        (b.scrub xs).blocks = [] ∧ ∀ r, (b.scrub xs).hasResponse r = false) := by
  intro q
  have haccounted : q.Accounted len := accounted_run next h
  have hstart : ({ nextTopic := next } : Backlog).ComesAfter [] :=
    ⟨List.Pairwise.nil, fun _ _ _ ht => absurd ht List.not_mem_nil⟩
  have hordered : q.topics.Pairwise Topic.Before := (comesAfter_run hstart moves).increasing
  have hself : ∀ r, r ∈ xs ++ xs ↔ r ∈ xs := fun r => by simp
  obtain ⟨hagain, hfreesAgain⟩ := q.scrub_congr hself
  have hboth := scrubFrees_append haccounted xs xs
  refine ⟨q.scrub_scrub xs ys, scrubFrees_append haccounted xs ys, fun zs hzs => q.scrub_congr hzs,
    (q.scrub_scrub xs xs).trans hagain, by omega, hordered, q.topics_scrub xs, fun b hb => ?_⟩
  rw [← Builder.isEmpty_iff_hasResponse, mem_topics_scrub hordered hb]
  refine ⟨id, fun hgone => ?_, fun hempty hstays => ?_⟩
  · by_contra hfull
    exact hgone (mem_scrub.mpr ⟨⟨b, hb, rfl⟩, by simpa using hfull⟩)
  · have hfull := (mem_scrub.mp hstays).2
    rw [hempty] at hfull
    cases hfull

/-- Two requests share a block, and the first of them has a builder to itself besides.  A scrub of
the first takes one contribution from the one builder and drops the other, a scrub of the second
then drops what is left, and one scrub of both does the same. -/
theorem scrubs_compose_of_two :
    let shared : Block := .fill default 2 0
    let first : RequestId := ⟨Octets.fill 16 0⟩
    let second : RequestId := ⟨Octets.fill 16 1⟩
    let moves : List BacklogMove := [
      .mutate 4 [.addBlock shared, .addLink first shared.link .present, .addBlock shared,
        .addLink second shared.link .present],
      .mutate maxBlockSize [.addBlock shared, .addLink first shared.link .present]]
    let q := ({ nextTopic := some Topic.first } : Backlog).run moves
    (∀ m ∈ moves, m.IsEven fun _ => 2) ∧ q.builders.map Builder.size = [4, 2] ∧
      (q.scrub [first]).builders.map Builder.size = [2] ∧
      (q.scrub [first]).scrub [second] = q.scrub [second, first, second] ∧
      q.scrubFrees [first] = 4 ∧ q.scrubFrees [first] + (q.scrub [first]).scrubFrees [second] = 6 ∧
      (q.scrub [first]).scrubFrees [first] = 0 := by
  intro shared first second moves q
  have heven : ∀ m ∈ moves, m.IsEven fun _ => 2 := by
    intro m hm
    simp only [moves, List.mem_cons, List.not_mem_nil, or_false] at hm
    rcases hm with rfl | rfl
    · simp [BacklogMove.IsEven, Edit.IsEven, shared]
    · simp [BacklogMove.IsEven, Edit.IsEven, shared]
  obtain ⟨hcompose, hfrees, -, -, hnothing, -⟩ :=
    scrubs_compose (some Topic.first) heven [first] [second]
  obtain ⟨-, -, hset, -⟩ := scrubs_compose (some Topic.first) heven [first, second] []
  have hall := hset [second, first, second] (by simp [or_comm])
  exact ⟨heven, by decide +kernel, by decide +kernel, hcompose.trans hall.1.symm,
    by decide +kernel, hfrees.trans (by decide +kernel), hnothing⟩

end Backlog

end Outbox
