import Outbox.Proofs.Message.Standing
import Outbox.Proofs.Message.Watchers

/-!
# Present links are carried

A response may call a block present that someone else has added, or that is added only afterwards.
A scrub keeps a block as long as some response that stays calls it present, whoever added it.  So
if every block that is called present is there or comes before the next scrub, then a message
carries all blocks that its responses call present.

* `Comes`, `Supplied` — a block comes before the next scrub, and each block that is called present
  is there or comes;
* `Builder.stored?_scrub` — a scrub keeps what a response that stays calls present;
* `Builder.Carries` — the invariant: what is called present is there or comes, with
  `Builder.Carries.apply` and `Builder.Carries.applyAll`;
* `Builder.present_links_carried` — the finished message.
-/

namespace Outbox

open Builder

/-- A block with this link is added before anything is scrubbed. -/
def Comes (link : Link) (future : List Edit) : Prop :=
  ∃ block, block.link = link ∧ .addBlock block ∈ future.takeWhile (fun e => !e.isScrub)

/-- Whenever a link is called present, its block is in the builder or comes. -/
def Supplied (start : Builder) (edits : List Edit) : Prop :=
  ∀ past r link future, edits = past ++ .addLink r link .present :: future →
    link ∈ blockLinks (start.applyAll past).blocks ∨ Comes link future

variable {b : Builder} {link : Link} {e : Edit} {edits rest : List Edit}

theorem not_comes_nil (link : Link) : ¬ Comes link [] := by
  rintro ⟨block, -, hmem⟩
  cases hmem

theorem not_comes_scrub (link : Link) (rs : List RequestId) (rest : List Edit) :
    ¬ Comes link (.scrub rs :: rest) := by
  rintro ⟨block, -, hmem⟩
  cases hmem

/-- A block comes with the first edit or after it. -/
theorem comes_cons (h : Comes link (e :: rest)) :
    (∃ block, block.link = link ∧ e = .addBlock block) ∨ Comes link rest := by
  obtain ⟨block, hlink, hmem⟩ := h
  rw [List.takeWhile_cons] at hmem
  split at hmem
  · rcases List.mem_cons.mp hmem with heq | hmem
    · exact .inl ⟨block, hlink, heq.symm⟩
    · exact .inr ⟨block, hlink, hmem⟩
  · cases hmem

theorem supplied_nil (b : Builder) : Supplied b [] := by
  intro past r link future hsplit
  simp at hsplit

theorem supplied_cons : Supplied b (e :: rest) ↔
    (∀ r link, e = .addLink r link .present → link ∈ blockLinks b.blocks ∨ Comes link rest) ∧
      Supplied (b.apply e) rest := by
  constructor
  · intro h
    refine ⟨?_, fun past r link future hsplit => ?_⟩
    · rintro r link rfl
      exact h [] r link rest rfl
    · exact h (e :: past) r link future (by rw [hsplit, List.cons_append])
  · rintro ⟨hfirst, hrest⟩ past r link future hsplit
    cases past with
    | nil =>
      obtain ⟨rfl, rfl⟩ := List.cons.inj hsplit
      exact hfirst r link rfl
    | cons e' past =>
      obtain ⟨rfl, htail⟩ := List.cons.inj hsplit
      exact hrest past r link future htail

namespace Builder

/-! ## Scrubs -/

/-- A block that a response calls present stays when other requests are scrubbed. -/
theorem stored?_scrub {s : StoredBlock} {rs : List RequestId}
    (hs : stored? b.blocks link = some s) (hpos : 0 < (b.forget rs).presentCount link) :
    ∃ s', stored? (b.scrub rs).blocks link = some s' ∧ s'.block = s.block := by
  unfold scrub
  simp only
  split
  · refine ⟨s.capped ((b.forget rs).presentCount link), ?_, rfl⟩
    rw [stored?_recount, if_pos hpos]
    show (stored? b.blocks link).map _ = _
    rw [hs, Option.map_some]
  · exact ⟨s, hs, rfl⟩

theorem mem_blockLinks_scrub {rs : List RequestId} (hlink : link ∈ blockLinks b.blocks)
    (hpos : 0 < (b.forget rs).presentCount link) : link ∈ blockLinks (b.scrub rs).blocks := by
  by_contra hgone
  cases hs : stored? b.blocks link with
  | none => exact stored?_eq_none_iff.mp hs hlink
  | some s =>
    obtain ⟨s', hs', -⟩ := stored?_scrub hs hpos
    rw [stored?_eq_none_iff.mpr hgone] at hs'
    cases hs'

/-! ## What is called present is there or comes -/

/-- Every link that is called present has its block in the builder, or the block comes. -/
def Carries (b : Builder) (future : List Edit) : Prop :=
  ∀ link, 0 < b.presentCount link → link ∈ blockLinks b.blocks ∨ Comes link future

namespace Carries

/-- One edit. -/
theorem apply (h : b.Carries (e :: rest))
    (hsupplied : ∀ r link, e = .addLink r link .present →
      link ∈ blockLinks b.blocks ∨ Comes link rest) : (b.apply e).Carries rest := by
  intro link hpos
  cases e with
  | addBlock block =>
    show link ∈ blockLinks (store block b.blocks) ∨ Comes link rest
    have hstored : ∀ l, l ∈ blockLinks b.blocks ∨ l = block.link →
        l ∈ blockLinks (store block b.blocks) := by
      intro l hl
      rw [blockLinks_store]
      split
      · rename_i hmem
        exact hl.elim id (fun heq => heq ▸ hmem)
      · exact List.mem_append.mpr (hl.imp_right List.mem_singleton.mpr)
    rcases h link hpos with hlink | hcomes
    · exact .inl (hstored link (.inl hlink))
    · rcases comes_cons hcomes with ⟨block', hlink, heq⟩ | hcomes
      · cases heq
        exact .inl (hstored link (.inr hlink.symm))
      · exact .inr hcomes
  | addLink r l action =>
    -- either the link was called present before, or this edit does so
    have hcount := b.presentCount_addLink [] r l link action
    rw [presentCount_forget_nil, presentCount_forget_nil] at hcount
    change 0 < (b.addLink r l action).presentCount link at hpos
    by_cases hbefore : 0 < b.presentCount link
    · rcases h link hbefore with hlink | hcomes
      · exact .inl hlink
      · rcases comes_cons hcomes with ⟨block, -, heq⟩ | hcomes
        · cases heq
        · exact .inr hcomes
    · have hnow : l = link ∧ action = .present := by
        by_contra hother
        rw [if_neg (fun hand => hother hand.2)] at hcount
        omega
      obtain ⟨rfl, rfl⟩ := hnow
      exact hsupplied r l rfl
  | scrub rs =>
    -- nothing is on its way now, so all that is called present is there
    have hleft : 0 < (b.forget rs).presentCount link :=
      lt_of_lt_of_eq hpos (presentCount_congr (b.scrub_links rs) link)
    rcases h link (lt_of_lt_of_le hleft (b.presentCount_forget_le rs link)) with hlink | hcomes
    · exact .inl (mem_blockLinks_scrub hlink hleft)
    · exact absurd hcomes (not_comes_scrub link rs rest)
  | _ =>
    rcases h link hpos with hlink | hcomes
    · exact .inl hlink
    · rcases comes_cons hcomes with ⟨block, -, heq⟩ | hcomes
      · cases heq
      · exact .inr hcomes

/-- After all edits, every block that is called present is there. -/
theorem applyAll (h : b.Carries edits) (hsupplied : Supplied b edits) :
    (b.applyAll edits).Carries [] := by
  induction edits generalizing b with
  | nil => exact h
  | cons e rest ih =>
    obtain ⟨hfirst, hrest⟩ := supplied_cons.mp hsupplied
    exact ih (h.apply hfirst) hrest

end Carries

/-! ## The finished message -/

/-- The responses of a message say about links what the builder says. -/
theorem links_of_finish? {d : Finished} (h : b.finish? = some d) {a : Response}
    (ha : a ∈ d.message.responses) : a.links = b.links.getD a.request [] := by
  rw [response_of_finish? h ha]
  rfl

/-- What a response of a message calls present, its builder calls present. -/
theorem presentCount_pos_of_finish? {d : Finished} (h : b.finish? = some d) {a : Response}
    (ha : a ∈ d.message.responses) {entry : LinkEntry} (hentry : entry ∈ a.links)
    (hpresent : entry.action = .present) : 0 < b.presentCount entry.link := by
  rw [links_of_finish? h ha, Dict.getD] at hentry
  cases hsaid : b.links.get? a.request with
  | none =>
    rw [hsaid] at hentry
    cases hentry
  | some said =>
    rw [hsaid] at hentry
    exact (presentCount_pos_iff _ _).mpr ⟨a.request, said, hsaid, hpresent ▸ hentry⟩

/-- **Present links are carried.**  If every block that is called present is in the builder or comes
before the next scrub, then there is a message as soon as a block is called present, it carries
each block that its responses call present, and no scrub in between takes a block that a response
of another request calls present. -/
theorem present_links_carried (t : Topic) {edits : List Edit}
    (h : Supplied { topic := t } edits) :
    let start : Builder := { topic := t }
    ((∃ r said, (start.applyAll edits).links.get? r = some said) →
      ∃ d, (start.applyAll edits).finish? = some d) ∧
    (∀ d, (start.applyAll edits).finish? = some d → ∀ a ∈ d.message.responses,
      ∀ entry ∈ a.links, entry.action = .present →
        ∃ block ∈ d.message.blocks, block.link = entry.link) ∧
    ∀ past future, edits = past ++ future → ∀ rs r said s,
      (start.applyAll past).links.get? r = some said → r ∉ rs →
      (⟨s.block.link, .present⟩ : LinkEntry) ∈ said → s ∈ (start.applyAll past).blocks →
        ∃ s' ∈ ((start.applyAll past).scrub rs).blocks, s'.block = s.block := by
  intro start
  have hcarries : (start.applyAll edits).Carries [] := by
    refine Carries.applyAll (fun link hpos => ?_) h
    exact absurd hpos (Nat.lt_irrefl 0)
  refine ⟨?_, fun d hd a ha entry hentry hpresent => ?_, ?_⟩
  · rintro ⟨r, said, hsaid⟩
    have hlinks : (start.applyAll edits).links.contains r = true := by
      rw [Dict.contains, hsaid, Option.isSome_some]
    exact exists_finish?_iff.mpr (isEmpty_of_hasResponse (hasResponse_iff.mpr (.inl hlinks)))
  · have hlink : entry.link ∈ blockLinks (start.applyAll edits).blocks :=
      (hcarries entry.link (presentCount_pos_of_finish? hd ha hentry hpresent)).resolve_right
        (not_comes_nil _)
    obtain ⟨s, hs, hlink⟩ := List.mem_map.mp hlink
    rw [blocks_of_finish? hd]
    exact ⟨s.block, List.mem_map_of_mem hs, hlink⟩
  · intro past future _ rs r said s hsaid hr hentry hs
    have hpos : 0 < ((start.applyAll past).forget rs).presentCount s.block.link := by
      refine (presentCount_pos_iff _ _).mpr ⟨r, said, ?_, hentry⟩
      show ((start.applyAll past).links.eraseAll rs).get? r = _
      rw [Dict.get?_eraseAll, if_neg hr, hsaid]
    have htidy : (start.applyAll past).Tidy := (tidy_new t).applyAll past
    obtain ⟨s', hs', hblock⟩ := stored?_scrub (stored?_of_mem htidy.nodup hs) hpos
    exact ⟨s', mem_of_stored? hs', hblock⟩

/-- A request calls a block present before another one adds it.  That one is scrubbed, calls the
block present again and is scrubbed once more, and the message still carries the block. -/
theorem present_links_carried_of_two :
    let shared : Block := .fill default 2 0
    let first : RequestId := ⟨Octets.fill 16 0⟩
    let second : RequestId := ⟨Octets.fill 16 1⟩
    let edits : List Edit := [.addLink second shared.link .present, .addBlock shared,
      .addLink first shared.link .present, .scrub [first], .addLink first shared.link .present,
      .setStatus first .requestCompletedFull, .scrub [first]]
    let start : Builder := { topic := Topic.first }
    Supplied start edits ∧ ∃ d, (start.applyAll edits).finish? = some d ∧
      ∃ a ∈ d.message.responses, a.request = second ∧
        ∃ entry ∈ a.links, ∃ block ∈ d.message.blocks, block.link = entry.link := by
  intro shared first second edits start
  have hsupplied : Supplied start edits := by
    simp only [edits, supplied_cons, supplied_nil, and_true]
    refine ⟨?_, ?_, ?_, ?_, ?_, ?_, ?_⟩
    all_goals
      intro r link he
      cases he
    · exact .inr ⟨shared, rfl, by simp [Edit.isScrub]⟩
    · exact .inl (by decide +kernel)
    · exact .inl (by decide +kernel)
  obtain ⟨hmessage, hcarried, -⟩ := present_links_carried Topic.first hsupplied
  obtain ⟨d, hd⟩ := hmessage ⟨second, [⟨shared.link, .present⟩], by decide +kernel⟩
  have hanswers : ∀ d ∈ (start.applyAll edits).finish?, ∃ a ∈ d.message.responses,
      a.request = second ∧ ⟨shared.link, .present⟩ ∈ a.links := by decide +kernel
  obtain ⟨a, ha, hsecond, hentry⟩ := hanswers d hd
  exact ⟨hsupplied, d, hd, a, ha, hsecond, _, hentry, hcarried d hd a ha _ hentry rfl⟩

end Builder

end Outbox
