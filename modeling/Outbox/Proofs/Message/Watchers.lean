import Outbox.Proofs.Message.Part

/-!
# Who watches a builder

A sink is in a builder as often as it was added there, until a scrub of its request takes it out.
A response stays as well until its request is scrubbed, and as long as it is there the builder is
not empty, so that whoever watches the request hears of the message.

* `Edit.attaches`, `attached` — how often edits add a sink;
* `Builder.copies` — how often a sink is in a builder, with `Builder.copies_applyAll_le`;
* `Builder.hasResponse_apply` — a response ends only with a scrub of its request;
* `Builder.Watched` — a sink watches a request, which may have a response;
* `Builder.Watched.applyAll`, `Builder.Watched.scrub` — this ends only with a scrub of the request;
* `Builder.Watched.finish?` — the message of such a builder has the sink among its own, and
  observers are told a status for the request.
-/

namespace Outbox

variable {s : Sink} {r : RequestId}

/-- How often the edit adds the sink. -/
def Edit.attaches (s : Sink) : Edit → Nat
  | .addNotifee _ s' => if s' = s then 1 else 0
  | _ => 0

/-- How often the edits add the sink. -/
def attached (s : Sink) (edits : List Edit) : Nat := (edits.map (Edit.attaches s)).sum

theorem attached_append (s : Sink) (edits edits' : List Edit) :
    attached s (edits ++ edits') = attached s edits + attached s edits' := by
  simp [attached]

namespace Builder

variable {b : Builder}

/-- How often the sink is in the builder. -/
def copies (s : Sink) (b : Builder) : Nat := b.notifees.weigh (List.count s)

@[simp] theorem copies_new (s : Sink) (t : Topic) : ({ topic := t } : Builder).copies s = 0 := rfl

/-- The message is told to the sink as often as the sink is in the builder. -/
theorem count_sinks {d : Finished} (h : b.finish? = some d) : d.sinks.count s = b.copies s := by
  obtain ⟨-, rfl⟩ := finish?_eq_some_iff.mp h
  show b.notifees.values.flatten.count s = b.copies s
  rw [List.count_flatten, Dict.values, List.map_map]
  rfl

theorem copies_scrub_le (b : Builder) (rs : List RequestId) :
    (b.scrub rs).copies s ≤ b.copies s := by
  rw [copies, scrub_notifees]
  exact b.notifees.weigh_eraseAll_le rs

/-- Adding the sink puts it in, and nothing but a scrub takes it out. -/
theorem copies_apply (b : Builder) {e : Edit} (he : e.isScrub = false) :
    (b.apply e).copies s = b.copies s + e.attaches s := by
  cases e with
  | addNotifee r' s' =>
    have hweigh := b.notifees.weigh_update (w := List.count s) r' (fun l => l.getD [] ++ [s'])
    have hat : b.notifees.weighAt (List.count s) r' = ((b.notifees.get? r').getD []).count s := by
      unfold Dict.weighAt
      cases b.notifees.get? r' <;> rfl
    rw [hat, List.count_append, List.count_singleton] at hweigh
    simp only [apply, addNotifee, copies, Edit.attaches, beq_iff_eq] at hweigh ⊢
    omega
  | scrub rs => cases he
  | _ => rfl

theorem copies_apply_le (b : Builder) (e : Edit) :
    (b.apply e).copies s ≤ b.copies s + e.attaches s := by
  cases he : e.isScrub with
  | false => exact (b.copies_apply he).le
  | true =>
    cases e with
    | scrub rs => exact b.copies_scrub_le rs
    | _ => cases he

/-- Without a scrub the sink is in as often as it was added. -/
theorem copies_applyAll (b : Builder) {edits : List Edit} (h : ∀ e ∈ edits, e.isScrub = false) :
    (b.applyAll edits).copies s = b.copies s + attached s edits := by
  induction edits generalizing b with
  | nil => rfl
  | cons e rest ih =>
    obtain ⟨he, hrest⟩ := List.forall_mem_cons.mp h
    rw [applyAll_cons, ih _ hrest, b.copies_apply he, attached, attached, List.map_cons,
      List.sum_cons, Nat.add_assoc]

theorem copies_applyAll_le (b : Builder) (edits : List Edit) :
    (b.applyAll edits).copies s ≤ b.copies s + attached s edits := by
  induction edits generalizing b with
  | nil => exact le_rfl
  | cons e rest ih =>
    have hfirst := b.copies_apply_le (s := s) e
    have hrest := ih (b.apply e)
    rw [applyAll_cons, attached, List.map_cons, List.sum_cons]
    unfold attached at hrest
    omega

/-! ## Responses -/

theorem hasResponse_scrub (h : b.hasResponse r = true) {rs : List RequestId} (hr : r ∉ rs) :
    (b.scrub rs).hasResponse r = true := by
  have hpart := b.part_scrub rs r
  rw [if_neg hr] at hpart
  simp only [part, Part.mk.injEq] at hpart
  obtain ⟨hlinks, hstatuses, hextensions, -, -, -⟩ := hpart
  rw [hasResponse, Dict.contains, Dict.contains, Dict.contains, hlinks, hstatuses, hextensions]
  exact h

/-- A response stays until its request is scrubbed. -/
theorem hasResponse_apply (h : b.hasResponse r = true) {e : Edit}
    (he : ∀ rs, e = .scrub rs → r ∉ rs) : (b.apply e).hasResponse r = true := by
  have hresponse := hasResponse_iff.mp h
  cases e with
  | addLink r' link action =>
    exact hasResponse_iff.mpr
      (hresponse.imp_left fun hl => Dict.contains_insert.mpr (.inr hl))
  | setStatus r' status =>
    exact hasResponse_iff.mpr
      (hresponse.imp_right (.imp_left fun hs => Dict.contains_insert.mpr (.inr hs)))
  | setExtension r' name data =>
    exact hasResponse_iff.mpr
      (hresponse.imp_right (.imp_right fun hx => Dict.contains_insert.mpr (.inr hx)))
  | scrub rs => exact hasResponse_scrub h (he rs rfl)
  | _ => exact h

/-- A builder is empty if it has neither a block nor a response. -/
theorem isEmpty_iff_hasResponse :
    b.isEmpty = true ↔ b.blocks = [] ∧ ∀ r, b.hasResponse r = false := by
  simp only [isEmpty_iff, Dict.isEmpty_iff, hasResponse, Bool.or_eq_false_iff, forall_and,
    and_assoc]

/-- A builder with a response holds something. -/
theorem isEmpty_of_hasResponse (h : b.hasResponse r = true) : b.isEmpty = false := by
  by_contra hempty
  have hnone := (isEmpty_iff_hasResponse.mp (by simpa using hempty)).2 r
  rw [h] at hnone
  cases hnone

/-! ## Watching a request -/

/-- The sink belongs to someone who watches the request; and there is a response, if the request is
answered. -/
structure Watched (s : Sink) (r : RequestId) (answered : Prop) (b : Builder) : Prop where
  /-- The sink is filed under the request. -/
  sink : s ∈ (b.notifees.get? r).getD []
  /-- There is a response. -/
  response : answered → b.hasResponse r = true

/-- Someone begins to watch the request. -/
theorem watched_addNotifee (b : Builder) (s : Sink) (r : RequestId) :
    (b.apply (.addNotifee r s)).Watched s r False := by
  refine ⟨?_, False.elim⟩
  simp [apply, addNotifee, Dict.get?_update]

namespace Watched

variable {answered : Prop}

theorem weighAt_pos (h : b.Watched s r answered) : 1 ≤ b.notifees.weighAt (List.count s) r := by
  have hsink := h.sink
  unfold Dict.weighAt
  cases hg : b.notifees.get? r with
  | none =>
    rw [hg] at hsink
    cases hsink
  | some l =>
    rw [hg] at hsink
    exact List.count_pos_iff.mpr hsink

theorem copies_pos (h : b.Watched s r answered) : 1 ≤ b.copies s :=
  h.weighAt_pos.trans (Dict.weighAt_le _ _)

/-- A scrub of the request takes the sink out. -/
theorem copies_scrub (h : b.Watched s r answered) {rs : List RequestId} (hr : r ∈ rs) :
    (b.scrub rs).copies s + 1 ≤ b.copies s := by
  have hweigh := b.notifees.weigh_eraseAll (w := List.count s) hr
  have hpos := h.weighAt_pos
  rw [copies, scrub_notifees]
  unfold copies
  omega

/-- A scrub of other requests changes nothing. -/
theorem scrub (h : b.Watched s r answered) {rs : List RequestId} (hr : r ∉ rs) :
    (b.scrub rs).Watched s r answered := by
  refine ⟨?_, fun ha => hasResponse_scrub (h.response ha) hr⟩
  rw [scrub_notifees, Dict.get?_eraseAll, if_neg hr]
  exact h.sink

theorem apply (h : b.Watched s r answered) {e : Edit} (he : ∀ rs, e = .scrub rs → r ∉ rs) :
    (b.apply e).Watched s r answered := by
  refine ⟨?_, fun ha => hasResponse_apply (h.response ha) he⟩
  cases e with
  | addNotifee r' s' =>
    simp only [Builder.apply, addNotifee, Dict.get?_update]
    by_cases hr : r = r'
    · subst hr
      rw [if_pos rfl]
      exact List.mem_append_left _ h.sink
    · rw [if_neg hr]
      exact h.sink
  | scrub rs => exact (h.scrub (he rs rfl)).sink
  | _ => exact h.sink

/-- Edits leave the sink where it is, unless they scrub the request. -/
theorem applyAll (h : b.Watched s r answered) (edits : List Edit) :
    (b.applyAll edits).Watched s r answered ∨ (∃ rs, .scrub rs ∈ edits ∧ r ∈ rs) ∧
      (b.applyAll edits).copies s + 1 ≤ b.copies s + attached s edits := by
  induction edits generalizing b with
  | nil => exact .inl h
  | cons e rest ih =>
    have hattached : attached s (e :: rest) = e.attaches s + attached s rest := by
      rw [attached, List.map_cons, List.sum_cons, attached]
    by_cases hscrub : ∃ rs, e = .scrub rs ∧ r ∈ rs
    · obtain ⟨rs, rfl, hr⟩ := hscrub
      refine .inr ⟨⟨rs, List.mem_cons_self .., hr⟩, ?_⟩
      have htaken := h.copies_scrub hr
      have hrest := (b.scrub rs).copies_applyAll_le (s := s) rest
      rw [applyAll_cons, hattached, Builder.apply]
      omega
    · have hfirst := h.apply (e := e) fun rs he hr => hscrub ⟨rs, he, hr⟩
      have hcopies := b.copies_apply_le (s := s) e
      rcases ih hfirst with hrest | ⟨⟨rs, hrs, hr⟩, hle⟩
      · exact .inl hrest
      · refine .inr ⟨⟨rs, List.mem_cons_of_mem _ hrs, hr⟩, ?_⟩
        rw [applyAll_cons, hattached]
        omega

/-- The message is told to the sink, and observers are told a status for the request. -/
theorem finish? (h : b.Watched s r True) : ∃ d, b.finish? = some d ∧ 1 ≤ d.sinks.count s ∧
    d.metadata.statuses.contains r = true := by
  obtain ⟨d, hd⟩ := exists_finish?_iff.mpr (isEmpty_of_hasResponse (h.response trivial))
  refine ⟨d, hd, ?_, (contains_statuses hd).mpr (h.response trivial)⟩
  rw [count_sinks hd]
  exact h.copies_pos

end Watched

end Builder

end Outbox
