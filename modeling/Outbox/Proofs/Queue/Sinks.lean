import Outbox.Proofs.Message.Watchers
import Outbox.Proofs.Queue.Line

/-!
# Where a sink is

A sink goes with the builder it was put into: it waits in line with it and leaves the line with it,
or it is taken out by a scrub of the request on the way.

* `attachments`, `carried` — how often a sink was put into builders, and how often it left the line
  with one that was taken;
* `Backlog.Trace.copies_le` — it leaves no more often than it was put in;
* `Backlog.Scrubbed` — a request is scrubbed from the builder with a topic;
* `Backlog.Fate`, `Backlog.Trace.fate` — what can become of a builder in which a request is watched;
* `Filed`, `Answered` — a sink has just been filed under a request, and the request has a response
  then or later;
* `Backlog.Trace.fate_of_answered` — then the sink is lost only with a scrub of that request, or
  with a builder that is thrown away.
-/

namespace Outbox

variable {s : Sink} {r : RequestId} {t : Topic} {log before past future : List Action}
  {backlog backlog' : Backlog}

/-! ## Where a sink is -/

/-- How often edits that are carried out put the sink into a builder. -/
def Action.attaches (s : Sink) : Action → Nat
  | mutated _ edits _ => attached s edits
  | _ => 0

/-- How often the sink leaves the line with a builder that is taken. -/
def Action.carries (s : Sink) : Action → Nat
  | dequeued b => b.copies s
  | _ => 0

/-- How often the sink was put into builders. -/
def attachments (s : Sink) (log : List Action) : Nat := (log.map (Action.attaches s)).sum

/-- How often the sink left the line with builders that were taken. -/
def carried (s : Sink) (log : List Action) : Nat := (log.map (Action.carries s)).sum

theorem attachments_append (s : Sink) (log log' : List Action) :
    attachments s (log ++ log') = attachments s log + attachments s log' := by
  simp [attachments]

theorem carried_append (s : Sink) (log log' : List Action) :
    carried s (log ++ log') = carried s log + carried s log' := by
  simp [carried]

/-- Edits that are cut in two put the sink in as often as the parts do. -/
theorem Cut.attachments_eq (s : Sink) (h : Cut log past future) :
    attachments s log = attachments s past + attachments s future := by
  obtain ⟨before, p, e₁, e₂, report, post, rfl, rfl, rfl⟩ := h
  simp only [attachments, List.map_append, List.map_cons, List.map_nil, List.sum_append,
    List.sum_cons, List.sum_nil, Action.attaches, attached_append]
  omega

theorem Cut.carried_eq (s : Sink) (h : Cut log past future) :
    carried s log = carried s past + carried s future := by
  obtain ⟨before, p, e₁, e₂, report, post, rfl, rfl, rfl⟩ := h
  simp only [carried, List.map_append, List.map_cons, List.map_nil, List.sum_append,
    List.sum_cons, List.sum_nil, Action.carries]
  omega

/-- Only edits are cut. -/
theorem Cut.mem_of_mem_future {a : Action} (h : Cut log past future) (ha : a ∈ future)
    (hother : a.edited? = none) : a ∈ log := by
  obtain ⟨before, p, e₁, e₂, report, post, rfl, rfl, rfl⟩ := h
  rcases List.mem_cons.mp ha with rfl | ha
  · cases hother
  · exact List.mem_append_right _ (List.mem_cons_of_mem _ ha)

namespace Backlog

/-- How often the sink is in the builders in line. -/
def copies (s : Sink) (backlog : Backlog) : Nat := (backlog.builders.map (Builder.copies s)).sum

theorem copies_append (s : Sink) (front rest : List Builder) :
    ((front ++ rest).map (Builder.copies s)).sum =
      (front.map (Builder.copies s)).sum + (rest.map (Builder.copies s)).sum := by
  rw [List.map_append, List.sum_append]

theorem sum_copies_scrub_le (builders : List Builder) (rs : List RequestId) :
    (((builders.map (·.scrub rs)).filter (fun b => !b.isEmpty)).map (Builder.copies s)).sum ≤
      (builders.map (Builder.copies s)).sum := by
  refine ((List.filter_sublist.map _).sum_le_sum fun _ _ => Nat.zero_le _).trans ?_
  rw [List.map_map]
  exact List.sum_le_sum fun b _ => b.copies_scrub_le rs

/-- A scrub that drops a builder with the sink, or takes it out of one, takes it out of the line. -/
theorem copies_scrub_lt {b : Builder} {rs : List RequestId} (hb : b ∈ backlog.builders)
    (hlt : (b.scrub rs).isEmpty = true ∧ 1 ≤ b.copies s ∨
      (b.scrub rs).copies s + 1 ≤ b.copies s) :
    (backlog.scrub rs).copies s + 1 ≤ backlog.copies s := by
  obtain ⟨left, right, hline⟩ := List.append_of_mem hb
  have hleft := sum_copies_scrub_le (s := s) left rs
  have hright := sum_copies_scrub_le (s := s) right rs
  have hle := b.copies_scrub_le (s := s) rs
  simp only [copies, scrub, hline, List.map_append, List.filter_append, List.sum_append,
    List.map_cons, List.sum_cons]
  by_cases hempty : (b.scrub rs).isEmpty = true
  · have hpos : 1 ≤ b.copies s := by
      rcases hlt with ⟨-, hpos⟩ | hlt
      · exact hpos
      · omega
    rw [List.filter_cons_of_neg (by simp [hempty])]
    omega
  · have hless := hlt.resolve_left fun hdrop => hempty hdrop.1
    rw [List.filter_cons_of_pos (by simpa using hempty), List.map_cons, List.sum_cons]
    omega

/-- One change puts the sink in as often as it says, and lets it out. -/
theorem Change.copies_le {a : Action} (c : Change backlog a backlog') :
    backlog'.copies s + a.carries s ≤ backlog.copies s + a.attaches s := by
  cases c with
  | @edited p size edits report report' backlog' hm htopic =>
    cases hm with
    | @join front b hb hfit =>
      have hlast := b.copies_applyAll_le (s := s) edits
      simp only [copies, hb, copies_append, List.map_singleton, List.sum_singleton, Action.carries,
        Action.attaches]
      omega
    | @begin t hnew ht =>
      have hlast := ({ topic := t } : Builder).copies_applyAll_le (s := s) edits
      rw [Builder.copies_new] at hlast
      simp only [copies, copies_append, List.map_singleton, List.sum_singleton, Action.carries,
        Action.attaches]
      omega
  | scrubbed rs => exact sum_copies_scrub_le backlog.builders rs
  | dequeued hb =>
    simp only [copies, hb, List.map_cons, List.sum_cons, Action.carries, Action.attaches]
    omega
  | discarded hb =>
    simp only [copies, hb, List.map_cons, List.sum_cons, Action.carries, Action.attaches]
    omega
  | @other a ha =>
    have hnone : a.carries s = 0 ∧ a.attaches s = 0 := by
      cases a <;> first | exact ⟨rfl, rfl⟩ | cases ha
    rw [hnone.1, hnone.2]

/-- The sink leaves the line no more often than it was put in. -/
theorem Trace.copies_le (tr : Trace backlog log backlog') :
    backlog'.copies s + carried s log ≤ backlog.copies s + attachments s log := by
  induction tr with
  | nil => exact le_rfl
  | @concat log a middle backlog' tr c ih =>
    have hlast := c.copies_le (s := s)
    rw [carried_append, attachments_append]
    simp only [carried, attachments, List.map_singleton, List.sum_singleton] at ih ⊢
    omega

/-! ## What becomes of a builder -/

/-- The request is scrubbed from the builder with this topic: in edits that go to it, or from all
builders while it is in line. -/
def Scrubbed (r : RequestId) (t : Topic) (log : List Action) : Prop :=
  (∃ p edits report rs, .mutated p edits report ∈ log ∧ report.topic = t ∧ .scrub rs ∈ edits ∧
    r ∈ rs) ∨
  ∃ left rs right, log = left ++ .scrubbed rs :: right ∧ r ∈ rs ∧ t ∉ removed left

namespace Scrubbed

theorem append (h : Scrubbed r t log) (log' : List Action) : Scrubbed r t (log ++ log') := by
  rcases h with ⟨p, edits, report, rs, hmem, hrest⟩ | ⟨left, rs, right, rfl, hrest⟩
  · exact .inl ⟨p, edits, report, rs, List.mem_append_left _ hmem, hrest⟩
  · exact .inr ⟨left, rs, right ++ log', by simp, hrest⟩

/-- What was scrubbed before a cut was scrubbed. -/
theorem of_past (hcut : Cut log past future) (h : Scrubbed r t past) : Scrubbed r t log := by
  obtain ⟨before, p, e₁, e₂, report, post, rfl, rfl, rfl⟩ := hcut
  rcases h with ⟨p', edits, report', rs, hmem, ht, hrs, hr⟩ | ⟨left, rs, right, hlog, hrest⟩
  · rcases List.mem_append.mp hmem with hmem | hmem
    · exact .inl ⟨p', edits, report', rs, List.mem_append_left _ hmem, ht, hrs, hr⟩
    · cases List.mem_singleton.mp hmem
      exact .inl ⟨p, e₁ ++ e₂, report, rs, List.mem_append_right _ (List.mem_cons_self ..), ht,
        List.mem_append_left _ hrs, hr⟩
  · -- the scrub is not the entry that was cut
    rcases List.eq_nil_or_concat right with rfl | ⟨right, a, rfl⟩
    · have hlast := (List.append_inj' hlog rfl).2
      cases hlast
    · rw [List.concat_eq_append, ← List.cons_append, ← List.append_assoc] at hlog
      obtain ⟨rfl, -⟩ := List.append_inj' hlog rfl
      exact .inr ⟨left, rs, right ++ .mutated p (e₁ ++ e₂) report :: post, by simp, hrest⟩

/-- What was scrubbed after a cut was scrubbed. -/
theorem of_future (hcut : Cut log past future) (hin : t ∉ removed past)
    (h : Scrubbed r t future) : Scrubbed r t log := by
  obtain ⟨before, p, e₁, e₂, report, post, rfl, rfl, rfl⟩ := hcut
  rcases h with ⟨p', edits, report', rs, hmem, ht, hrs, hr⟩ | ⟨left, rs, right, hlog, hr, hleft⟩
  · rcases List.mem_cons.mp hmem with hmem | hmem
    · cases hmem
      exact .inl ⟨p, e₁ ++ e₂, report, rs, List.mem_append_right _ (List.mem_cons_self ..), ht,
        List.mem_append_right _ hrs, hr⟩
    · exact .inl ⟨p', edits, report', rs,
        List.mem_append_right _ (List.mem_cons_of_mem _ hmem), ht, hrs, hr⟩
  · -- the scrub is not the entry that was cut
    cases left with
    | nil => cases hlog
    | cons a left =>
      obtain ⟨rfl, rfl⟩ := List.cons.inj hlog
      refine .inr ⟨before ++ .mutated p (e₁ ++ e₂) report :: left, rs, right, by simp, hr, ?_⟩
      rw [removed, List.filterMap_append, List.mem_append, not_or] at hin ⊢
      exact ⟨hin.1, hleft⟩

end Scrubbed

/-- What became, with the entries `log` that come after those `before`, of the builder with this
topic, in which the sink watched the request; the sink was in line `n` times before. -/
inductive Fate (s : Sink) (r : RequestId) (answered : Prop) (t : Topic) (n : Nat)
    (before log : List Action) (backlog : Backlog) : Prop
  /-- It is in line, and nothing has changed. -/
  | waits {b : Builder} (hb : b ∈ backlog.builders) (ht : b.topic = t)
      (hw : b.Watched s r answered)
  /-- It was taken. -/
  | taken {b : Builder} (hb : .dequeued b ∈ log) (ht : b.topic = t) (hw : b.Watched s r answered)
  /-- The request was scrubbed from it, it was thrown away, or it was left empty by a scrub, which
  takes a request that is not answered; and the sink is gone. -/
  | lost (hwhy : Scrubbed r t log ∨ (∃ b, .discarded b ∈ log ∧ b.topic = t) ∨
        ¬ answered ∧ t ∈ (Line.of (before ++ log)).dropped)
      (hle : backlog.copies s + carried s log + 1 ≤ n + attachments s log)

namespace Fate

variable {answered : Prop} {n : Nat} {a : Action}

/-- With one more entry that takes the sink out. -/
theorem lose (htrace : backlog.copies s + carried s log ≤ n + attachments s log)
    (hle : backlog'.copies s + a.carries s + 1 ≤ backlog.copies s + a.attaches s)
    (hwhy : Scrubbed r t (log ++ [a]) ∨ (∃ b, .discarded b ∈ log ++ [a] ∧ b.topic = t) ∨
      ¬ answered ∧ t ∈ (Line.of (before ++ (log ++ [a]))).dropped) :
    Fate s r answered t n before (log ++ [a]) backlog' := by
  refine .lost hwhy ?_
  rw [carried_append, attachments_append]
  simp only [carried, attachments, List.map_singleton, List.sum_singleton] at htrace ⊢
  omega

/-- Edits are carried out. -/
theorem edited {p size : Nat} {edits : List Edit} {report report' : EditReport} {b : Builder}
    (hm : Mutation backlog size edits (.ok (report', backlog')))
    (htopic : report.topic = report'.topic) (hb : b ∈ backlog.builders) (ht : b.topic = t)
    (hw : b.Watched s r answered)
    (htrace : backlog.copies s + carried s log ≤ n + attachments s log) :
    Fate s r answered t n before (log ++ [.mutated p edits report]) backlog' := by
  cases hm with
  | @join front b' hlast hfit =>
    rw [hlast] at hb
    rcases List.mem_append.mp hb with hb | hb
    · exact .waits (List.mem_append_left _ hb) ht hw
    · cases List.mem_singleton.mp hb
      rcases hw.applyAll edits with hw' | ⟨⟨rs, hrs, hr⟩, hle⟩
      · refine .waits (b := b.applyAll edits) ?_ ((b.applyAll_topic edits).trans ht) hw'
        exact List.mem_append_right _ (List.mem_singleton_self _)
      · refine lose htrace ?_ (.inl (.inl ⟨p, edits, report, rs, ?_, htopic.trans ht, hrs, hr⟩))
        · simp only [Backlog.copies, hlast, copies_append, List.map_singleton, List.sum_singleton,
            Action.carries, Action.attaches]
          omega
        · exact List.mem_append_right _ (List.mem_singleton_self _)
  | begin hnew hopen => exact .waits (List.mem_append_left _ hb) ht hw

/-- Requests are scrubbed. -/
theorem scrubbed {b : Builder} (rs : List RequestId) (hkept : Line.Kept (before ++ log) backlog)
    (hb : b ∈ backlog.builders) (ht : b.topic = t) (hw : b.Watched s r answered)
    (hin : t ∉ removed log)
    (htrace : backlog.copies s + carried s log ≤ n + attachments s log) :
    Fate s r answered t n before (log ++ [.scrubbed rs]) (backlog.scrub rs) := by
  by_cases hr : r ∈ rs
  · exact lose htrace (copies_scrub_lt hb (.inr (hw.copies_scrub hr)))
      (.inl (.inr ⟨log, rs, [], rfl, hr, hin⟩))
  have hw' := hw.scrub hr
  by_cases hempty : (b.scrub rs).isEmpty = true
  · refine lose htrace (copies_scrub_lt hb (.inl ⟨hempty, hw.copies_pos⟩)) (.inr (.inr ⟨?_, ?_⟩))
    · intro ha
      rw [Builder.isEmpty_of_hasResponse (hw'.response ha)] at hempty
      cases hempty
    · rw [← List.append_assoc, Line.of_concat, ← ht]
      refine List.mem_append_right _ (List.mem_map.mpr ⟨b.scrub rs, ?_, b.scrub_topic rs⟩)
      exact List.mem_filter.mpr ⟨List.mem_map_of_mem (hkept.builders ▸ hb), hempty⟩
  · exact .waits (mem_scrub.mpr ⟨⟨b, hb, rfl⟩, by simpa using hempty⟩)
      ((b.scrub_topic rs).trans ht) hw'

/-- The first builder leaves. -/
theorem leave {b b' : Builder} {rest : List Builder} (hline : backlog.builders = b' :: rest)
    (hb : b ∈ backlog.builders) (hne : b ≠ b') (ht : b.topic = t) (hw : b.Watched s r answered) :
    Fate s r answered t n before log { backlog with builders := rest } := by
  rw [hline] at hb
  rcases List.mem_cons.mp hb with rfl | hb
  · exact absurd rfl hne
  · exact .waits hb ht hw

end Fate

/-- **What becomes of a builder.**  As long as a builder in which a request is watched is in line,
nothing changes that but a scrub of the request, or one that leaves the builder empty; it leaves the
line by being taken or thrown away. -/
theorem Trace.fate {answered : Prop} {b : Builder} (tr : Trace backlog log backlog')
    (hkept : Line.Kept before backlog) (hb : b ∈ backlog.builders) (hw : b.Watched s r answered) :
    Fate s r answered b.topic (backlog.copies s) before log backlog' ∧
      Line.Kept (before ++ log) backlog' := by
  induction tr with
  | nil =>
    rw [List.append_nil]
    exact ⟨.waits hb rfl hw, hkept⟩
  | @concat log a middle backlog' tr c ih =>
    obtain ⟨hfate, hmiddle⟩ := ih
    have htrace := tr.copies_le (s := s)
    refine ⟨?_, by rw [← List.append_assoc]; exact hmiddle.change c⟩
    cases hfate with
    | @waits b' hb' ht hw' =>
      cases c with
      | edited hm htopic => exact .edited hm htopic hb' ht hw' htrace
      | scrubbed rs =>
        refine .scrubbed rs hmiddle hb' ht hw' (fun hremoved => ?_) htrace
        refine (hmiddle.not_gone hb').1 ?_
        rw [ht, removed, List.filterMap_append]
        exact List.mem_append_right _ hremoved
      | @dequeued b'' rest hline =>
        by_cases heq : b' = b''
        · subst heq
          exact .taken (List.mem_append_right _ (List.mem_singleton_self _)) ht hw'
        · exact .leave hline hb' heq ht hw'
      | @discarded b'' rest hline =>
        by_cases heq : b' = b''
        · subst heq
          refine .lose htrace ?_
            (.inr (.inl ⟨b', List.mem_append_right _ (List.mem_singleton_self _), ht⟩))
          have hpos := hw'.copies_pos
          simp only [Backlog.copies, hline, List.map_cons, List.sum_cons, Action.carries,
            Action.attaches]
          omega
        · exact .leave hline hb' heq ht hw'
      | other ha => exact .waits hb' ht hw'
    | taken hb' ht hw' => exact .taken (List.mem_append_left _ hb') ht hw'
    | lost hwhy hle =>
      have hlast := c.copies_le (s := s)
      refine .lost ?_ ?_
      · rcases hwhy with hscrub | ⟨b', hb', ht⟩ | ⟨ha, hdropped⟩
        · exact .inl (hscrub.append [a])
        · exact .inr (.inl ⟨b', List.mem_append_left _ hb', ht⟩)
        · refine .inr (.inr ⟨ha, ?_⟩)
          rw [← List.append_assoc]
          exact (Line.dropped_prefix _ [a]).subset hdropped
      · rw [carried_append, attachments_append]
        simp only [carried, attachments, List.map_singleton, List.sum_singleton] at hle ⊢
        omega

end Backlog

/-! ## Filing a sink -/

/-- The last edit of these entries files the sink under the request, in the builder with this
topic. -/
def Filed (s : Sink) (r : RequestId) (t : Topic) (log : List Action) : Prop :=
  ∃ front p edits report, log = front ++ [.mutated p (edits ++ [.addNotifee r s]) report] ∧
    report.topic = t

/-- At some moment in the entries `future`, which come after those `past`, the builder with this
topic has a response to the request. -/
def Answered (r : RequestId) (t : Topic) (past future : List Action) : Prop :=
  ∃ left right, Cut future left right ∧
    ((Line.of (past ++ left)).builder t).hasResponse r = true

namespace Backlog

/-- The builder is in line, with the sink in it. -/
theorem Trace.watched (tr : Trace backlog log backlog') (h : Filed s r t log) :
    ∃ b ∈ backlog'.builders, b.topic = t ∧ b.Watched s r False := by
  obtain ⟨front, p, edits, report, rfl, rfl⟩ := h
  obtain ⟨middle, -, hlast⟩ := tr.split
  obtain ⟨middle', hchange, hrest⟩ := hlast.uncons
  obtain rfl := hrest.eq_of_nil
  have hfiled : ∀ b : Builder, (b.applyAll (edits ++ [.addNotifee r s])).Watched s r False := by
    intro b
    have hboth : b.applyAll (edits ++ [.addNotifee r s]) =
        (b.applyAll edits).apply (.addNotifee r s) := by
      simp [Builder.applyAll]
    rw [hboth]
    exact Builder.watched_addNotifee _ s r
  cases hchange with
  | edited hm htopic =>
    cases hm with
    | join hb hfit =>
      exact ⟨_, List.mem_append_right _ (List.mem_singleton_self _),
        (Builder.applyAll_topic _ _).trans htopic.symm, hfiled _⟩
    | begin hnew hopen =>
      exact ⟨_, List.mem_append_right _ (List.mem_singleton_self _),
        (Builder.applyAll_topic _ _).trans htopic.symm, hfiled _⟩
  | other ha => cases ha

/-- **What becomes of a builder** in which a sink was filed under a request that is answered. -/
theorem Trace.fate_of_answered {b : Builder} (tr : Trace backlog future backlog')
    (hkept : Line.Kept past backlog) (hb : b ∈ backlog.builders) (hw : b.Watched s r False)
    (hanswered : Answered r b.topic past future) :
    Fate s r True b.topic (backlog.copies s) past future backlog' := by
  obtain ⟨left, right, hcut, hresponse⟩ := hanswered
  obtain ⟨middle, hleft, hright⟩ := tr.cut hcut
  obtain ⟨hfate, hmiddle⟩ := hleft.fate hkept hb hw
  -- a builder with a response is in line
  obtain ⟨b', hb', ht'⟩ : ∃ b' ∈ middle.builders, b'.topic = b.topic := by
    by_contra hnone
    rw [hmiddle.builder_eq_new fun b' hb' ht' => hnone ⟨b', hb', ht'⟩] at hresponse
    cases hresponse
  obtain ⟨hin, hundropped⟩ := hmiddle.not_gone hb'
  rw [ht', removed, List.filterMap_append, List.mem_append, not_or] at hin
  rw [ht'] at hundropped
  have hcopies := hleft.copies_le (s := s)
  have hcopies' := hright.copies_le (s := s)
  have hcarried := hcut.carried_eq s
  have hattached := hcut.attachments_eq s
  cases hfate with
  | @waits b'' hb'' ht'' hw'' =>
    obtain rfl := hmiddle.eq_of_topic_eq hb'' hb' (ht''.trans ht'.symm)
    rw [← ht', hmiddle.builder_eq hb'] at hresponse
    cases (hright.fate hmiddle hb' ⟨hw''.sink, fun _ : True => hresponse⟩).1 with
    | waits hb ht hw => exact .waits hb (ht.trans ht') hw
    | taken hb ht hw => exact .taken (hcut.mem_of_mem_future hb rfl) (ht.trans ht') hw
    | lost hwhy hle =>
      refine .lost ?_ (by omega)
      rcases hwhy with hscrub | ⟨b, hb, ht⟩ | ⟨hfalse, -⟩
      · rw [ht'] at hscrub
        exact .inl (hscrub.of_future hcut hin.2)
      · exact .inr (.inl ⟨b, hcut.mem_of_mem_future hb rfl, ht.trans ht'⟩)
      · exact absurd trivial hfalse
  | taken hb ht hw => exact (hin.2 (List.mem_filterMap.mpr ⟨_, hb, congrArg some ht⟩)).elim
  | lost hwhy hle =>
    refine .lost ?_ (by omega)
    rcases hwhy with hscrub | ⟨b, hb, ht⟩ | ⟨-, hdropped⟩
    · exact .inl (hscrub.of_past hcut)
    · exact (hin.2 (List.mem_filterMap.mpr ⟨_, hb, congrArg some ht⟩)).elim
    · exact absurd hdropped hundropped

end Backlog

end Outbox
