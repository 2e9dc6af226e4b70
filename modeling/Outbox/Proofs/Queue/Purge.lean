import Outbox.Proofs.Message.Part
import Outbox.Proofs.Queue.Failure
import Outbox.Proofs.Queue.Flow
import Outbox.Proofs.Queue.Line

/-!
# A failure takes its requests with it

When a message fails, everything that belongs to its requests is removed from the builders in line,
so that a peer never gets the rest of a response whose beginning was lost, and observers do not hear
of it again.

* `Builder.part_retold_of_not_edited` — a builder that was not opened holds nothing;
* `Line.Kept.afresh` — what a builder holds for a request is what it was given since there was
  nothing for that request in line;
* `Backlog.Trace.accounted` — builders have their size, as long as links determine lengths;
* `Queue.Purged` — what a failure leaves behind;
* `Queue.failure_purges` — every failure does.
-/

namespace Outbox

variable {log later : List Action} {backlog backlog' : Backlog} {r : RequestId}

/-! ## Builders, told anew -/

namespace Builder

variable {b b' : Builder}

theorem part_retell (ht : b.topic = b'.topic) (h : b.part r = b'.part r) (a : Action) :
    (b.retell a).part r = (b'.retell a).part r := by
  cases a with
  | mutated p edits report =>
    show (if report.topic = b.topic then b.applyAll edits else b).part r =
      (if report.topic = b'.topic then b'.applyAll edits else b').part r
    rw [ht]
    split
    · exact part_applyAll h edits
    · exact h
  | scrubbed rs =>
    show (b.scrub rs).part r = (b'.scrub rs).part r
    rw [part_scrub, part_scrub, h]
  | _ => exact h

/-- What is told of a builder stays right with one more entry. -/
theorem part_retell_retold (h : b.part r = (retold b.topic later).part r) (a : Action) :
    (b.retell a).part r = (retold (b.retell a).topic (later ++ [a])).part r := by
  rw [retell_topic, retold_concat]
  exact part_retell (retold_topic _ _).symm h a

/-- A builder that was not opened holds nothing. -/
theorem part_retold_of_not_edited {t : Topic} (h : t ∉ edited log) :
    (retold t log).part r = {} := by
  induction log using List.reverseRecOn with
  | nil => rfl
  | append_singleton log a ih =>
    rw [edited_concat, List.mem_append, not_or] at h
    have hnone := ih h.1
    rw [retold_concat]
    cases a with
    | mutated p edits report =>
      have hne : report.topic ≠ (retold t log).topic := by
        rw [retold_topic]
        rintro rfl
        exact h.2 (by simp [Action.edited?])
      rw [retell, if_neg hne]
      exact hnone
    | scrubbed rs =>
      rw [retell, part_scrub, hnone, ite_self]
    | _ => exact hnone

end Builder

namespace Line

theorem of_append_of_other (log : List Action) (h : ∀ a ∈ later, a.isOfBacklog = false) :
    of (log ++ later) = of log := by
  induction later using List.reverseRecOn with
  | nil => rw [List.append_nil]
  | append_singleton later a ih =>
    obtain ⟨hlater, ha⟩ := List.forall_mem_append.mp h
    rw [← List.append_assoc, of_concat, ih hlater, hear_of_other _ (ha a (by simp))]

/-- Every builder in line was there before, or was opened now. -/
theorem mem_hear {l : Line} {a : Action} {b : Builder} (h : b ∈ (l.hear a).builders) :
    ∃ b', b = b'.retell a ∧ (b' ∈ l.builders ∨ ∃ p edits report, a = .mutated p edits report ∧
      b' = { topic := report.topic } ∧ ∀ b'' ∈ l.builders, b''.topic ≠ report.topic) := by
  cases a with
  | mutated p edits report =>
    obtain ⟨b', hb', rfl⟩ := List.mem_map.mp h
    refine ⟨b', rfl, ?_⟩
    unfold opened at hb'
    split at hb'
    · exact .inl hb'
    · rename_i hnew
      rcases List.mem_append.mp hb' with hb' | hb'
      · exact .inl hb'
      · exact .inr ⟨p, edits, report, rfl, List.mem_singleton.mp hb', by simpa using hnew⟩
  | scrubbed rs =>
    obtain ⟨b', hb', rfl⟩ := List.mem_map.mp (List.mem_filter.mp h).1
    exact ⟨b', rfl, .inl hb'⟩
  | dequeued b' => exact ⟨b, rfl, .inl (List.mem_of_mem_tail h)⟩
  | discarded b' => exact ⟨b, rfl, .inl (List.mem_of_mem_tail h)⟩
  | _ => exact ⟨b, rfl, .inl h⟩

namespace Kept

/-- A topic that is not in line when edits report it was never opened. -/
theorem not_edited {p : Nat} {edits : List Edit} {report : EditReport} (h : Kept log backlog)
    (c : Backlog.Change backlog (.mutated p edits report) backlog')
    (hnew : ∀ b ∈ (of log).builders, b.topic ≠ report.topic) : report.topic ∉ edited log := by
  cases c with
  | edited hm htopic =>
    cases hm with
    | @join front b hb hfit =>
      refine absurd htopic.symm (hnew b ?_)
      rw [h.builders, hb]
      exact List.mem_append_right _ (List.mem_singleton_self b)
    | begin hopen ht => exact fun hmem => (h.fresh _ ht _ hmem).ne htopic
  | other ha => cases ha

/-- **A fresh start.**  When no builder in line holds anything for a request, each holds from then
on what a new builder would that is given the same. -/
theorem afresh (h : Kept log backlog) (t : Backlog.Trace backlog later backlog')
    (hnone : ∀ b ∈ backlog.builders, b.part r = {}) :
    Kept (log ++ later) backlog' ∧
      ∀ b ∈ backlog'.builders, b.part r = (Builder.retold b.topic later).part r := by
  induction t with
  | nil =>
    rw [List.append_nil]
    exact ⟨h, hnone⟩
  | @concat later a middle backlog' t c ih =>
    obtain ⟨hkept, hparts⟩ := ih
    have hnext : Kept (log ++ (later ++ [a])) backlog' := by
      rw [← List.append_assoc]
      exact hkept.change c
    refine ⟨hnext, ?_⟩
    intro b hb
    rw [← hnext.builders, ← List.append_assoc, of_concat] at hb
    obtain ⟨b', rfl, hb' | ⟨p, edits, report, rfl, rfl, hnew⟩⟩ := mem_hear hb
    · rw [hkept.builders] at hb'
      exact Builder.part_retell_retold (hparts b' hb') a
    · have hnot := hkept.not_edited c hnew
      rw [edited, List.filterMap_append, List.mem_append, not_or] at hnot
      refine Builder.part_retell_retold ?_ _
      rw [Builder.part_retold_of_not_edited hnot.2]
      rfl

end Kept

end Line

/-! ## Bytes -/

/-- The edits keep to the lengths of blocks. -/
def Action.IsEven (len : Link → Nat) : Action → Prop
  | mutated _ edits _ => ∀ e ∈ edits, e.IsEven len
  | _ => True

/-- The bytes given back in these entries. -/
def released (log : List Action) : Nat := (Books.total (log.map Action.books)).released

/-- The bytes reserved for builders. -/
def sizes (builders : List Builder) : Nat := (builders.map Builder.size).sum

theorem Queue.Receipt.released_eq {n : Nat} {receipt : List Action} (h : Receipt n receipt) :
    released receipt = n := by
  cases h with
  | none => rfl
  | one hn failure => rfl

/-- Builders keep their sizes as long as links determine lengths. -/
theorem Backlog.Change.accounted {len : Link → Nat} {a : Action} (c : Change backlog a backlog')
    (h : backlog.Accounted len) (ha : a.IsEven len) : backlog'.Accounted len := by
  cases c with
  | edited hm htopic =>
    cases hm with
    | @join front b hb hfit =>
      intro b' hb'
      rcases List.mem_append.mp hb' with hb' | hb'
      · exact h b' (hb ▸ List.mem_append_left _ hb')
      · rw [List.mem_singleton.mp hb']
        exact (h b (hb ▸ List.mem_append_right _ (List.mem_singleton_self b))).applyAll_of_isEven ha
    | @begin t hnew ht =>
      intro b' hb'
      rcases List.mem_append.mp hb' with hb' | hb'
      · exact h b' hb'
      · rw [List.mem_singleton.mp hb']
        exact (Builder.accounted_new t).applyAll_of_isEven ha
  | scrubbed rs => exact (bytes_scrub h rs).1
  | dequeued hb => exact fun b' hb' => h b' (hb ▸ List.mem_cons_of_mem _ hb')
  | discarded hb => exact fun b' hb' => h b' (hb ▸ List.mem_cons_of_mem _ hb')
  | other ha => exact h

theorem Backlog.Trace.accounted {len : Link → Nat} (t : Trace backlog log backlog')
    (h : backlog.Accounted len) (heven : ∀ a ∈ log, a.IsEven len) : backlog'.Accounted len := by
  induction t with
  | nil => exact h
  | concat t c ih =>
    obtain ⟨hlog, ha⟩ := List.forall_mem_append.mp heven
    exact c.accounted (ih hlog) (ha _ (List.mem_singleton_self _))

/-! ## What a failure leaves behind -/

namespace Queue

variable {start q q₁ q₂ : Queue}

/-- The message `d` of the builder `b` has failed, which has led from `q₁` to `q₂`, and `others`
were the other builders then.  Memory is given back in the entries `purge`, before the failure is
published, and `back`; `rest` is what has happened since. -/
structure Purged (q₁ q₂ : Queue) (b : Builder) (d : Finished) (others : List Builder)
    (purge back rest : List Action) : Prop where
  /-- The builder was taken before, or is the first in line. -/
  found : (.dequeued b ∈ q₁.log ∧ q₁.backlog.builders = others) ∨ q₁.backlog.builders = b :: others
  /-- The message is what the builder held. -/
  message : b.finish? = some d
  /-- Its requests are those with a response or a stream in it. -/
  requests : ∀ r, r ∈ d.requests ↔ b.hasResponse r = true ∨ b.streams.contains r = true
  /-- They are scrubbed from the other builders. -/
  line : q₂.backlog.builders = (others.map (·.scrub d.requests)).filter (fun b => !b.isEmpty)
  /-- Nothing is left for them. -/
  gone : ∀ b' ∈ q₂.backlog.builders, ∀ r ∈ d.requests, b'.part r = {}
  /-- Nothing is sent any more. -/
  unsent : ∀ m, .sending m ∉ rest
  /-- What is taken later holds for them only what it was given later. -/
  afresh : ∀ left b' right, rest = left ++ .dequeued b' :: right →
    ∀ r ∈ d.requests, b'.part r = (Builder.retold b'.topic left).part r
  /-- What is published later is about what is taken later. -/
  reports : ∀ t e n, .published t e n ∈ rest → ∃ left b' right d',
    rest = left ++ .dequeued b' :: right ∧ .published t e n ∈ right ∧ b'.finish? = some d' ∧
      d'.topic = t ∧ e = ⟨.failed .shutdown, d'.metadata⟩
  /-- A builder that this leaves empty is never taken. -/
  emptied : ∀ b' ∈ others, (b'.scrub d.requests).isEmpty = true →
    ∀ b'', .dequeued b'' ∈ rest → b''.topic ≠ b'.topic
  /-- What is given back is what the other builders lose and what the message held. -/
  bytes : ∀ len : Link → Nat, (∀ a ∈ q₁.log, a.IsEven len) →
    released purge + released back + sizes q₂.backlog.builders = sizes others + d.size

/-- What is given back for a scrub and a message makes up for what is lost. -/
theorem bytes_given_back {d : Finished} {purge back : List Action} {len : Link → Nat}
    (h : backlog.Accounted len) (hpurge : Receipt (backlog.scrubFrees d.requests) purge)
    (hback : Receipt d.size back) :
    released purge + released back + sizes (backlog.scrub d.requests).builders =
      sizes backlog.builders + d.size := by
  have hbytes := (Backlog.bytes_scrub h d.requests).2
  rw [hpurge.released_eq, hback.released_eq]
  unfold Backlog.bytes at hbytes
  unfold sizes
  omega

namespace Failing

variable {d : Finished} {cause : QueueError} {head : Option Builder} {others : List Builder}
  {entries : List Action}

/-- The builder whose message fails was taken before, or is the first in line. -/
theorem found (h : Failing q₁ d cause head others entries q₂) (hnew : start.IsNew)
    (p : Path (fun _ => True) start q₁) : ∃ b, b.finish? = some d ∧
      ((.dequeued b ∈ q₁.log ∧ q₁.backlog.builders = others) ∨
        q₁.backlog.builders = b :: others) := by
  rcases h.message with ⟨-, hdelivery, rfl⟩ | ⟨b, -, hf, hb⟩
  · obtain ⟨told, hwritten⟩ := hnew.written p
    obtain ⟨b, hf, htaken⟩ := hwritten.taken_eq_concat hdelivery
    refine ⟨b, hf, .inl ⟨mem_taken.mp ?_, rfl⟩⟩
    rw [htaken]
    exact List.mem_append_right _ (List.mem_singleton_self b)
  · exact ⟨b, hf, .inr hb⟩

/-- The line just before the requests are scrubbed. -/
theorem line (h : Failing q₁ d cause head others entries q₂) (hnew : start.IsNew)
    (p : Path (fun _ => True) start q₁) :
    (Line.of (q₁.log ++ (taking d head ++ (streamsInOrder d).map .streamClosed))).builders =
      others := by
  have hkept := (hnew.kept p).builders
  have hstreams : ∀ a ∈ (streamsInOrder d).map Action.streamClosed, a.isOfBacklog = false := by
    intro a ha
    obtain ⟨s, -, rfl⟩ := List.mem_map.mp ha
    rfl
  rw [← List.append_assoc, Line.of_append_of_other _ hstreams]
  rcases h.message with ⟨rfl, -, rfl⟩ | ⟨b, rfl, -, hb⟩
  · rw [taking, List.append_nil, hkept]
    rfl
  · have hsinks : ∀ a ∈ d.sinks.map (Action.subscribed d.topic), a.isOfBacklog = false := by
      intro a ha
      obtain ⟨s, -, rfl⟩ := List.mem_map.mp ha
      rfl
    rw [taking, List.append_cons, Line.of_append_of_other _ hsinks, Line.of_concat]
    show (Line.of q₁.log).builders.tail = others
    rw [hkept]
    show q₁.backlog.builders.tail = others
    rw [hb]
    rfl

/-- The builders in line have their sizes, so what is given back makes up for what is lost. -/
theorem bytes {purge back : List Action} {len : Link → Nat}
    (h : Failing q₁ d cause head others entries q₂) (hnew : start.IsNew)
    (p : Path (fun _ => True) start q₁)
    (hpurge : Receipt ({ q₁.backlog with builders := others }.scrubFrees d.requests) purge)
    (hback : Receipt d.size back) (heven : ∀ a ∈ q₁.log, a.IsEven len) :
    released purge + released back + sizes q₂.backlog.builders = sizes others + d.size := by
  have hnew' : start.backlog.line.Accounted len := by
    intro b hb
    rw [Backlog.line, hnew.builders_eq] at hb
    cases hb
  have hall : q₁.backlog.Accounted len := (hnew.trace p).accounted hnew' heven
  have hothers : { q₁.backlog with builders := others }.Accounted len := by
    intro b hb
    refine hall b ?_
    rcases h.message with ⟨-, -, rfl⟩ | ⟨b', -, -, hb'⟩
    · exact hb
    · rw [hb']
      exact List.mem_cons_of_mem _ hb
  rw [h.backlog]
  exact bytes_given_back hothers hpurge hback

end Failing

/-- A builder that a scrub has dropped is not taken any more. -/
theorem not_taken_of_dropped {before after : List Action} {rs : List RequestId} {b b' : Builder}
    (hnew : start.IsNew) (p : Path (fun _ => True) start q)
    (hlog : q.log = before ++ .scrubbed rs :: after) (hb : b ∈ (Line.of before).builders)
    (hempty : (b.scrub rs).isEmpty = true) (hb' : .dequeued b' ∈ q.log) : b'.topic ≠ b.topic := by
  intro htopic
  have hdropped : b.topic ∈ (Line.of q.log).dropped := by
    rw [hlog, List.append_cons]
    refine (Line.dropped_prefix _ after).subset ?_
    rw [Line.of_concat]
    refine List.mem_append_right _ (List.mem_map.mpr ⟨b.scrub rs, ?_, b.scrub_topic rs⟩)
    exact List.mem_filter.mpr ⟨List.mem_map_of_mem hb, hempty⟩
  have hremoved : b.topic ∈ removed q.log :=
    List.mem_filterMap.mpr ⟨_, hb', congrArg some htopic⟩
  -- the topic would be in two places
  have htally := (hnew.kept p).tally b.topic
  have hone := List.count_pos_iff.mpr hdropped
  have htwo := List.count_pos_iff.mpr hremoved
  split at htally <;> omega

/-- When nothing is in line for a request, what is taken later holds for it only what it was given
since. -/
theorem afresh_of_taken {r : RequestId} {left right : List Action} {b : Builder}
    (hnew : start.IsNew) (h₁ : Path (fun _ => True) start q₂) (h₂ : Path (fun _ => True) q₂ q)
    (hlog : q.log = q₂.log ++ (left ++ .dequeued b :: right))
    (hnone : ∀ b' ∈ q₂.backlog.builders, b'.part r = {}) :
    b.part r = (Builder.retold b.topic left).part r := by
  obtain ⟨log, hlog', htrace⟩ := h₂.trace
  obtain rfl : log = left ++ .dequeued b :: right :=
    List.append_cancel_left (hlog'.symm.trans hlog)
  obtain ⟨middle, hleft, hright⟩ := htrace.split
  obtain ⟨middle', hchange, -⟩ := hright.uncons
  refine ((hnew.kept h₁).afresh hleft hnone).2 b ?_
  cases hchange with
  | dequeued hb =>
    rw [hb]
    exact List.mem_cons_self ..
  | other ha => cases ha

/-- A message that fails leaves this behind. -/
theorem Failing.purged {d : Finished} {cause : QueueError} {head : Option Builder}
    {others : List Builder} {entries purge back rest : List Action} {n : Nat}
    (h : Failing q₁ d cause head others entries q₂) (hnew : start.IsNew)
    (h₁ : Path (fun _ => True) start q₁) (act : Act (fun _ => True) q₁ entries q₂)
    (h₂ : Path (fun _ => True) q₂ q)
    (hpurge : Receipt ({ q₁.backlog with builders := others }.scrubFrees d.requests) purge)
    (hback : Receipt d.size back)
    (hentries : entries = taking d head ++ failureEntries d cause n purge back)
    (hrest : q.log = q₂.log ++ rest) : ∃ b, Purged q₁ q₂ b d others purge back rest := by
  have h₁₂ := h₁.tail ⟨_, act⟩
  have hline : q₂.backlog.builders =
      (others.map (·.scrub d.requests)).filter (fun b => !b.isEmpty) := by
    rw [h.backlog]
    rfl
  have hgone : ∀ b' ∈ q₂.backlog.builders, ∀ r ∈ d.requests, b'.part r = {} := by
    intro b' hb' r hr
    rw [hline] at hb'
    obtain ⟨b₀, -, rfl⟩ := List.mem_map.mp (List.mem_filter.mp hb').1
    rw [Builder.part_scrub, if_pos hr]
  have hleaving : Leaving q₂ := ⟨h.stopRequested, h.delivery?⟩
  obtain ⟨log, hlog, hidling⟩ := hleaving.path h₂
  obtain rfl : log = rest := List.append_cancel_left (hlog.symm.trans hrest)
  obtain ⟨b, hf, hfound⟩ := h.found hnew h₁
  refine ⟨b, hfound, hf, fun r => Builder.mem_requests hf, hline, hgone, hidling.unsent, ?_,
    hidling.reports, ?_, fun len => h.bytes hnew h₁ hpurge hback⟩
  · rintro left b' right rfl r hr
    exact afresh_of_taken hnew h₁₂ h₂ hrest fun b'' hb'' => hgone b'' hb'' r hr
  · intro b' hb' hempty b'' hb''
    rw [← h.line hnew h₁] at hb'
    have hall : q.log = q₁.log ++ (taking d head ++ (streamsInOrder d).map .streamClosed) ++
        .scrubbed d.requests :: (purge ++ .published d.topic ⟨.failed cause, d.metadata⟩ n ::
          (back ++ .closed d.topic :: log)) := by
      rw [hrest, act.log_eq, hentries, failureEntries]
      simp
    refine not_taken_of_dropped hnew (h₁₂.trans h₂) hall hb' hempty ?_
    rw [hrest]
    exact List.mem_append_right _ hb''

/-- **A failure takes its requests with it.**  In whatever order the worker and the producers have
their turns, a failure that is published belongs to an act of the worker in which everything that
belongs to the requests of the message is removed from all other builders, and nothing of it is ever
sent or told of: no send begins any more, whatever is reported later was put together later, and the
builders left empty are gone.  The memory given back is what the builders lose and what the message
held. -/
theorem failure_purges (hnew : start.IsNew) (h : Path (fun _ => True) start q)
    {pre post : List Action} {t : Topic} {cause : QueueError} {md : Metadata} {n : Nat}
    (hlog : q.log = pre ++ .published t ⟨.failed cause, md⟩ n :: post) :
    ∃ q₁ q₂ b d others front purge back rest, Path (fun _ => True) start q₁ ∧
      Path (fun _ => True) q₁ q₂ ∧ Path (fun _ => True) q₂ q ∧ d.topic = t ∧ d.metadata = md ∧
      pre = q₁.log ++ (front ++ .scrubbed d.requests :: purge) ∧
      q₂.log = pre ++ .published t ⟨.failed cause, md⟩ n :: (back ++ [.closed t]) ∧
      q.log = q₂.log ++ rest ∧ Purged q₁ q₂ b d others purge back rest := by
  obtain ⟨q₁, q₂, left, right, rest, h₁, act, h₂, rfl, rfl, hrest⟩ :=
    h.cut hlog (hnew.log_eq ▸ List.nil_prefix)
  obtain ⟨d, cause', head, others, hf⟩ :=
    act.failing (List.mem_append_right _ (List.mem_cons_self ..)) rfl
  obtain ⟨n', purge, back, hpurge, hback, hentries⟩ := hf.entries
  obtain ⟨b, hpurged⟩ := hf.purged hnew h₁ act h₂ hpurge hback hentries hrest
  -- the entry is the one that the act makes about the failure
  obtain ⟨rfl, heq, rfl⟩ := eq_of_failure hpurge hback hentries rfl
  cases heq
  refine ⟨q₁, q₂, b, d, others, taking d head ++ (streamsInOrder d).map .streamClosed, purge, back,
    rest, h₁, act.path, h₂, rfl, rfl, ?_, ?_, hrest, hpurged⟩
  · rw [List.append_assoc]
  · rw [act.log_eq]
    simp

/-- A send fails while two more builders hold something for its request; one of them holds nothing
else. -/
theorem failure_purges_of_send :
    let start : Queue := { peer := Peer.zero, settings := {} }
    let present : Edit := .addLink default default .present
    let block : Edit := .addBlock (Block.fill default 4 1)
    let other : Edit := .setStatus ⟨.fill 16 1⟩ .requestAcknowledged
    let q := start.run [.reserve 0 0 [present], .startup, .work none, .work (some .opened),
      .reserve 1 4 [present, block, other], .reserve 2 600000 [present],
      .work (some (.sendFailed .streamReset)), .work (some .resetDone)]
    ∃ pre post t cause md n, q.log = pre ++ .published t ⟨.failed cause, md⟩ n :: post ∧
      ∃ q₁ q₂ b d others front purge back rest, Path (fun _ => True) start q₁ ∧
        Path (fun _ => True) q₁ q₂ ∧ Path (fun _ => True) q₂ q ∧ d.topic = t ∧ d.metadata = md ∧
        pre = q₁.log ++ (front ++ .scrubbed d.requests :: purge) ∧
        q₂.log = pre ++ .published t ⟨.failed cause, md⟩ n :: (back ++ [.closed t]) ∧
        q.log = q₂.log ++ rest ∧ Purged q₁ q₂ b d others purge back rest := by
  intro start present block other q
  have hnew : start.IsNew := rfl
  have hreach : Reachable start q := ⟨_, rfl⟩
  have hany : q.log.any Action.isFailure = true := by decide +kernel
  obtain ⟨a, ha, hfail⟩ := List.any_eq_true.mp hany
  obtain ⟨pre, post, hlog⟩ := List.append_of_mem ha
  obtain ⟨t, cause, md, n, rfl⟩ := Action.of_isFailure hfail
  exact ⟨pre, post, t, cause, md, n, hlog, failure_purges hnew hreach.path hlog⟩

end Queue

end Outbox
