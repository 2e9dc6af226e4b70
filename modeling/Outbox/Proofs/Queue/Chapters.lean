import Outbox.Proofs.Queue.Act

/-!
# The chapters of a worker's life

A worker deals with one builder after the other, and what it does about one is over before it takes
the next.  Its deeds are therefore a book with one chapter for each builder that it took: the
builder was empty, or its message was sent, or its delivery failed, or it was left when the worker
was asked to stop.

* `Deed`, `Queue.deeds` — what a worker does about messages, read off the log;
* `Chapter`, `Chapter.text` — the fates of a builder that was taken, and what is done in each;
* `Queue.Written` — the deeds are these chapters and a draft about the message under way; no message
  is announced after a failure, and a failure is never without a scrub;
* `Queue.Written.act` — every act of a path keeps to it, with `Queue.IsNew.written`;
* `Queue.Written.taken_eq` — there is one chapter for each builder that was taken.
-/

namespace Outbox

/-! ## Deeds -/

/-- Something that a worker does about a message. -/
inductive Deed where
  /-- A builder is taken off the backlog. -/
  | took (b : Builder)
  /-- A sink is registered for a topic. -/
  | registered (t : Topic) (s : Sink)
  /-- An event is published. -/
  | told (t : Topic) (e : Event)
  /-- The send of a message begins. -/
  | sending (m : Message)
  /-- A topic is closed. -/
  | closed (t : Topic)

/-- The deed that an action is, if it is one. -/
def Action.deed? : Action → Option Deed
  | dequeued b => some (.took b)
  | subscribed t s => some (.registered t s)
  | published t e _ => some (.told t e)
  | sending m => some (.sending m)
  | closed t => some (.closed t)
  | _ => none

/-- The deeds so far, in order. -/
def Queue.deeds (q : Queue) : List Deed := q.log.filterMap Action.deed?

theorem Action.deed?_of_isQuiet {a : Action} (h : a.isQuiet = true) : a.deed? = none := by
  cases a <;> first | rfl | cases h

/-! ## Chapters -/

/-- What became of a builder that was taken. -/
inductive Chapter where
  /-- There was nothing in it. -/
  | skipped (b : Builder)
  /-- Its message was sent. -/
  | sent (b : Builder) (d : Finished)
  /-- The delivery of its message failed, before or after the send had begun. -/
  | failed (b : Builder) (d : Finished) (begun : Bool) (cause : QueueError)
  /-- Its message was left when the worker was asked to stop. -/
  | drained (b : Builder) (d : Finished)

namespace Chapter

/-- The builder. -/
def builder : Chapter → Builder
  | skipped b => b
  | sent b _ => b
  | failed b _ _ _ => b
  | drained b _ => b

/-- The topic of the builder. -/
def topic (c : Chapter) : Topic := c.builder.topic

/-- A builder is taken and its message announced to those who watch it. -/
def opening (b : Builder) (d : Finished) : List Deed :=
  .took b :: (d.sinks.map (.registered d.topic) ++ [.told d.topic ⟨.queued, d.metadata⟩])

/-- The last that is told of a message. -/
def ending (d : Finished) (stage : Stage) : List Deed :=
  [.told d.topic ⟨stage, d.metadata⟩, .closed d.topic]

/-- What the worker does in a chapter. -/
def text : Chapter → List Deed
  | skipped b => [.took b]
  | sent b d => opening b d ++ .sending d.message :: ending d .sent
  | failed b d begun cause =>
    opening b d ++ ((if begun then [.sending d.message] else []) ++ ending d (.failed cause))
  | drained b d =>
    .took b :: (d.sinks.map (.registered d.topic) ++ ending d (.failed .shutdown))

/-- The chapter is about what the builder held, and a failed delivery has a cause of its own. -/
def Proper : Chapter → Prop
  | skipped b => b.finish? = none
  | sent b d => b.finish? = some d
  | failed b d _ cause => b.finish? = some d ∧ cause.isOfDelivery = true
  | drained b d => b.finish? = some d

/-- The message is reported as failed. -/
def fails : Chapter → Bool
  | failed .. => true
  | drained .. => true
  | _ => false

/-- The message is announced. -/
def announces : Chapter → Bool
  | sent .. => true
  | failed .. => true
  | _ => false

end Chapter

/-! ## The draft -/

namespace Worker

/-- The message under way. -/
def delivery? : Worker → Option Finished
  | opening d => some d
  | sending d => some d
  | resetting d _ => some d
  | _ => none

/-- What is done so far about the message under way, whose builder is `b`. -/
def draft (b : Builder) : Worker → List Deed
  | opening d => Chapter.opening b d
  | sending d => Chapter.opening b d ++ [.sending d.message]
  | resetting d _ => Chapter.opening b d ++ [.sending d.message]
  | _ => []

theorem draft_of_delivery?_eq_none {w : Worker} (h : w.delivery? = none) (b : Builder) :
    w.draft b = [] := by
  cases w <;> first | rfl | cases h

end Worker

namespace Queue

/-- The deeds so far are these chapters, and the draft of one more. -/
structure Written (told : List Chapter) (q : Queue) : Prop where
  /-- These are the deeds. -/
  deeds : ∃ b, q.deeds = told.flatMap Chapter.text ++ q.worker.draft b ∧
    ∀ d ∈ q.worker.delivery?, b.finish? = some d
  /-- The chapters are what they say. -/
  proper : ∀ c ∈ told, c.Proper
  /-- A delivery that is about to fail has a cause of its own. -/
  cause : ∀ d cause, q.worker = .resetting d cause → cause.isOfDelivery = true
  /-- Nothing is announced after a failure. -/
  order : told.Pairwise fun c c' => c.fails = true → c'.announces = false
  /-- After a failure the worker is asked to stop and no message is under way, and requests were
  scrubbed. -/
  failure : ∀ c ∈ told, c.fails = true →
    q.stopRequested = true ∧ q.worker.delivery? = none ∧ ∃ rs, .scrubbed rs ∈ q.log

variable {others : Sink → Prop} {start q q' : Queue}

theorem Act.deeds_eq {entries : List Action} (a : Act others q entries q') :
    q'.deeds = q.deeds ++ entries.filterMap Action.deed? := by
  unfold deeds
  rw [a.log_eq, List.filterMap_append]

/-! ## What entries mean as deeds -/

theorem filterMap_deed?_of_isQuiet {entries : List Action}
    (h : ∀ a ∈ entries, a.isQuiet = true) : entries.filterMap Action.deed? = [] :=
  List.filterMap_eq_nil_iff.mpr fun a ha => Action.deed?_of_isQuiet (h a ha)

theorem Receipt.deeds_eq {n : Nat} {receipt : List Action} (h : Receipt n receipt) :
    receipt.filterMap Action.deed? = [] :=
  filterMap_deed?_of_isQuiet h.isQuiet

theorem filterMap_deed?_map {α : Type} {f : α → Action} {g : α → Deed}
    (h : ∀ x, (f x).deed? = some (g x)) (l : List α) :
    (l.map f).filterMap Action.deed? = l.map g := by
  induction l with
  | nil => rfl
  | cons x rest ih => simp [h, ih]

theorem filterMap_deed?_discards (builders : List Builder) :
    (builders.map .discarded).filterMap Action.deed? = [] := by
  refine List.filterMap_eq_nil_iff.mpr fun a ha => ?_
  obtain ⟨b, -, rfl⟩ := List.mem_map.mp ha
  rfl

theorem filterMap_deed?_failureEntries {d : Finished} {cause : QueueError} {n m m' : Nat}
    {purge back : List Action} (hpurge : Receipt m purge) (hback : Receipt m' back) :
    (failureEntries d cause n purge back).filterMap Action.deed? =
      Chapter.ending d (.failed cause) := by
  have hstreams : ((streamsInOrder d).map Action.streamClosed).filterMap Action.deed? = [] := by
    refine List.filterMap_eq_nil_iff.mpr fun a ha => ?_
    obtain ⟨s, -, rfl⟩ := List.mem_map.mp ha
    rfl
  simp [failureEntries, hstreams, hpurge.deeds_eq, hback.deeds_eq, List.filterMap_cons,
    Action.deed?, Chapter.ending]

theorem filterMap_deed?_announcement (q : Queue) (sender : Bool) (b : Builder) (d : Finished)
    (n : Nat) : (q.announcement sender b d n).filterMap Action.deed? =
      (firstStand sender d).draft b := by
  have hsinks : (d.sinks.map (Action.subscribed d.topic)).filterMap Action.deed? =
      d.sinks.map (.registered d.topic) := filterMap_deed?_map (fun _ => rfl) _
  cases sender with
  | true =>
    simp [announcement, firstAction, firstStand, hsinks, Action.deed?, Worker.draft,
      Chapter.opening]
  | false =>
    simp [announcement, firstAction, firstStand, hsinks, Action.deed?, Worker.draft,
      Chapter.opening]

theorem filterMap_deed?_completion {d : Finished} {n m : Nat} {back : List Action}
    (hback : Receipt m back) :
    (completion d n back).filterMap Action.deed? = Chapter.ending d .sent := by
  simp [completion, hback.deeds_eq, List.filterMap_cons, Action.deed?, Chapter.ending]

/-! ## Acts -/

namespace Written

variable {told : List Chapter} {entries : List Action}

/-- An act without deeds leaves the chapters as they are, if it starts or ends no delivery. -/
theorem aside (h : Written told q) (a : Act others q entries q')
    (hdeeds : entries.filterMap Action.deed? = [])
    (hdraft : ∀ b, q'.worker.draft b = q.worker.draft b)
    (hdelivery : q'.worker.delivery? = q.worker.delivery?)
    (hcause : ∀ d cause, q'.worker = .resetting d cause → cause.isOfDelivery = true)
    (hstop : q.stopRequested = true → q'.stopRequested = true) : Written told q' := by
  obtain ⟨⟨b, hb, hf⟩, hproper, -, horder, hfailure⟩ := h
  refine ⟨⟨b, ?_, ?_⟩, hproper, hcause, horder, ?_⟩
  · rw [a.deeds_eq, hdeeds, List.append_nil, hdraft, hb]
  · rw [hdelivery]
    exact hf
  · intro c hc hfails
    obtain ⟨hs, hnone, rs, hrs⟩ := hfailure c hc hfails
    refine ⟨hstop hs, hdelivery.trans hnone, rs, ?_⟩
    rw [a.log_eq]
    exact List.mem_append_left _ hrs

/-- No message is under way, so the deeds are the chapters. -/
theorem deeds_eq (h : Written told q) (hnone : q.worker.delivery? = none) :
    q.deeds = told.flatMap Chapter.text := by
  obtain ⟨b, hb, -⟩ := h.deeds
  rw [hb, Worker.draft_of_delivery?_eq_none hnone, List.append_nil]

/-- One more chapter is written. -/
theorem next {c : Chapter} (h : Written told q) (a : Act others q entries q')
    (hdeeds : q'.deeds = told.flatMap Chapter.text ++ c.text) (hnone : q'.worker.delivery? = none)
    (hc : c.Proper) (horder : c.announces = true → ∀ c' ∈ told, c'.fails = false)
    (hstop : q.stopRequested = true → q'.stopRequested = true)
    (hfailure : c.fails = true → q'.stopRequested = true ∧ ∃ rs, .scrubbed rs ∈ q'.log) :
    Written (told ++ [c]) q' := by
  refine ⟨⟨c.builder, ?_, ?_⟩, ?_, ?_, ?_, ?_⟩
  · rw [hdeeds, Worker.draft_of_delivery?_eq_none hnone]
    simp
  · rw [hnone]
    intro d hd
    cases hd
  · intro c' hc'
    rcases List.mem_append.mp hc' with hc' | hc'
    · exact h.proper c' hc'
    · rw [List.mem_singleton.mp hc']
      exact hc
  · intro d cause hw
    rw [hw] at hnone
    cases hnone
  · refine List.pairwise_append.mpr ⟨h.order, List.pairwise_singleton _ _, ?_⟩
    intro c' hc' c'' hc'' hfails
    rw [List.mem_singleton.mp hc'']
    by_contra hann
    rw [horder (by simpa using hann) c' hc'] at hfails
    cases hfails
  · intro c' hc' hfails
    rcases List.mem_append.mp hc' with hc' | hc'
    · obtain ⟨hs, -, rs, hrs⟩ := h.failure c' hc' hfails
      refine ⟨hstop hs, hnone, rs, ?_⟩
      rw [a.log_eq]
      exact List.mem_append_left _ hrs
    · rw [List.mem_singleton.mp hc'] at hfails
      obtain ⟨hs, hrs⟩ := hfailure hfails
      exact ⟨hs, hnone, hrs⟩

/-- While a message is under way or may still be announced, nothing has failed. -/
theorem fails_eq (h : Written told q)
    (hq : q.stopRequested = false ∨ ∃ d, q.worker.delivery? = some d) :
    ∀ c ∈ told, c.fails = false := by
  intro c hc
  by_contra hfails
  obtain ⟨hs, hnone, -⟩ := h.failure c hc (by simpa using hfails)
  rcases hq with hq | ⟨d, hd⟩
  · rw [hs] at hq
    cases hq
  · rw [hd] at hnone
    cases hnone

theorem act (h : Written told q) (a : Act others q entries q') :
    ∃ told', Written told' q' := by
  have hact := a
  cases a with
  | aside he hs hc hr =>
    exact ⟨told, h.aside hact (filterMap_deed?_of_isQuiet he) (fun _ => rfl) rfl h.cause hs⟩
  | attached ho => exact ⟨told, h.aside hact rfl (fun _ => rfl) rfl h.cause id⟩
  | departed ho => exact ⟨told, h.aside hact rfl (fun _ => rfl) rfl h.cause id⟩
  | edited hc hm => exact ⟨told, h.aside hact rfl (fun _ => rfl) rfl h.cause id⟩
  | scrubbed hr =>
    exact ⟨told, h.aside hact hr.deeds_eq (fun _ => rfl) rfl h.cause id⟩
  | launched hw hr =>
    refine ⟨told, h.aside hact rfl (fun _ => ?_) ?_ ?_ id⟩
    · rw [hw]
      rfl
    · rw [hw]
      rfl
    · intro d cause hw'
      cases hw'
  | dropped hw =>
    exact ⟨told, h.aside hact (filterMap_deed?_discards _) (fun _ => rfl) rfl h.cause
      fun _ => rfl⟩
  | started hw =>
    refine ⟨told, h.aside hact rfl (fun _ => ?_) ?_ ?_ id⟩
    · rw [hw]
      rfl
    · rw [hw]
      rfl
    · intro d cause hw'
      cases hw'
  | @skipped sender token b rest hw hb hf =>
    have hnone : q.worker.delivery? = none := by
      rw [hw]
      rfl
    refine ⟨told ++ [.skipped b], h.next (c := .skipped b) hact ?_ hnone hf ?_ id ?_⟩
    · rw [hact.deeds_eq, h.deeds_eq hnone]
      rfl
    · intro hann
      cases hann
    · intro hfails
      cases hfails
  | @announced sender token b rest d bus post n entries hw hs hb hf hp he =>
    have hnone : q.worker.delivery? = none := by
      rw [hw]
      rfl
    have hfirst : (firstStand sender d).delivery? = some d := by cases sender <;> rfl
    have hnofail := h.fails_eq (.inl hs)
    refine ⟨told, ⟨b, ?_, ?_⟩, h.proper, ?_, h.order, ?_⟩
    · rw [hact.deeds_eq, he, filterMap_deed?_announcement, h.deeds_eq hnone]
    · intro d' hd'
      rw [hfirst] at hd'
      cases hd'
      exact hf
    · intro d' cause hw'
      cases sender <;> cases hw'
    · intro c hc hfails
      rw [hnofail c hc] at hfails
      cases hfails
  | @opened d hw =>
    obtain ⟨⟨b, hb, hf⟩, hproper, hcause, horder, hfailure⟩ := h
    rw [hw] at hb hf hfailure
    refine ⟨told, ⟨b, ?_, hf⟩, hproper, ?_, horder, ?_⟩
    · rw [hact.deeds_eq, hb, List.append_assoc]
      rfl
    · intro d' cause hw'
      cases hw'
    · intro c hc hfails
      obtain ⟨-, hnone, -⟩ := hfailure c hc hfails
      cases hnone
  | @sent d pool bus post n back entries hw hback hp he =>
    have hnofail := h.fails_eq (.inr ⟨d, by rw [hw]; rfl⟩)
    obtain ⟨b, hb, hf⟩ := h.deeds
    rw [hw] at hb hf
    refine ⟨told ++ [.sent b d],
      h.next (c := .sent b d) hact ?_ rfl (hf d rfl) (fun _ => hnofail) id ?_⟩
    · rw [hact.deeds_eq, hb, he, filterMap_deed?_completion hback]
      simp [Chapter.text, Worker.draft]
    · intro hfails
      cases hfails
  | @interrupted d cause entries hw hcause he =>
    refine ⟨told, h.aside hact ?_ (fun b => ?_) ?_ ?_ id⟩
    · rcases he with rfl | ⟨e, rfl⟩ <;> rfl
    · rw [hw]
      rfl
    · rw [hw]
      rfl
    · intro d' cause' hw'
      cases hw'
      exact hcause
  | @failed d cause pool bus post n purge back entries hw hpurge hback hp he =>
    have hdelivery : q.worker.delivery? = some d := by
      rcases hw with ⟨hw, -⟩ | hw
      · rw [hw]
        rfl
      · rw [hw]
        rfl
    have hcause : cause.isOfDelivery = true := by
      rcases hw with ⟨-, hcause⟩ | hw
      · exact hcause
      · exact h.cause d cause hw
    have hnofail := h.fails_eq (.inr ⟨d, hdelivery⟩)
    obtain ⟨b, hb, hf⟩ := h.deeds
    obtain ⟨begun, hdraft⟩ : ∃ begun : Bool, q.worker.draft b =
        Chapter.opening b d ++ if begun then [.sending d.message] else [] := by
      rcases hw with ⟨hw, -⟩ | hw
      · exact ⟨false, by simp [hw, Worker.draft]⟩
      · exact ⟨true, by simp [hw, Worker.draft]⟩
    refine ⟨told ++ [.failed b d begun cause],
      h.next (c := .failed b d begun cause) hact ?_ rfl ⟨hf d hdelivery, hcause⟩
        (fun _ => hnofail) (fun _ => rfl) fun _ => ⟨rfl, d.requests, ?_⟩⟩
    · rw [hact.deeds_eq, hb, hdraft, he, filterMap_deed?_failureEntries hpurge hback]
      simp [Chapter.text]
    · rw [hact.log_eq, he]
      simp [failureEntries]
  | @drained sender b rest d pool bus post n purge back entries hw hs hb hf hpurge hback hp he =>
    have hnone : q.worker.delivery? = none := by
      rw [hw]
      rfl
    refine ⟨told ++ [.drained b d], h.next (c := .drained b d) hact ?_ hnone hf ?_ id
      fun _ => ⟨hs, d.requests, ?_⟩⟩
    · have hsinks : (d.sinks.map (Action.subscribed d.topic)).filterMap Action.deed? =
          d.sinks.map (.registered d.topic) := filterMap_deed?_map (fun _ => rfl) _
      rw [hact.deeds_eq, h.deeds_eq hnone, he]
      simp [Chapter.text, Action.deed?, hsinks, filterMap_deed?_failureEntries hpurge hback]
    · intro hann
      cases hann
    · rw [hact.log_eq, he]
      simp [failureEntries]
  | emptied hw hs hb => exact ⟨told, h.aside hact rfl (fun _ => rfl) rfl h.cause id⟩
  | parted hw hend =>
    refine ⟨told, h.aside hact rfl (fun _ => ?_) ?_ ?_ id⟩
    · rw [hw]
      rfl
    · rw [hw]
      rfl
    · intro d cause hw'
      cases hw'
  | ended hw =>
    have hidle : q.worker.delivery? = none := by
      rcases hw with hw | ⟨hw, -⟩
      · rw [hw]
        rfl
      · rw [hw]
        rfl
    refine ⟨told, h.aside hact ?_ (fun b => ?_) hidle.symm ?_ id⟩
    · rw [teardownEntries, List.filterMap_append, filterMap_deed?_discards]
      rfl
    · rw [Worker.draft_of_delivery?_eq_none hidle]
      rfl
    · intro d cause hw'
      cases hw'

end Written

/-- Every path from a new queue writes chapters. -/
theorem IsNew.written (hnew : start.IsNew) (h : Path others start q) :
    ∃ told, Written told q := by
  refine h.invariant (I := fun q => ∃ told, Written told q) ⟨[], ⟨{ topic := Topic.first }, ?_, ?_⟩,
    ?_, ?_, ?_, ?_⟩ ?_
  · simp [deeds, hnew.log_eq, hnew.worker_eq, Worker.draft]
  · rw [hnew.worker_eq]
    intro d hd
    cases hd
  · intro c hc
    cases hc
  · rw [hnew.worker_eq]
    intro d cause hw
    cases hw
  · exact .nil
  · intro c hc
    cases hc
  · rintro q q' entries a ⟨told, hq⟩
    exact hq.act a

/-! ## Builders and messages -/

end Queue

/-- The builder that is taken, if one is. -/
def Deed.builder? : Deed → Option Builder
  | took b => some b
  | _ => none

/-- The builder that the worker takes, if it takes one. -/
def Action.taken? (a : Action) : Option Builder := a.deed?.bind Deed.builder?

/-- The message whose send begins, if one does. -/
def Deed.message? : Deed → Option Message
  | sending m => some m
  | _ => none

/-- The message that the builder holds, if there is something to send. -/
def Builder.message? (b : Builder) : Option Message := b.finish?.map Finished.message

namespace Chapter

theorem filterMap_registered {α : Type} (f : Deed → Option α) (d : Finished)
    (h : ∀ s, f (.registered d.topic s) = none) :
    (d.sinks.map (Deed.registered d.topic)).filterMap f = [] := by
  refine List.filterMap_eq_nil_iff.mpr fun x hx => ?_
  obtain ⟨s, -, rfl⟩ := List.mem_map.mp hx
  exact h s

theorem filterMap_opening {α : Type} (f : Deed → Option α) (b : Builder) (d : Finished)
    (hr : ∀ s, f (.registered d.topic s) = none)
    (ht : f (.told d.topic ⟨.queued, d.metadata⟩) = none) :
    (opening b d).filterMap f = (f (.took b)).toList := by
  unfold opening
  rw [List.filterMap_cons, List.filterMap_append, filterMap_registered f d hr]
  cases h : f (.took b) <;> simp [ht]

/-- A chapter is about one builder. -/
theorem text_builder (c : Chapter) : c.text.filterMap Deed.builder? = [c.builder] := by
  cases c with
  | skipped b => rfl
  | sent b d =>
    rw [text, List.filterMap_append, filterMap_opening _ _ _ (fun _ => rfl) rfl]
    rfl
  | failed b d begun cause =>
    rw [text, List.filterMap_append, filterMap_opening _ _ _ (fun _ => rfl) rfl]
    cases begun <;> rfl
  | drained b d =>
    rw [text, List.filterMap_cons, List.filterMap_append, filterMap_registered _ _ fun _ => rfl]
    rfl

/-- In a chapter without a failure what is sent is the message that the builder held. -/
theorem text_message {c : Chapter} (h : c.Proper) (hf : c.fails = false) :
    c.text.filterMap Deed.message? = c.builder.message?.toList := by
  cases c with
  | skipped b =>
    have hnone : b.finish? = none := h
    rw [builder, Builder.message?, hnone]
    rfl
  | sent b d =>
    have hsome : b.finish? = some d := h
    rw [text, List.filterMap_append, filterMap_opening _ _ _ (fun _ => rfl) rfl, builder,
      Builder.message?, hsome]
    rfl
  | failed b d begun cause => cases hf
  | drained b d => cases hf

end Chapter

namespace Queue

variable {others : Sink → Prop} {start q : Queue} {told : List Chapter}

/-- The builders that the worker has taken, in order. -/
def taken (q : Queue) : List Builder := q.deeds.filterMap Deed.builder?

theorem taken_eq_filterMap (q : Queue) : q.taken = q.log.filterMap Action.taken? := by
  rw [taken, deeds, List.filterMap_filterMap]
  rfl

theorem mem_taken {b : Builder} : b ∈ q.taken ↔ .dequeued b ∈ q.log := by
  rw [taken_eq_filterMap, List.mem_filterMap]
  constructor
  · rintro ⟨a, ha, hab⟩
    have hdequeued : a = .dequeued b := by
      cases a <;> cases hab
      rfl
    exact hdequeued ▸ ha
  · intro hb
    exact ⟨.dequeued b, hb, rfl⟩

/-- The messages whose send has begun, in order. -/
def transmitted (q : Queue) : List Message := q.deeds.filterMap Deed.message?

/-- The message for which a sender is being opened. -/
def awaited (q : Queue) : List Message :=
  match q.worker with
  | .opening d => [d.message]
  | _ => []

namespace Written

/-- What the chapters say of builders and messages is said chapter by chapter. -/
theorem filterMap_text {α : Type} {f : Deed → Option α} {g : Chapter → List α}
    (h : ∀ c ∈ told, c.text.filterMap f = g c) :
    (told.flatMap Chapter.text).filterMap f = told.flatMap g := by
  rw [List.filterMap_flatMap]
  exact List.flatMap_congr h

theorem filterMap_text_builder (told : List Chapter) :
    (told.flatMap Chapter.text).filterMap Deed.builder? = told.map Chapter.builder := by
  rw [filterMap_text fun c _ => c.text_builder, List.map_eq_flatMap]

/-- When no message is under way, there is one chapter for each builder that was taken. -/
theorem taken_eq (h : Written told q) (hnone : q.worker.delivery? = none) :
    q.taken = told.map Chapter.builder := by
  rw [taken, h.deeds_eq hnone, filterMap_text_builder]

/-- The message under way is that of the builder that was taken last. -/
theorem taken_eq_concat {d : Finished} (h : Written told q) (hd : q.worker.delivery? = some d) :
    ∃ b, b.finish? = some d ∧ q.taken = told.map Chapter.builder ++ [b] := by
  obtain ⟨b, hb, hf⟩ := h.deeds
  have hopening : (Chapter.opening b d).filterMap Deed.builder? = [b] :=
    Chapter.filterMap_opening _ _ _ (fun _ => rfl) rfl
  have hdraft : (q.worker.draft b).filterMap Deed.builder? = [b] := by
    cases hq : q.worker <;> rw [hq] at hd <;> cases hd
    · exact hopening
    · rw [Worker.draft, List.filterMap_append, hopening]
      rfl
    · rw [Worker.draft, List.filterMap_append, hopening]
      rfl
  refine ⟨b, hf d hd, ?_⟩
  rw [taken, hb, List.filterMap_append, filterMap_text_builder, hdraft]

/-- While nothing has failed, the messages that were sent or wait for a sender are those of the
builders that were taken. -/
theorem transmitted_eq (h : Written told q) (hf : ∀ c ∈ told, c.fails = false) :
    q.transmitted ++ q.awaited = q.taken.filterMap Builder.message? := by
  obtain ⟨b, hb, hbuilder⟩ := h.deeds
  have hmessages : (told.flatMap Chapter.text).filterMap Deed.message? =
      (told.map Chapter.builder).filterMap Builder.message? := by
    rw [filterMap_text fun c hc => Chapter.text_message (h.proper c hc) (hf c hc),
      List.filterMap_map, List.filterMap_eq_flatMap_toList]
    rfl
  have hdraft : (q.worker.draft b).filterMap Deed.message? ++ q.awaited =
      ((q.worker.draft b).filterMap Deed.builder?).filterMap Builder.message? := by
    have hopening : ∀ d, (Chapter.opening b d).filterMap Deed.message? = [] ∧
        (Chapter.opening b d).filterMap Deed.builder? = [b] := fun d =>
      ⟨Chapter.filterMap_opening _ _ _ (fun _ => rfl) rfl,
        Chapter.filterMap_opening _ _ _ (fun _ => rfl) rfl⟩
    have hmessage : ∀ d, b.finish? = some d → b.message? = some d.message := by
      intro d hd
      rw [Builder.message?, hd]
      rfl
    unfold awaited
    cases hq : q.worker with
    | opening d =>
      have hd := hmessage d (hbuilder d (by rw [hq]; rfl))
      rw [Worker.draft, (hopening d).1, (hopening d).2]
      simp [hd]
    | sending d =>
      have hd := hmessage d (hbuilder d (by rw [hq]; rfl))
      rw [Worker.draft, List.filterMap_append, List.filterMap_append, (hopening d).1,
        (hopening d).2]
      simp [hd, Deed.message?, Deed.builder?]
    | resetting d cause =>
      have hd := hmessage d (hbuilder d (by rw [hq]; rfl))
      rw [Worker.draft, List.filterMap_append, List.filterMap_append, (hopening d).1,
        (hopening d).2]
      simp [hd, Deed.message?, Deed.builder?]
    | _ => rfl
  rw [transmitted, taken, hb, List.filterMap_append, List.filterMap_append, hmessages,
    filterMap_text_builder, List.append_assoc, hdraft, List.filterMap_append]

end Written

end Queue

end Outbox
