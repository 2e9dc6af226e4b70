import Outbox.Proofs.Bus.Post
import Outbox.Proofs.Queue.Chapters

/-!
# What a sink hears

A sink hears what is told of a topic while it is registered there, once for each registration.  The
worker registers sinks, tells events and closes topics, and all of this is among its deeds; so what
a sink that nobody else touches has heard can be read off them, chapter by chapter.

* `Bus.tuned` — how often a sink is registered for a topic;
* `Ear`, `Ear.of` — what deeds mean for one sink;
* `Ear.Fits` — bus and post are as the deeds say, with a lemma for each operation on them;
* `Queue.Heard` — the invariant, with `Queue.Heard.act`;
* `Chapter.heard` — what a sink hears in a chapter;
* `Queue.IsNew.unread_eq` — a sink has heard what the chapters tell it, and nothing else.
-/

namespace Outbox

/-- How often the sink is registered for the topic. -/
def Bus.tuned (bus : Bus) (s : Sink) (t : Topic) : Nat := ((bus.topics.get? t).getD []).count s

/-- A sink that is registered is registered once more for the topic. -/
theorem Bus.tuned_subscribe {bus : Bus} (h : bus.phase ≠ .stopped) (t : Topic) (s' s : Sink)
    (t' : Topic) : (bus.subscribe t s').tuned s t' =
      bus.tuned s t' + if t' = t ∧ s' = s then 1 else 0 := by
  unfold subscribe tuned
  rw [if_neg h]
  simp only [Dict.get?_update]
  by_cases ht : t' = t
  · subst ht
    by_cases hs : s' = s <;> simp [hs]
  · simp [ht]

/-- All registrations of a sink whose reader is there count. -/
theorem Bus.count_live {post : Post Event} {s : Sink} (h : post.isClosed s = false) (bus : Bus)
    (t : Topic) : (bus.live post t).count s = bus.tuned s t :=
  List.count_filter (by simp [h])

/-- A sink whose reader is there stays registered when an event is published. -/
theorem Bus.tuned_publish {post : Post Event} {s : Sink} (h : post.isClosed s = false) (bus : Bus)
    (t : Topic) (event : Event) (t' : Topic) :
    (bus.publish post t event).1.tuned s t' = bus.tuned s t' := by
  by_cases hphase : bus.phase = .running
  · rcases hp : bus.publish post t event with ⟨bus', post', n⟩
    obtain ⟨-, -, -, hlive⟩ := publish_of_running hphase hp
    rw [← count_live h, ← count_live h, hlive]
  · rw [publish_of_not_running hphase]

/-! ## Deeds, as one sink hears them -/

/-- What deeds mean for one sink. -/
@[ext] structure Ear where
  /-- How often it is registered for each topic. -/
  tuned : Topic → Nat := fun _ => 0
  /-- The events that it has heard. -/
  heard : List Event := []

namespace Ear

/-- What one deed means for a sink. -/
def hear (s : Sink) (e : Ear) : Deed → Ear
  | .registered t s' =>
    if s' = s then { e with tuned := Function.update e.tuned t (e.tuned t + 1) } else e
  | .told t event => { e with heard := e.heard ++ List.replicate (e.tuned t) event }
  | .closed t => { e with tuned := Function.update e.tuned t 0 }
  | _ => e

/-- What deeds mean for a sink that has heard nothing before. -/
def of (s : Sink) (deeds : List Deed) : Ear := deeds.foldl (hear s) {}

theorem of_append (s : Sink) (deeds deeds' : List Deed) :
    of s (deeds ++ deeds') = deeds'.foldl (hear s) (of s deeds) := by
  rw [of, List.foldl_append, of]

/-! ## Bus and post -/

/-- Bus and post are as the ear says. -/
structure Fits (s : Sink) (e : Ear) (bus : Bus) (post : Post Event) : Prop where
  /-- The sink is registered so often. -/
  tuned : ∀ t, bus.tuned s t = e.tuned t
  /-- These events have arrived. -/
  heard : post.unread s = e.heard
  /-- Its reader is there. -/
  present : post.isClosed s = false

variable {s s' : Sink} {e : Ear} {bus bus' : Bus} {post post' : Post Event} {t : Topic}

namespace Fits

/-- The sink, or another one, is registered. -/
theorem registered (h : Fits s e bus post) (hphase : bus.phase ≠ .stopped) :
    Fits s (e.hear s (.registered t s')) (bus.subscribe t s') post := by
  have htuned : ∀ t', (bus.subscribe t s').tuned s t' =
      (e.hear s (.registered t s')).tuned t' := by
    intro t'
    rw [Bus.tuned_subscribe hphase, h.tuned, hear]
    by_cases hs : s' = s
    · by_cases ht : t' = t
      · subst ht
        simp [hs]
      · simp [hs, ht]
    · simp [hs]
  refine ⟨htuned, ?_, h.present⟩
  rw [h.heard, hear]
  split <;> rfl

/-- Someone else registers another sink. -/
theorem attached (h : Fits s e bus post) (hs : s' ≠ s) : Fits s e (bus.subscribe t s') post := by
  by_cases hphase : bus.phase = .stopped
  · rw [Bus.subscribe, if_pos hphase]
    exact h
  · have hnext : Fits s (e.hear s (.registered t s')) (bus.subscribe t s') post :=
      h.registered hphase
    rwa [hear, if_neg hs] at hnext

/-- The sinks of a message are registered. -/
theorem register (h : Fits s e bus post) (hphase : bus.phase ≠ .stopped) (d : Finished) :
    Fits s ((d.sinks.map (.registered d.topic)).foldl (hear s) e) (bus.register d) post ∧
      (bus.register d).phase = bus.phase := by
  unfold Bus.register
  induction d.sinks generalizing e bus with
  | nil => exact ⟨h, rfl⟩
  | cons s' rest ih =>
    have hsame : (bus.subscribe d.topic s').phase = bus.phase := by
      rw [Bus.subscribe, if_neg hphase]
    obtain ⟨hfits, hrest⟩ := ih (h.registered hphase) (hsame ▸ hphase)
    exact ⟨hfits, hrest.trans hsame⟩

/-- A topic is closed. -/
theorem closed (h : Fits s e bus post) (t : Topic) :
    Fits s (e.hear s (.closed t)) (bus.close t) post := by
  refine ⟨?_, h.heard, h.present⟩
  intro t'
  have hold := h.tuned t'
  unfold Bus.tuned at hold
  simp only [Bus.close, Bus.tuned, Dict.get?_erase, hear]
  by_cases ht : t' = t
  · simp [ht]
  · rw [if_neg ht, hold, Function.update_of_ne ht]

/-- An event is published. -/
theorem told {event : Event} {n : Nat} (h : Fits s e bus post) (hphase : bus.phase = .running)
    (hp : bus.publish post t event = (bus', post', n)) :
    Fits s (e.hear s (.told t event)) bus' post' ∧ bus'.phase = .running := by
  obtain ⟨rfl, -, hrunning, -⟩ := Bus.publish_of_running hphase hp
  have htuned := Bus.tuned_publish h.present bus t event
  rw [hp] at htuned
  refine ⟨⟨fun t' => (htuned t').trans (h.tuned t'), ?_,
    (post.isClosed_deliverAll ..).trans h.present⟩, hrunning⟩
  rw [Post.unread_deliverAll h.present, Bus.count_live h.present, h.tuned, h.heard]
  rfl

/-- The reader of another sink leaves. -/
theorem departed (h : Fits s e bus post) (hs : s' ≠ s) : Fits s e bus (post.depart s') := by
  refine ⟨h.tuned, (Post.unread_depart hs).trans h.heard, ?_⟩
  rw [Post.isClosed_depart, h.present, Bool.or_false]
  exact decide_eq_false (Ne.symm hs)

end Fits

/-- A topic is closed after an event. -/
theorem Fits.ending {d : Finished} {stage : Stage} {n : Nat} (h : Fits s e bus post)
    (hphase : bus.phase = .running)
    (hp : bus.publish post d.topic ⟨stage, d.metadata⟩ = (bus', post', n)) :
    Fits s ((Chapter.ending d stage).foldl (hear s) e) (bus'.close d.topic) post' ∧
      (bus'.close d.topic).phase = .running := by
  obtain ⟨htold, hrunning⟩ := h.told hphase hp
  exact ⟨htold.closed d.topic, hrunning⟩

end Ear

/-! ## Queues -/

/-- The phase of a bus whose worker stands here. -/
def Worker.phase : Worker → BusPhase
  | unstarted => .idle
  | launched => .idle
  | stopped => .stopped
  | _ => .running

namespace Queue

variable {s : Sink} {start q q' : Queue} {entries : List Action}

/-- The bus and the post of the queue are as its deeds say; at the end only the post matters. -/
structure Heard (s : Sink) (q : Queue) : Prop where
  /-- The bus runs while the worker is at work. -/
  phase : q.bus.phase = q.worker.phase
  /-- The sink is registered as the deeds say. -/
  tuned : q.bus.phase ≠ .stopped → ∀ t, q.bus.tuned s t = (Ear.of s q.deeds).tuned t
  /-- It has got the events that the deeds say. -/
  heard : q.post.unread s = (Ear.of s q.deeds).heard
  /-- Its reader is there. -/
  present : q.post.isClosed s = false
  /-- A bus that has ended holds no sinks. -/
  ended : q.bus.phase = .stopped → q.bus.topics = ∅

namespace Heard

theorem fits (h : Heard s q) (hphase : q.bus.phase ≠ .stopped) :
    Ear.Fits s (Ear.of s q.deeds) q.bus q.post :=
  ⟨h.tuned hphase, h.heard, h.present⟩

/-- An act that tells nothing. -/
theorem aside (h : Heard s q) (a : Act (· ≠ s) q entries q')
    (hdeeds : (entries.filterMap Action.deed?).foldl (Ear.hear s) (Ear.of s q.deeds) =
      Ear.of s q.deeds)
    (hbus : q'.bus = q.bus) (hpost : q'.post = q.post)
    (hphase : q'.worker.phase = q.worker.phase) : Heard s q' := by
  have hof : Ear.of s q'.deeds = Ear.of s q.deeds := by
    rw [a.deeds_eq, Ear.of_append, hdeeds]
  refine ⟨?_, ?_, ?_, ?_, ?_⟩
  · rw [hbus, hphase]
    exact h.phase
  · rw [hbus, hof]
    exact h.tuned
  · rw [hpost, hof]
    exact h.heard
  · rw [hpost]
    exact h.present
  · rw [hbus]
    exact h.ended

/-- An act of a worker at work. -/
theorem onward (a : Act (· ≠ s) q entries q') (deeds : List Deed)
    (hdeeds : entries.filterMap Action.deed? = deeds) (hbus : q'.bus.phase = .running)
    (hworker : q'.worker.phase = .running)
    (h : Ear.Fits s (deeds.foldl (Ear.hear s) (Ear.of s q.deeds)) q'.bus q'.post) : Heard s q' := by
  have hof : Ear.of s q'.deeds = deeds.foldl (Ear.hear s) (Ear.of s q.deeds) := by
    rw [a.deeds_eq, Ear.of_append, hdeeds]
  rw [← hof] at h
  refine ⟨hbus.trans hworker.symm, fun _ => h.tuned, h.heard, h.present, ?_⟩
  intro hstopped
  rw [hbus] at hstopped
  cases hstopped

theorem act (h : Heard s q) (a : Act (· ≠ s) q entries q') : Heard s q' := by
  have hact := a
  cases a with
  | aside he hs hc hr =>
    exact h.aside hact (by rw [filterMap_deed?_of_isQuiet he]; rfl) rfl rfl rfl
  | @attached t s' ho =>
    have hsame : (q.bus.subscribe t s').phase = q.bus.phase := by
      unfold Bus.subscribe
      split <;> rfl
    refine ⟨hsame.trans h.phase, ?_, h.heard, h.present, ?_⟩
    · intro hphase
      have hopen : q.bus.phase ≠ .stopped := hsame ▸ hphase
      exact ((h.fits hopen).attached ho).tuned
    · intro hstopped
      have hphase : q.bus.phase = .stopped := hsame.symm.trans hstopped
      show (q.bus.subscribe t s').topics = ∅
      rw [Bus.subscribe, if_pos hphase]
      exact h.ended hphase
  | @departed s' ho =>
    have hfits : Ear.Fits s { (Ear.of s q.deeds) with tuned := q.bus.tuned s } q.bus q.post :=
      ⟨fun _ => rfl, h.heard, h.present⟩
    exact ⟨h.phase, h.tuned, (hfits.departed ho).heard, (hfits.departed ho).present, h.ended⟩
  | edited hc hm => exact h.aside hact rfl rfl rfl rfl
  | @scrubbed rs pool receipt hr =>
    have hnone : (Action.scrubbed rs :: receipt).filterMap Action.deed? = [] := hr.deeds_eq
    exact h.aside hact (by rw [hnone]; rfl) rfl rfl rfl
  | launched hw hr => exact h.aside hact rfl rfl rfl (by rw [hw]; rfl)
  | dropped hw => exact h.aside hact (by rw [filterMap_deed?_discards]; rfl) rfl rfl rfl
  | started hw =>
    have hidle : q.bus.phase = .idle := by rw [h.phase, hw]; rfl
    have hfits := h.fits (by rw [hidle]; simp)
    have hbus : q.bus.startup = { q.bus with phase := .running } := by
      rw [Bus.startup, if_pos hidle]
    refine onward hact [] rfl ?_ rfl ?_
    · show q.bus.startup.phase = _
      rw [hbus]
    · show Ear.Fits s _ q.bus.startup q.post
      rw [hbus]
      exact ⟨hfits.tuned, hfits.heard, hfits.present⟩
  | skipped hw hb hf => exact h.aside hact rfl rfl rfl rfl
  | @announced sender token b rest d bus post n entries hw hs hb hf hp he =>
    have hrunning : q.bus.phase = .running := by rw [h.phase, hw]; rfl
    obtain ⟨hfits, hsame⟩ := (h.fits (by rw [hrunning]; simp)).register (by rw [hrunning]; simp) d
    obtain ⟨htold, hphase⟩ := hfits.told (hsame.trans hrunning) hp
    have hdeeds : (q.announcement sender b d n).filterMap Action.deed? =
        (firstStand sender d).draft b := filterMap_deed?_announcement q sender b d n
    refine onward hact _ (he ▸ hdeeds) hphase ?_ ?_
    · cases sender <;> rfl
    · have hsending : ∀ deeds e, (deeds ++ [Deed.sending d.message]).foldl (Ear.hear s) e =
          deeds.foldl (Ear.hear s) e := by
        intro deeds e
        rw [List.foldl_append]
        rfl
      have hopening : ((firstStand sender d).draft b).foldl (Ear.hear s) (Ear.of s q.deeds) =
          (Chapter.opening b d).foldl (Ear.hear s) (Ear.of s q.deeds) := by
        cases sender with
        | true => exact hsending _ _
        | false => rfl
      rw [hopening, Chapter.opening, List.foldl_cons, List.foldl_append]
      exact htold
  | opened hw => exact h.aside hact rfl rfl rfl (by rw [hw]; rfl)
  | @sent d pool bus post n back entries hw hback hp he =>
    have hrunning : q.bus.phase = .running := by rw [h.phase, hw]; rfl
    obtain ⟨hfits, hphase⟩ := (h.fits (by rw [hrunning]; simp)).ending hrunning hp
    exact onward hact _ (he ▸ filterMap_deed?_completion hback) hphase rfl hfits
  | interrupted hw hcause he =>
    refine h.aside hact ?_ rfl rfl (by rw [hw]; rfl)
    rcases he with rfl | ⟨e, rfl⟩ <;> rfl
  | @failed d cause pool bus post n purge back entries hw hpurge hback hp he =>
    have hrunning : q.bus.phase = .running := by
      rw [h.phase]
      rcases hw with ⟨hw, -⟩ | hw
      · rw [hw]
        rfl
      · rw [hw]
        rfl
    obtain ⟨hfits, hphase⟩ := (h.fits (by rw [hrunning]; simp)).ending hrunning hp
    exact onward hact _ (he ▸ filterMap_deed?_failureEntries hpurge hback) hphase rfl hfits
  | @drained sender b rest d pool bus post n purge back entries hw hs hb hf hpurge hback hp he =>
    have hrunning : q.bus.phase = .running := by rw [h.phase, hw]; rfl
    obtain ⟨hregistered, hsame⟩ :=
      (h.fits (by rw [hrunning]; simp)).register (by rw [hrunning]; simp) d
    obtain ⟨hfits, hphase⟩ := hregistered.ending (hsame.trans hrunning) hp
    have hsinks : (d.sinks.map (Action.subscribed d.topic)).filterMap Action.deed? =
        d.sinks.map (.registered d.topic) := filterMap_deed?_map (fun _ => rfl) _
    refine onward hact (Chapter.drained b d).text ?_ hphase ?_ ?_
    · rw [he, List.filterMap_cons, List.filterMap_append, hsinks,
        filterMap_deed?_failureEntries hpurge hback]
      rfl
    · show q.worker.phase = _
      rw [hw]
      rfl
    · rw [Chapter.text, List.foldl_cons, List.foldl_append]
      exact hfits
  | emptied hw hs hb => exact h.aside hact rfl rfl rfl rfl
  | parted hw hend => exact h.aside hact rfl rfl rfl (by rw [hw]; rfl)
  | ended hw =>
    have hof : (q.teardownEntries.filterMap Action.deed?).foldl (Ear.hear s) (Ear.of s q.deeds) =
        Ear.of s q.deeds := by
      rw [teardownEntries, List.filterMap_append, filterMap_deed?_discards]
      rfl
    refine ⟨rfl, ?_, ?_, h.present, fun _ => rfl⟩
    · intro hphase
      exact absurd rfl hphase
    · rw [hact.deeds_eq, Ear.of_append, hof]
      exact h.heard

end Heard

/-- Along every path from a new queue a sink that nobody else touches hears what the deeds say. -/
theorem IsNew.heard (hnew : start.IsNew) (h : Path (· ≠ s) start q) : Heard s q := by
  refine h.invariant (I := Heard s) ?_ ?_
  · have hdeeds : start.deeds = [] := by rw [deeds, hnew.log_eq]; rfl
    have hbus : start.bus = {} := congrArg (·.bus) hnew
    have hpost : start.post = {} := congrArg (·.post) hnew
    refine ⟨?_, ?_, ?_, ?_, ?_⟩
    · rw [hbus, hnew.worker_eq]
      rfl
    · intro _ t
      rw [hbus, hdeeds]
      rfl
    · rw [hpost, hdeeds]
      rfl
    · rw [hpost]
      rfl
    · intro _
      rw [hbus]
  · intro q q' entries a hq
    exact hq.act a

end Queue

/-! ## Chapters -/

namespace Chapter

/-- How often the sink is registered in a chapter. -/
def registrations (s : Sink) : Chapter → Nat
  | skipped _ => 0
  | sent _ d => d.sinks.count s
  | failed _ d _ _ => d.sinks.count s
  | drained _ d => d.sinks.count s

/-- The events that are told in a chapter. -/
def events : Chapter → List Event
  | skipped _ => []
  | sent _ d => [⟨.queued, d.metadata⟩, ⟨.sent, d.metadata⟩]
  | failed _ d _ cause => [⟨.queued, d.metadata⟩, ⟨.failed cause, d.metadata⟩]
  | drained _ d => [⟨.failed .shutdown, d.metadata⟩]

/-- What a sink hears in a chapter. -/
def heard (s : Sink) (c : Chapter) : List Event :=
  c.events.flatMap (List.replicate (c.registrations s))

end Chapter

namespace Ear

variable {s : Sink}

theorem foldl_registered (e : Ear) (t : Topic) (sinks : List Sink) :
    (sinks.map (.registered t)).foldl (hear s) e =
      { e with tuned := Function.update e.tuned t (e.tuned t + sinks.count s) } := by
  induction sinks generalizing e with
  | nil => simp
  | cons s' rest ih =>
    rw [List.map_cons, List.foldl_cons, ih, hear, List.count_cons]
    by_cases hs : s' = s
    · simp [hs, Nat.add_assoc, Nat.add_comm 1]
    · simp [hs]

/-- In a chapter a sink that is not registered yet hears the events of the chapter, once for each
registration, and is not registered afterwards. -/
theorem foldl_text (heard : List Event) (c : Chapter) :
    c.text.foldl (hear s) { heard } = { heard := heard ++ c.heard s } := by
  cases c with
  | skipped b => simp [Chapter.text, Chapter.heard, Chapter.events, hear]
  | sent b d =>
    simp [Chapter.text, Chapter.opening, Chapter.ending, Chapter.heard, Chapter.events,
      Chapter.registrations, hear, foldl_registered]
  | failed b d begun cause =>
    cases begun <;>
      simp [Chapter.text, Chapter.opening, Chapter.ending, Chapter.heard, Chapter.events,
        Chapter.registrations, hear, foldl_registered]
  | drained b d =>
    simp [Chapter.text, Chapter.ending, Chapter.heard, Chapter.events, Chapter.registrations,
      hear, foldl_registered]

theorem of_text (s : Sink) (told : List Chapter) :
    of s (told.flatMap Chapter.text) = { heard := told.flatMap (Chapter.heard s) } := by
  induction told using List.reverseRecOn with
  | nil => rfl
  | append_singleton told c ih =>
    rw [List.flatMap_append, of_append, ih, List.flatMap_singleton, foldl_text,
      List.flatMap_append, List.flatMap_singleton]

end Ear

namespace Queue

variable {s : Sink} {start q : Queue} {told : List Chapter}

/-- **What a sink hears.**  When no message is under way, a sink that nobody else touches has heard
what the chapters tell it, and nothing else. -/
theorem IsNew.unread_eq (hnew : start.IsNew) (h : Path (· ≠ s) start q) (hw : Written told q)
    (hnone : q.worker.delivery? = none) : q.post.unread s = told.flatMap (Chapter.heard s) := by
  rw [(hnew.heard h).heard, hw.deeds_eq hnone, Ear.of_text]

end Queue

end Outbox
