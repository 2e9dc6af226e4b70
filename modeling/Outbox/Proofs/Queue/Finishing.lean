import Outbox.Proofs.Message.Told
import Outbox.Proofs.Queue.Hearing

/-!
# How the first builder in line is finished

A worker that takes the first builder in line finishes it.  An empty builder is dropped, and nobody
learns of it.  Any other builder becomes a message; those who watch it are registered for its topic
before anything is told of it, once for each time that they were added.

* `Bus.tuned_register` — what the registration of a message's sinks does to the bus;
* `Queue.deeds_deliverNext`, `Queue.deeds_deliverNext_of_none` — what the worker does with the first
  builder in line;
* `Queue.Announces` — the sinks that were added are registered, and no others;
* `Queue.finished_faithfully` — message, metadata and registrations are what the edits say.
-/

namespace Outbox

/-- The sinks of a message are registered for its topic, each as often as it is listed. -/
theorem Bus.tuned_register {bus : Bus} (h : bus.phase ≠ .stopped) (d : Finished) (s : Sink)
    (t : Topic) : (bus.register d).tuned s t =
      bus.tuned s t + if t = d.topic then d.sinks.count s else 0 := by
  unfold register
  induction d.sinks generalizing bus with
  | nil => simp
  | cons s' rest ih =>
    have hphase : (bus.subscribe d.topic s').phase ≠ .stopped := by
      rw [subscribe, if_neg h]
      exact h
    rw [List.foldl_cons, ih hphase, tuned_subscribe h, List.count_cons]
    by_cases ht : t = d.topic
    · by_cases hs : s' = s <;> simp [ht, hs]
      omega
    · simp [ht]

namespace Queue

variable {q : Queue} {b : Builder} {rest : List Builder} {d : Finished} {t : Topic}
  {edits : List Edit}

/-- An empty builder is dropped. -/
theorem deeds_deliverNext_of_none (hb : q.backlog.builders = b :: rest) (hd : b.finish? = none)
    (sender : Bool) : (q.deliverNext sender).bus = q.bus ∧
      (q.deliverNext sender).deeds = q.deeds ++ [.took b] := by
  rw [deliverNext_of_cons sender hb, hd]
  refine ⟨rfl, ?_⟩
  simp [takeHead, withoutHead, note, deeds, Action.deed?]

/-- The message of another builder is announced, and sent if there is a sender for it. -/
theorem deeds_deliverNext (hb : q.backlog.builders = b :: rest) (hd : b.finish? = some d)
    (sender : Bool) : (q.deliverNext sender).deeds =
      q.deeds ++ Chapter.opening b d ++ if sender then [.sending d.message] else [] := by
  have hsinks : (d.sinks.map (Action.subscribed d.topic)).filterMap Action.deed? =
      d.sinks.map (.registered d.topic) := filterMap_deed?_map (fun _ => rfl) _
  rw [deliverNext_of_cons sender hb, hd]
  cases sender with
  | true =>
    simp [beginDelivery, subscribeAll_eq, publish, beginSend, takeHead, withoutHead, note, deeds,
      hsinks, Action.deed?, Chapter.opening]
  | false =>
    simp [beginDelivery, subscribeAll_eq, publish, beginOpen, takeHead, withoutHead, note, deeds,
      hsinks, Action.deed?, Chapter.opening]

/-- The sinks of the message are registered for its topic, as far as they are read. -/
theorem tuned_deliverNext {s : Sink} (hb : q.backlog.builders = b :: rest)
    (hd : b.finish? = some d) (hphase : q.bus.phase ≠ .stopped) (sender : Bool)
    (hs : q.post.isClosed s = false) (t : Topic) : (q.deliverNext sender).bus.tuned s t =
      q.bus.tuned s t + if t = d.topic then d.sinks.count s else 0 := by
  have hbus : (q.deliverNext sender).bus =
      ((q.bus.register d).publish q.post d.topic ⟨.queued, d.metadata⟩).1 := by
    rw [deliverNext_of_cons sender hb, hd]
    cases sender <;> simp [beginDelivery, subscribeAll_eq, publish, beginSend, beginOpen, takeHead,
      withoutHead, note, Bus.register]
  rw [hbus, Bus.tuned_publish hs, Bus.tuned_register hphase]

/-- The first builder in line, with these edits and this topic, is finished: those who watch it are
registered, and nobody else. -/
structure Announces (t : Topic) (edits : List Edit) (b : Builder) (sender : Bool) (q : Queue) :
    Prop where
  /-- An empty builder is dropped, and the bus stays as it is. -/
  dropped : b.finish? = none → (q.deliverNext sender).bus = q.bus ∧
    (q.deliverNext sender).deeds = q.deeds ++ [.took b]
  /-- The sinks of a message are registered for its topic, and then it is announced there. -/
  announced : ∀ d, b.finish? = some d → (q.deliverNext sender).deeds =
    q.deeds ++ Chapter.opening b d ++ if sender then [.sending d.message] else []
  /-- On a bus that was not shut down a sink that is read is then registered there once more for
  each time that it was added, and nowhere else. -/
  registered : ∀ d, b.finish? = some d → q.bus.phase ≠ .stopped → ∀ s,
    q.post.isClosed s = false → ∀ t', (q.deliverNext sender).bus.tuned s t' =
      q.bus.tuned s t' + if t' = t then attached s edits else 0

/-- **Finalization is faithful.**  A builder that takes in edits without a scrub is finished into a
message if and only if a block, a link, a status or further data was among them.  The message and
what goes with it are what the edits say, and exactly the sinks that were added are registered for
the topic of the builder. -/
theorem finished_faithfully (t : Topic) {edits : List Edit}
    (h : ∀ e ∈ edits, e.isScrub = false) :
    let b := ({ topic := t } : Builder).applyAll edits
    (b.finish? = none ↔ ∀ e ∈ edits, e.isContent = false) ∧
    (∀ d, b.finish? = some d → d.Faithful t edits) ∧
    ∀ (q : Queue) (rest : List Builder) (sender : Bool),
      q.backlog.builders = b :: rest → q.Announces t edits b sender := by
  intro b
  have hholds : b.Holds t edits := Builder.holds_applyAll t h
  refine ⟨?_, fun d hd => hholds.faithful hd, fun q rest sender hb => ?_⟩
  · rw [Builder.finish?_eq_none_iff, Builder.isEmpty_applyAll _ h]
    exact and_iff_right rfl
  · refine ⟨fun hd => deeds_deliverNext_of_none hb hd sender,
      fun d hd => deeds_deliverNext hb hd sender, fun d hd hphase s hs t' => ?_⟩
    have hfaithful := hholds.faithful hd
    rw [tuned_deliverNext hb hd hphase sender hs, hfaithful.topic, hfaithful.sinks]

/-- Two requests are answered: one has two statuses of which the second counts, the other a link,
and further data of which the second counts.  A block comes twice, with another payload, and a sink
is added twice and so registered twice. -/
theorem finished_faithfully_of_two :
    let block : Block := .fill default 2 0
    let first : RequestId := ⟨Octets.fill 16 0⟩
    let second : RequestId := ⟨Octets.fill 16 1⟩
    let edits : List Edit := [.addNotifee second ⟨7⟩, .addBlock block,
      .addLink second block.link .present, .setExtension second "depth" [1],
      .setStatus first .requestAcknowledged, .addBlock (.fill default 3 1), .addNotifee first ⟨7⟩,
      .setExtension second "depth" [2], .setStatus first .requestCompletedFull]
    let b := ({ topic := Topic.first } : Builder).applyAll edits
    let q : Queue := { peer := Peer.zero, settings := {}, backlog := { builders := [b] },
                       bus := { phase := .running } }
    (∀ e ∈ edits, e.isScrub = false) ∧
    ∃ d, b.finish? = some d ∧
      d.message.blocks = [block] ∧ d.size = 5 ∧
      d.message.responses.map (fun a => (a.request, a.status)) =
        [(first, .requestCompletedFull), (second, .partialResponse)] ∧
      (∀ a ∈ d.message.responses, a.request = second →
        a.links = [⟨block.link, .present⟩] ∧ a.extensions.get? "depth" = some [2]) ∧
      (q.deliverNext true).bus.tuned ⟨7⟩ Topic.first = 2 := by
  intro block first second edits b q
  have hplain : ∀ e ∈ edits, e.isScrub = false := by decide +kernel
  obtain ⟨hnone, htold, hqueue⟩ := finished_faithfully Topic.first hplain
  obtain ⟨d, hd⟩ : ∃ d, b.finish? = some d := by
    rw [← Option.ne_none_iff_exists', Ne, hnone]
    decide +kernel
  have hfaithful := htold d hd
  have hresponses : b.finish?.map
      (fun d => d.message.responses.map fun a => (a.request, a.status)) =
        some [(first, .requestCompletedFull), (second, .partialResponse)] := by decide +kernel
  rw [hd] at hresponses
  have hregistered := (hqueue q [] true rfl).registered d hd (by decide) ⟨7⟩ rfl Topic.first
  refine ⟨hplain, d, hd, hfaithful.blocks.trans (by decide +kernel),
    hfaithful.size.trans (by decide +kernel), Option.some.inj hresponses,
    fun a ha hsecond => ⟨?_, ?_⟩, hregistered.trans (by decide +kernel)⟩
  · rw [hfaithful.links a ha, hsecond]
    decide +kernel
  · rw [hfaithful.extensions a ha, hsecond]
    decide +kernel

end Queue

end Outbox
