import Outbox.Bus.Session
import Outbox.Proofs.Bus.Deeds

/-!
# What subscribers of a bus read

Subscribers read what their mailboxes are due and nothing else, however they read, and they are
told of the end when all is read and nobody is left who could send more.

* `BusSession.deeds`, `BusSession.run`, `BusSession.deedsAlong` — steps and their deeds;
* `BusSession.Matches` — a session is as the deeds say, with `BusSession.Matches.take` for a step
  and `BusSession.Matches.run` for many;
* `BusSession.Connected` — somebody could still send more;
* `BusSession.Reads` — how a subscriber reads, and the main result `BusSession.reads_due`.
-/

namespace Outbox

open BusDeed

/-! ## Sessions -/

/-- The texts of an answer. -/
def BusSession.Answer.texts : BusSession.Answer → List String
  | .letters texts => texts
  | _ => []

namespace BusSession

/-- The deeds of a step that needs a sink from the hand. -/
def throughSink (s : BusSession) (name : String) (deed : Sink → BusDeed) : List BusDeed :=
  ((s.sinks.lookup name).map deed).toList

/-- The deeds of a step that needs a subscription from the hand. -/
def throughReader (s : BusSession) (name : String) (deed : Sink → BusDeed) : List BusDeed :=
  ((s.readers.lookup name).map deed).toList

/-- What a step does to the bus and to mailboxes. -/
def deeds (s : BusSession) (step : Step) : List BusDeed :=
  let texts := (s.take step).1.texts
  match step with
  | .startup => [.started]
  | .shutdown => [.stopped]
  | .close t => [.closed t]
  | .publish t text => [.published t text]
  | .channel name => s.throughReader name .left
  | .subscribe name t => s.throughSink name (.registered t)
  | .share name t => s.throughSink name (.registered t)
  | .send name text => s.throughSink name (.sent · text)
  | .dropReader name => s.throughReader name .left
  | .tryReceive name => s.throughReader name (.read · texts)
  | .receive name => s.throughReader name (.read · texts)
  | .collect name => s.throughReader name (.read · texts) ++ s.throughReader name .left
  | .await name =>
    s.throughReader name (.read · texts) ++
      if (s.take step).1 = .pending then [] else s.throughReader name .left
  | .count _ | .askClosed _ | .dropSink _ | .duplicate _ _ => []

/-- The session after steps. -/
def run (s : BusSession) (steps : List Step) : BusSession :=
  steps.foldl (fun s step => (s.take step).2) s

/-- What steps do to the bus and to mailboxes. -/
def deedsAlong (s : BusSession) : List Step → List BusDeed
  | [] => []
  | step :: rest => s.deeds step ++ (s.take step).2.deedsAlong rest

/-- The mailboxes that the hand reads. -/
def subscribed (s : BusSession) : List Sink := s.readers.map Prod.snd

/-- The session is as the deeds say. -/
structure Matches (s : BusSession) (past : List BusDeed) : Prop where
  /-- Bus and post are as the deeds say. -/
  follows : s.bus.Follows s.post past
  /-- Subscriptions in the hand have different names. -/
  names : (s.readers.map Prod.fst).Nodup
  /-- No two of them read the same mailbox. -/
  distinct : s.subscribed.Nodup
  /-- The hand reads the mailboxes that were made and whose readers have not left. -/
  reading : ∀ sink, sink ∈ s.subscribed ↔ sink.mailbox < s.mailboxes ∧ .left sink ∉ past
  /-- The mailboxes whose readers have left were made. -/
  gone : ∀ sink, .left sink ∈ past → sink.mailbox < s.mailboxes
  /-- The mailboxes of the sinks in the hand were made. -/
  hand : ∀ e ∈ s.sinks, e.2.mailbox < s.mailboxes
  /-- The mailboxes of the sinks that are registered were made. -/
  registered : ∀ t, ∀ sink ∈ standing past t, sink.mailbox < s.mailboxes

theorem mem_of_lookup {held : List (String × Sink)} {name : String} {sink : Sink}
    (h : held.lookup name = some sink) : (name, sink) ∈ held := by
  obtain ⟨before, after, rfl, -⟩ := List.lookup_eq_some_iff.mp h
  simp

namespace Matches

variable {s : BusSession} {past : List BusDeed} {name : String} {sink : Sink}

theorem new : Matches {} [] where
  follows := .new
  names := List.nodup_nil
  distinct := List.nodup_nil
  reading sink := by simp [subscribed]
  gone sink h := by cases h
  hand e he := by cases he
  registered t sink h := by cases h

theorem mem_subscribed (hname : s.readers.lookup name = some sink) : sink ∈ s.subscribed :=
  List.mem_map.mpr ⟨_, mem_of_lookup hname, rfl⟩

theorem not_left (h : s.Matches past) (hname : s.readers.lookup name = some sink) :
    .left sink ∉ past := ((h.reading sink).mp (mem_subscribed hname)).2

/-- Something is done to bus and post, and no reader leaves. -/
theorem next (h : s.Matches past) {bus : Bus} {post : Post String} {sinks : List (String × Sink)}
    {d : BusDeed} (hfollows : bus.Follows post (past ++ [d])) (hleft : ∀ sink, d ≠ .left sink)
    (hsinks : sinks ⊆ s.sinks) (hregister : ∀ t sink, d = .registered t sink →
      sink.mailbox < s.mailboxes) : Matches { s with bus, post, sinks } (past ++ [d]) := by
  have hgone : ∀ sink, .left sink ∈ past ++ [d] ↔ .left sink ∈ past := by
    simp [fun sink => Ne.symm (hleft sink)]
  refine ⟨hfollows, h.names, h.distinct, fun sink => ?_, fun sink hmem => ?_,
    fun e he => h.hand e (hsinks he), fun t sink hmem => ?_⟩
  · rw [hgone]
    exact h.reading sink
  · exact h.gone sink ((hgone sink).mp hmem)
  · exact (mem_standing_concat hmem).elim (h.registered t sink) (hregister t sink)

/-- Something is done to bus and post, no reader leaves and no sink is registered. -/
theorem aside (h : s.Matches past) {bus : Bus} {post : Post String} {d : BusDeed}
    (hfollows : bus.Follows post (past ++ [d])) (hleft : ∀ sink, d ≠ .left sink)
    (hregister : ∀ t sink, d ≠ .registered t sink) :
    Matches { s with bus, post } (past ++ [d]) :=
  h.next hfollows hleft (List.Subset.refl _) fun t sink hd => absurd hd (hregister t sink)

/-- Only what the hand holds of sinks changes. -/
theorem withSinks (h : s.Matches past) {sinks : List (String × Sink)}
    (hsinks : ∀ e ∈ sinks, e.2.mailbox < s.mailboxes) : Matches { s with sinks } past :=
  ⟨h.follows, h.names, h.distinct, h.reading, h.gone, hsinks, h.registered⟩

theorem dropSink (h : s.Matches past) (name : String) : (s.dropSink name).Matches past :=
  h.withSinks fun e he => h.hand e (List.mem_of_mem_filter he)

/-- A step that needs a sink from the hand and gives it to a deed. -/
theorem throughSink (h : s.Matches past) (name : String) {deed : Sink → BusDeed}
    {f : Sink → Answer × BusSession}
    (hf : ∀ sink, sink.mailbox < s.mailboxes → (f sink).2.Matches (past ++ [deed sink])) :
    (s.withSink name f).2.Matches (past ++ s.throughSink name deed) := by
  unfold withSink BusSession.throughSink
  cases hname : s.sinks.lookup name with
  | none => simpa using h
  | some sink => exact hf sink (h.hand _ (mem_of_lookup hname))

/-- A subscription leaves the hand. -/
theorem dropReader (h : s.Matches past) (name : String) :
    (s.dropReader name).Matches (past ++ s.throughReader name .left) := by
  unfold BusSession.dropReader throughReader
  cases hname : s.readers.lookup name with
  | none => simpa using h
  | some sink =>
    have hmem : (name, sink) ∈ s.readers := mem_of_lookup hname
    have hmade := ((h.reading sink).mp (mem_subscribed hname)).1
    -- the others have other names and read other mailboxes
    have hother : ∀ sink', sink' ∈ (without name s.readers).map Prod.snd ↔
        sink' ∈ s.subscribed ∧ sink' ≠ sink := by
      intro sink'
      constructor
      · intro hsink'
        obtain ⟨e, he, rfl⟩ := List.mem_map.mp hsink'
        obtain ⟨hin, hne⟩ := List.mem_filter.mp he
        refine ⟨List.mem_map_of_mem hin, fun heq => ?_⟩
        have hsame : e = (name, sink) := List.inj_on_of_nodup_map h.distinct hin hmem heq
        simp [hsame] at hne
      · rintro ⟨hsink', hne⟩
        obtain ⟨e, he, rfl⟩ := List.mem_map.mp hsink'
        refine List.mem_map_of_mem (List.mem_filter.mpr ⟨he, decide_eq_true fun heq => hne ?_⟩)
        rw [List.inj_on_of_nodup_map h.names he hmem heq]
    refine ⟨h.follows.depart sink, h.names.sublist (List.filter_sublist.map _),
      h.distinct.sublist (List.filter_sublist.map _), fun sink' => ?_, fun sink' hleft => ?_,
      h.hand, fun t sink' hsink' => ?_⟩
    · rw [subscribed, hother, h.reading]
      simp [and_assoc]
    · rcases List.mem_append.mp hleft with hleft | hleft
      · exact h.gone sink' hleft
      · have heq : sink' = sink := by simpa using hleft
        rw [heq]
        exact hmade
    · exact (mem_standing_concat hsink').elim (h.registered t sink') (by simp)

theorem not_mem_names_dropReader (s : BusSession) (name : String) :
    name ∉ (s.dropReader name).readers.map Prod.fst := by
  intro hmem
  obtain ⟨e, he, hname⟩ := List.mem_map.mp hmem
  unfold BusSession.dropReader at he
  split at he
  · rename_i hnone
    simpa [hname] using List.lookup_eq_none_iff.mp hnone e he
  · simpa [hname] using (List.mem_filter.mp he).2

/-- A new mailbox is made. -/
theorem channel (h : s.Matches past) (name : String) :
    (s.channel name).Matches (past ++ s.throughReader name .left) := by
  let rest := (s.dropSink name).dropReader name
  have hdrop : rest.Matches (past ++ s.throughReader name .left) :=
    (h.dropSink name).dropReader name
  have hfree : name ∉ rest.readers.map Prod.fst := not_mem_names_dropReader _ name
  have hnew : ∀ sink : Sink, sink.mailbox < rest.mailboxes → sink ≠ ⟨rest.mailboxes⟩ := by
    rintro sink hlt rfl
    exact absurd hlt (lt_irrefl _)
  have hsubscribed : (s.channel name).subscribed = rest.subscribed ++ [⟨rest.mailboxes⟩] :=
    List.map_append
  refine ⟨hdrop.follows, ?_, ?_, fun sink => ?_, fun sink hleft => ?_, fun e he => ?_,
    fun t sink hsink => ?_⟩
  · show ((rest.readers ++ [(name, _)]).map Prod.fst).Nodup
    rw [List.map_append, List.map_singleton, ← List.concat_eq_append]
    exact hdrop.names.concat hfree
  · rw [hsubscribed, ← List.concat_eq_append]
    exact hdrop.distinct.concat fun hmem => hnew _ ((hdrop.reading _).mp hmem).1 rfl
  · rw [hsubscribed, List.mem_append, List.mem_singleton, hdrop.reading]
    show _ ↔ sink.mailbox < rest.mailboxes + 1 ∧ _
    rw [Nat.lt_succ_iff_lt_or_eq, or_and_right]
    refine or_congr_right ⟨?_, fun hlast => Sink.ext hlast.1⟩
    rintro rfl
    exact ⟨rfl, fun hleft => hnew _ (hdrop.gone _ hleft) rfl⟩
  · exact Nat.lt_succ_of_lt (hdrop.gone sink hleft)
  · rcases List.mem_append.mp he with he | he
    · exact Nat.lt_succ_of_lt (hdrop.hand e he)
    · rw [List.mem_singleton.mp he]
      exact Nat.lt_succ_self _
  · exact Nat.lt_succ_of_lt (hdrop.registered t sink hsink)

/-- Nothing is read. -/
theorem readNone (h : s.Matches past) (sink : Sink) : s.Matches (past ++ [.read sink []]) :=
  h.aside (h.follows.read rfl (fun _ _ => rfl) fun _ => rfl) (by simp) (by simp)

/-- One letter is read, or nothing is. -/
theorem readOne (h : s.Matches past) (sink : Sink) {later : Answer} (hlater : later.texts = []) :
    (s.readOne sink later).2.Matches (past ++ [.read sink (s.readOne sink later).1.texts]) := by
  unfold BusSession.readOne
  split
  · rename_i text post htake
    obtain ⟨hread, hother, hclosed⟩ := Post.unread_take? htake
    exact h.aside (h.follows.read hread hother hclosed) (by simp) (by simp)
  · have hnone : (s.silence sink later).texts = [] := by
      unfold silence
      split
      · exact hlater
      · rfl
    show s.Matches (past ++ [.read sink (s.silence sink later).texts])
    rw [hnone]
    exact h.readNone sink

/-- All letters are read, and the subscription is used up. -/
theorem readAll (h : s.Matches past) (hname : s.readers.lookup name = some sink) :
    (s.dropReader name).Matches
      (past ++ [.read sink (s.post.unread sink)] ++ s.throughReader name .left) := by
  have hpost : ∀ sink', (s.post.takeAll sink).2.unread sink' =
      if sink' = sink then [] else s.post.unread sink' := s.post.unread_takeAll sink
  have hread : Matches { s with post := (s.post.takeAll sink).2 }
      (past ++ [.read sink (s.post.unread sink)]) := by
    refine h.aside (h.follows.read ?_ (fun sink' hsink => ?_) fun _ => rfl) (by simp) (by simp)
    · rw [hpost, if_pos rfl, List.append_nil]
    · rw [hpost, if_neg hsink]
  have hsame : BusSession.dropReader { s with post := (s.post.takeAll sink).2 } name =
      s.dropReader name := by
    simp only [BusSession.dropReader, hname, Post.depart_takeAll]
  rw [← hsame]
  exact hread.dropReader name

/-- A step that reads from a subscription in the hand. -/
theorem throughReader (h : s.Matches past) (name : String) {f : Sink → Answer × BusSession}
    (hf : ∀ sink, (f sink).2.Matches (past ++ [.read sink (f sink).1.texts])) :
    (s.withReader name f).2.Matches
      (past ++ s.throughReader name (.read · (s.withReader name f).1.texts)) := by
  unfold withReader BusSession.throughReader
  cases s.readers.lookup name with
  | none => simpa using h
  | some sink => exact hf sink

/-- What a step does to the session is what its deeds say. -/
theorem take (h : s.Matches past) (step : Step) :
    (s.take step).2.Matches (past ++ s.deeds step) := by
  cases step with
  | startup => exact h.aside h.follows.startup (by simp) (by simp)
  | shutdown => exact h.aside h.follows.shutdown (by simp) (by simp)
  | close t => exact h.aside (h.follows.close t) (by simp) (by simp)
  | publish t text =>
    have hpublish : s.bus.publish s.post t text = (_, _, _) := rfl
    exact h.aside (h.follows.publish hpublish).1 (by simp) (by simp)
  | channel name => exact h.channel name
  | subscribe name t =>
    refine h.throughSink name fun sink hmade => ?_
    exact (h.dropSink name).next (h.follows.subscribe t sink) (by simp) (List.Subset.refl _)
      fun t' sink' hd => by cases hd; exact hmade
  | share name t =>
    refine h.throughSink name fun sink hmade => ?_
    exact h.next (h.follows.subscribe t sink) (by simp) (List.Subset.refl _)
      fun t' sink' hd => by cases hd; exact hmade
  | duplicate name other =>
    show (s.withSink name _).2.Matches (past ++ [])
    rw [List.append_nil]
    unfold withSink
    split
    · exact h
    · rename_i sink hname
      refine h.withSinks fun e he => ?_
      rcases List.mem_append.mp he with he | he
      · exact h.hand e (List.mem_of_mem_filter he)
      · rw [List.mem_singleton.mp he]
        exact h.hand (name, sink) (mem_of_lookup hname)
  | send name text =>
    exact h.throughSink name fun sink _ => h.aside (h.follows.send sink text) (by simp) (by simp)
  | askClosed name =>
    show (s.withSink name _).2.Matches (past ++ [])
    rw [List.append_nil]
    unfold withSink
    split <;> exact h
  | count t => exact (List.append_nil past).symm ▸ h
  | dropSink name => exact (List.append_nil past).symm ▸ h.dropSink name
  | dropReader name => exact h.dropReader name
  | tryReceive name => exact h.throughReader name fun sink => h.readOne sink rfl
  | receive name => exact h.throughReader name fun sink => h.readOne sink rfl
  | collect name =>
    cases hname : s.readers.lookup name with
    | none =>
      simpa [BusSession.take, withReader, deeds, BusSession.throughReader, hname] using h
    | some sink =>
      by_cases hholds : s.holds sink = true
      · have hdrop := (h.readNone sink).dropReader name
        simpa [BusSession.take, withReader, deeds, BusSession.throughReader, hname, hholds,
          Answer.texts] using hdrop
      · have hall := h.readAll hname
        simpa [BusSession.take, withReader, deeds, BusSession.throughReader, hname, hholds,
          Answer.texts] using hall
  | await name =>
    cases hname : s.readers.lookup name with
    | none =>
      simpa [BusSession.take, withReader, deeds, BusSession.throughReader, hname] using h
    | some sink =>
      by_cases hholds : s.holds sink = true
      · have hnone := h.readNone sink
        simpa [BusSession.take, withReader, deeds, BusSession.throughReader, hname, hholds,
          Answer.texts] using hnone
      · have hall := h.readAll hname
        simpa [BusSession.take, withReader, deeds, BusSession.throughReader, hname, hholds,
          Answer.texts] using hall

/-- What steps do to the session is what their deeds say. -/
theorem run (h : s.Matches past) (steps : List Step) :
    (s.run steps).Matches (past ++ s.deedsAlong steps) := by
  induction steps generalizing s past with
  | nil => exact (List.append_nil past).symm ▸ h
  | cons step rest ih =>
    rw [deedsAlong, ← List.append_assoc]
    exact ih (h.take step)

end Matches

/-! ## Answers -/

/-- A holder of the sink is in the hand, or it is registered for some topic. -/
def Connected (s : BusSession) (past : List BusDeed) (sink : Sink) : Prop :=
  (∃ name, (name, sink) ∈ s.sinks) ∨ ∃ t, sink ∈ standing past t

/-- How a subscriber reads its mailbox when it has not read the rest of what it is due. -/
structure Reads (s : BusSession) (past : List BusDeed) (name : String) (sink : Sink)
    (rest : List String) : Prop where
  /-- What the mailbox is due is what was read from it and the rest. -/
  due : due sink past = readBy sink past ++ rest
  /-- The next letter is the first of the rest. -/
  next : ∀ text more, rest = text :: more →
    (s.take (.receive name)).1 = .letters [text] ∧ (s.take (.tryReceive name)).1 = .letters [text]
  /-- When all is read, a subscriber waits as long as somebody could send more. -/
  waits : rest = [] → s.Connected past sink →
    (s.take (.receive name)).1 = .pending ∧ (s.take (.tryReceive name)).1 = .letters []
  /-- When all is read and nobody could, it is told of the end. -/
  ends : rest = [] → ¬ s.Connected past sink →
    (s.take (.receive name)).1 = .ended ∧ (s.take (.tryReceive name)).1 = .ended
  /-- A collection goes on as long as somebody could send more. -/
  unfinished : s.Connected past sink →
    (s.take (.collect name)).1 = .pending ∧ (s.take (.await name)).1 = .pending
  /-- It has the whole rest when nobody could. -/
  finished : ¬ s.Connected past sink →
    (s.take (.collect name)).1 = .letters rest ∧ (s.take (.await name)).1 = .letters rest

variable {s : BusSession} {past : List BusDeed} {name : String} {sink : Sink}

/-- One letter is read, if there is one. -/
theorem readOne_answer (s : BusSession) (sink : Sink) (later : Answer) :
    (s.readOne sink later).1 = match s.post.unread sink with
      | text :: _ => .letters [text]
      | [] => s.silence sink later := by
  unfold readOne Post.take?
  cases s.post.unread sink <;> rfl

/-- A sink whose reader is there is held if it is connected. -/
theorem Matches.holds_iff (h : s.Matches past) (hleft : .left sink ∉ past) :
    s.holds sink = true ↔ s.Connected past sink := by
  rw [holds, Bool.or_eq_true, Bus.holds_iff (h.follows.open_of_not_left hleft), or_comm]
  refine or_congr ?_ (exists_congr fun t => ?_)
  · simp only [List.any_eq_true, decide_eq_true_eq, Prod.exists, exists_eq_right]
  · rw [h.follows.live, List.mem_filter]
    simp [hleft]

/-- The registrations that count are those whose subscriptions are in the hand. -/
theorem Matches.filter_standing (h : s.Matches past) (t : Topic) :
    (standing past t).filter (· ∈ s.subscribed) =
      (standing past t).filter (fun sink => .left sink ∉ past) := by
  refine List.filter_congr fun sink hsink => ?_
  simp [h.reading, h.registered t sink hsink]

/-- A subscription in the hand reads what waits in its mailbox. -/
theorem Matches.reads (h : s.Matches past) (hname : s.readers.lookup name = some sink) :
    s.Reads past name sink (s.post.unread sink) := by
  have hleft := h.not_left hname
  have hholds := h.holds_iff hleft
  have hreceive : (s.take (.receive name)).1 = (s.readOne sink .pending).1 := by
    simp only [BusSession.take, withReader, hname]
  have htry : (s.take (.tryReceive name)).1 = (s.readOne sink (.letters [])).1 := by
    simp only [BusSession.take, withReader, hname]
  rw [readOne_answer] at hreceive htry
  refine ⟨h.follows.letters sink hleft, fun text more hrest => ?_, fun hrest hconnected => ?_,
    fun hrest hconnected => ?_, fun hconnected => ?_, fun hconnected => ?_⟩
  · rw [hreceive, htry, hrest]
    exact ⟨rfl, rfl⟩
  · rw [hreceive, htry, hrest]
    simp [silence, hholds, hconnected]
  · rw [hreceive, htry, hrest]
    simp [silence, hholds, hconnected]
  · simp [BusSession.take, withReader, hname, hholds, hconnected]
  · simp [BusSession.take, withReader, hname, hholds, hconnected]

theorem withSink_bus {f : Sink → Answer × BusSession} (hf : ∀ sink, (f sink).2.bus = s.bus) :
    (s.withSink name f).2.bus = s.bus := by
  unfold withSink
  split
  · rfl
  · exact hf _

theorem withReader_bus {f : Sink → Answer × BusSession} (hf : ∀ sink, (f sink).2.bus = s.bus) :
    (s.withReader name f).2.bus = s.bus := by
  unfold withReader
  split
  · rfl
  · exact hf _

@[simp] theorem dropReader_bus (s : BusSession) (name : String) :
    (s.dropReader name).bus = s.bus := by
  unfold dropReader
  split <;> rfl

@[simp] theorem readOne_bus (s : BusSession) (sink : Sink) (later : Answer) :
    (s.readOne sink later).2.bus = s.bus := by
  unfold readOne
  split <;> rfl

/-- After the end nothing changes a bus any more. -/
theorem take_bus_of_stopped (hphase : s.bus.phase = .stopped) (htopics : s.bus.topics = ∅)
    (step : Step) : (s.take step).2.bus = s.bus := by
  have hsubscribe : ∀ t sink, s.bus.subscribe t sink = s.bus := fun t sink => if_pos hphase
  cases step with
  | startup =>
    show s.bus.startup = s.bus
    rw [Bus.startup, hphase]
    rfl
  | shutdown =>
    show ({ s.bus with phase := .stopped, topics := ∅ } : Bus) = s.bus
    rw [← hphase, ← htopics]
  | close t =>
    have hnone : s.bus.topics.erase t = s.bus.topics := by
      rw [htopics]
      rfl
    show ({ s.bus with topics := s.bus.topics.erase t } : Bus) = s.bus
    rw [hnone]
  | publish t text =>
    have hstill : s.bus.phase ≠ .running := by simp [hphase]
    show (s.bus.publish s.post t text).1 = s.bus
    rw [Bus.publish_of_not_running hstill]
  | count t => rfl
  | channel name => exact dropReader_bus ..
  | subscribe name t => exact withSink_bus fun sink => hsubscribe t sink
  | share name t => exact withSink_bus fun sink => hsubscribe t sink
  | duplicate name other => exact withSink_bus fun sink => rfl
  | send name text => exact withSink_bus fun sink => rfl
  | askClosed name => exact withSink_bus fun sink => rfl
  | dropSink name => rfl
  | dropReader name => exact dropReader_bus ..
  | tryReceive name => exact withReader_bus fun sink => readOne_bus ..
  | receive name => exact withReader_bus fun sink => readOne_bus ..
  | collect name => exact withReader_bus fun sink => dropReader_bus ..
  | await name =>
    refine withReader_bus fun sink => ?_
    split
    · rfl
    · exact dropReader_bus ..

/-- After the end nothing is published or registered any more, whatever steps follow. -/
theorem run_bus_of_stopped (hphase : s.bus.phase = .stopped) (htopics : s.bus.topics = ∅)
    (steps : List Step) : (s.run steps).bus = s.bus := by
  induction steps generalizing s with
  | nil => rfl
  | cons step rest ih =>
    have hsame := take_bus_of_stopped hphase htopics step
    exact (ih (hsame ▸ hphase) (hsame ▸ htopics)).trans hsame

/-- **What subscribers read.**  Whatever steps are taken on a bus, a subscription in the hand has
read the first part of what its mailbox is due and reads the rest next, letter by letter or at once,
and it is told of the end when all is read and its sink has no holder and no registration left.  A
text that is published now reaches the registrations that stand and whose readers are there, and
none if the bus does not run.  Once the bus was stopped, nothing changes it. -/
theorem reads_due (steps : List Step) :
    let s := run {} steps
    let past := deedsAlong {} steps
    (∀ name sink, s.readers.lookup name = some sink → ∃ rest, s.Reads past name sink rest) ∧
      (∀ t text, (s.take (.publish t text)).1 = .number
        (if Running past then ((standing past t).filter (· ∈ s.subscribed)).length else 0)) ∧
      (.stopped ∈ past → s.bus.phase = .stopped ∧ s.bus.topics = ∅ ∧
        ∀ more, (s.run more).bus = s.bus) := by
  intro s past
  have h : s.Matches past := Matches.new.run steps
  refine ⟨fun name sink hname => ⟨_, h.reads hname⟩, fun t text => ?_, fun hstopped => ?_⟩
  · have hpublish : s.bus.publish s.post t text = (_, _, _) := rfl
    refine congrArg Answer.number ((h.follows.publish hpublish).2.trans ?_)
    rw [h.filter_standing]
  · have hphase := h.follows.stopped.mpr hstopped
    have htopics := h.follows.ended hstopped
    exact ⟨hphase, htopics, run_bus_of_stopped hphase htopics⟩

end BusSession

end Outbox
