import Mathlib.Data.List.DropRight
import Outbox.Proofs.Bus.Post

/-!
# What happens on a bus

Everything that happens on a bus and its mailboxes is told by a list of deeds.  From the deeds alone
it can be said what a mailbox is due: a copy of every text published while the bus runs, for each
registration that stands at that moment, and the texts sent past the bus, in the order in which
all this happens.  A registration stands until its topic is closed or the bus is stopped.

* `BusDeed` — what can happen;
* `BusDeed.Running`, `BusDeed.standing` — whether the bus runs, and the registrations that stand;
* `BusDeed.due`, `BusDeed.readBy` — what a mailbox is due, and what was read from it;
* `Bus.Follows` — bus and post are as the deeds say, with a lemma for each deed.
-/

namespace Outbox

/-! ## Deeds -/

/-- Something that happens on a bus or to a mailbox. -/
inductive BusDeed where
  /-- Publishing begins. -/
  | started
  /-- Publishing ends for good. -/
  | stopped
  /-- A topic is closed. -/
  | closed (topic : Topic)
  /-- A text is published. -/
  | published (topic : Topic) (text : String)
  /-- A sink is registered for a topic. -/
  | registered (topic : Topic) (sink : Sink)
  /-- A text is sent past the bus. -/
  | sent (sink : Sink) (text : String)
  /-- Texts are read from a mailbox. -/
  | read (sink : Sink) (texts : List String)
  /-- The reader of a mailbox leaves. -/
  | left (sink : Sink)
deriving DecidableEq

namespace BusDeed

/-- The bus runs: it was started, and it was never stopped. -/
def Running (past : List BusDeed) : Prop := .started ∈ past ∧ .stopped ∉ past

instance (past : List BusDeed) : Decidable (Running past) := inferInstanceAs (Decidable (_ ∧ _))

/-- The sink that the deed registers for a topic. -/
def registration? (t : Topic) : BusDeed → Option Sink
  | .registered t' sink => if t' = t then some sink else none
  | _ => none

/-- The registrations for a topic since it was last closed; after the end there are none. -/
def standing (past : List BusDeed) (t : Topic) : List Sink :=
  if .stopped ∈ past then []
  else (past.rtakeWhile (fun d => d ≠ .closed t)).filterMap (registration? t)

/-- The texts that a deed puts into a mailbox. -/
def arriving (sink : Sink) (past : List BusDeed) : BusDeed → List String
  | .published t text =>
    if Running past then List.replicate ((standing past t).count sink) text else []
  | .sent sink' text => if sink' = sink then [text] else []
  | _ => []

/-- The texts that deeds put into a mailbox after others. -/
def dueAfter (sink : Sink) (past : List BusDeed) : List BusDeed → List String
  | [] => []
  | d :: rest => arriving sink past d ++ dueAfter sink (past ++ [d]) rest

/-- The texts that a mailbox is due. -/
def due (sink : Sink) (deeds : List BusDeed) : List String := dueAfter sink [] deeds

/-- The texts that a deed reads from a mailbox. -/
def texts (sink : Sink) : BusDeed → List String
  | .read sink' texts => if sink' = sink then texts else []
  | _ => []

/-- The texts read from a mailbox. -/
def readBy (sink : Sink) (deeds : List BusDeed) : List String := deeds.flatMap (texts sink)

/-- Two registrations give two copies; what is published before the start, on a closed topic or
after the end is not due. -/
example : due ⟨0⟩ [.registered .first ⟨0⟩, .published .first "early", .started,
    .registered .first ⟨0⟩, .published .first "twice", .sent ⟨0⟩ "direct", .closed .first,
    .published .first "unheard", .registered .first ⟨0⟩, .published .first "once", .stopped,
    .started, .published .first "late"] = ["twice", "twice", "direct", "once"] := by decide

variable {past : List BusDeed} {d : BusDeed} {t : Topic} {sink : Sink}

theorem dueAfter_concat (sink : Sink) (past deeds : List BusDeed) (d : BusDeed) :
    dueAfter sink past (deeds ++ [d]) =
      dueAfter sink past deeds ++ arriving sink (past ++ deeds) d := by
  induction deeds generalizing past with
  | nil => simp [dueAfter]
  | cons d' rest ih =>
    rw [List.cons_append, dueAfter, dueAfter, ih, List.append_assoc, List.append_assoc]
    rfl

@[simp] theorem due_concat (sink : Sink) (past : List BusDeed) (d : BusDeed) :
    due sink (past ++ [d]) = due sink past ++ arriving sink past d := dueAfter_concat sink [] past d

@[simp] theorem readBy_concat (sink : Sink) (past : List BusDeed) (d : BusDeed) :
    readBy sink (past ++ [d]) = readBy sink past ++ texts sink d := by
  simp [readBy]

theorem standing_of_stopped (h : .stopped ∈ past) (t : Topic) : standing past t = [] := if_pos h

/-- A deed that neither stops the bus nor closes the topic adds at most a registration. -/
theorem standing_concat (hstop : d ≠ .stopped) (hclose : d ≠ .closed t) :
    standing (past ++ [d]) t =
      standing past t ++ if .stopped ∈ past then [] else (registration? t d).toList := by
  unfold standing
  by_cases h : .stopped ∈ past
  · simp [h]
  · rw [if_neg (by simp [h, Ne.symm hstop]), if_neg h, if_neg h,
      List.rtakeWhile_concat_pos _ _ _ (by simpa using hclose), List.filterMap_append]
    cases hd : registration? t d <;> simp [hd]

theorem standing_closed (past : List BusDeed) (t : Topic) :
    standing (past ++ [.closed t]) t = [] := by
  unfold standing
  split
  · rfl
  · rw [List.rtakeWhile_concat_neg _ _ _ (by simp)]
    rfl

/-- A deed adds no registration but the one it makes. -/
theorem mem_standing_concat (h : sink ∈ standing (past ++ [d]) t) :
    sink ∈ standing past t ∨ d = .registered t sink := by
  by_cases hstop : d = .stopped
  · rw [hstop, standing_of_stopped (by simp)] at h
    cases h
  · by_cases hclose : d = .closed t
    · rw [hclose, standing_closed] at h
      cases h
    · rw [standing_concat hstop hclose] at h
      refine (List.mem_append.mp h).imp_right fun h => ?_
      split at h
      · cases h
      · cases d with
        | registered t' sink' =>
          simp only [registration?, Option.mem_toList, Option.ite_none_right_eq_some,
            Option.some.injEq] at h
          rw [h.1, h.2]
        | _ => cases h

end BusDeed

open BusDeed

/-! ## Bus and post -/

/-- Bus and post are as the deeds say. -/
structure Bus.Follows (bus : Bus) (post : Post String) (past : List BusDeed) : Prop where
  /-- The bus runs if it should. -/
  running : bus.phase = .running ↔ Running past
  /-- It has been shut down if it should be. -/
  stopped : bus.phase = .stopped ↔ .stopped ∈ past
  /-- After the end nothing is registered. -/
  ended : .stopped ∈ past → bus.topics = ∅
  /-- The readers that are gone have left. -/
  closed : ∀ sink, post.isClosed sink = true ↔ .left sink ∈ past
  /-- The registrations that count are those that stand and whose readers have not left. -/
  live : ∀ t, bus.live post t = (standing past t).filter (fun sink => .left sink ∉ past)
  /-- What a reader is due is what it has read and what waits in its mailbox. -/
  letters : ∀ sink, .left sink ∉ past → due sink past = readBy sink past ++ post.unread sink

namespace Bus.Follows

variable {bus bus' : Bus} {post post' : Post String} {past : List BusDeed} {d : BusDeed}
  {t : Topic} {sink : Sink} {text : String}

theorem new : Bus.Follows {} {} [] where
  running := by decide
  stopped := by decide
  ended h := by cases h
  closed sink := by simp [Post.isClosed]
  live t := rfl
  letters sink _ := rfl

theorem open_of_not_left (h : bus.Follows post past) (hsink : .left sink ∉ past) :
    post.isClosed sink = false := by
  rw [← Bool.not_eq_true, h.closed]
  exact hsink

/-- What a deed does to mailboxes fits if what comes and what is read add up. -/
theorem letters_concat (h : bus.Follows post past) (hsink : .left sink ∉ past)
    (hd : post.unread sink ++ arriving sink past d = texts sink d ++ post'.unread sink) :
    due sink (past ++ [d]) = readBy sink (past ++ [d]) ++ post'.unread sink := by
  rw [due_concat, readBy_concat, h.letters sink hsink, List.append_assoc, hd, List.append_assoc]

/-- A deed after which the same registrations count and the same readers are there. -/
theorem aside (h : bus.Follows post past) (hstart : d ≠ .started) (hstop : d ≠ .stopped)
    (hclose : ∀ t, d ≠ .closed t) (hregister : ∀ t, registration? t d = none)
    (hleft : ∀ sink, d ≠ .left sink) (hphase : bus'.phase = bus.phase)
    (hended : bus.phase = .stopped → bus'.topics = bus.topics)
    (hlive : ∀ t, bus'.live post' t = bus.live post t)
    (hclosed : ∀ sink, post'.isClosed sink = post.isClosed sink)
    (hd : ∀ sink, .left sink ∉ past →
      post.unread sink ++ arriving sink past d = texts sink d ++ post'.unread sink) :
    bus'.Follows post' (past ++ [d]) := by
  have hstopped : .stopped ∈ past ++ [d] ↔ .stopped ∈ past := by simp [Ne.symm hstop]
  have hgone : ∀ sink, .left sink ∈ past ++ [d] ↔ .left sink ∈ past := by
    simp [fun sink => Ne.symm (hleft sink)]
  refine ⟨?_, ?_, ?_, ?_, ?_, ?_⟩
  · rw [hphase, h.running, Running, Running, hstopped]
    simp [Ne.symm hstart]
  · rw [hphase, h.stopped, hstopped]
  · intro hend
    rw [hended (h.stopped.mpr (hstopped.mp hend)), h.ended (hstopped.mp hend)]
  · intro sink
    rw [hclosed, h.closed, hgone]
  · intro t
    rw [hlive, h.live, standing_concat hstop (hclose t), hregister]
    simp [hgone]
  · intro sink hsink
    have hsink : .left sink ∉ past := fun hmem => hsink ((hgone sink).mpr hmem)
    exact h.letters_concat hsink (hd sink hsink)

/-- Publishing begins. -/
theorem startup (h : bus.Follows post past) : bus.startup.Follows post (past ++ [.started]) := by
  have htopics : bus.startup.topics = bus.topics := by
    unfold Bus.startup
    split <;> rfl
  have hstopped : bus.startup.phase = .stopped ↔ bus.phase = .stopped := by
    unfold Bus.startup
    split
    · rename_i hidle
      simp [hidle]
    · rfl
  have hrunning : bus.startup.phase = .running ↔ ¬ bus.phase = .stopped := by
    unfold Bus.startup
    cases hphase : bus.phase <;> simp [hphase]
  refine ⟨?_, ?_, ?_, ?_, ?_, ?_⟩
  · rw [hrunning, h.stopped]
    simp [Running]
  · rw [hstopped, h.stopped]
    simp
  · intro hend
    rw [htopics]
    exact h.ended (by simpa using hend)
  · intro sink
    rw [h.closed]
    simp
  · intro t
    rw [standing_concat (by simp) (by simp)]
    simpa [Bus.live, htopics, registration?] using h.live t
  · intro sink hsink
    exact h.letters_concat (by simpa using hsink) (by simp [arriving, texts])

/-- Publishing ends. -/
theorem shutdown (h : bus.Follows post past) : bus.shutdown.Follows post (past ++ [.stopped]) where
  running := by simp [Bus.shutdown, Running]
  stopped := by simp [Bus.shutdown]
  ended _ := rfl
  closed sink := by
    rw [h.closed]
    simp
  live t := by
    rw [standing_of_stopped (by simp)]
    rfl
  letters sink hsink := h.letters_concat (by simpa using hsink) (by simp [arriving, texts])

/-- A topic is closed. -/
theorem close (h : bus.Follows post past) (t : Topic) :
    (bus.close t).Follows post (past ++ [.closed t]) where
  running := by
    rw [show (bus.close t).phase = bus.phase from rfl, h.running]
    simp [Running]
  stopped := by
    rw [show (bus.close t).phase = bus.phase from rfl, h.stopped]
    simp
  ended hend := by
    have hnone : bus.topics = ∅ := h.ended (by simpa using hend)
    rw [Bus.close, hnone]
    rfl
  closed sink := by
    rw [h.closed]
    simp
  live t' := by
    rw [live_close]
    by_cases ht : t' = t
    · rw [if_pos ht, ht, standing_closed]
      rfl
    · rw [if_neg ht, h.live, standing_concat (by simp) (by simpa using Ne.symm ht)]
      simp [registration?]
  letters sink hsink := h.letters_concat (by simpa using hsink) (by simp [arriving, texts])

/-- A sink is registered; after the end it is dropped. -/
theorem subscribe (h : bus.Follows post past) (t : Topic) (sink : Sink) :
    (bus.subscribe t sink).Follows post (past ++ [.registered t sink]) := by
  have hphase : (bus.subscribe t sink).phase = bus.phase := by
    unfold Bus.subscribe
    split <;> rfl
  refine ⟨?_, ?_, ?_, ?_, ?_, ?_⟩
  · rw [hphase, h.running]
    simp [Running]
  · rw [hphase, h.stopped]
    simp
  · intro hend
    have hpast : .stopped ∈ past := by simpa using hend
    rw [Bus.subscribe, if_pos (h.stopped.mpr hpast), h.ended hpast]
  · intro sink'
    rw [h.closed]
    simp
  · intro t'
    rw [standing_concat (by simp) (by simp)]
    by_cases hend : .stopped ∈ past
    · rw [Bus.subscribe, if_pos (h.stopped.mpr hend), h.live, standing_of_stopped hend, if_pos hend]
      rfl
    · have hopen : post.isClosed sink = false ↔ .left sink ∉ past := by
        rw [← Bool.not_eq_true, h.closed]
      rw [live_subscribe (fun hphase => hend (h.stopped.mp hphase)), h.live, if_neg hend,
        List.filter_append]
      by_cases ht : t = t'
      · by_cases hsink : .left sink ∈ past
        · simp [registration?, ht, hopen, hsink]
        · simp [registration?, ht, hopen, hsink]
      · simp [registration?, ht]
  · intro sink' hsink
    exact h.letters_concat (by simpa using hsink) (by simp [arriving, texts])

/-- A text is published. -/
theorem publish (h : bus.Follows post past) {n : Nat}
    (hpublish : bus.publish post t text = (bus', post', n)) :
    bus'.Follows post' (past ++ [.published t text]) ∧
      n = if Running past then ((standing past t).filter (fun sink => .left sink ∉ past)).length
        else 0 := by
  by_cases hrunning : Running past
  · obtain ⟨rfl, rfl, hphase, hlive⟩ := publish_of_running (h.running.mpr hrunning) hpublish
    refine ⟨h.aside (by simp) (by simp) (by simp) (fun _ => rfl) (by simp)
      (hphase.trans (h.running.mpr hrunning).symm) (fun hstopped => ?_) (fun t' => ?_)
      (fun sink => post.isClosed_deliverAll ..) fun sink hsink => ?_, ?_⟩
    · rw [h.running.mpr hrunning] at hstopped
      cases hstopped
    · rw [live_congr (fun sink => post.isClosed_deliverAll ..), hlive]
    · -- the reader is there, so all registrations of the sink count
      rw [Post.unread_deliverAll (h.open_of_not_left hsink), h.live, List.count_filter (by simpa),
        arriving, if_pos hrunning]
      rfl
    · rw [if_pos hrunning, h.live]
  · rw [publish_of_not_running fun hphase => hrunning (h.running.mp hphase)] at hpublish
    cases hpublish
    refine ⟨h.aside (by simp) (by simp) (by simp) (fun _ => rfl) (by simp) rfl (fun _ => rfl)
      (fun _ => rfl) (fun _ => rfl) fun sink hsink => ?_, ?_⟩
    · simp [arriving, texts, hrunning]
    · rw [if_neg hrunning]

/-- A text is sent past the bus. -/
theorem send (h : bus.Follows post past) (sink : Sink) (text : String) :
    bus.Follows (post.deliver sink text) (past ++ [.sent sink text]) := by
  have hclosed : ∀ sink', (post.deliver sink text).isClosed sink' = post.isClosed sink' :=
    post.isClosed_deliver sink text
  refine h.aside (by simp) (by simp) (by simp) (fun _ => rfl) (by simp) rfl (fun _ => rfl)
    (live_congr hclosed bus) hclosed fun sink' hsink => ?_
  rw [Post.unread_deliver (h.open_of_not_left hsink)]
  rfl

/-- Texts are read from the front of a mailbox. -/
theorem read (h : bus.Follows post past) {texts : List String}
    (hread : post.unread sink = texts ++ post'.unread sink)
    (hother : ∀ sink' ≠ sink, post'.unread sink' = post.unread sink')
    (hclosed : ∀ sink', post'.isClosed sink' = post.isClosed sink') :
    bus.Follows post' (past ++ [.read sink texts]) := by
  refine h.aside (by simp) (by simp) (by simp) (fun _ => rfl) (by simp) rfl (fun _ => rfl)
    (live_congr hclosed bus) hclosed fun sink' _ => ?_
  by_cases hsink : sink' = sink
  · subst hsink
    simp [arriving, BusDeed.texts, hread]
  · simp [arriving, BusDeed.texts, Ne.symm hsink, hother sink' hsink]

/-- The reader of a mailbox leaves. -/
theorem depart (h : bus.Follows post past) (sink : Sink) :
    bus.Follows (post.depart sink) (past ++ [.left sink]) where
  running := by
    rw [h.running]
    simp [Running]
  stopped := by
    rw [h.stopped]
    simp
  ended hend := h.ended (by simpa using hend)
  closed sink' := by
    rw [Post.isClosed_depart, Bool.or_eq_true, h.closed, or_comm]
    simp
  live t := by
    rw [live_depart, h.live, standing_concat (by simp) (by simp), List.filter_filter]
    simp [registration?, and_comm, not_or]
  letters sink' hsink := by
    have hne : sink ≠ sink' := fun heq => hsink (by simp [heq])
    refine h.letters_concat (fun hmem => hsink (List.mem_append_left _ hmem)) ?_
    rw [Post.unread_depart hne]
    simp [arriving, texts]

end Bus.Follows

end Outbox
