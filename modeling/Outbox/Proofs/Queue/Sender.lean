import Outbox.Proofs.Queue.Failure

/-!
# The worker and its sender

A worker asks for a sender when it has its first message, sends one message after the other with it
once it is open, and resets it in the end.  It never asks a second time: when no sender can be
opened, a send fails or everything is called off, the worker is on its way out.

* `Queue.calls` — the calls to the network and how they ended, read off the log;
* `SenderUse`, `SenderUse.text` — how far the use of a sender went, and the calls made by then;
* `SenderUse.handling` — what of it makes a sender or gives it up: it opens, and it is reset;
* `Worker.Holds` — how far it went when the worker stands at a place;
* `Queue.Using.act` — every act keeps to it, with `Queue.IsNew.using`;
* `Queue.Spent` — a worker that will not ask for anything more, with `Queue.Spent.act`;
* `Queue.sender_discipline` — the same for whole runs.
-/

namespace Outbox

/-! ## Calls to the network -/

namespace Action

/-- The network is called, or tells that a sender is open or how a send ended. -/
def isOfNetwork : Action → Bool
  | opening .. => true
  | opened => true
  | sending _ => true
  | sendOk => true
  | sendFailed _ => true
  | senderReset => true
  | _ => false

/-- A sender is asked for, or the send of a message begins. -/
def isAttempt : Action → Bool
  | opening .. => true
  | sending _ => true
  | _ => false

/-- A sender opens, or is reset. -/
def isOfSender : Action → Bool
  | opened => true
  | senderReset => true
  | _ => false

/-- A message is reported as failed, a send failed, or the sender is reset. -/
def isSetback (a : Action) : Bool :=
  a.isFailure || (a matches .sendFailed _) || (a matches .senderReset)

theorem isOfNetwork_of_isQuiet {a : Action} (h : a.isQuiet = true) : a.isOfNetwork = false := by
  cases a <;> first | rfl | cases h

theorem isOfNetwork_of_isAttempt {a : Action} (h : a.isAttempt = true) :
    a.isOfNetwork = true := by
  cases a <;> first | rfl | cases h

theorem isSetback_of_isQuiet {a : Action} (h : a.isQuiet = true) : a.isSetback = false := by
  cases a <;> first | rfl | cases h

end Action

/-- The calls to the network so far and how they ended, in order. -/
def Queue.calls (q : Queue) : List Action := q.log.filter Action.isOfNetwork

/-! ## The use of a sender -/

/-- How far the use of a sender went. -/
inductive SenderUse where
  /-- No sender was asked for. -/
  | none
  /-- One was asked for, and it is not open. -/
  | asked
  /-- It is open.  These messages were sent with it, and this one is being sent. -/
  | inUse (sent : List Message) (current : Option Message)
  /-- It was reset.  These messages were sent with it, and the send of this one failed, or was
  called off. -/
  | reset (sent : List Message) (last : Option (Message × Option NetworkError))

namespace SenderUse

/-- The calls about messages that were sent, one at a time. -/
def deliveries (sent : List Message) : List Action := sent.flatMap fun m => [.sending m, .sendOk]

/-- The calls about a message whose send failed or was called off. -/
def interruption : Option (Message × Option NetworkError) → List Action
  | .none => []
  | some (m, .none) => [.sending m]
  | some (m, some e) => [.sending m, .sendFailed e]

/-- The calls made by then. -/
def text (peer : Peer) (settings : SendSettings) : SenderUse → List Action
  | none => []
  | asked => [.opening peer settings]
  | inUse sent current =>
    .opening peer settings :: .opened :: (deliveries sent ++ current.toList.map .sending)
  | reset sent last =>
    .opening peer settings :: .opened ::
      (deliveries sent ++ (interruption last ++ [.senderReset]))

/-- What makes a sender or gives it up among these calls. -/
def handling : SenderUse → List Action
  | none => []
  | asked => []
  | inUse .. => [.opened]
  | reset .. => [.opened, .senderReset]

/-- No sender is open. -/
def isOver : SenderUse → Bool
  | inUse .. => false
  | _ => true

theorem deliveries_concat (sent : List Message) (m : Message) :
    deliveries (sent ++ [m]) = deliveries sent ++ [.sending m, .sendOk] := by
  simp [deliveries]

/-! ### Senders that open and are reset -/

theorem filter_isOfSender_deliveries (sent : List Message) :
    (deliveries sent).filter Action.isOfSender = [] := by
  refine List.filter_eq_nil_iff.mpr fun a ha => ?_
  obtain ⟨m, -, ha⟩ := List.mem_flatMap.mp ha
  rcases List.mem_pair.mp ha with rfl | rfl
  · exact Bool.false_ne_true
  · exact Bool.false_ne_true

theorem filter_isOfSender_interruption (last : Option (Message × Option NetworkError)) :
    (interruption last).filter Action.isOfSender = [] := by
  rcases last with _ | ⟨m, _ | e⟩ <;> rfl

theorem filter_isOfSender_text (peer : Peer) (settings : SendSettings) (use : SenderUse) :
    (use.text peer settings).filter Action.isOfSender = use.handling := by
  cases use with
  | none => rfl
  | asked => rfl
  | inUse sent current =>
    have hcurrent : (current.toList.map Action.sending).filter Action.isOfSender = [] := by
      cases current <;> rfl
    simp only [text, List.filter_cons, List.filter_append, filter_isOfSender_deliveries, hcurrent]
    rfl
  | reset sent last =>
    simp only [text, List.filter_cons, List.filter_append, filter_isOfSender_deliveries,
      filter_isOfSender_interruption]
    rfl

/-- A sender opens once and is reset once, in this order. -/
theorem handling_prefix (use : SenderUse) : use.handling <+: [.opened, .senderReset] := by
  cases use with
  | none => exact List.nil_prefix
  | asked => exact List.nil_prefix
  | inUse sent current => exact ⟨[.senderReset], rfl⟩
  | reset sent last => exact List.prefix_refl _

theorem getLast?_text_reset (peer : Peer) (settings : SendSettings) (sent : List Message)
    (last : Option (Message × Option NetworkError)) :
    ((reset sent last).text peer settings).getLast? = some .senderReset := by
  have htext : (reset sent last).text peer settings =
      (.opening peer settings :: .opened :: (deliveries sent ++ interruption last)) ++
        [.senderReset] := by
    simp [text]
  rw [htext]
  exact List.getLast?_concat

/-- A use that is over although a sender was opened ended with its reset. -/
theorem eq_reset_of_isOver {use : SenderUse} (hover : use.isOver = true)
    (hopened : .opened ∈ use.handling) : ∃ sent last, use = .reset sent last := by
  cases use with
  | none => cases hopened
  | asked => cases hopened
  | inUse sent current => cases hover
  | reset sent last => exact ⟨sent, last, rfl⟩

end SenderUse

/-- How far the use of a sender went when the worker stands here; `stop` says whether it is asked to
stop. -/
def Worker.Holds (stop : Bool) (use : SenderUse) : Worker → Prop
  | unstarted => use = .none
  | launched => use = .none
  | choosing true => ∃ sent, use = .inUse sent none
  | choosing false => use = .none ∨ (stop = true ∧ use.isOver = true)
  | opening _ => use = .asked
  | sending d => ∃ sent, use = .inUse sent (some d.message)
  | resetting .. => ∃ sent last, use = .reset sent last
  | parting => ∃ sent, use = .reset sent none
  | stopped => use.isOver = true

/-- A worker that stands here asks for nothing more: the sender is being reset or was reset, or no
message is under way and the worker is asked to stop. -/
def Worker.isSpent (stop : Bool) : Worker → Bool
  | choosing _ => stop
  | resetting .. => true
  | parting => true
  | stopped => true
  | _ => false

theorem Worker.isSpent_mono {stop stop' : Bool} {w : Worker} (h : w.isSpent stop = true)
    (hs : stop = true → stop' = true) : w.isSpent stop' = true := by
  cases w with
  | choosing sender => exact hs h
  | _ => exact h

namespace Queue

variable {others : Sink → Prop} {start q q' : Queue} {peer : Peer} {settings : SendSettings}
  {use : SenderUse} {entries : List Action}

/-- The use of a sender for the peer, with the settings, went so far. -/
structure Using (peer : Peer) (settings : SendSettings) (use : SenderUse) (q : Queue) : Prop where
  /-- These are the calls. -/
  calls : q.calls = use.text peer settings
  /-- The worker stands where it went so far. -/
  holds : q.worker.Holds q.stopRequested use
  /-- The queue is that of the peer. -/
  peer : q.peer = peer
  /-- Its settings are these. -/
  settings : q.settings = settings

theorem Act.calls_eq (a : Act others q entries q') :
    q'.calls = q.calls ++ entries.filter Action.isOfNetwork := by
  unfold calls
  rw [a.log_eq, List.filter_append]

theorem Act.peer_settings_eq (a : Act others q entries q') :
    q'.peer = q.peer ∧ q'.settings = q.settings := by
  cases a <;> exact ⟨rfl, rfl⟩

/-- What makes a sender or gives it up is a call to the network. -/
theorem filter_isOfSender_calls (q : Queue) :
    q.calls.filter Action.isOfSender = q.log.filter Action.isOfSender := by
  unfold calls
  rw [List.filter_filter]
  refine List.filter_congr fun a _ => ?_
  cases a <;> rfl

/-- Entries of which none is about the network. -/
theorem filter_isOfNetwork_eq_nil (h : ∀ a ∈ entries, a.isOfNetwork = false) :
    entries.filter Action.isOfNetwork = [] :=
  List.filter_eq_nil_iff.mpr fun a ha => by simp [h a ha]

theorem isOfNetwork_of_mem_failureEntries {d : Finished} {cause : QueueError} {n m m' : Nat}
    {purge back : List Action} (hpurge : Receipt m purge) (hback : Receipt m' back) :
    ∀ a ∈ failureEntries d cause n purge back, a.isOfNetwork = false :=
  forall_mem_failureEntries hpurge hback (fun _ => Action.isOfNetwork_of_isQuiet) (fun _ => rfl)
    rfl rfl rfl

/-- The only call in an announcement is the first one about the message. -/
theorem filter_isOfNetwork_announcement (q : Queue) (sender : Bool) (b : Builder) (d : Finished)
    (n : Nat) : (q.announcement sender b d n).filter Action.isOfNetwork =
      [q.firstAction sender d] := by
  have hsinks : (d.sinks.map (Action.subscribed d.topic)).filter Action.isOfNetwork = [] :=
    filter_isOfNetwork_eq_nil (by simp [Action.isOfNetwork])
  cases sender <;> simp [announcement, firstAction, hsinks, Action.isOfNetwork]

/-- The only call in a completion is the answer to the send. -/
theorem filter_isOfNetwork_completion {d : Finished} {n m : Nat} {back : List Action}
    (hback : Receipt m back) : (completion d n back).filter Action.isOfNetwork = [.sendOk] := by
  have hquiet : back.filter Action.isOfNetwork = [] :=
    filter_isOfNetwork_eq_nil fun a ha => Action.isOfNetwork_of_isQuiet (hback.isQuiet a ha)
  simp only [completion, List.filter_cons, List.filter_append, hquiet]
  rfl

namespace Using

/-- One more act: these calls are added, and the use went so far. -/
theorem next {use' : SenderUse} (h : Using peer settings use q) (a : Act others q entries q')
    (htext : use.text peer settings ++ entries.filter Action.isOfNetwork =
      use'.text peer settings)
    (hholds : q'.worker.Holds q'.stopRequested use') : Using peer settings use' q' where
  calls := by rw [a.calls_eq, h.calls, htext]
  holds := hholds
  peer := a.peer_settings_eq.1.trans h.peer
  settings := a.peer_settings_eq.2.trans h.settings

/-- An act without calls. -/
theorem aside (h : Using peer settings use q) (a : Act others q entries q')
    (hnone : ∀ a ∈ entries, a.isOfNetwork = false)
    (hholds : q'.worker.Holds q'.stopRequested use) : Using peer settings use q' :=
  h.next a (by rw [filter_isOfNetwork_eq_nil hnone, List.append_nil]) hholds

/-- A worker that is asked to stop besides holds what it held. -/
theorem mono_holds {stop stop' : Bool} {w : Worker} (h : w.Holds stop use)
    (hs : stop = true → stop' = true) : w.Holds stop' use := by
  cases w with
  | choosing sender =>
    cases sender with
    | true => exact h
    | false => exact h.imp_right fun hstop => ⟨hs hstop.1, hstop.2⟩
  | _ => exact h

theorem act (h : Using peer settings use q) (a : Act others q entries q') :
    ∃ use', Using peer settings use' q' := by
  have hact := a
  have hholds := h.holds
  cases a with
  | aside he hs hc hr =>
    exact ⟨use, h.aside hact (fun a ha => Action.isOfNetwork_of_isQuiet (he a ha))
      (mono_holds hholds hs)⟩
  | attached ho => exact ⟨use, h.aside hact (List.forall_mem_nil _) hholds⟩
  | departed ho => exact ⟨use, h.aside hact (List.forall_mem_nil _) hholds⟩
  | edited hc hm => exact ⟨use, h.aside hact (List.forall_mem_singleton.mpr rfl) hholds⟩
  | scrubbed hr =>
    refine ⟨use, h.aside hact (List.forall_mem_cons.mpr ⟨rfl, fun a ha => ?_⟩) hholds⟩
    exact Action.isOfNetwork_of_isQuiet (hr.isQuiet a ha)
  | launched hw hr =>
    rw [hw] at hholds
    exact ⟨use, h.aside hact (List.forall_mem_nil _) hholds⟩
  | dropped hw =>
    refine ⟨use, h.aside hact (by simp [Action.isOfNetwork]) ?_⟩
    exact mono_holds hholds fun _ => rfl
  | started hw =>
    rw [hw] at hholds
    exact ⟨use, h.aside hact (List.forall_mem_singleton.mpr rfl) (.inl hholds)⟩
  | skipped hw hb hf => exact ⟨use, h.aside hact (List.forall_mem_singleton.mpr rfl) hholds⟩
  | @announced sender token b rest d bus post n entries hw hs hb hf hp he =>
    rw [hw] at hholds
    have hcalls := filter_isOfNetwork_announcement q sender b d n
    cases sender with
    | true =>
      obtain ⟨sent, rfl⟩ := hholds
      refine ⟨.inUse sent (some d.message), h.next hact ?_ ⟨sent, rfl⟩⟩
      rw [he, hcalls]
      simp [SenderUse.text, firstAction]
    | false =>
      -- a worker without a sender that is not asked to stop has not asked for one
      obtain rfl : use = .none := by
        rcases hholds with hnone | ⟨hstop, -⟩
        · exact hnone
        · rw [hs] at hstop
          cases hstop
      refine ⟨.asked, h.next hact ?_ rfl⟩
      rw [he, hcalls, firstAction, h.peer, h.settings]
      rfl
  | @opened d hw =>
    rw [hw] at hholds
    obtain rfl : use = .asked := hholds
    exact ⟨.inUse [] (some d.message), h.next hact rfl ⟨[], rfl⟩⟩
  | @sent d pool bus post n back entries hw hback hp he =>
    rw [hw] at hholds
    obtain ⟨sent, rfl⟩ := hholds
    refine ⟨.inUse (sent ++ [d.message]) none, h.next hact ?_ ⟨_, rfl⟩⟩
    rw [he, filter_isOfNetwork_completion hback]
    simp [SenderUse.text, SenderUse.deliveries_concat]
  | @interrupted d cause entries hw hcause he =>
    rw [hw] at hholds
    obtain ⟨sent, rfl⟩ := hholds
    rcases he with rfl | ⟨e, rfl⟩
    · refine ⟨.reset sent (some (d.message, none)), h.next hact ?_ ⟨_, _, rfl⟩⟩
      simp [SenderUse.text, SenderUse.interruption, Action.isOfNetwork]
    · refine ⟨.reset sent (some (d.message, some e)), h.next hact ?_ ⟨_, _, rfl⟩⟩
      simp [SenderUse.text, SenderUse.interruption, Action.isOfNetwork]
  | @failed d cause pool bus post n purge back entries hw hpurge hback hp he =>
    subst he
    refine ⟨use, h.aside hact (isOfNetwork_of_mem_failureEntries hpurge hback) (.inr ⟨rfl, ?_⟩)⟩
    rcases hw with ⟨hw, -⟩ | hw
    · rw [hw] at hholds
      obtain rfl : use = .asked := hholds
      rfl
    · rw [hw] at hholds
      obtain ⟨sent, last, rfl⟩ := hholds
      rfl
  | drained hw hs hb hf hpurge hback hp he =>
    subst he
    refine ⟨use, h.aside hact (List.forall_mem_cons.mpr ⟨rfl, fun a ha => ?_⟩) hholds⟩
    rcases List.mem_append.mp ha with ha | ha
    · obtain ⟨s, -, rfl⟩ := List.mem_map.mp ha
      rfl
    · exact isOfNetwork_of_mem_failureEntries hpurge hback a ha
  | emptied hw hs hb => exact ⟨use, h.aside hact (List.forall_mem_nil _) hholds⟩
  | parted hw hend =>
    rw [hw] at hholds
    obtain ⟨sent, rfl⟩ := hholds
    refine ⟨.reset sent none, h.next hact ?_ ⟨sent, rfl⟩⟩
    simp [SenderUse.text, SenderUse.interruption, Action.isOfNetwork]
  | ended hw =>
    refine ⟨use, h.aside hact ?_ ?_⟩
    · simp only [teardownEntries, List.mem_append, List.mem_map, List.mem_cons, List.not_mem_nil,
        or_false]
      rintro a (⟨b, -, rfl⟩ | rfl | rfl) <;> rfl
    · show use.isOver = true
      rcases hw with hw | ⟨hw, -⟩
      · rw [hw] at hholds
        obtain ⟨sent, rfl⟩ := hholds
        rfl
      · rw [hw] at hholds
        rcases hholds with rfl | ⟨-, hover⟩
        · rfl
        · exact hover

end Using

/-- Every path from a new queue keeps to the use of one sender. -/
theorem IsNew.using (hnew : start.IsNew) (h : Path others start q) :
    ∃ use, Using start.peer start.settings use q := by
  refine h.invariant (I := fun q => ∃ use, Using start.peer start.settings use q)
    ⟨.none, ?_, ?_, rfl, rfl⟩ ?_
  · simp [calls, hnew.log_eq, SenderUse.text]
  · rw [hnew.worker_eq]
    rfl
  · rintro q q' entries a ⟨use, hq⟩
    exact hq.act a

/-! ## After a setback -/

/-- The worker asks for nothing more. -/
def Spent (q : Queue) : Prop := q.worker.isSpent q.stopRequested = true

namespace Spent

/-- A worker that asks for nothing more does so whatever happens. -/
theorem act (h : Spent q) (a : Act others q entries q') :
    Spent q' ∧ ∀ a ∈ entries, a.isAttempt = false := by
  have hnone : ∀ entries : List Action, (∀ a ∈ entries, a.isOfNetwork = false) →
      ∀ a ∈ entries, a.isAttempt = false := by
    intro entries he a ha
    by_contra hattempt
    have hnetwork := Action.isOfNetwork_of_isAttempt (by simpa using hattempt)
    rw [he a ha] at hnetwork
    cases hnetwork
  unfold Spent at h
  cases a with
  | aside he hs hc hr =>
    refine ⟨Worker.isSpent_mono h hs, hnone _ fun a ha => ?_⟩
    exact Action.isOfNetwork_of_isQuiet (he a ha)
  | attached ho => exact ⟨h, List.forall_mem_nil _⟩
  | departed ho => exact ⟨h, List.forall_mem_nil _⟩
  | edited hc hm => exact ⟨h, List.forall_mem_singleton.mpr rfl⟩
  | scrubbed hr =>
    refine ⟨h, List.forall_mem_cons.mpr ⟨rfl, ?_⟩⟩
    exact hnone _ fun a ha => Action.isOfNetwork_of_isQuiet (hr.isQuiet a ha)
  | launched hw hr => simp [hw, Worker.isSpent] at h
  | dropped hw => simp [hw, Worker.isSpent] at h
  | started hw => simp [hw, Worker.isSpent] at h
  | skipped hw hb hf => exact ⟨h, List.forall_mem_singleton.mpr rfl⟩
  | announced hw hs hb hf hp he => simp [hw, hs, Worker.isSpent] at h
  | opened hw => simp [hw, Worker.isSpent] at h
  | sent hw hback hp he => simp [hw, Worker.isSpent] at h
  | interrupted hw hcause he => simp [hw, Worker.isSpent] at h
  | failed hw hpurge hback hp he =>
    subst he
    exact ⟨rfl, hnone _ (isOfNetwork_of_mem_failureEntries hpurge hback)⟩
  | drained hw hs hb hf hpurge hback hp he =>
    subst he
    refine ⟨h, List.forall_mem_cons.mpr ⟨rfl, fun a ha => ?_⟩⟩
    rcases List.mem_append.mp ha with ha | ha
    · obtain ⟨s, -, rfl⟩ := List.mem_map.mp ha
      rfl
    · exact hnone _ (isOfNetwork_of_mem_failureEntries hpurge hback) a ha
  | emptied hw hs hb => exact ⟨h, List.forall_mem_nil _⟩
  | parted hw hend => exact ⟨rfl, List.forall_mem_singleton.mpr rfl⟩
  | ended hw =>
    refine ⟨rfl, ?_⟩
    simp only [teardownEntries, List.mem_append, List.mem_map, List.mem_cons, List.not_mem_nil,
      or_false]
    rintro a (⟨b, -, rfl⟩ | rfl | rfl) <;> rfl

/-- Nothing more is asked for along a path. -/
theorem path (h : Spent q) (hpath : Path others q q') :
    Spent q' ∧ q'.log.filter Action.isAttempt = q.log.filter Action.isAttempt := by
  refine hpath.invariant (I := fun q' => Spent q' ∧
    q'.log.filter Action.isAttempt = q.log.filter Action.isAttempt) ⟨h, rfl⟩ ?_
  rintro q₁ q₂ entries a ⟨hspent, hattempts⟩
  obtain ⟨hspent', hnone⟩ := hspent.act a
  refine ⟨hspent', ?_⟩
  have hnothing : entries.filter Action.isAttempt = [] :=
    List.filter_eq_nil_iff.mpr fun a ha => by simp [hnone a ha]
  rw [a.log_eq, List.filter_append, hnothing, List.append_nil, hattempts]

end Spent

/-- A setback is one after which the worker asks for nothing more. -/
theorem Act.spent (act : Act others q entries q') {a : Action} (ha : a ∈ entries)
    (h : a.isSetback = true) : Spent q' := by
  have hnot : ∀ {a : Action}, a.isSetback = true → a.isSetback = false → Spent q' := by
    intro a h h'
    rw [h'] at h
    cases h
  cases act with
  | aside he hs hc hr => exact hnot h (Action.isSetback_of_isQuiet (he a ha))
  | attached ho => cases ha
  | departed ho => cases ha
  | edited hc hm => exact hnot h (by rw [List.mem_singleton.mp ha]; rfl)
  | scrubbed hr =>
    rcases List.mem_cons.mp ha with rfl | ha
    · cases h
    · exact hnot h (Action.isSetback_of_isQuiet (hr.isQuiet a ha))
  | launched hw hr => cases ha
  | dropped hw =>
    obtain ⟨b, -, rfl⟩ := List.mem_map.mp ha
    cases h
  | started hw => exact hnot h (by rw [List.mem_singleton.mp ha]; rfl)
  | skipped hw hb hf => exact hnot h (by rw [List.mem_singleton.mp ha]; rfl)
  | @announced sender token b rest d bus post n entries hw hs hb hf hp he =>
    subst he
    exact hnot h (forall_mem_announcement (P := fun a => a.isSetback = false) rfl (fun _ => rfl) rfl
      (by cases sender <;> rfl) a ha)
  | opened hw =>
    rcases List.mem_pair.mp ha with rfl | rfl
    · cases h
    · cases h
  | sent hw hback hp he =>
    subst he
    exact hnot h (forall_mem_completion (P := fun a => a.isSetback = false) hback
      (fun _ => Action.isSetback_of_isQuiet) rfl rfl rfl a ha)
  | interrupted hw hcause he => rfl
  | failed hw hpurge hback hp he => rfl
  | drained hw hs hb hf hpurge hback hp he =>
    show q.worker.isSpent q.stopRequested = true
    rw [hw]
    exact hs
  | emptied hw hs hb => cases ha
  | parted hw hend => rfl
  | ended hw => rfl

/-- Once there was a setback the worker asks for nothing more. -/
theorem IsNew.spent (hnew : start.IsNew) (h : Path others start q) {a : Action} (ha : a ∈ q.log)
    (hset : a.isSetback = true) : Spent q := by
  obtain ⟨pre, post, hlog⟩ := List.append_of_mem ha
  obtain ⟨q₁, q₂, left, right, rest, -, act, h₂, -⟩ :=
    h.cut hlog (by rw [hnew.log_eq]; exact List.nil_prefix)
  exact ((act.spent (List.mem_append_right _ (List.mem_cons_self ..)) hset).path h₂).1

/-! ## Whole runs -/

/-- **The discipline of the sender.**  The calls of a worker to the network are those of one sender,
whatever the network answers: it is asked for once, with the settings that were validated, and opens
at most once; messages are sent with it one at a time, each begun when the one before was sent; and
when the worker is gone, a sender that was opened was reset exactly once, after every other call.
Once a message is reported as failed, a send failed, or the sender is reset, nothing is asked for
and nothing is sent any more. -/
theorem sender_discipline {peer : Peer} {settings : SendSettings} {pool : Pool} {start q : Queue}
    (hmade : new? peer settings pool = .ok start) (h : Reachable start q) :
    settings.validate = .ok () ∧
      (∃ use : SenderUse, q.calls = use.text peer settings ∧
        (q.isStopped = true → use.isOver = true)) ∧
      q.log.filter Action.isOfSender <+: [.opened, .senderReset] ∧
      (q.isStopped = true → .opened ∈ q.log →
        q.log.filter Action.isOfSender = [.opened, .senderReset] ∧
          q.calls.getLast? = some .senderReset) ∧
      ∀ a ∈ q.log, a.isSetback = true → ∀ later : List Move,
        (q.run later).log.filter Action.isAttempt = q.log.filter Action.isAttempt := by
  have hnew : start.IsNew := isNew_of_new? hmade
  obtain ⟨hvalid, rfl⟩ : settings.validate = .ok () ∧ start = { peer, settings, pool } := by
    unfold new? at hmade
    cases hv : settings.validate with
    | error e =>
      rw [hv] at hmade
      cases hmade
    | ok u =>
      rw [hv] at hmade
      cases hmade
      exact ⟨rfl, rfl⟩
  obtain ⟨use, huse⟩ := hnew.using h.path
  have hhandling : q.log.filter Action.isOfSender = use.handling := by
    rw [← filter_isOfSender_calls, huse.calls, SenderUse.filter_isOfSender_text]
  have hover : q.isStopped = true → use.isOver = true := by
    intro hstopped
    have hholds := huse.holds
    rw [isStopped_iff.mp hstopped] at hholds
    exact hholds
  refine ⟨hvalid, ⟨use, huse.calls, hover⟩, hhandling ▸ use.handling_prefix,
    fun hstopped hopened => ?_, fun a ha hset later => ?_⟩
  · have hopened : .opened ∈ use.handling := hhandling ▸ List.mem_filter.mpr ⟨hopened, rfl⟩
    obtain ⟨sent, last, rfl⟩ := SenderUse.eq_reset_of_isOver (hover hstopped) hopened
    exact ⟨hhandling, huse.calls ▸ SenderUse.getLast?_text_reset peer settings sent last⟩
  · have hlater : Path (fun _ => True) q (q.run later) := Reachable.path ⟨later, rfl⟩
    exact ((hnew.spent h.path ha hset).path hlater).2

/-- The first message is sent; the send of the second one fails.  The sender is reset, and nobody
asks for another one although a producer comes and somebody tries to start the worker again. -/
theorem sender_discipline_of_failed_send :
    let start : Queue := { peer := Peer.zero, settings := {} }
    let block : Edit := .addBlock (Block.fill default 10 1)
    let q := start.run [.reserve 0 10 [block], .startup, .work none, .work (some .opened),
      .reserve 1 10 [block], .work (some .sent), .work none,
      .work (some (.sendFailed .streamReset)), .work (some .resetDone), .work none]
    let later : List Move := [.reserve 2 10 [block], .startup, .work (some .opened)]
    new? Peer.zero {} (.unlimited {}) = .ok start ∧ q.isStopped = true ∧ q.calls.length = 7 ∧
      (∃ use : SenderUse, q.calls = use.text Peer.zero {} ∧ use.isOver = true) ∧
      q.log.filter Action.isOfSender = [.opened, .senderReset] ∧
      q.calls.getLast? = some .senderReset ∧
      (q.log.filter Action.isAttempt).length = 3 ∧
      (q.run later).log.filter Action.isAttempt = q.log.filter Action.isAttempt := by
  intro start block q later
  have hmade : new? Peer.zero {} (.unlimited {}) = .ok start := rfl
  have hstopped : q.isStopped = true := by decide +kernel
  have hset : q.log.any Action.isSetback = true := by decide +kernel
  obtain ⟨a, ha, hset⟩ := List.any_eq_true.mp hset
  have hopened : q.log.any (· matches .opened) = true := by decide +kernel
  have hopened : .opened ∈ q.log := by
    obtain ⟨b, hb, hopens⟩ := List.any_eq_true.mp hopened
    cases b <;> first | exact hb | cases hopens
  obtain ⟨-, ⟨use, hcalls, hover⟩, -, hreset, hspent⟩ := sender_discipline hmade ⟨_, rfl⟩
  obtain ⟨honce, hlast⟩ := hreset hstopped hopened
  exact ⟨hmade, hstopped, by decide +kernel, ⟨use, hcalls, hover hstopped⟩, honce, hlast,
    by decide +kernel, hspent a ha hset later⟩

end Queue

end Outbox
