import Outbox.Proofs.Memory.Answers
import Outbox.Proofs.Message.Size
import Outbox.Proofs.Queue.Turn
import Outbox.Proofs.Queue.Visit

/-!
# Where the bytes go

Block memory that a producer was granted lies with the builders in line, then with the message
under way, and is given back in the end.  Between two of these places the code at work has it in
hand.  Everything that a producer or the worker does with bytes is made of two steps: bytes move
between the hand and the builders, and bytes in hand are given back to the pool.

* `Books`, `Queue.books` — the bytes that were handed out, given back and thrown away so far;
* `Queue.Unmoved` — a change that touches neither the pool nor the books;
* `Queue.Flow` — bytes move, as described above;
* `Queue.flow_mutate`, `Queue.Turn.flow` — producers and the worker do nothing else, but for the
  teardown, which throws away what is in line.
-/

namespace Outbox

/-! ## Books -/

/-- Amounts of block memory, in bytes. -/
@[ext] structure Books where
  /-- Producers learnt that they have it. -/
  allocated : Nat := 0
  /-- It was given back. -/
  released : Nat := 0
  /-- It was reserved for builders that were thrown away. -/
  discarded : Nat := 0

namespace Books

/-- Adds two books up. -/
def add (x y : Books) : Books :=
  ⟨x.allocated + y.allocated, x.released + y.released, x.discarded + y.discarded⟩

/-- Adds books up. -/
def total : List Books → Books
  | [] => {}
  | x :: rest => x.add (total rest)

@[simp] theorem add_allocated (x y : Books) : (x.add y).allocated = x.allocated + y.allocated :=
  rfl

@[simp] theorem add_released (x y : Books) : (x.add y).released = x.released + y.released := rfl

@[simp] theorem add_discarded (x y : Books) : (x.add y).discarded = x.discarded + y.discarded :=
  rfl

@[simp] theorem add_zero (x : Books) : x.add {} = x := rfl

theorem total_append (l l' : List Books) : total (l ++ l') = (total l).add (total l') := by
  induction l with
  | nil => ext <;> simp [total]
  | cons x rest ih => ext <;> simp [total, ih, Nat.add_assoc]

theorem total_allocated (l : List Books) : (total l).allocated = (l.map allocated).sum := by
  induction l with
  | nil => rfl
  | cons x rest ih => simp [total, ih]

theorem total_released (l : List Books) : (total l).released = (l.map released).sum := by
  induction l with
  | nil => rfl
  | cons x rest ih => simp [total, ih]

theorem total_of_zero {l : List Books} (h : ∀ x ∈ l, x = {}) : total l = {} := by
  induction l with
  | nil => rfl
  | cons x rest ih =>
    obtain ⟨hx, hrest⟩ := List.forall_mem_cons.mp h
    rw [total, hx, ih hrest]
    rfl

end Books

/-- What an action means for the books. -/
def Action.books : Action → Books
  | .allocated _ n none => { allocated := n }
  | .release n _ => { released := n }
  | .discarded b => { discarded := b.size }
  | _ => {}

/-- The bytes of the message under way. -/
def Worker.bytes : Worker → Nat
  | .opening d => d.size
  | .sending d => d.size
  | .resetting d _ => d.size
  | _ => 0

/-- The bytes that a producer of the given size gets with an answer. -/
def Grant.bytes (size : Nat) : Grant → Nat
  | .granted => size
  | .refused _ => 0

/-- Why there are none, if so. -/
def Grant.cause? : Grant → Option MemoryError
  | .granted => none
  | .refused e => some e

namespace Queue

variable {q q' : Queue}

/-- The books so far. -/
def books (q : Queue) : Books := Books.total (q.log.map Action.books)

@[simp] theorem books_note (q : Queue) (a : Action) : (q.note a).books = q.books.add a.books := by
  show Books.total ((q.log ++ [a]).map Action.books) = _
  rw [List.map_append, Books.total_append]
  rfl

/-- The books do not change with these actions. -/
theorem books_append_of_silent {entries : List Action} (h : ∀ a ∈ entries, a.books = {})
    (q : Queue) : ({ q with log := q.log ++ entries } : Queue).books = q.books := by
  show Books.total ((q.log ++ entries).map Action.books) = _
  rw [List.map_append, Books.total_append, Books.total_of_zero (l := entries.map Action.books)]
  · rfl
  · intro x hx
    obtain ⟨a, ha, rfl⟩ := List.mem_map.mp hx
    exact h a ha

theorem books_release (q : Queue) (n : Nat) :
    (q.release n).books = q.books.add { released := n } := by
  unfold release
  split
  · rename_i hn
    rw [hn]
    rfl
  · split
    · exact books_note _ _
    · exact books_note _ _

/-- The books after the backlog was closed: what was in line is thrown away. -/
theorem books_closeBacklog (q : Queue) :
    q.closeBacklog.books = q.books.add { discarded := q.backlog.bytes } := by
  have hsum : ∀ builders : List Builder,
      Books.total (builders.map (fun b => (Action.discarded b).books)) =
        { discarded := (builders.map Builder.size).sum } := by
    intro builders
    induction builders with
    | nil => rfl
    | cons b rest ih =>
      rw [List.map_cons, Books.total, ih]
      ext <;> simp [Action.books]
  show Books.total ((q.log ++ q.backlog.builders.map Action.discarded).map Action.books) = _
  rw [List.map_append, List.map_map, Books.total_append]
  exact congrArg q.books.add (hsum q.backlog.builders)

/-! ## Changes that move no bytes -/

/-- A change that touches neither the pool nor the producers nor the books. -/
structure Unmoved (q q' : Queue) : Prop where
  /-- The pool stays as it is. -/
  pool : q'.pool = q.pool
  /-- The peer stays as it is. -/
  peer : q'.peer = q.peer
  /-- The producers stay as they are. -/
  producers : q'.producers = q.producers
  /-- The books stay as they are. -/
  books : q'.books = q.books

namespace Unmoved

theorem refl (q : Queue) : Unmoved q q := ⟨rfl, rfl, rfl, rfl⟩

theorem trans {q'' : Queue} (h : Unmoved q q') (h' : Unmoved q' q'') : Unmoved q q'' :=
  ⟨h'.pool.trans h.pool, h'.peer.trans h.peer, h'.producers.trans h.producers,
    h'.books.trans h.books⟩

end Unmoved

theorem unmoved_note (q : Queue) {a : Action} (h : a.books = {}) : Unmoved q (q.note a) := by
  refine ⟨rfl, rfl, rfl, ?_⟩
  rw [books_note, h, Books.add_zero]

theorem unmoved_publish (q : Queue) (t : Topic) (e : Event) : Unmoved q (q.publish t e) :=
  ⟨rfl, rfl, rfl, (unmoved_note _ rfl).books⟩

theorem unmoved_closeTopic (q : Queue) (t : Topic) : Unmoved q (q.closeTopic t) :=
  ⟨rfl, rfl, rfl, (unmoved_note _ rfl).books⟩

theorem unmoved_closeStreams (q : Queue) (d : Finished) : Unmoved q (q.closeStreams d) := by
  rw [closeStreams_eq]
  refine ⟨rfl, rfl, rfl, books_append_of_silent ?_ q⟩
  intro a ha
  obtain ⟨s, -, rfl⟩ := List.mem_map.mp ha
  rfl

theorem unmoved_subscribeAll (q : Queue) (d : Finished) : Unmoved q (q.subscribeAll d) := by
  rw [subscribeAll_eq]
  refine ⟨rfl, rfl, rfl, books_append_of_silent ?_ q⟩
  intro a ha
  obtain ⟨s, -, rfl⟩ := List.mem_map.mp ha
  rfl

theorem unmoved_withoutHead (q : Queue) (b : Builder) (rest : List Builder) :
    Unmoved q (q.withoutHead b rest) :=
  ⟨rfl, rfl, rfl, (unmoved_note _ rfl).books⟩

/-! ## Flows -/

/-- Bytes move between the hand, which holds the given amounts before and after, and the builders
in line, and from the hand to the pool. -/
inductive Flow : Nat → Queue → Nat → Queue → Prop
  /-- Between the hand and the builders. -/
  | shift {q q' : Queue} {hand hand' : Nat} (h : Unmoved q q')
      (hsum : hand' + q'.backlog.bytes = hand + q.backlog.bytes) : Flow hand q hand' q'
  /-- From the hand to the pool. -/
  | release (q : Queue) (hand n : Nat) : Flow (hand + n) q hand (q.release n)
  /-- One after the other. -/
  | trans {q q' q'' : Queue} {hand hand' hand'' : Nat} (h : Flow hand q hand' q')
      (h' : Flow hand' q' hand'' q'') : Flow hand q hand'' q''

namespace Flow

variable {hand hand' : Nat}

/-- Nothing moves. -/
theorem still (h : Unmoved q q') (hb : q'.backlog = q.backlog) : Flow hand q hand q' :=
  .shift h (by rw [hb])

theorem peer (h : Flow hand q hand' q') : q'.peer = q.peer := by
  induction h with
  | shift h hsum => exact h.peer
  | release q hand n => exact release_peer q n
  | trans h h' ih ih' => exact ih'.trans ih

theorem producers (h : Flow hand q hand' q') : q'.producers = q.producers := by
  induction h with
  | shift h hsum => exact h.producers
  | release q hand n => exact release_producers q n
  | trans h h' ih ih' => exact ih'.trans ih

theorem answers (h : Flow hand q hand' q') : q.pool.answers <+: q'.pool.answers := by
  induction h with
  | shift h hsum => rw [h.pool]
  | release q hand n =>
    unfold Queue.release
    split
    · exact List.prefix_refl _
    · split
      · rename_i hr
        exact Pool.answers_release hr
      · exact List.prefix_refl _
  | trans h h' ih ih' => exact ih.trans ih'

/-- What is handed out so far does not change; what leaves the hand and the builders was given
back. -/
theorem books (h : Flow hand q hand' q') :
    q'.books.allocated = q.books.allocated ∧ q'.books.discarded = q.books.discarded ∧
      q'.books.released + (hand' + q'.backlog.bytes) =
        q.books.released + (hand + q.backlog.bytes) := by
  induction h with
  | shift h hsum =>
    rw [h.books]
    exact ⟨rfl, rfl, by omega⟩
  | release q hand n =>
    rw [books_release, release_backlog]
    exact ⟨rfl, rfl, by simp only [Books.add_released]; omega⟩
  | trans h h' ih ih' =>
    obtain ⟨hallocated, hdiscarded, hreleased⟩ := ih
    obtain ⟨hallocated', hdiscarded', hreleased'⟩ := ih'
    exact ⟨hallocated'.trans hallocated, hdiscarded'.trans hdiscarded,
      hreleased'.trans hreleased⟩

end Flow

/-! ## Scrubs and failures -/

variable {len : Link → Nat} (hand : Nat)

/-- A scrub gives back what it frees. -/
theorem flow_scrub (h : q.backlog.Accounted len) (rs : List RequestId) :
    (q.scrub rs).backlog.Accounted len ∧ Flow hand q hand (q.scrub rs) := by
  obtain ⟨hleft, hsum⟩ := Backlog.bytes_scrub h rs
  refine ⟨by rw [scrub_backlog]; exact hleft, ?_⟩
  have hshift : Flow hand q (hand + q.backlog.scrubFrees rs)
      ({ q with backlog := q.backlog.scrub rs }.note (.scrubbed rs)) := by
    refine .shift ⟨rfl, rfl, rfl, (unmoved_note q (a := .scrubbed rs) rfl).books⟩ ?_
    show hand + q.backlog.scrubFrees rs + (q.backlog.scrub rs).bytes = _
    omega
  exact hshift.trans (.release _ hand _)

/-- A message that fails gives back its bytes. -/
theorem flow_fail (h : q.backlog.Accounted len) (d : Finished) (cause : QueueError) :
    (q.fail d cause).backlog.Accounted len ∧ Flow (hand + d.size) q hand (q.fail d cause) := by
  have hstreams : (q.closeStreams d).backlog = q.backlog := by rw [closeStreams_eq]
  obtain ⟨hleft, hscrub⟩ := flow_scrub (q := q.closeStreams d) (hand + d.size)
    (hstreams ▸ h) d.requests
  refine ⟨?_, ?_⟩
  · rw [fail_backlog]
    exact (Backlog.bytes_scrub h d.requests).1
  · refine .trans (.still (unmoved_closeStreams q d) hstreams) (.trans hscrub ?_)
    exact .trans (.still (unmoved_publish _ _ _) rfl) (.release _ hand d.size)

theorem flow_failDelivery (h : q.backlog.Accounted len) (d : Finished) (cause : QueueError) :
    (q.failDelivery d cause).backlog.Accounted len ∧
      Flow (hand + d.size) q hand (q.failDelivery d cause) := by
  obtain ⟨hleft, hfail⟩ := flow_fail hand h d cause
  refine ⟨hleft, hfail.trans (.still ?_ rfl)⟩
  exact ⟨rfl, rfl, rfl, (unmoved_closeTopic (q.fail d cause) d.topic).books⟩

/-! ## The drain -/

/-- Taking the first builder takes its bytes in hand. -/
theorem flow_withoutHead {b : Builder} {rest : List Builder}
    (hb : q.backlog.builders = b :: rest) :
    Flow hand q (hand + b.size) (q.withoutHead b rest) := by
  refine .shift (unmoved_withoutHead q b rest) ?_
  show hand + b.size + (rest.map Builder.size).sum = _
  rw [Backlog.bytes, hb, List.map_cons, List.sum_cons]
  omega

theorem Accounted.withoutHead {b : Builder} {rest : List Builder}
    (h : q.backlog.Accounted len) (hb : q.backlog.builders = b :: rest) :
    b.Accounted len ∧ (q.withoutHead b rest).backlog.Accounted len := by
  refine ⟨h b (hb ▸ List.mem_cons_self ..), ?_⟩
  intro b' hb'
  exact h b' (hb ▸ List.mem_cons_of_mem _ hb')

theorem Drains.flow (t : Drains q q') (h : q.backlog.Accounted len) :
    q'.backlog.Accounted len ∧ Flow hand q hand q' := by
  induction t with
  | @done q hb =>
    refine ⟨List.forall_mem_nil _, .shift ⟨rfl, rfl, rfl, ?_⟩ ?_⟩
    · rw [books_closeBacklog, Backlog.bytes, hb]
      rfl
    · rw [Backlog.bytes, Backlog.bytes, hb]
      rfl
  | @skip q q' b rest hb hf t ih =>
    obtain ⟨hhead, hrest⟩ := Accounted.withoutHead h hb
    obtain ⟨hend, hflow⟩ := ih hrest
    have hzero : b.size = 0 := hhead.size_of_isEmpty (Builder.finish?_eq_none_iff.mp hf)
    have hskip : Flow hand q (hand + b.size) (q.withoutHead b rest) := flow_withoutHead _ hb
    rw [hzero] at hskip
    exact ⟨hend, hskip.trans hflow⟩
  | @report q q' b rest d hb hf t ih =>
    obtain ⟨hhead, hrest⟩ := Accounted.withoutHead h hb
    have hsize : d.size = b.size := (Builder.finish?_eq_some hf).2.2
    have htaken : Flow hand q (hand + d.size) (q.withoutHead b rest) := by
      rw [hsize]
      exact flow_withoutHead hand hb
    have hsinks : ((q.withoutHead b rest).subscribeAll d).backlog =
        (q.withoutHead b rest).backlog := by
      rw [subscribeAll_eq]
    obtain ⟨hleft, hfail⟩ := flow_fail hand (hsinks ▸ hrest) d .shutdown
    obtain ⟨hend, hflow⟩ := ih hleft
    refine ⟨hend, htaken.trans (.trans (.still (unmoved_subscribeAll _ d) hsinks) ?_)⟩
    exact hfail.trans (.trans (.still (unmoved_closeTopic _ _) rfl) hflow)

/-! ## Producers -/

/-- A producer's bytes go to the last builder or back to the pool. -/
theorem flow_mutate (h : q.backlog.Accounted len) {p size : Nat} {edits : List Edit}
    (he : Honest len size edits) :
    (q.mutate p size edits).backlog.Accounted len ∧
      Flow (hand + size) q hand (q.mutate p size edits) := by
  have hm := mutate_editing q p size edits
  generalize q.mutate p size edits = q' at hm
  cases hm with
  | refused hr =>
    refine ⟨?_, .trans (.release q hand size) (.still (unmoved_note _ rfl) rfl)⟩
    show (q.release size).backlog.Accounted len
    rw [release_backlog]
    exact h
  | @done report backlog hc hm =>
    obtain ⟨hleft, hsum⟩ := Backlog.bytes_mutation h he hm
    refine ⟨hleft, .shift ⟨rfl, rfl, rfl, (unmoved_note _ rfl).books⟩ ?_⟩
    show hand + backlog.bytes = _
    omega

/-- The queue after a producer learnt its answer. -/
def hear (q : Queue) (t : Ticket) (size : Nat) (grant : Grant) : Queue :=
  q.note (.allocated t size grant.cause?)

theorem books_hear (q : Queue) (t : Ticket) (size : Nat) (grant : Grant) :
    (q.hear t size grant).books = q.books.add { allocated := grant.bytes size } := by
  rw [hear, books_note]
  cases grant <;> rfl

/-- A producer that learns its answer takes the bytes in hand and spends them. -/
theorem flow_answer (h : q.backlog.Accounted len) (t : Ticket) {size : Nat} {edits : List Edit}
    (he : Honest len size edits) (grant : Grant) :
    (q.answer t size edits grant).backlog.Accounted len ∧
      Flow (hand + grant.bytes size) (q.hear t size grant) hand (q.answer t size edits grant) := by
  cases grant with
  | granted => exact flow_mutate (q := q.hear t size .granted) hand h he
  | refused e => exact ⟨h, .still (unmoved_note _ rfl) rfl⟩

/-! ## The worker -/

variable {hand}

/-- The bytes that the worker has in hand move, and a teardown may follow that throws away what is
in line. -/
inductive WorkFlow (hand : Nat) (q : Queue) : Queue → Prop
  /-- The worker goes on. -/
  | goesOn {q' : Queue} (h : Flow hand q q'.worker.bytes q')
      (hw : q'.worker = .stopped → q.worker = .stopped) : WorkFlow hand q q'
  /-- The worker ends. -/
  | ends {q' : Queue} (h : Flow hand q 0 q') : WorkFlow hand q q'.teardown

theorem flow_leave (h : Flow hand q 0 q') (ha : q'.backlog.Accounted len) (sender : Bool) :
    (q'.leave sender).backlog.Accounted len ∧ WorkFlow hand q (q'.leave sender) := by
  cases sender with
  | true =>
    refine ⟨ha, .goesOn (h.trans (.still ?_ rfl)) ?_⟩
    · exact ⟨rfl, rfl, rfl, (unmoved_note q' (a := .senderReset) rfl).books⟩
    · intro hw
      cases hw
  | false => exact ⟨List.forall_mem_nil _, .ends h⟩

/-- The worker takes the bytes of the first builder in hand for the delivery of its message. -/
theorem flow_beginDelivery (q : Queue) (d : Finished) (sender : Bool) :
    Flow d.size q (q.beginDelivery d sender).worker.bytes (q.beginDelivery d sender) := by
  have hbytes : (q.beginDelivery d sender).worker.bytes = d.size := by
    unfold beginDelivery
    cases sender <;> rfl
  rw [hbytes]
  refine .still ?_ (beginDelivery_backlog d sender)
  have hsinks : Unmoved q ((q.subscribeAll d).publish d.topic ⟨.queued, d.metadata⟩) :=
    (unmoved_subscribeAll q d).trans (unmoved_publish _ _ _)
  unfold beginDelivery
  cases sender with
  | true => exact hsinks.trans ⟨rfl, rfl, rfl, (unmoved_note _ (a := .sending _) rfl).books⟩
  | false => exact hsinks.trans ⟨rfl, rfl, rfl, (unmoved_note _ (a := .opening _ _) rfl).books⟩

theorem Choice.flow {sender : Bool} (t : Choice sender q q') (h : q.backlog.Accounted len) :
    q'.backlog.Accounted len ∧ WorkFlow 0 q q' := by
  cases t with
  | callOff hc => exact flow_leave (.still (.refl q) rfl) h sender
  | stop hc hs t =>
    obtain ⟨hleft, hflow⟩ := t.flow 0 h
    have htoken : Flow 0 q 0 { q with token := false } := .still ⟨rfl, rfl, rfl, rfl⟩ rfl
    exact flow_leave (htoken.trans hflow) hleft sender
  | rest hc hs ht => exact ⟨h, .goesOn (.still ⟨rfl, rfl, rfl, rfl⟩ rfl) (by intro hw; cases hw)⟩
  | idle hc hs ht hb => exact ⟨h, .goesOn (.still ⟨rfl, rfl, rfl, rfl⟩ rfl) (by intro hw; cases hw)⟩
  | @skip b rest hc hs ht hb hf =>
    obtain ⟨hhead, hrest⟩ := Accounted.withoutHead h hb
    have hzero : b.size = 0 := hhead.size_of_isEmpty (Builder.finish?_eq_none_iff.mp hf)
    have hskip : Flow 0 q (0 + b.size) (q.withoutHead b rest) := flow_withoutHead _ hb
    rw [hzero] at hskip
    refine ⟨hrest, .goesOn (hskip.trans (.still ⟨rfl, rfl, rfl, rfl⟩ rfl)) ?_⟩
    intro hw
    cases hw
  | @deliver b rest d hc hs ht hb hf =>
    obtain ⟨-, hrest⟩ := Accounted.withoutHead h hb
    have hsize : d.size = b.size := (Builder.finish?_eq_some hf).2.2
    have htaken : Flow 0 q d.size (q.takeHead b rest) := by
      have hhead : Flow 0 q (0 + b.size) (q.withoutHead b rest) := flow_withoutHead _ hb
      rw [hsize]
      rw [Nat.zero_add] at hhead
      exact hhead.trans (.still ⟨rfl, rfl, rfl, rfl⟩ rfl)
    refine ⟨?_, .goesOn (htaken.trans (flow_beginDelivery _ d sender)) ?_⟩
    · rw [beginDelivery_backlog]
      exact hrest
    · intro hw
      cases sender <;> cases hw

/-- Whatever a turn of the worker does, it moves bytes only as flows do. -/
theorem Turn.flow (t : Turn q q') (h : q.backlog.Accounted len) :
    q'.backlog.Accounted len ∧ WorkFlow q.worker.bytes q q' := by
  have hnote : ∀ a : Action, a.books = {} → (q.note a).books = q.books :=
    fun a ha => (unmoved_note q ha).books
  have hfail : ∀ d cause, q.worker.bytes = d.size →
      (q.failDelivery d cause).backlog.Accounted len ∧
        WorkFlow q.worker.bytes q (q.failDelivery d cause) := by
    intro d cause hw
    obtain ⟨hleft, hflow⟩ := flow_failDelivery 0 h d cause
    rw [Nat.zero_add] at hflow
    rw [hw]
    exact ⟨hleft, .goesOn hflow (by intro hw; cases hw)⟩
  cases t with
  | wait => exact ⟨h, .goesOn (.still (.refl q) rfl) id⟩
  | start hw t =>
    rw [hw]
    obtain ⟨hleft, hflow⟩ := t.flow h
    have hbus : Flow 0 q 0 q.openBus := .still ⟨rfl, rfl, rfl, hnote .busStarted rfl⟩ rfl
    refine ⟨hleft, ?_⟩
    cases hflow with
    | goesOn hflow hw' => exact .goesOn (hbus.trans hflow) hw'
    | ends hflow => exact .ends (hbus.trans hflow)
  | choose hw t =>
    rw [hw]
    exact t.flow h
  | callOffOpen hw hc => exact hfail _ _ (by rw [hw]; rfl)
  | @opened d hw hc =>
    rw [hw]
    have hbegun : Unmoved (q.note .opened) ((q.note .opened).beginSend d) :=
      ⟨rfl, rfl, rfl, (unmoved_note _ (a := .sending d.message) rfl).books⟩
    have hsend : Flow d.size q d.size ((q.note .opened).beginSend d) :=
      .still ((unmoved_note q rfl).trans hbegun) rfl
    exact ⟨h, .goesOn hsend (by intro hw; cases hw)⟩
  | openFailed hw hc e => exact hfail _ _ (by rw [hw]; rfl)
  | @callOffSend d hw hc =>
    rw [hw]
    have hreset : Flow d.size q d.size (q.beginReset d (.cancelled q.peer)) :=
      .still ⟨rfl, rfl, rfl, hnote .senderReset rfl⟩ rfl
    exact ⟨h, .goesOn hreset (by intro hw; cases hw)⟩
  | @sent d hw hc =>
    rw [hw]
    have hout : Flow d.size q d.size ((q.note .sendOk).publish d.topic ⟨.sent, d.metadata⟩) :=
      .still ((unmoved_note q rfl).trans (unmoved_publish _ _ _)) rfl
    have hback : Flow d.size q 0
        (((q.note .sendOk).publish d.topic ⟨.sent, d.metadata⟩).release d.size) := by
      have hrelease := Flow.release ((q.note .sendOk).publish d.topic ⟨.sent, d.metadata⟩) 0 d.size
      rw [Nat.zero_add] at hrelease
      exact hout.trans hrelease
    refine ⟨?_, .goesOn (hback.trans (.still ?_ rfl)) (by intro hw; cases hw)⟩
    · show (Queue.release _ d.size).backlog.Accounted len
      rw [release_backlog]
      exact h
    · exact ⟨rfl, rfl, rfl, (unmoved_closeTopic _ d.topic).books⟩
  | @sendFailed d hw hc e =>
    rw [hw]
    have hbooks := (unmoved_note (q.note (.sendFailed e)) (a := .senderReset) rfl).books
    have hreset : Flow d.size q d.size
        ((q.note (.sendFailed e)).beginReset d (.sendFailed q.peer e.message)) :=
      .still ⟨rfl, rfl, rfl, hbooks.trans (hnote (.sendFailed e) rfl)⟩ rfl
    exact ⟨h, .goesOn hreset (by intro hw; cases hw)⟩
  | resetDone hw => exact hfail _ _ (by rw [hw]; rfl)
  | part hw =>
    rw [hw]
    exact ⟨List.forall_mem_nil _, .ends (.still (.refl q) rfl)⟩

theorem WorkFlow.producers (h : WorkFlow hand q q') : q'.producers = q.producers := by
  cases h with
  | goesOn h hw => exact h.producers
  | ends h => exact h.producers

/-- What a teardown does to the books. -/
theorem books_teardown (q : Queue) :
    q.teardown.books = q.books.add { discarded := q.backlog.bytes } := by
  have hpool : ∀ pool : Pool, ({ q.closeBacklog with pool }.note (.releasePeer q.peer)).books =
      q.closeBacklog.books := fun pool => books_note _ _
  rw [← books_closeBacklog, ← hpool (q.pool.releasePeer q.peer)]
  exact books_note _ _

end Queue

end Outbox
