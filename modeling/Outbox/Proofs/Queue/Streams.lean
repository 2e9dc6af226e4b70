import Outbox.Proofs.Queue.Purge

/-!
# Which streams a failure closes

The stream on which a response is produced is kept in the builder that it was given to.  When a
message fails, the streams in its own builder are closed, each once.  The scrub that follows takes
the streams of its requests out of the other builders as well, and these are not closed: not then,
because a failure closes what its own builder holds, and not later, because nothing is closed but
what a builder holds whose message fails.

* `Builder.streamsOf` — the streams that a builder holds for given requests;
* `Queue.Failing.mem_streams` — a failure closes no other stream than those of its message;
* `Queue.Leaving.closes` — what a worker on its way out still closes;
* `Queue.Silenced` — what becomes of the streams when a message fails;
* `Queue.failure_closes_streams` — this becomes of them at every failure.
-/

namespace Outbox

/-! ## The streams of a builder -/

namespace Builder

/-- The streams that the builder holds for the requests. -/
def streamsOf (b : Builder) (rs : List RequestId) : List Stream := rs.filterMap b.streams.get?

variable {b : Builder} {d : Finished} {s : Stream}

/-- All streams in the builder of a message belong to requests that fall with it. -/
theorem mem_streamsOf_requests (h : b.finish? = some d) :
    s ∈ b.streamsOf d.requests ↔ s ∈ b.streams.values := by
  rw [streamsOf, List.mem_filterMap, Dict.mem_values]
  constructor
  · rintro ⟨r, -, hr⟩
    exact ⟨r, hr⟩
  · rintro ⟨r, hr⟩
    refine ⟨r, (mem_requests h).mpr (.inr ?_), hr⟩
    rw [Dict.contains, hr]
    rfl

/-- A builder that holds nothing for the requests holds no stream for them. -/
theorem streamsOf_eq_nil {rs : List RequestId} (h : ∀ r ∈ rs, b.part r = {}) :
    b.streamsOf rs = [] :=
  List.filterMap_eq_nil_iff.mpr fun r hr => congrArg Part.stream (h r hr)

end Builder

namespace Queue

variable {start q q₁ q₂ : Queue} {d : Finished} {cause : QueueError} {head : Option Builder}
  {others : List Builder} {entries : List Action} {s : Stream}

theorem streamsInOrder_perm (d : Finished) : (streamsInOrder d).Perm d.streams.values :=
  List.mergeSort_perm ..

theorem not_closed_of_isQuiet (h : ∀ a ∈ entries, a.isQuiet = true) : .streamClosed s ∉ entries :=
  fun hs => by cases h _ hs

theorem not_closed_of_taking : .streamClosed s ∉ taking d head := by
  cases head <;> simp [taking]

/-! ## Where streams are closed -/

/-- A failure closes no other stream than those of its message. -/
theorem Failing.mem_streams (h : Failing q₁ d cause head others entries q₂)
    (hs : .streamClosed s ∈ entries) : s ∈ d.streams.values := by
  obtain ⟨n, purge, back, hpurge, hback, rfl⟩ := h.entries
  have hnot := not_closed_of_isQuiet (s := s) hpurge.isQuiet
  have hnot' := not_closed_of_isQuiet (s := s) hback.isQuiet
  have hmem : s ∈ streamsInOrder d := by
    simpa [failureEntries, not_closed_of_taking, hnot, hnot'] using hs
  exact (streamsInOrder_perm d).mem_iff.mp hmem

/-- What a worker on its way out still closes is held by a builder that it takes before. -/
theorem Leaving.closes {rest : List Action} (h : Leaving q₂) (p : Path (fun _ => True) q₂ q)
    (hlog : q.log = q₂.log ++ rest) (hs : .streamClosed s ∈ rest) :
    ∃ left b right, rest = left ++ .dequeued b :: right ∧ s ∈ b.streams.values := by
  let Held : List Action → Prop := fun rest => .streamClosed s ∈ rest →
    ∃ left b right, rest = left ++ .dequeued b :: right ∧ s ∈ b.streams.values
  obtain ⟨-, rest', hrest', hheld⟩ : Leaving q ∧ ∃ rest, q.log = q₂.log ++ rest ∧ Held rest := by
    refine p.invariant (I := fun q => Leaving q ∧ ∃ rest, q.log = q₂.log ++ rest ∧ Held rest)
      ⟨h, [], by simp, by simp [Held]⟩ ?_
    rintro q q' entries act ⟨hq, rest, hlog, hheld⟩
    refine ⟨(hq.act act).1, rest ++ entries, by rw [act.log_eq, hlog, List.append_assoc], ?_⟩
    intro hs
    rcases List.mem_append.mp hs with hs | hs
    · obtain ⟨left, b, right, rfl, hb⟩ := hheld hs
      exact ⟨left, b, right ++ entries, by simp, hb⟩
    · obtain ⟨d, cause, head, others, hf⟩ := act.failing hs rfl
      have hmem := hf.mem_streams hs
      obtain ⟨n, purge, back, -, -, rfl⟩ := hf.entries
      -- no message was under way, so the builder is taken in the same act
      rcases hf.message with ⟨-, hdelivery, -⟩ | ⟨b, rfl, hb, -⟩
      · rw [hq.2] at hdelivery
        cases hdelivery
      · rw [Builder.streams_of_finish? hb] at hmem
        exact ⟨rest, b, _, rfl, hmem⟩
  obtain rfl : rest' = rest := List.append_cancel_left (hrest'.symm.trans hlog)
  exact hheld hs

/-! ## What becomes of the streams -/

/-- The message `d` of the builder `b` fails, which leads from `q₁` to `q₂`, and `others` are the
other builders then.  The `streams` are closed; `pre` is the log until the failure is published, and
`rest` is what happens after `q₂`. -/
structure Silenced (q₁ q₂ : Queue) (b : Builder) (d : Finished) (others : List Builder)
    (streams : List Stream) (pre rest : List Action) : Prop where
  /-- The builder was taken before, or is the first in line. -/
  found : (.dequeued b ∈ q₁.log ∧ q₁.backlog.builders = others) ∨ q₁.backlog.builders = b :: others
  /-- The message is what the builder held. -/
  message : b.finish? = some d
  /-- Each stream that the builder holds is closed, once. -/
  own : streams.Perm b.streams.values
  /-- All of them belong to requests that fall with the message. -/
  requests : ∀ s, s ∈ b.streamsOf d.requests ↔ s ∈ streams
  /-- No other stream is closed. -/
  closed : ∀ s, .streamClosed s ∈ pre ↔ .streamClosed s ∈ q₁.log ∨ s ∈ streams
  /-- So the streams that any builder holds for these requests are closed by then if, and only if,
  the other builders hold none but those of the message and those that were closed before. -/
  complete : (∀ b' ∈ b :: others, ∀ s ∈ b'.streamsOf d.requests, .streamClosed s ∈ pre) ↔
    ∀ b' ∈ others, ∀ s ∈ b'.streamsOf d.requests, .streamClosed s ∈ q₁.log ∨ s ∈ streams
  /-- The other builders hold none of them any more. -/
  scrubbed : ∀ b' ∈ q₂.backlog.builders, b'.streamsOf d.requests = []
  /-- What is closed later is held by a builder that is taken then; if it is for one of these
  requests, it was given to the builder again. -/
  later : ∀ s, .streamClosed s ∈ rest → ∃ left b' right r, rest = left ++ .dequeued b' :: right ∧
    b'.streams.get? r = some s ∧
    (r ∈ d.requests → (Builder.retold b'.topic left).streams.get? r = some s)

/-- The streams of a message that fails, and of the builders in line. -/
theorem Failing.silenced {n : Nat} {purge back rest : List Action}
    (h : Failing q₁ d cause head others entries q₂) (hnew : start.IsNew)
    (h₁ : Path (fun _ => True) start q₁) (act : Act (fun _ => True) q₁ entries q₂)
    (h₂ : Path (fun _ => True) q₂ q)
    (hpurge : Receipt ({ q₁.backlog with builders := others }.scrubFrees d.requests) purge)
    (hback : Receipt d.size back)
    (hentries : entries = taking d head ++ failureEntries d cause n purge back)
    (hrest : q.log = q₂.log ++ rest) :
    ∃ b, Silenced q₁ q₂ b d others (streamsInOrder d)
      (q₁.log ++ (taking d head ++
        ((streamsInOrder d).map .streamClosed ++ .scrubbed d.requests :: purge))) rest := by
  obtain ⟨b, hpurged⟩ := h.purged hnew h₁ act h₂ hpurge hback hentries hrest
  have hf := hpurged.message
  have hown : (streamsInOrder d).Perm b.streams.values :=
    Builder.streams_of_finish? hf ▸ streamsInOrder_perm d
  have hrequests : ∀ s, s ∈ b.streamsOf d.requests ↔ s ∈ streamsInOrder d := fun s => by
    rw [Builder.mem_streamsOf_requests hf, hown.mem_iff]
  have hclosed : ∀ s, .streamClosed s ∈ q₁.log ++ (taking d head ++
      ((streamsInOrder d).map .streamClosed ++ .scrubbed d.requests :: purge)) ↔
      .streamClosed s ∈ q₁.log ∨ s ∈ streamsInOrder d := fun s => by
    simp [not_closed_of_taking, not_closed_of_isQuiet hpurge.isQuiet]
  refine ⟨b, hpurged.found, hf, hown, hrequests, hclosed, ?_, ?_, ?_⟩
  · simp only [List.forall_mem_cons, hclosed, hrequests]
    exact and_iff_right fun s hs => .inr hs
  · exact fun b' hb' => Builder.streamsOf_eq_nil (hpurged.gone b' hb')
  · intro s hs
    have hleaving : Leaving q₂ := ⟨h.stopRequested, h.delivery?⟩
    obtain ⟨left, b', right, hleft, hb'⟩ := hleaving.closes h₂ hrest hs
    obtain ⟨r, hr⟩ := Dict.mem_values.mp hb'
    refine ⟨left, b', right, r, hleft, hr, fun hmem => ?_⟩
    rw [← hr]
    exact congrArg Part.stream (hpurged.afresh left b' right hleft r hmem).symm

/-- **A failure closes the streams of its own builder.**  In whatever order the worker and the
producers have their turns, before a failure is published each stream that the builder of the
message holds is closed, once, and no other one is.  The streams that other builders hold for the
same requests are scrubbed; they are closed neither then nor later, unless they are given to a
builder again. -/
theorem failure_closes_streams (hnew : start.IsNew) (h : Path (fun _ => True) start q)
    {pre post : List Action} {t : Topic} {cause : QueueError} {md : Metadata} {n : Nat}
    (hlog : q.log = pre ++ .published t ⟨.failed cause, md⟩ n :: post) :
    ∃ q₁ q₂ b d others front streams purge back rest, Path (fun _ => True) start q₁ ∧
      Path (fun _ => True) q₁ q₂ ∧ Path (fun _ => True) q₂ q ∧ d.topic = t ∧ d.metadata = md ∧
      pre = q₁.log ++
        (front ++ (streams.map .streamClosed ++ .scrubbed d.requests :: purge)) ∧
      q₂.log = pre ++ .published t ⟨.failed cause, md⟩ n :: (back ++ [.closed t]) ∧
      q.log = q₂.log ++ rest ∧ Silenced q₁ q₂ b d others streams pre rest := by
  obtain ⟨q₁, q₂, left, right, rest, h₁, act, h₂, rfl, rfl, hrest⟩ :=
    h.cut hlog (hnew.log_eq ▸ List.nil_prefix)
  obtain ⟨d, cause', head, others, hf⟩ :=
    act.failing (List.mem_append_right _ (List.mem_cons_self ..)) rfl
  obtain ⟨n', purge, back, hpurge, hback, hentries⟩ := hf.entries
  obtain ⟨b, hsilenced⟩ := hf.silenced hnew h₁ act h₂ hpurge hback hentries hrest
  obtain ⟨rfl, heq, rfl⟩ := eq_of_failure hpurge hback hentries rfl
  cases heq
  refine ⟨q₁, q₂, b, d, others, taking d head, streamsInOrder d, purge, back, rest, h₁, act.path,
    h₂, rfl, rfl, rfl, ?_, hrest, hsilenced⟩
  rw [act.log_eq]
  simp

/-- A send fails whose message holds a stream; a builder in line holds another for the same request.
-/
theorem failure_closes_streams_of_send :
    let start : Queue := { peer := Peer.zero, settings := {} }
    let status : Edit := .setStatus default .requestAcknowledged
    let stream (name : String) : Edit := .setStream default ⟨name⟩
    let q := start.run [.reserve 0 0 [status, stream "a"], .startup, .work none,
      .work (some .opened), .reserve 1 0 [status, stream "b"],
      .work (some (.sendFailed .streamReset)), .work (some .resetDone)]
    ∃ pre post t cause md n, q.log = pre ++ .published t ⟨.failed cause, md⟩ n :: post ∧
      ∃ q₁ q₂ b d others front streams purge back rest, Path (fun _ => True) start q₁ ∧
        Path (fun _ => True) q₁ q₂ ∧ Path (fun _ => True) q₂ q ∧ d.topic = t ∧ d.metadata = md ∧
        pre = q₁.log ++
          (front ++ (streams.map .streamClosed ++ .scrubbed d.requests :: purge)) ∧
        q₂.log = pre ++ .published t ⟨.failed cause, md⟩ n :: (back ++ [.closed t]) ∧
        q.log = q₂.log ++ rest ∧ Silenced q₁ q₂ b d others streams pre rest := by
  intro start status stream q
  have hnew : start.IsNew := rfl
  have hreach : Reachable start q := ⟨_, rfl⟩
  have hany : q.log.any Action.isFailure = true := by decide +kernel
  obtain ⟨a, ha, hfail⟩ := List.any_eq_true.mp hany
  obtain ⟨pre, post, hlog⟩ := List.append_of_mem ha
  obtain ⟨t, cause, md, n, rfl⟩ := Action.of_isFailure hfail
  exact ⟨pre, post, t, cause, md, n, hlog, failure_closes_streams hnew hreach.path hlog⟩

/-- The stream of a failed request is not always closed.  Its message is being sent when another
producer goes on with the response and sets the stream, so it is a builder in line that holds it
when the send fails.  The stream is scrubbed, and the worker ends without having closed it. -/
theorem failure_drops_stream :
    let start : Queue := { peer := Peer.zero, settings := {} }
    let status : Edit := .setStatus default .requestAcknowledged
    let q₁ := start.run [.reserve 0 0 [status], .startup, .work none, .work (some .opened),
      .reserve 1 0 [status, .setStream default ⟨"b"⟩], .work (some (.sendFailed .streamReset))]
    let q₂ := q₁.step (.work (some .resetDone))
    let q := q₂.step (.work none)
    start.IsNew ∧
      (∃ d cause, q₁.worker = .resetting d cause ∧
        ∃ b ∈ q₁.backlog.builders, ⟨"b"⟩ ∈ b.streamsOf d.requests) ∧
      q₂.log.any Action.isFailure = true ∧ q₂.backlog.builders.isEmpty = true ∧
      q.isStopped = true ∧ .streamClosed ⟨"b"⟩ ∉ q.log := by
  intro start status q₁ q₂ q
  have hheld : (match q₁.worker with
      | .resetting d _ => q₁.backlog.builders.any fun b => (b.streamsOf d.requests).contains ⟨"b"⟩
      | _ => false) = true := by decide +kernel
  have hnone : q.log.all (fun a => a.isFailure || !a.isOfFailure) = true := by decide +kernel
  refine ⟨rfl, ?_, by decide +kernel, by decide +kernel, by decide +kernel, ?_⟩
  · split at hheld
    · rename_i d cause hw
      obtain ⟨b, hb, hs⟩ := List.any_eq_true.mp hheld
      exact ⟨d, cause, hw, b, hb, by simpa using hs⟩
    · cases hheld
  · intro hs
    cases List.all_eq_true.mp hnone _ hs

end Queue

end Outbox
