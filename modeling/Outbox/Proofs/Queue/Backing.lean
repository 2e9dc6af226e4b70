import Outbox.Proofs.Memory.Sole
import Outbox.Proofs.Queue.Grants

/-!
# Every held byte has a place

When a queue is the only user of its allocator, the bytes that the allocator holds for it are those
of unread grants, of the builders in line and of the message under way, and no others.  The line of
the allocator and the producers that wait are two views of the same thing: a producer waits in the
line or has its answer, and what is wanted in the line is wanted by a producer.

* `Queue.InLine` — the line and the producers agree;
* `Queue.InLine.grant`, `Queue.InLine.join`, `Queue.InLine.leave` — how they change together;
* `Queue.Sole`, `Queue.IsSole` — the queue is the only user of its allocator, with
  `Queue.Sole.release` and `Queue.Sole.leave`;
* `Queue.Backed`, `Queue.IsBacked` — all that is held has a place, with `Queue.IsBacked.flow`
  saying that flows of bytes keep it so.
-/

namespace Outbox.Queue

open Allocator (sole grants Served)

variable {q q' : Queue} {ps : List Producer} {wanted : List Waiter}
  {answers answers' : List (Ticket × Grant)} {t : Ticket}

/-! ## Producers in line -/

/-- The producers and the wanted requests agree. -/
structure InLine (ps : List Producer) (wanted : List Waiter) (answers : List (Ticket × Grant)) :
    Prop where
  /-- The producers have different names. -/
  distinct : (ps.map Producer.ticket).Nodup
  /-- So have the requests. -/
  once : (wanted.map Waiter.ticket).Nodup
  /-- A wanted request is that of a producer without an answer. -/
  asked : ∀ w ∈ wanted, ⟨w.ticket, w.amount⟩ ∈ ps ∧ answers.lookup w.ticket = none
  /-- A producer without an answer has a wanted request. -/
  waits : ∀ p ∈ ps, answers.lookup p.ticket = none → p.ticket ∈ wanted.map Waiter.ticket

/-- Bytes of grants change only with the answers. -/
theorem sum_grantOf_congr (h : ∀ p ∈ ps, answers'.lookup p.ticket = answers.lookup p.ticket) :
    (ps.map (grantOf answers')).sum = (ps.map (grantOf answers)).sum := by
  refine congrArg List.sum (List.map_congr_left fun p hp => ?_)
  unfold grantOf Answers.hasGranted
  rw [h p hp]

namespace InLine

theorem nil (answers : List (Ticket × Grant)) : InLine [] [] answers := by
  refine ⟨List.nodup_nil, List.nodup_nil, ?_, ?_⟩
  · intro w hw
    cases hw
  · intro p hp
    cases hp

/-- The first wanted request is granted. -/
theorem grant_head {w : Waiter} (h : InLine ps (w :: wanted) answers) :
    InLine ps wanted (answers ++ [(w.ticket, .granted)]) ∧
      (ps.map (grantOf (answers ++ [(w.ticket, .granted)]))).sum =
        (ps.map (grantOf answers)).sum + w.amount := by
  obtain ⟨hfirst, honce⟩ := List.nodup_cons.mp h.once
  obtain ⟨hmem, hnone⟩ := h.asked w (List.mem_cons_self ..)
  refine ⟨⟨h.distinct, honce, ?_, ?_⟩, ?_⟩
  · intro w' hw'
    obtain ⟨hmem', hnone'⟩ := h.asked w' (List.mem_cons_of_mem _ hw')
    have hne : w'.ticket ≠ w.ticket := fun he => hfirst (he ▸ List.mem_map_of_mem hw')
    exact ⟨hmem', (Answers.lookup_concat_of_ne _ hne _).trans hnone'⟩
  · intro p hp hnone'
    by_cases hpw : p.ticket = w.ticket
    · rw [hpw, Answers.lookup_concat_self hnone] at hnone'
      cases hnone'
    · rw [Answers.lookup_concat_of_ne _ hpw] at hnone'
      exact (List.mem_cons.mp (h.waits p hp hnone')).resolve_left hpw
  · have hbefore := sum_producers h.distinct hmem (grantOf answers)
    have hafter := sum_producers h.distinct hmem
      (grantOf (answers ++ [(w.ticket, .granted)]))
    have hothers : ∀ p ∈ ps.filter (fun p => p.ticket ≠ w.ticket),
        (answers ++ [(w.ticket, Grant.granted)]).lookup p.ticket = answers.lookup p.ticket := by
      intro p hp
      exact Answers.lookup_concat_of_ne _ (ne_of_mem_others p hp) _
    have hrest := sum_grantOf_congr hothers
    have hgranted := Answers.lookup_concat_self hnone .granted
    have hzero : grantOf answers ⟨w.ticket, w.amount⟩ = 0 := grantOf_of_none hnone
    have hfull : grantOf (answers ++ [(w.ticket, .granted)]) ⟨w.ticket, w.amount⟩ = w.amount := by
      rw [grantOf_of_some (p := ⟨w.ticket, w.amount⟩) hgranted]
      rfl
    simp only at hbefore hafter
    omega

/-- Some of the first wanted requests are granted. -/
theorem grant {granted : List Waiter} (h : InLine ps (granted ++ wanted) answers) :
    InLine ps wanted (answers ++ grants granted) ∧
      (ps.map (grantOf (answers ++ grants granted))).sum =
        (ps.map (grantOf answers)).sum + Waiter.bytes granted := by
  induction granted generalizing answers with
  | nil => simpa [grants, Waiter.bytes] using h
  | cons w rest ih =>
    obtain ⟨hhead, hsum⟩ := h.grant_head
    obtain ⟨hrest, hsums⟩ := ih hhead
    have happend : answers ++ [(w.ticket, .granted)] ++ grants rest =
        answers ++ grants (w :: rest) := by
      simp [grants]
    rw [happend] at hrest hsums
    refine ⟨hrest, ?_⟩
    rw [hsums, hsum]
    simp only [Waiter.bytes, List.map_cons, List.sum_cons]
    omega

/-- A producer joins the line. -/
theorem join (h : InLine ps wanted answers) (ht : ∀ p ∈ ps, p.ticket ≠ t)
    (hnone : answers.lookup t = none) (n : Nat) :
    InLine (ps ++ [⟨t, n⟩]) (wanted ++ [⟨t, n, true⟩]) answers := by
  refine ⟨nodup_map_concat h.distinct ht, nodup_map_concat h.once ?_, ?_, ?_⟩
  · intro w hw
    exact ht _ (h.asked w hw).1
  · intro w hw
    rcases List.mem_append.mp hw with hw | hw
    · obtain ⟨hmem, hlookup⟩ := h.asked w hw
      exact ⟨List.mem_append_left _ hmem, hlookup⟩
    · rw [List.mem_singleton.mp hw]
      exact ⟨List.mem_append_right _ (List.mem_singleton_self _), hnone⟩
  · intro p hp hlookup
    rw [List.map_append]
    rcases List.mem_append.mp hp with hp | hp
    · exact List.mem_append_left _ (h.waits p hp hlookup)
    · rw [List.mem_singleton.mp hp]
      exact List.mem_append_right _ (List.mem_singleton_self _)

/-- A producer leaves, and its request and answer go with it. -/
theorem leave (h : InLine ps wanted answers) (t : Ticket) :
    InLine (ps.filter (fun p => p.ticket ≠ t)) (wanted.filter (fun w => w.ticket ≠ t))
      (answers.filter (fun e => e.1 ≠ t)) := by
  refine ⟨h.distinct.sublist (List.filter_sublist.map _),
    h.once.sublist (List.filter_sublist.map _), ?_, ?_⟩
  · intro w hw
    obtain ⟨hw, hwt⟩ := List.mem_filter.mp hw
    have hwt : w.ticket ≠ t := by simpa using hwt
    obtain ⟨hmem, hlookup⟩ := h.asked w hw
    exact ⟨List.mem_filter.mpr ⟨hmem, by simpa using hwt⟩,
      (Answers.lookup_without _ hwt).trans hlookup⟩
  · intro p hp hlookup
    obtain ⟨hp, hpt⟩ := List.mem_filter.mp hp
    have hpt : p.ticket ≠ t := by simpa using hpt
    rw [Answers.lookup_without _ hpt] at hlookup
    obtain ⟨w, hw, hwp⟩ := List.mem_map.mp (h.waits p hp hlookup)
    refine List.mem_map.mpr ⟨w, List.mem_filter.mpr ⟨hw, ?_⟩, hwp⟩
    rw [← hwp] at hpt
    simpa using hpt

/-- An answer that belongs to no producer and no wanted request may be forgotten. -/
theorem without (h : InLine ps wanted answers) (ht : ∀ p ∈ ps, p.ticket ≠ t) :
    InLine ps wanted (answers.filter (fun e => e.1 ≠ t)) := by
  have hps : ps.filter (fun p => p.ticket ≠ t) = ps :=
    List.filter_eq_self.mpr fun p hp => by simpa using ht p hp
  have hwanted : wanted.filter (fun w => w.ticket ≠ t) = wanted :=
    List.filter_eq_self.mpr fun w hw => by simpa using ht _ (h.asked w hw).1
  have hleave := h.leave t
  rwa [hps, hwanted] at hleave

/-- A producer with an answer has no request in line. -/
theorem leave_answered (h : InLine ps wanted answers) {g : Grant}
    (ht : answers.lookup t = some g) :
    InLine (ps.filter (fun p => p.ticket ≠ t)) wanted (answers.filter (fun e => e.1 ≠ t)) := by
  have hwanted : wanted.filter (fun w => w.ticket ≠ t) = wanted := by
    refine List.filter_eq_self.mpr fun w hw => ?_
    have hne : w.ticket ≠ t := by
      intro he
      have hnone := (h.asked w hw).2
      rw [he, ht] at hnone
      cases hnone
    simpa using hne
  have hleave := h.leave t
  rwa [hwanted] at hleave

end InLine

/-! ## The only user -/

/-- The queue is the only user of its allocator. -/
structure Sole (limits : MemoryLimits) (c : Account) (answers : List (Ticket × Grant)) (q : Queue) :
    Prop where
  /-- Nobody else has used it. -/
  pool : q.pool = .limited (sole limits q.peer c answers)
  /-- The producers that wait are those in line. -/
  line : InLine q.producers c.wanted answers
  /-- Nobody waits while nothing is held. -/
  idle : c.held = 0 → c.line = []

/-- The same with some account, limits and answers. -/
def IsSole (q : Queue) : Prop := ∃ limits c answers, Sole limits c answers q

/-- A queue to which nothing has happened has used nothing of its allocator. -/
theorem sole_of_isNew {limits : MemoryLimits} (hnew : q.IsNew)
    (hpool : q.pool = .limited { limits }) : Sole limits {} [] q := by
  refine ⟨by rw [hpool, Allocator.sole_empty], ?_, fun _ => rfl⟩
  rw [hnew.producers_eq]
  exact .nil []

theorem release_of_ok {n : Nat} {pool : Pool} (hn : n ≠ 0)
    (h : q.pool.release q.peer n = .ok pool) :
    q.release n = { q with pool }.note (.release n none) := by
  unfold release
  rw [if_neg hn, h]

theorem release_of_error {n : Nat} {e : MemoryError} (hn : n ≠ 0)
    (h : q.pool.release q.peer n = .error e) :
    q.release n = q.note (.release n (some e)) := by
  unfold release
  rw [if_neg hn, h]

namespace Sole

variable {limits : MemoryLimits} {c c' : Account} {granted : List Waiter} {held n : Nat}

/-- Only the pool, the peer and the producers matter. -/
theorem of_eq (h : Sole limits c answers q) (hpool : q'.pool = q.pool) (hpeer : q'.peer = q.peer)
    (hproducers : q'.producers = q.producers) : Sole limits c answers q' := by
  refine ⟨?_, ?_, h.idle⟩
  · rw [hpool, hpeer]
    exact h.pool
  · rw [hproducers]
    exact h.line

/-- Those in line who are served have their answers then. -/
theorem served (h : Sole limits c answers q) (hs : Served { c with held } c' granted) :
    Sole limits c' (answers ++ grants granted)
        { q with pool := .limited (sole limits q.peer c' (answers ++ grants granted)) } ∧
      (q.producers.map (grantOf (answers ++ grants granted))).sum =
        (q.producers.map (grantOf answers)).sum + Waiter.bytes granted := by
  have hline : InLine q.producers (granted ++ c'.wanted) answers := by
    rw [← hs.wanted]
    exact h.line
  obtain ⟨hline', hsum⟩ := hline.grant
  exact ⟨⟨rfl, hline', hs.idle⟩, hsum⟩

/-- What is held can be given back, and those in line get it; more than that is refused. -/
theorem release (h : Sole limits c answers q) (hn : n ≠ 0) :
    (n ≤ c.held ∧ ∃ c' granted, Served { c with held := c.held - n } c' granted ∧
      q.release n =
        { q with pool := .limited (sole limits q.peer c' (answers ++ grants granted)) }.note
          (.release n none)) ∨
    (c.held < n ∧ ∃ e, q.release n = q.note (.release n (some e))) := by
  rcases Nat.lt_or_ge c.held n with hlt | hle
  · refine .inr ⟨hlt, ?_⟩
    obtain ⟨e, he⟩ := Allocator.sole_release_excess limits q.peer answers hlt
    refine ⟨e, release_of_error hn ?_⟩
    rw [h.pool, Pool.release, he]
    rfl
  · refine .inl ⟨hle, ?_⟩
    obtain ⟨c', granted, hrelease, hserved⟩ :=
      Allocator.sole_release limits q.peer answers hn hle
    refine ⟨c', granted, hserved, release_of_ok hn ?_⟩
    rw [h.pool, Pool.release, hrelease]
    rfl

/-- A producer that waits goes away. -/
theorem leave (h : Sole limits c answers q) (t : Ticket) :
    Sole limits
      { c with line := c.line.map fun w => if w.ticket = t then { w with live := false } else w }
      (answers.filter (fun e => e.1 ≠ t))
      ({ q with pool := q.pool.abandon t }.forgetProducer t) := by
  refine ⟨?_, ?_, ?_⟩
  · show q.pool.abandon t = _
    rw [h.pool, Pool.abandon, Allocator.sole_abandon]
    rfl
  · rw [Allocator.wanted_abandon]
    exact h.line.leave t
  · intro hzero
    show c.line.map _ = []
    rw [h.idle hzero]
    rfl

end Sole

/-! ## What is held -/

/-- What the allocator holds for the queue lies in unread grants, in the builders in line or in the
hand. -/
structure Backed (limits : MemoryLimits) (c : Account) (answers : List (Ticket × Grant))
    (hand : Nat) (q : Queue) : Prop where
  /-- The queue is the only user of its allocator. -/
  pool : q.pool = .limited (sole limits q.peer c answers)
  /-- The producers that wait are those in line. -/
  line : InLine q.producers c.wanted answers
  /-- Nobody waits while nothing is held. -/
  idle : c.held = 0 → c.line = []
  /-- Every byte that is held has a place. -/
  held : c.held = (q.producers.map (grantOf answers)).sum + (q.backlog.bytes + hand)

theorem Backed.sole {limits : MemoryLimits} {c : Account} {hand : Nat}
    (h : Backed limits c answers hand q) : Sole limits c answers q :=
  ⟨h.pool, h.line, h.idle⟩

/-- The same with some account, limits and answers. -/
def IsBacked (hand : Nat) (q : Queue) : Prop :=
  ∃ limits c answers, Backed limits c answers hand q

theorem IsBacked.sole {hand : Nat} (h : IsBacked hand q) : IsSole q := by
  obtain ⟨limits, c, answers, h⟩ := h
  exact ⟨limits, c, answers, h.sole⟩

/-- Bytes in hand can be given back, and those in line get them. -/
theorem IsBacked.release {hand n : Nat} (h : IsBacked (hand + n) q) :
    IsBacked hand (q.release n) := by
  obtain ⟨limits, c, answers, h⟩ := h
  by_cases hn : n = 0
  · subst hn
    exact ⟨limits, c, answers, h.pool, h.line, h.idle, h.held⟩
  · have hplaces := h.held
    rcases h.sole.release hn with ⟨-, c', granted, hserved, heq⟩ | ⟨hlt, -⟩
    · obtain ⟨hsole, hsum⟩ := h.sole.served hserved
      have hheld := hserved.held
      rw [heq]
      refine ⟨limits, c', answers ++ grants granted, hsole.pool, hsole.line, hsole.idle, ?_⟩
      show c'.held = (q.producers.map _).sum + (q.backlog.bytes + hand)
      simp only at hheld
      omega
    · omega

/-- **Flows keep every byte in its place.** -/
theorem IsBacked.flow {hand hand' : Nat} (hf : Flow hand q hand' q') (h : IsBacked hand q) :
    IsBacked hand' q' := by
  induction hf with
  | shift hu hsum =>
    obtain ⟨limits, c, answers, h⟩ := h
    refine ⟨limits, c, answers, ?_, ?_, h.idle, ?_⟩
    · rw [hu.pool, hu.peer]
      exact h.pool
    · rw [hu.producers]
      exact h.line
    · rw [hu.producers, h.held]
      omega
  | release q hand n => exact h.release
  | trans hf hf' ih ih' => exact ih' (ih h)

/-! ## Producers come and go -/

variable {len : Link → Nat} {edits : List Edit} {size hand : Nat}

theorem sum_grantOf_without (answers : List (Ticket × Grant)) (ht : ∀ p ∈ ps, p.ticket ≠ t) :
    (ps.map (grantOf (answers.filter (fun e => e.1 ≠ t)))).sum =
      (ps.map (grantOf answers)).sum :=
  sum_grantOf_congr fun p hp => Answers.lookup_without _ (ht p hp)

/-- What the producers amount to is what one of them amounts to and what the others do when its
answer is gone. -/
theorem InLine.sum_leave (h : InLine ps wanted answers) {n : Nat} (hmem : ⟨t, n⟩ ∈ ps) :
    (ps.map (grantOf answers)).sum = grantOf answers ⟨t, n⟩ +
      ((ps.filter (fun p => p.ticket ≠ t)).map
        (grantOf (answers.filter (fun e => e.1 ≠ t)))).sum := by
  rw [sum_producers h.distinct hmem (grantOf answers), sum_grantOf_without _ ne_of_mem_others]

/-- A producer that learns its answer spends its bytes. -/
theorem IsBacked.answer {grant : Grant} (h : IsBacked (hand + grant.bytes size) q)
    (hacc : q.backlog.Accounted len) (t : Ticket) (he : Honest len size edits) :
    (q.answer t size edits grant).backlog.Accounted len ∧
      IsBacked hand (q.answer t size edits grant) := by
  obtain ⟨hleft, hflow⟩ := flow_answer hand hacc t he grant
  have hheard : IsBacked (hand + grant.bytes size) (q.hear t size grant) := by
    obtain ⟨limits, c, answers, h⟩ := h
    exact ⟨limits, c, answers, h.pool, h.line, h.idle, h.held⟩
  exact ⟨hleft, hheard.flow hflow⟩

theorem take?_sole {limits : MemoryLimits} {p : Peer} {c : Account} :
    (Pool.limited (sole limits p c answers)).take? t = (answers.lookup t).map fun g =>
      (g, Pool.limited (sole limits p c (answers.filter (fun e => e.1 ≠ t)))) := by
  show ((sole limits p c answers).take? t).map _ = _
  rw [Allocator.sole_take?, Option.map_map]
  rfl

/-- A producer that comes is served at once or joins the line. -/
theorem Arrival.backed (a : Arrival q t size edits q') (h : IsBacked hand q)
    (hacc : q.backlog.Accounted len) (he : Honest len size edits) (ht : q.isTaken t = false) :
    q'.backlog.Accounted len ∧ IsBacked hand q' := by
  obtain ⟨hwaiting, hopen⟩ := not_taken ht
  have hothers := ne_of_waitingSize?_eq_none hwaiting
  have hq := h
  obtain ⟨limits, c, answers, h⟩ := h
  rw [h.pool] at hopen
  have hnone : answers.lookup t = none := (Allocator.sole_isOpen hopen).2
  have hpool : (q.ask t size).pool = .limited ((sole limits q.peer c answers).request t q.peer
      size) := by
    show q.pool.request t q.peer size = _
    rw [h.pool]
    rfl
  cases a with
  | free hs =>
    subst hs
    obtain ⟨hleft, hflow⟩ := flow_mutate hand hacc he
    exact ⟨hleft, hq.flow hflow⟩
  | callOff hs hc => exact ⟨hacc, hq.flow (.still (unmoved_note q rfl) rfl)⟩
  | @answered grant pool hs hc ha =>
    rcases Allocator.sole_request h.idle t hs with ⟨hline, hr⟩ | ⟨hheld, hr⟩
    · have hanswers : (answers ++ [(t, Grant.granted)]).filter (fun e => e.1 ≠ t) =
          answers.filter (fun e => e.1 ≠ t) := by
        simp
      rw [hpool, hr, take?_sole, Answers.lookup_concat_self hnone, hanswers] at ha
      cases ha
      have hserved : IsBacked (hand + Grant.granted.bytes size) { q.ask t size with
          pool := .limited (sole limits q.peer { c with held := c.held + size }
            (answers.filter (fun e => e.1 ≠ t))) } := by
        refine ⟨limits, _, _, rfl, h.line.without hothers, fun _ => hline, ?_⟩
        have hheld := h.held
        have hsum := sum_grantOf_without answers hothers
        show c.held + size = (q.producers.map _).sum + (q.backlog.bytes + (hand + size))
        omega
      exact hserved.answer hacc t he
    · rw [hpool, hr, take?_sole, hnone] at ha
      cases ha
  | wait hs hc ha =>
    rcases Allocator.sole_request h.idle t hs with ⟨hline, hr⟩ | ⟨hheld, hr⟩
    · rw [hpool, hr, take?_sole, Answers.lookup_concat_self hnone] at ha
      cases ha
    · refine ⟨hacc, limits, { c with line := c.line ++ [⟨t, size, true⟩] }, answers, ?_, ?_, ?_, ?_⟩
      · show (q.ask t size).pool = .limited (sole limits q.peer _ answers)
        rw [hpool, hr]
      · have hwanted : Account.wanted { c with line := c.line ++ [⟨t, size, true⟩] } =
            c.wanted ++ [⟨t, size, true⟩] := by
          simp [Account.wanted]
        rw [hwanted]
        exact h.line.join hothers hnone size
      · intro hzero
        exact absurd hzero hheld
      · have hnew : grantOf answers ⟨t, size⟩ = 0 := grantOf_of_none hnone
        have hheld := h.held
        show c.held = ((q.producers ++ [(⟨t, size⟩ : Producer)]).map (grantOf answers)).sum +
          (q.backlog.bytes + hand)
        rw [List.map_append, List.sum_append, List.map_singleton, List.sum_singleton, hnew]
        omega

/-- A producer that comes back with its answer spends its bytes. -/
theorem Return.backed (r : Return q t edits q') (h : IsBacked hand q)
    (hacc : q.backlog.Accounted len)
    (he : ∀ size, q.waitingSize? t = some size → Honest len size edits)
    (hc : q.cancelled = false) : q'.backlog.Accounted len ∧ IsBacked hand q' := by
  cases r with
  | unknown hw => exact ⟨hacc, h⟩
  | callOff hw hc' =>
    rw [hc] at hc'
    cases hc'
  | @answered size grant pool hw hc' ha =>
    obtain ⟨limits, c, answers, h⟩ := h
    rw [h.pool, take?_sole] at ha
    cases hlookup : answers.lookup t with
    | none =>
      rw [hlookup] at ha
      cases ha
    | some g =>
      rw [hlookup] at ha
      cases ha
      refine IsBacked.answer (q := { q with
        pool := .limited (sole limits q.peer c (answers.filter (fun e => e.1 ≠ t)))
        }.forgetProducer t) ?_ hacc t (he size hw)
      refine ⟨limits, c, _, rfl, h.line.leave_answered hlookup, h.idle, ?_⟩
      have hsum := h.line.sum_leave (mem_of_waitingSize?_eq_some hw)
      have hgrant : grantOf answers ⟨t, size⟩ = grant.bytes size := grantOf_of_some hlookup
      have hheld := h.held
      show c.held = ((q.producers.filter (fun p => p.ticket ≠ t)).map _).sum +
        (q.backlog.bytes + (hand + grant.bytes size))
      omega
  | wait hw hc' ha => exact ⟨hacc, h⟩

/-- A producer may go away while it was not granted anything. -/
theorem IsBacked.abandon (h : IsBacked hand q) (t : Ticket)
    (ht : ∀ size, q.waitingSize? t = some size → Answers.hasGranted q.pool.answers t = false) :
    IsBacked hand (q.abandon t) := by
  unfold Queue.abandon
  split
  · exact h
  · rename_i size hw
    obtain ⟨limits, c, answers, h⟩ := h
    have hungranted : Answers.hasGranted answers t = false := by
      have hnot := ht size hw
      rw [h.pool] at hnot
      exact hnot
    have hleft := h.sole.leave t
    refine ⟨limits, _, _, hleft.pool, hleft.line, hleft.idle, ?_⟩
    have hsum := h.line.sum_leave (mem_of_waitingSize?_eq_some hw)
    have hzero : grantOf answers ⟨t, size⟩ = 0 := by
      simp [grantOf, hungranted]
    have hheld := h.held
    show c.held = ((q.producers.filter (fun p => p.ticket ≠ t)).map _).sum +
      (q.backlog.bytes + hand)
    omega

end Outbox.Queue
