import Mathlib
import Outbox.Proofs.Memory.Ledger
import Outbox.Proofs.Memory.Serving

/-!
# First come, first served

A later request of a peer may fit where an earlier one does not, and is nevertheless not granted
before it: a peer's requests are granted from the front of its line, and at once only if nobody is
in it.  So in every run the requests granted to a peer are some of those it made, in the order in
which it made them, and what waits comes after all of them.

* `Allocator.run_dealt` — what is granted in a run, peer by peer;
* `Allocator.dealt_before` — who waits is granted before a later request of the same peer;
* `Allocator.FirstComeFirstServed` — what a run has to satisfy;
* `Allocator.first_come_first_served` — every run satisfies it.
-/

namespace Outbox.Allocator

open Demand

variable {a : Allocator} {p : Peer} {before after : List MemoryMove} {m : MemoryMove}
  {d d' : Demand} {all ds : List Demand}

/-! ## Runs -/

/-- The requests granted in a run are, peer by peer, some of those that waited or were made, in
their order, and whoever waits then comes after them. -/
theorem run_dealt (a : Allocator) (moves : List MemoryMove) :
    ∃ ds : List Demand, (a.answeredAlong moves).filter (·.2 = .granted) = ds.map Demand.grant ∧
      ∀ p, (of p ds ++ (a.run moves).queue p).Sublist (a.queue p ++ of p (demands moves)) := by
  induction moves generalizing a with
  | nil => exact ⟨[], rfl, fun p => List.sublist_append_left ..⟩
  | cons m rest ih =>
    obtain ⟨ds, hdealt⟩ := a.step_dealt m
    obtain ⟨ds', hgranted, horder⟩ := ih (a.step m)
    refine ⟨ds ++ ds', ?_, fun p => ?_⟩
    · rw [answeredAlong_cons, List.filter_append, hdealt.granted, hgranted, List.map_append]
    · have hrest := (horder p).append_left (of p ds)
      have hmove := (hdealt.order p).append_right (of p (demands rest))
      rw [demands_cons, of_append, of_append, run_cons]
      simp only [List.append_assoc] at hrest hmove ⊢
      exact hrest.trans hmove

theorem queue_start (limits : MemoryLimits) (p : Peer) : queue { limits } p = [] := rfl

/-- What waits after moves of a new allocator was asked for. -/
theorem queue_run_subset {limits : MemoryLimits} {moves : List MemoryMove} :
    (run { limits } moves).queue p ⊆ demands moves := by
  obtain ⟨ds, -, horder⟩ := run_dealt { limits } moves
  intro d hd
  have hmem := (horder p).subset (List.mem_append_right _ hd)
  rw [queue_start, List.nil_append] at hmem
  exact (mem_of.mp hmem).1

/-! ## Names -/

/-- Requests with different names are the same if their names are. -/
theorem eq_of_ticket (hdistinct : (all.map Demand.ticket).Nodup) (hd : d ∈ all) (hd' : d' ∈ all)
    (h : d.ticket = d'.ticket) : d = d' :=
  List.inj_on_of_nodup_map hdistinct hd hd' h

/-- Of two entries of a list without duplicates only one comes first. -/
theorem not_sublist_swap {α : Type*} [DecidableEq α] {l : List α} {x y : α} (hnodup : l.Nodup)
    (h : [x, y].Sublist l) : ¬ [y, x].Sublist l := by
  have hindex : l.Pairwise fun x y => l.idxOf x < l.idxOf y := by
    rw [List.pairwise_iff_getElem]
    intro i j hi hj hij
    rwa [hnodup.idxOf_getElem, hnodup.idxOf_getElem]
  have hfirst := List.pairwise_iff_forall_sublist.mp hindex h
  intro h'
  have hsecond := List.pairwise_iff_forall_sublist.mp hindex h'
  omega

/-- A grant among the answers stands where its request stands among those granted. -/
theorem split_of_granted {answers l r : List (Ticket × Grant)}
    (hgranted : answers.filter (·.2 = .granted) = ds.map Demand.grant)
    (hanswers : answers = l ++ d.grant :: r) :
    ∃ first e later, ds = first ++ e :: later ∧ e.grant = d.grant ∧
      ∀ d' ∈ first, d'.grant ∈ l := by
  rw [hanswers, List.filter_append,
    List.filter_cons_of_pos (p := fun e : Ticket × Grant => decide (e.2 = .granted))
      (decide_eq_true rfl)] at hgranted
  obtain ⟨first, tail, rfl, hfirst, htail⟩ := List.append_eq_map_iff.mp hgranted
  obtain ⟨e, later, rfl, he, -⟩ := List.map_eq_cons_iff.mp htail
  refine ⟨first, e, later, rfl, he, fun d' hd' => ?_⟩
  have hmem : d'.grant ∈ l.filter (·.2 = .granted) := hfirst ▸ List.mem_map_of_mem hd'
  exact List.mem_of_mem_filter hmem

/-! ## Nobody is overtaken -/

/-- Who waits when a move begins that grants a later request of the same peer is granted before it
by the same move. -/
theorem dealt_before {limits : MemoryLimits} {l r : List (Ticket × Grant)}
    (hdistinct : ((demands (before ++ [m])).map Demand.ticket).Nodup)
    (hearlier : [d', d].Sublist (demands (before ++ [m]))) (hpeer : d'.peer = d.peer)
    (hanswered : (run { limits } before).answered m = l ++ d.grant :: r)
    (hwaiting : (run { limits } before).isWaiting d'.ticket = true) : d'.grant ∈ l := by
  obtain ⟨ds₀, -, hbefore⟩ := run_dealt { limits } before
  obtain ⟨ds, hdealt⟩ := step_dealt (run { limits } before) m
  have hall : demands (before ++ [m]) = demands before ++ m.demand?.toList := by
    rw [demands_append, demands_cons]
    exact congrArg (_ ++ ·) (List.append_nil _)
  have hasked : ∀ p, (of p ds ++ ((run { limits } before).step m).queue p).Sublist
      (of p (demands (before ++ [m]))) := by
    intro p
    have hqueue := (List.sublist_append_right ..).trans (hbefore p)
    rw [queue_start, List.nil_append] at hqueue
    rw [hall, of_append]
    exact (hdealt.order p).trans (hqueue.append_right _)
  have hmem {e : Demand} (he : e ∈ ds) : e ∈ demands (before ++ [m]) :=
    (mem_of.mp ((hasked e.peer).subset (List.mem_append_left _ (mem_of.mpr ⟨he, rfl⟩)))).1
  have hlast : d ∈ demands (before ++ [m]) := hearlier.subset (by simp)
  have hfirst : d' ∈ demands (before ++ [m]) := hearlier.subset (by simp)
  obtain ⟨first, e, later, rfl, he, hgrants⟩ := split_of_granted hdealt.granted hanswered
  obtain rfl : e = d :=
    eq_of_ticket hdistinct (hmem (by simp)) hlast (congrArg Prod.fst he)
  have hof : of e.peer (first ++ e :: later) = of e.peer first ++ e :: of e.peer later := by
    rw [of_append, of_cons_self]
  -- the peer is granted something, so whoever was in its queue is granted or still in it
  have hfront := hdealt.front e.peer (by rw [hof]; simp)
  have hinqueue : d' ∈ (run { limits } before).queue e.peer := by
    obtain ⟨q, x, hx, hticket⟩ := exists_mem_queue hwaiting
    have hxall : x ∈ demands (before ++ [m]) :=
      hall ▸ List.mem_append_left _ (queue_run_subset hx)
    obtain rfl : x = d' := eq_of_ticket hdistinct hxall hfirst hticket
    rwa [← hpeer, peer_of_mem_queue hx]
  have hplace : d' ∈ of e.peer (first ++ e :: later) ++
      ((run { limits } before).step m).queue e.peer :=
    hfront ▸ List.mem_append_left _ hinqueue
  -- to come after it there would contradict the order in which they were asked for
  have hnodup : (of e.peer (demands (before ++ [m]))).Nodup :=
    (List.Nodup.of_map _ hdistinct).filter _
  have hswapped : ¬ [e, d'].Sublist (of e.peer (demands (before ++ [m]))) := by
    refine not_sublist_swap hnodup ?_
    have hboth := hearlier.filter (fun x : Demand => decide (x.peer = e.peer))
    rwa [List.filter_eq_self.mpr (by simp [hpeer])] at hboth
  rw [hof, List.append_assoc] at hplace
  rcases List.mem_append.mp hplace with hplace | hplace
  · exact hgrants d' (mem_of.mp hplace).1
  · rw [List.cons_append] at hplace
    rcases List.mem_cons.mp hplace with rfl | hplace
    · exact absurd hearlier fun h => by simpa using (List.Nodup.of_map _ hdistinct).sublist h
    · refine absurd ?_ hswapped
      have hlater : [e, d'].Sublist (e :: (of e.peer later ++
          ((run { limits } before).step m).queue e.peer)) :=
        (List.singleton_sublist.mpr hplace).cons_cons e
      refine (hlater.trans ?_).trans (hasked e.peer)
      rw [hof, List.append_assoc]
      exact List.sublist_append_right ..

/-! ## What every run satisfies -/

/-- What a run has to satisfy that starts from a new allocator. -/
structure FirstComeFirstServed (start : Allocator) (moves : List MemoryMove) : Prop where
  /-- The requests of each peer are granted in the order in which they were made. -/
  order : ∃ ds : List Demand,
    (start.answeredAlong moves).filter (·.2 = .granted) = ds.map Demand.grant ∧
      ∀ p, (of p ds).Sublist (of p (demands moves))
  /-- A request is not granted while an earlier one of the same peer waits: if that one waits when
  the move begins that grants the later one, it is granted before it. -/
  overtaking : ∀ before m after, moves = before ++ m :: after →
    ∀ d' d, [d', d].Sublist (demands (before ++ [m])) → d'.peer = d.peer →
      ∀ l r, (start.run before).answered m = l ++ d.grant :: r →
        (start.run before).isWaiting d'.ticket = true → d'.grant ∈ l
  /-- Each request is answered at most once. -/
  once : ∀ t, replies t (start.answeredAlong moves) ≤ 1
  /-- Whatever a move charges, beside what it frees, it charges for the requests that it grants. -/
  charged : ∀ before m after, moves = before ++ m :: after →
    ∃ ds ⊆ demands (before ++ [m]),
      ((start.run before).answered m).filter (·.2 = .granted) = ds.map Demand.grant ∧
      ((start.run before).step m).total = ((start.run before).relieved m).total + bytes ds ∧
      ∀ p, ((start.run before).step m).held p =
        ((start.run before).relieved m).held p + bytes (of p ds)
  /-- When a peer gives all of its memory back, its requests are refused, and others are granted
  only what is free then. -/
  dismissed : ∀ before p order after, moves = before ++ .releasePeer p order :: after →
    (∃ ds, (start.run before).Dismissed p order ds) ∧
      ∀ d ∈ (start.run before).queue p, d.grant ∉ start.answeredAlong moves

/-- A request that is refused is not granted. -/
theorem dismissed_not_granted {start : Allocator} {order : List Peer}
    (honce : ∀ t, replies t (start.answeredAlong (before ++ .releasePeer p order :: after)) ≤ 1)
    (hdismissed : (start.run before).Dismissed p order ds) (hd : d ∈ (start.run before).queue p) :
    d.grant ∉ start.answeredAlong (before ++ .releasePeer p order :: after) := by
  intro hgrant
  have hrefused : (d.ticket, Grant.refused (.peerReleased p)) ∈
      start.answeredAlong (before ++ .releasePeer p order :: after) := by
    rw [answeredAlong_append, answeredAlong_cons, hdismissed.answered]
    refine List.mem_append_right _ (List.mem_append_left _ (List.mem_append_left _ ?_))
    exact List.mem_map_of_mem hd
  have htwice := one_lt_replies (by simp) hgrant hrefused
  have := honce d.ticket
  omega

/-- **First come, first served.**  In every run of an allocator, whose requests have different
names, the requests of each peer are granted in the order in which they were made and never while
an earlier one of that peer waits; each is answered at most once, and is charged exactly when it is
granted; and when a peer gives all of its memory back, its requests are refused and never charged,
while others keep their place and what they hold, but for what is granted to them from the front
of their lines because it fits then. -/
theorem first_come_first_served (limits : MemoryLimits) (moves : List MemoryMove)
    (hdistinct : ((demands moves).map Demand.ticket).Nodup) :
    FirstComeFirstServed { limits } moves := by
  have honce : ∀ t, replies t (answeredAlong { limits } moves) ≤ 1 := by
    intro t
    have hle := waits_run_le { limits } moves t
    have hmade := askings_le_one hdistinct t
    have hstart : waits { limits } t = 0 := rfl
    omega
  have hpart {before after : List MemoryMove} {m : MemoryMove} (h : moves = before ++ m :: after) :
      (demands (before ++ [m])).Sublist (demands moves) := by
    rw [h, before.append_cons m after, demands_append (before ++ [m])]
    exact List.sublist_append_left ..
  refine ⟨?_, fun before m after h d' d hearlier hpeer l r hanswered hwaiting => ?_, honce,
    fun before m after h => ?_, fun before p order after h => ?_⟩
  · obtain ⟨ds, hgranted, horder⟩ := run_dealt { limits } moves
    exact ⟨ds, hgranted, fun p => (List.sublist_append_left ..).trans (horder p)⟩
  · exact dealt_before (hdistinct.sublist ((hpart h).map _)) hearlier hpeer hanswered hwaiting
  · obtain ⟨ds, hdealt⟩ := step_dealt (run { limits } before) m
    refine ⟨ds, ?_, hdealt.granted, hdealt.total, hdealt.held⟩
    refine subset_of_forall fun p d hd => ?_
    have hmem := (hdealt.order p).subset (List.mem_append_left _ hd)
    rw [demands_append, demands_cons, of_append, of_append]
    rcases List.mem_append.mp hmem with hmem | hmem
    · refine List.mem_append_left _ (mem_of.mpr ⟨queue_run_subset hmem, peer_of_mem_queue hmem⟩)
    · exact List.mem_append_right _ (List.mem_append_left _ hmem)
  · obtain ⟨ds, hdismissed, -⟩ := releasePeer_dismissed (run { limits } before) p order
    subst h
    exact ⟨⟨ds, hdismissed⟩, fun d hd => dismissed_not_granted honce hdismissed hd⟩

/-- A small request that would fit waits behind a large one that does not, and both are granted in
their order once there is room; when the peer gives everything back, the request that still waits
is refused, and the other peer is granted what fits then. -/
theorem first_come_first_served_of_two :
    let p := Peer.zero
    let q : Peer := ⟨Octets.fill 32 1⟩
    let start : Allocator := { limits := { total := 100, perPeer := 60 } }
    let moves : List MemoryMove :=
      [.request ⟨0, p, 50⟩, .request ⟨1, p, 40⟩, .request ⟨2, p, 5⟩, .release p 50 [p],
        .request ⟨3, q, 60⟩, .request ⟨4, p, 30⟩, .releasePeer p [p, q]]
    ((demands moves).map Demand.ticket).Nodup ∧
      (start.answeredAlong moves).map Prod.fst = [0, 1, 2, 4, 3] ∧
      (1, Grant.granted) ∈ ((start.run (moves.take 3)).answered (.release p 50 [p])).take 1 ∧
      (4, Grant.granted) ∉ start.answeredAlong moves ∧ (start.run moves).held q = 60 := by
  intro p q start moves
  have hserved : FirstComeFirstServed start moves := first_come_first_served _ moves (by decide)
  refine ⟨by decide, by decide, ?_, ?_, by decide⟩
  · exact hserved.overtaking (moves.take 3) (.release p 50 [p]) (moves.drop 4) rfl
      ⟨1, p, 40⟩ ⟨2, p, 5⟩ (by decide) rfl _ [] (by decide) (by decide)
  · exact (hserved.dismissed (moves.take 6) p [p, q] [] rfl).2 ⟨4, p, 30⟩ (by decide)

end Outbox.Allocator
