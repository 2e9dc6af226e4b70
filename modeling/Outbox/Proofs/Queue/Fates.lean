import Outbox.Proofs.Queue.Chapters
import Outbox.Proofs.Queue.Closing
import Outbox.Proofs.Queue.Line

/-!
# What becomes of every builder

A worker that is asked to stop reports builder after builder as failed, and each report frees memory
for producers that may then open new builders.  Still nothing is forgotten: the last look into the
backlog and its closing are one act, and edits go to builders in line only, so that every
topic that was ever opened is accounted for when the worker is gone.

* `removed_eq` — the builders that left the line are those that were taken, if none was thrown away;
* `Queue.nothing_abandoned` — after a worker that was not called off has ended, every builder was
  sent, reported as failed, dropped empty by a scrub or found empty.
-/

namespace Outbox

/-- Builders that leave the line are taken, unless they are thrown away. -/
theorem Action.removed?_eq {a : Action} (h : ∀ b, a ≠ .discarded b) :
    a.removed? = a.taken?.map Builder.topic := by
  cases a with
  | discarded b => exact absurd rfl (h b)
  | _ => rfl

theorem removed_eq {log : List Action} (h : ∀ b, .discarded b ∉ log) :
    removed log = (log.filterMap Action.taken?).map Builder.topic := by
  rw [removed, List.map_filterMap]
  refine List.filterMap_congr fun a ha => Action.removed?_eq ?_
  rintro b rfl
  exact h b ha

namespace Queue

variable {start q : Queue} {told : List Chapter}

/-- When no message is under way, there is one chapter for each builder that left the line. -/
theorem Written.removed_eq (h : Written told q) (hnone : q.worker.delivery? = none)
    (hd : ∀ b, .discarded b ∉ q.log) : removed q.log = told.map Chapter.topic := by
  rw [Outbox.removed_eq hd, ← taken_eq_filterMap, h.taken_eq hnone, List.map_map]
  rfl

/-- **A worker that is not called off abandons nothing.**  In whatever order it and the producers have
their turns, when the worker is gone no builder was thrown away and none is left.  Its deeds are a book in which each chapter is about one builder: it was found empty, its message was
sent and reported so, or its message was reported as failed.  Every topic that edits ever opened has
one chapter, unless a scrub left its builder empty and dropped it; no topic has two of these fates,
nor one of them twice. -/
theorem nothing_abandoned (hnew : start.IsNew) (h : Path (fun _ => True) start q)
    (hstop : q.isStopped = true) (hc : q.cancelled = false) :
    (∀ b, .discarded b ∉ q.log) ∧ q.backlog.builders = [] ∧
    ∃ told : List Chapter, (∀ c ∈ told, c.Proper) ∧ q.deeds = told.flatMap Chapter.text ∧
      (told.map Chapter.topic ++ (Line.of q.log).dropped).Nodup ∧
      ∀ t, t ∈ told.map Chapter.topic ++ (Line.of q.log).dropped ↔ t ∈ edited q.log := by
  have horderly := hnew.orderly h
  have hkept := horderly.discards_eq hstop hc
  have hempty := horderly.builders_eq hstop
  have hnone : q.worker.delivery? = none := by
    rw [isStopped_iff.mp hstop]
    rfl
  obtain ⟨told, hwritten⟩ := hnew.written h
  have hcount : ∀ t, (told.map Chapter.topic ++ (Line.of q.log).dropped).count t =
      if t ∈ edited q.log then 1 else 0 := by
    intro t
    have htally := (hnew.kept h).tally t
    have htopics : q.backlog.line.topics = [] := by
      rw [Backlog.topics, Backlog.line, hempty]
      rfl
    rw [hwritten.removed_eq hnone hkept, htopics] at htally
    rw [List.count_append]
    exact htally
  refine ⟨hkept, hempty, told, hwritten.proper, hwritten.deeds_eq hnone, ?_, ?_⟩
  · refine List.nodup_iff_count_le_one.mpr fun t => ?_
    rw [hcount t]
    split <;> omega
  · intro t
    rw [← List.count_pos_iff, hcount t]
    split <;> simp_all

/-- One builder is found empty, one message is sent, one fails, one is dropped by the scrub that
comes with the failure and one is left for the shutdown. -/
theorem nothing_abandoned_of_five :
    let start : Queue := { peer := Peer.zero, settings := {} }
    let status (byte : UInt8) : List Edit :=
      [.setStatus ⟨.fill 16 byte⟩ .requestAcknowledged]
    let q := start.run [.reserve 0 0 [], .reserve 1 600000 (status 1), .startup, .work none,
      .work none, .work (some .opened), .work (some .sent), .reserve 2 0 (status 2), .work none,
      .reserve 3 0 (status 3), .reserve 4 600000 (status 2),
      .work (some (.sendFailed .streamReset)), .work (some .resetDone), .work none]
    q.isStopped = true ∧ q.cancelled = false ∧ (Line.of q.log).dropped.length = 1 ∧
      (∀ b, .discarded b ∉ q.log) ∧ q.backlog.builders = [] ∧
      ∃ told : List Chapter, (∀ c ∈ told, c.Proper) ∧ q.deeds = told.flatMap Chapter.text ∧
        (told.map Chapter.topic ++ (Line.of q.log).dropped).Nodup ∧
        ∀ t, t ∈ told.map Chapter.topic ++ (Line.of q.log).dropped ↔ t ∈ edited q.log := by
  intro start status q
  have hnew : start.IsNew := rfl
  have hreach : Reachable start q := ⟨_, rfl⟩
  have hstop : q.isStopped = true := by decide +kernel
  have hc : q.cancelled = false := by decide +kernel
  exact ⟨hstop, hc, by decide +kernel, nothing_abandoned hnew hreach.path hstop hc⟩

end Queue

end Outbox
