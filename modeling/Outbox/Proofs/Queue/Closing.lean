import Outbox.Proofs.Queue.Act

/-!
# How a backlog is closed

A backlog is closed when its last builder was taken, unless everything was called off or the queue
was let go of before it was started: only then are builders thrown away.  Nothing gets into a closed
backlog.

* `Queue.Orderly` — the invariant, with `Queue.Orderly.act`;
* `Queue.IsNew.orderly` — every path from a new queue keeps to it;
* `Queue.Orderly.discards_eq` — a worker that ends without having been called off finds no builder.
-/

namespace Outbox.Queue

variable {others : Sink → Prop} {start q q' : Queue} {entries : List Action}

/-- A closed backlog is empty, and builders are thrown away only if everything is called off or
nobody can start the worker any more. -/
structure Orderly (q : Queue) : Prop where
  /-- A closed backlog is empty. -/
  empty : q.backlog.closed = true → q.backlog.builders = []
  /-- Nothing is thrown away but what a closing backlog held. -/
  closing : ∀ b, .discarded b ∈ q.log → q.backlog.closed = true
  /-- Something was thrown away for a reason. -/
  reason : ∀ b, .discarded b ∈ q.log →
    q.cancelled = true ∨ (q.worker = .unstarted ∧ q.reachable = false)
  /-- A worker that is about to end was called off, or has closed the backlog. -/
  parting : q.worker = .parting → q.cancelled = true ∨ q.backlog.closed = true
  /-- A worker that is gone has closed the backlog. -/
  stopped : q.worker = .stopped → q.backlog.closed = true

namespace Orderly

/-- An act that closes nothing and throws nothing away. -/
theorem aside (h : Orderly q) (a : Act others q entries q')
    (hd : ∀ b, .discarded b ∉ entries) (hclosed : q'.backlog.closed = q.backlog.closed)
    (hempty : q.backlog.builders = [] → q'.backlog.builders = [] ∨ q.backlog.closed = false)
    (hc : q.cancelled = true → q'.cancelled = true)
    (hu : q.worker = .unstarted → q.reachable = false →
      q'.worker = .unstarted ∧ q'.reachable = false)
    (hp : q'.worker = .parting → q.worker = .parting ∨ q.cancelled = true ∨ q.backlog.closed = true)
    (hs : q'.worker = .stopped → q.worker = .stopped) : Orderly q' := by
  have hmem : ∀ b, .discarded b ∈ q'.log → .discarded b ∈ q.log := by
    intro b hb
    rw [a.log_eq] at hb
    exact (List.mem_append.mp hb).resolve_right (hd b)
  refine ⟨?_, ?_, ?_, ?_, ?_⟩
  · intro hq
    rw [hclosed] at hq
    rcases hempty (h.empty hq) with hnil | hopen
    · exact hnil
    · rw [hq] at hopen
      cases hopen
  · intro b hb
    rw [hclosed]
    exact h.closing b (hmem b hb)
  · intro b hb
    rcases h.reason b (hmem b hb) with hq | ⟨hw, hr⟩
    · exact .inl (hc hq)
    · exact .inr (hu hw hr)
  · intro hw
    rw [hclosed]
    rcases hp hw with hw | hq | hq
    · exact (h.parting hw).imp_left hc
    · exact .inl (hc hq)
    · exact .inr hq
  · intro hw
    rw [hclosed]
    exact h.stopped (hs hw)

/-- A failing message throws no builder away. -/
theorem not_mem_failureEntries {d : Finished} {cause : QueueError} {n m m' : Nat}
    {purge back : List Action} (hpurge : Receipt m purge) (hback : Receipt m' back) :
    ∀ b, .discarded b ∉ failureEntries d cause n purge back := by
  intro b hb
  refine forall_mem_failureEntries (P := fun a => a ≠ .discarded b) hpurge hback ?_ (by simp)
    (by simp) (by simp) (by simp) _ hb rfl
  rintro a hquiet rfl
  cases hquiet

theorem scrub_eq_nil {backlog : Backlog} (rs : List RequestId) (h : backlog.builders = []) :
    (backlog.scrub rs).builders = [] := by
  simp [Backlog.scrub, h]

theorem act (h : Orderly q) (a : Act others q entries q') : Orderly q' := by
  have hact := a
  cases a with
  | aside he hs hc hr =>
    refine h.aside hact ?_ rfl .inl hc ?_ .inl id
    · intro b hb
      have hquiet := he _ hb
      cases hquiet
    · intro hw hq
      refine ⟨hw, ?_⟩
      by_contra hreach
      rw [hr (by simpa using hreach)] at hq
      cases hq
  | attached ho => exact h.aside hact (by simp) rfl .inl id (fun hw hr => ⟨hw, hr⟩) .inl id
  | departed ho => exact h.aside hact (by simp) rfl .inl id (fun hw hr => ⟨hw, hr⟩) .inl id
  | @edited p size edits report backlog token hc hm =>
    have hclosed : backlog.closed = q.backlog.closed := by cases hm <;> rfl
    refine h.aside hact (by simp) hclosed (fun _ => .inr hc) id (fun hw hr => ⟨hw, hr⟩) .inl id
  | @scrubbed rs pool receipt hr =>
    refine h.aside hact ?_ rfl (fun hb => .inl (scrub_eq_nil rs hb)) id
      (fun hw hr => ⟨hw, hr⟩) .inl id
    intro b hb
    rcases List.mem_cons.mp hb with hb | hb
    · cases hb
    · have hquiet := hr.isQuiet _ hb
      cases hquiet
  | launched hw hr =>
    refine h.aside hact (by simp) rfl .inl id ?_ ?_ ?_
    · intro _ hr'
      rw [hr] at hr'
      cases hr'
    · intro hw'
      cases hw'
    · intro hw'
      cases hw'
  | dropped hw =>
    exact ⟨fun _ => rfl, fun _ _ => rfl, fun _ _ => .inr ⟨hw, rfl⟩, fun _ => .inr rfl,
      fun _ => rfl⟩
  | started hw =>
    refine h.aside hact (by simp) rfl .inl id ?_ ?_ ?_
    · intro hw'
      rw [hw] at hw'
      cases hw'
    · intro hw'
      cases hw'
    · intro hw'
      cases hw'
  | @skipped sender token b rest hw hb hf =>
    refine h.aside hact (by simp) rfl ?_ id (fun hw hr => ⟨hw, hr⟩) .inl id
    intro hnil
    rw [hb] at hnil
    cases hnil
  | @announced sender token b rest d bus post n entries hw hs hb hf hp he =>
    refine h.aside hact ?_ rfl ?_ id ?_ ?_ ?_
    · subst he
      intro b' hb'
      cases sender <;> simp [announcement, firstAction] at hb'
    · intro hnil
      rw [hb] at hnil
      cases hnil
    · intro hu
      rw [hw] at hu
      cases hu
    · intro hw'
      cases sender <;> cases hw'
    · intro hw'
      cases sender <;> cases hw'
  | opened hw =>
    refine h.aside hact (by simp) rfl .inl id ?_ ?_ ?_
    · intro hu
      rw [hw] at hu
      cases hu
    · intro hw'
      cases hw'
    · intro hw'
      cases hw'
  | @sent d pool bus post n back entries hw hback hp he =>
    refine h.aside hact ?_ rfl .inl id ?_ ?_ ?_
    · subst he
      intro b hb
      refine forall_mem_completion (P := fun a => a ≠ .discarded b) hback ?_ (by simp) (by simp)
        (by simp) _ hb rfl
      rintro a hquiet rfl
      cases hquiet
    · intro hu
      rw [hw] at hu
      cases hu
    · intro hw'
      cases hw'
    · intro hw'
      cases hw'
  | @interrupted d cause entries hw hcause he =>
    refine h.aside hact ?_ rfl .inl id ?_ ?_ ?_
    · rcases he with rfl | ⟨e, rfl⟩
      · simp
      · simp
    · intro hu
      rw [hw] at hu
      cases hu
    · intro hw'
      cases hw'
    · intro hw'
      cases hw'
  | @failed d cause pool bus post n purge back entries hw hpurge hback hp he =>
    refine h.aside hact ?_ rfl (fun hb => .inl (scrub_eq_nil d.requests hb)) id ?_ ?_ ?_
    · subst he
      exact not_mem_failureEntries hpurge hback
    · intro hu
      rcases hw with ⟨hw, -⟩ | hw
      · rw [hu] at hw
        cases hw
      · rw [hu] at hw
        cases hw
    · intro hw'
      cases hw'
    · intro hw'
      cases hw'
  | @drained sender b rest d pool bus post n purge back entries hw hs hb hf hpurge hback hp he =>
    refine h.aside hact ?_ rfl ?_ id (fun hw hr => ⟨hw, hr⟩) .inl id
    · subst he
      intro b' hb'
      rcases List.mem_cons.mp hb' with hb' | hb'
      · cases hb'
      · rcases List.mem_append.mp hb' with hb' | hb'
        · simp at hb'
        · exact not_mem_failureEntries hpurge hback b' hb'
    · intro hnil
      rw [hb] at hnil
      cases hnil
  | emptied hw hs hb =>
    exact ⟨fun _ => rfl, fun _ _ => rfl, h.reason, fun _ => .inr rfl, fun _ => rfl⟩
  | parted hw hend =>
    refine h.aside hact (by simp) rfl .inl id ?_ (fun _ => .inr hend) ?_
    · intro hu
      rw [hw] at hu
      cases hu
    · intro hw'
      cases hw'
  | ended hw =>
    refine ⟨fun _ => rfl, fun _ _ => rfl, ?_, fun _ => .inr rfl, fun _ => rfl⟩
    intro b hb
    rcases List.mem_append.mp hb with hb | hb
    · rcases h.reason b hb with hq | ⟨hu, -⟩
      · exact .inl hq
      · rw [hu] at hw
        rcases hw with hw | ⟨hw, -⟩ <;> cases hw
    · -- there is something to throw away, so the backlog was not closed before
      have hopen : q.backlog.closed ≠ true := by
        intro hclosed
        simp [teardownEntries, h.empty hclosed] at hb
      rcases hw with hw | ⟨-, hq⟩
      · exact .inl ((h.parting hw).resolve_right hopen)
      · exact .inl (hq.resolve_right hopen)

/-- Nothing is left in line when the worker is gone. -/
theorem builders_eq (h : Orderly q) (hstop : q.isStopped = true) : q.backlog.builders = [] :=
  h.empty (h.stopped (isStopped_iff.mp hstop))

/-- What is thrown away by the time the worker is gone was called off. -/
theorem cancelled_of_discarded {b : Builder} (h : Orderly q) (hstop : q.isStopped = true)
    (hb : .discarded b ∈ q.log) : q.cancelled = true := by
  refine (h.reason b hb).resolve_right ?_
  rintro ⟨hw, -⟩
  rw [isStopped_iff.mp hstop] at hw
  cases hw

/-- A worker that ends without having been called off has thrown nothing away. -/
theorem discards_eq (h : Orderly q) (hstop : q.isStopped = true) (hc : q.cancelled = false) :
    ∀ b, .discarded b ∉ q.log := by
  intro b hb
  have hq := h.cancelled_of_discarded hstop hb
  rw [hc] at hq
  cases hq

end Orderly

/-- Every path from a new queue closes the backlog in order. -/
theorem IsNew.orderly (hnew : start.IsNew) (h : Path others start q) : Orderly q := by
  refine h.invariant (I := Orderly) ⟨fun _ => hnew.builders_eq, ?_, ?_, ?_, ?_⟩ ?_
  · intro b hb
    rw [hnew.log_eq] at hb
    cases hb
  · intro b hb
    rw [hnew.log_eq] at hb
    cases hb
  · intro hw
    rw [hnew.worker_eq] at hw
    cases hw
  · intro hw
    rw [hnew.worker_eq] at hw
    cases hw
  · intro q q' entries a hq
    exact hq.act a

end Outbox.Queue
