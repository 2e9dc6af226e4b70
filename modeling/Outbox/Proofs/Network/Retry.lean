import Mathlib
import Outbox.Network.Retry

/-!
# Retrying

A send makes attempts until one succeeds or none is left.  Every attempt that fails costs its own
time, a reset and, unless it was the last, a pause; so how many writes, resets and pauses a send
makes, and how long it takes, follows from the first attempt that succeeds.

* `WriteOutcome.Succeeds`, `WriteOutcome.FailsWith` — how an attempt ends within a limit;
* `Retry.sendFrom_after` — a send after some attempts that failed;
* `Retry.FollowsPolicy` — what a send has to satisfy;
* `Retry.send_followsPolicy` — every send satisfies it.
-/

namespace Outbox

/-! ## One attempt -/

namespace WriteOutcome

variable {limit : Nat} {o : WriteOutcome} {e : NetworkError}

/-- The write succeeds within so many milliseconds. -/
def Succeeds (limit : Nat) (o : WriteOutcome) : Prop :=
  ∃ time ≤ limit, o.ending? = some (time, none)

/-- The write does not succeed within so many milliseconds, and this is why. -/
inductive FailsWith (limit : Nat) (o : WriteOutcome) : NetworkError → Prop
  /-- It fails in time. -/
  | inTime {time : Nat} {e : NetworkError} (h : o.ending? = some (time, some e))
      (htime : time ≤ limit) : FailsWith limit o e
  /-- When the time is up it has not ended. -/
  | late (h : ∀ time failure, o.ending? = some (time, failure) → limit < time) :
      FailsWith limit o (.timeout (.ofMillis limit))

/-- How long an attempt takes: as long as the write, but no longer than the limit. -/
def lasts (limit : Nat) (o : WriteOutcome) : Nat :=
  match o.ending? with
  | some (time, _) => min time limit
  | none => limit

theorem failsWith_or_succeeds (limit : Nat) (o : WriteOutcome) :
    o.Succeeds limit ∨ ∃ e, o.FailsWith limit e := by
  rcases hending : o.ending? with _ | ⟨time, failure⟩
  · exact .inr ⟨_, .late (by simp [hending])⟩
  · by_cases htime : time ≤ limit
    · cases failure with
      | none => exact .inl ⟨time, htime, hending⟩
      | some e => exact .inr ⟨e, .inTime hending htime⟩
    · refine .inr ⟨_, .late ?_⟩
      intro t f h
      obtain ⟨rfl, -⟩ : time = t ∧ failure = f := by simpa [hending] using h
      omega

theorem exists_failsWith (h : ¬ o.Succeeds limit) : ∃ e, o.FailsWith limit e :=
  (failsWith_or_succeeds limit o).resolve_left h

end WriteOutcome

namespace Retry

open WriteOutcome

variable {limit : Nat} {o : WriteOutcome} {e : NetworkError}

theorem attempt_of_succeeds (h : o.Succeeds limit) :
    attempt (.ofMillis limit) o = (o.lasts limit, none) := by
  obtain ⟨time, htime, hending⟩ := h
  simp [attempt, lasts, hending, Duration.millis_ofMillis, htime]

theorem attempt_of_failsWith (h : o.FailsWith limit e) :
    attempt (.ofMillis limit) o = (o.lasts limit, some e) := by
  cases h with
  | inTime h htime => simp [attempt, lasts, h, Duration.millis_ofMillis, htime]
  | late h =>
    rcases hending : o.ending? with _ | ⟨time, failure⟩
    · simp [attempt, lasts, hending, Duration.millis_ofMillis]
    · have hlate := h time failure hending
      simp [attempt, lasts, hending, Duration.millis_ofMillis, Nat.not_le.mpr hlate, hlate.le]

/-! ## A send, attempt by attempt -/

/-- The settings of a sender in whole milliseconds. -/
def settingsOf (retries timeout backoff : Nat) : SendSettings :=
  ⟨retries, .ofMillis timeout, .ofMillis backoff⟩

/-- What the write does that comes after `k` others. -/
def outcome (script : List WriteOutcome) (k : Nat) : WriteOutcome := script.getD k .ok

theorem nextOutcome_drop (script : List WriteOutcome) (k : Nat) :
    nextOutcome (script.drop k) = (outcome script k, script.drop (k + 1)) := by
  rw [outcome, List.getD_eq_getElem?_getD, ← List.head?_drop, ← List.tail_drop]
  cases script.drop k <;> rfl

variable {retries timeout backoff total more now k : Nat} {script : List WriteOutcome}
  {resets : Nat → ResetOutcome}

theorem sendFrom_of_succeeds (h : (outcome script k).Succeeds timeout) :
    sendFrom (settingsOf retries timeout backoff) total more now (script.drop k) resets =
      { calls := [(now, .write)]
        finish := now + (outcome script k).lasts timeout
        failure := none
        left := script.drop (k + 1) } := by
  rw [sendFrom.eq_def]
  simp only [nextOutcome_drop, settingsOf, attempt_of_succeeds h]

theorem sendFrom_of_failsWith_zero (h : (outcome script k).FailsWith timeout e) :
    sendFrom (settingsOf retries timeout backoff) total 0 now (script.drop k) resets =
      { calls := [(now, .write), (now + (outcome script k).lasts timeout, .reset)]
        finish := now + (outcome script k).lasts timeout + (resets 0).millis
        failure := some (.retriesExhausted total e.message)
        left := script.drop (k + 1)
        resetFailures := (resets 0).failure.toList } := by
  rw [sendFrom.eq_def]
  simp only [nextOutcome_drop, settingsOf, attempt_of_failsWith h]

/-- The calls of an attempt that fails, the reset and the pause after it. -/
def round (begins lasts reset : Nat) : List (Nat × Call) :=
  [(begins, .write), (begins + lasts, .reset), (begins + lasts + reset, .pause)]

theorem sendFrom_of_failsWith_succ (h : (outcome script k).FailsWith timeout e) :
    sendFrom (settingsOf retries timeout backoff) total (more + 1) now (script.drop k) resets =
      let rest := sendFrom (settingsOf retries timeout backoff) total more
        (now + ((outcome script k).lasts timeout + (resets 0).millis + backoff))
        (script.drop (k + 1)) fun j => resets (j + 1)
      { rest with
        calls := round now ((outcome script k).lasts timeout) (resets 0).millis ++ rest.calls
        resetFailures := (resets 0).failure.toList ++ rest.resetFailures } := by
  rw [sendFrom.eq_def]
  simp only [nextOutcome_drop, settingsOf, attempt_of_failsWith h, Duration.millis_ofMillis,
    ← Nat.add_assoc]
  rfl

/-- When the attempt begins that comes after `k` others, all of which failed. -/
def begins (timeout backoff now : Nat) (script : List WriteOutcome)
    (resets : Nat → ResetOutcome) (k : Nat) : Nat :=
  now + ∑ j ∈ Finset.range k, ((outcome script j).lasts timeout + (resets j).millis + backoff)

/-- The calls of the first `k` attempts, all of which failed. -/
def rounds (timeout backoff now : Nat) (script : List WriteOutcome)
    (resets : Nat → ResetOutcome) (k : Nat) : List (Nat × Call) :=
  (List.range k).flatMap fun j => round (begins timeout backoff now script resets j)
    ((outcome script j).lasts timeout) (resets j).millis

/-- Why resets failed after the first `k` attempts. -/
def failuresOf (resets : Nat → ResetOutcome) (k : Nat) : List NetworkError :=
  (List.range k).flatMap fun j => (resets j).failure.toList

theorem failuresOf_succ (resets : Nat → ResetOutcome) (k : Nat) :
    failuresOf resets (k + 1) = failuresOf resets k ++ (resets k).failure.toList := by
  rw [failuresOf, List.range_succ, List.flatMap_append, List.flatMap_singleton, ← failuresOf]

/-- A send in which the first `k` attempts fail goes on like one that begins then and has as many
attempts less. -/
theorem sendFrom_after (hk : k ≤ more)
    (hfails : ∀ j < k, ¬ (outcome script j).Succeeds timeout) :
    sendFrom (settingsOf retries timeout backoff) total more now script resets =
      let rest := sendFrom (settingsOf retries timeout backoff) total (more - k)
        (begins timeout backoff now script resets k) (script.drop k) fun j => resets (j + k)
      { rest with
        calls := rounds timeout backoff now script resets k ++ rest.calls
        resetFailures := failuresOf resets k ++ rest.resetFailures } := by
  induction k with
  | zero => simp [begins, rounds, failuresOf]
  | succ k ih =>
    obtain ⟨e, he⟩ := exists_failsWith (hfails k (Nat.lt_succ_self k))
    obtain ⟨left, hleft⟩ : ∃ left, more - k = left + 1 := ⟨more - k - 1, by omega⟩
    rw [ih (by omega) fun j hj => hfails j (by omega), hleft, sendFrom_of_failsWith_succ he,
      show more - (k + 1) = left by omega]
    simp only [begins, rounds, failuresOf, Finset.sum_range_succ, List.range_succ,
      List.flatMap_append, List.flatMap_singleton, List.append_assoc, Nat.add_assoc, Nat.zero_add,
      Nat.add_comm 1]

/-! ## A whole send -/

/-- How often a send makes a call. -/
def SendRecord.count (r : SendRecord) (c : Call) : Nat := (r.calls.map Prod.snd).count c

theorem count_rounds (timeout backoff now : Nat) (script : List WriteOutcome)
    (resets : Nat → ResetOutcome) (k : Nat) (c : Call) :
    ((rounds timeout backoff now script resets k).map Prod.snd).count c = k := by
  induction k with
  | zero => rfl
  | succ k ih =>
    rw [rounds, List.range_succ, List.flatMap_append, List.map_append, List.count_append]
    refine congrArg₂ (· + ·) ih ?_
    cases c <;> rfl

theorem begins_eq (timeout backoff now : Nat) (script : List WriteOutcome)
    (resets : Nat → ResetOutcome) (k : Nat) :
    begins timeout backoff now script resets k =
      now + ∑ j ∈ Finset.range k, (outcome script j).lasts timeout + k * backoff +
        ∑ j ∈ Finset.range k, (resets j).millis := by
  simp only [begins, Finset.sum_add_distrib, Finset.sum_const, Finset.card_range, smul_eq_mul]
  ring

/-- A send whose first `k` attempts fail and whose next one succeeds. -/
theorem send_of_first (hk : k < max 1 retries) (hsucceeds : (outcome script k).Succeeds timeout)
    (hfails : ∀ j < k, ¬ (outcome script j).Succeeds timeout) :
    send (settingsOf retries timeout backoff) now script resets =
      { calls := rounds timeout backoff now script resets k ++
          [(begins timeout backoff now script resets k, .write)]
        finish := begins timeout backoff now script resets k + (outcome script k).lasts timeout
        failure := none
        left := script.drop (k + 1)
        resetFailures := failuresOf resets k } := by
  have hmore : k ≤ attempts (settingsOf retries timeout backoff) - 1 := Nat.le_sub_one_of_lt hk
  rw [send, sendFrom_after hmore hfails, sendFrom_of_succeeds hsucceeds]
  simp

/-- A send all of whose attempts fail, the last one, which comes after `k` others, with an
error. -/
theorem send_of_exhausted (hk : k + 1 = max 1 retries)
    (hlast : (outcome script k).FailsWith timeout e)
    (hfails : ∀ j < k, ¬ (outcome script j).Succeeds timeout) :
    send (settingsOf retries timeout backoff) now script resets =
      { calls := rounds timeout backoff now script resets k ++
          [(begins timeout backoff now script resets k, .write),
            (begins timeout backoff now script resets k + (outcome script k).lasts timeout,
              .reset)]
        finish := begins timeout backoff now script resets k +
          (outcome script k).lasts timeout + (resets k).millis
        failure := some (.retriesExhausted (max 1 retries) e.message)
        left := script.drop (k + 1)
        resetFailures := failuresOf resets (k + 1) } := by
  have hmore : attempts (settingsOf retries timeout backoff) - 1 = k := by
    show max 1 retries - 1 = k
    omega
  rw [send, hmore, sendFrom_after le_rfl hfails, Nat.sub_self, sendFrom_of_failsWith_zero hlast,
    failuresOf_succ, Nat.zero_add]
  rfl

/-- How a send goes that makes at most `max 1 retries` attempts of at most `timeout` milliseconds
each, with pauses of `backoff` milliseconds. -/
structure FollowsPolicy (retries timeout backoff now : Nat) (script : List WriteOutcome)
    (resets : Nat → ResetOutcome) (record : SendRecord) : Prop where
  /-- It succeeds exactly if one of the attempts does. -/
  succeeds_iff : record.failure = none ↔
    ∃ k < max 1 retries, (outcome script k).Succeeds timeout
  /-- If the first attempt that succeeds comes after `k` others, there are as many resets and
  pauses as attempts that failed. -/
  calls_first : ∀ k < max 1 retries, (outcome script k).Succeeds timeout →
    (∀ j < k, ¬ (outcome script j).Succeeds timeout) →
    record.count .write = k + 1 ∧ record.count .reset = k ∧ record.count .pause = k
  /-- It then takes as long as the attempts, the pauses and the resets. -/
  time_first : ∀ k < max 1 retries, (outcome script k).Succeeds timeout →
    (∀ j < k, ¬ (outcome script j).Succeeds timeout) →
    record.finish = now + ∑ j ∈ Finset.range (k + 1), (outcome script j).lasts timeout +
      k * backoff + ∑ j ∈ Finset.range k, (resets j).millis
  /-- If every attempt fails, there is a reset after each of them and a pause after each but the
  last. -/
  calls_exhausted : (∀ k < max 1 retries, ¬ (outcome script k).Succeeds timeout) →
    record.count .write = max 1 retries ∧ record.count .reset = max 1 retries ∧
      record.count .pause = max 1 retries - 1
  /-- It then takes as long as the attempts, the pauses and the resets. -/
  time_exhausted : (∀ k < max 1 retries, ¬ (outcome script k).Succeeds timeout) →
    record.finish = now + ∑ j ∈ Finset.range (max 1 retries), (outcome script j).lasts timeout +
      (max 1 retries - 1) * backoff + ∑ j ∈ Finset.range (max 1 retries), (resets j).millis
  /-- It then reports the number of attempts and why the last one failed. -/
  failure_exhausted : (∀ k < max 1 retries, ¬ (outcome script k).Succeeds timeout) →
    ∃ e, (outcome script (max 1 retries - 1)).FailsWith timeout e ∧
      record.failure = some (.retriesExhausted (max 1 retries) e.message)
  /-- It would have gone the same way if other resets had failed. -/
  resets_unimportant : ∀ resets' : Nat → ResetOutcome,
    (∀ k, (resets' k).millis = (resets k).millis) →
    ∃ failures, send (settingsOf retries timeout backoff) now script resets' =
      { record with resetFailures := failures }

theorem exists_first (h : ∃ k < max 1 retries, (outcome script k).Succeeds timeout) :
    ∃ k < max 1 retries, (outcome script k).Succeeds timeout ∧
      ∀ j < k, ¬ (outcome script j).Succeeds timeout := by
  classical
  have hspec := Nat.find_spec h
  exact ⟨Nat.find h, hspec.1, hspec.2, fun j hj hs => Nat.find_min h hj ⟨hj.trans hspec.1, hs⟩⟩

/-- Only one attempt can be the first that succeeds. -/
theorem first_unique {k j : Nat} (hk : (outcome script k).Succeeds timeout)
    (hk' : ∀ i < k, ¬ (outcome script i).Succeeds timeout)
    (hj : (outcome script j).Succeeds timeout)
    (hj' : ∀ i < j, ¬ (outcome script i).Succeeds timeout) : j = k := by
  rcases lt_trichotomy j k with h | h | h
  · exact absurd hj (hk' j h)
  · exact h
  · exact absurd hk (hj' k h)

theorem followsPolicy_of_first (hk : k < max 1 retries)
    (hsucceeds : (outcome script k).Succeeds timeout)
    (hfails : ∀ j < k, ¬ (outcome script j).Succeeds timeout) :
    FollowsPolicy retries timeout backoff now script resets
      (send (settingsOf retries timeout backoff) now script resets) := by
  have hsome : ¬ ∀ k < max 1 retries, ¬ (outcome script k).Succeeds timeout :=
    fun h => h k hk hsucceeds
  have hrecord (resets : Nat → ResetOutcome) :
      send (settingsOf retries timeout backoff) now script resets = _ :=
    send_of_first hk hsucceeds hfails
  refine ⟨?_, ?_, ?_, fun h => absurd h hsome, fun h => absurd h hsome, fun h => absurd h hsome,
    ?_⟩
  · rw [hrecord]
    exact ⟨fun _ => ⟨k, hk, hsucceeds⟩, fun _ => rfl⟩
  · intro j _ hj hj'
    obtain rfl := first_unique hsucceeds hfails hj hj'
    rw [hrecord]
    simp only [SendRecord.count, List.map_append, List.count_append, count_rounds]
    exact ⟨rfl, rfl, rfl⟩
  · intro j _ hj hj'
    obtain rfl := first_unique hsucceeds hfails hj hj'
    rw [hrecord, Finset.sum_range_succ]
    simp only [begins_eq]
    omega
  · intro resets' hsame
    refine ⟨failuresOf resets' k, ?_⟩
    rw [hrecord, hrecord]
    simp only [rounds, begins, hsame]

theorem followsPolicy_of_exhausted
    (hfails : ∀ k < max 1 retries, ¬ (outcome script k).Succeeds timeout) :
    FollowsPolicy retries timeout backoff now script resets
      (send (settingsOf retries timeout backoff) now script resets) := by
  have hnone : ¬ ∃ k < max 1 retries, (outcome script k).Succeeds timeout :=
    fun ⟨k, hk, h⟩ => hfails k hk h
  obtain ⟨k, hk⟩ : ∃ k, k + 1 = max 1 retries := ⟨max 1 retries - 1, by omega⟩
  obtain ⟨e, he⟩ := exists_failsWith (hfails k (by omega))
  have hrecord (resets : Nat → ResetOutcome) :
      send (settingsOf retries timeout backoff) now script resets = _ :=
    send_of_exhausted hk he fun j hj => hfails j (by omega)
  refine ⟨?_, fun j hj h => absurd h (hfails j hj), fun j hj h => absurd h (hfails j hj),
    fun _ => ?_, fun _ => ?_, fun _ => ⟨e, ?_, ?_⟩, ?_⟩
  · rw [hrecord]
    exact ⟨fun h => absurd h (by simp), fun h => absurd h hnone⟩
  · rw [hrecord, ← hk]
    simp only [SendRecord.count, List.map_append, List.count_append, count_rounds]
    exact ⟨rfl, rfl, rfl⟩
  · rw [hrecord, ← hk, Finset.sum_range_succ, Finset.sum_range_succ]
    simp only [begins_eq, Nat.add_sub_cancel]
    omega
  · rwa [← hk, Nat.add_sub_cancel]
  · rw [hrecord]
  · intro resets' hsame
    refine ⟨failuresOf resets' (k + 1), ?_⟩
    rw [hrecord, hrecord]
    simp only [rounds, begins, hsame]

/-- **A send follows its policy**, whatever its settings, what the writes do and what the resets
do. -/
theorem send_followsPolicy (retries timeout backoff now : Nat) (script : List WriteOutcome)
    (resets : Nat → ResetOutcome) :
    FollowsPolicy retries timeout backoff now script resets
      (send (settingsOf retries timeout backoff) now script resets) := by
  by_cases h : ∃ k < max 1 retries, (outcome script k).Succeeds timeout
  · obtain ⟨k, hk, hsucceeds, hfails⟩ := exists_first h
    exact followsPolicy_of_first hk hsucceeds hfails
  · exact followsPolicy_of_exhausted fun k hk hs => h ⟨k, hk, hs⟩

end Retry

end Outbox
