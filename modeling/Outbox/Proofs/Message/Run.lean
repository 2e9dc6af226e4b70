import Outbox.Message.Run
import Outbox.Proofs.Message.Size

/-!
# Runs of a backlog, move by move

A move opens a builder, carries edits out on the last one, scrubs all of them or lets some go.  So
what every new builder has, and what edits and scrubs keep, is true of all builders in line after
any run; and the topics of the builders in line are always in the order in which they were handed
out.

* `Backlog.Moved` — what a move can lead to, with `Backlog.step_moved` saying that nothing else can;
* `Backlog.mem_step` — where the builders come from that stand in line after a move;
* `Backlog.forall_mem_run` — what edits and scrubs keep is true of all builders in line;
* `BacklogMove.IsEven`, `Backlog.accounted_run` — where links determine lengths, sizes are right;
* `Backlog.follows_step`, `Backlog.comesAfter_run` — the topics in line are in order.
-/

namespace Outbox

/-- A move that gives blocks with the same link the same length. -/
def BacklogMove.IsEven (len : Link → Nat) : BacklogMove → Prop
  | .mutate _ edits => ∀ e ∈ edits, e.IsEven len
  | _ => True

namespace Backlog

variable {q : Backlog} {m : BacklogMove} {moves : List BacklogMove} {b : Builder}

@[simp] theorem run_cons (q : Backlog) (m : BacklogMove) (moves : List BacklogMove) :
    q.run (m :: moves) = (q.step m).run moves := rfl

/-! ## One move -/

/-- What a move can lead to. -/
inductive Moved (q : Backlog) : BacklogMove → Backlog → Prop
  /-- Edits are carried out. -/
  | mutated {size : Nat} {edits : List Edit} {report : EditReport} {q' : Backlog}
      (hm : Mutation q size edits (.ok (report, q'))) : Moved q (.mutate size edits) q'
  /-- Edits are refused, and nothing changes. -/
  | refused {size : Nat} {edits : List Edit} {error : QueueError}
      (hm : Mutation q size edits (.error error)) : Moved q (.mutate size edits) q
  /-- The first builder is taken. -/
  | popped {b : Builder} {rest : List Builder} (hb : q.builders = b :: rest) :
      Moved q .pop { q with builders := rest }
  /-- There is no builder to take. -/
  | idle (hb : q.builders = []) : Moved q .pop q
  /-- Requests are scrubbed. -/
  | scrubbed (rs : List RequestId) : Moved q (.scrub rs) (q.scrub rs)
  /-- The line is closed. -/
  | closed : Moved q .close q.close

/-- A move leads to nothing else. -/
theorem step_moved (q : Backlog) (m : BacklogMove) : Moved q m (q.step m) := by
  cases m with
  | mutate size edits =>
    have hm := q.mutate_mutation size edits
    rw [step]
    split
    · rename_i hresult
      exact .mutated (hresult ▸ hm)
    · rename_i hresult
      exact .refused (hresult ▸ hm)
  | pop =>
    rw [step, pop?]
    split
    · rename_i hb
      exact .idle hb
    · rename_i hb
      exact .popped hb
  | scrub rs => exact .scrubbed rs
  | close => exact .closed

/-- A builder in line after a move was there before, or a move was made with it. -/
theorem mem_step (h : b ∈ (q.step m).builders) :
    b ∈ q.builders ∨
      (∃ size edits b', m = .mutate size edits ∧ b = b'.applyAll edits ∧
        (b' ∈ q.builders ∨ ∃ t, b' = { topic := t })) ∨
      ∃ rs, m = .scrub rs ∧ ∃ b' ∈ q.builders, b = b'.scrub rs := by
  have hmoved := q.step_moved m
  generalize q.step m = q' at hmoved h
  cases hmoved with
  | @mutated size edits report q' hm =>
    cases hm with
    | @join front b' hb hfit =>
      rcases List.mem_append.mp h with hfront | hlast
      · exact .inl (hb ▸ List.mem_append_left _ hfront)
      · exact .inr (.inl ⟨size, edits, b', rfl, List.mem_singleton.mp hlast,
          .inl (hb ▸ List.mem_append_right _ (List.mem_singleton_self b'))⟩)
    | @begin t hnew ht =>
      rcases List.mem_append.mp h with hold | hlast
      · exact .inl hold
      · exact .inr (.inl ⟨size, edits, _, rfl, List.mem_singleton.mp hlast, .inr ⟨t, rfl⟩⟩)
  | popped hb => exact .inl (hb ▸ List.mem_cons_of_mem _ h)
  | scrubbed rs =>
    obtain ⟨⟨b', hb', hscrub⟩, -⟩ := mem_scrub.mp h
    exact .inr (.inr ⟨rs, rfl, b', hb', hscrub.symm⟩)
  | closed => cases h
  | _ => exact .inl h

/-- A move opens at most one new builder, with the next topic, behind those that stay. -/
theorem follows_step (q : Backlog) (m : BacklogMove) : q.Follows (q.step m) := by
  have hmoved := q.step_moved m
  generalize q.step m = q' at hmoved
  cases hmoved with
  | mutated hm => exact hm.follows
  | popped hb =>
    refine .inl ⟨?_, rfl⟩
    simp [topics, hb]
  | scrubbed rs => exact q.follows_scrub rs
  | closed => exact .inl ⟨List.nil_sublist _, rfl⟩
  | _ => exact Follows.refl q

/-! ## Many moves -/

/-- What new builders have, and what edits and scrubs keep, all builders in line have. -/
theorem forall_mem_run {P : Builder → Prop} (hnew : ∀ t, P { topic := t })
    (hedits : ∀ size edits, .mutate size edits ∈ moves → ∀ b, P b → P (b.applyAll edits))
    (hscrub : ∀ rs b, P b → P (b.scrub rs)) (h : ∀ b ∈ q.builders, P b) :
    ∀ b ∈ (q.run moves).builders, P b := by
  induction moves generalizing q with
  | nil => exact h
  | cons m rest ih =>
    refine ih (fun size edits hmem => hedits size edits (List.mem_cons_of_mem _ hmem)) ?_
    intro b hb
    rcases mem_step hb with hold | ⟨size, edits, b', rfl, rfl, hb'⟩ | ⟨rs, rfl, b', hb', rfl⟩
    · exact h b hold
    · refine hedits size edits (List.mem_cons_self ..) b' ?_
      rcases hb' with hb' | ⟨t, rfl⟩
      · exact h b' hb'
      · exact hnew t
    · exact hscrub rs b' (h b' hb')

/-- Where links determine lengths, every builder in line has its size. -/
theorem accounted_run {len : Link → Nat} (next : Option Topic)
    (h : ∀ m ∈ moves, m.IsEven len) :
    (({ nextTopic := next } : Backlog).run moves).Accounted len :=
  forall_mem_run Builder.accounted_new
    (fun _ _ hmem _ hb => hb.applyAll_of_isEven (h _ hmem)) (fun rs _ hb => (hb.scrub rs).1)
    (fun _ hb => absurd hb List.not_mem_nil)

/-- The topics in line only increase, and the next topic comes after them. -/
theorem comesAfter_run (h : q.ComesAfter []) (moves : List BacklogMove) :
    (q.run moves).ComesAfter [] := by
  induction moves generalizing q with
  | nil => exact h
  | cons m rest ih => exact ih (h.follows (q.follows_step m))

end Backlog

end Outbox
