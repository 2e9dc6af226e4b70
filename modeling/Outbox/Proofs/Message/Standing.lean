import Outbox.Proofs.Message.Part
import Outbox.Proofs.Message.Shelf

/-!
# What requests contribute to a builder

A builder does not know for which request a block was added.  Where every block comes with a
present link of the request it was added for, it can be told nevertheless: the contributions of a
block are the requests' blocks under its link that have not been scrubbed, and the responses that
call the block present are as many.

* `Contribution` — an edit, or a block with the request it is added for, with `Contribution.Fits`;
* `Standing`, `Standing.after` — what requests have sent and called present and not lost by a scrub;
* `Responsive` — histories in which blocks and present links come together, with
  `Responsive.append` and `Responsive.paired`;
* `Builder.Shows` — the builder is as the standing contributions say, with `Builder.Shows.step`;
* `Builder.Shows.size_eq` — the size is what requests still contribute.
-/

namespace Outbox

/-! ## Histories -/

/-- One entry of a history that tells for whom a block is added. -/
inductive Contribution where
  /-- A block is added for a request. -/
  | send (r : RequestId) (block : Block)
  /-- Any other edit. -/
  | edit (e : Edit)

namespace Contribution

/-- What the builder is asked to do. -/
def toEdit : Contribution → Edit
  | .send _ block => .addBlock block
  | .edit e => e

/-- The request and the link of a block that is added. -/
def sent? : Contribution → Option (RequestId × Link)
  | .send r block => some (r, block.link)
  | _ => none

/-- The request and the link of a block that is called present. -/
def present? : Contribution → Option (RequestId × Link)
  | .edit (.addLink r link .present) => some (r, link)
  | _ => none

end Contribution

/-- It is said of a block for whom it is added, and it has the payload that goes with its link. -/
def Contribution.Fits (payload : Link → ByteArray) : Contribution → Prop
  | .send _ block => block.payload = payload block.link
  | .edit (.addBlock _) => False
  | .edit _ => True

/-- A history in which every block comes together with a present link of the request it is added
for, there are no other present links, and links determine payloads. -/
structure Responsive (payload : Link → ByteArray) (history : List Contribution) : Prop where
  /-- It is said of each block for whom it is added, and equal links carry equal payloads. -/
  fits : ∀ x ∈ history, x.Fits payload
  /-- When requests are scrubbed, and at the end, the blocks added are those called present. -/
  together : ∀ past future, history = past ++ future →
    (future = [] ∨ ∃ rs rest, future = .edit (.scrub rs) :: rest) →
    (past.filterMap Contribution.sent?).Perm (past.filterMap Contribution.present?)

/-! ## What stands -/

/-- What requests have contributed and not lost by a scrub. -/
structure Standing where
  /-- The blocks added, with the request each is for. -/
  sent : List (RequestId × Block) := []
  /-- The links called present, with the request that says so. -/
  present : List (RequestId × Link) := []

namespace Standing

/-- What stands without the contributions of the given requests. -/
def without (s : Standing) (rs : List RequestId) : Standing where
  sent := s.sent.filter (fun c => c.1 ∉ rs)
  present := s.present.filter (fun m => m.1 ∉ rs)

/-- What stands after one more entry. -/
def next (s : Standing) : Contribution → Standing
  | .send r block => { s with sent := s.sent ++ [(r, block)] }
  | .edit (.addLink r link .present) => { s with present := s.present ++ [(r, link)] }
  | .edit (.scrub rs) => s.without rs
  | .edit _ => s

/-- What stands after a history. -/
def after (history : List Contribution) : Standing := history.foldl next {}

/-- The links of the blocks that stand, with their requests. -/
def links (s : Standing) : List (RequestId × Link) := s.sent.map (fun c => (c.1, c.2.link))

/-- The blocks that stand are those called present. -/
def Paired (s : Standing) : Prop := s.links.Perm s.present

/-- How often a block stands under a link. -/
def copies (s : Standing) (link : Link) : Nat := s.sent.countP (fun c => c.2.link = link)

variable {s : Standing} {rs : List RequestId} {link : Link} {history : List Contribution}

theorem after_concat (history : List Contribution) (x : Contribution) :
    after (history ++ [x]) = (after history).next x := by
  rw [after, List.foldl_concat, after]

theorem without_nil (s : Standing) : s.without [] = s := by
  simp [without]

theorem links_without (s : Standing) (rs : List RequestId) :
    (s.without rs).links = s.links.filter (fun m => m.1 ∉ rs) := by
  simp only [links, without, List.filter_map]
  rfl

theorem Paired.without (h : s.Paired) (rs : List RequestId) : (s.without rs).Paired := by
  unfold Paired
  rw [links_without]
  exact h.filter _

/-- As often as a block is called present under a link, it stands there. -/
theorem Paired.countP_present (h : s.Paired) (rs : List RequestId) (link : Link) :
    s.present.countP (fun m => m.1 ∉ rs ∧ m.2 = link) = (s.without rs).copies link := by
  rw [← h.countP_eq, links, List.countP_map, copies, Standing.without, List.countP_filter]
  refine List.countP_congr fun c _ => ?_
  simp [and_comm]

end Standing

/-- What stands differs from what was added and called present only by what came in pairs. -/
theorem Standing.count_after {history : List Contribution}
    (htogether : ∀ past rs rest, history = past ++ .edit (.scrub rs) :: rest →
      (past.filterMap Contribution.sent?).Perm (past.filterMap Contribution.present?))
    (x : RequestId × Link) :
    (after history).links.count x + (history.filterMap Contribution.present?).count x =
      (after history).present.count x + (history.filterMap Contribution.sent?).count x := by
  induction history using List.reverseRecOn with
  | nil => rfl
  | append_singleton past entry ih =>
    have ih := ih fun past' rs rest hpast => htogether past' rs (rest ++ [entry]) (by simp [hpast])
    rw [after_concat, List.filterMap_append, List.filterMap_append, List.count_append,
      List.count_append]
    cases entry with
    | send r block =>
      simp only [next, links, List.map_append, List.count_append] at ih ⊢
      show _ + _ + (_ + 0) = _ + (_ + [(r, block.link)].count x)
      simp only [List.map_cons, List.map_nil]
      omega
    | edit e =>
      cases e with
      | addLink r link action =>
        cases action with
        | present =>
          simp only [next, links, List.count_append] at ih ⊢
          show _ + (_ + [(r, link)].count x) = _ + (_ + 0)
          omega
        | _ => exact ih
      | scrub rs =>
        -- what was added and what was called present are the same now, so the same is lost
        have hpairs := (htogether past rs [] rfl).count_eq x
        show ((after past).without rs).links.count x + (_ + 0) =
          ((after past).without rs).present.count x + (_ + 0)
        rw [links_without]
        by_cases hx : x.1 ∈ rs
        · have hlinks : x ∉ (after past).links.filter (fun m => m.1 ∉ rs) := by simp [hx]
          have hpresent : x ∉ ((after past).without rs).present := by simp [Standing.without, hx]
          rw [List.count_eq_zero_of_not_mem hlinks, List.count_eq_zero_of_not_mem hpresent]
          omega
        · rw [Standing.without, List.count_filter (by simp [hx]), List.count_filter (by simp [hx])]
          exact ih
      | _ => exact ih

namespace Responsive

variable {payload : Link → ByteArray} {history : List Contribution}

/-- When requests are scrubbed, and at the end, the blocks that stand are those called present. -/
theorem paired (h : Responsive payload history) {past future : List Contribution}
    (hsplit : history = past ++ future)
    (hfuture : future = [] ∨ ∃ rs rest, future = .edit (.scrub rs) :: rest) :
    (Standing.after past).Paired := by
  refine List.perm_iff_count.mpr fun x => ?_
  have hbefore : ∀ past' rs rest, past = past' ++ .edit (.scrub rs) :: rest →
      (past'.filterMap Contribution.sent?).Perm (past'.filterMap Contribution.present?) :=
    fun past' rs rest hpast => h.together past' (.edit (.scrub rs) :: rest ++ future)
      (by rw [hsplit, hpast, List.append_assoc]) (.inr ⟨rs, rest ++ future, rfl⟩)
  have hcount := Standing.count_after hbefore x
  have hpairs := (h.together past future hsplit hfuture).count_eq x
  omega

theorem nil (payload : Link → ByteArray) : Responsive payload [] where
  fits x hx := by cases hx
  together past future hsplit _ := by
    rw [(List.append_eq_nil_iff.mp hsplit.symm).1]
    rfl

/-- More entries with their present links; a scrub may only come first. -/
theorem append (h : Responsive payload history) {more : List Contribution}
    (hfits : ∀ x ∈ more, x.Fits payload)
    (hpairs : (more.filterMap Contribution.sent?).Perm (more.filterMap Contribution.present?))
    (hscrub : ∀ rs, .edit (.scrub rs) ∉ more.tail) : Responsive payload (history ++ more) where
  fits x hx := (List.mem_append.mp hx).elim (h.fits x) (hfits x)
  together past future hsplit hfuture := by
    obtain ⟨rest, hpast, hmore⟩ | ⟨rest, hhistory, hrest⟩ :=
      List.append_eq_append_iff.mp hsplit
    · subst hpast
      rw [List.filterMap_append, List.filterMap_append]
      refine (h.together history [] (List.append_nil _).symm (.inl rfl)).append ?_
      rcases hfuture with rfl | ⟨rs, later, rfl⟩
      · rw [List.append_nil] at hmore
        exact hmore ▸ hpairs
      · -- what comes before the scrub is nothing
        cases rest with
        | nil => rfl
        | cons x rest => exact absurd (by simp [hmore]) (hscrub rs)
    · refine h.together past rest hhistory ?_
      cases rest with
      | nil => exact .inl rfl
      | cons x rest =>
        rcases hfuture with hnil | ⟨rs, later, hlater⟩
        · rw [hnil] at hrest
          cases hrest
        · rw [hlater] at hrest
          obtain ⟨hx, -⟩ := List.cons.inj hrest
          exact .inr ⟨rs, rest, by rw [hx]⟩

end Responsive

namespace Builder

/-! ## What the builder shows -/

/-- Blocks and present links of the builder are what stands. -/
structure Shows (payload : Link → ByteArray) (b : Builder) (s : Standing) : Prop where
  /-- The blocks that stand have the payloads of their links. -/
  payloads : ∀ c ∈ s.sent, c.2.payload = payload c.2.link
  /-- A block is stored with as many contributions as there are blocks that stand. -/
  stored : ∀ link, stored? b.blocks link =
    if 0 < s.copies link then some ⟨⟨link, payload link⟩, s.copies link⟩ else none
  /-- A link is called present as often as that stands, whichever requests are looked at. -/
  present : ∀ rs link, (b.forget rs).presentCount link =
    s.present.countP (fun m => m.1 ∉ rs ∧ m.2 = link)

theorem shows_new (payload : Link → ByteArray) (t : Topic) : Shows payload { topic := t } {} where
  payloads c hc := by cases hc
  stored link := rfl
  present rs link := rfl

variable {payload : Link → ByteArray} {b : Builder} {s : Standing} {rs : List RequestId}

/-- How often a link is called present is a weight of what is said about links. -/
theorem presentCount_eq_weigh (b : Builder) (link : Link) : b.presentCount link =
    b.links.weigh (List.countP fun e => e.link = link ∧ e.action = .present) := by
  rw [presentCount, List.countP_flatten, Dict.values, List.map_map]
  rfl

/-- Only what is said about links decides how often a link is called present. -/
theorem presentCount_congr {b b' : Builder} (h : b.links = b'.links) (link : Link) :
    b.presentCount link = b'.presentCount link := by
  rw [presentCount, h, presentCount]

/-- Forgetting requests one after the other is forgetting them all. -/
theorem presentCount_forget_forget (b : Builder) (rs rs' : List RequestId) (link : Link) :
    ((b.forget rs).forget rs').presentCount link = (b.forget (rs ++ rs')).presentCount link :=
  presentCount_congr (b.links.eraseAll_eraseAll rs rs') link

/-- Without requests nothing is forgotten. -/
theorem presentCount_forget_nil (b : Builder) (link : Link) :
    (b.forget []).presentCount link = b.presentCount link :=
  presentCount_congr (b.links.eraseAll_eq_self fun _ hr => absurd hr List.not_mem_nil) link

/-- Forgetting requests never makes a link be called present more often. -/
theorem presentCount_forget_le (b : Builder) (rs : List RequestId) (link : Link) :
    (b.forget rs).presentCount link ≤ b.presentCount link := by
  rw [presentCount_eq_weigh, presentCount_eq_weigh]
  exact b.links.weigh_eraseAll_le rs

/-- A link is called present if some response says so. -/
theorem presentCount_pos_iff (b : Builder) (link : Link) : 0 < b.presentCount link ↔
    ∃ r said, b.links.get? r = some said ∧ ⟨link, .present⟩ ∈ said := by
  rw [presentCount_eq_weigh, Dict.weigh_pos_iff]
  constructor
  · rintro ⟨said, hsaid, hpos⟩
    obtain ⟨r, hr⟩ := Dict.mem_values.mp hsaid
    obtain ⟨⟨link', action⟩, hentry, hpresent⟩ := List.countP_pos_iff.mp hpos
    obtain ⟨rfl, rfl⟩ := of_decide_eq_true hpresent
    exact ⟨r, said, hr, hentry⟩
  · rintro ⟨r, said, hr, hentry⟩
    exact ⟨said, Dict.mem_values.mpr ⟨r, hr⟩,
      List.countP_pos_iff.mpr ⟨_, hentry, decide_eq_true ⟨rfl, rfl⟩⟩⟩

/-- One more thing said about a link counts, unless its request is forgotten. -/
theorem presentCount_addLink (b : Builder) (rs : List RequestId) (r : RequestId) (l link : Link)
    (action : LinkAction) :
    ((b.addLink r l action).forget rs).presentCount link =
      (b.forget rs).presentCount link +
        if r ∉ rs ∧ l = link ∧ action = .present then 1 else 0 := by
  let said (o : Option (List LinkEntry)) : List LinkEntry := o.getD [] ++ [⟨l, action⟩]
  by_cases hr : r ∈ rs
  · have hlinks : ((b.addLink r l action).forget rs).links = (b.forget rs).links :=
      b.links.eraseAll_update_of_mem hr said
    rw [presentCount_congr hlinks, if_neg (fun hand => hand.1 hr), Nat.add_zero]
  · have hlinks : ((b.addLink r l action).forget rs).links = (b.forget rs).links.update r said :=
      b.links.eraseAll_update_of_not_mem hr said
    have hweigh := (b.forget rs).links.weigh_update r said
      (w := List.countP fun e => e.link = link ∧ e.action = .present)
    have hat : (b.forget rs).links.weighAt
        (List.countP fun e => e.link = link ∧ e.action = .present) r =
          (((b.forget rs).links.get? r).getD []).countP
            (fun e => e.link = link ∧ e.action = .present) := by
      unfold Dict.weighAt
      cases (b.forget rs).links.get? r <;> rfl
    rw [hat, List.countP_append, List.countP_singleton] at hweigh
    rw [presentCount_eq_weigh, presentCount_eq_weigh, hlinks]
    simp only [hr, not_false_eq_true, true_and, decide_eq_true_eq] at hweigh ⊢
    omega

/-- Nothing is said about links for requests without a response. -/
theorem forget_links_of_untouched (h : ¬ rs.any b.hasResponse = true) :
    (b.forget rs).links = b.links := by
  refine Dict.eraseAll_eq_self fun r hr => ?_
  have hnone : b.hasResponse r = false := by
    simpa using List.any_eq_false.mp (Bool.not_eq_true _ ▸ h) r hr
  simp only [hasResponse, Bool.or_eq_false_iff] at hnone
  simpa [Dict.contains] using hnone.1.1

namespace Shows

/-- A block is added. -/
theorem send (h : b.Shows payload s) {r : RequestId} {block : Block}
    (hpayload : block.payload = payload block.link) :
    (b.addBlock block).Shows payload (s.next (.send r block)) := by
  refine ⟨?_, fun link => ?_, h.present⟩
  · intro c hc
    rcases List.mem_append.mp hc with hc | hc
    · exact h.payloads c hc
    · rw [List.mem_singleton.mp hc]
      exact hpayload
  · have hcopies : (s.next (.send r block)).copies link =
        s.copies link + if block.link = link then 1 else 0 := by
      simp [Standing.next, Standing.copies, List.countP_append, List.countP_cons]
    show stored? (store block b.blocks) link = _
    rw [stored?_store, h.stored, hcopies]
    by_cases hl : link = block.link
    · subst hl
      rw [if_pos rfl, if_pos rfl, if_pos (Nat.succ_pos _)]
      by_cases hzero : 0 < s.copies block.link
      · rw [if_pos hzero]
        rfl
      · rw [if_neg hzero, Option.elim_none, Nat.eq_zero_of_not_pos hzero, ← hpayload]
    · rw [if_neg hl, if_neg (Ne.symm hl), Nat.add_zero]

/-- Something is said about a link. -/
theorem addLink (h : b.Shows payload s) (r : RequestId) (l : Link) (action : LinkAction) :
    (b.addLink r l action).Shows payload (s.next (.edit (.addLink r l action))) := by
  cases action with
  | present =>
    refine ⟨h.payloads, h.stored, fun rs link => ?_⟩
    rw [presentCount_addLink, h.present]
    simp [Standing.next, List.countP_append, List.countP_cons]
  | _ =>
    refine ⟨h.payloads, h.stored, fun rs link => ?_⟩
    rw [presentCount_addLink, h.present]
    simp [Standing.next]

/-- Requests are scrubbed when blocks and present links have come together. -/
theorem scrub (h : b.Shows payload s) (hpaired : s.Paired) (rs : List RequestId) :
    (b.scrub rs).Shows payload (s.without rs) := by
  have hpayloads : ∀ c ∈ (s.without rs).sent, c.2.payload = payload c.2.link := fun c hc =>
    h.payloads c (List.mem_of_mem_filter hc)
  have hleft : ∀ link, (b.forget rs).presentCount link = (s.without rs).copies link := by
    intro link
    rw [h.present, hpaired.countP_present]
  have hpresent : ∀ link, b.presentCount link =
      s.present.countP (fun m => m.1 ∉ ([] : List RequestId) ∧ m.2 = link) := fun link => by
    rw [← h.present, presentCount_forget_nil]
  refine ⟨hpayloads, fun link => ?_, fun rs' link => ?_⟩
  · have hle : (s.without rs).copies link ≤ s.copies link := by
      exact List.filter_sublist.countP_le
    unfold Builder.scrub
    simp only
    split
    · rw [stored?_recount, hleft]
      by_cases hpos : 0 < (s.without rs).copies link
      · have hstored := h.stored link
        rw [if_pos (lt_of_lt_of_le hpos hle)] at hstored
        show (if _ then (stored? b.blocks link).map _ else none) = _
        rw [if_pos hpos, if_pos hpos, hstored, Option.map_some, StoredBlock.capped,
          Nat.min_eq_right hle]
      · rw [if_neg hpos, if_neg hpos]
    · -- nothing is said about links for the requests, so they have sent no block
      rename_i huntouched
      have hall : (s.without rs).copies link = s.copies link := by
        rw [← hleft, presentCount_congr (forget_links_of_untouched huntouched), hpresent,
          hpaired.countP_present, Standing.without_nil]
      rw [hall]
      exact h.stored link
  · have hlinks : (b.scrub rs).links = (b.forget rs).links := b.scrub_links rs
    have hsame : ((b.scrub rs).forget rs').links = ((b.forget rs).forget rs').links :=
      congrArg (Dict.eraseAll · rs') hlinks
    rw [presentCount_congr hsame, presentCount_forget_forget, h.present, Standing.without,
      List.countP_filter]
    refine List.countP_congr fun m _ => ?_
    simp only [List.mem_append, not_or, Bool.and_eq_true, decide_eq_true_eq]
    tauto

/-- One more entry of a history; at a scrub blocks and present links have to be paired. -/
theorem step (h : b.Shows payload s) {x : Contribution} (hfits : x.Fits payload)
    (hpaired : ∀ rs, x = .edit (.scrub rs) → s.Paired) :
    (b.apply x.toEdit).Shows payload (s.next x) := by
  cases x with
  | send r block => exact h.send hfits
  | edit e =>
    cases e with
    | addBlock block => exact hfits.elim
    | addLink r l action => exact h.addLink r l action
    | scrub rs => exact h.scrub (hpaired rs rfl) rs
    | _ => exact ⟨h.payloads, h.stored, h.present⟩

/-- The size is what requests still contribute. -/
theorem size_eq (h : b.Shows payload s) (ht : b.Tidy)
    (ha : b.Accounted (fun link => (payload link).size)) :
    b.size = (s.sent.map (fun c => c.2.size)).sum := by
  let sent : List Link := s.sent.map (fun c => c.2.link)
  have hcount : ∀ link, sent.count link = s.copies link := fun link => by
    rw [List.count, List.countP_map, Standing.copies]
    exact List.countP_congr fun c _ => by simp
  have hkeys : (blockLinks b.blocks).toFinset = sent.toFinset := by
    ext link
    rw [List.mem_toFinset, List.mem_toFinset, ← not_iff_not, ← stored?_eq_none_iff, h.stored,
      ← List.count_eq_zero, hcount]
    by_cases hpos : 0 < s.copies link
    · simp [hpos, Nat.pos_iff_ne_zero.mp hpos]
    · simp [Nat.eq_zero_of_not_pos hpos]
  calc b.size = (b.blocks.map StoredBlock.reserved).sum := ha.size
    _ = ∑ link ∈ sent.toFinset, (stored? b.blocks link).elim 0 StoredBlock.reserved := by
        rw [← sum_links ht.nodup, hkeys]
    _ = ∑ link ∈ sent.toFinset, sent.count link • (payload link).size := by
        refine Finset.sum_congr rfl fun link _ => ?_
        rw [h.stored, hcount]
        by_cases hpos : 0 < s.copies link
        · rw [if_pos hpos, Option.elim_some, StoredBlock.reserved, smul_eq_mul, Nat.mul_comm]
          rfl
        · rw [if_neg hpos, Nat.eq_zero_of_not_pos hpos, zero_smul]
          rfl
    _ = (sent.map (fun link => (payload link).size)).sum :=
        (Finset.sum_list_map_count sent _).symm
    _ = (s.sent.map (fun c => c.2.size)).sum := by
        rw [List.map_map]
        refine congrArg List.sum (List.map_congr_left fun c hc => ?_)
        rw [Function.comp_apply, Block.size, h.payloads c hc]

end Shows

end Builder

end Outbox
