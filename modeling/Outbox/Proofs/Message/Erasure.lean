import Outbox.Proofs.Message.Standing

/-!
# Scrubbing erases

A scrub leaves the builder that would be there had the requests never contributed anything: the
same is filed under every request, the same blocks are stored with the same contributions, in
another order perhaps, and the size is the same.  What the scrub frees is what the requests still
contributed.

* `Contribution.concerns`, `historyWithout` — histories without given requests;
* `Standing.next_without` — what stands without requests is what stands in the history without them;
* `Builder.part_historyWithout`, `Builder.part_historyWithout_of_mem` — what is filed under the
  other requests, and under the requests that are gone;
* `Builder.shows_after` — both builders are as the standing contributions say;
* `Builder.Alike`, `Builder.scrub_erases` — the scrubbed builder and the builder of the history
  without the requests.
-/

namespace Outbox

/-! ## Histories without some requests -/

/-- The request that an edit is about, if it is about one. -/
def Edit.request? : Edit → Option RequestId
  | .addLink r _ _ => some r
  | .setStatus r _ => some r
  | .setExtension r _ _ => some r
  | .addRecord r _ => some r
  | .setStream r _ => some r
  | .addNotifee r _ => some r
  | .askResponse r => some r
  | _ => none

/-- An edit that files something under a request is about the request. -/
theorem Edit.request?_of_isFor {e : Edit} {r : RequestId} (h : e.isFor r = true) :
    e.request? = some r := by
  cases e <;> first | exact congrArg some (of_decide_eq_true h) | cases h

/-- The request that an entry is about, if it is about one. -/
def Contribution.request? : Contribution → Option RequestId
  | .send r _ => some r
  | .edit e => e.request?

/-- The entry is about one of the given requests. -/
def Contribution.concerns (ids : List RequestId) (x : Contribution) : Bool :=
  x.request?.any (· ∈ ids)

/-- The history without everything that is done for the given requests. A scrub is nobody's: it
stays, and finds nothing of them. -/
def historyWithout (ids : List RequestId) (history : List Contribution) : List Contribution :=
  history.filter (fun x => !x.concerns ids)

/-- The builder after a history. -/
def Builder.after (b : Builder) (history : List Contribution) : Builder :=
  b.applyAll (history.map Contribution.toEdit)

variable {ids : List RequestId} {r : RequestId} {payload : Link → ByteArray} {x : Contribution}

/-- A block that has the payload of its link has the length that goes with the link. -/
theorem Contribution.Fits.isEven (hx : x.Fits payload) :
    x.toEdit.IsEven (fun link => (payload link).size) := by
  cases x with
  | send r block => exact congrArg ByteArray.size hx
  | edit e =>
    cases e with
    | addBlock block => exact hx.elim
    | _ => trivial

/-! ## What stands -/

/-- What is done for the requests does not stand without them. -/
theorem Standing.without_next_of_concerns (h : x.concerns ids = true) (s : Standing) :
    (s.next x).without ids = s.without ids := by
  cases x with
  | send r block =>
    have hr : r ∈ ids := by simpa [Contribution.concerns, Contribution.request?] using h
    simp [next, without, hr]
  | edit e =>
    cases e with
    | addLink r link action =>
      have hr : r ∈ ids := by
        simpa [Contribution.concerns, Contribution.request?, Edit.request?] using h
      cases action <;> simp [next, without, hr]
    | scrub rs => cases h
    | _ => rfl

/-- What stands in the history without some requests is what stands without them. -/
theorem Standing.next_without (h : x.concerns ids = false) (s : Standing) :
    (s.without ids).next x = (s.next x).without ids := by
  cases x with
  | send r block =>
    have hr : r ∉ ids := by simpa [Contribution.concerns, Contribution.request?] using h
    simp [next, without, hr]
  | edit e =>
    cases e with
    | addLink r link action =>
      have hr : r ∉ ids := by
        simpa [Contribution.concerns, Contribution.request?, Edit.request?] using h
      cases action <;> simp [next, without, hr]
    | scrub rs =>
      -- what is dropped in one order is dropped in the other
      simp only [next, without, List.filter_filter, Bool.and_comm]
    | _ => rfl

/-- What requests have contributed is what is lost without them. -/
theorem Standing.sum_sent (s : Standing) (ids : List RequestId) :
    ((s.sent.filter (fun c => c.1 ∈ ids)).map (fun c => c.2.size)).sum +
      ((s.without ids).sent.map (fun c => c.2.size)).sum =
        (s.sent.map (fun c => c.2.size)).sum := by
  have hlost : (s.without ids).sent = s.sent.filter (fun c => !decide (c.1 ∈ ids)) :=
    List.filter_congr fun c _ => decide_not
  have hperm : (s.sent.filter (fun c => c.1 ∈ ids) ++ (s.without ids).sent).Perm s.sent := by
    rw [hlost]
    exact List.filter_append_perm _ _
  rw [← List.sum_append, ← List.map_append]
  exact (hperm.map _).sum_eq

namespace Builder

variable {b c : Builder} {history : List Contribution}

theorem after_concat (b : Builder) (history : List Contribution) (x : Contribution) :
    b.after (history ++ [x]) = (b.after history).apply x.toEdit := by
  rw [after, List.map_append, List.map_singleton, applyAll_concat, after]

theorem historyWithout_concat_of_concerns (h : x.concerns ids = true)
    (history : List Contribution) :
    historyWithout ids (history ++ [x]) = historyWithout ids history := by
  simp [historyWithout, h]

theorem historyWithout_concat (h : x.concerns ids = false) (history : List Contribution) :
    historyWithout ids (history ++ [x]) = historyWithout ids history ++ [x] := by
  simp [historyWithout, h]

/-! ## What is filed under requests -/

/-- An entry about one request does not touch what is filed under another. -/
theorem part_apply_of_ne (b : Builder) (hscrub : ∀ rs, x ≠ .edit (.scrub rs))
    (h : x.request? ≠ some r) : (b.apply x.toEdit).part r = b.part r := by
  cases x with
  | send r' block => rfl
  | edit e =>
    refine b.part_apply_of_not_for ?_ ?_
    · cases e with
      | scrub rs => exact absurd rfl (hscrub rs)
      | _ => rfl
    · rw [← Bool.not_eq_true]
      exact fun hfor => h (Edit.request?_of_isFor hfor)

/-- What is filed under other requests is the same without the requests. -/
theorem part_historyWithout (b : Builder) (hr : r ∉ ids) (history : List Contribution) :
    (b.after (historyWithout ids history)).part r = (b.after history).part r := by
  induction history using List.reverseRecOn with
  | nil => rfl
  | append_singleton past x ih =>
    rw [after_concat b past]
    cases hx : x.concerns ids with
    | false =>
      rw [historyWithout_concat hx, after_concat]
      exact part_apply ih x.toEdit
    | true =>
      -- the entry is about another request
      have hscrub : ∀ rs, x ≠ .edit (.scrub rs) := by
        rintro rs rfl
        cases hx
      have hother : x.request? ≠ some r := fun hrequest => by
        simp [Contribution.concerns, hrequest, hr] at hx
      rw [historyWithout_concat_of_concerns hx, ih, part_apply_of_ne _ hscrub hother]

/-- Nothing is filed under the requests that are gone. -/
theorem part_historyWithout_of_mem (t : Topic) (hr : r ∈ ids) (history : List Contribution) :
    (({ topic := t } : Builder).after (historyWithout ids history)).part r = {} := by
  induction history using List.reverseRecOn with
  | nil => rfl
  | append_singleton past x ih =>
    cases hx : x.concerns ids with
    | true => rwa [historyWithout_concat_of_concerns hx]
    | false =>
      rw [historyWithout_concat hx, after_concat]
      by_cases hscrub : ∃ rs, x = .edit (.scrub rs)
      · obtain ⟨rs, rfl⟩ := hscrub
        show (Builder.scrub _ rs).part r = {}
        rw [part_scrub, ih, ite_self]
      · rw [part_apply_of_ne _ (fun rs heq => hscrub ⟨rs, heq⟩) fun hrequest => ?_, ih]
        simp [Contribution.concerns, hrequest, hr] at hx

/-! ## The blocks -/

/-- Both builders are as the standing contributions say, after every beginning of the history. -/
theorem shows_after (t : Topic) (h : Responsive payload history) (ids : List RequestId)
    {past future : List Contribution} (hsplit : history = past ++ future) :
    (({ topic := t } : Builder).after past).Shows payload (.after past) ∧
      (({ topic := t } : Builder).after (historyWithout ids past)).Shows payload
        ((Standing.after past).without ids) := by
  induction past using List.reverseRecOn generalizing future with
  | nil => exact ⟨shows_new payload t, shows_new payload t⟩
  | append_singleton past x ih =>
    have hsplit' : history = past ++ (x :: future) := by rw [hsplit, List.append_assoc]; rfl
    obtain ⟨hwhole, hwithout⟩ := ih hsplit'
    have hfits : x.Fits payload := h.fits x (by simp [hsplit'])
    have hpaired : ∀ rs, x = .edit (.scrub rs) → (Standing.after past).Paired := fun rs hx =>
      h.paired hsplit' (.inr ⟨rs, future, by rw [hx]⟩)
    rw [after_concat, Standing.after_concat]
    refine ⟨hwhole.step hfits hpaired, ?_⟩
    cases hx : x.concerns ids with
    | true =>
      rw [historyWithout_concat_of_concerns hx, Standing.without_next_of_concerns hx]
      exact hwithout
    | false =>
      rw [historyWithout_concat hx, after_concat, ← Standing.next_without hx]
      exact hwithout.step hfits fun rs heq => (hpaired rs heq).without ids

/-- Where nothing but blocks with the payloads of their links is added, the size stays right. -/
theorem accounted_after (t : Topic) (hfits : ∀ x ∈ history, x.Fits payload) :
    (({ topic := t } : Builder).after history).Accounted (fun link => (payload link).size) := by
  refine (accounted_new t).applyAll_of_isEven fun e he => ?_
  obtain ⟨x, hx, rfl⟩ := List.mem_map.mp he
  exact (hfits x hx).isEven

/-- Blocks that are the same under every link are the same, in some order. -/
theorem perm_of_stored? {blocks blocks' : List StoredBlock} (hnodup : (blockLinks blocks).Nodup)
    (hnodup' : (blockLinks blocks').Nodup)
    (h : ∀ link, stored? blocks link = stored? blocks' link) : blocks.Perm blocks' := by
  refine (List.perm_ext_iff_of_nodup hnodup.of_map hnodup'.of_map).mpr fun s => ?_
  refine ⟨fun hs => ?_, fun hs => ?_⟩
  · exact mem_of_stored? ((h _).symm.trans (stored?_of_mem hnodup hs))
  · exact mem_of_stored? ((h _).trans (stored?_of_mem hnodup' hs))

/-! ## The scrubbed builder -/

/-- The builders are the same up to the order of their blocks. -/
structure Alike (b c : Builder) : Prop where
  /-- They are for the same topic. -/
  topic : b.topic = c.topic
  /-- They have the same size. -/
  size : b.size = c.size
  /-- They store the same blocks, with the same contributions. -/
  blocks : b.blocks.Perm c.blocks
  /-- The same is said about links. -/
  links : b.links = c.links
  /-- The statuses are the same. -/
  statuses : b.statuses = c.statuses
  /-- The further data is the same. -/
  extensions : b.extensions = c.extensions
  /-- The block records are the same. -/
  records : b.records = c.records
  /-- The streams are the same. -/
  streams : b.streams = c.streams
  /-- The sinks of those who watch are the same. -/
  notifees : b.notifees = c.notifees

/-- Builders with the same blocks under every link and the same filed under every request are
alike. -/
theorem alike_of_part (htopic : b.topic = c.topic) (hsize : b.size = c.size)
    (hblocks : b.blocks.Perm c.blocks) (hpart : ∀ r, b.part r = c.part r) : b.Alike c where
  topic := htopic
  size := hsize
  blocks := hblocks
  links := Dict.ext_get? fun r => congrArg Part.links (hpart r)
  statuses := Dict.ext_get? fun r => congrArg Part.status (hpart r)
  extensions := Dict.ext_get? fun r => congrArg Part.extensions (hpart r)
  records := Dict.ext_get? fun r => congrArg Part.records (hpart r)
  streams := Dict.ext_get? fun r => congrArg Part.stream (hpart r)
  notifees := Dict.ext_get? fun r => congrArg Part.notifees (hpart r)

/-- **Scrubbing erases.**  Whatever history a builder has in which blocks and present links come
together, a scrub leaves the builder of the history without the requests, up to the order of the
blocks, and it frees the payloads that the requests still contributed. -/
theorem scrub_erases (t : Topic) {payload : Link → ByteArray} {history : List Contribution}
    (h : Responsive payload history) (ids : List RequestId) :
    let start : Builder := { topic := t }
    ((start.after history).scrub ids).Alike (start.after (historyWithout ids history)) ∧
      (start.after history).reply (.scrub ids) = .freed
        (((Standing.after history).sent.filter (fun c => c.1 ∈ ids)).map
          (fun c => c.2.size)).sum := by
  intro start
  have hsplit : history = history ++ [] := (List.append_nil history).symm
  obtain ⟨hwhole, hwithout⟩ := shows_after t h ids hsplit
  have hscrub : ((start.after history).scrub ids).Shows payload
      ((Standing.after history).without ids) := hwhole.scrub (h.paired hsplit (.inl rfl)) ids
  -- all three sizes are what requests contribute
  have haccounted : (start.after history).Accounted (fun link => (payload link).size) :=
    accounted_after t h.fits
  have hfits : ∀ x ∈ historyWithout ids history, x.Fits payload := fun x hx =>
    h.fits x (List.mem_of_mem_filter hx)
  have htidy : (start.after history).Tidy := (tidy_new t).applyAll _
  have htidy' : (start.after (historyWithout ids history)).Tidy := (tidy_new t).applyAll _
  have hsize : (start.after history).size =
      ((Standing.after history).sent.map (fun c => c.2.size)).sum := hwhole.size_eq htidy haccounted
  have hsizeScrub := hscrub.size_eq (htidy.scrub ids) (haccounted.scrub ids).1
  have hsizeWithout := hwithout.size_eq htidy' (accounted_after t hfits)
  refine ⟨alike_of_part ?_ (hsizeScrub.trans hsizeWithout.symm) ?_ fun r => ?_, ?_⟩
  · simp [after]
  · exact perm_of_stored? (htidy.scrub ids).nodup htidy'.nodup fun link =>
      (hscrub.stored link).trans (hwithout.stored link).symm
  · rw [part_scrub]
    by_cases hr : r ∈ ids
    · rw [if_pos hr, part_historyWithout_of_mem t hr]
    · rw [if_neg hr, part_historyWithout start hr]
  · have hsum := (Standing.after history).sum_sent ids
    refine congrArg Reply.freed ?_
    rw [scrubFrees]
    omega

/-- Three requests share a block of two bytes, one of them is scrubbed and contributes it again, and
another has a block of one byte besides.  A scrub of the latter leaves the shared block with the two
contributions of the others. -/
theorem scrub_erases_shared :
    let shared : Block := .fill default 2 0
    let own : Block := .fill ⟨Octets.fill 32 1⟩ 1 0
    let payload : Link → ByteArray := fun link =>
      if link = shared.link then shared.payload else own.payload
    let first : RequestId := ⟨Octets.fill 16 0⟩
    let second : RequestId := ⟨Octets.fill 16 1⟩
    let third : RequestId := ⟨Octets.fill 16 2⟩
    let respond (r : RequestId) (block : Block) : List Contribution :=
      [.send r block, .edit (.addLink r block.link .present)]
    let history := respond first shared ++ respond second shared ++ respond third shared ++
      respond first own ++ [.edit (.scrub [second])] ++ respond second shared ++
      [.edit (.setStatus first .requestCompletedFull)]
    let start : Builder := { topic := Topic.first }
    Responsive payload history ∧
      ((start.after history).scrub [first]).Alike (start.after (historyWithout [first] history)) ∧
      (start.after history).reply (.scrub [first]) = .freed 3 ∧
      ((start.after history).scrub [first]).blocks = [⟨shared, 2⟩] := by
  intro shared own payload first second third respond history start
  have hrespond {past : List Contribution} (hpast : Responsive payload past) (r : RequestId)
      {block : Block} (hblock : block.payload = payload block.link) :
      Responsive payload (past ++ respond r block) :=
    hpast.append (by simpa [respond, Contribution.Fits] using hblock) (.refl _) (by simp [respond])
  have hshared : shared.payload = payload shared.link := (if_pos rfl).symm
  have hown : own.payload = payload own.link := (if_neg (by decide +kernel)).symm
  have hedit {past : List Contribution} (hpast : Responsive payload past) {e : Edit}
      (hfits : (Contribution.edit e).Fits payload) (hsent : (Contribution.edit e).present? = none) :
      Responsive payload (past ++ [.edit e]) :=
    hpast.append (by simpa using hfits) (by simp [hsent, Contribution.sent?]) (by simp)
  have hthree := hrespond (hrespond (hrespond (.nil payload) first hshared) second hshared)
    third hshared
  have hscrubbed : Responsive payload (_ ++ [.edit (.scrub [second])]) :=
    hedit (hrespond hthree first hown) trivial rfl
  have hresponsive : Responsive payload history :=
    hedit (hrespond hscrubbed second hshared) trivial rfl
  obtain ⟨halike, hfreed⟩ := scrub_erases Topic.first hresponsive [first]
  exact ⟨hresponsive, halike, hfreed.trans (by decide +kernel), by decide +kernel⟩

end Builder

end Outbox
