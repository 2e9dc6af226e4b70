import Outbox.Proofs.Dict
import Outbox.Proofs.Message.Backlog

/-!
# The drawers of a builder

Six parts of a builder are drawers, in which edits file something under requests.  In some drawers
what comes is listed after what is there, in others it takes its place, and further data takes the
place of what has the same name.  A scrub empties all drawers for its requests.  What is in a
drawer under one request depends on the edits for that request alone.

* `Edit.link?`, `Edit.status?`, … — what an edit files, and under which request;
* `Drawer` — a part of a builder in which something is filed, with its laws;
* `Drawer.links`, `Drawer.statuses`, … — the six of them;
* `Drawer.get?_apply`, `Drawer.get?_apply_congr`, `Drawer.get?_apply_of_not_for` — what an edit does
  to what is filed under one request.
-/

namespace Outbox

variable {α β : Type}

/-! ## What an edit files -/

namespace Edit

/-- What the edit says about a link, and in the response to which request. -/
def link? : Edit → Option (RequestId × LinkEntry)
  | addLink r link action => some (r, ⟨link, action⟩)
  | _ => none

/-- The status that the edit sets. -/
def status? : Edit → Option (RequestId × Status)
  | setStatus r status => some (r, status)
  | _ => none

/-- The further data that the edit sets, with its name. -/
def extension? : Edit → Option (RequestId × String × List UInt8)
  | setExtension r name data => some (r, name, data)
  | _ => none

/-- The block record that the edit adds. -/
def record? : Edit → Option (RequestId × BlockRecord)
  | addRecord r record => some (r, record)
  | _ => none

/-- The stream that the edit sets. -/
def stream? : Edit → Option (RequestId × Stream)
  | setStream r stream => some (r, stream)
  | _ => none

/-- The sink that the edit adds. -/
def notifee? : Edit → Option (RequestId × Sink)
  | addNotifee r sink => some (r, sink)
  | _ => none

/-- The edit files something under the request. -/
def isFor (r : RequestId) : Edit → Bool
  | addLink r' _ _ => r' = r
  | setStatus r' _ => r' = r
  | setExtension r' _ _ => r' = r
  | addRecord r' _ => r' = r
  | setStream r' _ => r' = r
  | addNotifee r' _ => r' = r
  | _ => false

end Edit

/-! ## Drawers -/

/-- A part of a builder in which edits file something under requests. -/
structure Drawer (α β : Type) where
  /-- What is filed. -/
  dict : Builder → Dict RequestId β
  /-- What an edit files. -/
  filed? : Edit → Option (RequestId × α)
  /-- What is there after something comes to what was there. -/
  merge : Option β → α → β
  /-- Nothing is filed in a new builder. -/
  dict_new : ∀ t, dict { topic := t } = ∅ := by intro t; rfl
  /-- An edit that scrubs nothing files its entry, if it has one for this drawer. -/
  dict_apply : ∀ (b : Builder) (e : Edit), e.isScrub = false → dict (b.apply e) =
      (filed? e).elim (dict b) fun x => (dict b).update x.1 fun old => merge old x.2 := by
    intro b e he; cases e <;> first | rfl | cases he
  /-- A scrub empties the drawer for its requests. -/
  dict_scrub : ∀ (b : Builder) (rs : List RequestId),
      dict (b.scrub rs) = (dict b).eraseAll rs := by
    intro b rs; unfold Builder.scrub; simp only; split <;> rfl
  /-- What an edit files is filed under its request. -/
  isFor : ∀ (e : Edit) (x : RequestId × α), filed? e = some x → e.isFor x.1 = true := by
    intro e x hx; cases e <;> cases hx <;> exact decide_eq_true rfl

namespace Drawer

/-- What comes is listed after what is there. -/
def append (old : Option (List α)) (x : α) : List α := old.getD [] ++ [x]

/-- What comes takes the place of what is there. -/
def replace (_ : Option α) (x : α) : α := x

/-- What comes takes the place of what has the same name. -/
def rename (old : Option (Dict String α)) (x : String × α) : Dict String α :=
  (old.getD ∅).insert x.1 x.2

/-- What is said about links. -/
def links : Drawer LinkEntry (List LinkEntry) where
  dict := Builder.links
  filed? := Edit.link?
  merge := append

/-- The statuses. -/
def statuses : Drawer Status Status where
  dict := Builder.statuses
  filed? := Edit.status?
  merge := replace

/-- The further data. -/
def extensions : Drawer (String × List UInt8) (Dict String (List UInt8)) where
  dict := Builder.extensions
  filed? := Edit.extension?
  merge := rename

/-- The block records. -/
def records : Drawer BlockRecord (List BlockRecord) where
  dict := Builder.records
  filed? := Edit.record?
  merge := append

/-- The streams. -/
def streams : Drawer Stream Stream where
  dict := Builder.streams
  filed? := Edit.stream?
  merge := replace

/-- The sinks. -/
def notifees : Drawer Sink (List Sink) where
  dict := Builder.notifees
  filed? := Edit.notifee?
  merge := append

variable (d : Drawer α β) {b b' : Builder} {e : Edit} {r : RequestId}

/-- What is filed under a request after a scrub. -/
theorem get?_scrub (b : Builder) (rs : List RequestId) (r : RequestId) :
    (d.dict (b.scrub rs)).get? r = if r ∈ rs then none else (d.dict b).get? r := by
  rw [d.dict_scrub, Dict.get?_eraseAll]

/-- What is filed under a request after an edit. -/
theorem get?_apply (b : Builder) (he : e.isScrub = false) (r : RequestId) :
    (d.dict (b.apply e)).get? r = ((d.filed? e).filter (fun x => x.1 = r)).elim
      ((d.dict b).get? r) fun x => some (d.merge ((d.dict b).get? r) x.2) := by
  rw [d.dict_apply b e he]
  cases hx : d.filed? e with
  | none => rfl
  | some x =>
    rw [Option.elim_some, Dict.get?_update, Option.filter_some]
    by_cases hr : r = x.1
    · subst hr
      simp
    · simp [hr, Ne.symm hr]

/-- An edit looks at nothing but what is filed under the request in question. -/
theorem get?_apply_congr (h : (d.dict b).get? r = (d.dict b').get? r) (e : Edit) :
    (d.dict (b.apply e)).get? r = (d.dict (b'.apply e)).get? r := by
  cases he : e.isScrub with
  | false => rw [d.get?_apply b he, d.get?_apply b' he, h]
  | true =>
    cases e with
    | scrub rs =>
      show (d.dict (b.scrub rs)).get? r = (d.dict (b'.scrub rs)).get? r
      rw [d.get?_scrub, d.get?_scrub, h]
    | _ => cases he

/-- An edit for another request changes nothing under a request. -/
theorem get?_apply_of_not_for (b : Builder) (he : e.isScrub = false) (hr : e.isFor r = false) :
    (d.dict (b.apply e)).get? r = (d.dict b).get? r := by
  rw [d.get?_apply b he]
  cases hx : d.filed? e with
  | none => rfl
  | some x =>
    have hne : x.1 ≠ r := by
      rintro rfl
      rw [d.isFor e x hx] at hr
      cases hr
    rw [Option.filter_some, if_neg (by simpa using hne), Option.elim_none]

end Drawer

namespace Builder

theorem scrub_links (b : Builder) (rs : List RequestId) :
    (b.scrub rs).links = b.links.eraseAll rs := Drawer.links.dict_scrub b rs

theorem scrub_notifees (b : Builder) (rs : List RequestId) :
    (b.scrub rs).notifees = b.notifees.eraseAll rs := Drawer.notifees.dict_scrub b rs

end Builder

end Outbox
