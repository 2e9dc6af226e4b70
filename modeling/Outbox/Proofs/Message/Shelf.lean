import Outbox.Proofs.Dict
import Outbox.Proofs.Message.Size

/-!
# The blocks of a builder on a shelf

A builder lists its blocks in the order in which their links first came.  The same blocks can be
kept as a shelf: a table that says what is stored under each link, the order of the links beside
it, and a running size.  The three are changed separately, and they never get out of step.

* `Builder.stored?`, `Builder.blockLinks` — what stands under a link, and the links in order;
* `Builder.stored?_store`, `Builder.map_block_store`, `Builder.stored?_recount` — what an added
  block and a scrub do to them;
* `Shelf`, `Shelf.put`, `Shelf.keep`, `Shelf.unload` — the same on a shelf;
* `Builder.Tidy` — what holds of a builder whatever was done to it, with `Builder.Tidy.applyAll`;
* `Shelf.Bears` — builder and shelf hold the same, with `Shelf.Bears.editAll`;
* `Shelf.InStep`, `Shelf.blocks_in_step` — order, table, size and message fit together.
-/

namespace Outbox

namespace StoredBlock

/-- The block after one more contribution. -/
def again (b : StoredBlock) : StoredBlock := { b with contributions := b.contributions + 1 }

/-- The block with at most so many contributions. -/
def capped (n : Nat) (b : StoredBlock) : StoredBlock :=
  { b with contributions := min b.contributions n }

end StoredBlock

namespace Builder

/-! ## What stands under a link -/

/-- The block stored under a link. -/
def stored? (blocks : List StoredBlock) (link : Link) : Option StoredBlock :=
  blocks.find? (fun s => s.block.link = link)

/-- The links of blocks in order. -/
def blockLinks (blocks : List StoredBlock) : List Link := blocks.map (fun s => s.block.link)

variable {b : Builder} {block : Block} {blocks : List StoredBlock} {link : Link} {s : StoredBlock}

@[simp] theorem stored?_nil (link : Link) : stored? [] link = none := rfl

theorem stored?_cons (s : StoredBlock) (blocks : List StoredBlock) (link : Link) :
    stored? (s :: blocks) link = if s.block.link = link then some s else stored? blocks link := by
  unfold stored?
  rw [List.find?_cons]
  by_cases h : s.block.link = link <;> simp [h]

theorem link_of_stored? (h : stored? blocks link = some s) : s.block.link = link := by
  simpa using List.find?_some h

theorem mem_of_stored? (h : stored? blocks link = some s) : s ∈ blocks :=
  List.mem_of_find?_eq_some h

theorem stored?_eq_none_iff : stored? blocks link = none ↔ link ∉ blockLinks blocks := by
  simp [stored?, blockLinks]

/-- Where links are different, each block is what stands under its link. -/
theorem stored?_of_mem (hnodup : (blockLinks blocks).Nodup) (h : s ∈ blocks) :
    stored? blocks s.block.link = some s := by
  induction blocks with
  | nil => cases h
  | cons s' rest ih =>
    obtain ⟨hfresh, hrest⟩ := List.nodup_cons.mp hnodup
    rw [stored?_cons]
    rcases List.mem_cons.mp h with rfl | h
    · rw [if_pos rfl]
    · have hne : s'.block.link ≠ s.block.link := fun heq =>
        hfresh (List.mem_map.mpr ⟨s, h, heq.symm⟩)
      rw [if_neg hne, ih hrest h]

/-- An added block counts once more under its link, or is stored there. -/
theorem stored?_store (block : Block) (blocks : List StoredBlock) (link : Link) :
    stored? (store block blocks) link =
      if link = block.link then some ((stored? blocks link).elim ⟨block, 1⟩ StoredBlock.again)
      else stored? blocks link := by
  induction blocks with
  | nil =>
    rw [store, stored?_cons]
    by_cases h : link = block.link
    · simp [h]
    · simp [h, Ne.symm h]
  | cons s rest ih =>
    rw [store]
    by_cases hs : s.block.link = block.link
    · rw [if_pos hs, stored?_cons, stored?_cons]
      by_cases h : link = block.link
      · rw [if_pos (h ▸ hs), if_pos h, if_pos (h ▸ hs)]
        rfl
      · have hne : s.block.link ≠ link := fun heq => h (heq ▸ hs)
        rw [if_neg hne, if_neg h, if_neg hne]
    · rw [if_neg hs, stored?_cons, stored?_cons, ih]
      by_cases h : s.block.link = link
      · have hne : link ≠ block.link := h ▸ hs
        rw [if_pos h, if_neg hne, if_pos h]
      · rw [if_neg h, if_neg h]

/-- A block whose link is new comes last; another one changes no block. -/
theorem map_block_store (block : Block) (blocks : List StoredBlock) :
    (store block blocks).map StoredBlock.block =
      if block.link ∈ blockLinks blocks then blocks.map StoredBlock.block
      else blocks.map StoredBlock.block ++ [block] := by
  induction blocks with
  | nil => simp [store, blockLinks]
  | cons s rest ih =>
    rw [store]
    by_cases hs : s.block.link = block.link
    · simp [blockLinks, hs]
    · rw [if_neg hs, List.map_cons, ih]
      by_cases hrest : block.link ∈ blockLinks rest
      · have hmem : block.link ∈ blockLinks (s :: rest) := List.mem_cons_of_mem _ hrest
        rw [if_pos hrest, if_pos hmem]
        rfl
      · have hmem : block.link ∉ blockLinks (s :: rest) := by
          simp only [blockLinks, List.map_cons, List.mem_cons, not_or] at hrest ⊢
          exact ⟨Ne.symm hs, hrest⟩
        rw [if_neg hrest, if_neg hmem]
        rfl

/-- The links of blocks are the links of what is stored. -/
theorem map_link_map_block (blocks : List StoredBlock) :
    (blocks.map StoredBlock.block).map Block.link = blockLinks blocks := by
  rw [List.map_map]
  rfl

/-- A link that is new comes last. -/
theorem blockLinks_store (block : Block) (blocks : List StoredBlock) :
    blockLinks (store block blocks) =
      if block.link ∈ blockLinks blocks then blockLinks blocks
      else blockLinks blocks ++ [block.link] := by
  rw [← map_link_map_block, map_block_store]
  split
  · rw [map_link_map_block]
  · rw [List.map_append, map_link_map_block]
    rfl

/-- Only links that some response calls present are kept, in their order. -/
theorem blockLinks_recount (b : Builder) :
    blockLinks b.recount.blocks =
      (blockLinks b.blocks).filter (fun link => 0 < b.presentCount link) := by
  simp only [blockLinks, recount, List.map_map, List.filter_map]
  rfl

/-- A block that is kept has at most as many contributions as there are responses for it. -/
theorem stored?_recount (b : Builder) (link : Link) :
    stored? b.recount.blocks link =
      if 0 < b.presentCount link then (stored? b.blocks link).map (.capped (b.presentCount link))
      else none := by
  unfold recount
  simp only
  induction b.blocks with
  | nil => simp
  | cons s rest ih =>
    rw [stored?_cons]
    by_cases hs : 0 < b.presentCount s.block.link
    · rw [List.filter_cons_of_pos (by simpa using hs), List.map_cons, stored?_cons, ih]
      by_cases hlink : s.block.link = link
      · subst hlink
        rw [if_pos rfl, if_pos hs, if_pos rfl]
        rfl
      · rw [if_neg hlink, if_neg hlink]
    · rw [List.filter_cons_of_neg (by simpa using hs), ih]
      by_cases hlink : s.block.link = link
      · subst hlink
        rw [if_neg hs, if_neg hs]
      · rw [if_neg hlink]

/-- A sum over blocks with different links is a sum over their links. -/
theorem sum_links (hnodup : (blockLinks blocks).Nodup) (w : StoredBlock → Nat) :
    ∑ link ∈ (blockLinks blocks).toFinset, (stored? blocks link).elim 0 w = (blocks.map w).sum := by
  rw [List.sum_toFinset _ hnodup, blockLinks, List.map_map]
  refine congrArg List.sum (List.map_congr_left fun s hs => ?_)
  rw [Function.comp_apply, stored?_of_mem hnodup hs, Option.elim_some]

/-! ## What holds whatever was done -/

/-- What holds of a builder whatever was done to it. -/
structure Tidy (b : Builder) : Prop where
  /-- No two blocks have the same link. -/
  nodup : (blockLinks b.blocks).Nodup
  /-- Every block was contributed by someone. -/
  contributed : ∀ s ∈ b.blocks, 1 ≤ s.contributions
  /-- The payloads are part of the size. -/
  payloads : (b.blocks.map (fun s => s.block.size)).sum ≤ b.size
  /-- A request that something is said about links for has something said. -/
  linked : ∀ r l, b.links.get? r = some l → l ≠ []
  /-- A request with further data has some. -/
  extended : ∀ r e, b.extensions.get? r = some e → e.isEmpty = false
  /-- Without blocks there is no size. -/
  bare : b.blocks = [] → b.size = 0

theorem tidy_new (t : Topic) : Tidy { topic := t } where
  nodup := List.nodup_nil
  contributed := by simp
  payloads := le_rfl
  linked r l h := by cases h
  extended r e h := by cases h
  bare _ := rfl

theorem store_ne_nil (block : Block) (blocks : List StoredBlock) : store block blocks ≠ [] := by
  cases blocks with
  | nil => simp [store]
  | cons s rest =>
    rw [store]
    split <;> simp

/-- An added block adds its payload at most once. -/
theorem sum_store_le (block : Block) (blocks : List StoredBlock) :
    ((store block blocks).map (fun s => s.block.size)).sum ≤
      (blocks.map (fun s => s.block.size)).sum + block.size := by
  induction blocks with
  | nil => simp [store]
  | cons s rest ih =>
    rw [store]
    split
    · simp
    · simp only [List.map_cons, List.sum_cons]
      omega

theorem contributed_store {block : Block} {blocks : List StoredBlock}
    (h : ∀ s ∈ blocks, 1 ≤ s.contributions) : ∀ s ∈ store block blocks, 1 ≤ s.contributions := by
  induction blocks with
  | nil => simp [store]
  | cons s rest ih =>
    obtain ⟨hs, hrest⟩ := List.forall_mem_cons.mp h
    rw [store]
    split
    · exact List.forall_mem_cons.mpr ⟨Nat.le_add_left 1 _, hrest⟩
    · exact List.forall_mem_cons.mpr ⟨hs, ih hrest⟩

theorem isEmpty_insert {κ α : Type} [Key κ] (d : Dict κ α) (k : κ) (v : α) :
    (d.insert k v).isEmpty = false := by
  unfold Dict.isEmpty Dict.insert
  simp only
  cases d.entries with
  | nil => rfl
  | cons e rest =>
    rw [Dict.place]
    split
    · rfl
    · split <;> rfl

/-- The message carries the blocks of the builder. -/
theorem blocks_of_finish? {d : Finished} (h : b.finish? = some d) :
    d.message.blocks = b.blocks.map StoredBlock.block := by
  obtain ⟨-, rfl⟩ := finish?_eq_some_iff.mp h
  rfl

namespace Tidy

theorem forget (h : b.Tidy) (rs : List RequestId) : (b.forget rs).Tidy where
  nodup := h.nodup
  contributed := h.contributed
  payloads := h.payloads
  linked r l hl := by
    simp only [Builder.forget, Dict.get?_eraseAll] at hl
    split at hl
    · cases hl
    · exact h.linked r l hl
  extended r e he := by
    simp only [Builder.forget, Dict.get?_eraseAll] at he
    split at he
    · cases he
    · exact h.extended r e he
  bare := h.bare

theorem recount (h : b.Tidy) : b.recount.Tidy where
  nodup := by
    rw [blockLinks_recount]
    exact h.nodup.filter _
  contributed s hs := by
    obtain ⟨s', hs', rfl⟩ := List.mem_map.mp hs
    obtain ⟨hmem, hpresent⟩ := List.mem_filter.mp hs'
    exact le_min (h.contributed s' hmem) (of_decide_eq_true hpresent)
  payloads := by
    refine List.sum_le_sum fun s hs => ?_
    obtain ⟨s', hs', rfl⟩ := List.mem_map.mp hs
    obtain ⟨hmem, hpresent⟩ := List.mem_filter.mp hs'
    exact Nat.le_mul_of_pos_right _
      (lt_min (h.contributed s' hmem) (of_decide_eq_true hpresent))
  linked := h.linked
  extended := h.extended
  bare hnil := by
    show (b.recount.blocks.map StoredBlock.reserved).sum = 0
    rw [hnil]
    rfl

theorem scrub (h : b.Tidy) (rs : List RequestId) : (b.scrub rs).Tidy := by
  unfold Builder.scrub
  simp only
  split
  · exact (h.forget rs).recount
  · exact h.forget rs

theorem apply (h : b.Tidy) (e : Edit) : (b.apply e).Tidy := by
  cases e with
  | addBlock block =>
    refine ⟨?_, contributed_store h.contributed, ?_, h.linked, h.extended,
      fun hnil => absurd hnil (store_ne_nil block b.blocks)⟩
    · show (blockLinks (store block b.blocks)).Nodup
      rw [blockLinks_store]
      split
      · exact h.nodup
      · rename_i hnew
        exact List.nodup_append.mpr ⟨h.nodup, List.nodup_singleton _, by
          intro x hx y hy
          rw [List.mem_singleton.mp hy]
          rintro rfl
          exact hnew hx⟩
    · exact le_trans (sum_store_le block b.blocks) (Nat.add_le_add_right h.payloads _)
  | addLink r link action =>
    refine ⟨h.nodup, h.contributed, h.payloads, fun r' l hl => ?_, h.extended,
      h.bare⟩
    simp only [Builder.apply, addLink, Dict.get?_update] at hl
    split at hl
    · cases hl
      simp
    · exact h.linked r' l hl
  | setExtension r name data =>
    refine ⟨h.nodup, h.contributed, h.payloads, h.linked, fun r' e he => ?_,
      h.bare⟩
    simp only [Builder.apply, setExtension, Dict.get?_update] at he
    split at he
    · cases he
      exact isEmpty_insert _ name data
    · exact h.extended r' e he
  | scrub rs => exact h.scrub rs
  | _ => exact ⟨h.nodup, h.contributed, h.payloads, h.linked, h.extended, h.bare⟩

/-- Whatever is done to a builder leaves it tidy. -/
theorem applyAll (h : b.Tidy) (edits : List Edit) : (b.applyAll edits).Tidy := by
  induction edits generalizing b with
  | nil => exact h
  | cons e rest ih => exact ih (h.apply e)

end Tidy

end Builder

/-! ## Shelves -/

/-- Blocks in a table, the order of their links beside it, and a running size. -/
structure Shelf where
  /-- The links in order. -/
  order : List Link := []
  /-- What is stored under each link. -/
  table : Dict Link StoredBlock := ∅
  /-- The size. -/
  size : Nat := 0

namespace Shelf

/-- Adds a block. -/
def put (s : Shelf) (block : Block) : Shelf :=
  match s.table.get? block.link with
  | some stored =>
    { s with table := s.table.insert block.link stored.again, size := s.size + block.size }
  | none =>
    { order := s.order ++ [block.link]
      table := s.table.insert block.link ⟨block, 1⟩
      size := s.size + block.size }

/-- Keeps the links that are counted, with at most so many contributions, and adds up what is
left. -/
def keep (s : Shelf) (count : Link → Nat) : Shelf :=
  let table := (s.table.filterKeys (fun link => 0 < count link)).mapValues
    (fun link => .capped (count link))
  { order := s.order.filter (fun link => 0 < count link)
    table
    size := table.weigh StoredBlock.reserved }

/-- What an edit of a builder does to its shelf. -/
def edit (b : Builder) (s : Shelf) : Edit → Shelf
  | .addBlock block => s.put block
  | .scrub rs => if rs.any b.hasResponse then s.keep (b.forget rs).presentCount else s
  | _ => s

/-- What edits of a builder do to its shelf. -/
def editAll (b : Builder) (s : Shelf) : List Edit → Shelf
  | [] => s
  | e :: rest => (s.edit b e).editAll (b.apply e) rest

/-- Takes the blocks from a table in the order of the links. -/
def take (table : Dict Link StoredBlock) : List Link → List Block
  | [] => []
  | link :: rest =>
    match table.get? link with
    | some stored => stored.block :: take (table.erase link) rest
    | none => take table rest

/-- Takes all blocks from the shelf. -/
def unload (s : Shelf) : List Block := take s.table s.order

/-- The shelf holds what the builder holds. -/
structure Bears (s : Shelf) (b : Builder) : Prop where
  /-- The links are in the order of the blocks. -/
  order : s.order = Builder.blockLinks b.blocks
  /-- The same stands under every link. -/
  table : ∀ link, s.table.get? link = Builder.stored? b.blocks link
  /-- The sizes agree. -/
  size : s.size = b.size

variable {s : Shelf} {b : Builder} {block : Block}

/-- A sum over the table is a sum over the blocks. -/
theorem Bears.weigh_eq (h : s.Bears b) (ht : b.Tidy) (w : StoredBlock → Nat) :
    s.table.weigh w = (b.blocks.map w).sum := by
  have hkeys : s.table.keys.toFinset = (Builder.blockLinks b.blocks).toFinset := by
    ext link
    rw [List.mem_toFinset, List.mem_toFinset, Dict.mem_keys, Dict.contains, h.table,
      Option.isSome_iff_ne_none, Ne, Builder.stored?_eq_none_iff, not_not]
  rw [Dict.weigh_eq_sum, hkeys, ← Builder.sum_links ht.nodup w]
  refine Finset.sum_congr rfl fun link _ => ?_
  rw [Dict.weighAt, h.table]

namespace Bears

theorem put (h : s.Bears b) (block : Block) : (s.put block).Bears (b.addBlock block) := by
  have htable := h.table block.link
  have hsize : s.size + block.size = (b.addBlock block).size := congrArg (· + block.size) h.size
  unfold Shelf.put
  cases hs : s.table.get? block.link with
  | some stored =>
    have hmem : block.link ∈ Builder.blockLinks b.blocks := by
      by_contra hnone
      rw [← Builder.stored?_eq_none_iff, ← htable, hs] at hnone
      cases hnone
    refine ⟨?_, fun link => ?_, hsize⟩
    · show s.order = Builder.blockLinks (Builder.store block b.blocks)
      rw [Builder.blockLinks_store, if_pos hmem, h.order]
    · show (s.table.insert block.link stored.again).get? link =
        Builder.stored? (Builder.store block b.blocks) link
      rw [Dict.get?_insert, Builder.stored?_store, h.table]
      by_cases hl : link = block.link
      · rw [if_pos hl, if_pos hl, hl, ← htable, hs, Option.elim_some]
      · rw [if_neg hl, if_neg hl]
  | none =>
    have hnew : block.link ∉ Builder.blockLinks b.blocks :=
      Builder.stored?_eq_none_iff.mp (htable.symm.trans hs)
    refine ⟨?_, fun link => ?_, hsize⟩
    · show s.order ++ [block.link] = Builder.blockLinks (Builder.store block b.blocks)
      rw [Builder.blockLinks_store, if_neg hnew, h.order]
    · show (s.table.insert block.link ⟨block, 1⟩).get? link =
        Builder.stored? (Builder.store block b.blocks) link
      rw [Dict.get?_insert, Builder.stored?_store, h.table]
      by_cases hl : link = block.link
      · rw [if_pos hl, if_pos hl, hl, ← htable, hs, Option.elim_none]
      · rw [if_neg hl, if_neg hl]

theorem keep (h : s.Bears b) (ht : b.Tidy) : (s.keep b.presentCount).Bears b.recount := by
  have horder : (s.keep b.presentCount).order = Builder.blockLinks b.recount.blocks := by
    rw [Builder.blockLinks_recount, ← h.order]
    rfl
  have htable : ∀ link, (s.keep b.presentCount).table.get? link =
      Builder.stored? b.recount.blocks link := by
    intro link
    simp only [Shelf.keep, Dict.get?_mapValues, Dict.get?_filterKeys, Builder.stored?_recount,
      h.table, decide_eq_true_eq]
    split
    · rfl
    · rfl
  refine ⟨horder, htable, ?_⟩
  -- the sizes are the same sum, over the table and over the blocks
  let sized : Shelf := { s.keep b.presentCount with size := b.recount.size }
  exact Bears.weigh_eq (s := sized) ⟨horder, htable, rfl⟩ ht.recount StoredBlock.reserved

theorem edit (h : s.Bears b) (ht : b.Tidy) (e : Edit) : (s.edit b e).Bears (b.apply e) := by
  cases e with
  | addBlock block => exact h.put block
  | scrub rs =>
    have hforget : s.Bears (b.forget rs) := ⟨h.order, h.table, h.size⟩
    unfold Shelf.edit Builder.apply Builder.scrub
    simp only
    split
    · exact hforget.keep (ht.forget rs)
    · exact hforget
  | _ => exact ⟨h.order, h.table, h.size⟩

/-- Builder and shelf hold the same after the same edits. -/
theorem editAll (h : s.Bears b) (ht : b.Tidy) (edits : List Edit) :
    (s.editAll b edits).Bears (b.applyAll edits) := by
  induction edits generalizing b s with
  | nil => exact h
  | cons e rest ih => exact ih (h.edit ht e) (ht.apply e)

end Bears

/-- From a table that holds blocks with different links, the blocks come in order. -/
theorem take_eq {table : Dict Link StoredBlock} {blocks : List StoredBlock}
    (hnodup : (Builder.blockLinks blocks).Nodup)
    (htable : ∀ s ∈ blocks, table.get? s.block.link = some s) :
    take table (Builder.blockLinks blocks) = blocks.map StoredBlock.block := by
  induction blocks generalizing table with
  | nil => rfl
  | cons s rest ih =>
    obtain ⟨hfresh, hrest⟩ := List.nodup_cons.mp hnodup
    have hs := htable s (List.mem_cons_self ..)
    show take table (s.block.link :: Builder.blockLinks rest) = _
    rw [take, hs, List.map_cons]
    refine congrArg (s.block :: ·) (ih hrest fun s' hs' => ?_)
    have hne : s'.block.link ≠ s.block.link := fun heq =>
      hfresh (List.mem_map.mpr ⟨s', hs', heq⟩)
    rw [Dict.get?_erase, if_neg hne]
    exact htable s' (List.mem_cons_of_mem _ hs')

theorem Bears.unload_eq (h : s.Bears b) (ht : b.Tidy) :
    s.unload = b.blocks.map StoredBlock.block := by
  rw [unload, h.order]
  refine take_eq ht.nodup fun stored hmem => ?_
  rw [h.table, Builder.stored?_of_mem ht.nodup hmem]

/-! ## Order, table and size in step -/

/-- A builder and its shelf after edits: order, table and size of the shelf fit together and say
what the builder holds and sends. -/
structure InStep (edits : List Edit) (b : Builder) (s : Shelf) : Prop where
  /-- The order has no link twice. -/
  nodup : s.order.Nodup
  /-- The order has exactly the links of the table. -/
  order : ∀ link, link ∈ s.order ↔ s.table.contains link = true
  /-- Each block stands under its own link and was contributed at least once. -/
  contributed : ∀ link stored, s.table.get? link = some stored →
    stored.block.link = link ∧ 1 ≤ stored.contributions
  /-- A request that something is said about links for has something said. -/
  linked : ∀ r l, b.links.get? r = some l → l ≠ []
  /-- A request with further data has some. -/
  extended : ∀ r e, b.extensions.get? r = some e → e.isEmpty = false
  /-- The size covers the payload of every block. -/
  payloads : s.table.weigh (fun stored => stored.block.size) ≤ s.size
  /-- If links determine lengths, then the size is what was reserved. -/
  reserved : ∀ len, (∀ e ∈ edits, e.IsEven len) → s.size = s.table.weigh StoredBlock.reserved
  /-- The blocks of the builder are those of the table, in order. -/
  blocks : b.blocks = s.order.filterMap s.table.get?
  /-- The builder has the size of the shelf. -/
  size : b.size = s.size
  /-- A builder that holds nothing has no size. -/
  empty : b.isEmpty = true → s.size = 0
  /-- Otherwise there is a message; it carries what is unloaded from the shelf, which is each block
  once, and is charged for at least its payloads. -/
  message : b.isEmpty = false → ∃ d, b.finish? = some d ∧ d.message.blocks = s.unload ∧
    (∀ block, s.unload.count block =
      if ((s.table.get? block.link).any (·.block = block)) = true then 1 else 0) ∧
    d.size = s.size ∧ d.message.blockSize ≤ d.size

/-- What is unloaded is each block that stands on the shelf, once. -/
theorem Bears.count_unload (h : s.Bears b) (ht : b.Tidy) (block : Block) :
    s.unload.count block =
      if ((s.table.get? block.link).any (·.block = block)) = true then 1 else 0 := by
  have hnodup : (b.blocks.map StoredBlock.block).Nodup := by
    refine List.Nodup.of_map Block.link ?_
    rw [Builder.map_link_map_block]
    exact ht.nodup
  have hmem : block ∈ b.blocks.map StoredBlock.block ↔
      ((s.table.get? block.link).any (·.block = block)) = true := by
    rw [h.table, Option.any_eq_true]
    constructor
    · intro hb
      obtain ⟨stored, hstored, rfl⟩ := List.mem_map.mp hb
      exact ⟨stored, Builder.stored?_of_mem ht.nodup hstored, decide_eq_true rfl⟩
    · rintro ⟨stored, hstored, hb⟩
      rw [← of_decide_eq_true hb]
      exact List.mem_map_of_mem (Builder.mem_of_stored? hstored)
  rw [h.unload_eq ht, hnodup.count]
  exact if_congr hmem rfl rfl

/-- **Order, table and size stay in step.**  Whatever edits a new builder goes through, its blocks
are the table of a shelf in the order kept beside it, the order lists exactly the links of the
table, each once, the size covers all payloads, and the message carries each block once. -/
theorem blocks_in_step (t : Topic) (edits : List Edit) :
    InStep edits (({ topic := t } : Builder).applyAll edits)
      (Shelf.editAll { topic := t } {} edits) := by
  have htidy : (({ topic := t } : Builder).applyAll edits).Tidy :=
    (Builder.tidy_new t).applyAll edits
  have hbears : (Shelf.editAll { topic := t } {} edits).Bears
      (({ topic := t } : Builder).applyAll edits) :=
    Bears.editAll ⟨rfl, fun _ => rfl, rfl⟩ (Builder.tidy_new t) edits
  refine ⟨hbears.order ▸ htidy.nodup, fun link => ?_, fun link stored hstored => ?_,
    htidy.linked, htidy.extended, ?_, fun len heven => ?_, ?_, hbears.size.symm, fun hempty => ?_,
    fun hfull => ?_⟩
  · rw [hbears.order, Dict.contains, hbears.table, Option.isSome_iff_ne_none, Ne,
      Builder.stored?_eq_none_iff, not_not]
  · rw [hbears.table] at hstored
    exact ⟨Builder.link_of_stored? hstored,
      htidy.contributed stored (Builder.mem_of_stored? hstored)⟩
  · rw [hbears.weigh_eq htidy, hbears.size]
    exact htidy.payloads
  · rw [hbears.weigh_eq htidy, hbears.size]
    exact ((Builder.accounted_new t).applyAll_of_isEven heven).size
  · rw [hbears.order, Builder.blockLinks, List.filterMap_map]
    refine Eq.trans List.filterMap_some.symm (List.filterMap_congr fun stored hmem => ?_)
    rw [Function.comp_apply, hbears.table, Builder.stored?_of_mem htidy.nodup hmem]
  · rw [hbears.size]
    exact htidy.bare ((Builder.isEmpty_iff _).mp hempty).1
  · obtain ⟨d, hd⟩ : ∃ d, (({ topic := t } : Builder).applyAll edits).finish? = some d := by
      rw [← Option.isSome_iff_exists, Option.isSome_iff_ne_none, Ne, Builder.finish?_eq_none_iff,
        hfull]
      simp
    have hblocks := Builder.blocks_of_finish? hd
    obtain ⟨-, -, hsize⟩ := Builder.finish?_eq_some hd
    refine ⟨d, hd, by rw [hblocks, hbears.unload_eq htidy], hbears.count_unload htidy,
      hsize.trans hbears.size.symm, ?_⟩
    rw [hsize, Message.blockSize, hblocks, List.map_map]
    exact htidy.payloads

end Shelf

end Outbox
