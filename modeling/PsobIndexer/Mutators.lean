import PsobIndexer.Db
/-!
# What the mutators do when they succeed

`insertBlocks` is a fold of single rows (`insertOne`); `rollbackFrom` and
`pruneBefore` both drop the blocks of one chain whose height satisfies a
predicate, on disk and in the block and sibling caches. Later modules use these
descriptions and the lookups of the other mutators, not the code.
-/
open Lib

namespace PsobIndexer

namespace Database

/-- The cached sibling list of a parent; an absent one counts as empty. -/
def siblings (db : Database) (p : Hash32) : List StoredBlock := (db.cache_siblings.get? p).getD []

section Sha
variable (sha256d : Bytes → Hash32)

/-! ## Batches, row by row -/

/-- The unprobed record of a parent seen in a witness. -/
def newParent (aux : AuxPow) : StoredParent where
  parent_hash_le := sha256d aux.parent_header
  parent_header := aux.parent_header
  ltc_height := none
  parent_state := 0
  work := blockWork ((expandTarget (leU32At aux.parent_header 72)).getD (ByteArr.fill 32 0xff))

/-- The store after one row, in the tables and all caches. -/
def insertOne (db : Database) (row : BlockRow) : Database :=
  match row.2.header.aux with
  | none => db
  | some aux =>
    let p := sha256d aux.parent_header
    { db with
      redb := { db.redb with
        aux_blocks := db.redb.aux_blocks.insert row.1 row.2
        sibling_index := db.redb.sibling_index.insert ⟨p, row.1.chain_id, row.1.height⟩ () }
      cache_blocks := db.cache_blocks.insert row.1 row.2
      cache_siblings := db.cache_siblings.insert p (pushSibling (db.siblings p) row.1 row.2)
      cache_parents :=
        if db.cache_parents.contains p then db.cache_parents else db.cache_parents.insert p (newParent sha256d aux) }

/-- The witness of a row reaches the target field of its parent header. -/
def Witnessed (row : BlockRow) : Prop := ∃ aux, row.2.header.aux = some aux ∧ 76 ≤ aux.parent_header.length

theorem indexRow_ok (db : Database) {row : BlockRow} (h : Witnessed row) :
    (db.indexRow sha256d row).1 = .ok () ∧
      db.indexRow sha256d row = (.ok (), { db with
        cache_siblings := (db.insertOne sha256d row).cache_siblings
        cache_parents := (db.insertOne sha256d row).cache_parents }) := by
  obtain ⟨aux, haux, hlen⟩ := h
  have hwork : parentWork aux.parent_header = .ok (newParent sha256d aux).work := by
    unfold parentWork
    rw [if_neg (by omega)]
    rfl
  unfold indexRow insertOne
  simp only [haux, hwork]
  split_ifs <;> exact ⟨rfl, rfl⟩

theorem insertRow_ok (db : Database) {row : BlockRow} (h : Witnessed row) :
    insertRow sha256d db.redb row = .ok (db.insertOne sha256d row).redb := by
  obtain ⟨aux, haux, -⟩ := h
  unfold insertRow insertOne
  simp only [StoredBlock.parentHash, haux, Option.map_some]

theorem foldlM_insertRow (rows : List BlockRow) (db : Database) (h : ∀ row ∈ rows, Witnessed row) :
    rows.foldlM (insertRow sha256d) db.redb = .ok (rows.foldl (insertOne sha256d) db).redb := by
  induction rows generalizing db with
  | nil => rfl
  | cons row rows ih =>
    rw [List.foldlM_cons, insertRow_ok sha256d db (h row List.mem_cons_self), List.foldl_cons]
    exact ih _ fun r hr => h r (List.mem_cons_of_mem _ hr)

/-- The index loop reads and writes two caches only. -/
theorem indexRows_ok (rows : List BlockRow) (db db₀ : Database) (h : ∀ row ∈ rows, Witnessed row)
    (hs : db.cache_siblings = db₀.cache_siblings) (hp : db.cache_parents = db₀.cache_parents) :
    db.indexRows sha256d rows = (.ok (), { db with
      cache_siblings := (rows.foldl (insertOne sha256d) db₀).cache_siblings
      cache_parents := (rows.foldl (insertOne sha256d) db₀).cache_parents }) := by
  induction rows generalizing db db₀ with
  | nil =>
    unfold indexRows
    rw [List.foldl_nil, ← hs, ← hp]
  | cons row rows ih =>
    have hrow := h row List.mem_cons_self
    have hone : (db.insertOne sha256d row).cache_siblings = (db₀.insertOne sha256d row).cache_siblings ∧
        (db.insertOne sha256d row).cache_parents = (db₀.insertOne sha256d row).cache_parents := by
      obtain ⟨aux, haux, -⟩ := hrow
      unfold insertOne
      simp only [haux, siblings, hs, hp, and_self]
    rw [indexRows, (indexRow_ok sha256d db hrow).2]
    simp only [List.foldl_cons]
    exact ih _ (db₀.insertOne sha256d row) (fun r hr => h r (List.mem_cons_of_mem _ hr)) hone.1 hone.2

theorem insertOne_frame (db : Database) (row : BlockRow) :
    (db.insertOne sha256d row).redb.parent_blocks = db.redb.parent_blocks ∧
      (db.insertOne sha256d row).redb.metadata = db.redb.metadata ∧
      (db.insertOne sha256d row).redb.swap_intents = db.redb.swap_intents ∧
      (db.insertOne sha256d row).cache_meta = db.cache_meta ∧
      (db.insertOne sha256d row).cache_intents = db.cache_intents := by
  unfold insertOne
  split <;> exact ⟨rfl, rfl, rfl, rfl, rfl⟩

/-- A committed batch is its rows, one after another. -/
theorem insertBlocks_ok (db : Database) (rows : List BlockRow) (h : ∀ row ∈ rows, Witnessed row) :
    db.insertBlocks sha256d true rows = (.ok (), rows.foldl (insertOne sha256d) db) := by
  have hcache : ∀ (rows : List BlockRow) (db : Database), (∀ row ∈ rows, Witnessed row) →
      (rows.foldl (insertOne sha256d) db).cache_blocks = db.cache_blocks.insertAll rows ∧
        (rows.foldl (insertOne sha256d) db).cache_meta = db.cache_meta ∧
        (rows.foldl (insertOne sha256d) db).cache_intents = db.cache_intents := by
    intro rows
    induction rows with
    | nil => exact fun _ _ => ⟨rfl, rfl, rfl⟩
    | cons row rows ih =>
      intro db h
      obtain ⟨h1, h2, h3⟩ := ih (db.insertOne sha256d row) fun r hr => h r (List.mem_cons_of_mem _ hr)
      obtain ⟨-, -, -, hm, hi⟩ := insertOne_frame sha256d db row
      obtain ⟨aux, haux, -⟩ := h row List.mem_cons_self
      refine ⟨?_, h2.trans hm, h3.trans hi⟩
      rw [List.foldl_cons, h1, insertOne]
      simp only [haux]
      rfl
  by_cases hnil : rows = []
  · subst hnil
    rfl
  · obtain ⟨hb, hm, hi⟩ := hcache rows db h
    unfold insertBlocks
    rw [if_neg hnil]
    simp only [foldlM_insertRow sha256d rows db h, if_true]
    have hindex := indexRows_ok sha256d rows
      { db with redb := (rows.foldl (insertOne sha256d) db).redb, cache_blocks := db.cache_blocks.insertAll rows } db h rfl rfl
    rw [hindex, ← hb, ← hm, ← hi]

/-! ## Dropping blocks of one chain -/

/-- The block is not one of those dropped. -/
def keepBlock (chain_id : UInt32) (drop : UInt64 → Bool) (b : StoredBlock) : Bool :=
  !(b.chain_id = chain_id && drop b.height)

/-- The row is not one of those dropped. -/
def keepKey (chain_id : UInt32) (drop : UInt64 → Bool) (k : BlockKey) : Bool := !(k.chain_id = chain_id && drop k.height)

theorem keepKey_eq_false {chain_id : UInt32} {drop : UInt64 → Bool} {k : BlockKey} :
    keepKey chain_id drop k = false ↔ k.chain_id = chain_id ∧ drop k.height = true := by
  simp [keepKey]

theorem get?_filter_keepKey {α : Type} (m : KMap BlockKey α) (c c' : UInt32) (drop : UInt64 → Bool) (h : UInt64) :
    (m.filter (fun k _ => keepKey c drop k)).get? ⟨c', h⟩ =
      if c' = c ∧ drop h = true then none else m.get? ⟨c', h⟩ := by
  rw [KMap.get?_filter]
  cases hget : m.get? ⟨c', h⟩ with
  | none => simp
  | some b => by_cases hk : c' = c ∧ drop h = true <;> simp [Option.filter, keepKey, hk]

theorem get?_eraseSiblingRows (parents : List Hash32) (t : KMap SiblingKey Unit) (chain_id : UInt32)
    (from_height : UInt64) (k : SiblingKey) :
    (eraseSiblingRows t parents chain_id from_height).get? k =
      if k.parent ∈ parents ∧ k.chain_id = chain_id ∧ from_height ≤ k.height then none else t.get? k := by
  induction parents generalizing t with
  | nil => simp [eraseSiblingRows]
  | cons p parents ih =>
    have hone : (t.eraseAll ((t.range ⟨p, chain_id, from_height⟩ ⟨p, chain_id, u64Max⟩).map Prod.fst)).get? k =
        if k.parent = p ∧ k.chain_id = chain_id ∧ from_height ≤ k.height then none else t.get? k := by
      have hmax : k.height ≤ u64Max := UInt64.le_iff_toNat_le.2 (Nat.le_of_lt_succ k.height.toNat_lt)
      rw [KMap.range, KMap.eraseAll_filter, KMap.get?_filter]
      simp only [SiblingKey.mem_window, hmax, and_true]
      cases t.get? k with
      | none => simp
      | some v =>
        by_cases hk : k.parent = p ∧ k.chain_id = chain_id ∧ from_height ≤ k.height <;> simp [Option.filter, hk]
    refine (ih _).trans ?_
    rw [hone]
    by_cases hp : k.parent = p
    · simp only [hp, List.mem_cons, true_or, true_and]
      split_ifs <;> simp_all
    · simp [hp]

theorem get?_retainSiblings (parents : List Hash32) (m : KMap Hash32 (List StoredBlock)) (chain_id : UInt32)
    (drop : UInt64 → Bool) (p : Hash32) :
    (retainSiblings m parents chain_id drop).get? p =
      if p ∈ parents then (m.get? p).map (List.filter (keepBlock chain_id drop)) else m.get? p := by
  induction parents generalizing m with
  | nil => simp [retainSiblings]
  | cons q parents ih =>
    refine (ih (m.modify q (List.filter (keepBlock chain_id drop)))).trans ?_
    rw [KMap.get?_modify]
    by_cases hpq : p = q
    · subst hpq
      cases m.get? p with
      | none => simp
      | some l => by_cases hp : p ∈ parents <;> simp [hp]
    · simp [hpq]

theorem mem_rowParents {rows : List BlockRow} {p : Hash32} :
    p ∈ rowParents sha256d rows ↔ ∃ row ∈ rows, row.2.parentHash sha256d = some p := by
  rw [rowParents, List.mem_dedup, List.mem_mergeSort, List.mem_filterMap]

/-- The cached rows that a drop removes. -/
def droppedRows (db : Database) (chain_id : UInt32) (drop : UInt64 → Bool) : List BlockRow :=
  db.cache_blocks.entries.filter (fun e => e.1.chain_id = chain_id && drop e.1.height)

theorem mem_droppedParents {db : Database} {chain_id : UInt32} {drop : UInt64 → Bool} {p : Hash32} :
    p ∈ rowParents sha256d (db.droppedRows chain_id drop) ↔
      ∃ k b, db.cache_blocks.get? k = some b ∧ k.chain_id = chain_id ∧ drop k.height = true ∧
        b.parentHash sha256d = some p := by
  simp only [mem_rowParents, droppedRows, List.mem_filter, Bool.and_eq_true, decide_eq_true_eq, Prod.exists,
    KMap.mem_entries, and_assoc]

/-- The sibling cache after a drop. -/
def keptSiblings (db : Database) (chain_id : UInt32) (drop : UInt64 → Bool) : KMap Hash32 (List StoredBlock) :=
  retainSiblings db.cache_siblings (rowParents sha256d (db.droppedRows chain_id drop)) chain_id drop

/-- The parents of dropped blocks that have no block left. -/
def emptiedParents (db : Database) (chain_id : UInt32) (drop : UInt64 → Bool) : List Hash32 :=
  (rowParents sha256d (db.droppedRows chain_id drop)).filter
    (fun p => (db.keptSiblings sha256d chain_id drop).get? p == some [])

/-- The store after a rollback, before the cursor moves. -/
def rolledBack (db : Database) (chain_id : UInt32) (from_height : UInt64) : Database where
  redb :=
    { db.redb with
      aux_blocks := db.redb.aux_blocks.filter (fun k _ => keepKey chain_id (from_height ≤ ·) k)
      sibling_index := eraseSiblingRows db.redb.sibling_index db.cache_parents.keys chain_id from_height
      parent_blocks := db.redb.parent_blocks.eraseAll (db.emptiedParents sha256d chain_id (from_height ≤ ·)) }
  cache_blocks := db.cache_blocks.filter (fun k _ => keepKey chain_id (from_height ≤ ·) k)
  cache_siblings :=
    (db.keptSiblings sha256d chain_id (from_height ≤ ·)).eraseAll (db.emptiedParents sha256d chain_id (from_height ≤ ·))
  cache_parents := db.cache_parents.eraseAll (db.emptiedParents sha256d chain_id (from_height ≤ ·))
  cache_meta := db.cache_meta
  cache_intents := db.cache_intents

/-- The store after pruning. -/
def prunedBelow (db : Database) (chain_id : UInt32) (below : UInt64) : Database :=
  { db with
    redb := { db.redb with
      aux_blocks := db.redb.aux_blocks.filter (fun k _ => keepKey chain_id (· < below) k)
      sibling_index := db.redb.sibling_index.eraseAll ((db.chainRows chain_id 0 (saturatingSub below 1)).filterMap
        (fun row => (row.2.parentHash sha256d).map (fun p => ⟨p, row.1.chain_id, row.1.height⟩))) }
    cache_blocks := db.cache_blocks.filter (fun k _ => keepKey chain_id (· < below) k)
    cache_siblings := db.keptSiblings sha256d chain_id (· < below) }

theorem eraseAll_chainRows (db : Database) (c : UInt32) (from_height : UInt64) :
    db.redb.aux_blocks.eraseAll ((db.chainRows c from_height u64Max).map Prod.fst) =
      db.redb.aux_blocks.filter (fun k _ => keepKey c (from_height ≤ ·) k) := by
  rw [chainRows, KMap.range, KMap.eraseAll_filter]
  congr 1
  funext k v
  have hmax : k.height ≤ u64Max := UInt64.le_iff_toNat_le.2 (Nat.le_of_lt_succ k.height.toNat_lt)
  simp [BlockKey.mem_window, keepKey, hmax]

theorem eraseAll_droppedRows (db : Database) (c : UInt32) (drop : UInt64 → Bool) :
    db.cache_blocks.eraseAll ((db.droppedRows c drop).map Prod.fst) =
      db.cache_blocks.filter (fun k _ => keepKey c drop k) := by
  rw [droppedRows, KMap.eraseAll_filter]
  rfl

theorem rollbackFrom_true (db : Database) (chain_id : UInt32) (from_height : UInt64) :
    (db.rollbackFrom sha256d true (fun _ => true) true chain_id from_height).2 =
      ((db.rolledBack sha256d chain_id from_height).rewindCursor true chain_id from_height).2 := by
  unfold rollbackFrom rolledBack
  simp only [not_true, if_false, List.filter_true]
  rw [← eraseAll_chainRows, ← eraseAll_droppedRows]
  split <;> rename_i hr <;> exact (congrArg Prod.snd hr).symm

theorem pruneBefore_true (db : Database) (chain_id : UInt32) {below : UInt64} (hbelow : 1 ≤ below) :
    (db.pruneBefore sha256d true chain_id below).2 = db.prunedBelow sha256d chain_id below := by
  have hkeys : db.redb.aux_blocks.eraseAll ((db.chainRows chain_id 0 (saturatingSub below 1)).map Prod.fst) =
      db.redb.aux_blocks.filter (fun k _ => keepKey chain_id (· < below) k) := by
    rw [chainRows, KMap.range, KMap.eraseAll_filter]
    congr 1
    funext k v
    simp [BlockKey.mem_window, keepKey, le_saturatingSub_one hbelow]
  unfold pruneBefore prunedBelow
  simp only [not_true, if_false]
  rw [← hkeys, ← eraseAll_droppedRows]
  rfl

theorem mem_chainRows {db : Database} {c : UInt32} {lo hi : UInt64} {row : BlockRow} :
    row ∈ db.chainRows c lo hi ↔
      db.redb.aux_blocks.get? row.1 = some row.2 ∧ row.1.chain_id = c ∧ lo ≤ row.1.height ∧ row.1.height ≤ hi := by
  obtain ⟨k, b⟩ := row
  rw [chainRows, KMap.mem_range, BlockKey.mem_window]

/-- With no row to remove, nothing happens. -/
theorem pruneBefore_nothing {db : Database} {c : UInt32} {below : UInt64}
    (hrows : db.chainRows c 0 (saturatingSub below 1) = []) (hcache : db.droppedRows c (· < below) = []) :
    db.pruneBefore sha256d true c below = (.ok 0, db) := by
  have hparents : rowParents sha256d [] = [] := by simp [rowParents]
  unfold droppedRows at hcache
  unfold pruneBefore
  simp only [not_true, if_false, hrows, hcache, hparents]
  rfl

/-- A pruning below 0 that finds no block 0 changes nothing. -/
theorem pruneBefore_zero {db : Database} {c : UInt32} (h : db.redb.aux_blocks.get? ⟨c, 0⟩ = none) :
    db.pruneBefore sha256d true c 0 = (.ok 0, db) := by
  apply pruneBefore_nothing
  · refine List.eq_nil_iff_forall_not_mem.2 fun row hrow => ?_
    obtain ⟨hget, hc, hlo, hhi⟩ := mem_chainRows.1 hrow
    have hkey : row.1 = ⟨c, 0⟩ := by
      have hsat : saturatingSub 0 1 = 0 := rfl
      obtain ⟨⟨c', h'⟩, b⟩ := row
      simp only [hsat] at hc hlo hhi
      rw [hc, UInt64.le_antisymm hhi hlo]
    rw [hkey, h] at hget
    cases hget
  · refine List.filter_eq_nil_iff.2 fun e _ he => ?_
    simp only [Bool.and_eq_true, decide_eq_true_eq] at he
    exact UInt64.not_lt_zero he.2

end Sha

/-! ## Metadata -/

/-- The store with a metadata value in the table and the cache. -/
def withMeta (db : Database) (key value : String) : Database :=
  { db with
    redb := { db.redb with metadata := db.redb.metadata.insert key value }
    cache_meta := db.cache_meta.insert key value }

/-- Every metadata value is cached. -/
def MetaSynced (db : Database) : Prop := db.cache_meta = db.redb.metadata

theorem MetaSynced.withMeta {db : Database} (h : db.MetaSynced) (key value : String) :
    (db.withMeta key value).MetaSynced := by
  unfold MetaSynced at h ⊢
  simp only [Database.withMeta, h]

theorem MetaSynced.getMeta {db : Database} (h : db.MetaSynced) (key : String) :
    db.getMeta key = (db.cache_meta.get? key, db) := by
  unfold Database.getMeta
  cases hk : db.cache_meta.get? key with
  | some v => rfl
  | none =>
    rw [h] at hk
    simp only [hk]

/-- The cursor of a chain as the cache has it. -/
def cursorOf (db : Database) (chain_id : UInt32) : Option UInt64 :=
  ((db.cache_meta.get? (cursorKey chain_id)).bind (parseDec (2 ^ 64))).map UInt64.ofNat

theorem MetaSynced.cursorHeight {db : Database} (h : db.MetaSynced) (chain_id : UInt32) :
    db.cursorHeight chain_id = (db.cursorOf chain_id, db) := by
  unfold Database.cursorHeight
  rw [h.getMeta]
  rfl

theorem parseDec_toString (h : UInt64) : parseDec (2 ^ 64) (toString h) = some h.toNat :=
  parseDec_repr h.toNat_lt

theorem cursorKey_inj {c c' : UInt32} (h : cursorKey c = cursorKey c') : c = c' := by
  have hl : (toString c).toList ++ ".cursor_height".toList = (toString c').toList ++ ".cursor_height".toList := by
    rw [← String.toList_append, ← String.toList_append]
    exact congrArg String.toList h
  have hs : toString c.toNat = toString c'.toNat := String.toList_injective (List.append_cancel_right hl)
  exact UInt32.toNat_inj.1 (repr_injective hs)

theorem cursorKey_ne_chainKey (c c' : UInt32) : cursorKey c ≠ chainKey c' := by
  intro h
  have hl : (toString c.toNat).toList ++ ".cursor_height".toList = "chain.".toList ++ (toString c').toList := by
    have := congrArg String.toList h
    rwa [cursorKey, chainKey, String.toList_append, String.toList_append] at this
  have hne : (toString c.toNat).toList ≠ [] := by
    rw [Nat.toString_eq_repr, Nat.toList_repr]
    exact Nat.toDigits_ne_nil
  obtain ⟨d, ds, hd⟩ := List.exists_cons_of_ne_nil hne
  have hdigit : d.isDigit := by
    apply @Nat.isDigit_of_mem_toDigits 10 c.toNat _ (by decide) (by decide)
    rw [← Nat.toList_repr, ← Nat.toString_eq_repr, hd]
    exact List.mem_cons_self
  rw [hd] at hl
  have hc : d = 'c' := (List.cons.inj hl).1
  rw [hc] at hdigit
  exact absurd hdigit (by decide)

theorem cursorOf_withMeta (db : Database) (c c' : UInt32) (h : UInt64) :
    (db.withMeta (cursorKey c) (toString h)).cursorOf c' = if c' = c then some h else db.cursorOf c' := by
  unfold cursorOf withMeta
  simp only [KMap.get?_insert]
  by_cases hc : c' = c
  · rw [if_pos hc, if_pos (by rw [hc]), Option.bind_some, parseDec_toString, Option.map_some, UInt64.ofNat_toNat]
  · have hk : cursorKey c' ≠ cursorKey c := fun he => hc (cursorKey_inj he)
    simp [hc, hk]

theorem cursorOf_withMeta_chain (db : Database) (c c' : UInt32) (v : String) :
    (db.withMeta (chainKey c) v).cursorOf c' = db.cursorOf c' := by
  unfold cursorOf withMeta
  simp only [KMap.get?_insert, if_neg (cursorKey_ne_chainKey c' c)]

theorem setCursorHeight_true (db : Database) (c : UInt32) (h : UInt64) :
    db.setCursorHeight true c h = (.ok (), db.withMeta (cursorKey c) (toString h)) := rfl

/-- A registered chain: nothing changes, or its registry value is set. -/
theorem MetaSynced.upsertChain {db : Database} (h : db.MetaSynced) (c : UInt32) (name electrs : String) :
    db.upsertChain true c name electrs = (.ok (), db) ∨
      db.upsertChain true c name electrs = (.ok (), db.withMeta (chainKey c) (name ++ "|" ++ electrs)) := by
  unfold Database.upsertChain
  simp only [h.getMeta]
  split_ifs
  · exact .inl rfl
  · exact .inr rfl

/-- The cursor after a rewind: below the height, unless it already was. -/
theorem MetaSynced.rewindCursor {db : Database} (h : db.MetaSynced) (c : UInt32) (from_height : UInt64) :
    db.rewindCursor true c from_height = (.ok (), if ∃ hh, db.cursorOf c = some hh ∧ from_height ≤ hh then
      db.withMeta (cursorKey c) (toString (saturatingSub from_height 1)) else db) := by
  unfold Database.rewindCursor cursorOf
  rw [h.getMeta]
  simp only
  cases hv : (db.cache_meta.get? (cursorKey c)).bind (parseDec (2 ^ 64)) with
  | none => simp
  | some hh =>
    have hlt : hh < 2 ^ 64 := by
      obtain ⟨s, -, hs⟩ := Option.bind_eq_some_iff.1 hv
      unfold parseDec at hs
      simp only at hs
      split_ifs at hs with h1 h2
      cases hs
      exact h2
    have hle : from_height ≤ UInt64.ofNat hh ↔ from_height.toNat ≤ hh := by
      rw [UInt64.le_iff_toNat_le, UInt64.toNat_ofNat_of_lt' hlt]
    simp only [Option.map_some, Option.some.injEq, exists_eq_left', hle]
    split_ifs <;> rfl

end Database

end PsobIndexer
