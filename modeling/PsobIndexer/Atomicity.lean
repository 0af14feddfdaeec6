import PsobIndexer.Db
import PsobIndexer.Chain
/-!
# What a failed mutation leaves behind

`set_meta`, `classify_parent`, `insert_intent` and `insert_blocks` write their
cache before the transaction that may fail. `SameAnswers` compares every query
before and after a call; `failed_mutation_iff` says for each mutator which
failed calls are invisible.
-/
open Lib

namespace PsobIndexer

/-- An order in which a map yields its rows: every row once, and rows that stay
keep their places when others go. -/
structure IterOrder {α : Type} (iter : List α → List α) : Prop where
  perm : ∀ l, (iter l).Perm l
  filter : ∀ (p : α → Bool) (l : List α), iter (l.filter p) = (iter l).filter p

theorem IterOrder.id {α : Type} : IterOrder (fun l : List α => l) := ⟨fun _ => .refl _, fun _ _ => rfl⟩

/-- The queries answer in `db'` as in `db`. The clock does not go back, so
intents are listed at `now` or later. -/
structure SameAnswers (now : UInt64) (db db' : Database) : Prop where
  blockAt : ∀ c h, (db'.blockAt c h).1 = (db.blockAt c h).1
  stats : db'.stats = db.stats
  cursorHeight : ∀ c, (db'.cursorHeight c).1 = (db.cursorHeight c).1
  getMeta : ∀ key, (db'.getMeta key).1 = (db.getMeta key).1
  listIntents : ∀ iter prune_now list_now source target protocol page, IterOrder iter → now ≤ prune_now →
    prune_now ≤ list_now →
      (db'.listIntents iter true prune_now list_now source target protocol page).1 =
        (db.listIntents iter true prune_now list_now source target protocol page).1
  getParent : ∀ p, (db'.getParent p).1 = (db.getParent p).1
  unclassifiedParents : ∀ iter, IterOrder iter → db'.unclassifiedParents iter = db.unclassifiedParents iter

theorem SameAnswers.refl (now : UInt64) (db : Database) : SameAnswers now db db :=
  ⟨fun _ _ => rfl, rfl, fun _ => rfl, fun _ => rfl, fun _ _ _ _ _ _ _ _ _ _ => rfl, fun _ => rfl, fun _ _ => rfl⟩

namespace Database

theorem getMeta_fst (db : Database) (key : String) :
    (db.getMeta key).1 = (db.cache_meta.get? key).or (db.redb.metadata.get? key) := by
  unfold getMeta
  cases db.cache_meta.get? key with
  | some v => rfl
  | none => cases db.redb.metadata.get? key <;> rfl

/-- Reading metadata may fill its cache, and changes nothing else. -/
theorem getMeta_frame (db : Database) (key : String) : ∃ m, (db.getMeta key).2 = { db with cache_meta := m } := by
  unfold getMeta
  cases db.cache_meta.get? key with
  | some v => exact ⟨db.cache_meta, rfl⟩
  | none => cases db.redb.metadata.get? key <;> exact ⟨_, rfl⟩

theorem cursorHeight_fst (db : Database) (c : UInt32) :
    (db.cursorHeight c).1 = (((db.getMeta (cursorKey c)).1).bind (parseDec (2 ^ 64))).map UInt64.ofNat := rfl

theorem blockAt_fst (db : Database) (c : UInt32) (h : UInt64) :
    (db.blockAt c h).1 = (db.cache_blocks.get? ⟨c, h⟩).or (db.redb.aux_blocks.get? ⟨c, h⟩) := by
  unfold blockAt
  cases db.cache_blocks.get? ⟨c, h⟩ with
  | some v => rfl
  | none => cases db.redb.aux_blocks.get? ⟨c, h⟩ <;> rfl

theorem getParent_fst (db : Database) (p : Hash32) :
    (db.getParent p).1 = (db.cache_parents.get? p).or (db.redb.parent_blocks.get? p) := by
  unfold getParent
  cases db.cache_parents.get? p with
  | some v => rfl
  | none => cases db.redb.parent_blocks.get? p <;> rfl

/-! ## Expired intents -/

/-- The ids of the intents that have expired at `now`. -/
def expiredIds (db : Database) (now : UInt64) : List String :=
  (db.cache_intents.entries.filter (fun e => e.2.expiry ≤ now)).map Prod.fst

theorem mem_expiredIds {db : Database} {now : UInt64} {id : String} :
    id ∈ db.expiredIds now ↔ ∃ i, db.cache_intents.get? id = some i ∧ i.expiry ≤ now := by
  simp only [expiredIds, List.mem_map, List.mem_filter, decide_eq_true_eq, Prod.exists, exists_and_right,
    exists_eq_right, KMap.mem_entries]

/-- The store with the expired intents gone. -/
def pruned (db : Database) (now : UInt64) : Database :=
  { db with
    redb := { db.redb with swap_intents := db.redb.swap_intents.eraseAll (db.expiredIds now) }
    cache_intents := db.cache_intents.eraseAll (db.expiredIds now) }

theorem pruneExpiredIntents_true (db : Database) (now : UInt64) :
    db.pruneExpiredIntents true now = (.ok (db.expiredIds now).length, db.pruned now) := by
  unfold pruneExpiredIntents pruned
  change (if (db.expiredIds now).length = 0 then _ else _) = _
  split
  · rename_i hn
    rw [List.length_eq_zero_iff.1 hn]
    rfl
  · rfl

theorem pruned_cache (db : Database) (now : UInt64) :
    (db.pruned now).cache_intents = db.cache_intents.filter (fun _ i => now < i.expiry) := by
  apply KMap.ext_get?
  intro id
  rw [KMap.get?_filter, pruned, KMap.get?_eraseAll]
  cases h : db.cache_intents.get? id with
  | none => simp
  | some i =>
    by_cases he : i.expiry ≤ now
    · have hmem : id ∈ db.expiredIds now := mem_expiredIds.2 ⟨i, h, he⟩
      simp [hmem, he, Option.filter]
    · have hmem : id ∉ db.expiredIds now := by
        intro hm
        obtain ⟨j, hj, hle⟩ := mem_expiredIds.1 hm
        rw [h] at hj
        cases hj
        exact he hle
      simp [hmem, he, Option.filter]

/-- A list of live intents reads the live part of the book only. -/
theorem matchingIntents_congr {iter : List (String × SwapIntentMessage) → List (String × SwapIntentMessage)}
    (hiter : IterOrder iter) {now list_now : UInt64} (hle : now ≤ list_now) {db db' : Database}
    (h : db'.cache_intents.filter (fun _ i => now < i.expiry) = db.cache_intents.filter (fun _ i => now < i.expiry))
    (source target : Option UInt32) (protocol : Option String) :
    db'.matchingIntents iter list_now source target protocol = db.matchingIntents iter list_now source target protocol := by
  have hlive : ∀ d : Database, d.matchingIntents iter list_now source target protocol =
      (((iter (d.cache_intents.filter (fun _ i => now < i.expiry)).entries).map Prod.snd).filter
        (fun i => i.expiry > list_now && source.all (i.from_chain == ·) && target.all (i.to_chain == ·) &&
          protocol.all (i.protocol == ·))).mergeSort (fun a b => b.timestamp ≤ a.timestamp) := by
    intro d
    unfold matchingIntents
    rw [KMap.filter, hiter.filter, List.filter_map, List.filter_map, List.filter_filter]
    congr 2
    apply List.filter_congr
    intro e _
    by_cases hn : list_now < e.2.expiry
    · simp [hn, lt_of_le_of_lt hle hn]
    · simp [hn]
  rw [hlive, hlive, h]

/-- Pruning first does not show in a list that leaves expired intents out. -/
theorem listIntents_true {iter : List (String × SwapIntentMessage) → List (String × SwapIntentMessage)}
    (hiter : IterOrder iter) {prune_now now : UInt64} (hle : prune_now ≤ now) (db : Database)
    (source target : Option UInt32) (protocol : Option String) (page : Page) :
    (db.listIntents iter true prune_now now source target protocol page).1 =
      .ok (page.slice (db.matchingIntents iter now source target protocol),
        (db.matchingIntents iter now source target protocol).length) := by
  have hlive : (db.pruned prune_now).cache_intents.filter (fun _ i => prune_now < i.expiry) =
      db.cache_intents.filter (fun _ i => prune_now < i.expiry) := by
    apply KMap.ext_get?
    intro id
    rw [pruned_cache, KMap.get?_filter, KMap.get?_filter]
    cases db.cache_intents.get? id with
    | none => rfl
    | some i => by_cases hi : prune_now < i.expiry <;> simp [Option.filter, hi]
  unfold listIntents
  rw [pruneExpiredIntents_true]
  simp only [matchingIntents_congr hiter hle hlive]

/-! ## Counting cached blocks -/

/-- The number of blocks in the counters of all chains. -/
def blockTotal (m : KMap UInt32 ChainStats) : Nat := (m.entries.map (fun e => e.2.blocks)).sum

theorem blockTotal_insert (m : KMap UInt32 ChainStats) (c : UInt32) (e : ChainStats) :
    blockTotal (m.insert c e) = e.blocks + blockTotal (m.erase c) :=
  ((m.insert_perm c e).map _).sum_eq

theorem blockTotal_countRow (m : KMap UInt32 ChainStats) (row : BlockRow) :
    blockTotal (countRow m row) = blockTotal m + 1 := by
  unfold countRow
  simp only [blockTotal_insert]
  cases h : m.get? row.1.chain_id with
  | none =>
    rw [KMap.erase_of_none h]
    simp
    omega
  | some e =>
    have hm : blockTotal m = e.blocks + blockTotal (m.erase row.1.chain_id) := ((KMap.erase_perm h).map _).sum_eq
    simp only [Option.getD_some, hm]
    omega

theorem blockTotal_foldl (rows : List BlockRow) (m : KMap UInt32 ChainStats) :
    blockTotal (rows.foldl countRow m) = blockTotal m + rows.length := by
  induction rows generalizing m with
  | nil => rfl
  | cons row rows ih =>
    rw [List.foldl_cons, ih, blockTotal_countRow, List.length_cons]
    omega

/-- The counters of `stats` add up to the number of cached blocks. -/
theorem stats_total (db : Database) : (db.stats.chains.map (·.blocks)).sum = db.cache_blocks.size := by
  have h := blockTotal_foldl db.cache_blocks.entries .empty
  rw [blockTotal, blockTotal, ← Function.comp_def (fun e : ChainStats => e.blocks) Prod.snd, ← List.map_map] at h
  simpa [stats, KMap.size, KMap.empty] using h

end Database

open Database

/-- Stores with the same blocks and parents, the same metadata and the same live
intents answer alike. -/
theorem SameAnswers.of_parts {now : UInt64} {db db' : Database} (hblocks : db'.cache_blocks = db.cache_blocks)
    (haux : db'.redb.aux_blocks = db.redb.aux_blocks) (hsiblings : db'.cache_siblings = db.cache_siblings)
    (hparents : db'.cache_parents = db.cache_parents) (hdisk : db'.redb.parent_blocks = db.redb.parent_blocks)
    (hmeta : ∀ key, (db'.getMeta key).1 = (db.getMeta key).1)
    (hlive : db'.cache_intents.filter (fun _ i => now < i.expiry) = db.cache_intents.filter (fun _ i => now < i.expiry)) :
    SameAnswers now db db' where
  blockAt c h := by rw [blockAt_fst, blockAt_fst, hblocks, haux]
  stats := by
    have hgroup : db'.isSiblingGroup = db.isSiblingGroup := by
      funext e
      rw [isSiblingGroup, isSiblingGroup, hsiblings]
    simp only [Database.stats, totalBlocks, haux, hparents, hblocks, hgroup]
  cursorHeight c := by rw [cursorHeight_fst, cursorHeight_fst, hmeta]
  getMeta := hmeta
  listIntents := by
    intro iter prune_now list_now source target protocol page hiter hle hle'
    rw [listIntents_true hiter hle', listIntents_true hiter hle', matchingIntents_congr hiter (le_trans hle hle') hlive]
  getParent p := by rw [getParent_fst, getParent_fst, hparents, hdisk]
  unclassifiedParents iter _ := by simp only [Database.unclassifiedParents, hparents]

/-- A larger map with as many rows is the same map. -/
theorem get?_eq_of_size {m m' : KMap BlockKey StoredBlock} (hkeys : ∀ k, m'.get? k = none → m.get? k = none)
    (hsize : m'.size = m.size) {k : BlockKey} {b : StoredBlock} (hk : m'.get? k = some b) : m.get? k ≠ none := by
  intro hnone
  have hsub : (k :: m.keys).Subperm m'.keys := by
    apply List.subperm_of_subset
    · refine List.nodup_cons.2 ⟨?_, m.keys_nodup⟩
      intro hm
      obtain ⟨v, hv⟩ := KMap.mem_keys.1 hm
      rw [hnone] at hv
      cases hv
    · intro x hx
      rw [KMap.mem_keys, ← Option.ne_none_iff_exists']
      rcases List.mem_cons.1 hx with rfl | hx
      · rw [hk]
        exact Option.some_ne_none b
      · obtain ⟨v, hv⟩ := KMap.mem_keys.1 hx
        intro hx'
        rw [hkeys x hx'] at hv
        cases hv
  have hlen := hsub.length_le
  simp only [List.length_cons, KMap.keys, List.length_map, KMap.size] at hlen hsize
  omega

/-! ## Failed batches -/

theorem indexRow_error {sha256d : Bytes → Hash32} {db db' : Database} {row : BlockRow} {e : DbError}
    (h : db.indexRow sha256d row = (.error e, db')) : e = .indexOutOfBounds := by
  unfold indexRow at h
  cases haux : row.2.header.aux with
  | none => simp [haux] at h
  | some aux =>
    simp only [haux, parentWork] at h
    split_ifs at h <;> simp_all

theorem indexRows_error {sha256d : Bytes → Hash32} {rows : List BlockRow} {db db' : Database} {e : DbError}
    (h : db.indexRows sha256d rows = (.error e, db')) : e = .indexOutOfBounds := by
  induction rows generalizing db with
  | nil => simp [indexRows] at h
  | cons row rows ih =>
    simp only [indexRows] at h
    split at h
    · rename_i e' db₁ hrow
      simp only [Prod.mk.injEq, Except.error.injEq] at h
      rw [← h.1]
      exact indexRow_error hrow
    · exact ih h

/-- A batch that fails has changed the block cache and nothing else. -/
theorem insertBlocks_error {sha256d : Bytes → Hash32} {commit : Bool} {db db' : Database} {blocks : List BlockRow}
    {e : DbError} (h : db.insertBlocks sha256d commit blocks = (.error e, db')) (he : e ≠ .indexOutOfBounds) :
    db' = { db with cache_blocks := db.cache_blocks.insertAll blocks } := by
  unfold insertBlocks at h
  split at h
  · simp at h
  · simp only at h
    split at h
    · simp only [Prod.mk.injEq] at h
      exact h.2.symm
    · split at h
      · exact absurd (indexRows_error h) he
      · simp only [Prod.mk.injEq] at h
        exact h.2.symm

/-- Caching a batch shows unless the cache has the last row of each key. -/
theorem cacheBlocks_sameAnswers_iff (now : UInt64) (db : Database) (blocks : List BlockRow) :
    SameAnswers now db { db with cache_blocks := db.cache_blocks.insertAll blocks } ↔
      ∀ k b, blocks.reverse.lookup k = some b → db.cache_blocks.get? k = some b := by
  constructor
  · intro h k b hb
    have hnew : (db.cache_blocks.insertAll blocks).get? k = some b := by
      rw [KMap.get?_insertAll_last, hb]
      rfl
    have hkeys : ∀ k', (db.cache_blocks.insertAll blocks).get? k' = none → db.cache_blocks.get? k' = none := by
      intro k' hk'
      rw [KMap.get?_insertAll_last, Option.or_eq_none_iff] at hk'
      exact hk'.2
    have hsize : (db.cache_blocks.insertAll blocks).size = db.cache_blocks.size := by
      rw [← stats_total db, ← h.stats, stats_total]
    have hat := h.blockAt k.chain_id k.height
    rw [blockAt_fst, blockAt_fst] at hat
    simp only [hnew, Option.some_or] at hat
    -- the block is not merely on disk: a newly cached row would be counted
    cases hold : db.cache_blocks.get? k with
    | none => exact absurd hold (get?_eq_of_size hkeys hsize hnew)
    | some b' =>
      rw [hold, Option.some_or] at hat
      exact hat.symm
  · intro h
    have hsame : db.cache_blocks.insertAll blocks = db.cache_blocks := by
      apply KMap.ext_get?
      intro k
      rw [KMap.get?_insertAll_last]
      cases hb : blocks.reverse.lookup k with
      | none => rfl
      | some b => exact (h k b hb).symm
    rw [hsame]
    exact SameAnswers.refl now db

/-! ## Failed intents -/

/-- An intent whose transaction fails has pruned the book and gone into the
cache, unless pruning itself failed. -/
theorem insertIntent_error {prune_commit commit : Bool} {now : UInt64} {db db' : Database} {intent : SwapIntentMessage}
    (h : db.insertIntent prune_commit commit now intent = (.error .redb, db')) :
    (prune_commit = false ∧ db.expiredIds now ≠ [] ∧ db' = db) ∨
      ((prune_commit = true ∨ db.expiredIds now = []) ∧
        db' = { db.pruned now with cache_intents := (db.pruned now).cache_intents.insert intent.intent_id intent }) := by
  have hprune : db.pruneExpiredIntents prune_commit now = (.error .redb, db) ∧ prune_commit = false ∧
      db.expiredIds now ≠ [] ∨
      db.pruneExpiredIntents prune_commit now = (.ok (db.expiredIds now).length, db.pruned now) ∧
        (prune_commit = true ∨ db.expiredIds now = []) := by
    cases prune_commit with
    | true => exact .inr ⟨pruneExpiredIntents_true db now, .inl rfl⟩
    | false =>
      by_cases hnil : db.expiredIds now = []
      · refine .inr ⟨?_, .inr hnil⟩
        rw [← pruneExpiredIntents_true]
        unfold pruneExpiredIntents
        unfold expiredIds at hnil
        simp [hnil]
      · refine .inl ⟨?_, rfl, hnil⟩
        unfold pruneExpiredIntents
        change (if (db.expiredIds now).length = 0 then _ else _) = _
        rw [if_neg (fun hn => hnil (List.length_eq_zero_iff.1 hn))]
        rfl
  unfold insertIntent at h
  rcases hprune with ⟨hp, hfalse, hne⟩ | ⟨hp, hor⟩
  · rw [hp] at h
    simp only [Prod.mk.injEq, true_and] at h
    exact .inl ⟨hfalse, hne, h.symm⟩
  · rw [hp] at h
    simp only at h
    split_ifs at h
    · simp at h
    · simp at h
    · simp only [Prod.mk.injEq, true_and] at h
      exact .inr ⟨hor, h.symm⟩

/-- With every row on the page, equal lists hold the same live intents. -/
theorem SameAnswers.live_perm {now : UInt64} {db db' : Database} (h : SameAnswers now db db') :
    (((db'.cache_intents.filter (fun _ i => now < i.expiry)).entries).map Prod.snd).Perm
      (((db.cache_intents.filter (fun _ i => now < i.expiry)).entries).map Prod.snd) := by
  have hsorted : ∀ d : Database, (d.matchingIntents (fun l => l) now none none none).Perm
      (((d.cache_intents.filter (fun _ i => now < i.expiry)).entries).map Prod.snd) := by
    intro d
    refine (List.mergeSort_perm _ _).trans ?_
    rw [List.filter_map, KMap.filter]
    simp only [Option.all_none, Bool.and_true]
    exact .refl _
  have hl := fun page => h.listIntents (fun l => l) now now none none none page .id (le_refl _) (le_refl _)
  simp only [listIntents_true .id (le_refl now), Except.ok.injEq, Prod.mk.injEq] at hl
  have heq : db'.matchingIntents (fun l => l) now none none none = db.matchingIntents (fun l => l) now none none none := by
    have h1 := (hl ⟨(db.matchingIntents (fun l => l) now none none none).length, 0⟩).1
    have h2 := (hl Page.default).2
    simp only [Page.slice, List.drop_zero] at h1
    rwa [List.take_of_length_le (le_of_eq h2), List.take_of_length_le (le_refl _)] at h1
  exact (hsorted db').symm.trans (heq ▸ hsorted db)

/-- Caching an intent shows unless it changes nothing among the live ones. -/
theorem cacheIntent_sameAnswers_iff (now : UInt64) (db : Database) (intent : SwapIntentMessage) :
    SameAnswers now db
        { db.pruned now with cache_intents := (db.pruned now).cache_intents.insert intent.intent_id intent } ↔
      (db.cache_intents.get? intent.intent_id).filter (fun i => now < i.expiry) =
        (some intent).filter (fun i => now < i.expiry) := by
  -- the live part of the new book, row by row
  have hnew : ((db.pruned now).cache_intents.insert intent.intent_id intent).filter (fun _ i => now < i.expiry) =
      if now < intent.expiry then
        (db.cache_intents.filter (fun _ i => now < i.expiry)).insert intent.intent_id intent
      else (db.cache_intents.filter (fun _ i => now < i.expiry)).erase intent.intent_id := by
    apply KMap.ext_get?
    intro id
    rw [pruned_cache, KMap.get?_filter, KMap.get?_insert]
    by_cases hid : id = intent.intent_id
    · by_cases hlive : now < intent.expiry <;>
        simp [hid, hlive, KMap.get?_erase, Option.filter]
    · have hold : ((db.cache_intents.get? id).filter (fun i => decide (now < i.expiry))).filter
          (fun i => decide (now < i.expiry)) = (db.cache_intents.get? id).filter (fun i => decide (now < i.expiry)) := by
        cases db.cache_intents.get? id with
        | none => rfl
        | some i => by_cases hi : now < i.expiry <;> simp [Option.filter, hi]
      by_cases hlive : now < intent.expiry <;>
        simp [hid, hlive, KMap.get?_insert, KMap.get?_erase, KMap.get?_filter, hold]
  constructor
  · intro h
    have hperm := h.live_perm
    simp only [hnew] at hperm
    rw [← KMap.get?_filter db.cache_intents (fun _ i => now < i.expiry)]
    by_cases hlive : now < intent.expiry
    · rw [if_pos hlive] at hperm
      rw [KMap.get?_of_values_insert hperm]
      simp [Option.filter, hlive]
    · rw [if_neg hlive] at hperm
      rw [KMap.get?_of_values_erase hperm]
      simp [Option.filter, hlive]
  · intro h
    have hsame : ((db.pruned now).cache_intents.insert intent.intent_id intent).filter (fun _ i => now < i.expiry) =
        db.cache_intents.filter (fun _ i => now < i.expiry) := by
      rw [← KMap.get?_filter db.cache_intents (fun _ i => now < i.expiry)] at h
      rw [hnew]
      by_cases hlive : now < intent.expiry
      · rw [if_pos hlive]
        exact KMap.insert_of_get? (by simpa [Option.filter, hlive] using h)
      · rw [if_neg hlive]
        exact KMap.erase_of_none (by simpa [Option.filter, hlive] using h)
    exact .of_parts rfl rfl rfl rfl rfl (fun key => by rw [getMeta_fst, getMeta_fst]; rfl) hsame

/-! ## Failed metadata writes and classifications -/

theorem cacheMeta_sameAnswers_iff (now : UInt64) (db : Database) (key value : String) :
    SameAnswers now db { db with cache_meta := db.cache_meta.insert key value } ↔ (db.getMeta key).1 = some value := by
  constructor
  · intro h
    rw [← h.getMeta key, getMeta_fst]
    simp
  · intro h
    have hmeta : ∀ k, ({ db with cache_meta := db.cache_meta.insert key value }.getMeta k).1 = (db.getMeta k).1 := by
      intro k
      by_cases hk : k = key
      · rw [hk, h, getMeta_fst]
        simp
      · rw [getMeta_fst, getMeta_fst, KMap.get?_insert, if_neg hk]
    exact .of_parts rfl rfl rfl rfl rfl hmeta rfl

/-- The record `classifyParent` leaves in the cache. -/
def StoredParent.classified (p : StoredParent) (ltc_height : Option UInt64) : StoredParent :=
  { p with ltc_height := ltc_height, parent_state := if ltc_height.isSome then 1 else 2 }

theorem cacheParent_sameAnswers_iff (now : UInt64) (db : Database) (p : Hash32) (ltc_height : Option UInt64) :
    SameAnswers now db { db with cache_parents := db.cache_parents.modify p (·.classified ltc_height) } ↔
      ∀ sp, db.cache_parents.get? p = some sp →
        sp.ltc_height = ltc_height ∧ sp.parent_state = if ltc_height.isSome then 1 else 2 := by
  constructor
  · intro h sp hsp
    have hp := h.getParent p
    simp only [getParent_fst, KMap.get?_modify, if_true, hsp, Option.map_some, Option.some_or, Option.some.injEq] at hp
    rw [← hp]
    exact ⟨rfl, rfl⟩
  · intro h
    have hsame : db.cache_parents.modify p (·.classified ltc_height) = db.cache_parents := by
      apply KMap.ext_get?
      intro q
      rw [KMap.get?_modify]
      split
      · rename_i hq
        rw [hq]
        cases hsp : db.cache_parents.get? p with
        | none => rfl
        | some sp =>
          obtain ⟨h1, h2⟩ := h sp hsp
          rw [Option.map_some, StoredParent.classified, ← h1]
          subst h1
          rw [← h2]
      · rfl
    rw [hsame]
    exact SameAnswers.refl now db

/-! ## The exact condition -/

/-- A failed call is invisible to the queries exactly when: for a batch, the
cache already holds the last row of each of its keys; for a metadata write, the
key already has the value; for a classification, the parent is not cached or is
already so classified; for an intent, the expired intents could not be pruned,
or the book of live intents already is what the insert makes it. -/
theorem failed_mutation_iff (sha256d : Bytes → Hash32) (db db' : Database) (now : UInt64) (commit : Bool) :
    (∀ blocks e, db.insertBlocks sha256d commit blocks = (.error e, db') → e ≠ .indexOutOfBounds →
      (SameAnswers now db db' ↔ ∀ k b, blocks.reverse.lookup k = some b → db.cache_blocks.get? k = some b)) ∧
    (∀ key value e, db.setMeta commit key value = (.error e, db') →
      (SameAnswers now db db' ↔ (db.getMeta key).1 = some value)) ∧
    (∀ p ltc_height e, db.classifyParent commit p ltc_height = (.error e, db') →
      (SameAnswers now db db' ↔ ∀ sp, db.cache_parents.get? p = some sp →
        sp.ltc_height = ltc_height ∧ sp.parent_state = if ltc_height.isSome then 1 else 2)) ∧
    (∀ prune_commit intent, db.insertIntent prune_commit commit now intent = (.error .redb, db') →
      (SameAnswers now db db' ↔
        (prune_commit = false ∧ ∃ id i, db.cache_intents.get? id = some i ∧ i.expiry ≤ now) ∨
          (db.cache_intents.get? intent.intent_id).filter (fun i => now < i.expiry) =
            (some intent).filter (fun i => now < i.expiry))) := by
  refine ⟨?_, ?_, ?_, ?_⟩
  · intro blocks e h he
    rw [insertBlocks_error h he]
    exact cacheBlocks_sameAnswers_iff now db blocks
  · intro key value e h
    unfold setMeta at h
    cases commit with
    | true => simp at h
    | false =>
      simp only [Bool.false_eq_true, if_false, Prod.mk.injEq] at h
      rw [← h.2]
      exact cacheMeta_sameAnswers_iff now db key value
  · intro p ltc_height e h
    unfold classifyParent at h
    cases commit with
    | true =>
      simp only [if_false, not_true] at h
      split at h <;> simp at h
    | false =>
      simp only [Bool.false_eq_true, not_false_eq_true, if_true, Prod.mk.injEq] at h
      rw [← h.2]
      exact cacheParent_sameAnswers_iff now db p ltc_height
  · intro prune_commit intent h
    have hexpired : db.expiredIds now ≠ [] ↔ ∃ id i, db.cache_intents.get? id = some i ∧ i.expiry ≤ now := by
      constructor
      · intro hne
        obtain ⟨id, hid⟩ := List.exists_mem_of_ne_nil _ hne
        exact ⟨id, mem_expiredIds.1 hid⟩
      · intro hex
        obtain ⟨id, hid⟩ := hex
        exact List.ne_nil_of_mem (mem_expiredIds.2 hid)
    rcases insertIntent_error h with ⟨hfalse, hne, rfl⟩ | ⟨hor, rfl⟩
    · exact iff_of_true (SameAnswers.refl now _) (.inl ⟨hfalse, hexpired.1 hne⟩)
    · rw [cacheIntent_sameAnswers_iff]
      refine ⟨.inr, ?_⟩
      rintro (⟨hfalse, hne⟩ | h)
      · rcases hor with htrue | hnil
        · rw [htrue] at hfalse
          cases hfalse
        · exact absurd hnil (hexpired.2 hne)
      · exact h

/-- A database opened on an empty file. -/
def freshDb : Database := warmUpCache sampleSha
  { Redb.empty with metadata := KMap.empty.insert META_SCHEMA_VERSION (toString SCHEMA_VERSION) }

/-- The wire payload of a sample block: base header, then its witness. -/
def sampleWire (prev id txid : Hash32) : Bytes :=
  sampleRaw prev ++ sampleCoinbase id ++ List.replicate 32 0 ++ [0] ++ leU32 0 ++ [0] ++ leU32 0 ++ sampleParent txid

/-- The first sample block, stored at some height of chain 63. -/
def sampleBlock₁ (height : UInt64) : StoredBlock :=
  ⟨sampleId₁, 63, height, sampleHeader₁, hexEncode (sampleWire (ByteArr.fill 32 0) sampleId₁ sampleTxid₁)⟩

/-- The second one, which has another parent. -/
def sampleBlock₂ (height : UInt64) : StoredBlock :=
  ⟨sampleId₂, 63, height, sampleHeader₂, hexEncode (sampleWire sampleId₁ sampleId₂ sampleTxid₂)⟩

/-- A cursor write that fails on a fresh database shows, since no cursor was set. -/
theorem failed_mutation_iff_cursor :
    openDb sampleSha Redb.empty = .ok freshDb ∧
      ¬ SameAnswers 0 freshDb { freshDb with cache_meta := freshDb.cache_meta.insert "63.cursor_height" "7" } := by
  refine ⟨rfl, ?_⟩
  rw [(failed_mutation_iff sampleSha freshDb _ 0 false).2.1 "63.cursor_height" "7" .redb rfl]
  decide +kernel

/-- A block without a witness is refused, and served from then on. -/
theorem insertBlocks_error_served :
    openDb sampleSha Redb.empty = .ok freshDb ∧
      let block : StoredBlock := ⟨sampleId₁, 63, 1, ⟨sampleRaw (ByteArr.fill 32 0), none⟩, ""⟩
      let after := freshDb.insertBlocks sampleSha true [(⟨63, 1⟩, block)]
      after.1 = .error (.noAuxpow 63 1) ∧ (freshDb.blockAt 63 1).1 = none ∧ (after.2.blockAt 63 1).1 = some block := by
  refine ⟨rfl, ?_⟩
  decide +kernel

end PsobIndexer
