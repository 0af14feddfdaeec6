import PsobIndexer.Lib.Unwind
import PsobIndexer.Isolation
import PsobIndexer.Window
/-!
# Chains run independently

The ingestor serves all chains from one store. What a chain's own ticks find
there (its rows, its cursor, its registry entry) is left alone by the ticks of
every other chain, and two stores that agree on it still agree after the same
tick. So however the ticks of the chains interleave, and whichever of their
transactions fail, a chain ends where its own ticks would have brought it.
-/
open Lib

namespace PsobIndexer

open Database

/-! ## What a chain's ticks read -/

/-- The metadata that the ticks of a chain and a restart read. -/
def OwnKey (c : UInt32) (key : String) : Prop := key = META_SCHEMA_VERSION ∨ key = chainKey c ∨ key = cursorKey c

theorem chainKey_inj {c c' : UInt32} (h : chainKey c = chainKey c') : c = c' := by
  have hl := congrArg String.toList h
  rw [chainKey, chainKey, String.toList_append, String.toList_append] at hl
  have hs : toString c.toNat = toString c'.toNat := String.toList_injective (List.append_cancel_left hl)
  exact UInt32.toNat_inj.1 (repr_injective hs)

/-- A key that another chain's ticks write. -/
theorem not_ownKey {c a : UInt32} (hne : c ≠ a) {key : String} (h : key = cursorKey a ∨ key = chainKey a) :
    ¬ OwnKey c key := by
  rintro (hs | hc | hc) <;> rcases h with rfl | rfl
  · exact schema_ne_cursorKey a hs.symm
  · exact schema_ne_chainKey a hs.symm
  · exact cursorKey_ne_chainKey a c hc
  · exact hne (chainKey_inj hc).symm
  · exact hne (cursorKey_inj hc).symm
  · exact cursorKey_ne_chainKey c a hc.symm

/-- The stores agree on what the ticks of chain `c` read. -/
structure SameView (c : UInt32) (db db' : Database) : Prop where
  rows : ∀ h, db'.redb.aux_blocks.get? ⟨c, h⟩ = db.redb.aux_blocks.get? ⟨c, h⟩
  cached : ∀ h, db'.cache_blocks.get? ⟨c, h⟩ = db.cache_blocks.get? ⟨c, h⟩
  metadata : ∀ key, OwnKey c key → db'.redb.metadata.get? key = db.redb.metadata.get? key
  cached_meta : ∀ key, OwnKey c key → db'.cache_meta.get? key = db.cache_meta.get? key

section Sha
variable {w : Nat} {sha256d : Bytes → Hash32} {c a : UInt32} {db db' : Database}

theorem SameView.refl (db : Database) : SameView c db db := ⟨fun _ => rfl, fun _ => rfl, fun _ _ => rfl, fun _ _ => rfl⟩

theorem SameView.of_eq (hrows : db'.redb.aux_blocks = db.redb.aux_blocks) (hcached : db'.cache_blocks = db.cache_blocks)
    (hmeta : db'.redb.metadata = db.redb.metadata) (hcache : db'.cache_meta = db.cache_meta) : SameView c db db' :=
  ⟨fun _ => by rw [hrows], fun _ => by rw [hcached], fun _ _ => by rw [hmeta], fun _ _ => by rw [hcache]⟩

theorem SameView.symm (h : SameView c db db') : SameView c db' db :=
  ⟨fun hh => (h.rows hh).symm, fun hh => (h.cached hh).symm, fun k hk => (h.metadata k hk).symm,
    fun k hk => (h.cached_meta k hk).symm⟩

theorem SameView.trans {db₁ : Database} (h₁ : SameView c db db₁) (h₂ : SameView c db₁ db') : SameView c db db' :=
  ⟨fun hh => (h₂.rows hh).trans (h₁.rows hh), fun hh => (h₂.cached hh).trans (h₁.cached hh),
    fun k hk => (h₂.metadata k hk).trans (h₁.metadata k hk), fun k hk => (h₂.cached_meta k hk).trans (h₁.cached_meta k hk)⟩

/-! ## Ticks of other chains -/

theorem getMeta_view {key : String} (hkey : ¬ OwnKey c key) (db : Database) : SameView c db (db.getMeta key).2 := by
  unfold getMeta
  split
  · exact .refl db
  · split
    · refine ⟨fun _ => rfl, fun _ => rfl, fun _ _ => rfl, fun k hk => ?_⟩
      rw [KMap.get?_insert, if_neg]
      rintro rfl
      exact hkey hk
    · exact .refl db

theorem setMeta_view {key : String} (hkey : ¬ OwnKey c key) (commit : Bool) (db : Database) (value : String) :
    SameView c db (db.setMeta commit key value).2 := by
  have hset : ∀ (m : KMap String String) (k : String), OwnKey c k → (m.insert key value).get? k = m.get? k := by
    intro m k hk
    rw [KMap.get?_insert, if_neg]
    rintro rfl
    exact hkey hk
  cases commit with
  | false => exact ⟨fun _ => rfl, fun _ => rfl, fun _ _ => rfl, fun k hk => hset _ k hk⟩
  | true => exact ⟨fun _ => rfl, fun _ => rfl, fun k hk => hset _ k hk, fun k hk => hset _ k hk⟩

theorem upsertChain_view (hne : c ≠ a) (commit : Bool) (db : Database) (name electrs : String) :
    SameView c db (db.upsertChain commit a name electrs).2 := by
  have hkey : ¬ OwnKey c (chainKey a) := not_ownKey hne (.inr rfl)
  unfold upsertChain
  simp only
  split_ifs
  · exact getMeta_view hkey db
  · exact (getMeta_view hkey db).trans (setMeta_view hkey _ _ _)

theorem rewindCursor_view (hne : c ≠ a) (commit : Bool) (db : Database) (from_height : UInt64) :
    SameView c db (db.rewindCursor commit a from_height).2 := by
  have hkey : ¬ OwnKey c (cursorKey a) := not_ownKey hne (.inl rfl)
  unfold rewindCursor
  simp only
  split
  · exact getMeta_view hkey db
  · split_ifs
    · exact (getMeta_view hkey db).trans (setMeta_view hkey _ _ _)
    · exact getMeta_view hkey db

/-- Erasing rows of another chain. -/
theorem get?_eraseAll_other (hne : c ≠ a) {m : KMap BlockKey StoredBlock} {rows : List BlockRow}
    (h : ∀ row ∈ rows, row.1.chain_id = a) (hh : UInt64) : (m.eraseAll (rows.map Prod.fst)).get? ⟨c, hh⟩ = m.get? ⟨c, hh⟩ := by
  rw [KMap.get?_eraseAll, if_neg]
  intro hm
  obtain ⟨row, hrow, he⟩ := List.mem_map.1 hm
  exact hne ((congrArg BlockKey.chain_id he).symm.trans (h row hrow))

theorem chain_of_chainRows {lo hi : UInt64} {row : BlockRow} (h : row ∈ db.chainRows a lo hi) : row.1.chain_id = a :=
  (BlockKey.mem_window.1 (KMap.mem_range.1 h).2).1

theorem chain_of_cached {q : BlockRow → Bool} {row : BlockRow}
    (h : row ∈ db.cache_blocks.entries.filter (fun e => e.1.chain_id = a && q e)) : row.1.chain_id = a := by
  simpa using (Bool.and_eq_true_iff.1 (List.mem_filter.1 h).2).1

theorem rollbackFrom_view (hne : c ≠ a) (commit : Bool) (parent_commits : Hash32 → Bool) (cursor_commit : Bool)
    (db : Database) (from_height : UInt64) :
    SameView c db (db.rollbackFrom sha256d commit parent_commits cursor_commit a from_height).2 := by
  unfold rollbackFrom
  cases commit with
  | false => exact .refl db
  | true =>
    simp only [not_true, if_false]
    split <;> rename_i hr <;> rw [← congrArg Prod.snd hr] <;> refine SameView.trans ?_ (rewindCursor_view hne _ _ _)
    · exact ⟨get?_eraseAll_other hne fun _ => chain_of_chainRows, get?_eraseAll_other hne fun _ => chain_of_cached,
        fun _ _ => rfl, fun _ _ => rfl⟩
    · exact ⟨get?_eraseAll_other hne fun _ => chain_of_chainRows, get?_eraseAll_other hne fun _ => chain_of_cached,
        fun _ _ => rfl, fun _ _ => rfl⟩

theorem pruneBefore_view (hne : c ≠ a) (commit : Bool) (db : Database) (below : UInt64) :
    SameView c db (db.pruneBefore sha256d commit a below).2 := by
  unfold pruneBefore
  cases commit with
  | false => exact .refl db
  | true =>
    exact ⟨get?_eraseAll_other hne fun _ => chain_of_chainRows, get?_eraseAll_other hne fun _ => chain_of_cached,
      fun _ _ => rfl, fun _ _ => rfl⟩

/-- The batch of a chain, with its witnesses: the transaction decides. -/
theorem insertBlocks_witnessed (commit : Bool) (db : Database) {rows : List BlockRow} (hnil : rows ≠ [])
    (hw : ∀ row ∈ rows, Witnessed row) :
    (db.insertBlocks sha256d commit rows).1 = (if commit then .ok () else .error .redb) ∧
      (db.insertBlocks sha256d commit rows).2.redb.aux_blocks =
        (if commit then db.redb.aux_blocks.insertAll rows else db.redb.aux_blocks) ∧
      (db.insertBlocks sha256d commit rows).2.cache_blocks = db.cache_blocks.insertAll rows ∧
      (db.insertBlocks sha256d commit rows).2.redb.metadata = db.redb.metadata ∧
      (db.insertBlocks sha256d commit rows).2.cache_meta = db.cache_meta := by
  cases commit with
  | true =>
    obtain ⟨ha, hb, hm, hc⟩ := foldl_insertOne_frame sha256d rows db hw
    rw [insertBlocks_ok sha256d db rows hw]
    exact ⟨rfl, ha, hb, hm, hc⟩
  | false =>
    simp [insertBlocks, hnil, foldlM_insertRow sha256d rows _ hw]

theorem insertBlocks_view (hne : c ≠ a) (commit : Bool) (db : Database) {rows : List BlockRow}
    (hrows : ∀ row ∈ rows, row.1.chain_id = a ∧ Witnessed row) : SameView c db (db.insertBlocks sha256d commit rows).2 := by
  rcases eq_or_ne rows [] with rfl | hnil
  · exact .refl db
  · obtain ⟨-, ha, hb, hm, hc⟩ := @insertBlocks_witnessed sha256d commit db rows hnil fun row hr => (hrows row hr).2
    have hins : ∀ (m : KMap BlockKey StoredBlock) (hh : UInt64), (m.insertAll rows).get? ⟨c, hh⟩ = m.get? ⟨c, hh⟩ := by
      intro m hh
      apply KMap.get?_insertAll_of_ne
      intro row hr he
      exact hne ((congrArg BlockKey.chain_id he).symm.trans (hrows row hr).1)
    refine ⟨fun hh => ?_, fun hh => ?_, fun k _ => by rw [hm], fun k _ => by rw [hc]⟩
    · rw [ha]
      split_ifs
      · exact hins _ hh
      · rfl
    · rw [hb]
      exact hins _ hh

theorem classifyParent_view (commit : Bool) (db : Database) (p : Hash32) (ltc_height : Option UInt64) :
    SameView c db (db.classifyParent commit p ltc_height).2 := by
  unfold classifyParent
  cases commit with
  | false => exact .of_eq rfl rfl rfl rfl
  | true =>
    simp only [not_true, if_false]
    split <;> exact .of_eq rfl rfl rfl rfl

theorem classifyPendingParents_view (t : Tick) (db : Database) :
    SameView c db (classifyPendingParents t.resolver t.net t.commits.classify t.iter db).2 := by
  have hloop : ∀ (results : List (Hash32 × Option UInt64)) (db : Database),
      SameView c db (classifyLoop t.commits.classify db results).2 := by
    intro results
    induction results with
    | nil => exact fun db => .refl db
    | cons e results ih =>
      intro db
      rw [classifyLoop_cons]
      split_ifs
      · exact (classifyParent_view true db e.1 e.2).trans (ih _)
      · exact classifyParent_view false db e.1 e.2
  unfold classifyPendingParents
  simp only
  split_ifs
  · exact .refl db
  · exact hloop _ db

theorem rowsOf_walk (chain : AuxChain) (prev_hash : Option Hash32) (fetched : List Fetched) :
    ∀ row ∈ rowsOf (walk w sha256d chain prev_hash fetched).1, row.1.chain_id = chain.chain_id ∧ Witnessed row := by
  intro row hrow
  obtain ⟨b, hb, rfl⟩ := List.mem_map.1 hrow
  have hver := (walk_spec chain prev_hash fetched).1 b hb
  exact ⟨hver.1, hver.witnessed _⟩

theorem prevHashAt_view (hne : c ≠ a) (db : Database) (cursor : UInt64) : SameView c db (prevHashAt db a cursor).2 := by
  unfold prevHashAt blockAt
  split_ifs
  · exact .refl db
  · simp only
    split
    · exact .refl db
    · split
      · refine ⟨fun _ => rfl, fun hh => ?_, fun _ _ => rfl, fun _ _ => rfl⟩
        rw [KMap.get?_insert, if_neg]
        exact fun he => hne (congrArg BlockKey.chain_id he)
      · exact .refl db

theorem rollbackStale_view (hne : c ≠ a) (commits : Commits) (db : Database) (stale : Option UInt64) :
    SameView c db (rollbackStale sha256d commits db a stale).2 := by
  unfold rollbackStale
  split
  · exact .refl db
  · split <;> rename_i hr <;> rw [← congrArg Prod.snd hr] <;> exact rollbackFrom_view hne _ _ _ _ _

theorem pruneWindow_view (hne : c ≠ a) (config : Config) (commits : Commits) (db : Database) (last : UInt64) :
    SameView c db (pruneWindow sha256d config commits db a last).2 := by
  unfold pruneWindow
  split
  · exact .refl db
  · simp only
    split_ifs
    · split <;> rename_i hr <;> rw [← congrArg Prod.snd hr] <;> exact pruneBefore_view hne _ _ _
    · exact .refl db

theorem storePending_view (hne : c ≠ a) (config : Config) (commits : Commits) (db : Database) {pending : List StoredBlock}
    (hrows : ∀ row ∈ rowsOf pending, row.1.chain_id = a ∧ Witnessed row) :
    SameView c db (storePending sha256d config commits db a pending).2 := by
  have hkey : ¬ OwnKey c (cursorKey a) := not_ownKey hne (.inl rfl)
  unfold storePending
  split
  · exact .refl db
  · have hinsert := @insertBlocks_view sha256d c a hne commits.insert db (rowsOf pending) hrows
    split
    · rename_i hr
      rw [hr] at hinsert
      exact hinsert
    · rename_i hr
      rw [hr] at hinsert
      refine hinsert.trans ?_
      split <;> rename_i hs <;> have hcursor := congrArg Prod.snd hs <;> simp only at hcursor <;> rw [← hcursor]
      · exact setMeta_view hkey _ _ _
      · exact (setMeta_view hkey _ _ _).trans (pruneWindow_view hne _ _ _ _)

/-- A tick of another chain. -/
theorem ingestChain_view (config : Config) {chain : AuxChain} (hne : c ≠ chain.chain_id) (t : Tick) (db : Database) :
    SameView c db (ingestChain w sha256d config chain t db).2 := by
  have hfetched : ∀ (db : Database) (cursor : UInt64) (fetched : List Fetched),
      SameView c db (ingestFetched w sha256d config chain t db cursor fetched).2 := by
    intro db cursor fetched
    unfold ingestFetched
    refine (prevHashAt_view hne db cursor).trans ?_
    generalize prevHashAt db chain.chain_id cursor = start
    obtain ⟨prev_hash, db₁⟩ := start
    have hrows := @rowsOf_walk w sha256d chain prev_hash fetched
    simp only
    generalize walk w sha256d chain prev_hash fetched = r at hrows ⊢
    obtain ⟨pending, stale⟩ := r
    refine (@rollbackStale_view sha256d c _ hne t.commits db₁ stale).trans ?_
    simp only
    split
    · rename_i hr
      rw [hr]
      exact .refl _
    · rename_i db₂ hr
      rw [hr]
      refine (@storePending_view sha256d c _ hne config t.commits db₂ pending hrows).trans ?_
      split
      · rename_i hs
        rw [hs]
        exact .refl _
      · rename_i db₃ hs
        rw [hs]
        have hclass : SameView c db₃ _ := classifyPendingParents_view t db₃
        split <;> rename_i hc <;> rw [hc] at hclass <;> exact hclass
  unfold ingestChain
  refine (upsertChain_view hne t.commits.upsert db chain.name chain.electrs).trans ?_
  split
  · rename_i hu
    rw [hu]
    exact .refl _
  · rename_i db₁ hu
    rw [hu]
    split
    · exact .refl _
    · refine (getMeta_view (not_ownKey hne (.inl rfl)) db₁).trans ?_
      simp only
      split
      · exact .refl _
      · split_ifs
        · exact .refl _
        · exact .refl _
        · split
          · exact .refl _
          · exact hfetched _ _ _

/-! ## Ticks of the chain itself -/

/-- Same answer, and agreement afterwards. -/
def Agree {ε : Type} (c : UInt32) (x y : ε × Database) : Prop := x.1 = y.1 ∧ SameView c x.2 y.2

theorem getMeta_agree (h : SameView c db db') {key : String} (hkey : OwnKey c key) :
    Agree c (db.getMeta key) (db'.getMeta key) := by
  have hm := h.metadata key hkey
  have hc := h.cached_meta key hkey
  unfold getMeta
  rw [hm, hc]
  split
  · exact ⟨rfl, h⟩
  · split
    · refine ⟨rfl, h.rows, h.cached, h.metadata, fun k hk => ?_⟩
      simp only [KMap.get?_insert]
      rw [h.cached_meta k hk]
    · exact ⟨rfl, h⟩

theorem setMeta_agree (h : SameView c db db') (commit : Bool) (key value : String) :
    Agree c (db.setMeta commit key value) (db'.setMeta commit key value) := by
  have hcache : ∀ k, OwnKey c k → (db'.cache_meta.insert key value).get? k = (db.cache_meta.insert key value).get? k := by
    intro k hk
    rw [KMap.get?_insert, KMap.get?_insert, h.cached_meta k hk]
  cases commit with
  | false => exact ⟨rfl, h.rows, h.cached, h.metadata, hcache⟩
  | true =>
    refine ⟨rfl, h.rows, h.cached, fun k hk => ?_, hcache⟩
    simp only [setMeta, if_true, KMap.get?_insert]
    rw [h.metadata k hk]

theorem upsertChain_agree (h : SameView c db db') (commit : Bool) (name electrs : String) :
    Agree c (db.upsertChain commit c name electrs) (db'.upsertChain commit c name electrs) := by
  obtain ⟨heq, hview⟩ := @getMeta_agree c db db' h (chainKey c) (.inr (.inl rfl))
  unfold upsertChain
  simp only
  rw [heq]
  split_ifs
  · exact ⟨rfl, hview⟩
  · exact setMeta_agree hview _ _ _

theorem cursorHeight_agree (h : SameView c db db') : Agree c (db.cursorHeight c) (db'.cursorHeight c) := by
  obtain ⟨heq, hview⟩ := @getMeta_agree c db db' h (cursorKey c) (.inr (.inr rfl))
  refine ⟨?_, hview⟩
  rw [cursorHeight_fst, cursorHeight_fst, heq]

theorem blockAt_agree (h : SameView c db db') (height : UInt64) : Agree c (db.blockAt c height) (db'.blockAt c height) := by
  unfold blockAt
  rw [h.cached, h.rows]
  split
  · exact ⟨rfl, h⟩
  · split
    · refine ⟨rfl, h.rows, fun hh => ?_, h.metadata, h.cached_meta⟩
      simp only [KMap.get?_insert]
      rw [h.cached]
    · exact ⟨rfl, h⟩

theorem prevHashAt_agree (h : SameView c db db') (cursor : UInt64) :
    Agree c (prevHashAt db c cursor) (prevHashAt db' c cursor) := by
  obtain ⟨heq, hview⟩ := blockAt_agree h cursor
  unfold prevHashAt
  split_ifs
  · exact ⟨rfl, h⟩
  · refine ⟨?_, hview⟩
    simp only
    rw [heq]

theorem rewindCursor_agree (h : SameView c db db') (commit : Bool) (from_height : UInt64) :
    Agree c (db.rewindCursor commit c from_height) (db'.rewindCursor commit c from_height) := by
  obtain ⟨heq, hview⟩ := @getMeta_agree c db db' h (cursorKey c) (.inr (.inr rfl))
  unfold rewindCursor
  simp only
  rw [heq]
  split
  · exact ⟨rfl, hview⟩
  · split_ifs
    · exact setMeta_agree hview _ _ _
    · exact ⟨rfl, hview⟩

/-- Maps that agree on a chain have the same rows of it. -/
theorem filter_entries_congr {m m' : KMap BlockKey StoredBlock} (h : ∀ hh, m'.get? ⟨c, hh⟩ = m.get? ⟨c, hh⟩)
    (p : BlockRow → Bool) (hp : ∀ row, p row = true → row.1.chain_id = c) : m'.entries.filter p = m.entries.filter p := by
  have hfilter : m'.filter (fun k v => p (k, v)) = m.filter (fun k v => p (k, v)) := by
    apply KMap.ext_get?
    intro k
    rw [KMap.get?_filter, KMap.get?_filter]
    by_cases hk : k.chain_id = c
    · obtain ⟨c', hh⟩ := k
      obtain rfl : c' = c := hk
      rw [h]
    · have hnone : ∀ o : Option StoredBlock, o.filter (fun v => p (k, v)) = none := by
        intro o
        rw [Option.filter_eq_none_iff]
        exact fun v _ hpv => hk (hp _ hpv)
      rw [hnone, hnone]
  exact congrArg KMap.entries hfilter

theorem SameView.chainRows (h : SameView c db db') (lo hi : UInt64) : db'.chainRows c lo hi = db.chainRows c lo hi :=
  filter_entries_congr h.rows _ fun _ hrow => (BlockKey.mem_window.1 (of_decide_eq_true hrow)).1

theorem SameView.cachedRows (h : SameView c db db') (q : BlockRow → Bool) :
    db'.cache_blocks.entries.filter (fun e => e.1.chain_id = c && q e) =
      db.cache_blocks.entries.filter (fun e => e.1.chain_id = c && q e) :=
  filter_entries_congr h.cached _ fun _ hrow => of_decide_eq_true (Bool.and_eq_true_iff.1 hrow).1

theorem SameView.minHeight (h : SameView c db db') : minHeight db' c = minHeight db c := by
  rw [minHeight_eq, minHeight_eq, heightsOf, heightsOf, filter_entries_congr h.cached _ fun _ => of_decide_eq_true]

/-- The same keys erased on both sides. -/
theorem get?_eraseAll_congr {m m' : KMap BlockKey StoredBlock} {k : BlockKey} (h : m'.get? k = m.get? k)
    (ks : List BlockKey) :
    (m'.eraseAll ks).get? k = (m.eraseAll ks).get? k := by
  rw [KMap.get?_eraseAll, KMap.get?_eraseAll, h]

theorem rollbackFrom_agree (h : SameView c db db') (commit : Bool) (parent_commits : Hash32 → Bool) (cursor_commit : Bool)
    (from_height : UInt64) :
    Agree c (db.rollbackFrom sha256d commit parent_commits cursor_commit c from_height)
      (db'.rollbackFrom sha256d commit parent_commits cursor_commit c from_height) := by
  unfold rollbackFrom
  cases commit with
  | false => exact ⟨rfl, h⟩
  | true =>
    simp only [not_true, if_false, h.chainRows, h.cachedRows (fun e => from_height ≤ e.1.height)]
    generalize hx : rewindCursor cursor_commit _ c from_height = x
    generalize hy : rewindCursor cursor_commit _ c from_height = y
    have hrewound : Agree c x y := by
      rw [← hx, ← hy]
      refine rewindCursor_agree ?_ cursor_commit from_height
      exact ⟨fun hh => get?_eraseAll_congr (h.rows hh) _, fun hh => get?_eraseAll_congr (h.cached hh) _, h.metadata,
        h.cached_meta⟩
    obtain ⟨heq, hview⟩ := hrewound
    obtain ⟨x₁, x₂⟩ := x
    obtain ⟨y₁, y₂⟩ := y
    obtain rfl : x₁ = y₁ := heq
    cases x₁ with
    | error e => exact ⟨rfl, hview⟩
    | ok u => exact ⟨rfl, hview⟩

theorem pruneBefore_agree (h : SameView c db db') (commit : Bool) (below : UInt64) :
    Agree c (db.pruneBefore sha256d commit c below) (db'.pruneBefore sha256d commit c below) := by
  unfold pruneBefore
  cases commit with
  | false => exact ⟨rfl, h⟩
  | true =>
    simp only [not_true, if_false, h.chainRows, h.cachedRows (fun e => e.1.height < below)]
    exact ⟨rfl, fun hh => get?_eraseAll_congr (h.rows hh) _, fun hh => get?_eraseAll_congr (h.cached hh) _,
      h.metadata, h.cached_meta⟩

theorem insertBlocks_agree (h : SameView c db db') (commit : Bool) {rows : List BlockRow}
    (hw : ∀ row ∈ rows, Witnessed row) :
    Agree c (db.insertBlocks sha256d commit rows) (db'.insertBlocks sha256d commit rows) := by
  rcases eq_or_ne rows [] with rfl | hnil
  · exact ⟨rfl, h⟩
  · obtain ⟨hr, ha, hb, hm, hc⟩ := @insertBlocks_witnessed sha256d commit db rows hnil hw
    obtain ⟨hr', ha', hb', hm', hc'⟩ := @insertBlocks_witnessed sha256d commit db' rows hnil hw
    refine ⟨by rw [hr, hr'], fun hh => ?_, fun hh => ?_, fun k hk => ?_, fun k hk => ?_⟩
    · rw [ha, ha']
      split_ifs
      · rw [KMap.get?_insertAll_last, KMap.get?_insertAll_last, h.rows]
      · exact h.rows hh
    · rw [hb, hb', KMap.get?_insertAll_last, KMap.get?_insertAll_last, h.cached]
    · rw [hm, hm', h.metadata k hk]
    · rw [hc, hc', h.cached_meta k hk]

/-! ## Agreement along a tick -/

theorem rollbackStale_agree (h : SameView c db db') (commits : Commits) (stale : Option UInt64) :
    Agree c (rollbackStale sha256d commits db c stale) (rollbackStale sha256d commits db' c stale) := by
  unfold rollbackStale
  cases stale with
  | none => exact ⟨rfl, h⟩
  | some s =>
    have hroll := @rollbackFrom_agree sha256d c db db' h commits.rollback commits.rollback_parents commits.rewind s
    simp only
    generalize db.rollbackFrom sha256d commits.rollback commits.rollback_parents commits.rewind c s = x at hroll ⊢
    generalize db'.rollbackFrom sha256d commits.rollback commits.rollback_parents commits.rewind c s = y at hroll ⊢
    obtain ⟨r, d⟩ := x
    obtain ⟨r', d'⟩ := y
    obtain ⟨rfl, hview⟩ : r = r' ∧ SameView c d d' := hroll
    cases r with
    | error e => exact ⟨rfl, hview⟩
    | ok n => exact ⟨rfl, hview⟩

theorem pruneWindow_agree (h : SameView c db db') (config : Config) (commits : Commits) (last : UInt64) :
    Agree c (pruneWindow sha256d config commits db c last) (pruneWindow sha256d config commits db' c last) := by
  unfold pruneWindow
  cases config.max_kept_blocks with
  | none => exact ⟨rfl, h⟩
  | some max_kept =>
    simp only [h.minHeight]
    split_ifs
    · have hprune := @pruneBefore_agree sha256d c db db' h commits.prune
        (saturatingAdd (saturatingSub last max_kept) 1)
      generalize db.pruneBefore sha256d commits.prune c _ = x at hprune ⊢
      generalize db'.pruneBefore sha256d commits.prune c _ = y at hprune ⊢
      obtain ⟨r, d⟩ := x
      obtain ⟨r', d'⟩ := y
      obtain ⟨rfl, hview⟩ : r = r' ∧ SameView c d d' := hprune
      cases r with
      | error e => exact ⟨rfl, hview⟩
      | ok n => exact ⟨rfl, hview⟩
    · exact ⟨rfl, h⟩

theorem storePending_agree (h : SameView c db db') (config : Config) (commits : Commits) {pending : List StoredBlock}
    (hw : ∀ row ∈ rowsOf pending, Witnessed row) :
    Agree c (storePending sha256d config commits db c pending) (storePending sha256d config commits db' c pending) := by
  unfold storePending
  cases pending.getLast? with
  | none => exact ⟨rfl, h⟩
  | some block =>
    have hinsert := @insertBlocks_agree sha256d c db db' h commits.insert (rowsOf pending) hw
    simp only
    generalize db.insertBlocks sha256d commits.insert (rowsOf pending) = x at hinsert ⊢
    generalize db'.insertBlocks sha256d commits.insert (rowsOf pending) = y at hinsert ⊢
    obtain ⟨r, d⟩ := x
    obtain ⟨r', d'⟩ := y
    obtain ⟨rfl, hview⟩ : r = r' ∧ SameView c d d' := hinsert
    cases r with
    | error e => exact ⟨rfl, hview⟩
    | ok u =>
      have hcursor : Agree c (d.setCursorHeight commits.cursor c block.height)
          (d'.setCursorHeight commits.cursor c block.height) :=
        setMeta_agree hview _ _ _
      simp only
      generalize d.setCursorHeight commits.cursor c block.height = x at hcursor ⊢
      generalize d'.setCursorHeight commits.cursor c block.height = y at hcursor ⊢
      obtain ⟨r, d⟩ := x
      obtain ⟨r', d'⟩ := y
      obtain ⟨rfl, hview⟩ : r = r' ∧ SameView c d d' := hcursor
      cases r with
      | error e => exact ⟨rfl, hview⟩
      | ok u => exact pruneWindow_agree hview config commits block.height

/-- The part of a tick after the fetch. The classification works on all chains'
parents and may answer differently on the two sides. -/
theorem ingestFetched_agree (h : SameView c db db') (config : Config) {chain : AuxChain} (hchain : chain.chain_id = c)
    (t : Tick) (cursor : UInt64) (fetched : List Fetched) :
    SameView c (ingestFetched w sha256d config chain t db cursor fetched).2
      (ingestFetched w sha256d config chain t db' cursor fetched).2 := by
  subst hchain
  have hprev := prevHashAt_agree h cursor
  unfold ingestFetched
  generalize prevHashAt db chain.chain_id cursor = x at hprev ⊢
  generalize prevHashAt db' chain.chain_id cursor = y at hprev ⊢
  obtain ⟨prev_hash, d⟩ := x
  obtain ⟨prev_hash', d'⟩ := y
  obtain ⟨rfl, hview⟩ : prev_hash = prev_hash' ∧ SameView chain.chain_id d d' := hprev
  have hrows := @rowsOf_walk w sha256d chain prev_hash fetched
  simp only
  generalize walk w sha256d chain prev_hash fetched = r at hrows ⊢
  obtain ⟨pending, stale⟩ := r
  have hroll := @rollbackStale_agree sha256d _ d d' hview t.commits stale
  simp only
  generalize rollbackStale sha256d t.commits d chain.chain_id stale = x at hroll ⊢
  generalize rollbackStale sha256d t.commits d' chain.chain_id stale = y at hroll ⊢
  obtain ⟨r, d⟩ := x
  obtain ⟨r', d'⟩ := y
  obtain ⟨rfl, hview⟩ : r = r' ∧ SameView chain.chain_id d d' := hroll
  cases r with
  | error e => exact hview
  | ok u =>
    have hstore := @storePending_agree sha256d _ d d' hview config t.commits pending fun row hr => (hrows row hr).2
    simp only
    generalize storePending sha256d config t.commits d chain.chain_id pending = x at hstore ⊢
    generalize storePending sha256d config t.commits d' chain.chain_id pending = y at hstore ⊢
    obtain ⟨r, d⟩ := x
    obtain ⟨r', d'⟩ := y
    obtain ⟨rfl, hview⟩ : r = r' ∧ SameView chain.chain_id d d' := hstore
    cases r with
    | error e => exact hview
    | ok u =>
      have hleft := classifyPendingParents_view (c := chain.chain_id) t d
      have hright := classifyPendingParents_view (c := chain.chain_id) t d'
      simp only
      generalize classifyPendingParents t.resolver t.net t.commits.classify t.iter d = x at hleft ⊢
      generalize classifyPendingParents t.resolver t.net t.commits.classify t.iter d' = y at hright ⊢
      have hviews : SameView chain.chain_id x.2 y.2 := (hleft.symm.trans hview).trans hright
      obtain ⟨r, d⟩ := x
      obtain ⟨r', d'⟩ := y
      cases r <;> cases r' <;> exact hviews

/-- A tick of the chain on stores that agree on it. -/
theorem ingestChain_agree (h : SameView c db db') (config : Config) {chain : AuxChain}
    (hchain : chain.chain_id = c) (t : Tick) :
    SameView c (ingestChain w sha256d config chain t db).2 (ingestChain w sha256d config chain t db').2 := by
  subst hchain
  have hupsert := upsertChain_agree h t.commits.upsert chain.name chain.electrs
  unfold ingestChain
  generalize db.upsertChain t.commits.upsert chain.chain_id chain.name chain.electrs = x at hupsert ⊢
  generalize db'.upsertChain t.commits.upsert chain.chain_id chain.name chain.electrs = y at hupsert ⊢
  obtain ⟨r, d⟩ := x
  obtain ⟨r', d'⟩ := y
  obtain ⟨rfl, hview⟩ : r = r' ∧ SameView chain.chain_id d d' := hupsert
  cases r with
  | error e => exact hview
  | ok u =>
    cases t.electrs.tipHeight with
    | none => exact hview
    | some tip_height =>
      have hcursor := cursorHeight_agree hview
      simp only
      generalize d.cursorHeight chain.chain_id = x at hcursor ⊢
      generalize d'.cursorHeight chain.chain_id = y at hcursor ⊢
      obtain ⟨cursor, d⟩ := x
      obtain ⟨cursor', d'⟩ := y
      obtain ⟨rfl, hview⟩ : cursor = cursor' ∧ SameView chain.chain_id d d' := hcursor
      simp only
      split
      · exact hview
      · split_ifs
        · exact hview
        · exact hview
        · split
          · exact hview
          · exact ingestFetched_agree hview config rfl t _ _

/-- A restart on stores that agree on the chain: the gate reads the schema row,
and the caches become the tables. -/
theorem restart_agree (h : SameView c db db') :
    SameView c ((openDb sha256d db.redb).toOption.getD db) ((openDb sha256d db'.redb).toOption.getD db') := by
  unfold openDb Redb.gate
  rw [h.metadata META_SCHEMA_VERSION (.inl rfl)]
  split
  · split_ifs
    · exact ⟨h.rows, h.rows, h.metadata, h.metadata⟩
    · exact h
  · have hmeta : ∀ key, OwnKey c key →
        (db'.redb.metadata.insert META_SCHEMA_VERSION (toString SCHEMA_VERSION)).get? key =
          (db.redb.metadata.insert META_SCHEMA_VERSION (toString SCHEMA_VERSION)).get? key := by
      intro key hkey
      rw [KMap.get?_insert, KMap.get?_insert, h.metadata key hkey]
    exact ⟨h.rows, h.rows, hmeta, hmeta⟩

/-! ## Runs -/

/-- The ticks of the chain, and the restarts. -/
def IngestOp.concerns (c : UInt32) : IngestOp → Bool
  | tick chain _ => chain.chain_id = c
  | restart => true

variable (w sha256d)

theorem ingest_unwinds (config : Config) (c : UInt32) :
    Unwinds (IngestOp.run w sha256d config) (IngestOp.concerns c) (SameView c) := by
  constructor
  · intro db db' op hop h
    cases op with
    | tick chain t => exact ingestChain_agree h config (of_decide_eq_true hop) t
    | restart => exact restart_agree h
  · intro db db' op hop h
    cases op with
    | tick chain t => exact h.trans (ingestChain_view config (Ne.symm (of_decide_eq_false hop)) t db')
    | restart => cases hop

/-- Whatever ticks of other chains come in between, and whichever transactions
fail, a chain's rows, cursor and registry entry are those its own ticks and the
restarts would have left. -/
theorem chain_runs_alone (config : Config) (db : Database) (ops : List IngestOp) (c : UInt32) :
    let all := runIngest w sha256d config db ops
    let own := runIngest w sha256d config db (ops.filter (IngestOp.concerns c))
    (∀ h, (all.blockAt c h).1 = (own.blockAt c h).1) ∧
      (∀ h, all.cache_blocks.get? ⟨c, h⟩ = own.cache_blocks.get? ⟨c, h⟩) ∧
      (∀ lo hi page, all.blocksRange c lo hi page = own.blocksRange c lo hi page) ∧
      all.latestHeight c = own.latestHeight c ∧ all.chainBlockCount c = own.chainBlockCount c ∧
      (all.cursorHeight c).1 = (own.cursorHeight c).1 ∧ minHeight all c = minHeight own c ∧
      (all.getMeta (chainKey c)).1 = (own.getMeta (chainKey c)).1 := by
  intro all own
  have hview : SameView c own all := (ingest_unwinds w sha256d config c).run (.refl db) ops
  refine ⟨fun h => (blockAt_agree hview h).1.symm, hview.cached, fun lo hi page => ?_, ?_, ?_,
    (cursorHeight_agree hview).1.symm, hview.minHeight, (getMeta_agree hview (.inr (.inl rfl))).1.symm⟩
  · unfold blocksRange
    rw [hview.chainRows]
  · unfold latestHeight
    rw [hview.chainRows]
  · unfold chainBlockCount
    rw [hview.chainRows]

end Sha

end PsobIndexer
