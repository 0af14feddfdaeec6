import PsobIndexer.Walk
/-!
# Only verified blocks are held

Whichever writes of a tick fail, every row the tick adds to the block table or
the block cache is a verified block of its chain, under the key its fields spell.
-/
open Lib

namespace PsobIndexer

open Database

/-- The block is cached or stored under the key. -/
def Database.Holds (db : Database) (k : BlockKey) (b : StoredBlock) : Prop :=
  db.cache_blocks.get? k = some b ∨ db.redb.aux_blocks.get? k = some b

/-- Every row of `db'` is a row of `db` or satisfies `P`. -/
def Adds (P : BlockKey → StoredBlock → Prop) (db db' : Database) : Prop :=
  ∀ k b, db'.Holds k b → db.Holds k b ∨ P k b

namespace Adds

variable {P : BlockKey → StoredBlock → Prop} {db db' db'' : Database}

theorem trans (h : Adds P db db') (h' : Adds P db' db'') : Adds P db db'' := by
  intro k b hb
  rcases h' k b hb with hb | hp
  · exact h k b hb
  · exact .inr hp

theorem of_eq (hcache : db'.cache_blocks = db.cache_blocks) (haux : db'.redb.aux_blocks = db.redb.aux_blocks) :
    Adds P db db' := by
  intro k b hb
  unfold Holds at hb
  rw [hcache, haux] at hb
  exact .inl hb

/-- Rows may go. -/
theorem of_sub (hcache : ∀ k b, db'.cache_blocks.get? k = some b → db.cache_blocks.get? k = some b)
    (haux : ∀ k b, db'.redb.aux_blocks.get? k = some b → db.redb.aux_blocks.get? k = some b) : Adds P db db' := by
  intro k b hb
  rcases hb with hb | hb
  · exact .inl (.inl (hcache k b hb))
  · exact .inl (.inr (haux k b hb))

end Adds

theorem get?_eraseAll_sub {m : KMap BlockKey StoredBlock} {ks : List BlockKey} {k : BlockKey} {b : StoredBlock}
    (h : (m.eraseAll ks).get? k = some b) : m.get? k = some b := by
  rw [KMap.get?_eraseAll] at h
  split_ifs at h
  exact h

theorem get?_insertAll_mem {m : KMap BlockKey StoredBlock} {rows : List BlockRow} {k : BlockKey} {b : StoredBlock}
    (h : (m.insertAll rows).get? k = some b) : m.get? k = some b ∨ (k, b) ∈ rows := by
  induction rows generalizing m with
  | nil => exact .inl h
  | cons row rows ih =>
    rcases ih h with hm | hmem
    · rw [KMap.get?_insert] at hm
      split_ifs at hm with hk
      · cases hm
        exact .inr (by rw [hk]; exact List.mem_cons_self)
      · exact .inl hm
    · exact .inr (List.mem_cons_of_mem _ hmem)

section Sha
variable (w : Nat) (sha256d : Bytes → Hash32) {P : BlockKey → StoredBlock → Prop}

/-! ## The calls, failed or not -/

theorem getMeta_adds (db : Database) (key : String) : Adds P db (db.getMeta key).2 := by
  obtain ⟨m, hm⟩ := getMeta_frame db key
  rw [hm]
  exact .of_eq rfl rfl

theorem setMeta_adds (commit : Bool) (db : Database) (key value : String) : Adds P db (db.setMeta commit key value).2 := by
  cases commit <;> exact .of_eq rfl rfl

theorem upsertChain_adds (commit : Bool) (db : Database) (c : UInt32) (name electrs : String) :
    Adds P db (db.upsertChain commit c name electrs).2 := by
  have hget : Adds P db (db.getMeta (chainKey c)).2 := getMeta_adds db _
  unfold upsertChain
  simp only
  split_ifs
  · exact hget
  · exact hget.trans (setMeta_adds commit _ _ _)

theorem cursorHeight_adds (db : Database) (c : UInt32) : Adds P db (db.cursorHeight c).2 := getMeta_adds db _

theorem prevHashAt_adds (db : Database) (c : UInt32) (cursor : UInt64) : Adds P db (prevHashAt db c cursor).2 := by
  unfold prevHashAt blockAt
  split_ifs
  · exact .of_eq rfl rfl
  · simp only
    split
    · exact .of_eq rfl rfl
    · split
      · rename_i b hb
        intro k b' hk
        rcases hk with hk | hk
        · rw [KMap.get?_insert] at hk
          split_ifs at hk with heq
          · cases hk
            rw [heq]
            exact .inl (.inr hb)
          · exact .inl (.inl hk)
        · exact .inl (.inr hk)
      · exact .of_eq rfl rfl

theorem rewindCursor_adds (commit : Bool) (db : Database) (c : UInt32) (from_height : UInt64) :
    Adds P db (db.rewindCursor commit c from_height).2 := by
  have hget : Adds P db (db.getMeta (cursorKey c)).2 := getMeta_adds db _
  unfold rewindCursor
  simp only
  split
  · exact hget
  · split_ifs
    · exact hget.trans (setMeta_adds commit _ _ _)
    · exact hget

theorem rollbackFrom_adds (commit : Bool) (parent_commits : Hash32 → Bool) (cursor_commit : Bool) (db : Database)
    (c : UInt32) (from_height : UInt64) :
    Adds P db (db.rollbackFrom sha256d commit parent_commits cursor_commit c from_height).2 := by
  unfold rollbackFrom
  cases commit with
  | false => exact .of_eq rfl rfl
  | true =>
    simp only [not_true, if_false]
    split <;> rename_i hr <;> rw [← congrArg Prod.snd hr] <;> refine Adds.trans ?_ (rewindCursor_adds _ _ _ _)
    · exact .of_sub (fun _ _ h => get?_eraseAll_sub h) (fun _ _ h => get?_eraseAll_sub h)
    · exact .of_sub (fun _ _ h => get?_eraseAll_sub h) (fun _ _ h => get?_eraseAll_sub h)

theorem pruneBefore_adds (commit : Bool) (db : Database) (c : UInt32) (below : UInt64) :
    Adds P db (db.pruneBefore sha256d commit c below).2 := by
  unfold pruneBefore
  cases commit with
  | false => exact .of_eq rfl rfl
  | true => exact .of_sub (fun _ _ h => get?_eraseAll_sub h) (fun _ _ h => get?_eraseAll_sub h)

theorem indexRows_frame (db : Database) (rows : List BlockRow) :
    (db.indexRows sha256d rows).2.cache_blocks = db.cache_blocks ∧ (db.indexRows sha256d rows).2.redb = db.redb := by
  induction rows generalizing db with
  | nil => exact ⟨rfl, rfl⟩
  | cons row rows ih =>
    have hrow : (db.indexRow sha256d row).2.cache_blocks = db.cache_blocks ∧ (db.indexRow sha256d row).2.redb = db.redb := by
      unfold indexRow
      split
      · exact ⟨rfl, rfl⟩
      · simp only
        split_ifs
        · exact ⟨rfl, rfl⟩
        · split <;> exact ⟨rfl, rfl⟩
    rw [indexRows]
    split
    · rename_i hr
      rw [hr] at hrow
      exact hrow
    · rename_i hr
      rw [hr] at hrow
      exact ⟨(ih _).1.trans hrow.1, (ih _).2.trans hrow.2⟩

theorem foldlM_insertRow_blocks {rows : List BlockRow} {r r' : Redb} (h : rows.foldlM (insertRow sha256d) r = .ok r') :
    r'.aux_blocks = r.aux_blocks.insertAll rows := by
  induction rows generalizing r with
  | nil =>
    cases h
    rfl
  | cons row rows ih =>
    rw [List.foldlM_cons] at h
    obtain ⟨r₁, h₁, h⟩ := except_bind_eq_ok.1 h
    rw [ih h]
    unfold insertRow at h₁
    split at h₁
    · cases h₁
    · cases h₁
      rfl

theorem insertBlocks_adds (commit : Bool) (db : Database) {rows : List BlockRow} (hrows : ∀ row ∈ rows, P row.1 row.2) :
    Adds P db (db.insertBlocks sha256d commit rows).2 := by
  have hcache : ∀ k b, (db.cache_blocks.insertAll rows).get? k = some b → db.Holds k b ∨ P k b := by
    intro k b hb
    rcases get?_insertAll_mem hb with hb | hmem
    · exact .inl (.inl hb)
    · exact .inr (hrows _ hmem)
  have hfail : Adds P db { db with cache_blocks := db.cache_blocks.insertAll rows } := by
    intro k b hb
    rcases hb with hb | hb
    · exact hcache k b hb
    · exact .inl (.inr hb)
  unfold insertBlocks
  by_cases hnil : rows = []
  · rw [if_pos hnil]
    exact .of_eq rfl rfl
  · simp only [if_neg hnil]
    cases hfold : rows.foldlM (insertRow sha256d) db.redb with
    | error e => exact hfail
    | ok redb =>
      cases commit with
      | false => exact hfail
      | true =>
        obtain ⟨hb, hr⟩ := indexRows_frame sha256d
          { db with redb := redb, cache_blocks := db.cache_blocks.insertAll rows } rows
        intro k b hk
        simp only [if_true] at hk
        unfold Holds at hk
        rw [hb, hr, foldlM_insertRow_blocks sha256d hfold] at hk
        rcases hk with hk | hk
        · exact hcache k b hk
        · rcases get?_insertAll_mem hk with hk | hmem
          · exact .inl (.inr hk)
          · exact .inr (hrows _ hmem)

theorem classifyParent_adds (commit : Bool) (db : Database) (p : Hash32) (ltc_height : Option UInt64) :
    Adds P db (db.classifyParent commit p ltc_height).2 := by
  unfold classifyParent
  cases commit with
  | false => exact .of_eq rfl rfl
  | true =>
    simp only [not_true, if_false]
    split <;> exact .of_eq rfl rfl

theorem classifyLoop_adds (commits : Hash32 → Bool) (results : List (Hash32 × Option UInt64)) (db : Database) :
    Adds P db (classifyLoop commits db results).2 := by
  induction results generalizing db with
  | nil => exact .of_eq rfl rfl
  | cons e results ih =>
    obtain ⟨p, x⟩ := e
    rw [classifyLoop_cons]
    split_ifs
    · exact (classifyParent_adds true db p x).trans (ih _)
    · exact classifyParent_adds false db p x

/-! ## The tick -/

theorem rollbackStale_adds (commits : Commits) (db : Database) (c : UInt32) (stale : Option UInt64) :
    Adds P db (rollbackStale sha256d commits db c stale).2 := by
  unfold rollbackStale
  split
  · exact .of_eq rfl rfl
  · split <;> rename_i hr <;> rw [← congrArg Prod.snd hr] <;> exact rollbackFrom_adds sha256d _ _ _ _ _ _

theorem pruneWindow_adds (config : Config) (commits : Commits) (db : Database) (c : UInt32) (last : UInt64) :
    Adds P db (pruneWindow sha256d config commits db c last).2 := by
  unfold pruneWindow
  split
  · exact .of_eq rfl rfl
  · simp only
    split_ifs
    · split <;> rename_i hr <;> rw [← congrArg Prod.snd hr] <;> exact pruneBefore_adds sha256d _ _ _ _
    · exact .of_eq rfl rfl

theorem storePending_adds (config : Config) (commits : Commits) (db : Database) (c : UInt32) {pending : List StoredBlock}
    (hrows : ∀ row ∈ rowsOf pending, P row.1 row.2) : Adds P db (storePending sha256d config commits db c pending).2 := by
  unfold storePending
  split
  · exact .of_eq rfl rfl
  · have hinsert := insertBlocks_adds sha256d commits.insert db hrows
    split
    · rename_i hr
      rw [hr] at hinsert
      exact hinsert
    · rename_i hr
      rw [hr] at hinsert
      refine hinsert.trans ?_
      split <;> rename_i hs <;> have hcursor := congrArg Prod.snd hs <;> simp only at hcursor <;> rw [← hcursor]
      · exact setMeta_adds _ _ _ _
      · exact (setMeta_adds _ _ _ _).trans (pruneWindow_adds sha256d _ _ _ _ _)

theorem ingestFetched_adds (config : Config) (chain : AuxChain) (t : Tick) (db : Database) (cursor : UInt64)
    (fetched : List Fetched) :
    Adds (fun k b => k = ⟨b.chain_id, b.height⟩ ∧ Verified w sha256d chain b) db
      (ingestFetched w sha256d config chain t db cursor fetched).2 := by
  unfold ingestFetched
  refine (prevHashAt_adds db chain.chain_id cursor).trans ?_
  generalize prevHashAt db chain.chain_id cursor = start
  obtain ⟨prev_hash, db₁⟩ := start
  have hwalk := (@walk_spec w sha256d chain prev_hash fetched).1
  simp only
  generalize walk w sha256d chain prev_hash fetched = r at hwalk ⊢
  obtain ⟨pending, stale⟩ := r
  have hrows : ∀ row ∈ rowsOf pending, row.1 = ⟨row.2.chain_id, row.2.height⟩ ∧ Verified w sha256d chain row.2 := by
    intro row hrow
    obtain ⟨b, hb, rfl⟩ := List.mem_map.1 hrow
    exact ⟨rfl, hwalk b hb⟩
  refine (rollbackStale_adds sha256d t.commits db₁ chain.chain_id stale).trans ?_
  simp only
  split
  · rename_i hr
    rw [hr]
    exact .of_eq rfl rfl
  · rename_i db₂ hr
    rw [hr]
    refine (storePending_adds sha256d config t.commits db₂ chain.chain_id hrows).trans ?_
    split
    · rename_i hs
      rw [hs]
      exact .of_eq rfl rfl
    · rename_i db₃ hs
      rw [hs]
      have hclass : Adds (fun k b => k = ⟨b.chain_id, b.height⟩ ∧ Verified w sha256d chain b) db₃
          (classifyPendingParents t.resolver t.net t.commits.classify t.iter db₃).2 := by
        unfold classifyPendingParents
        simp only
        split_ifs
        · exact .of_eq rfl rfl
        · exact classifyLoop_adds _ _ _
      split <;> rename_i hc <;> rw [hc] at hclass <;> exact hclass

theorem ingestChain_adds (config : Config) (chain : AuxChain) (t : Tick) (db : Database) :
    Adds (fun k b => k = ⟨b.chain_id, b.height⟩ ∧ Verified w sha256d chain b) db
      (ingestChain w sha256d config chain t db).2 := by
  unfold ingestChain
  refine (upsertChain_adds t.commits.upsert db chain.chain_id chain.name chain.electrs).trans ?_
  split
  · rename_i hu
    rw [hu]
    exact .of_eq rfl rfl
  · rename_i db₁ hu
    rw [hu]
    split
    · exact .of_eq rfl rfl
    · rename_i tip htip
      refine (cursorHeight_adds db₁ chain.chain_id).trans ?_
      simp only
      split
      · exact .of_eq rfl rfl
      · split_ifs
        · exact .of_eq rfl rfl
        · exact .of_eq rfl rfl
        · split
          · exact .of_eq rfl rfl
          · exact ingestFetched_adds w sha256d config chain t _ _ _

/-! ## Runs -/

/-- Every row held is a verified block of a configured chain. -/
def RowsVerified (config : Config) (db : Database) : Prop :=
  ∀ k b, db.Holds k b → k = ⟨b.chain_id, b.height⟩ ∧ ∃ chain ∈ config.chains, Verified w sha256d chain b

variable {w sha256d}

/-- The ticks of a run are ticks of configured chains. -/
def IngestOp.Configured (config : Config) : IngestOp → Prop
  | tick chain _ => chain ∈ config.chains
  | restart => True

theorem RowsVerified.step {config : Config} {db : Database} {op : IngestOp} (h : RowsVerified w sha256d config db)
    (hop : op.Configured config) : RowsVerified w sha256d config (op.run w sha256d config db) := by
  cases op with
  | tick chain t =>
    intro k b hb
    rcases ingestChain_adds w sha256d config chain t db k b hb with hold | ⟨hk, hv⟩
    · exact h k b hold
    · exact ⟨hk, chain, hop, hv⟩
  | restart =>
    intro k b hb
    simp only [IngestOp.run] at hb
    cases hopen : openDb sha256d db.redb with
    | error e =>
      rw [hopen] at hb
      exact h k b hb
    | ok db' =>
      rw [hopen] at hb
      obtain ⟨r, hgate, hwarm⟩ := except_bind_eq_ok.1 hopen
      have haux : r.aux_blocks = db.redb.aux_blocks := by
        unfold Redb.gate at hgate
        split at hgate
        · split_ifs at hgate
          cases hgate
          rfl
        · cases hgate
          rfl
      cases hwarm
      have hstored : db.redb.aux_blocks.get? k = some b := by
        rw [← haux]
        exact hb.elim id id
      exact h k b (.inr hstored)

theorem rowsVerified_fresh {config : Config} {db₀ : Database} (h : openDb sha256d Redb.empty = .ok db₀) :
    RowsVerified w sha256d config db₀ := by
  cases h
  intro k b hb
  rcases hb with hb | hb <;> cases hb

end Sha

end PsobIndexer
