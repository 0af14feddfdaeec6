import PsobIndexer.Walk
import PsobIndexer.Transparency
/-!
# A tick as calls on the store

With every write going through, a tick is a list of the store's calls, and each
call acts on the rows and cursors of the store (`Ledger`) in a simple way. The
properties of runs are proved about ledgers.
-/
open Lib

namespace PsobIndexer

open Database

/-- A store that can be closed and opened again: the caches of blocks and
metadata are the tables, and the tables have the current schema. -/
structure Opened (db : Database) : Prop where
  cached : db.cache_blocks = db.redb.aux_blocks
  synced : db.MetaSynced
  schema : db.redb.metadata.get? META_SCHEMA_VERSION = some (toString SCHEMA_VERSION)

/-! ## Ledgers -/

/-- The stored rows and the cursors of the chains. -/
structure Ledger where
  blocks : KMap BlockKey StoredBlock
  cursor : UInt32 → Option UInt64

def Database.ledger (db : Database) : Ledger := ⟨db.redb.aux_blocks, db.cursorOf⟩

theorem Database.ledger_blocks (db : Database) : db.ledger.blocks = db.redb.aux_blocks := rfl

/-- What a call does to the ledger. -/
def StoreOp.onLedger (L : Ledger) : StoreOp → Ledger
  | insertBlocks rows => { L with blocks := L.blocks.insertAll rows }
  | rollbackFrom c from_height =>
    { blocks := L.blocks.filter (fun k _ => keepKey c (from_height ≤ ·) k)
      cursor := fun c' => if c' = c ∧ (L.cursor c).any (from_height ≤ ·) = true then some (saturatingSub from_height 1)
        else L.cursor c' }
  | pruneBefore c below => { L with blocks := L.blocks.filter (fun k _ => keepKey c (· < below) k) }
  | setCursorHeight c h => { L with cursor := fun c' => if c' = c then some h else L.cursor c' }
  | classifyParent _ _ => L
  | upsertChain _ _ _ => L
  | reopen => L

/-- The calls a tick makes: witnessed rows, and prunings from 1 on. -/
def StoreOp.Regular : StoreOp → Prop
  | insertBlocks rows => ∀ row ∈ rows, Witnessed row
  | pruneBefore _ below => 1 ≤ below
  | _ => True

section Sha
variable (sha256d : Bytes → Hash32)

theorem Opened.withMeta {db : Database} (h : Opened db) {key : String} (value : String) (hkey : META_SCHEMA_VERSION ≠ key) :
    Opened (db.withMeta key value) := by
  refine ⟨h.cached, h.synced.withMeta key value, ?_⟩
  simp only [Database.withMeta, KMap.get?_insert, if_neg hkey]
  exact h.schema

/-- The frame of a batch: metadata stays, and both block maps take the rows. -/
theorem foldl_insertOne_frame (rows : List BlockRow) (db : Database) (hw : ∀ row ∈ rows, Witnessed row) :
    let db' := rows.foldl (insertOne sha256d) db
    db'.redb.aux_blocks = db.redb.aux_blocks.insertAll rows ∧ db'.cache_blocks = db.cache_blocks.insertAll rows ∧
      db'.redb.metadata = db.redb.metadata ∧ db'.cache_meta = db.cache_meta := by
  induction rows generalizing db with
  | nil => exact ⟨rfl, rfl, rfl, rfl⟩
  | cons row rows ih =>
    obtain ⟨hrow, hrows⟩ := List.forall_mem_cons.1 hw
    obtain ⟨ha, hb, hm, hc⟩ := ih (db.insertOne sha256d row) hrows
    obtain ⟨-, hm', -, hc', -⟩ := insertOne_frame sha256d db row
    obtain ⟨aux, haux, -⟩ := hrow
    refine ⟨?_, ?_, hm.trans hm', hc.trans hc'⟩
    · rw [List.foldl_cons, ha, insertOne_eq db haux]
      rfl
    · rw [List.foldl_cons, hb, insertOne_eq db haux]
      rfl

theorem classifyParent_frame (db : Database) (p : Hash32) (ltc_height : Option UInt64) :
    let db' := (db.classifyParent true p ltc_height).2
    db'.redb.aux_blocks = db.redb.aux_blocks ∧ db'.cache_blocks = db.cache_blocks ∧
      db'.redb.metadata = db.redb.metadata ∧ db'.cache_meta = db.cache_meta := by
  unfold Database.classifyParent
  simp only [not_true, if_false]
  split <;> exact ⟨rfl, rfl, rfl, rfl⟩

/-- Stores with the same cached metadata have the same cursors. -/
theorem cursorOf_congr {db db' : Database} (h : db'.cache_meta = db.cache_meta) : db'.cursorOf = db.cursorOf := by
  funext c
  unfold cursorOf
  rw [h]

theorem Opened.of_frame {db db' : Database} (h : Opened db) (hcached : db'.cache_blocks = db'.redb.aux_blocks)
    (hmeta : db'.redb.metadata = db.redb.metadata) (hcache : db'.cache_meta = db.cache_meta) : Opened db' := by
  refine ⟨hcached, ?_, ?_⟩
  · unfold MetaSynced
    rw [hcache, hmeta]
    exact h.synced
  · rw [hmeta]
    exact h.schema

/-- A rollback drops the rows from `from_height` on, then rewinds the cursor.
Which of the emptied parents leave the disk does not show in the blocks. -/
theorem Opened.rewound {db dropped : Database} (h : Opened db) {c : UInt32} {from_height : UInt64}
    (hblocks : dropped.redb.aux_blocks = db.redb.aux_blocks.filter (fun k _ => keepKey c (from_height ≤ ·) k))
    (hcached : dropped.cache_blocks = db.cache_blocks.filter (fun k _ => keepKey c (from_height ≤ ·) k))
    (hmeta : dropped.redb.metadata = db.redb.metadata) (hcache : dropped.cache_meta = db.cache_meta) :
    Opened (dropped.rewindCursor true c from_height).2 ∧
      (dropped.rewindCursor true c from_height).2.ledger = (StoreOp.rollbackFrom c from_height).onLedger db.ledger := by
  have hdropped : Opened dropped := h.of_frame (by rw [hcached, hblocks, h.cached]) hmeta hcache
  have hcursor : dropped.cursorOf = db.cursorOf := cursorOf_congr hcache
  have hany : (∃ hh, dropped.cursorOf c = some hh ∧ from_height ≤ hh) ↔ (db.cursorOf c).any (from_height ≤ ·) = true := by
    rw [hcursor]
    cases db.cursorOf c <;> simp
  rw [hdropped.synced.rewindCursor]
  simp only [hany, Database.ledger, StoreOp.onLedger]
  split_ifs with hcur
  · refine ⟨hdropped.withMeta _ (schema_ne_cursorKey c), ?_⟩
    rw [← hblocks]
    congr 1
    funext c'
    rw [cursorOf_withMeta, hcursor]
    by_cases hc : c' = c
    · simp [hc, hcur]
    · simp [hc]
  · refine ⟨hdropped, ?_⟩
    rw [hblocks]
    congr 1
    funext c'
    rw [hcursor]
    simp [hcur]

theorem Opened.rollbackFrom {db : Database} (h : Opened db) (c : UInt32) (from_height : UInt64) :
    Opened ((StoreOp.rollbackFrom c from_height).run sha256d db) ∧
      ((StoreOp.rollbackFrom c from_height).run sha256d db).ledger =
        (StoreOp.rollbackFrom c from_height).onLedger db.ledger := by
  simp only [StoreOp.run]
  rw [rollbackFrom_true]
  exact @Opened.rewound db (db.rolledBack sha256d c from_height) h c from_height rfl rfl rfl rfl

/-- Each regular call keeps the store open and acts on its ledger. -/
theorem Opened.run {db : Database} (h : Opened db) {op : StoreOp} (hop : op.Regular) :
    Opened (op.run sha256d db) ∧ (op.run sha256d db).ledger = op.onLedger db.ledger := by
  cases op with
  | insertBlocks rows =>
    have hrun : (StoreOp.insertBlocks rows).run sha256d db = rows.foldl (insertOne sha256d) db :=
      congrArg Prod.snd (insertBlocks_ok sha256d db rows hop)
    obtain ⟨ha, hb, hm, hc⟩ := foldl_insertOne_frame sha256d rows db hop
    rw [hrun]
    refine ⟨h.of_frame ?_ hm hc, ?_⟩
    · rw [ha, hb, h.cached]
    · unfold Database.ledger StoreOp.onLedger
      rw [ha, cursorOf_congr hc]
  | rollbackFrom c from_height => exact h.rollbackFrom sha256d c from_height
  | pruneBefore c below =>
    have hrun : (StoreOp.pruneBefore c below).run sha256d db = db.prunedBelow sha256d c below :=
      pruneBefore_true sha256d db c hop
    rw [hrun]
    refine ⟨h.of_frame ?_ rfl rfl, rfl⟩
    unfold prunedBelow
    simp only [h.cached]
  | classifyParent p ltc_height =>
    obtain ⟨ha, hb, hm, hc⟩ := classifyParent_frame db p ltc_height
    simp only [StoreOp.run]
    refine ⟨h.of_frame (by rw [ha, hb, h.cached]) hm hc, ?_⟩
    simp only [Database.ledger, StoreOp.onLedger]
    rw [ha, cursorOf_congr hc]
  | setCursorHeight c hh =>
    refine ⟨h.withMeta _ (schema_ne_cursorKey c), ?_⟩
    simp only [StoreOp.run]
    rw [setCursorHeight_true]
    simp only [Database.ledger, StoreOp.onLedger]
    congr 1
    funext c'
    exact cursorOf_withMeta db c c' hh
  | upsertChain c name electrs =>
    simp only [StoreOp.run]
    rcases h.synced.upsertChain c name electrs with hu | hu
    · rw [hu]
      exact ⟨h, rfl⟩
    · rw [hu]
      refine ⟨h.withMeta _ (schema_ne_chainKey c), ?_⟩
      simp only [Database.ledger, StoreOp.onLedger]
      congr 1
      funext c'
      exact cursorOf_withMeta_chain db c c' _
  | reopen =>
    have hgate : openDb sha256d db.redb = .ok (warmUpCache sha256d db.redb) := by
      unfold openDb Redb.gate
      rw [h.schema]
      rfl
    simp only [StoreOp.run]
    rw [hgate]
    refine ⟨⟨rfl, rfl, h.schema⟩, ?_⟩
    simp only [Database.ledger, StoreOp.onLedger]
    congr 1
    exact cursorOf_congr h.synced.symm

theorem Opened.runStore {db : Database} (h : Opened db) {ops : List StoreOp} (hops : ∀ op ∈ ops, op.Regular) :
    Opened (runStore sha256d db ops) ∧ (runStore sha256d db ops).ledger = ops.foldl StoreOp.onLedger db.ledger := by
  induction ops generalizing db with
  | nil => exact ⟨h, rfl⟩
  | cons op ops ih =>
    obtain ⟨hop, hops⟩ := List.forall_mem_cons.1 hops
    obtain ⟨hopen, hledger⟩ := h.run sha256d hop
    obtain ⟨hopen', hledger'⟩ := ih hopen hops
    refine ⟨hopen', ?_⟩
    rw [List.foldl_cons, ← hledger]
    exact hledger'

/-! ## The parts of a tick -/

def rollbackOps (c : UInt32) (stale : Option UInt64) : List StoreOp := stale.toList.map (StoreOp.rollbackFrom c)

/-- The calls that store accepted blocks; `below` is where the chain is pruned. -/
def storeOps (c : UInt32) (pending : List StoredBlock) (below : Option UInt64) : List StoreOp :=
  match pending.getLast? with
  | none => []
  | some b => .insertBlocks (rowsOf pending) :: .setCursorHeight c b.height :: below.toList.map (StoreOp.pruneBefore c)

def classifyOps (answers : List (Hash32 × Option UInt64)) : List StoreOp :=
  answers.map (fun a => .classifyParent a.1 a.2)

/-- The parents an answer puts on mainnet. -/
def mainnetOf (answers : List (Hash32 × Option UInt64)) : List Hash32 :=
  (answers.filter (fun a => a.2.isSome)).map Prod.fst

/-- What the resolver says of the unprobed parents. -/
def Tick.answers (t : Tick) (db : Database) : List (Hash32 × Option UInt64) :=
  (db.unclassifiedParents t.iter).map (fun p => (p, (t.resolver.resolve (t.net p) p).1))

/-- The hash of the stored block at a cursor. -/
def Ledger.prevHash (L : Ledger) (c : UInt32) (cursor : UInt64) : Option Hash32 :=
  if cursor = 0 then none else (L.blocks.get? ⟨c, cursor⟩).map (·.hash_le)

theorem rewindCursor_true_fst (db : Database) (c : UInt32) (from_height : UInt64) :
    (db.rewindCursor true c from_height).1 = .ok () := by
  unfold rewindCursor setMeta
  simp only
  split
  · rfl
  · split_ifs <;> rfl

theorem rollbackFrom_true_fst (db : Database) (c : UInt32) (from_height : UInt64) :
    ∃ n, (db.rollbackFrom sha256d true (fun _ => true) true c from_height).1 = .ok n := by
  unfold Database.rollbackFrom
  simp only [not_true, if_false]
  split
  · rename_i hr
    have hok := congrArg Prod.fst hr
    rw [rewindCursor_true_fst] at hok
    cases hok
  · exact ⟨_, rfl⟩

theorem rollbackStale_all (db : Database) (c : UInt32) (stale : Option UInt64) :
    rollbackStale sha256d .all db c stale = (.ok (), runStore sha256d db (rollbackOps c stale)) := by
  cases stale with
  | none => rfl
  | some s =>
    obtain ⟨n, hn⟩ := rollbackFrom_true_fst sha256d db c s
    have hpair : db.rollbackFrom sha256d true (fun _ => true) true c s =
        (.ok n, (StoreOp.rollbackFrom c s).run sha256d db) := Prod.ext hn rfl
    unfold rollbackStale
    simp only [Commits.all, hpair]
    rfl

theorem pruneWindow_all (config : Config) (db : Database) (c : UInt32) (last : UInt64) :
    ∃ below : Option UInt64, (∀ b ∈ below, 1 ≤ b) ∧ (config.max_kept_blocks = none → below = none) ∧
      pruneWindow sha256d config .all db c last =
        (.ok (), runStore sha256d db (below.toList.map (StoreOp.pruneBefore c))) := by
  unfold pruneWindow
  cases hkept : config.max_kept_blocks with
  | none => exact ⟨none, by simp, fun _ => rfl, rfl⟩
  | some max_kept =>
    simp only
    split_ifs with hdo
    · refine ⟨some (saturatingAdd (saturatingSub last max_kept) 1), ?_, by simp, rfl⟩
      intro b hb
      cases hb
      exact le_of_lt hdo.1
    · exact ⟨none, by simp, fun _ => rfl, rfl⟩

/-- Accepted blocks carry their witness. -/
theorem Verified.witnessed {sha256d : Bytes → Hash32} {w : Nat} {chain : AuxChain} {b : StoredBlock}
    (h : Verified w sha256d chain b) (k : BlockKey) : Witnessed (k, b) := by
  obtain ⟨-, wire, base, aux, -, hparse, hheader, -, -⟩ := h
  have hlen := (parseAuxpow_ok hparse).2
  exact ⟨aux, by rw [hheader], by omega⟩

theorem storePending_all (config : Config) (db : Database) (c : UInt32) (pending : List StoredBlock)
    (hw : ∀ row ∈ rowsOf pending, Witnessed row) :
    ∃ below : Option UInt64, (∀ b ∈ below, 1 ≤ b) ∧ (config.max_kept_blocks = none → below = none) ∧
      storePending sha256d config .all db c pending = (.ok (), runStore sha256d db (storeOps c pending below)) := by
  unfold storePending storeOps
  cases hlast : pending.getLast? with
  | none => exact ⟨none, by simp, fun _ => rfl, rfl⟩
  | some block =>
    have hinsert : db.insertBlocks sha256d true (rowsOf pending) =
        (.ok (), (StoreOp.insertBlocks (rowsOf pending)).run sha256d db) := by
      rw [StoreOp.run, insertBlocks_ok sha256d db _ hw]
    obtain ⟨below, hbelow, hkept, hprune⟩ := pruneWindow_all sha256d config
      ((StoreOp.setCursorHeight c block.height).run sha256d ((StoreOp.insertBlocks (rowsOf pending)).run sha256d db)) c
      block.height
    refine ⟨below, hbelow, hkept, ?_⟩
    simp only [Commits.all] at hprune ⊢
    rw [hinsert]
    exact hprune

/-- With every write going through, the answers are recorded one by one. -/
theorem classifyLoop_all (db : Database) (answers : List (Hash32 × Option UInt64)) :
    classifyLoop (fun _ => true) db answers = (.ok (mainnetOf answers), runStore sha256d db (classifyOps answers)) := by
  induction answers generalizing db with
  | nil => rfl
  | cons a answers ih =>
    obtain ⟨p, ltc_height⟩ := a
    have hone : db.classifyParent true p ltc_height =
        (.ok (), (StoreOp.classifyParent p ltc_height).run sha256d db) := Prod.ext (classifyParent_fst true db p _) rfl
    rw [classifyLoop, hone]
    simp only [ih]
    cases ltc_height <;> rfl

theorem classifyPendingParents_all (t : Tick) (ht : t.commits = .all) (db : Database) :
    classifyPendingParents t.resolver t.net t.commits.classify t.iter db =
      (.ok (mainnetOf (t.answers db)), runStore sha256d db (classifyOps (t.answers db))) := by
  unfold classifyPendingParents Tick.answers
  rw [ht]
  simp only [Commits.all]
  split_ifs with hnil
  · rw [hnil]
    rfl
  · exact classifyLoop_all sha256d db _

theorem prevHashAt_opened {db : Database} (h : Opened db) (c : UInt32) (cursor : UInt64) :
    prevHashAt db c cursor = (db.ledger.prevHash c cursor, db) := by
  unfold prevHashAt Ledger.prevHash blockAt
  split_ifs
  · rfl
  · rw [h.cached]
    simp only [Database.ledger]
    cases hget : db.redb.aux_blocks.get? ⟨c, cursor⟩ <;> rfl

/-! ## The whole tick -/

variable {w : Nat}

/-- The calls a fetched window leads to: roll back, store, prune, classify. -/
theorem ingestFetched_all {config : Config} {chain : AuxChain} {t : Tick} (ht : t.commits = .all) {db : Database}
    (h : Opened db) (cursor : UInt64) (fetched : List Fetched) :
    let r := walk w sha256d chain (db.ledger.prevHash chain.chain_id cursor) fetched
    ∃ below : Option UInt64, (∀ b ∈ below, 1 ≤ b) ∧ (config.max_kept_blocks = none → below = none) ∧
      let db₁ := runStore sha256d db (rollbackOps chain.chain_id r.2 ++ storeOps chain.chain_id r.1 below)
      ingestFetched w sha256d config chain t db cursor fetched =
        (.ok ⟨r.1, mainnetOf (t.answers db₁)⟩, runStore sha256d db₁ (classifyOps (t.answers db₁))) := by
  intro r
  have hw : ∀ row ∈ rowsOf r.1, Witnessed row := by
    intro row hrow
    obtain ⟨b, hb, rfl⟩ := List.mem_map.1 hrow
    exact ((walk_spec chain _ fetched).1 b hb).witnessed _
  obtain ⟨below, hbelow, hkept, hstore⟩ := storePending_all sha256d config
    (runStore sha256d db (rollbackOps chain.chain_id r.2)) chain.chain_id r.1 hw
  refine ⟨below, hbelow, hkept, ?_⟩
  intro db₁
  have hdb₁ : db₁ = runStore sha256d (runStore sha256d db (rollbackOps chain.chain_id r.2))
      (storeOps chain.chain_id r.1 below) := List.foldl_append
  unfold ingestFetched
  have hr : walk w sha256d chain (db.ledger.prevHash chain.chain_id cursor) fetched = r := rfl
  simp only [prevHashAt_opened h, ht, rollbackStale_all, hr, hstore, ← hdb₁]
  have hclass := classifyPendingParents_all sha256d t ht db₁
  rw [ht] at hclass
  simp only [hclass]

/-- A tick that has nothing to fetch or cannot fetch it. -/
def Tick.Idle (config : Config) (t : Tick) (cursor : Option UInt64) : Prop :=
  t.electrs.tipHeight = none ∨ cursor = none ∨ ∃ tip cur, t.electrs.tipHeight = some tip ∧ cursor = some cur ∧
    (tip < cur ∨ windowEnd config cur tip < saturatingAdd cur 1 ∨
      ∃ e, fetchWindow t.electrs (rangeInclusive (saturatingAdd cur 1) (windowEnd config cur tip)) = .error e)

/-- A tick that has a window of fetched heights above its cursor. -/
def Tick.Fetches (config : Config) (t : Tick) (cursor : Option UInt64) (cur : UInt64) (fetched : List Fetched) : Prop :=
  cursor = some cur ∧ ∃ tip, t.electrs.tipHeight = some tip ∧ cur ≤ tip ∧
    saturatingAdd cur 1 ≤ windowEnd config cur tip ∧
    fetchWindow t.electrs (rangeInclusive (saturatingAdd cur 1) (windowEnd config cur tip)) = .ok fetched

/-- The store after the registry entry of the chain is written. -/
def registered (sha256d : Bytes → Hash32) (chain : AuxChain) (db : Database) : Database :=
  (StoreOp.upsertChain chain.chain_id chain.name chain.electrs).run sha256d db

theorem Opened.registered {db : Database} (h : Opened db) (chain : AuxChain) :
    Opened (registered sha256d chain db) ∧ (registered sha256d chain db).ledger = db.ledger :=
  @Opened.run sha256d db h (.upsertChain chain.chain_id chain.name chain.electrs) trivial

theorem upsertChain_all {t : Tick} (ht : t.commits = .all) {db : Database} (h : Opened db) (chain : AuxChain) :
    db.upsertChain t.commits.upsert chain.chain_id chain.name chain.electrs =
      (.ok (), registered sha256d chain db) := by
  rw [ht]
  refine Prod.ext ?_ rfl
  simp only [Commits.all]
  rcases h.synced.upsertChain chain.chain_id chain.name chain.electrs with hu | hu
  · rw [hu]
  · rw [hu]

/-- The course of a tick whose registry entry is written. -/
theorem ingestChain_upserted {config : Config} {chain : AuxChain} {t : Tick} {db : Database} (h : Opened db)
    (hupsert : db.upsertChain t.commits.upsert chain.chain_id chain.name chain.electrs =
      (.ok (), registered sha256d chain db)) :
    ingestChain w sha256d config chain t db =
      match t.electrs.tipHeight, (db.cursorOf chain.chain_id).or (config.startOf chain) with
      | none, _ => (.error .tipHeight, registered sha256d chain db)
      | some _, none => (.error (.noStart chain.name chain.chain_id), registered sha256d chain db)
      | some tip, some cur =>
        if cur > tip then (.ok ⟨[], []⟩, registered sha256d chain db)
        else if saturatingAdd cur 1 > windowEnd config cur tip then (.ok ⟨[], []⟩, registered sha256d chain db)
        else match fetchWindow t.electrs (rangeInclusive (saturatingAdd cur 1) (windowEnd config cur tip)) with
          | .error e => (.error e, registered sha256d chain db)
          | .ok fetched => ingestFetched w sha256d config chain t (registered sha256d chain db) cur fetched := by
  obtain ⟨hopen, hledger⟩ := h.registered sha256d chain
  have hcursor : (registered sha256d chain db).cursorOf = db.cursorOf := congrArg Ledger.cursor hledger
  unfold ingestChain
  simp only [hupsert]
  cases t.electrs.tipHeight with
  | none => rfl
  | some tip =>
    simp only [hopen.synced.cursorHeight, hcursor]
    cases (db.cursorOf chain.chain_id).or (config.startOf chain) with
    | none => rfl
    | some cur => rfl

theorem ingestChain_idle {config : Config} {chain : AuxChain} {t : Tick} {db : Database} (h : Opened db)
    (hupsert : db.upsertChain t.commits.upsert chain.chain_id chain.name chain.electrs =
      (.ok (), registered sha256d chain db)) (hidle : t.Idle config ((db.cursorOf chain.chain_id).or (config.startOf chain))) :
    (ingestChain w sha256d config chain t db).2 = registered sha256d chain db ∧
      ∀ batch, (ingestChain w sha256d config chain t db).1 = .ok batch → batch = ⟨[], []⟩ := by
  rw [ingestChain_upserted sha256d h hupsert]
  rcases hidle with htip | hcur | ⟨tip, cur, htip, hcur, hwhy⟩
  · simp [htip]
  · cases htip : t.electrs.tipHeight <;> simp [hcur]
  · simp only [htip, hcur]
    rcases hwhy with habove | hdone | ⟨e, he⟩
    · simp [habove, eq_comm]
    · split_ifs <;> simp [eq_comm]
    · simp only [he]
      split_ifs <;> simp [eq_comm]

theorem ingestChain_fetches {config : Config} {chain : AuxChain} {t : Tick} {db : Database} (h : Opened db)
    (hupsert : db.upsertChain t.commits.upsert chain.chain_id chain.name chain.electrs =
      (.ok (), registered sha256d chain db)) {cur : UInt64} {fetched : List Fetched}
    (hf : t.Fetches config ((db.cursorOf chain.chain_id).or (config.startOf chain)) cur fetched) :
    ingestChain w sha256d config chain t db =
      ingestFetched w sha256d config chain t (registered sha256d chain db) cur fetched := by
  obtain ⟨hcur, tip, htip, hle, hwin, hfetch⟩ := hf
  rw [ingestChain_upserted sha256d h hupsert]
  simp only [htip, hcur, hfetch]
  rw [if_neg (not_lt.2 hle), if_neg (not_lt.2 hwin)]

theorem idle_or_fetches (config : Config) (t : Tick) (cursor : Option UInt64) :
    t.Idle config cursor ∨ ∃ cur fetched, t.Fetches config cursor cur fetched := by
  cases htip : t.electrs.tipHeight with
  | none => exact .inl (.inl htip)
  | some tip =>
    cases cursor with
    | none => exact .inl (.inr (.inl rfl))
    | some cur =>
      rcases lt_or_ge tip cur with habove | hle
      · exact .inl (.inr (.inr ⟨tip, cur, htip, rfl, .inl habove⟩))
      rcases lt_or_ge (windowEnd config cur tip) (saturatingAdd cur 1) with hdone | hwin
      · exact .inl (.inr (.inr ⟨tip, cur, htip, rfl, .inr (.inl hdone)⟩))
      cases hfetch : fetchWindow t.electrs (rangeInclusive (saturatingAdd cur 1) (windowEnd config cur tip)) with
      | error e => exact .inl (.inr (.inr ⟨tip, cur, htip, rfl, .inr (.inr ⟨e, hfetch⟩)⟩))
      | ok fetched => exact .inr ⟨cur, fetched, rfl, tip, htip, hle, hwin, hfetch⟩

/-- A window every request of which is answered. -/
theorem fetchWindow_ok {electrs : ElectrsClient} {window : List UInt64} {hash : UInt64 → String} {wire : UInt64 → Bytes}
    (hh : ∀ h ∈ window, electrs.blockHashAt h = some (hash h))
    (hw : ∀ h ∈ window, electrs.headerBytes h (hash h) = some (wire h)) (hlen : ∀ h ∈ window, 80 ≤ (wire h).length) :
    fetchWindow electrs window = .ok (window.map (fun h => (h, hash h, wire h))) := by
  have hhashes : window.mapM (fun h => (electrs.blockHashAt h).elim (throw (.blockHashAt h)) pure) =
      (.ok (window.map hash) : Except IngestError _) := by
    refine mapM_ok_of_forall fun h hm => ?_
    rw [hh h hm]
    rfl
  have hzip : window.zip (window.map hash) = window.map (fun h => (h, hash h)) := by
    simpa using List.zip_map' (f := id) (g := hash) (l := window)
  have hwires : (window.map (fun h => (h, hash h))).mapM
      (fun r => (electrs.headerWire r.1 r.2).elim (throw (.headerFetch r.1)) pure) =
        (.ok ((window.map (fun h => (h, hash h))).map (fun r => wire r.1)) : Except IngestError _) := by
    refine mapM_ok_of_forall fun r hm => ?_
    obtain ⟨h, hin, rfl⟩ := List.mem_map.1 hm
    have hraw := hlen h hin
    simp only [ElectrsClient.headerWire, hw h hin, Option.bind_eq_bind, Option.bind_some, HEADER_LEN, not_lt.2 hraw, if_false]
    rfl
  unfold fetchWindow
  rw [hhashes]
  simp only [bind, Except.bind, hzip, hwires, List.map_map]
  simp only [pure, Except.pure, Except.ok.injEq]
  rw [List.zip_map']
  simpa using List.zip_map' (f := id) (g := fun h => (hash h, wire h)) (l := window)

/-- A fetched window keeps its heights. -/
theorem fetchWindow_heights {electrs : ElectrsClient} {window : List UInt64} {fetched : List Fetched}
    (h : fetchWindow electrs window = .ok fetched) : fetched.map (·.1) = window := by
  unfold fetchWindow at h
  obtain ⟨hashes, hh, h⟩ := except_bind_eq_ok.1 h
  obtain ⟨wires, hw, h⟩ := except_bind_eq_ok.1 h
  cases h
  have hlen := mapM_ok_length hh
  have hlen' := mapM_ok_length hw
  rw [List.length_zip] at hlen'
  exact List.map_fst_zip (by rw [List.length_zip]; omega)

/-- What was fetched is what the endpoint answered. -/
theorem fetchWindow_replies {electrs : ElectrsClient} {window : List UInt64} {fetched : List Fetched}
    (h : fetchWindow electrs window = .ok fetched) {f : Fetched} (hf : f ∈ fetched) :
    electrs.blockHashAt f.1 = some f.2.1 ∧ electrs.headerBytes f.1 f.2.1 = some f.2.2 := by
  unfold fetchWindow at h
  obtain ⟨hashes, hh, h⟩ := except_bind_eq_ok.1 h
  obtain ⟨wires, hw, h⟩ := except_bind_eq_ok.1 h
  cases h
  obtain ⟨i, hi⟩ := List.mem_iff_getElem?.1 hf
  obtain ⟨height, hash, wire⟩ := f
  obtain ⟨hheight, hpair⟩ := List.getElem?_zip_eq_some.1 hi
  obtain ⟨hhash, hwire⟩ := List.getElem?_zip_eq_some.1 hpair
  have hlocator := mapM_ok_getElem? hh hheight hhash
  have hrequest : (window.zip hashes)[i]? = some (height, hash) := List.getElem?_zip_eq_some.2 ⟨hheight, hhash⟩
  have hpayload := mapM_ok_getElem? hw hrequest hwire
  simp only at hlocator hpayload ⊢
  constructor
  · cases hreply : electrs.blockHashAt height with
    | none => simp [hreply] at hlocator
    | some x =>
      rw [hreply] at hlocator
      rw [Except.ok.inj hlocator]
  · cases hreply : electrs.headerBytes height hash with
    | none => simp [ElectrsClient.headerWire, hreply] at hpayload
    | some x =>
      simp only [ElectrsClient.headerWire, hreply, Option.bind_eq_bind, Option.bind_some] at hpayload
      split_ifs at hpayload
      · cases hpayload
      · rw [Except.ok.inj hpayload]

end Sha

end PsobIndexer
