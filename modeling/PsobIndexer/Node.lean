import PsobIndexer.Lib.Blind
import PsobIndexer.Independent
import PsobIndexer.OrderBook
/-!
# The running node (`src/main.rs`)

One store serves the ingest loops, the swap endpoints and gossip. The loops are blind
to the order book, and the orders write nothing else. So however the two interleave,
the index comes out as if no order had come in.
-/
open Lib

namespace PsobIndexer

open Database

/-! ## The book in the store -/

/-- The order book, on disk and in the cache. -/
structure Book where
  table : KMap String SwapIntentMessage
  cache : KMap String SwapIntentMessage

def Database.book (db : Database) : Book := ⟨db.redb.swap_intents, db.cache_intents⟩

def Database.withBook (b : Book) (db : Database) : Database :=
  { db with
    redb := { db.redb with swap_intents := b.table }
    cache_intents := b.cache }

/-! ## The ingest loops are blind to it -/

theorem getMeta_blind (key : String) : Blind withBook fun db => db.getMeta key := by
  intro b db
  simp only [getMeta, withBook]
  split
  · rfl
  · split <;> rfl

theorem setMeta_blind (commit : Bool) (key value : String) : Blind withBook fun db => db.setMeta commit key value := by
  intro b db
  cases commit <;> rfl

theorem upsertChain_blind (commit : Bool) (chain_id : UInt32) (name electrs : String) :
    Blind withBook fun db => db.upsertChain commit chain_id name electrs := by
  intro b db
  unfold upsertChain
  simp only [getMeta_blind _ b db]
  split_ifs
  · rfl
  · exact setMeta_blind _ _ _ b _

theorem cursorHeight_blind (chain_id : UInt32) : Blind withBook fun db => db.cursorHeight chain_id := by
  intro b db
  simp only [cursorHeight, getMeta_blind _ b db]

theorem prevHashAt_blind (chain_id : UInt32) (cursor : UInt64) :
    Blind withBook fun db => prevHashAt db chain_id cursor := by
  intro b db
  simp only [prevHashAt, blockAt, withBook]
  split_ifs
  · rfl
  · split
    · rfl
    · split <;> rfl

section Sha
variable {w : Nat} {sha256d : Bytes → Hash32}

theorem rewindCursor_blind (commit : Bool) (chain_id : UInt32) (from_height : UInt64) :
    Blind withBook fun db => db.rewindCursor commit chain_id from_height := by
  intro b db
  unfold rewindCursor
  simp only [getMeta_blind _ b db]
  generalize db.getMeta (cursorKey chain_id) = r
  obtain ⟨v, d⟩ := r
  simp only
  cases v.bind (parseDec (2 ^ 64)) with
  | none => rfl
  | some hh =>
    simp only
    split_ifs
    · exact setMeta_blind _ _ _ b d
    · rfl

/-- The store after a rollback, up to the cursor. -/
def afterRollback (sha256d : Bytes → Hash32) (parent_commits : Hash32 → Bool) (chain_id : UInt32) (from_height : UInt64)
    (db : Database) : Database :=
  let keys := (db.chainRows chain_id from_height u64Max).map Prod.fst
  let rows := db.cache_blocks.entries.filter (fun e => e.1.chain_id = chain_id && from_height ≤ e.1.height)
  let parents := rowParents sha256d rows
  let siblings := retainSiblings db.cache_siblings parents chain_id (fun h => from_height ≤ h)
  let emptied := parents.filter (fun p => siblings.get? p == some [])
  { db with
    redb := { db.redb with
      aux_blocks := db.redb.aux_blocks.eraseAll keys
      sibling_index := eraseSiblingRows db.redb.sibling_index db.cache_parents.keys chain_id from_height
      parent_blocks := db.redb.parent_blocks.eraseAll (emptied.filter parent_commits) }
    cache_blocks := db.cache_blocks.eraseAll (rows.map Prod.fst)
    cache_siblings := siblings.eraseAll emptied
    cache_parents := db.cache_parents.eraseAll emptied }

theorem rollbackFrom_eq (parent_commits : Hash32 → Bool) (cursor_commit : Bool) (db : Database) (chain_id : UInt32)
    (from_height : UInt64) :
    db.rollbackFrom sha256d true parent_commits cursor_commit chain_id from_height =
      match (afterRollback sha256d parent_commits chain_id from_height db).rewindCursor cursor_commit chain_id from_height with
      | (.error e, db) => (.error e, db)
      | (.ok (), db') => (.ok (db.chainRows chain_id from_height u64Max).length, db') := by
  simp only [rollbackFrom, not_true, if_false, List.length_map]
  rfl

theorem rollbackFrom_blind (commit : Bool) (parent_commits : Hash32 → Bool) (cursor_commit : Bool) (chain_id : UInt32)
    (from_height : UInt64) :
    Blind withBook fun db => db.rollbackFrom sha256d commit parent_commits cursor_commit chain_id from_height := by
  intro b db
  cases commit with
  | false => rfl
  | true =>
    have hrewind := rewindCursor_blind cursor_commit chain_id from_height b
      (afterRollback sha256d parent_commits chain_id from_height db)
    change (afterRollback sha256d parent_commits chain_id from_height (db.withBook b)).rewindCursor cursor_commit chain_id
      from_height = _ at hrewind
    simp only [rollbackFrom_eq, hrewind]
    generalize (afterRollback sha256d parent_commits chain_id from_height db).rewindCursor cursor_commit chain_id
      from_height = r
    obtain ⟨r, d⟩ := r
    cases r <;> rfl

theorem insertRow_withBook (b : Book) (r : Redb) (row : BlockRow) :
    insertRow sha256d { r with swap_intents := b.table } row =
      (insertRow sha256d r row).map fun r => { r with swap_intents := b.table } := by
  unfold insertRow
  cases row.2.parentHash sha256d <;> rfl

theorem foldlM_insertRow_withBook (b : Book) (rows : List BlockRow) : ∀ r : Redb,
    rows.foldlM (insertRow sha256d) { r with swap_intents := b.table } =
      (rows.foldlM (insertRow sha256d) r).map fun r => { r with swap_intents := b.table } := by
  induction rows with
  | nil => exact fun _ => rfl
  | cons row rows ih =>
    intro r
    rw [List.foldlM_cons, List.foldlM_cons, insertRow_withBook]
    cases insertRow sha256d r row with
    | error e => rfl
    | ok r => exact ih r

theorem indexRows_blind (rows : List BlockRow) : Blind withBook fun db => db.indexRows sha256d rows := by
  induction rows with
  | nil => exact .pure _
  | cons row rows ih =>
    have hrow : Blind withBook fun db => db.indexRow sha256d row := by
      intro b db
      simp only [indexRow, withBook]
      cases row.2.header.aux with
      | none => rfl
      | some aux =>
        by_cases hknown : db.cache_parents.contains (sha256d aux.parent_header) = true
        · simp only [hknown, if_true]
        · simp only [hknown]
          cases parentWork aux.parent_header <;> rfl
    intro b db
    simp only [indexRows, hrow b db]
    generalize db.indexRow sha256d row = r
    obtain ⟨r, d⟩ := r
    cases r with
    | error e => rfl
    | ok u => exact ih b d

theorem insertBlocks_blind (commit : Bool) (rows : List BlockRow) :
    Blind withBook fun db => db.insertBlocks sha256d commit rows := by
  intro b db
  have hrows := @foldlM_insertRow_withBook sha256d b rows db.redb
  simp only [insertBlocks]
  by_cases hnil : rows = []
  · simp only [hnil, if_true]
  · simp only [hnil, if_false]
    have hcached := @indexRows_blind sha256d rows b
    have hredb : (db.withBook b).redb = { db.redb with swap_intents := b.table } := rfl
    rw [hredb, hrows]
    cases rows.foldlM (insertRow sha256d) db.redb with
    | error e => rfl
    | ok redb =>
      cases commit with
      | false => rfl
      | true => exact hcached { db with redb := redb, cache_blocks := db.cache_blocks.insertAll rows }

theorem pruneBefore_blind (commit : Bool) (chain_id : UInt32) (below : UInt64) :
    Blind withBook fun db => db.pruneBefore sha256d commit chain_id below := by
  intro b db
  cases commit <;> rfl

theorem classifyParent_blind (commit : Bool) (p : Hash32) (ltc_height : Option UInt64) :
    Blind withBook fun db => db.classifyParent commit p ltc_height := by
  intro b db
  cases commit with
  | false => rfl
  | true =>
    simp only [classifyParent, withBook, not_true, if_false]
    generalize db.cache_parents.modify p _ = m
    cases m.get? p <;> rfl

theorem classifyLoop_blind (commits : Hash32 → Bool) (results : List (Hash32 × Option UInt64)) :
    Blind withBook fun db => classifyLoop commits db results := by
  induction results with
  | nil => exact .pure _
  | cons e results ih =>
    obtain ⟨parent, ltc_height⟩ := e
    intro b db
    simp only [classifyLoop, classifyParent_blind (commits parent) parent ltc_height b db]
    generalize db.classifyParent (commits parent) parent ltc_height = r
    obtain ⟨r, d⟩ := r
    cases r with
    | error e => rfl
    | ok u =>
      simp only [ih b d]
      generalize classifyLoop commits d results = r
      obtain ⟨r, d⟩ := r
      cases r <;> rfl

theorem classifyPendingParents_blind (t : Tick) :
    Blind withBook fun db => classifyPendingParents t.resolver t.net t.commits.classify t.iter db := by
  intro b db
  simp only [classifyPendingParents]
  change (if db.unclassifiedParents t.iter = [] then _ else _) = _
  by_cases hnil : db.unclassifiedParents t.iter = []
  · simp only [hnil, if_true]
  · simp only [hnil, if_false]
    exact classifyLoop_blind _ _ b db

theorem rollbackStale_blind (commits : Commits) (chain_id : UInt32) (stale : Option UInt64) :
    Blind withBook fun db => rollbackStale sha256d commits db chain_id stale := by
  intro b db
  cases stale with
  | none => rfl
  | some s =>
    simp only [rollbackStale, rollbackFrom_blind commits.rollback commits.rollback_parents commits.rewind chain_id s b db]
    generalize db.rollbackFrom sha256d commits.rollback commits.rollback_parents commits.rewind chain_id s = r
    obtain ⟨r, d⟩ := r
    cases r <;> rfl

theorem pruneWindow_blind (config : Config) (commits : Commits) (chain_id : UInt32) (last : UInt64) :
    Blind withBook fun db => pruneWindow sha256d config commits db chain_id last := by
  intro b db
  simp only [pruneWindow]
  cases config.max_kept_blocks with
  | none => rfl
  | some max_kept =>
    have hmin : minHeight (db.withBook b) chain_id = minHeight db chain_id := rfl
    simp only [hmin]
    generalize saturatingAdd (saturatingSub last max_kept) 1 = below
    by_cases hlow : below > 1 ∧ (minHeight db chain_id).any (· < below)
    · simp only [hlow, and_self, if_true, pruneBefore_blind commits.prune chain_id below b db]
      generalize db.pruneBefore sha256d commits.prune chain_id below = r
      obtain ⟨r, d⟩ := r
      cases r <;> rfl
    · simp only [hlow, if_false]

theorem storePending_blind (config : Config) (commits : Commits) (chain_id : UInt32) (pending : List StoredBlock) :
    Blind withBook fun db => storePending sha256d config commits db chain_id pending := by
  intro b db
  simp only [storePending]
  cases pending.getLast? with
  | none => rfl
  | some last =>
    simp only [insertBlocks_blind commits.insert (rowsOf pending) b db]
    generalize db.insertBlocks sha256d commits.insert (rowsOf pending) = r
    obtain ⟨r, d⟩ := r
    cases r with
    | error e => rfl
    | ok u =>
      have hcursor := setMeta_blind commits.cursor (cursorKey chain_id) (toString last.height) b d
      change (d.withBook b).setCursorHeight commits.cursor chain_id last.height =
        ((d.setCursorHeight commits.cursor chain_id last.height).1,
          withBook b (d.setCursorHeight commits.cursor chain_id last.height).2) at hcursor
      simp only [hcursor]
      generalize d.setCursorHeight commits.cursor chain_id last.height = r
      obtain ⟨r, d⟩ := r
      cases r with
      | error e => rfl
      | ok u => exact pruneWindow_blind config commits chain_id last.height b d

theorem ingestFetched_blind (config : Config) (chain : AuxChain) (t : Tick) (cursor : UInt64) (fetched : List Fetched) :
    Blind withBook fun db => ingestFetched w sha256d config chain t db cursor fetched := by
  intro b db
  simp only [ingestFetched, prevHashAt_blind chain.chain_id cursor b db]
  generalize prevHashAt db chain.chain_id cursor = r
  obtain ⟨prev_hash, d⟩ := r
  simp only
  generalize walk w sha256d chain prev_hash fetched = r
  obtain ⟨pending, stale⟩ := r
  simp only [rollbackStale_blind t.commits chain.chain_id stale b d]
  generalize rollbackStale sha256d t.commits d chain.chain_id stale = r
  obtain ⟨r, d⟩ := r
  cases r with
  | error e => rfl
  | ok u =>
    simp only [storePending_blind config t.commits chain.chain_id pending b d]
    generalize storePending sha256d config t.commits d chain.chain_id pending = r
    obtain ⟨r, d⟩ := r
    cases r with
    | error e => rfl
    | ok u =>
      simp only [classifyPendingParents_blind t b d]
      generalize classifyPendingParents t.resolver t.net t.commits.classify t.iter d = r
      obtain ⟨r, d⟩ := r
      cases r <;> rfl

/-- A tick neither reads nor writes the order book. -/
theorem ingestChain_blind (config : Config) (chain : AuxChain) (t : Tick) :
    Blind withBook fun db => ingestChain w sha256d config chain t db := by
  intro b db
  simp only [ingestChain, upsertChain_blind t.commits.upsert chain.chain_id chain.name chain.electrs b db]
  generalize db.upsertChain t.commits.upsert chain.chain_id chain.name chain.electrs = r
  obtain ⟨r, d⟩ := r
  cases r with
  | error e => rfl
  | ok u =>
    cases t.electrs.tipHeight with
    | none => rfl
    | some tip_height =>
      simp only [cursorHeight_blind chain.chain_id b d]
      generalize d.cursorHeight chain.chain_id = r
      obtain ⟨cursor, d⟩ := r
      simp only
      cases cursor.or (config.startOf chain) with
      | none => rfl
      | some cursor =>
        simp only
        by_cases hidle : cursor > tip_height
        · simp only [hidle, if_true]
        · simp only [hidle, if_false]
          by_cases hempty : saturatingAdd cursor 1 > windowEnd config cursor tip_height
          · simp only [hempty, if_true]
          · simp only [hempty, if_false]
            cases fetchWindow t.electrs (rangeInclusive (saturatingAdd cursor 1) (windowEnd config cursor tip_height)) with
            | error e => rfl
            | ok fetched => exact ingestFetched_blind config chain t cursor fetched b d

end Sha

/-! ## Steps of the book -/

/-- The steps that are none of the registry's. -/
def BookStep.orders : BookStep → Bool
  | upsertChain .. => false
  | _ => true

theorem withBook_withBook (b b' : Book) (db : Database) : (db.withBook b').withBook b = db.withBook b := rfl

theorem withBook_book (db : Database) : db.withBook db.book = db := rfl

theorem pruneExpiredIntents_sameBut (commit : Bool) (now : UInt64) (db : Database) :
    SameBut withBook db (db.pruneExpiredIntents commit now).2 := by
  rcases pruneExpiredIntents_snd commit now db with he | he
  · rw [he]
    exact .refl withBook_book db
  · rw [he]
    exact ⟨(db.pruned now).book, rfl⟩

theorem insertIntent_sameBut (prune_commit commit : Bool) (now : UInt64) (db : Database) (intent : SwapIntentMessage) :
    SameBut withBook db (db.insertIntent prune_commit commit now intent).2 := by
  have hpruned := pruneExpiredIntents_sameBut prune_commit now db
  unfold insertIntent
  generalize db.pruneExpiredIntents prune_commit now = r at hpruned ⊢
  obtain ⟨r, d⟩ := r
  cases r with
  | error e => exact hpruned
  | ok n =>
    refine hpruned.trans withBook_withBook ?_
    simp only
    split_ifs
    · exact .refl withBook_book d
    · exact ⟨⟨_, _⟩, rfl⟩
    · exact ⟨⟨_, _⟩, rfl⟩

section Entry
variable {S : SigScheme} {enforce : Bool} {iter : List (String × String) → List (String × String)}

/-- Orders leave the rest of the store alone. -/
theorem BookStep.run_sameBut {step : BookStep} (h : step.orders = true) (db : Database) :
    SameBut withBook db (step.run S enforce iter db) := by
  cases step with
  | create check_now now prune_commit commit intent =>
    have hinsert := insertIntent_sameBut prune_commit commit now db intent
    unfold run createSwapIntent
    simp only
    cases checkIntent S enforce iter check_now db intent with
    | error e => exact .refl withBook_book db
    | ok u =>
      simp only
      split <;> rename_i hr <;> rw [hr] at hinsert <;> exact hinsert
  | gossip check_now now prune_commit commit payload =>
    cases payload with
    | none => exact .refl withBook_book db
    | some intent =>
      unfold run inboundIntent
      simp only
      cases checkIntent S enforce iter check_now db intent with
      | error e => exact .refl withBook_book db
      | ok u => exact insertIntent_sameBut prune_commit commit now db intent
  | list prune_now now commit source target protocol page =>
    have hpruned := pruneExpiredIntents_sameBut commit prune_now db
    unfold run listIntents
    simp only
    split <;> rename_i hr <;> rw [hr] at hpruned <;> exact hpruned
  | prune now commit => exact pruneExpiredIntents_sameBut commit now db
  | upsertChain commit chain_id name electrs => cases h

end Entry

/-! ## The node -/

/-- What happens to a node: something of the ingest loops, or of the order book. The
known chains of the configuration are registered as the node starts. -/
inductive NodeOp where
  | ingest (op : IngestOp)
  | book (step : BookStep)

/-- What the index is made of. -/
def NodeOp.indexes : NodeOp → Bool
  | ingest _ => true
  | book step => !step.orders

section Run
variable (w : Nat) (sha256d : Bytes → Hash32) (config : Config) (S : SigScheme) (enforce : Bool)
  (iter : List (String × String) → List (String × String))

def NodeOp.run (db : Database) : NodeOp → Database
  | ingest op => op.run w sha256d config db
  | book step => step.run S enforce iter db

def serveNode (db : Database) (ops : List NodeOp) : Database := ops.foldl (NodeOp.run w sha256d config S enforce iter) db

/-- What a tick comes to. -/
def NodeOp.outcome (db : Database) : NodeOp → Option (Except IngestError IngestBatch)
  | ingest (.tick chain t) => some (ingestChain w sha256d config chain t db).1
  | _ => none

variable {sha256d}

/-- A restart takes the book from its table. -/
theorem restart_sameBut {db db' : Database} (h : SameBut withBook db db') :
    SameBut withBook ((openDb sha256d db.redb).toOption.getD db) ((openDb sha256d db'.redb).toOption.getD db') := by
  obtain ⟨b, rfl⟩ := h
  have hmeta : (db.withBook b).redb.metadata = db.redb.metadata := rfl
  unfold openDb Redb.gate
  rw [hmeta]
  split
  · split_ifs
    · exact ⟨⟨b.table, b.table⟩, rfl⟩
    · exact ⟨b, rfl⟩
  · exact ⟨⟨b.table, b.table⟩, rfl⟩

theorem index_unwinds : Unwinds (NodeOp.run w sha256d config S enforce iter) NodeOp.indexes (SameBut withBook) := by
  constructor
  · intro db db' op hop h
    cases op with
    | ingest op =>
      cases op with
      | tick chain t => exact ((ingestChain_blind config chain t).sameBut h).2
      | restart => exact restart_sameBut h
    | book step =>
      cases step with
      | upsertChain commit chain_id name electrs => exact ((upsertChain_blind commit chain_id name electrs).sameBut h).2
      | create => cases hop
      | gossip => cases hop
      | list => cases hop
      | prune => cases hop
  · intro db db' op hop h
    cases op with
    | ingest op => cases hop
    | book step => exact h.trans withBook_withBook (BookStep.run_sameBut (by simpa [NodeOp.indexes] using hop) db')

variable (sha256d)

/-- Whatever orders come in between, and whichever transactions fail, each tick has the
outcome, and the store but for the book is the one, that there would have been without
them. -/
theorem index_ignores_orders (db : Database) (ops : List NodeOp) :
    let all := serveNode w sha256d config S enforce iter db ops
    let own := serveNode w sha256d config S enforce iter db (ops.filter NodeOp.indexes)
    all = own.withBook all.book ∧
      ownedAnswers (NodeOp.run w sha256d config S enforce iter) (NodeOp.outcome w sha256d config) NodeOp.indexes db ops =
        ownedAnswers (NodeOp.run w sha256d config S enforce iter) (NodeOp.outcome w sha256d config) NodeOp.indexes db
          (ops.filter NodeOp.indexes) := by
  intro all own
  have hunwinds := @index_unwinds w sha256d config S enforce iter
  refine ⟨?_, hunwinds.ownedAnswers_eq ?_ (.refl withBook_book db) ops⟩
  · obtain ⟨b, hb⟩ : SameBut withBook own all := hunwinds.run (.refl withBook_book db) ops
    rw [hb]
    rfl
  · intro db db' op hop h
    cases op with
    | ingest op =>
      cases op with
      | tick chain t => exact congrArg some ((ingestChain_blind config chain t).sameBut h).1
      | restart => rfl
    | book step => rfl

end Run

end PsobIndexer
