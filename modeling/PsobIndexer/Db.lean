import PsobIndexer.Lib.KMap
import PsobIndexer.Lib.Word
import PsobIndexer.Swap
/-!
# The store (`src/db.rs`)

Redb tables under an in-memory cache. Values are stored decoded: bincode and
serde_json undo their own encodings. Every mutator returns its result and the
database it leaves, also when it fails, since a cache may already have changed.
`commits` says which write transactions go through: a transaction that fails at
any of its steps (begin, open, insert, commit) leaves the tables as they were.
A `DashMap` is a `KMap` here, and where its iteration order shows in a result
the order is an argument.
-/
open Lib

namespace PsobIndexer

/-! ## Keys -/

/-- `(chain_id, height)`. -/
structure BlockKey where
  chain_id : UInt32
  height : UInt64

namespace BlockKey

/-- The position of a key in table order. -/
def toNat (k : BlockKey) : Nat := k.chain_id.toNat * 2 ^ 64 + k.height.toNat

theorem toNat_injective : Function.Injective toNat := by
  intro a b h
  obtain ⟨c, x⟩ := a
  obtain ⟨d, y⟩ := b
  have hx := x.toNat_lt
  have hy := y.toNat_lt
  simp only [toNat] at h
  obtain rfl : c = d := UInt32.toNat_inj.1 (by omega)
  obtain rfl : x = y := UInt64.toNat_inj.1 (by omega)
  rfl

instance : LinearOrder BlockKey := LinearOrder.lift' toNat toNat_injective

theorem le_iff {a b : BlockKey} : a ≤ b ↔ a.toNat ≤ b.toNat := Iff.rfl

/-- The keys from `(c, lo)` to `(c, hi)` are those of chain `c` in that window. -/
theorem mem_window {c : UInt32} {lo hi : UInt64} {k : BlockKey} :
    (⟨c, lo⟩ : BlockKey) ≤ k ∧ k ≤ ⟨c, hi⟩ ↔ k.chain_id = c ∧ lo ≤ k.height ∧ k.height ≤ hi := by
  have h1 := k.height.toNat_lt
  have h2 := lo.toNat_lt
  have h3 := hi.toNat_lt
  rw [le_iff, le_iff, UInt64.le_iff_toNat_le, UInt64.le_iff_toNat_le, ← UInt32.toNat_inj]
  simp only [toNat]
  omega

end BlockKey

/-- The hash as a big-endian number, whose order is the order of the bytes. -/
def Hash32.toNat (h : Hash32) : Nat := leNat h.val.reverse

theorem Hash32.toNat_injective : Function.Injective Hash32.toNat := by
  intro a b h
  have hrev : a.val.reverse = b.val.reverse := by
    rw [← leBytes_leNat a.val.reverse, ← leBytes_leNat b.val.reverse, List.length_reverse, List.length_reverse,
      a.property, b.property]
    exact congrArg (leBytes 32) h
  exact Subtype.ext (List.reverse_injective hrev)

instance : LinearOrder Hash32 := LinearOrder.lift' Hash32.toNat Hash32.toNat_injective

/-- `(parent_hash, chain_id, height)`. -/
structure SiblingKey where
  parent : Hash32
  chain_id : UInt32
  height : UInt64

namespace SiblingKey

def toNat (k : SiblingKey) : Nat := k.parent.toNat * 2 ^ 96 + k.chain_id.toNat * 2 ^ 64 + k.height.toNat

theorem toNat_injective : Function.Injective toNat := by
  intro a b h
  obtain ⟨p, c, x⟩ := a
  obtain ⟨q, d, y⟩ := b
  have hx := x.toNat_lt
  have hy := y.toNat_lt
  have hc := c.toNat_lt
  have hd := d.toNat_lt
  simp only [toNat] at h
  obtain rfl : p = q := Hash32.toNat_injective (by omega)
  obtain rfl : c = d := UInt32.toNat_inj.1 (by omega)
  obtain rfl : x = y := UInt64.toNat_inj.1 (by omega)
  rfl

instance : LinearOrder SiblingKey := LinearOrder.lift' toNat toNat_injective

theorem le_iff {a b : SiblingKey} : a ≤ b ↔ a.toNat ≤ b.toNat := Iff.rfl

/-- The rows of one parent and one chain from a height on. -/
theorem mem_window {p : Hash32} {c : UInt32} {lo hi : UInt64} {k : SiblingKey} :
    (⟨p, c, lo⟩ : SiblingKey) ≤ k ∧ k ≤ ⟨p, c, hi⟩ ↔
      k.parent = p ∧ k.chain_id = c ∧ lo ≤ k.height ∧ k.height ≤ hi := by
  have h1 := k.height.toNat_lt
  have h2 := lo.toNat_lt
  have h3 := hi.toNat_lt
  have h4 := k.chain_id.toNat_lt
  have h5 := c.toNat_lt
  rw [le_iff, le_iff, UInt64.le_iff_toNat_le, UInt64.le_iff_toNat_le, ← UInt32.toNat_inj,
    ← Hash32.toNat_injective.eq_iff]
  simp only [toNat]
  omega

/-- The rows of one parent. -/
theorem mem_parent {p : Hash32} {k : SiblingKey} :
    (⟨p, 0, 0⟩ : SiblingKey) ≤ k ∧ k ≤ ⟨p, 0xffffffff, u64Max⟩ ↔ k.parent = p := by
  have h1 := k.height.toNat_lt
  have h4 := k.chain_id.toNat_lt
  have hc : (0xffffffff : UInt32).toNat = 2 ^ 32 - 1 := rfl
  have hh : u64Max.toNat = 2 ^ 64 - 1 := rfl
  rw [le_iff, le_iff, ← Hash32.toNat_injective.eq_iff]
  simp only [toNat, hc, hh, UInt32.toNat_zero, UInt64.toNat_zero]
  omega

end SiblingKey

/-! ## Records -/

/-- An aux block with its parsed header and its full wire payload in hex. -/
structure StoredBlock where
  hash_le : Hash32
  chain_id : UInt32
  height : UInt64
  header : BlockHeader
  wire_hex : String
  deriving DecidableEq

/-- A parent header seen in a witness. -/
structure StoredParent where
  parent_hash_le : Hash32
  parent_header : Bytes
  /-- `some` iff the parent was confirmed on mainnet. -/
  ltc_height : Option UInt64
  /-- 0 = unprobed, 1 = mainnet, 2 = trial. -/
  parent_state : Int
  work : Hash32
  deriving DecidableEq

/-- A mainnet parent with one leg for each chain that shares it. -/
structure SharedParent where
  parent_hash_le : Hash32
  ltc_height : UInt64
  legs : List (UInt32 × UInt64)
  deriving DecidableEq

/-- A pagination window. -/
structure Page where
  limit : Nat
  offset : Nat

def Page.default : Page := ⟨20, 0⟩

def Page.new (limit offset : Option Nat) : Page := ⟨max 1 (min (limit.getD 20) 200), offset.getD 0⟩

/-- `skip(page.offset).take(page.limit)`. -/
def Page.slice {α : Type} (page : Page) (l : List α) : List α := (l.drop page.offset).take page.limit

/-- One row of an epoch query. -/
structure EpochRow where
  chain_id : UInt32
  height : UInt64
  ltc_height : UInt64
  hash_le : Hash32
  deriving DecidableEq

structure ChainStats where
  chain_id : UInt32
  blocks : Nat
  min_height : Option UInt64
  max_height : Option UInt64
  deriving DecidableEq

structure Stats where
  total_blocks : Nat
  total_parents : Nat
  sibling_groups : Nat
  chains : List ChainStats
  deriving DecidableEq

inductive DbError where
  /-- A step of a transaction failed. -/
  | redb
  | noAuxpow (chain_id : UInt32) (height : UInt64)
  | capacity
  | schema (v : Nat)
  /-- An index past the end of a parent header, which ends the calling task. -/
  | indexOutOfBounds
  deriving DecidableEq

/-- A row handed to `insertBlocks`. -/
abbrev BlockRow := BlockKey × StoredBlock

/-- The hash of the parent header in a block's witness, if it has one. -/
def StoredBlock.parentHash (sha256d : Bytes → Hash32) (b : StoredBlock) : Option Hash32 :=
  b.header.aux.map (fun a => sha256d a.parent_header)

/-! ## Tables and caches -/

/-- The durable tables. -/
structure Redb where
  aux_blocks : KMap BlockKey StoredBlock
  parent_blocks : KMap Hash32 StoredParent
  sibling_index : KMap SiblingKey Unit
  metadata : KMap String String
  swap_intents : KMap String SwapIntentMessage

def Redb.empty : Redb := ⟨.empty, .empty, .empty, .empty, .empty⟩

structure Database where
  redb : Redb
  cache_blocks : KMap BlockKey StoredBlock
  cache_parents : KMap Hash32 StoredParent
  cache_siblings : KMap Hash32 (List StoredBlock)
  cache_meta : KMap String String
  cache_intents : KMap String SwapIntentMessage

/-! ## Opening -/

def SCHEMA_VERSION : Nat := 2

def META_SCHEMA_VERSION : String := "schema_version"

/-- Refuse tables of another schema version; mark fresh ones. -/
def Redb.gate (r : Redb) : Except DbError Redb :=
  match (r.metadata.get? META_SCHEMA_VERSION).bind (parseDec (2 ^ 32)) with
  | some v => if v = SCHEMA_VERSION then .ok r else .error (.schema v)
  | none => .ok { r with metadata := r.metadata.insert META_SCHEMA_VERSION (toString SCHEMA_VERSION) }

/-- Append a block to a sibling list unless its chain and height are listed. -/
def pushSibling (list : List StoredBlock) (k : BlockKey) (block : StoredBlock) : List StoredBlock :=
  if list.any (fun b => b.chain_id = k.chain_id && b.height = k.height) then list else list ++ [block]

section Sha
variable (sha256d : Bytes → Hash32)

/-- One `aux_blocks` row of the warm-up: the sibling list of its parent. -/
def warmSibling (m : KMap Hash32 (List StoredBlock)) (row : BlockRow) : KMap Hash32 (List StoredBlock) :=
  match row.2.parentHash sha256d with
  | none => m
  | some p => m.insert p (pushSibling ((m.get? p).getD []) ⟨row.2.chain_id, row.2.height⟩ row.2)

/-- Load the full working set into the caches. -/
def warmUpCache (r : Redb) : Database where
  redb := r
  cache_blocks := r.aux_blocks
  cache_parents := r.parent_blocks
  cache_siblings := r.aux_blocks.entries.foldl (warmSibling sha256d) .empty
  cache_meta := r.metadata
  cache_intents := r.swap_intents

/-- `Database::open` on the tables of a file (empty tables for a new one). -/
def openDb (r : Redb) : Except DbError Database := do
  let r ← r.gate
  return warmUpCache sha256d r

end Sha

namespace Database

/-! ## Metadata -/

/-- Cache first, then the table, whose value is cached. -/
def getMeta (db : Database) (key : String) : Option String × Database :=
  match db.cache_meta.get? key with
  | some v => (some v, db)
  | none =>
    match db.redb.metadata.get? key with
    | some s => (some s, { db with cache_meta := db.cache_meta.insert key s })
    | none => (none, db)

def setMeta (commit : Bool) (db : Database) (key value : String) : Except DbError Unit × Database :=
  let db := { db with cache_meta := db.cache_meta.insert key value }
  if commit then (.ok (), { db with redb := { db.redb with metadata := db.redb.metadata.insert key value } })
  else (.error .redb, db)

/-- `chain.{chain_id}`. -/
def chainKey (chain_id : UInt32) : String := "chain." ++ toString chain_id

/-- `{chain_id}.cursor_height`. -/
def cursorKey (chain_id : UInt32) : String := toString chain_id ++ ".cursor_height"

/-- Record a chain's name and endpoint; nothing is written when they are unchanged. -/
def upsertChain (commit : Bool) (db : Database) (chain_id : UInt32) (name electrs : String) :
    Except DbError Unit × Database :=
  let key := chainKey chain_id
  let val := name ++ "|" ++ electrs
  let (existing, db) := db.getMeta key
  if existing = some val then (.ok (), db) else db.setMeta commit key val

/-- One entry of the chain registry, if the key names a chain. -/
def registryRow (e : String × String) : Option (UInt32 × String × String) := do
  let id ← stripPrefix "chain." e.1
  let id ← parseDec (2 ^ 32) id
  let (name, url) := splitOnce '|' e.2
  return (UInt32.ofNat id, name, url)

def chainRegistry (iter : List (String × String) → List (String × String)) (db : Database) :
    List (UInt32 × String × String) :=
  (iter db.cache_meta.entries).filterMap registryRow

def cursorHeight (db : Database) (chain_id : UInt32) : Option UInt64 × Database :=
  let (v, db) := db.getMeta (cursorKey chain_id)
  ((v.bind (parseDec (2 ^ 64))).map UInt64.ofNat, db)

def setCursorHeight (commit : Bool) (db : Database) (chain_id : UInt32) (height : UInt64) :
    Except DbError Unit × Database :=
  db.setMeta commit (cursorKey chain_id) (toString height)

/-! ## Swap intents -/

def MAX_ACTIVE_INTENTS : Nat := 20000

/-- Drop the intents whose expiry has passed: tables first, then the cache.
No transaction runs when there are none. -/
def pruneExpiredIntents (commit : Bool) (now : UInt64) (db : Database) : Except DbError Nat × Database :=
  let expired := (db.cache_intents.entries.filter (fun e => e.2.expiry ≤ now)).map Prod.fst
  let n := expired.length
  if n = 0 then (.ok 0, db)
  else if commit then
    (.ok n, { db with
      redb := { db.redb with swap_intents := db.redb.swap_intents.eraseAll expired }
      cache_intents := db.cache_intents.eraseAll expired })
  else (.error .redb, db)

/-- Store a validated intent, pruning expired ones first. -/
def insertIntent (prune_commit commit : Bool) (now : UInt64) (db : Database) (intent : SwapIntentMessage) :
    Except DbError Unit × Database :=
  match db.pruneExpiredIntents prune_commit now with
  | (.error e, db) => (.error e, db)
  | (.ok _, db) =>
    if db.cache_intents.size ≥ MAX_ACTIVE_INTENTS then (.error .capacity, db)
    else
      let db := { db with cache_intents := db.cache_intents.insert intent.intent_id intent }
      if commit then
        (.ok (), { db with redb := { db.redb with swap_intents := db.redb.swap_intents.insert intent.intent_id intent } })
      else (.error .redb, db)

/-- The live intents that match the filters, newest first. -/
def matchingIntents (iter : List (String × SwapIntentMessage) → List (String × SwapIntentMessage)) (db : Database)
    (now : UInt64) (source target : Option UInt32) (protocol : Option String) : List SwapIntentMessage :=
  (((iter db.cache_intents.entries).map Prod.snd).filter (fun i => i.expiry > now && source.all (i.from_chain == ·) &&
    target.all (i.to_chain == ·) && protocol.all (i.protocol == ·))).mergeSort (fun a b => b.timestamp ≤ a.timestamp)

/-- A page of the live intents, and how many there are. The clock is read twice. -/
def listIntents (iter : List (String × SwapIntentMessage) → List (String × SwapIntentMessage)) (commit : Bool)
    (prune_now now : UInt64) (db : Database) (source target : Option UInt32) (protocol : Option String) (page : Page) :
    Except DbError (List SwapIntentMessage × Nat) × Database :=
  match db.pruneExpiredIntents commit prune_now with
  | (.error e, db) => (.error e, db)
  | (.ok _, db) =>
    let all := db.matchingIntents iter now source target protocol
    (.ok (page.slice all, all.length), db)

/-! ## Aux blocks -/

/-- Cache first, then the table, whose row is cached. -/
def blockAt (db : Database) (chain_id : UInt32) (height : UInt64) : Option StoredBlock × Database :=
  match db.cache_blocks.get? ⟨chain_id, height⟩ with
  | some b => (some b, db)
  | none =>
    match db.redb.aux_blocks.get? ⟨chain_id, height⟩ with
    | some b => (some b, { db with cache_blocks := db.cache_blocks.insert ⟨chain_id, height⟩ b })
    | none => (none, db)

/-- The rows of one chain in the height window, in height order. -/
def chainRows (db : Database) (chain_id : UInt32) (lo hi : UInt64) : List BlockRow :=
  db.redb.aux_blocks.range ⟨chain_id, lo⟩ ⟨chain_id, hi⟩

def latestHeight (db : Database) (chain_id : UInt32) : Option UInt64 :=
  (db.chainRows chain_id 0 u64Max).getLast?.map (fun row => row.1.height)

def blocksRange (db : Database) (chain_id : UInt32) (lo hi : UInt64) (page : Page) : List StoredBlock :=
  if lo > hi then [] else page.slice ((db.chainRows chain_id lo hi).map Prod.snd)

def chainBlockCount (db : Database) (chain_id : UInt32) : Nat := (db.chainRows chain_id 0 u64Max).length

def totalBlocks (db : Database) : Nat := db.redb.aux_blocks.size

section Sha
variable (sha256d : Bytes → Hash32)

/-- The tables after one row of `insertBlocks`' transaction. -/
def insertRow (r : Redb) (row : BlockRow) : Except DbError Redb :=
  match row.2.parentHash sha256d with
  | none => .error (.noAuxpow row.1.chain_id row.1.height)
  | some p => .ok { r with
      aux_blocks := r.aux_blocks.insert row.1 row.2
      sibling_index := r.sibling_index.insert ⟨p, row.1.chain_id, row.1.height⟩ () }

/-- The work a parent header's target stands for; the header is indexed up to
byte 75. -/
def parentWork (parent_header : Bytes) : Except DbError Hash32 :=
  if parent_header.length < 76 then .error .indexOutOfBounds
  else .ok (blockWork ((expandTarget (leU32At parent_header 72)).getD (ByteArr.fill 32 0xff)))

/-- The sibling list and the parent cache after one committed row. -/
def indexRow (db : Database) (row : BlockRow) : Except DbError Unit × Database :=
  match row.2.header.aux with
  | none => (.ok (), db)
  | some aux =>
    let parent_hash := sha256d aux.parent_header
    let list := (db.cache_siblings.get? parent_hash).getD []
    let db := { db with cache_siblings := db.cache_siblings.insert parent_hash (pushSibling list row.1 row.2) }
    if db.cache_parents.contains parent_hash then (.ok (), db)
    else match parentWork aux.parent_header with
      | .error e => (.error e, db)
      | .ok work =>
        let parent : StoredParent :=
          { parent_hash_le := parent_hash, parent_header := aux.parent_header, ltc_height := none
            parent_state := 0, work := work }
        (.ok (), { db with cache_parents := db.cache_parents.insert parent_hash parent })

def indexRows : Database → List BlockRow → Except DbError Unit × Database
  | db, [] => (.ok (), db)
  | db, row :: rows =>
    match db.indexRow sha256d row with
    | (.error e, db) => (.error e, db)
    | (.ok (), db) => indexRows db rows

/-- Insert a batch of verified blocks in one transaction. The block cache is
written first and stays written when the transaction fails. -/
def insertBlocks (commit : Bool) (db : Database) (blocks : List BlockRow) : Except DbError Unit × Database :=
  if blocks = [] then (.ok (), db)
  else
    let db := { db with cache_blocks := db.cache_blocks.insertAll blocks }
    match blocks.foldlM (insertRow sha256d) db.redb with
    | .error e => (.error e, db)
    | .ok redb => if commit then { db with redb := redb }.indexRows sha256d blocks else (.error .redb, db)

/-! ## Rollback and pruning -/

/-- The sibling rows of `chain_id` from `from_height` on, removed parent by parent. -/
def eraseSiblingRows (t : KMap SiblingKey Unit) (parents : List Hash32) (chain_id : UInt32) (from_height : UInt64) :
    KMap SiblingKey Unit :=
  parents.foldl
    (fun t p => t.eraseAll ((t.range ⟨p, chain_id, from_height⟩ ⟨p, chain_id, u64Max⟩).map Prod.fst)) t

/-- Drop from the lists of `parents` the blocks of `chain_id` that satisfy `drop`. -/
def retainSiblings (m : KMap Hash32 (List StoredBlock)) (parents : List Hash32) (chain_id : UInt32)
    (drop : UInt64 → Bool) : KMap Hash32 (List StoredBlock) :=
  parents.foldl (fun m p => m.modify p (List.filter (fun b => !(b.chain_id = chain_id && drop b.height)))) m

/-- The parents of the given cached rows, each once, in order. -/
def rowParents (rows : List BlockRow) : List Hash32 :=
  ((rows.filterMap (fun row => row.2.parentHash sha256d)).mergeSort (fun a b => a.toNat ≤ b.toNat)).dedup

/-- Move the cursor below `from_height` if it is not there already. -/
def rewindCursor (commit : Bool) (db : Database) (chain_id : UInt32) (from_height : UInt64) :
    Except DbError Unit × Database :=
  let (v, db) := db.getMeta (cursorKey chain_id)
  match v.bind (parseDec (2 ^ 64)) with
  | none => (.ok (), db)
  | some hh =>
    if from_height.toNat ≤ hh then db.setMeta commit (cursorKey chain_id) (toString (saturatingSub from_height 1))
    else (.ok (), db)

/-- Roll back every block of `chain_id` at `from_height` and above. The sibling
rows are removed for the cached parents only. A parent whose list runs empty is
dropped, from disk in a transaction of its own whose failure is ignored. -/
def rollbackFrom (commit : Bool) (parent_commits : Hash32 → Bool) (cursor_commit : Bool) (db : Database)
    (chain_id : UInt32) (from_height : UInt64) : Except DbError Nat × Database :=
  let keys := (db.chainRows chain_id from_height u64Max).map Prod.fst
  if ¬ commit then (.error .redb, db)
  else
    let db := { db with redb := { db.redb with
      aux_blocks := db.redb.aux_blocks.eraseAll keys
      sibling_index := eraseSiblingRows db.redb.sibling_index db.cache_parents.keys chain_id from_height } }
    let to_remove := db.cache_blocks.entries.filter (fun e => e.1.chain_id = chain_id && from_height ≤ e.1.height)
    let removed_parents := rowParents sha256d to_remove
    let siblings := retainSiblings db.cache_siblings removed_parents chain_id (fun h => from_height ≤ h)
    let empty_parents := removed_parents.filter (fun p => siblings.get? p == some [])
    let db := { db with
      redb := { db.redb with parent_blocks := db.redb.parent_blocks.eraseAll (empty_parents.filter parent_commits) }
      cache_blocks := db.cache_blocks.eraseAll (to_remove.map Prod.fst)
      cache_siblings := siblings.eraseAll empty_parents
      cache_parents := db.cache_parents.eraseAll empty_parents }
    match db.rewindCursor cursor_commit chain_id from_height with
    | (.error e, db) => (.error e, db)
    | (.ok (), db) => (.ok keys.length, db)

/-- Remove every block of `chain_id` below `below`. On disk the window ends at
`below - 1`, which for `below = 0` is height 0 itself. Parents stay. -/
def pruneBefore (commit : Bool) (db : Database) (chain_id : UInt32) (below : UInt64) : Except DbError Nat × Database :=
  let removals := db.chainRows chain_id 0 (saturatingSub below 1)
  if ¬ commit then (.error .redb, db)
  else
    let index_rows := removals.filterMap (fun row =>
      (row.2.parentHash sha256d).map (fun p => (⟨p, row.1.chain_id, row.1.height⟩ : SiblingKey)))
    let rows := db.cache_blocks.entries.filter (fun e => e.1.chain_id = chain_id && e.1.height < below)
    (.ok removals.length, { db with
      redb := { db.redb with
        aux_blocks := db.redb.aux_blocks.eraseAll (removals.map Prod.fst)
        sibling_index := db.redb.sibling_index.eraseAll index_rows }
      cache_blocks := db.cache_blocks.eraseAll (rows.map Prod.fst)
      cache_siblings := retainSiblings db.cache_siblings (rowParents sha256d rows) chain_id (fun h => h < below) })

end Sha

/-! ## Parents and siblings -/

/-- Cache first, then the table, whose row is cached. -/
def getParent (db : Database) (parent_hash_le : Hash32) : Option StoredParent × Database :=
  match db.cache_parents.get? parent_hash_le with
  | some p => (some p, db)
  | none =>
    match db.redb.parent_blocks.get? parent_hash_le with
    | some p => (some p, { db with cache_parents := db.cache_parents.insert parent_hash_le p })
    | none => (none, db)

/-- Record a resolve: 1 = mainnet with its height, 2 = trial. The cached record
changes first; the transaction then writes it. -/
def classifyParent (commit : Bool) (db : Database) (parent_hash_le : Hash32) (ltc_height : Option UInt64) :
    Except DbError Unit × Database :=
  let parent_state : Int := if ltc_height.isSome then 1 else 2
  let record := fun p : StoredParent => { p with ltc_height := ltc_height, parent_state := parent_state }
  let db := { db with cache_parents := db.cache_parents.modify parent_hash_le record }
  if ¬ commit then (.error .redb, db)
  else match db.cache_parents.get? parent_hash_le with
    | none => (.ok (), db)
    | some p =>
      (.ok (), { db with redb := { db.redb with parent_blocks := db.redb.parent_blocks.insert parent_hash_le p } })

/-- Parents that are still unprobed. -/
def unclassifiedParents (iter : List (Hash32 × StoredParent) → List (Hash32 × StoredParent)) (db : Database) :
    List Hash32 :=
  ((iter db.cache_parents.entries).filter (fun e => e.2.parent_state = 0)).map Prod.fst

/-- The indexed blocks of one parent that are still stored. -/
def indexedBlocks (db : Database) (parent_hash_le : Hash32) : List StoredBlock :=
  (db.redb.sibling_index.range ⟨parent_hash_le, 0, 0⟩ ⟨parent_hash_le, 0xffffffff, u64Max⟩).filterMap
    (fun e => db.redb.aux_blocks.get? ⟨e.1.chain_id, e.1.height⟩)

/-- A page of the sibling index, and how many of its rows are stored. -/
def siblingBlocksRange (db : Database) (parent_hash_le : Hash32) (page : Page) : List StoredBlock × Nat :=
  let blocks := db.indexedBlocks parent_hash_le
  (page.slice blocks, blocks.length)

/-- The cached list, else the first page of the index. -/
def siblingsForParent (db : Database) (parent_hash_le : Hash32) : List StoredBlock :=
  match db.cache_siblings.get? parent_hash_le with
  | some list => list
  | none => (db.siblingBlocksRange parent_hash_le .default).1

/-- One leg for each distinct chain, at its lowest height. -/
def legsByChain (siblings : List StoredBlock) : KMap UInt32 UInt64 :=
  siblings.foldl (fun m s => m.insert s.chain_id (((m.get? s.chain_id).map (min · s.height)).getD s.height)) .empty

/-- The shared-parent record of one cached parent, if it has enough legs. -/
def sharedParent (db : Database) (min_legs : Nat) (chain_filter : Option UInt32) (e : Hash32 × StoredParent) :
    Option SharedParent := do
  let ltc_h ← e.2.ltc_height
  let siblings ← db.cache_siblings.get? e.1
  let legs := (legsByChain (siblings.filter (fun s => chain_filter.all (s.chain_id == ·)))).entries
  if legs.length ≥ min_legs then some ⟨e.1, ltc_h, legs⟩ else none

/-- Every mainnet parent with at least `min_legs` legs: most legs first, then
the highest LTC height. -/
def allSharedParents (iter : List (Hash32 × StoredParent) → List (Hash32 × StoredParent)) (db : Database)
    (min_legs : Nat) (chain_filter : Option UInt32) : List SharedParent :=
  ((iter db.cache_parents.entries).filterMap (db.sharedParent min_legs chain_filter)).mergeSort
    (fun a b => b.legs.length < a.legs.length || (b.legs.length = a.legs.length && b.ltc_height ≤ a.ltc_height))

def sharedMainnetParents (iter : List (Hash32 × StoredParent) → List (Hash32 × StoredParent)) (db : Database)
    (min_legs : Nat) (page : Page) (chain_filter : Option UInt32) : List SharedParent × Nat :=
  let out := db.allSharedParents iter min_legs chain_filter
  (page.slice out, out.length)

/-- The latest sibling group: the first of the list above. -/
def latestSiblingGroup (iter : List (Hash32 × StoredParent) → List (Hash32 × StoredParent)) (db : Database)
    (min_legs : Nat) : Option SharedParent :=
  (db.sharedMainnetParents iter min_legs (Page.new (some 1) (some 0)) none).1.getLast?

/-- The epoch rows of one cached parent in the LTC height window. -/
def epochRows (db : Database) (ltc_start ltc_end : UInt64) (chain_filter : Option UInt32) (e : Hash32 × StoredParent) :
    List EpochRow :=
  match e.2.ltc_height with
  | none => []
  | some ltc_h =>
    if ltc_start ≤ ltc_h ∧ ltc_h ≤ ltc_end then
      (((db.cache_siblings.get? e.1).getD []).filter (fun s => chain_filter.all (s.chain_id == ·))).map
        (fun s => ⟨s.chain_id, s.height, ltc_h, s.hash_le⟩)
    else []

/-- The order of epoch rows: `(ltc_height, chain_id, height)`. -/
def EpochRow.le (a b : EpochRow) : Bool :=
  a.ltc_height < b.ltc_height || (a.ltc_height = b.ltc_height &&
    (a.chain_id < b.chain_id || (a.chain_id = b.chain_id && a.height ≤ b.height)))

def epochBlocks (iter : List (Hash32 × StoredParent) → List (Hash32 × StoredParent)) (db : Database)
    (ltc_start ltc_end : UInt64) (chain_filter : Option UInt32) (page : Page) : List EpochRow × Nat :=
  let out := ((iter db.cache_parents.entries).flatMap (db.epochRows ltc_start ltc_end chain_filter)).mergeSort EpochRow.le
  (page.slice out, out.length)

/-! ## Stats -/

/-- One cached block added to its chain's counters. -/
def countRow (m : KMap UInt32 ChainStats) (row : BlockRow) : KMap UInt32 ChainStats :=
  let h := row.1.height
  let e := (m.get? row.1.chain_id).getD ⟨row.1.chain_id, 0, none, none⟩
  m.insert row.1.chain_id
    { e with blocks := e.blocks + 1, min_height := some (e.min_height.elim h (min · h))
             max_height := some (e.max_height.elim h (max · h)) }

/-- A mainnet parent whose list has blocks of two chains. -/
def isSiblingGroup (db : Database) (e : Hash32 × StoredParent) : Bool :=
  e.2.parent_state = 1 && decide (2 ≤ (((db.cache_siblings.get? e.1).getD []).map (·.chain_id)).dedup.length)

/-- Counters for the whole store; no iteration order shows in them. -/
def stats (db : Database) : Stats where
  total_blocks := db.totalBlocks
  total_parents := db.cache_parents.size
  sibling_groups := db.cache_parents.entries.countP db.isSiblingGroup
  chains := (db.cache_blocks.entries.foldl countRow .empty).entries.map Prod.snd

end Database

end PsobIndexer
