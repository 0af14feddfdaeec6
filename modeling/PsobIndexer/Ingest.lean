import PsobIndexer.Cauxpow
import PsobIndexer.Resolve
/-!
# The ingestor (`src/ingest.rs`)

One tick of a chain: fetch the window above the cursor, walk it in height order
through the integrity, parse, consensus and linkage gates, roll back a stale
block, store what passed, prune, and classify new parents. The endpoint answers
as it likes. `u64` addition wraps, as in a release build.
-/
open Lib

namespace PsobIndexer

open Database

/-! ## Configuration and endpoints -/

structure AuxChain where
  chain_id : UInt32
  name : String
  electrs : String
  pow_limit_bits : UInt32
  start_height : Option UInt64
  deriving DecidableEq

/-- The part of `Config` the ingestor reads. Loading it refuses two chains of
one id and an empty batch. -/
structure Config where
  chains : List AuxChain
  max_batch : UInt64
  start_height : Option UInt64
  max_kept_blocks : Option UInt64
  unique_chain_ids : (chains.map (·.chain_id)).Nodup
  max_batch_pos : 1 ≤ max_batch

/-- Per-chain start wins, else the global one. -/
def Config.startOf (config : Config) (chain : AuxChain) : Option UInt64 := chain.start_height.or config.start_height

/-- What an Electrs endpoint answers during a tick, `none` for a failed request.
A header request is told by the height it is for and the hash it asks for. -/
structure ElectrsClient where
  tipHeight : Option UInt64
  blockHashAt : UInt64 → Option String
  headerBytes : UInt64 → String → Option Bytes

/-- The raw wire payload of a block; a body below 80 bytes is an error. -/
def ElectrsClient.headerWire (electrs : ElectrsClient) (height : UInt64) (block_hash : String) : Option Bytes := do
  let raw ← electrs.headerBytes height block_hash
  if raw.length < HEADER_LEN then none else some raw

inductive IngestError where
  | db (e : DbError)
  | tipHeight
  /-- A fresh database and no start height. -/
  | noStart (name : String) (chain_id : UInt32)
  | blockHashAt (h : UInt64)
  | headerFetch (h : UInt64)
  deriving DecidableEq

structure IngestBatch where
  blocks : List StoredBlock
  new_mainnet_parents : List Hash32

/-- A height with its locator hash and its wire payload. -/
abbrev Fetched := UInt64 × String × Bytes

/-- Locator hashes first, then the payloads; the first failure ends the tick. -/
def fetchWindow (electrs : ElectrsClient) (window : List UInt64) : Except IngestError (List Fetched) := do
  let hashes ← window.mapM (fun h => (electrs.blockHashAt h).elim (throw (.blockHashAt h)) pure)
  let wires ← (window.zip hashes).mapM (fun r => (electrs.headerWire r.1 r.2).elim (throw (.headerFetch r.1)) pure)
  return window.zip (hashes.zip wires)

/-! ## The walk -/

structure AuxBlock where
  wire : Bytes
  base : ByteArr 80
  aux : AuxPow

def AuxBlock.fromWire (w : Nat) (wire : Bytes) : Except AuxPowParseError AuxBlock := do
  let (base, aux) ← parseAuxpow w wire
  return ⟨wire, base, aux⟩

def AuxBlock.header (b : AuxBlock) : BlockHeader := ⟨b.base.val, some b.aux⟩

inductive Verdict where
  | halt
  /-- The block below is not the one this header builds on. -/
  | stale
  | accept (block : StoredBlock)

section Sha
variable (w : Nat) (sha256d : Bytes → Hash32)

/-- The gates of one height, in their order. -/
def judge (chain : AuxChain) (prev_hash : Option Hash32) (fetched : Fetched) : Verdict :=
  let (height, expected, wire) := fetched
  match getRange wire 0 80 with
  | none => .halt
  | some base80 =>
    if ¬ eqIgnoreAsciiCase (hashDisplay (sha256d base80)) expected then .halt
    else match AuxBlock.fromWire w wire with
      | .error _ => .halt
      | .ok aux_block =>
        match lightVerify sha256d aux_block.base.val aux_block.aux chain.chain_id chain.pow_limit_bits with
        | .error _ => .halt
        | .ok id =>
          if prev_hash.any (fun p => (aux_block.base.val.drop 4).take 32 ≠ p.val) then .stale
          else .accept
            { hash_le := id, chain_id := chain.chain_id, height := height, header := aux_block.header
              wire_hex := hexEncode aux_block.wire }

/-- The blocks that pass in a row, and the stale height that ended the walk, if
one did. -/
def walk (chain : AuxChain) : Option Hash32 → List Fetched → List StoredBlock × Option UInt64
  | _, [] => ([], none)
  | prev_hash, fetched :: rest =>
    match judge w sha256d chain prev_hash fetched with
    | .halt => ([], none)
    | .stale => ([], some (saturatingSub fetched.1 1))
    | .accept block =>
      let r := walk chain (some block.hash_le) rest
      (block :: r.1, r.2)

/-! ## One tick -/

/-- Which write transactions of a tick go through. -/
structure Commits where
  upsert : Bool
  rollback : Bool
  rollback_parents : Hash32 → Bool
  rewind : Bool
  insert : Bool
  cursor : Bool
  prune : Bool
  classify : Hash32 → Bool

def Commits.all : Commits := ⟨true, true, fun _ => true, true, true, true, true, fun _ => true⟩

structure Tick where
  electrs : ElectrsClient
  resolver : ParentResolver
  net : Hash32 → Nat → String → Reply
  iter : List (Hash32 × StoredParent) → List (Hash32 × StoredParent)
  commits : Commits

/-- Roll back the stale block the walk met, if it met one. The walk reads
nothing of the store, so this may wait for its end. -/
def rollbackStale (commits : Commits) (db : Database) (chain_id : UInt32) (stale : Option UInt64) :
    Except DbError Unit × Database :=
  match stale with
  | none => (.ok (), db)
  | some stale_height =>
    match db.rollbackFrom sha256d commits.rollback commits.rollback_parents commits.rewind chain_id stale_height with
    | (.error e, db) => (.error e, db)
    | (.ok _, db) => (.ok (), db)

/-- The lowest cached height of a chain, as `stats` counts it. -/
def minHeight (db : Database) (chain_id : UInt32) : Option UInt64 :=
  (db.stats.chains.find? (fun c => c.chain_id = chain_id)).bind (·.min_height)

def pruneWindow (config : Config) (commits : Commits) (db : Database) (chain_id : UInt32) (last : UInt64) :
    Except DbError Unit × Database :=
  match config.max_kept_blocks with
  | none => (.ok (), db)
  | some max_kept =>
    let below := saturatingAdd (saturatingSub last max_kept) 1
    if below > 1 ∧ (minHeight db chain_id).any (· < below) then
      match db.pruneBefore sha256d commits.prune chain_id below with
      | (.error e, db) => (.error e, db)
      | (.ok _, db) => (.ok (), db)
    else (.ok (), db)

def rowsOf (pending : List StoredBlock) : List BlockRow := pending.map (fun b => (⟨b.chain_id, b.height⟩, b))

/-- Store the accepted blocks, move the cursor to the last of them, prune. -/
def storePending (config : Config) (commits : Commits) (db : Database) (chain_id : UInt32)
    (pending : List StoredBlock) : Except DbError Unit × Database :=
  match pending.getLast? with
  | none => (.ok (), db)
  | some block =>
    match db.insertBlocks sha256d commits.insert (rowsOf pending) with
    | (.error e, db) => (.error e, db)
    | (.ok (), db) =>
      match db.setCursorHeight commits.cursor chain_id block.height with
      | (.error e, db) => (.error e, db)
      | (.ok (), db) => pruneWindow sha256d config commits db chain_id block.height

def prevHashAt (db : Database) (chain_id : UInt32) (cursor : UInt64) : Option Hash32 × Database :=
  if cursor = 0 then (none, db)
  else
    let (block, db) := db.blockAt chain_id cursor
    (block.map (·.hash_le), db)

/-- The part of a tick after its window is fetched. -/
def ingestFetched (config : Config) (chain : AuxChain) (t : Tick) (db : Database) (cursor : UInt64)
    (fetched : List Fetched) : Except IngestError IngestBatch × Database :=
  let (prev_hash, db) := prevHashAt db chain.chain_id cursor
  let (pending, stale) := walk w sha256d chain prev_hash fetched
  match rollbackStale sha256d t.commits db chain.chain_id stale with
  | (.error e, db) => (.error (.db e), db)
  | (.ok (), db) =>
    match storePending sha256d config t.commits db chain.chain_id pending with
    | (.error e, db) => (.error (.db e), db)
    | (.ok (), db) =>
      match classifyPendingParents t.resolver t.net t.commits.classify t.iter db with
      | (.error e, db) => (.error (.db e), db)
      | (.ok new_mainnet, db) => (.ok ⟨pending, new_mainnet⟩, db)

def windowEnd (config : Config) (cursor tip_height : UInt64) : UInt64 := min (cursor + config.max_batch) tip_height

def ingestChain (config : Config) (chain : AuxChain) (t : Tick) (db : Database) :
    Except IngestError IngestBatch × Database :=
  match db.upsertChain t.commits.upsert chain.chain_id chain.name chain.electrs with
  | (.error e, db) => (.error (.db e), db)
  | (.ok (), db) =>
    match t.electrs.tipHeight with
    | none => (.error .tipHeight, db)
    | some tip_height =>
      let (cursor, db) := db.cursorHeight chain.chain_id
      match cursor.or (config.startOf chain) with
      | none => (.error (.noStart chain.name chain.chain_id), db)
      | some cursor =>
        if cursor > tip_height then (.ok ⟨[], []⟩, db)
        else
          let start := saturatingAdd cursor 1
          let last := windowEnd config cursor tip_height
          if start > last then (.ok ⟨[], []⟩, db)
          else match fetchWindow t.electrs (rangeInclusive start last) with
            | .error e => (.error e, db)
            | .ok fetched => ingestFetched w sha256d config chain t db cursor fetched

/-! ## Runs -/

inductive IngestOp where
  | tick (chain : AuxChain) (t : Tick)
  | restart

/-- The store after an action. A restart that the schema gate refuses leaves
things as they are. -/
def IngestOp.run (config : Config) (db : Database) : IngestOp → Database
  | tick chain t => (ingestChain w sha256d config chain t db).2
  | restart => (openDb sha256d db.redb).toOption.getD db

def runIngest (config : Config) (db : Database) (ops : List IngestOp) : Database :=
  ops.foldl (IngestOp.run w sha256d config) db

end Sha

end PsobIndexer
