import PsobIndexer.Server
import PsobIndexer.Lib.Pages
/-!
# Downloading a chain (`GET /api/v1/blocks`)

`blocksHandler` pages through the stored blocks of one chain. Read one after
another, the pages show each stored block of the window once, in height order.
On a store that the ingest loops filled, the payloads a client gets this way are
a header chain that passes the guest's check.
-/
open Lib

namespace PsobIndexer

open Database

/-! ## Handler -/

structure BlocksQuery where
  chain_id : Option UInt32
  /-- Inclusive lower height. -/
  lower : Option UInt64
  /-- Inclusive upper height. -/
  upper : Option UInt64
  limit : Option Nat
  offset : Option Nat

structure BlocksResponse where
  chain_id : UInt32
  blocks : List BlockResponse

/-- The height window of a query. -/
def BlocksQuery.window (q : BlocksQuery) : Except ApiError (UInt64 × UInt64) :=
  match q.lower, q.upper with
  | some f, some t =>
    if f > t then .error (.badRequest "from must be <= to")
    else if saturatingSub t f > 10000 then .error (.badRequest "requested block range exceeds maximum of 10000")
    else .ok (f, t)
  | some f, none => .ok (f, u64Max)
  | none, some t => .ok (0, t)
  | none, none => .ok (0, u64Max)

section Sha
variable (sha256d : Bytes → Hash32)

/-- Blocks as they are served, each with a lookup of its parent. -/
def blocksFromStored (db : Database) : List StoredBlock → List BlockResponse × Database
  | [] => ([], db)
  | b :: bs =>
    let (response, db) := blockFromStored sha256d db b
    let (responses, db) := blocksFromStored db bs
    (response :: responses, db)

/-- `GET /api/v1/blocks`. -/
def blocksHandler (db : Database) (q : BlocksQuery) : Except ApiError BlocksResponse × Database :=
  match q.chain_id with
  | none => (.error (.badRequest "chain_id query parameter is required"), db)
  | some chain_id =>
    match q.window with
    | .error e => (.error e, db)
    | .ok (lo, hi) =>
      let (blocks, db) := blocksFromStored sha256d db (db.blocksRange chain_id lo hi (Page.new q.limit q.offset))
      (.ok ⟨chain_id, blocks⟩, db)

/-- What a client collects from the given pages of a query, asked for one after
another. -/
def collectBlocks (q : BlocksQuery) (db : Database) : List Nat → List BlockResponse
  | [] => []
  | page :: pages =>
    match blocksHandler sha256d db { q with offset := some (page * (Page.new q.limit none).limit) } with
    | (.error _, db) => collectBlocks q db pages
    | (.ok r, db) => r.blocks ++ collectBlocks q db pages

/-- The header in a served block's payload. -/
def BlockResponse.wireHeader (w : Nat) (r : BlockResponse) : Option BlockHeader := do
  let hex ← r.raw_auxpow_hex
  let wire ← hexDecode hex
  match parseAuxpow w wire with
  | .error _ => none
  | .ok (base, aux) => return ⟨base.val, some aux⟩

variable {sha256d}

/-! ## Reading does not disturb -/

/-- `db'` has the tables of `db`, and any block or parent is found as in `db`. -/
structure SameReads (db db' : Database) : Prop where
  redb : db'.redb = db.redb
  block : ∀ c h, (db'.blockAt c h).1 = (db.blockAt c h).1
  parent : ∀ p, (db'.getParent p).1 = (db.getParent p).1

theorem SameReads.refl (db : Database) : SameReads db db := ⟨rfl, fun _ _ => rfl, fun _ => rfl⟩

theorem SameReads.trans {db db' db'' : Database} (h : SameReads db db') (h' : SameReads db' db'') : SameReads db db'' :=
  ⟨h'.redb.trans h.redb, fun c hh => (h'.block c hh).trans (h.block c hh), fun p => (h'.parent p).trans (h.parent p)⟩

/-- A looked-up parent is cached as the table has it. -/
theorem getParent_sameReads (db : Database) (p : Hash32) : SameReads db (db.getParent p).2 := by
  unfold getParent
  cases hcache : db.cache_parents.get? p with
  | some sp => exact .refl db
  | none =>
    cases htable : db.redb.parent_blocks.get? p with
    | none => exact .refl db
    | some sp =>
      refine ⟨rfl, fun c h => by simp only [blockAt_fst], fun p' => ?_⟩
      rw [getParent_fst, getParent_fst]
      by_cases he : p' = p
      · simp [he, hcache, htable]
      · simp [KMap.get?_insert, he]

/-- A looked-up block is cached as the table has it. -/
theorem blockAt_sameReads (db : Database) (c : UInt32) (h : UInt64) : SameReads db (db.blockAt c h).2 := by
  unfold blockAt
  cases hcache : db.cache_blocks.get? ⟨c, h⟩ with
  | some b => exact .refl db
  | none =>
    cases htable : db.redb.aux_blocks.get? ⟨c, h⟩ with
    | none => exact .refl db
    | some b =>
      refine ⟨rfl, fun c' h' => ?_, fun p => by simp only [getParent_fst]⟩
      rw [blockAt_fst, blockAt_fst]
      by_cases he : (⟨c', h'⟩ : BlockKey) = ⟨c, h⟩
      · simp [he, hcache, htable]
      · simp [KMap.get?_insert, he]

theorem blockFromStored_sameReads (db : Database) (b : StoredBlock) : SameReads db (blockFromStored sha256d db b).2 := by
  unfold blockFromStored
  cases b.parentHash sha256d with
  | none => exact .refl db
  | some p => exact getParent_sameReads db p

/-- Only the lookup of the parent depends on the store. -/
theorem SameReads.blockFromStored {db db' : Database} (h : SameReads db db') (b : StoredBlock) :
    (blockFromStored sha256d db' b).1 = (blockFromStored sha256d db b).1 := by
  unfold PsobIndexer.blockFromStored
  cases b.parentHash sha256d with
  | none => rfl
  | some p => simp only [h.parent p]

theorem blocksFromStored_sameReads (db : Database) (bs : List StoredBlock) :
    SameReads db (blocksFromStored sha256d db bs).2 := by
  induction bs generalizing db with
  | nil => exact .refl db
  | cons b bs ih => exact (blockFromStored_sameReads db b).trans (ih _)

theorem SameReads.blocksFromStored {db db' : Database} (h : SameReads db db') (bs : List StoredBlock) :
    (blocksFromStored sha256d db' bs).1 = bs.map (fun b => (PsobIndexer.blockFromStored sha256d db b).1) := by
  induction bs generalizing db' with
  | nil => rfl
  | cons b bs ih =>
    simp only [PsobIndexer.blocksFromStored, List.map_cons, h.blockFromStored b]
    rw [ih (h.trans (blockFromStored_sameReads db' b))]

/-! ## The pages of a window -/

/-- The blocks a window selects, in height order. -/
def windowBlocks (db : Database) (chain_id : UInt32) (lo hi : UInt64) : List StoredBlock :=
  if lo > hi then [] else (db.chainRows chain_id lo hi).map Prod.snd

theorem blocksRange_eq (db : Database) (c : UInt32) (lo hi : UInt64) (page : Page) :
    db.blocksRange c lo hi page = page.slice (windowBlocks db c lo hi) := by
  unfold blocksRange windowBlocks
  split_ifs
  · simp [Page.slice]
  · rfl

/-- One page shows its slice of the window. -/
theorem SameReads.page {db db' : Database} (h : SameReads db db') {q : BlocksQuery} {c : UInt32} {lo hi : UInt64}
    (hc : q.chain_id = some c) (hwin : q.window = .ok (lo, hi)) (offset : Nat) :
    ∃ db'', SameReads db db'' ∧ blocksHandler sha256d db' { q with offset := some offset } =
      (.ok ⟨c, ((Page.new q.limit (some offset)).slice (windowBlocks db c lo hi)).map
        (fun b => (PsobIndexer.blockFromStored sha256d db b).1)⟩, db'') := by
  have hwin' : ∀ id, BlocksQuery.window ⟨id, q.lower, q.upper, q.limit, some offset⟩ = .ok (lo, hi) := fun _ => hwin
  have hrange : db'.blocksRange c lo hi (Page.new q.limit (some offset)) =
      (Page.new q.limit (some offset)).slice (windowBlocks db c lo hi) := by
    rw [blocksRange_eq]
    simp only [windowBlocks, chainRows, h.redb]
  refine ⟨_, h.trans (@blocksFromStored_sameReads sha256d db'
    ((Page.new q.limit (some offset)).slice (windowBlocks db c lo hi))), ?_⟩
  unfold blocksHandler
  simp only [hc, hwin', hrange]
  rw [← h.blocksFromStored]

theorem SameReads.collect {db db' : Database} (h : SameReads db db') {q : BlocksQuery} {c : UInt32} {lo hi : UInt64}
    (hc : q.chain_id = some c) (hwin : q.window = .ok (lo, hi)) (pages : List Nat) :
    collectBlocks sha256d q db' pages = pages.flatMap fun page =>
      (((windowBlocks db c lo hi).drop (page * (Page.new q.limit none).limit)).take (Page.new q.limit none).limit).map
        (fun b => (PsobIndexer.blockFromStored sha256d db b).1) := by
  induction pages generalizing db' with
  | nil => rfl
  | cons page pages ih =>
    obtain ⟨db'', hsame, hpage⟩ := @SameReads.page sha256d db db' h q c lo hi hc hwin (page * (Page.new q.limit none).limit)
    simp only [collectBlocks, hpage, List.flatMap_cons, ih hsame]
    rfl

/-- The rows of a window, in increasing height. -/
theorem chainRows_increasing (db : Database) (c : UInt32) (lo hi : UInt64) :
    (db.chainRows c lo hi).Pairwise (fun r r' => r.1.height < r'.1.height) := by
  have hsorted : (db.chainRows c lo hi).Pairwise (fun r r' => r.1 < r'.1) := db.redb.aux_blocks.sorted.filter _
  refine hsorted.imp_of_mem fun hr hr' hlt => ?_
  obtain ⟨-, hcr, -⟩ := mem_chainRows.1 hr
  obtain ⟨-, hcr', -⟩ := mem_chainRows.1 hr'
  rw [← not_le, BlockKey.le_iff, not_le] at hlt
  rw [UInt64.lt_iff_toNat_lt]
  simp only [BlockKey.toNat, hcr, hcr'] at hlt
  omega

/-- Enough pages show the whole window. -/
theorem collectBlocks_eq (db : Database) {q : BlocksQuery} {c : UInt32} {lo hi : UInt64} (hc : q.chain_id = some c)
    (hwin : q.window = .ok (lo, hi)) {n : Nat}
    (hn : (db.chainRows c lo hi).length ≤ n * (Page.new q.limit none).limit) :
    collectBlocks sha256d q db (List.range n) =
      (db.chainRows c lo hi).map (fun row => (blockFromStored sha256d db row.2).1) := by
  have hwindow : windowBlocks db c lo hi = (db.chainRows c lo hi).map Prod.snd := by
    unfold windowBlocks
    split_ifs with hempty
    · have hnil : db.chainRows c lo hi = [] := by
        refine List.eq_nil_iff_forall_not_mem.2 fun row hrow => ?_
        obtain ⟨-, -, hlo, hhi⟩ := mem_chainRows.1 hrow
        exact absurd (hlo.trans hhi) (not_le.2 hempty)
      rw [hnil, List.map_nil]
    · rfl
  rw [(SameReads.refl db).collect hc hwin, ← List.map_flatMap, flatMap_pages, hwindow,
    List.take_of_length_le (by rwa [List.length_map]), List.map_map]
  rfl

variable (sha256d)

/-- The first `n` pages of an accepted query show the blocks of its window, once
there are enough of them: each stored block once, in height order. A page has
as many blocks as the server allows for the limit asked for. -/
theorem blocks_pages_complete (db : Database) (q : BlocksQuery) (c : UInt32) (lo hi : UInt64)
    (hc : q.chain_id = some c) (hwin : q.window = .ok (lo, hi)) :
    ∃ rows : List BlockRow,
      rows.Pairwise (fun r r' => r.1.height < r'.1.height) ∧
      (∀ row, row ∈ rows ↔ db.redb.aux_blocks.get? row.1 = some row.2 ∧ row.1.chain_id = c ∧
        lo ≤ row.1.height ∧ row.1.height ≤ hi) ∧
      ∀ n, rows.length ≤ n * (Page.new q.limit none).limit →
        collectBlocks sha256d q db (List.range n) = rows.map (fun row => (blockFromStored sha256d db row.2).1) :=
  ⟨db.chainRows c lo hi, chainRows_increasing db c lo hi, fun _ => mem_chainRows,
    fun _ hn => collectBlocks_eq db hc hwin hn⟩

/-! ## What was downloaded -/

variable {sha256d} {w : Nat}

/-- The rows of a track in a window have consecutive heights. -/
theorem Tracks.window_heights {config : Config} {db : Database} {chain : AuxChain} {t : BlockTrack}
    (h : Tracks config db.ledger chain t) (lo hi : UInt64) :
    ∃ a b : UInt64, (db.chainRows chain.chain_id lo hi).map (·.1.height) = rangeInclusive a b := by
  -- a height is in the window's rows if the track has it
  have hmem : ∀ hh, hh ∈ (db.chainRows chain.chain_id lo hi).map (·.1.height) ↔
      lo ≤ hh ∧ hh ≤ hi ∧ t.lo < hh.toNat ∧ hh.toNat ≤ t.cursor := by
    intro hh
    constructor
    · intro hm
      obtain ⟨row, hrow, rfl⟩ := List.mem_map.1 hm
      obtain ⟨hget, hid, hlo, hhi⟩ := mem_chainRows.1 hrow
      obtain ⟨⟨c, hh⟩, b⟩ := row
      obtain rfl : c = chain.chain_id := hid
      have hitem := (h.blocks hh).symm.trans hget
      exact ⟨hlo, hhi, Track.item_bounds hitem⟩
    · rintro ⟨hlo, hhi, hlow, hcur⟩
      obtain ⟨b, hb⟩ := Track.exists_item hlow hcur
      have hget := (h.blocks hh).trans hb
      exact List.mem_map.2 ⟨(⟨chain.chain_id, hh⟩, b), mem_chainRows.2 ⟨hget, rfl, hlo, hhi⟩, rfl⟩
  by_cases hfit : t.lo + 1 < 2 ^ 64
  · refine ⟨UInt64.ofNat (max lo.toNat (t.lo + 1)), UInt64.ofNat (min hi.toNat t.cursor), ?_⟩
    have hlo := lo.toNat_lt
    have hhi := hi.toNat_lt
    have ha : (UInt64.ofNat (max lo.toNat (t.lo + 1))).toNat = max lo.toNat (t.lo + 1) :=
      UInt64.toNat_ofNat_of_lt' (by simp only [UInt64.size]; omega)
    have hb : (UInt64.ofNat (min hi.toNat t.cursor)).toNat = min hi.toNat t.cursor :=
      UInt64.toNat_ofNat_of_lt' (by simp only [UInt64.size]; omega)
    refine eq_of_increasing (List.pairwise_map.2 (chainRows_increasing db _ lo hi)) (increasing_rangeInclusive _ _) ?_
    intro hh
    rw [hmem, mem_rangeInclusive]
    simp only [UInt64.le_iff_toNat_le, ha, hb]
    omega
  · refine ⟨1, 0, ?_⟩
    have hnil : (db.chainRows chain.chain_id lo hi).map (·.1.height) = [] := by
      refine List.eq_nil_iff_forall_not_mem.2 fun hh hm => ?_
      obtain ⟨-, -, hlow, -⟩ := (hmem hh).1 hm
      have hlt := hh.toNat_lt
      omega
    rw [hnil]
    rfl

/-- The payload of a verified block holds its header. -/
theorem Verified.wireHeader {chain : AuxChain} {b : StoredBlock} (h : Verified w sha256d chain b) (db : Database) :
    (blockFromStored sha256d db b).1.wireHeader w = some b.header := by
  obtain ⟨-, wire, base, aux, hwire, hparse, hheader, -, -⟩ := h
  unfold BlockResponse.wireHeader blockFromStored
  simp only [hwire, hexDecode_hexEncode, hparse, hheader, Option.bind_eq_bind, Option.bind_some]
  rfl

variable (w sha256d)

/-- After any run of ticks and restarts, what a client downloads of a configured
chain is a run of blocks at consecutive heights, each shown with the hash of the
header in its payload, and these headers pass the guest's chain check from the
block below the first. -/
theorem downloaded_chain_accepted (config : Config) (db₀ : Database) (ops : List IngestOp) (chain : AuxChain)
    (q : BlocksQuery) (lo hi : UInt64) (n : Nat) (hopen : openDb sha256d Redb.empty = .ok db₀)
    (hops : ∀ op ∈ ops, op.Committed config) (hchain : chain ∈ config.chains) (hc : q.chain_id = some chain.chain_id)
    (hwin : q.window = .ok (lo, hi)) :
    let db := runIngest w sha256d config db₀ ops
    let responses := collectBlocks sha256d q db (List.range n)
    (db.chainRows chain.chain_id lo hi).length ≤ n * (Page.new q.limit none).limit →
    ∃ headers : List BlockHeader,
      responses.map (·.wireHeader w) = headers.map some ∧
      responses.map (·.block_hash) = headers.map (fun header => hashDisplay (sha256d header.raw)) ∧
      (responses.map (·.height)).IsChain (fun h h' => h'.toNat = h.toNat + 1) ∧
      ∀ first, headers.head? = some first →
        verifyPsobChain sha256d headers first.prevHash chain.chain_id chain.pow_limit_bits = .ok () := by
  intro db responses hn
  obtain ⟨htracked, hverified⟩ := ingest_invariant w sha256d config db₀ ops hopen hops
  obtain ⟨t, ht⟩ := htracked.tracks chain hchain
  obtain ⟨a, b, hheights⟩ := ht.window_heights lo hi
  let rows := db.chainRows chain.chain_id lo hi
  -- every row of the window is a verified block of this chain at its height
  have hrow : ∀ row ∈ rows, row.2.height = row.1.height ∧ Verified w sha256d chain row.2 := by
    intro row hmem
    obtain ⟨hget, hid, -, -⟩ := mem_chainRows.1 hmem
    obtain ⟨hk, chain', hchain', hver⟩ := hverified _ _ (.inr hget)
    have hsame : chain'.chain_id = chain.chain_id := by
      rw [← hver.1, ← hid, hk]
    rw [Config.eq_of_chain_id hchain' hchain hsame] at hver
    exact ⟨(congrArg BlockKey.height hk).symm, hver⟩
  have hblocks : (rangeInclusive a b).map (fun hh => db.redb.aux_blocks.get? ⟨chain.chain_id, hh⟩) =
      (rows.map Prod.snd).map some := by
    rw [← hheights, List.map_map, List.map_map]
    refine List.map_congr_left fun row hmem => ?_
    obtain ⟨hget, hid, -, -⟩ := mem_chainRows.1 hmem
    rw [← hid]
    exact hget
  have hresponses : responses = rows.map (fun row => (blockFromStored sha256d db row.2).1) :=
    collectBlocks_eq db hc hwin hn
  refine ⟨rows.map (·.2.header), ?_, ?_, ?_, fun first hfirst => ?_⟩
  · rw [hresponses, List.map_map, List.map_map]
    exact List.map_congr_left fun row hmem => (hrow row hmem).2.wireHeader db
  · rw [hresponses, List.map_map, List.map_map]
    exact List.map_congr_left fun row hmem => congrArg hashDisplay (hrow row hmem).2.headerValid.1
  · have hmap : responses.map (·.height) = rangeInclusive a b := by
      rw [← hheights, hresponses, List.map_map]
      exact List.map_congr_left fun row hmem => (hrow row hmem).1
    rw [hmap]
    exact isChain_rangeInclusive a b
  · obtain ⟨block, hblock, rfl⟩ : ∃ row, rows.head? = some row ∧ row.2.header = first := by
      rwa [List.head?_map, Option.map_eq_some_iff] at hfirst
    obtain ⟨-, limit, hlimit, -⟩ := (hrow block (List.mem_of_mem_head? hblock)).2.headerValid
    have hmap : rows.map (·.2.header) = (rows.map Prod.snd).map (·.header) := by
      rw [List.map_map]
      rfl
    rw [verifyPsobChain_iff, hmap]
    refine ⟨?_, limit, hlimit, verifyPsobHeaders_of_chain (ht.isChain hblocks) ?_ ?_⟩
    · intro hnil
      rw [List.map_map, List.map_eq_nil_iff] at hnil
      rw [hnil] at hblock
      cases hblock
    · intro sb hsb
      obtain ⟨row, hmem, rfl⟩ := List.mem_map.1 hsb
      obtain ⟨hhash, limit', hlimit', hvalid⟩ := (hrow row hmem).2.headerValid
      rw [hlimit] at hlimit'
      cases hlimit'
      exact ⟨hhash, hvalid⟩
    · intro sb hsb
      rw [List.head?_map, hblock] at hsb
      cases hsb
      rfl

end Sha

/-! ## Two blocks downloaded -/

/-- The actions behind `sampleStore`. -/
def sampleOps : List IngestOp := [.tick sampleChain (sampleTick sampleElectrs), .restart]

theorem sampleOps_committed : ∀ op ∈ sampleOps, op.Committed sampleConfig := by
  intro op hop
  rcases List.mem_cons.1 hop with rfl | hop
  · exact ⟨List.mem_cons_self, rfl⟩
  · rw [List.mem_singleton.1 hop]
    trivial

theorem sampleStore_rows : (sampleStore.chainRows 63 0 u64Max).map (·.1.height) = [1, 2] := by decide +kernel

/-- One page of the default size shows both sample blocks. -/
theorem blocks_pages_complete_sample : ∃ rows : List BlockRow,
    (∀ row, row ∈ rows ↔ sampleStore.redb.aux_blocks.get? row.1 = some row.2 ∧ row.1.chain_id = 63 ∧
      0 ≤ row.1.height ∧ row.1.height ≤ u64Max) ∧
    ∀ n, rows.length ≤ n * 20 → collectBlocks sampleSha ⟨some 63, none, none, none, none⟩ sampleStore (List.range n) =
      rows.map (fun row => (blockFromStored sampleSha sampleStore row.2).1) := by
  obtain ⟨rows, -, hrows, hpages⟩ := blocks_pages_complete sampleSha sampleStore ⟨some 63, none, none, none, none⟩ 63 0
    u64Max rfl rfl
  exact ⟨rows, hrows, hpages⟩

/-- The client gets both headers, and they pass the guest's check. -/
theorem downloaded_chain_accepted_sample : ∃ headers : List BlockHeader, headers.length = 2 ∧
    (collectBlocks sampleSha ⟨some 63, none, none, none, none⟩ sampleStore [0]).map (·.wireHeader 64) =
      headers.map some ∧
    ∀ first, headers.head? = some first →
      verifyPsobChain sampleSha headers first.prevHash 63 CHAIN_POW_LIMIT_BITS = .ok () := by
  have hlen : (sampleStore.chainRows 63 0 u64Max).length = 2 := by
    rw [← List.length_map (·.1.height), sampleStore_rows]
    rfl
  have hcollect := @collectBlocks_eq sampleSha sampleStore ⟨some 63, none, none, none, none⟩ 63 0 u64Max rfl rfl 1
    (by rw [hlen]; decide)
  have hstore : runIngest 64 sampleSha sampleConfig freshDb sampleOps = sampleStore := rfl
  have hdownload := downloaded_chain_accepted sampleSha 64 sampleConfig freshDb sampleOps sampleChain
    ⟨some 63, none, none, none, none⟩ 0 u64Max 1 rfl sampleOps_committed List.mem_cons_self rfl rfl
  have hid : sampleChain.chain_id = 63 := rfl
  rw [hstore, hid] at hdownload
  obtain ⟨headers, hheaders, -, -, hguest⟩ := hdownload (by rw [hlen]; decide)
  refine ⟨headers, ?_, hheaders, hguest⟩
  have hcount := congrArg List.length hheaders
  rw [List.length_map, List.length_map] at hcount
  rw [← hcount]
  change (collectBlocks sampleSha ⟨some 63, none, none, none, none⟩ sampleStore (List.range 1)).length = 2
  rw [hcollect, List.length_map, hlen]

end PsobIndexer
