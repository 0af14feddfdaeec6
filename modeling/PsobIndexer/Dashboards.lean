import PsobIndexer.Window
import PsobIndexer.Views
import PsobIndexer.Swarm
import PsobIndexer.Settings
/-!
# Counters at the API (`src/server.rs`)

`/health`, `/chains` and `/stats` count the blocks three times: from the table, chain
by chain over the configuration, and from the chains that have any. On a store that
the ingest loops filled the three agree, and each chain shows a gap-free window that
ends at its cursor.
-/
open Lib

namespace PsobIndexer

open Database

/-! ## Handlers -/

structure HealthResponse where
  status : String
  service : String
  schema_version : UInt32
  configured_chains : Nat
  total_blocks : Nat
  p2p_enabled : Bool

structure ChainStatus where
  chain_id : UInt32
  name : String
  electrs_url : String
  cursor_height : Option UInt64
  pow_limit_bits : String
  blocks : Nat
  min_height : Option UInt64
  max_height : Option UInt64
  /-- Not so for chains of the registry. -/
  ingested : Bool
  deriving DecidableEq

structure ChainsResponse where
  count : Nat
  chains : List ChainStatus

structure StatsChain where
  chain_id : UInt32
  name : String
  cursor_height : Option UInt64
  blocks : Nat
  min_height : Option UInt64
  max_height : Option UInt64
  deriving DecidableEq

structure StatsResponse where
  total_blocks : Nat
  total_parents : Nat
  sibling_groups : Nat
  chains : List StatsChain

/-- `GET /api/v1/health`. -/
def healthHandler (config : Config) (p2p : Option P2pStatus) (db : Database) : HealthResponse where
  status := "ok"
  service := "psob-indexer"
  schema_version := SCHEMA_VERSION.toUInt32
  configured_chains := config.chains.length
  total_blocks := db.totalBlocks
  p2p_enabled := p2p.isSome

/-- `{:#010x}`. -/
def hexBits (bits : UInt32) : String := "0x" ++ hexEncode (leU32 bits).reverse

def chainStatus (chain_id : UInt32) (name electrs pow_limit : String) (ingested : Bool) : StateM Database ChainStatus :=
  fun db =>
    let (cursor, db) := db.cursorHeight chain_id
    let stats := db.stats.chains.find? (fun s => s.chain_id = chain_id)
    ({ chain_id
       name
       electrs_url := electrs
       cursor_height := cursor
       pow_limit_bits := pow_limit
       blocks := (stats.map (·.blocks)).getD 0
       min_height := stats.bind (·.min_height)
       max_height := stats.bind (·.max_height)
       ingested }, db)

/-- `GET /api/v1/chains`. -/
def chainsHandler (config : Config) (known_chains : List KnownChain) : StateM Database ChainsResponse := do
  let configured ← config.chains.mapM fun c => chainStatus c.chain_id c.name c.electrs (hexBits c.pow_limit_bits) true
  -- known to swap validation, never ingested
  let registry ← known_chains.mapM fun k => chainStatus k.chain_id k.name k.electrs "0x00000000" false
  return ⟨(configured ++ registry).length, configured ++ registry⟩

def statsChain (config : Config) (c : ChainStats) : StateM Database StatsChain := fun db =>
  let (cursor, db) := db.cursorHeight c.chain_id
  ({ chain_id := c.chain_id
     name := (chainName config c.chain_id).getD ("chain" ++ toString c.chain_id)
     cursor_height := cursor
     blocks := c.blocks
     min_height := c.min_height
     max_height := c.max_height }, db)

/-- `GET /api/v1/stats`. -/
def statsHandler (config : Config) : StateM Database StatsResponse := fun db =>
  let stats := db.stats
  let (chains, db) := (stats.chains.mapM (statsChain config)).run db
  (⟨stats.total_blocks, stats.total_parents, stats.sibling_groups, chains⟩, db)

/-! ## Rows -/

/-- A row of `/chains`: it shows no blocks, or a window without gaps that ends at the
cursor; and it shows the heights that are stored. -/
structure ShowsWindow (db : Database) (row : ChainStatus) : Prop where
  window : (row.blocks = 0 ∧ row.min_height = none ∧ row.max_height = none) ∨
    ∃ first last, row.min_height = some first ∧ row.max_height = some last ∧ row.cursor_height = some last ∧
      first ≤ last ∧ row.blocks = last.toNat + 1 - first.toNat
  stored : ∀ h, (∃ b, db.redb.aux_blocks.get? ⟨row.chain_id, h⟩ = some b) ↔
    ∃ first ∈ row.min_height, ∃ last ∈ row.max_height, first ≤ h ∧ h ≤ last

/-- What `/stats` shows of a row of `/chains`. -/
def ChainStatus.toStats (row : ChainStatus) : StatsChain :=
  ⟨row.chain_id, row.name, row.cursor_height, row.blocks, row.min_height, row.max_height⟩

/-- The row of a chain, from the heights that are stored. -/
def statusRow (db : Database) (chain_id : UInt32) (name electrs pow_limit : String) (ingested : Bool) : ChainStatus where
  chain_id := chain_id
  name := name
  electrs_url := electrs
  cursor_height := db.cursorOf chain_id
  pow_limit_bits := pow_limit
  blocks := (heightsOf db.redb.aux_blocks.entries chain_id).length
  min_height := (heightsOf db.redb.aux_blocks.entries chain_id).min?
  max_height := (heightsOf db.redb.aux_blocks.entries chain_id).max?
  ingested := ingested

def configuredStatus (db : Database) (c : AuxChain) : ChainStatus :=
  statusRow db c.chain_id c.name c.electrs (hexBits c.pow_limit_bits) true

def registryStatus (db : Database) (k : KnownChain) : ChainStatus :=
  statusRow db k.chain_id k.name k.electrs "0x00000000" false

def dashboardRows (config : Config) (known_chains : List KnownChain) (db : Database) : List ChainStatus :=
  config.chains.map (configuredStatus db) ++ known_chains.map (registryStatus db)

theorem mapM_stateM {σ α β : Type} {f : α → StateM σ β} {g : α → β} {s : σ} {l : List α}
    (h : ∀ a ∈ l, (f a).run s = (g a, s)) : (l.mapM f).run s = (l.map g, s) := by
  induction l with
  | nil => rfl
  | cons a l ih =>
    obtain ⟨ha, hl⟩ := List.forall_mem_cons.1 h
    rw [List.mapM_cons, StateT.run_bind, ha]
    change (do let (bs, s) ← (l.mapM f).run s; pure (g a :: bs, s) : Id (List β × σ)) = _
    rw [ih hl]
    rfl

/-- The counters of one chain, as `stats` has them. -/
theorem find?_stats {db : Database} (h : Opened db) (c : UInt32) :
    db.stats.chains.find? (fun s => s.chain_id = c) =
      if heightsOf db.redb.aux_blocks.entries c = [] then none
      else some ⟨c, (heightsOf db.redb.aux_blocks.entries c).length, (heightsOf db.redb.aux_blocks.entries c).min?,
        (heightsOf db.redb.aux_blocks.entries c).max?⟩ := by
  split_ifs with hnil
  · rw [List.find?_eq_none]
    intro s hs hc
    obtain ⟨c', hne, rfl⟩ := mem_stats_chains.1 hs
    rw [h.cached] at hne
    simp only [decide_eq_true_eq] at hc
    exact hne (hc ▸ hnil)
  · have hmem := mem_stats_chains.2 ⟨c, by rw [h.cached]; exact hnil, rfl⟩
    rw [h.cached] at hmem
    refine (List.find?_eq_some_iff_append.2 ?_)
    obtain ⟨l, l', hl⟩ := List.append_of_mem hmem
    refine ⟨by simp, l, l', hl, fun s hs => ?_⟩
    -- each chain is counted once
    have hnodup := stats_chains_nodup db
    rw [hl, List.map_append, List.nodup_append] at hnodup
    simpa using hnodup.2.2 _ (List.mem_map_of_mem hs) c (by simp)

theorem chainStatus_run {db : Database} (h : Opened db) (chain_id : UInt32) (name electrs pow_limit : String)
    (ingested : Bool) :
    (chainStatus chain_id name electrs pow_limit ingested).run db =
      (statusRow db chain_id name electrs pow_limit ingested, db) := by
  change chainStatus chain_id name electrs pow_limit ingested db = _
  unfold chainStatus
  rw [h.synced.cursorHeight]
  simp only [find?_stats h, statusRow]
  split_ifs with hnil
  · simp [hnil]
  · rfl

theorem chainsHandler_run {db : Database} (h : Opened db) (config : Config) (known_chains : List KnownChain) :
    (chainsHandler config known_chains).run db =
      (⟨(dashboardRows config known_chains db).length, dashboardRows config known_chains db⟩, db) := by
  unfold chainsHandler
  rw [StateT.run_bind, mapM_stateM fun c _ => chainStatus_run h c.chain_id c.name c.electrs (hexBits c.pow_limit_bits) true]
  change StateT.run (do let registry ← known_chains.mapM _; pure _) db = _
  rw [StateT.run_bind, mapM_stateM fun k _ => chainStatus_run h k.chain_id k.name k.electrs "0x00000000" false]
  rfl

theorem statsHandler_run {db : Database} (h : Opened db) (config : Config) :
    (statsHandler config).run db =
      (⟨db.totalBlocks, db.stats.total_parents, db.stats.sibling_groups, db.stats.chains.map fun c =>
        ⟨c.chain_id, (chainName config c.chain_id).getD ("chain" ++ toString c.chain_id), db.cursorOf c.chain_id, c.blocks,
          c.min_height, c.max_height⟩⟩, db) := by
  have hchains : (db.stats.chains.mapM (statsChain config)).run db = (db.stats.chains.map fun c =>
      ⟨c.chain_id, (chainName config c.chain_id).getD ("chain" ++ toString c.chain_id), db.cursorOf c.chain_id, c.blocks,
        c.min_height, c.max_height⟩, db) := by
    refine mapM_stateM fun c _ => ?_
    change statsChain config c db = _
    unfold statsChain
    rw [h.synced.cursorHeight]
  change statsHandler config db = _
  unfold statsHandler
  simp only [hchains]
  rfl

theorem chainName_of_mem {config : Config} {chain : AuxChain} (h : chain ∈ config.chains) :
    chainName config chain.chain_id = some chain.name := by
  unfold chainName
  cases hfind : config.chains.find? (fun c => c.chain_id = chain.chain_id) with
  | none => simpa using List.find?_eq_none.1 hfind chain h
  | some c =>
    rw [Config.eq_of_chain_id (List.mem_of_find?_eq_some hfind) h (by simpa using List.find?_some hfind)]
    rfl

/-! ## Windows -/

/-- A chain without rows shows none. -/
theorem showsWindow_nil {db : Database} {chain_id : UInt32} (hnil : heightsOf db.redb.aux_blocks.entries chain_id = [])
    (name electrs pow_limit : String) (ingested : Bool) :
    ShowsWindow db (statusRow db chain_id name electrs pow_limit ingested) := by
  refine ⟨.inl ?_, fun hh => ?_⟩
  · simp [statusRow, hnil]
  · simp only [statusRow]
    rw [← mem_heightsOf, hnil]
    simp

/-- A configured chain shows its track. -/
theorem Tracks.showsWindow {config : Config} {db : Database} {chain : AuxChain} {t : BlockTrack}
    (h : Tracks config db.ledger chain t) (name electrs pow_limit : String) (ingested : Bool) :
    ShowsWindow db (statusRow db chain.chain_id name electrs pow_limit ingested) := by
  by_cases hnil : t.items = []
  · exact showsWindow_nil (h.heights_nil hnil) name electrs pow_limit ingested
  · obtain ⟨cur, hcur, hlast⟩ := h.cursor_stored hnil
    have hpos := List.length_pos_iff.2 hnil
    have hlt := cur.toNat_lt
    have hlen : t.cursor = t.lo + t.items.length := rfl
    have hfirst : (UInt64.ofNat (t.lo + 1)).toNat = t.lo + 1 := UInt64.toNat_ofNat_of_lt' (by show _ < 2 ^ 64; omega)
    have hle : UInt64.ofNat (t.lo + 1) ≤ cur := by
      rw [UInt64.le_iff_toNat_le]
      omega
    have hheights : heightsOf db.redb.aux_blocks.entries chain.chain_id = rangeInclusive (UInt64.ofNat (t.lo + 1)) cur :=
      h.heights hfirst hlast
    have hmin : (rangeInclusive (UInt64.ofNat (t.lo + 1)) cur).min? = some (UInt64.ofNat (t.lo + 1)) :=
      List.min?_eq_some_iff.2 ⟨mem_rangeInclusive.2 ⟨le_rfl, hle⟩, fun _ hh => (mem_rangeInclusive.1 hh).1⟩
    have hmax : (rangeInclusive (UInt64.ofNat (t.lo + 1)) cur).max? = some cur :=
      List.max?_eq_some_iff.2 ⟨mem_rangeInclusive.2 ⟨hle, le_rfl⟩, fun _ hh => (mem_rangeInclusive.1 hh).2⟩
    refine ⟨.inr ⟨UInt64.ofNat (t.lo + 1), cur, ?_, ?_, hcur, hle, ?_⟩, fun hh => ?_⟩
    · rw [statusRow, hheights, hmin]
    · rw [statusRow, hheights, hmax]
    · rw [statusRow, hheights, length_rangeInclusive]
    · simp only [statusRow]
      rw [← mem_heightsOf, hheights, mem_rangeInclusive, hmin, hmax]
      simp

/-! ## Sums -/

/-- Each row is a row of one of the chains. -/
theorem sum_heightsOf {rows : List BlockRow} {ids : List UInt32} (hnodup : ids.Nodup)
    (hids : ∀ row ∈ rows, row.1.chain_id ∈ ids) : (ids.map fun c => (heightsOf rows c).length).sum = rows.length := by
  have hcount : ∀ c, (heightsOf rows c).length = (rows.map (·.1.chain_id)).count c := by
    intro c
    rw [heightsOf, List.length_map, ← List.countP_eq_length_filter, List.count, List.countP_map]
    rfl
  have hmem : ∀ c ∈ (rows.map (·.1.chain_id) : Multiset UInt32), c ∈ ids.toFinset := by
    intro c hc
    obtain ⟨row, hrow, rfl⟩ := List.mem_map.1 (Multiset.mem_coe.1 hc)
    exact List.mem_toFinset.2 (hids row hrow)
  have hsum := Multiset.sum_count_eq_card hmem
  rw [Multiset.coe_card, List.length_map] at hsum
  rw [← hsum, ← List.sum_toFinset _ hnodup]
  exact Finset.sum_congr rfl fun c _ => by rw [hcount, Multiset.coe_count]

section Sha
variable (w : Nat) (sha256d : Bytes → Hash32)

/-- After any run of committed ticks and restarts: `/chains` has one row for each chain
of the configuration, which shows the stored heights, a window without gaps up to the
cursor, and none of a chain of the registry; its blocks add up to the totals of
`/health` and `/stats`; and `/stats` lists just those of its rows that have blocks. -/
theorem dashboards_agree (config : Config) (known_chains : List KnownChain)
    (hids : (config.chains.map (·.chain_id) ++ known_chains.map (·.chain_id)).Nodup) (db₀ : Database) (ops : List IngestOp)
    (hopen : openDb sha256d Redb.empty = .ok db₀) (hops : ∀ op ∈ ops, op.Committed config) (p2p : Option P2pStatus) :
    let db := runIngest w sha256d config db₀ ops
    let health := healthHandler config p2p db
    let chains := ((chainsHandler config known_chains).run db).1
    let stats := ((statsHandler config).run db).1
    chains.chains.map (·.chain_id) = config.chains.map (·.chain_id) ++ known_chains.map (·.chain_id) ∧
    chains.count = chains.chains.length ∧
    (∀ row ∈ chains.chains, ShowsWindow db row ∧ (row.ingested = false → row.blocks = 0)) ∧
    (chains.chains.map (·.blocks)).sum = health.total_blocks ∧ stats.total_blocks = health.total_blocks ∧
    (stats.chains.map (·.chain_id)).Nodup ∧
    ∀ s, s ∈ stats.chains ↔ ∃ row ∈ chains.chains, row.blocks ≠ 0 ∧ row.toStats = s := by
  intro db health chains stats
  obtain ⟨htracked, hverified⟩ := ingest_invariant w sha256d config db₀ ops hopen hops
  have hopened := htracked.opened
  have hchains : chains = ⟨_, dashboardRows config known_chains db⟩ :=
    congrArg Prod.fst (chainsHandler_run hopened config known_chains)
  have hstats : stats = _ := congrArg Prod.fst (statsHandler_run hopened config)
  have hrows : ∀ row ∈ db.redb.aux_blocks.entries, row.1.chain_id ∈ config.chains.map (·.chain_id) := by
    intro row hrow
    obtain ⟨hk, chain, hchain, hver⟩ := hverified _ _ (.inr (KMap.mem_entries.1 hrow))
    rw [hk, hver.1]
    exact List.mem_map_of_mem hchain
  -- a chain of the registry has no rows
  have hnone : ∀ k ∈ known_chains, heightsOf db.redb.aux_blocks.entries k.chain_id = [] := by
    intro k hk
    refine List.eq_nil_iff_forall_not_mem.2 fun hh hmem => ?_
    obtain ⟨b, hb⟩ := mem_heightsOf.1 hmem
    have hid := hrows _ (KMap.mem_entries.2 hb)
    exact (List.nodup_append.1 hids).2.2 _ hid _ (List.mem_map_of_mem hk) rfl
  have hidrows : (dashboardRows config known_chains db).map (·.chain_id) =
      config.chains.map (·.chain_id) ++ known_chains.map (·.chain_id) := by
    simp [dashboardRows, configuredStatus, registryStatus, statusRow, Function.comp_def]
  have hblocks : ∀ row ∈ dashboardRows config known_chains db,
      row.blocks = (heightsOf db.redb.aux_blocks.entries row.chain_id).length := by
    intro row hrow
    rcases List.mem_append.1 hrow with hrow | hrow <;> obtain ⟨c, -, rfl⟩ := List.mem_map.1 hrow <;> rfl
  rw [hchains, hstats]
  refine ⟨hidrows, rfl, fun row hrow => ?_, ?_, rfl, ?_, fun s => ?_⟩
  · rcases List.mem_append.1 hrow with hrow | hrow <;> obtain ⟨c, hc, rfl⟩ := List.mem_map.1 hrow
    · obtain ⟨t, ht⟩ := htracked.tracks c hc
      exact ⟨ht.showsWindow _ _ _ _, fun hno => by cases hno⟩
    · refine ⟨showsWindow_nil (hnone c hc) _ _ _ _, fun _ => ?_⟩
      simp [registryStatus, statusRow, hnone c hc]
  · rw [List.map_congr_left hblocks]
    change (List.map ((fun c => (heightsOf db.redb.aux_blocks.entries c).length) ∘ ChainStatus.chain_id) _).sum = _
    rw [← List.map_map, hidrows]
    exact sum_heightsOf hids fun row hrow => List.mem_append_left _ (hrows row hrow)
  · have hnodup := stats_chains_nodup db
    rwa [List.map_map]
  · rw [List.mem_map]
    constructor
    · rintro ⟨c, hc, rfl⟩
      obtain ⟨chain_id, hne, rfl⟩ := mem_stats_chains.1 hc
      rw [hopened.cached] at hne ⊢
      obtain ⟨hh, hmem⟩ := List.exists_mem_of_ne_nil _ hne
      obtain ⟨b, hb⟩ := mem_heightsOf.1 hmem
      obtain ⟨chain, hchain, rfl⟩ := List.mem_map.1 (hrows _ (KMap.mem_entries.2 hb))
      refine ⟨configuredStatus db chain, List.mem_append_left _ (List.mem_map_of_mem hchain), ?_, ?_⟩
      · exact fun hzero => hne (List.length_eq_zero_iff.1 hzero)
      · simp only [chainName_of_mem hchain, Option.getD_some]
        rfl
    · rintro ⟨row, hrow, hne, rfl⟩
      have hheights : heightsOf db.redb.aux_blocks.entries row.chain_id ≠ [] := by
        rw [hblocks row hrow] at hne
        exact fun hnil => hne (by rw [hnil]; rfl)
      rcases List.mem_append.1 hrow with hrow | hrow <;> obtain ⟨c, hc, rfl⟩ := List.mem_map.1 hrow
      · refine ⟨_, mem_stats_chains.2 ⟨c.chain_id, by rw [hopened.cached]; exact hheights, rfl⟩, ?_⟩
        rw [hopened.cached]
        simp only [chainName_of_mem hc, Option.getD_some]
        rfl
      · exact absurd (hnone c hc) hheights

end Sha

/-! ## Two chains and one of the registry -/

/-- Both chains show their one block, the chain of the registry none. -/
theorem dashboards_agree_legs : ∃ chains : List ChainStatus,
    chains = ((chainsHandler legsConfig [⟨98, "dingo", "http://d"⟩]).run legsStore).1.chains ∧
    chains.map (·.chain_id) = [63, 50, 98] ∧ (chains.map (·.blocks)).sum = legsStore.totalBlocks ∧
    ∀ row ∈ chains, row.ingested = false → row.blocks = 0 := by
  have h := dashboards_agree 64 legsSha legsConfig [⟨98, "dingo", "http://d"⟩] (by decide) freshDb legsOps rfl
    (fun op hop => (legsOps_committed op hop).1) none
  rw [← legsStore] at h
  generalize legsStore = db at h ⊢
  obtain ⟨hids, -, hrows, htotal, -⟩ := h
  exact ⟨_, rfl, hids.trans (by decide), htotal, fun row hrow => (hrows row hrow).2⟩

end PsobIndexer
