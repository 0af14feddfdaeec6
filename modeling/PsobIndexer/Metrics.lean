import PsobIndexer.Dashboards
/-!
# Gauges of the store (`src/metrics.rs`)

A scrape sets the gauges of the chains that have blocks and leaves those of the
others as they were. So the gauges of a chain show it as the last scrape of this
process found it that found blocks of it, which after a rollback to nothing is not how
it stands. A process starts with empty gauges.
-/
open Lib

namespace PsobIndexer

open Database

/-- The gauges that a scrape reads off the store. -/
structure Gauges where
  indexed_blocks : KMap String Int64
  chain_cursor : KMap String Int64
  sibling_groups : Int64
  indexed_parents : Int64

def Gauges.start : Gauges := ⟨.empty, .empty, 0, 0⟩

def Gauges.setChain (g : Gauges) (c : ChainStats) : Gauges :=
  let label := toString c.chain_id
  { g with
    indexed_blocks := g.indexed_blocks.insert label (Int64.ofNat c.blocks)
    chain_cursor := match c.max_height with
      | some h => g.chain_cursor.insert label h.toInt64
      | none => g.chain_cursor }

/-- `Metrics::render`, up to the text. -/
def Gauges.render (g : Gauges) (db : Database) : Gauges :=
  { db.stats.chains.foldl Gauges.setChain g with
    sibling_groups := Int64.ofNat db.stats.sibling_groups
    indexed_parents := Int64.ofNat db.stats.total_parents }

/-- An action of the ingest loops, or a scrape. -/
inductive ScrapeOp where
  | ingest (op : IngestOp)
  | scrape

def ScrapeOp.ingests : ScrapeOp → Option IngestOp
  | ingest op => some op
  | scrape => none

section Sha
variable (w : Nat) (sha256d : Bytes → Hash32) (config : Config)

def ScrapeOp.run (s : Database × Gauges) : ScrapeOp → Database × Gauges
  | ingest (.tick chain t) => ((IngestOp.tick chain t).run w sha256d config s.1, s.2)
  -- the new process registers metrics of its own
  | ingest .restart => (IngestOp.restart.run w sha256d config s.1, .start)
  | scrape => (s.1, s.2.render s.1)

def runScrapes (db : Database) (ops : List ScrapeOp) : Database × Gauges :=
  ops.foldl (ScrapeOp.run w sha256d config) (db, .start)

/-- The stores that the scrapes since the last restart find, after `found`. -/
def scrapedAfter (found : List Database) : Database → List ScrapeOp → List Database
  | _, [] => found
  | db, .ingest (.tick chain t) :: ops => scrapedAfter found ((IngestOp.tick chain t).run w sha256d config db) ops
  | db, .ingest .restart :: ops => scrapedAfter [] (IngestOp.restart.run w sha256d config db) ops
  | db, .scrape :: ops => scrapedAfter (found ++ [db]) db ops

def scraped (db : Database) (ops : List ScrapeOp) : List Database := scrapedAfter w sha256d config [] db ops

end Sha

/-! ## One scrape -/

theorem toString_inj {c c' : UInt32} (h : toString c = toString c') : c = c' :=
  UInt32.toNat_inj.1 (repr_injective h)

/-- The gauges of a chain after its counters were set, if it is among those counted. -/
theorem get?_setChains (c : UInt32) {chains : List ChainStats} (hnodup : (chains.map (·.chain_id)).Nodup) :
    ∀ g : Gauges, (chains.foldl Gauges.setChain g).indexed_blocks.get? (toString c) =
        ((chains.find? (fun s => s.chain_id = c)).map fun s => Int64.ofNat s.blocks).or (g.indexed_blocks.get? (toString c)) ∧
      (chains.foldl Gauges.setChain g).chain_cursor.get? (toString c) =
        ((chains.find? (fun s => s.chain_id = c)).bind fun s => s.max_height.map UInt64.toInt64).or
          (g.chain_cursor.get? (toString c)) := by
  induction chains with
  | nil => exact fun g => ⟨rfl, rfl⟩
  | cons s chains ih =>
    intro g
    rw [List.map_cons, List.nodup_cons] at hnodup
    obtain ⟨hnew, hnodup⟩ := hnodup
    obtain ⟨hblocks, hcursor⟩ := ih hnodup (g.setChain s)
    rw [List.foldl_cons, hblocks, hcursor]
    by_cases hc : s.chain_id = c
    · -- no later entry is of this chain
      have hnone : chains.find? (fun s => s.chain_id = c) = none := by
        rw [List.find?_eq_none]
        intro s' hs' hc'
        exact hnew (List.mem_map.2 ⟨s', hs', (of_decide_eq_true hc').trans hc.symm⟩)
      rw [hnone, List.find?_cons_of_pos (by simpa using hc)]
      subst hc
      unfold Gauges.setChain
      cases hmax : s.max_height <;> simp [hmax]
    · have hlabel : toString c ≠ toString s.chain_id := fun h => hc (toString_inj h).symm
      rw [List.find?_cons_of_neg (by simpa using hc)]
      unfold Gauges.setChain
      cases s.max_height <;> simp [KMap.get?_insert, hlabel]

/-- A scrape of a tracked store sets the gauges of a chain that has blocks. -/
theorem Tracked.render {config : Config} {db : Database} (h : Tracked config db) {chain : AuxChain}
    (hchain : chain ∈ config.chains) (g : Gauges) :
    (g.render db).indexed_blocks.get? (toString chain.chain_id) =
      (if 0 < db.chainBlockCount chain.chain_id then some (Int64.ofNat (db.chainBlockCount chain.chain_id))
        else g.indexed_blocks.get? (toString chain.chain_id)) ∧
    (g.render db).chain_cursor.get? (toString chain.chain_id) =
      (if 0 < db.chainBlockCount chain.chain_id then (db.cursorOf chain.chain_id).map UInt64.toInt64
        else g.chain_cursor.get? (toString chain.chain_id)) := by
  obtain ⟨t, ht⟩ := h.tracks chain hchain
  obtain ⟨hblocks, hcursor⟩ := get?_setChains chain.chain_id (stats_chains_nodup db) g
  unfold Gauges.render
  simp only
  rw [hblocks, hcursor, find?_stats h.opened, chainBlockCount_eq]
  rcases (ht.showsWindow "" "" "" true).window with ⟨hzero, -⟩ | ⟨first, last, -, hmax, hcur, -, hcount⟩
  · have hnil : heightsOf db.redb.aux_blocks.entries chain.chain_id = [] := List.length_eq_zero_iff.1 hzero
    simp [hnil]
  · have hne : heightsOf db.redb.aux_blocks.entries chain.chain_id ≠ [] := by
      intro hnil
      simp [statusRow, hnil] at hmax
    have hpos := List.length_pos_iff.2 hne
    simp only [statusRow] at hmax hcur
    rw [if_neg hne, if_pos hpos, if_pos hpos, hcur]
    simp [hmax]

/-! ## Runs -/

section Sha
variable {w : Nat} {sha256d : Bytes → Hash32} {config : Config}

theorem foldl_scrapeOps (ops : List ScrapeOp) : ∀ (db : Database) (found : List Database),
    ops.foldl (ScrapeOp.run w sha256d config) (db, found.foldl Gauges.render .start) =
      (runIngest w sha256d config db (ops.filterMap ScrapeOp.ingests),
        (scrapedAfter w sha256d config found db ops).foldl Gauges.render .start) := by
  induction ops with
  | nil => exact fun _ _ => rfl
  | cons op ops ih =>
    intro db found
    rcases op with (⟨chain, t⟩ | _) | _
    · exact ih ((IngestOp.tick chain t).run w sha256d config db) found
    · exact ih (IngestOp.restart.run w sha256d config db) []
    · have hrender : (found.foldl Gauges.render .start).render db = (found ++ [db]).foldl Gauges.render .start := by
        rw [List.foldl_append]
        rfl
      rw [List.foldl_cons, ScrapeOp.run, hrender]
      exact ih db (found ++ [db])

/-- Scrapes find tracked stores. -/
theorem scrapedAfter_tracked (ops : List ScrapeOp) : ∀ {db : Database} {found : List Database}, Tracked config db →
    (∀ db' ∈ found, Tracked config db') → (∀ op ∈ ops.filterMap ScrapeOp.ingests, op.Committed config) →
    ∀ db' ∈ scrapedAfter w sha256d config found db ops, Tracked config db' := by
  induction ops with
  | nil => exact fun _ hfound _ => hfound
  | cons op ops ih =>
    intro db found h hfound hops
    rcases op with (⟨chain, t⟩ | _) | _
    · obtain ⟨hop, hops⟩ := List.forall_mem_cons.1 hops
      exact ih (h.step hop) hfound hops
    · obtain ⟨hop, hops⟩ := List.forall_mem_cons.1 hops
      exact ih (h.step hop) (fun _ hdb' => absurd hdb' List.not_mem_nil) hops
    · refine ih h (fun db' hdb' => ?_) hops
      rcases List.mem_append.1 hdb' with hdb' | hdb'
      · exact hfound db' hdb'
      · rw [List.mem_singleton.1 hdb']
        exact h

/-- The gauges of a chain after scrapes of tracked stores. -/
theorem foldl_render {chain : AuxChain} (hchain : chain ∈ config.chains) {stores : List Database}
    (h : ∀ db ∈ stores, Tracked config db) :
    let shown := (stores.filter fun db => 0 < db.chainBlockCount chain.chain_id).getLast?
    (stores.foldl Gauges.render .start).indexed_blocks.get? (toString chain.chain_id) =
        shown.map (fun db => Int64.ofNat (db.chainBlockCount chain.chain_id)) ∧
      (stores.foldl Gauges.render .start).chain_cursor.get? (toString chain.chain_id) =
        shown.bind (fun db => (db.cursorOf chain.chain_id).map UInt64.toInt64) := by
  induction stores using List.reverseRecOn with
  | nil => exact ⟨rfl, rfl⟩
  | append_singleton stores db ih =>
    have hdb := h db (List.mem_append_right _ (List.mem_singleton_self db))
    obtain ⟨ihblocks, ihcursor⟩ := ih fun db' hdb' => h db' (List.mem_append_left _ hdb')
    obtain ⟨hblocks, hcursor⟩ := hdb.render hchain (stores.foldl Gauges.render .start)
    rw [List.foldl_append, List.foldl_cons, List.foldl_nil, hblocks, hcursor, ihblocks, ihcursor, List.filter_append]
    by_cases hpos : 0 < db.chainBlockCount chain.chain_id
    · simp [hpos]
    · simp [hpos]

variable (w sha256d)

/-- After any run of committed ticks, restarts and scrapes, the gauges of a chain show
the block count and the cursor it had at the last scrape since the restart that found
blocks of it, and those of the whole store show the last scrape since the restart. -/
theorem gauges_track (config : Config) (db₀ : Database) (ops : List ScrapeOp) (hopen : openDb sha256d Redb.empty = .ok db₀)
    (hops : ∀ op ∈ ops.filterMap ScrapeOp.ingests, op.Committed config) :
    let gauges := (runScrapes w sha256d config db₀ ops).2
    let stores := scraped w sha256d config db₀ ops
    (∀ chain ∈ config.chains,
      let shown := (stores.filter fun db => 0 < db.chainBlockCount chain.chain_id).getLast?
      gauges.indexed_blocks.get? (toString chain.chain_id) =
          shown.map (fun db => Int64.ofNat (db.chainBlockCount chain.chain_id)) ∧
        gauges.chain_cursor.get? (toString chain.chain_id) =
          shown.bind (fun db => (db.cursorHeight chain.chain_id).1.map UInt64.toInt64)) ∧
    gauges.sibling_groups = stores.getLast?.elim 0 (fun db => Int64.ofNat db.stats.sibling_groups) ∧
    gauges.indexed_parents = stores.getLast?.elim 0 (fun db => Int64.ofNat db.stats.total_parents) := by
  intro gauges stores
  have hstores : ∀ db ∈ stores, Tracked config db :=
    scrapedAfter_tracked ops (tracked_fresh hopen) (fun _ hdb => absurd hdb List.not_mem_nil) hops
  have hgauges : gauges = stores.foldl Gauges.render .start :=
    congrArg Prod.snd (@foldl_scrapeOps w sha256d config ops db₀ [])
  rw [hgauges]
  refine ⟨fun chain hchain => ?_, ?_⟩
  · obtain ⟨hblocks, hcursor⟩ := foldl_render hchain hstores
    refine ⟨hblocks, hcursor.trans ?_⟩
    refine Option.bind_congr fun db hdb => ?_
    have hmem := (List.mem_filter.1 (List.mem_of_getLast? hdb)).1
    rw [(hstores db hmem).opened.synced.cursorHeight]
  · cases stores using List.reverseRecOn with
    | nil => exact ⟨rfl, rfl⟩
    | append_singleton stores db =>
      rw [List.foldl_append, List.getLast?_concat]
      exact ⟨rfl, rfl⟩

end Sha

/-! ## Scrapes before and after a restart -/

def legsScrape : List ScrapeOp := legsOps.map .ingest ++ [.scrape, .ingest .restart, .scrape]

/-- The store that the second process finds. -/
def legsReopened : Database := IngestOp.restart.run 64 legsSha legsConfig legsStore

theorem gauges_track_legs : ∃ shown : Option Database,
    (runScrapes 64 legsSha legsConfig freshDb legsScrape).2.indexed_blocks.get? "63" =
      shown.map (fun db => Int64.ofNat (db.chainBlockCount 63)) ∧
    (runScrapes 64 legsSha legsConfig freshDb legsScrape).2.sibling_groups = Int64.ofNat legsReopened.stats.sibling_groups := by
  have hops : ∀ op ∈ legsScrape.filterMap ScrapeOp.ingests, op.Committed legsConfig := by
    intro op hop
    have hmem : op ∈ legsOps ++ [.restart] := hop
    rcases List.mem_append.1 hmem with hop | hop
    · exact (legsOps_committed op hop).1
    · rw [List.mem_singleton.1 hop]
      trivial
  have hscraped : scraped 64 legsSha legsConfig freshDb legsScrape = [legsReopened] := rfl
  have h := gauges_track 64 legsSha legsConfig freshDb legsScrape rfl hops
  rw [hscraped] at h
  generalize legsReopened = db at h ⊢
  obtain ⟨hchain, hgroups, -⟩ := h
  exact ⟨_, (hchain (legChain 63) List.mem_cons_self).1, hgroups⟩

end PsobIndexer
