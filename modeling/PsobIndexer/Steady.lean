import PsobIndexer.Transparency
import PsobIndexer.Tracking
import PsobIndexer.Cosettle
/-!
# The store between ticks

A tick rolls back, stores blocks above its cursor, prunes and classifies every
parent it left unprobed. So between ticks, with restarts among them, the caches,
the sibling index and the parents are in step with the blocks, and all that is
known of the parents is on disk. Without a bounded history a restart is then
invisible.
-/
open Lib

namespace PsobIndexer

open Database

section Sha
variable (sha256d : Bytes → Hash32)

/-- A store that is ready for a restart, with no parent left to probe. -/
structure Steady (db : Database) : Prop where
  restartable : Restartable sha256d db
  probed : ∀ p sp, db.cache_parents.get? p = some sp → sp.parent_state ≠ 0

/-- No parent has a list without blocks. -/
def KeepsLegs (db : Database) : Prop := ∀ p, db.cache_siblings.get? p ≠ some []

variable {sha256d}

/-! ## The calls of a tick overwrite nothing -/

theorem pairwise_rowsOf {cur : Nat} {pending : List StoredBlock} (hh : HeightsFrom cur pending) :
    (rowsOf pending).Pairwise (fun r r' => r.1 = r'.1 → r.2 = r'.2) := by
  unfold rowsOf
  rw [List.pairwise_map, List.pairwise_iff_getElem]
  intro i j hi hj hij hkey
  have hb := hh i _ (List.getElem?_eq_getElem hi)
  have hb' := hh j _ (List.getElem?_eq_getElem hj)
  have heq := congrArg BlockKey.height hkey
  simp only at heq
  rw [heq] at hb
  omega

/-- Blocks above the cursor are new. -/
theorem Tracks.batchOk {config : Config} {chain : AuxChain} {t : BlockTrack} {db : Database}
    (h : Tracks config db.ledger chain t) {pending : List StoredBlock} (hw : ∀ row ∈ rowsOf pending, Witnessed row)
    (hc : ∀ b ∈ pending, b.chain_id = chain.chain_id) (hh : HeightsFrom t.cursor pending) :
    BatchOk db (rowsOf pending) := by
  refine ⟨fun row hrow => ?_, pairwise_rowsOf hh⟩
  have hwit := hw row hrow
  obtain ⟨b, hb, rfl⟩ := List.mem_map.1 hrow
  refine ⟨hwit, ⟨rfl, rfl⟩, fun b' hb' => ?_⟩
  obtain ⟨i, hi⟩ := List.mem_iff_getElem?.1 hb
  have hheight := hh i b hi
  rw [hc b hb] at hb'
  have hitem := (h.blocks b.height).symm.trans hb'
  have hle := (Track.item_bounds hitem).2
  omega

theorem ledger_rollbackOps {db : Database} (h : Opened db) (c : UInt32) (stale : Option UInt64) :
    (runStore sha256d db (rollbackOps c stale)).ledger = (rollbackOps c stale).foldl StoreOp.onLedger db.ledger := by
  refine (h.runStore sha256d fun op hop => ?_).2
  obtain ⟨s, -, rfl⟩ := List.mem_map.1 hop
  trivial

/-- The calls of a tick that follow the track of its chain are consistent. -/
theorem Tracks.tickOps_consistent {config : Config} {chain : AuxChain} {t : BlockTrack} {db : Database} (hopen : Opened db)
    (h : Tracks config db.ledger chain t) {pending : List StoredBlock} {stale below : Option UInt64}
    (hw : ∀ row ∈ rowsOf pending, Witnessed row) (hc : ∀ b ∈ pending, b.chain_id = chain.chain_id)
    (hh : HeightsFrom t.cursor pending) (hat : ∀ s ∈ stale, s.toNat = t.cursor + pending.length)
    (hbelow : ∀ b ∈ below, 1 ≤ b) :
    Along (StoreOp.run sha256d) StoreOp.Consistent db
      (rollbackOps chain.chain_id stale ++ storeOps chain.chain_id pending below) := by
  refine along_append.2 ⟨?_, ?_⟩
  · cases stale with
    | none => trivial
    | some s => exact ⟨trivial, trivial⟩
  unfold storeOps
  cases hlast : pending.getLast? with
  | none => trivial
  | some last =>
    have hpos : 0 < pending.length := by
      rw [List.length_pos_iff]
      rintro rfl
      cases hlast
    -- a rollback in the same tick finds nothing
    have hrolled : Tracks config (runStore sha256d db (rollbackOps chain.chain_id stale)).ledger chain t := by
      rw [ledger_rollbackOps hopen]
      cases stale with
      | none => exact h
      | some s =>
        have hs := hat s rfl
        exact h.rollback_above (by omega)
    refine ⟨hrolled.batchOk hw hc hh, trivial, ?_⟩
    cases below with
    | none => trivial
    | some below => exact ⟨.inl (hbelow below rfl), trivial⟩

theorem Restartable.along {db : Database} {ops : List StoreOp} (h : Restartable sha256d db)
    (hops : Along (StoreOp.run sha256d) StoreOp.Consistent db ops) : Restartable sha256d (runStore sha256d db ops) :=
  hops.invariant (fun _ _ hr hop => hr.step hop) h

theorem classifyOps_consistent (db : Database) (answers : List (Hash32 × Option UInt64)) :
    Along (StoreOp.run sha256d) StoreOp.Consistent db (classifyOps answers) := by
  have hall : Along (StoreOp.run sha256d) (fun _ op => ∃ p x, op = .classifyParent p x) db (classifyOps answers) := by
    refine along_of_forall fun op hop => ?_
    obtain ⟨a, -, rfl⟩ := List.mem_map.1 hop
    exact ⟨a.1, a.2, rfl⟩
  refine hall.mono fun db op hop => ?_
  obtain ⟨p, x, rfl⟩ := hop
  trivial

/-! ## Every parent is probed -/

theorem classified_state (sp : StoredParent) (ltc_height : Option UInt64) :
    (sp.classified ltc_height).parent_state ≠ 0 := by
  unfold StoredParent.classified
  simp only
  split_ifs <;> decide

/-- Recording an answer for each unprobed parent leaves none. -/
theorem probed_classifyOps (answers : List (Hash32 × Option UInt64)) : ∀ db : Database,
    (∀ p sp, db.cache_parents.get? p = some sp → sp.parent_state ≠ 0 ∨ p ∈ answers.map Prod.fst) →
    ∀ p sp, (runStore sha256d db (classifyOps answers)).cache_parents.get? p = some sp → sp.parent_state ≠ 0 := by
  induction answers with
  | nil =>
    intro db h p sp hsp
    exact (h p sp hsp).resolve_right List.not_mem_nil
  | cons a answers ih =>
    intro db h
    refine ih ((StoreOp.classifyParent a.1 a.2).run sha256d db) fun p sp hsp => ?_
    change (db.classifyParent true a.1 a.2).2.cache_parents.get? p = some sp at hsp
    rw [classifyParent_cache, KMap.get?_modify] at hsp
    split_ifs at hsp with hp
    · obtain ⟨sp₀, -, rfl⟩ := Option.map_eq_some_iff.1 hsp
      exact .inl (classified_state sp₀ a.2)
    · refine (h p sp hsp).imp_right fun hmem => ?_
      rw [List.map_cons, List.mem_cons] at hmem
      exact hmem.resolve_left hp

theorem mem_answers {t : Tick} (hiter : ∀ l, (t.iter l).Perm l) {db : Database} {p : Hash32} {sp : StoredParent}
    (hsp : db.cache_parents.get? p = some sp) (hstate : sp.parent_state = 0) : p ∈ (t.answers db).map Prod.fst := by
  unfold Tick.answers
  rw [List.map_map, List.mem_map]
  exact ⟨p, (mem_unclassifiedParents hiter).2 ⟨sp, hsp, hstate⟩, rfl⟩

/-! ## Lists keep blocks -/

theorem KeepsLegs.insertOne {db : Database} (h : KeepsLegs db) {row : BlockRow} (hw : Witnessed row) :
    KeepsLegs (db.insertOne sha256d row) := by
  obtain ⟨aux, haux, -⟩ := hw
  intro p
  rw [insertOne_eq db haux]
  simp only [KMap.get?_insert]
  split_ifs
  · unfold pushSibling
    split
    · rename_i hmem
      obtain ⟨b, hb, -⟩ := List.any_eq_true.1 hmem
      exact fun hnil => List.ne_nil_of_mem hb (Option.some.inj hnil)
    · simp
  · exact h p

theorem KeepsLegs.insertBlocks {rows : List BlockRow} : ∀ {db : Database}, KeepsLegs db → (∀ row ∈ rows, Witnessed row) →
    KeepsLegs ((StoreOp.insertBlocks rows).run sha256d db) := by
  intro db h hw
  change KeepsLegs (db.insertBlocks sha256d true rows).2
  rw [insertBlocks_ok sha256d db rows hw]
  induction rows generalizing db with
  | nil => exact h
  | cons row rows ih =>
    exact ih (h.insertOne (hw row List.mem_cons_self)) fun r hr => hw r (List.mem_cons_of_mem _ hr)

theorem KeepsLegs.rollbackFrom {db : Database} (h : KeepsLegs db) (c : UInt32) (from_height : UInt64) :
    KeepsLegs ((StoreOp.rollbackFrom c from_height).run sha256d db) := by
  change KeepsLegs (db.rollbackFrom sha256d true (fun _ => true) true c from_height).2
  rw [rollbackFrom_true]
  intro p hp
  rw [(rewindCursor_frame true (db.rolledBack sha256d c from_height) c from_height).2.2.2.2.1] at hp
  unfold Database.rolledBack at hp
  rw [KMap.get?_eraseAll] at hp
  split_ifs at hp with hempty
  -- an emptied list is erased with its parent
  refine hempty ?_
  have hkept := hp
  unfold keptSiblings at hkept
  rw [get?_retainSiblings] at hkept
  split_ifs at hkept with hrow
  · exact List.mem_filter.2 ⟨hrow, by simp [hp]⟩
  · exact absurd hkept (h p)

/-- The calls of a tick that does not prune. -/
theorem KeepsLegs.tickOps {db : Database} (h : KeepsLegs db) {pending : List StoredBlock}
    (stale : Option UInt64) (c : UInt32) (hw : ∀ row ∈ rowsOf pending, Witnessed row) :
    KeepsLegs (runStore sha256d db (rollbackOps c stale ++ storeOps c pending none)) := by
  have hrolled : KeepsLegs (runStore sha256d db (rollbackOps c stale)) := by
    cases stale with
    | none => exact h
    | some s => exact h.rollbackFrom c s
  unfold runStore at hrolled ⊢
  rw [List.foldl_append]
  unfold storeOps
  split
  · exact hrolled
  · simp only [Option.toList_none, List.map_nil, List.foldl_cons, List.foldl_nil]
    change KeepsLegs (Database.setCursorHeight _ _ _ _).2
    rw [setCursorHeight_true]
    exact hrolled.insertBlocks hw

theorem KeepsLegs.classifyOps (answers : List (Hash32 × Option UInt64)) : ∀ {db : Database}, KeepsLegs db →
    KeepsLegs (runStore sha256d db (classifyOps answers)) := by
  induction answers with
  | nil => exact fun h => h
  | cons a answers ih =>
    intro db h
    refine @ih ((StoreOp.classifyParent a.1 a.2).run sha256d db) fun p => ?_
    change (db.classifyParent true a.1 a.2).2.cache_siblings.get? p ≠ some []
    unfold Database.classifyParent
    simp only [not_true, if_false]
    split <;> exact h p

/-! ## Ticks and restarts -/

theorem Restartable.registered {db : Database} (h : Restartable sha256d db) (chain : AuxChain) :
    Restartable sha256d (registered sha256d chain db) :=
  @Restartable.step sha256d _ (.upsertChain chain.chain_id chain.name chain.electrs) h trivial

theorem registered_caches (chain : AuxChain) {db : Database} (h : Opened db) :
    (registered sha256d chain db).cache_parents = db.cache_parents ∧
      (registered sha256d chain db).cache_siblings = db.cache_siblings := by
  unfold PsobIndexer.registered
  simp only [StoreOp.run]
  rcases h.synced.upsertChain chain.chain_id chain.name chain.electrs with hu | hu <;> rw [hu] <;> exact ⟨rfl, rfl⟩

/-- The parents on disk are the cached ones. -/
theorem Steady.parent_blocks {db : Database} (h : Steady sha256d db) : db.redb.parent_blocks = db.cache_parents := by
  apply KMap.ext_get?
  intro p
  rw [h.restartable.classified p]
  cases hsp : db.cache_parents.get? p with
  | none => rfl
  | some sp => simp [Option.filter, h.probed p sp hsp]

theorem Steady.warm {db : Database} (h : Steady sha256d db) : Steady sha256d (warmUpCache sha256d db.redb) := by
  have hcoh := h.restartable.coherent
  have hparents : (warmUpCache sha256d db.redb).cache_parents = db.cache_parents := h.parent_blocks
  refine ⟨⟨⟨rfl, hcoh.keyed, hcoh.indexed, fun p => ?_, fun k b p hb hp => ?_, fun p sp hsp => ?_⟩, rfl,
    h.restartable.schema, fun p => ?_⟩, fun p sp hsp => ?_⟩
  · rw [hcoh.warm_siblings]
    exact .refl _
  · rw [hparents]
    exact hcoh.parents k b p hb hp
  · rw [hparents] at hsp
    exact hcoh.states p sp hsp
  · rw [hparents, ← h.restartable.classified p]
    rfl
  · rw [hparents] at hsp
    exact h.probed p sp hsp

/-- The fetches of a tick leave a store with every parent probed. -/
theorem Steady.fetched {w : Nat} {config : Config} {chain : AuxChain} {t : Tick} {db : Database} {tr : BlockTrack}
    (h : Steady sha256d db) (hopen : Opened db) (htr : Tracks config db.ledger chain tr) (ht : t.commits = .all)
    (hiter : ∀ l, (t.iter l).Perm l) {cur : UInt64} {fetched : List Fetched}
    (hf : t.Fetches config (db.ledger.cursorFrom config chain) cur fetched) :
    Steady sha256d (ingestChain w sha256d config chain t db).2 ∧
      (config.max_kept_blocks = none → KeepsLegs db → KeepsLegs (ingestChain w sha256d config chain t db).2) := by
  have hregistered := h.restartable.registered chain
  obtain ⟨hopen', hledger⟩ := hopen.registered sha256d chain
  rw [ingestChain_fetches sha256d hopen (upsertChain_all sha256d ht hopen chain) hf]
  obtain ⟨below, hbelow, hkept, heq⟩ := @ingestFetched_all sha256d w config chain t ht _ hopen' cur fetched
  rw [heq]
  rw [hledger]
  obtain ⟨hcur, tip, -, -, hwin, hfetch⟩ := hf
  obtain ⟨hc, hh, -, hat, -⟩ := @Tracks.walked config db.ledger chain tr w sha256d htr cur tip fetched hcur hwin
    (fetchWindow_heights hfetch)
  have hver := (@walk_spec w sha256d chain (db.ledger.prevHash chain.chain_id cur) fetched).1
  generalize walk w sha256d chain (db.ledger.prevHash chain.chain_id cur) fetched = r at hc hh hat hver ⊢
  have hw : ∀ row ∈ rowsOf r.1, Witnessed row := by
    intro row hrow
    obtain ⟨b, hb, rfl⟩ := List.mem_map.1 hrow
    exact (hver b hb).witnessed _
  rw [← hledger] at htr
  have hstored := hregistered.along (htr.tickOps_consistent hopen' hw hc hh hat hbelow)
  refine ⟨⟨hstored.along (classifyOps_consistent _ _), ?_⟩, fun hnone hlegs => ?_⟩
  · refine probed_classifyOps _ _ fun p sp hsp => ?_
    by_cases hstate : sp.parent_state = 0
    · exact .inr (mem_answers hiter hsp hstate)
    · exact .inl hstate
  · rw [hkept hnone]
    have hlegs' : KeepsLegs (registered sha256d chain db) := by
      unfold KeepsLegs
      rw [(registered_caches chain hopen).2]
      exact hlegs
    exact (hlegs'.tickOps r.2 chain.chain_id hw).classifyOps _

/-- The map of parents yields each of them once. -/
def IngestOp.Iterates : IngestOp → Prop
  | tick _ t => ∀ l, (t.iter l).Perm l
  | restart => True

theorem Steady.step {w : Nat} {config : Config} {db : Database} {op : IngestOp} (h : Steady sha256d db)
    (ht : Tracked config db) (hop : op.Committed config) (hiter : op.Iterates) :
    Steady sha256d (op.run w sha256d config db) ∧
      (config.max_kept_blocks = none → KeepsLegs db → KeepsLegs (op.run w sha256d config db)) := by
  cases op with
  | tick chain t =>
    obtain ⟨hchain, hcommits⟩ := hop
    simp only [IngestOp.run]
    rcases idle_or_fetches config t (db.ledger.cursorFrom config chain) with hidle | ⟨cur, fetched, hf⟩
    · rw [(ingestChain_idle sha256d ht.opened (upsertChain_all sha256d hcommits ht.opened chain) hidle).1]
      obtain ⟨hparents, hsiblings⟩ := @registered_caches sha256d chain _ ht.opened
      refine ⟨⟨h.restartable.registered chain, ?_⟩, fun _ hlegs => ?_⟩
      · rw [hparents]
        exact h.probed
      · unfold KeepsLegs
        rw [hsiblings]
        exact hlegs
    · obtain ⟨tr, htr⟩ := ht.tracks chain hchain
      exact h.fetched ht.opened htr hcommits hiter hf
  | restart =>
    have hopen := h.restartable.openDb
    have hrun : (IngestOp.restart).run w sha256d config db = warmUpCache sha256d db.redb := by
      simp only [IngestOp.run, hopen]
      rfl
    rw [hrun]
    refine ⟨h.warm, fun _ _ p => ?_⟩
    rw [h.restartable.coherent.get?_warm]
    split_ifs with hnil
    · simp
    · exact fun he => hnil (Option.some.inj he)

theorem steady_run {w : Nat} {config : Config} {ops : List IngestOp} : ∀ {db : Database}, Steady sha256d db →
    Tracked config db → (∀ op ∈ ops, op.Committed config ∧ op.Iterates) →
    Steady sha256d (runIngest w sha256d config db ops) ∧
      (config.max_kept_blocks = none → KeepsLegs db → KeepsLegs (runIngest w sha256d config db ops)) := by
  induction ops with
  | nil => exact fun h _ _ => ⟨h, fun _ hlegs => hlegs⟩
  | cons op ops ih =>
    intro db h ht hops
    obtain ⟨⟨hop, hiter⟩, hops⟩ := List.forall_mem_cons.1 hops
    obtain ⟨hsteady, hlegs⟩ := h.step (w := w) ht hop hiter
    obtain ⟨hsteady', hlegs'⟩ := ih hsteady (ht.step hop) hops
    exact ⟨hsteady', fun hnone hkeeps => hlegs' hnone (hlegs hnone hkeeps)⟩

theorem steady_fresh {db₀ : Database} (h : openDb sha256d Redb.empty = .ok db₀) : Steady sha256d db₀ ∧ KeepsLegs db₀ := by
  refine ⟨⟨restartable_fresh h, ?_⟩, ?_⟩
  · cases h
    intro p sp hsp
    cases hsp
  · cases h
    intro p hp
    cases hp

variable (w : Nat) (sha256d)

/-- After any run of committed ticks and restarts, whatever the endpoints and the
resolver answered: the caches are the tables, each stored block has its index row
and is listed once under its parent, and that parent is classified, on disk as in
the cache. -/
theorem ingest_coherent (config : Config) (db₀ : Database) (ops : List IngestOp)
    (hopen : openDb sha256d Redb.empty = .ok db₀) (hops : ∀ op ∈ ops, op.Committed config ∧ op.Iterates) :
    let db := runIngest w sha256d config db₀ ops
    db.cache_blocks = db.redb.aux_blocks ∧ db.cache_parents = db.redb.parent_blocks ∧
    (∀ p c h, db.redb.sibling_index.contains ⟨p, c, h⟩ = true ↔
      ∃ b, db.redb.aux_blocks.get? ⟨c, h⟩ = some b ∧ b.parentHash sha256d = some p) ∧
    (∀ p, ((db.cache_siblings.get? p).getD []).Perm
      ((db.redb.aux_blocks.entries.map Prod.snd).filter (fun b => b.parentHash sha256d = some p))) ∧
    ∀ k b, db.redb.aux_blocks.get? k = some b → b.chain_id = k.chain_id ∧ b.height = k.height ∧
      ∀ p, b.parentHash sha256d = some p → ∃ sp, db.redb.parent_blocks.get? p = some sp ∧ sp.parent_state ≠ 0 ∧
        (sp.parent_state = 1 ↔ sp.ltc_height.isSome = true) := by
  intro db
  obtain ⟨h, -⟩ := @steady_run _ w config ops _ (steady_fresh hopen).1 (tracked_fresh hopen) hops
  have hcoh : Coherent sha256d db := h.restartable.coherent
  refine ⟨hcoh.cached, h.parent_blocks.symm, fun p c hh => ?_, hcoh.listed, fun k b hb => ?_⟩
  · rw [KMap.contains_iff, ← hcoh.indexed ⟨p, c, hh⟩]
    exact ⟨fun ⟨_, hu⟩ => hu, fun hu => ⟨(), hu⟩⟩
  · obtain ⟨hc, hh⟩ := hcoh.keyed k b hb
    refine ⟨hc, hh, fun p hp => ?_⟩
    obtain ⟨sp, hsp⟩ := hcoh.parents k b p hb hp
    exact ⟨sp, by rw [h.parent_blocks]; exact hsp, h.probed p sp hsp, hcoh.states p sp hsp⟩

/-- Where no history is pruned, a restart between two ticks is accepted and changes
no answer. -/
theorem restart_between_ticks (config : Config) (hkept : config.max_kept_blocks = none) (db₀ : Database)
    (ops : List IngestOp) (hopen : openDb sha256d Redb.empty = .ok db₀)
    (hops : ∀ op ∈ ops, op.Committed config ∧ op.Iterates) :
    ∃ db', openDb sha256d (runIngest w sha256d config db₀ ops).redb = .ok db' ∧
      SameQueries (runIngest w sha256d config db₀ ops) db' := by
  obtain ⟨h, hlegs⟩ := @steady_run _ w config ops _ (steady_fresh hopen).1 (tracked_fresh hopen) hops
  refine ⟨_, h.restartable.openDb, h.restartable.sameQueries fun p sp hsp => ⟨h.probed p sp hsp, fun _ => ?_⟩⟩
  exact hlegs hkept (steady_fresh hopen).2 p

end Sha

/-! ## Two chains, one tick each -/

theorem legsOps_committed : ∀ op ∈ legsOps, op.Committed legsConfig ∧ op.Iterates := by
  intro op hop
  rcases List.mem_cons.1 hop with rfl | hop
  · exact ⟨⟨List.mem_cons_self, rfl⟩, fun l => .refl l⟩
  · rw [List.mem_singleton.1 hop]
    exact ⟨⟨List.mem_cons_of_mem _ List.mem_cons_self, rfl⟩, fun l => .refl l⟩

theorem ingest_coherent_legs : legsStore.cache_parents = legsStore.redb.parent_blocks := by
  unfold legsStore
  exact (ingest_coherent legsSha 64 legsConfig freshDb legsOps rfl legsOps_committed).2.1

theorem restart_between_ticks_legs : ∃ db', openDb legsSha legsStore.redb = .ok db' ∧ SameQueries legsStore db' := by
  unfold legsStore
  exact restart_between_ticks legsSha 64 legsConfig rfl freshDb legsOps rfl legsOps_committed

end PsobIndexer
