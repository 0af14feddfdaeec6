import PsobIndexer.Gossip
import PsobIndexer.Linkage
import PsobIndexer.Legs
import PsobIndexer.Race
/-!
# Which sibling groups are announced

A parent is tried once, after a tick put it on mainnet, and is announced if it is
on mainnet still and its stored blocks are of two chains by then. A group that
becomes whole later is never announced; if none does, every group is announced
exactly once (`groups_announced_once`).
-/
open Lib

namespace PsobIndexer

open Database

/-- A sibling announcement of the parent. -/
def Announcement.isSibling (p : Hash32) : Announcement → Bool
  | sibling parent_hash _ _ => parent_hash = hashDisplay p
  | header .. => false

/-- How often the group of a parent was announced. -/
def announcements (sent : List Announcement) (p : Hash32) : Nat := sent.countP (Announcement.isSibling p)

theorem announcements_send (sent : List Announcement) (msg : Announcement) (p : Hash32) :
    announcements (sent ++ [msg]) p = announcements sent p + if msg.isSibling p then 1 else 0 := by
  unfold announcements
  rw [List.countP_append, List.countP_singleton]

section Sha
variable {w : Nat} {sha256d : Bytes → Hash32}

/-! ## Announcing -/

/-- Parents on disk are cached, so looking one up changes nothing. -/
def Backed (db : Database) : Prop := ∀ p, db.cache_parents.get? p = none → db.redb.parent_blocks.get? p = none

theorem Backed.getParent {db : Database} (h : Backed db) (p : Hash32) :
    db.getParent p = (db.cache_parents.get? p, db) := by
  unfold Database.getParent
  cases hp : db.cache_parents.get? p with
  | some sp => rfl
  | none =>
    simp only
    rw [h p hp]

/-- The parent has its list of siblings. -/
def HasList (db : Database) (p : Hash32) : Prop := ∃ l, db.cache_siblings.get? p = some l

theorem Listing.chains_listed {db : Database} (h : Listing sha256d db) {p : Hash32} (hlist : HasList db p) :
    (legsByChain (db.siblingsForParent p)).size = chainCount (storedUnder sha256d db p) := by
  obtain ⟨l, hl⟩ := hlist
  have hperm := h.listed p
  rw [siblings, hl, Option.getD_some] at hperm
  unfold siblingsForParent
  simp only [hl]
  rw [← chainCount_perm hperm, ← length_legsByChain]
  rfl

/-- Making up the message about a tip changes nothing, and it is no sibling message. -/
theorem tipMessage_frame {db : Database} (hb : Backed db) (chain : AuxChain) (blocks : List StoredBlock) :
    (tipMessage sha256d db chain blocks).2 = db ∧
      ∀ msg, (tipMessage sha256d db chain blocks).1 = some msg → ∀ p, msg.isSibling p = false := by
  unfold tipMessage
  split
  · exact ⟨rfl, fun msg hmsg => by cases hmsg⟩
  · split
    · exact ⟨rfl, fun msg hmsg => by cases hmsg⟩
    · rw [hb.getParent]
      refine ⟨rfl, fun msg hmsg p => ?_⟩
      cases hmsg
      rfl

/-- A parent has a message when its stored blocks are of two chains. -/
theorem Listing.groupMessage {db : Database} (h : Listing sha256d db) {p : Hash32} (hlist : HasList db p)
    (ltc_height : UInt64) :
    if 2 ≤ chainCount (storedUnder sha256d db p)
    then ∃ legs, PsobIndexer.groupMessage db p ltc_height = some (.sibling (hashDisplay p) ltc_height legs)
    else PsobIndexer.groupMessage db p ltc_height = none := by
  have hchains := h.chains_listed hlist
  unfold PsobIndexer.groupMessage
  simp only [hchains]
  by_cases htwo : 2 ≤ chainCount (storedUnder sha256d db p)
  · rw [if_pos htwo, if_neg (Nat.not_lt.2 htwo)]
    exact ⟨_, rfl⟩
  · rw [if_neg htwo, if_pos (Nat.not_le.1 htwo)]

/-! ## Storing -/

variable {config : Config} {chain : AuxChain} {t : Tick}

theorem storeFetched_all (ht : t.commits = .all) {db : Database} (h : Opened db) (cursor : UInt64)
    (fetched : List Fetched) :
    let r := walk w sha256d chain (db.ledger.prevHash chain.chain_id cursor) fetched
    ∃ below : Option UInt64, (config.max_kept_blocks = none → below = none) ∧
      storeFetched w sha256d config chain t db cursor fetched =
        (.ok r.1, runStore sha256d db (rollbackOps chain.chain_id r.2 ++ storeOps chain.chain_id r.1 below)) := by
  intro r
  have hw : ∀ row ∈ rowsOf r.1, Witnessed row := by
    intro row hrow
    obtain ⟨b, hb, rfl⟩ := List.mem_map.1 hrow
    exact ((walk_spec chain _ fetched).1 b hb).witnessed _
  obtain ⟨below, -, hkept, hstore⟩ := storePending_all sha256d config
    (runStore sha256d db (rollbackOps chain.chain_id r.2)) chain.chain_id r.1 hw
  refine ⟨below, hkept, ?_⟩
  unfold storeFetched
  have hr : walk w sha256d chain (db.ledger.prevHash chain.chain_id cursor) fetched = r := rfl
  simp only [prevHashAt_opened h, ht, rollbackStale_all, hr, hstore]
  simp only [runStore, List.foldl_append]

theorem storeChain_all (ht : t.commits = .all) {db : Database} (h : Opened db) :
    storeChain w sha256d config chain t db =
      match t.electrs.tipHeight, db.ledger.cursorFrom config chain with
      | none, _ => (.error .tipHeight, registered sha256d chain db)
      | some _, none => (.error (.noStart chain.name chain.chain_id), registered sha256d chain db)
      | some tip, some cur =>
        if cur > tip then (.ok none, registered sha256d chain db)
        else if saturatingAdd cur 1 > windowEnd config cur tip then (.ok none, registered sha256d chain db)
        else match fetchWindow t.electrs (rangeInclusive (saturatingAdd cur 1) (windowEnd config cur tip)) with
          | .error e => (.error e, registered sha256d chain db)
          | .ok fetched =>
            match storeFetched w sha256d config chain t (registered sha256d chain db) cur fetched with
            | (.error e, db) => (.error e, db)
            | (.ok pending, db) => (.ok (some pending), db) := by
  obtain ⟨hopen, hledger⟩ := h.registered sha256d chain
  have hcursor : (registered sha256d chain db).cursorOf = db.cursorOf := congrArg Ledger.cursor hledger
  unfold storeChain Ledger.cursorFrom
  simp only [upsertChain_all sha256d ht h chain]
  cases t.electrs.tipHeight with
  | none => rfl
  | some tip =>
    simp only [hopen.synced.cursorHeight, hcursor, Database.ledger]
    cases (db.cursorOf chain.chain_id).or (config.startOf chain) with
    | none => rfl
    | some cur => rfl

/-- What a tick stores: nothing, or the blocks its walk accepts. -/
theorem storeChain_cases (ht : t.commits = .all) {db : Database} (h : Opened db) :
    (∃ r, storeChain w sha256d config chain t db = (r, registered sha256d chain db) ∧ ∀ blocks, r ≠ .ok (some blocks)) ∨
      ∃ cur fetched, t.Fetches config (db.ledger.cursorFrom config chain) cur fetched ∧
        let r := walk w sha256d chain (db.ledger.prevHash chain.chain_id cur) fetched
        ∃ below : Option UInt64, (config.max_kept_blocks = none → below = none) ∧
          storeChain w sha256d config chain t db = (.ok (some r.1), runStore sha256d (registered sha256d chain db)
            (rollbackOps chain.chain_id r.2 ++ storeOps chain.chain_id r.1 below)) := by
  rw [storeChain_all ht h]
  rcases idle_or_fetches config t (db.ledger.cursorFrom config chain) with hidle | ⟨cur, fetched, hf⟩
  · left
    rcases hidle with htip | hcur | ⟨tip, cur, htip, hcur, hwhy⟩
    · simp [htip]
    · cases htip : t.electrs.tipHeight <;> simp [hcur]
    · simp only [htip, hcur]
      rcases hwhy with habove | hdone | ⟨e, he⟩
      · simp [habove]
      · split_ifs <;> simp
      · simp only [he]
        split_ifs <;> simp
  · right
    obtain ⟨hopen, hledger⟩ := h.registered sha256d chain
    obtain ⟨below, hkept, hstore⟩ := @storeFetched_all w sha256d config chain t ht _ hopen cur fetched
    rw [hledger] at hstore
    refine ⟨cur, fetched, hf, below, hkept, ?_⟩
    obtain ⟨hcur, tip, htip, hle, hwin, hfetch⟩ := hf
    simp only [htip, hcur, hfetch, hstore]
    rw [if_neg (not_lt.2 hle), if_neg (not_lt.2 hwin)]

/-- Rows never touch a list that is there, and a parent they bring has one. -/
theorem foldl_insertOne_lists {rows : List BlockRow} (hrows : ∀ row ∈ rows, Witnessed row) (db : Database) (p : Hash32) :
    let db' := rows.foldl (insertOne sha256d) db
    (HasList db p → HasList db' p) ∧ (db'.cache_parents.get? p ≠ db.cache_parents.get? p → HasList db' p) := by
  induction rows generalizing db with
  | nil => exact ⟨id, fun h => absurd rfl h⟩
  | cons row rows ih =>
    obtain ⟨hrow, hrows⟩ := List.forall_mem_cons.1 hrows
    obtain ⟨hkeep, hbring⟩ := ih hrows (db.insertOne sha256d row)
    obtain ⟨aux, haux, -⟩ := hrow
    have hone : HasList db p → HasList (db.insertOne sha256d row) p := by
      rintro ⟨l, hl⟩
      unfold HasList
      rw [insertOne_eq db haux, KMap.get?_insert]
      split_ifs
      · exact ⟨_, rfl⟩
      · exact ⟨l, hl⟩
    have hnew : (db.insertOne sha256d row).cache_parents.get? p ≠ db.cache_parents.get? p →
        HasList (db.insertOne sha256d row) p := by
      intro hne
      unfold HasList
      rw [insertOne_eq db haux] at hne ⊢
      simp only at hne ⊢
      split_ifs at hne with hc
      · exact absurd rfl hne
      · rw [KMap.get?_insert] at hne ⊢
        split_ifs at hne ⊢
        · exact ⟨_, rfl⟩
        · exact absurd rfl hne
    rw [List.foldl_cons]
    refine ⟨fun h => hkeep (hone h), fun hne => ?_⟩
    by_cases hsame : (db.insertOne sha256d row).cache_parents.get? p = db.cache_parents.get? p
    · exact hbring (hsame ▸ hne)
    · exact hkeep (hnew hsame)

/-- What storing accepted blocks does. -/
structure Stores (sha256d : Bytes → Hash32) (db db' : Database) (blocks : List StoredBlock) : Prop where
  listing : Listing sha256d db → Listing sha256d db'
  kept : ∀ k b, db.redb.aux_blocks.get? k = some b → db'.redb.aux_blocks.get? k = some b
  rows : ∀ k b, db'.redb.aux_blocks.get? k = some b → db.redb.aux_blocks.get? k = some b ∨ b ∈ blocks
  parents : ∀ p, db'.cache_parents.get? p = db.cache_parents.get? p ∨
    db.cache_parents.get? p = none ∧ ∃ sp, db'.cache_parents.get? p = some sp ∧ sp.parent_state = 0
  lists : ∀ p, (HasList db p → HasList db' p) ∧ (db'.cache_parents.get? p ≠ db.cache_parents.get? p → HasList db' p)
  table : db'.redb.parent_blocks = db.redb.parent_blocks

/-- Metadata is none of it. -/
theorem Stores.of_eq {db db' : Database} (haux : db'.redb.aux_blocks = db.redb.aux_blocks)
    (hsiblings : db'.cache_siblings = db.cache_siblings) (hparents : db'.cache_parents = db.cache_parents)
    (htable : db'.redb.parent_blocks = db.redb.parent_blocks) : Stores sha256d db db' [] where
  listing h := by
    refine ⟨by rw [haux]; exact h.keyed, fun p => ?_⟩
    unfold siblings storedUnder
    rw [haux, hsiblings]
    exact h.listed p
  kept k b hb := by rw [haux]; exact hb
  rows k b hb := by rw [haux] at hb; exact .inl hb
  parents p := .inl (by rw [hparents])
  lists p := by
    unfold HasList
    rw [hsiblings, hparents]
    exact ⟨id, fun h => absurd rfl h⟩
  table := htable

theorem Stores.trans {db db₁ db₂ : Database} {blocks : List StoredBlock} (h₁ : Stores sha256d db db₁ [])
    (h₂ : Stores sha256d db₁ db₂ blocks) (hparents : db₁.cache_parents = db.cache_parents) : Stores sha256d db db₂ blocks where
  listing h := h₂.listing (h₁.listing h)
  kept k b hb := h₂.kept k b (h₁.kept k b hb)
  rows k b hb := by
    rcases h₂.rows k b hb with hold | hnew
    · exact .inl ((h₁.rows k b hold).resolve_right List.not_mem_nil)
    · exact .inr hnew
  parents p := by rw [← hparents]; exact h₂.parents p
  lists p := by
    rw [← hparents]
    exact ⟨fun h => (h₂.lists p).1 ((h₁.lists p).1 h), (h₂.lists p).2⟩
  table := h₂.table.trans h₁.table

theorem Stores.congr {db db₁ db₂ : Database} {blocks : List StoredBlock} (h : Stores sha256d db db₁ blocks)
    (haux : db₂.redb.aux_blocks = db₁.redb.aux_blocks) (hsiblings : db₂.cache_siblings = db₁.cache_siblings)
    (hparents : db₂.cache_parents = db₁.cache_parents) (htable : db₂.redb.parent_blocks = db₁.redb.parent_blocks) :
    Stores sha256d db db₂ blocks := by
  have hmeta : Stores sha256d db₁ db₂ [] := .of_eq haux hsiblings hparents htable
  refine ⟨fun hl => hmeta.listing (h.listing hl), fun k b hb => hmeta.kept k b (h.kept k b hb), ?_, ?_, ?_, ?_⟩
  · rw [haux]
    exact h.rows
  · rw [hparents]
    exact h.parents
  · intro p
    unfold HasList
    rw [hparents, hsiblings]
    exact h.lists p
  · rw [htable]
    exact h.table

theorem Stores.batch {db : Database} {blocks : List StoredBlock} (hbatch : BatchOk db (rowsOf blocks))
    (hfresh : ∀ row ∈ rowsOf blocks, db.redb.aux_blocks.get? row.1 = none) :
    Stores sha256d db ((StoreOp.insertBlocks (rowsOf blocks)).run sha256d db) blocks := by
  have hw : ∀ row ∈ rowsOf blocks, Witnessed row := fun row hr => (hbatch.row_ok row hr).witnessed
  have hrun : (StoreOp.insertBlocks (rowsOf blocks)).run sha256d db = (rowsOf blocks).foldl (insertOne sha256d) db :=
    congrArg Prod.snd (insertBlocks_ok sha256d db _ hw)
  have haux := (foldl_insertOne_frame sha256d (rowsOf blocks) db hw).1
  constructor
  · intro h
    exact hbatch.invariant (fun _ _ hl hrow => hl.insertOne hrow) h
  · intro k b hb
    rw [hrun, haux, KMap.get?_insertAll_of_ne]
    · exact hb
    · rintro row hr rfl
      rw [hfresh row hr] at hb
      cases hb
  · intro k b hb
    rw [hrun, haux] at hb
    rcases get?_insertAll_mem hb with hold | hnew
    · exact .inl hold
    · obtain ⟨b', hb', he⟩ := List.mem_map.1 hnew
      cases he
      exact .inr hb'
  · intro p
    rw [hrun]
    exact (foldl_insertOne_parents hw db p).1
  · intro p
    rw [hrun]
    exact foldl_insertOne_lists hw db p
  · rw [hrun]
    exact (foldl_insertOne_parents hw db (ByteArr.fill 32 0)).2

theorem Stores.registered (chain : AuxChain) (db : Database) :
    Stores sha256d db (registered sha256d chain db) [] ∧ (registered sha256d chain db).cache_parents = db.cache_parents := by
  obtain ⟨m, hm⟩ := getMeta_frame db (chainKey chain.chain_id)
  unfold PsobIndexer.registered StoreOp.run Database.upsertChain setMeta
  simp only [hm]
  split_ifs
  · exact ⟨.of_eq rfl rfl rfl rfl, rfl⟩
  · exact ⟨.of_eq rfl rfl rfl rfl, rfl⟩

/-- Blocks above the cursor of their chain are new. -/
theorem Tracks.accepted_fresh {L : Ledger} {tr : BlockTrack} (h : Tracks config L chain tr) {cur : UInt64}
    {fetched : List Fetched} (hf : t.Fetches config (L.cursorFrom config chain) cur fetched) :
    let r := walk w sha256d chain (L.prevHash chain.chain_id cur) fetched
    HeightsFrom cur.toNat r.1 ∧ ∀ b ∈ r.1, b.chain_id = chain.chain_id ∧ L.blocks.get? ⟨b.chain_id, b.height⟩ = none := by
  intro r
  obtain ⟨hcur, tip, -, -, hwin, hfetch⟩ := hf
  have hheights := @walk_heightsFrom chain w sha256d (L.prevHash chain.chain_id cur) _ _ _ _ (fetchWindow_heights hfetch)
    (windowEnd_room hwin)
  refine ⟨hheights, fun b hb => ?_⟩
  have hc := ((@walk_spec w sha256d chain (L.prevHash chain.chain_id cur) fetched).1 b hb).1
  obtain ⟨i, hi⟩ := List.mem_iff_getElem?.1 hb
  have habove := hheights i b hi
  refine ⟨hc, ?_⟩
  rw [hc, h.blocks]
  cases hitem : tr.item b.height.toNat with
  | none => rfl
  | some b' =>
    have hle := (Track.item_bounds hitem).2
    have hat := h.at_cursor cur hcur
    omega

/-- Neither a rollback nor a pruning happens. -/
structure Tick.Undisturbed (w : Nat) (sha256d : Bytes → Hash32) (config : Config) (chain : AuxChain) (t : Tick)
    (db : Database) : Prop where
  unpruned : storeChain w sha256d config chain t db = storeChain w sha256d config.unpruned chain t db
  kept : ∀ cur fetched, t.Fetches config (db.ledger.cursorFrom config chain) cur fetched →
    (walk w sha256d chain (db.ledger.prevHash chain.chain_id cur) fetched).2 = none

/-- The blocks a tick would store. -/
def Tick.Accepts (w : Nat) (sha256d : Bytes → Hash32) (config : Config) (chain : AuxChain) (t : Tick) (db : Database)
    (b : StoredBlock) : Prop :=
  ∃ cur fetched, t.Fetches config (db.ledger.cursorFrom config chain) cur fetched ∧
    b ∈ (walk w sha256d chain (db.ledger.prevHash chain.chain_id cur) fetched).1

theorem storeChain_stores {db : Database} (h : Tracked config db) (hchain : chain ∈ config.chains) (ht : t.commits = .all)
    (hu : t.Undisturbed w sha256d config chain db) :
    ∃ blocks, Stores sha256d db (storeChain w sha256d config chain t db).2 blocks ∧
      ∀ b ∈ blocks, b.chain_id = chain.chain_id ∧ t.Accepts w sha256d config chain db b := by
  obtain ⟨hregistered, hparents⟩ := @Stores.registered sha256d chain db
  rw [hu.unpruned]
  rcases @storeChain_cases w sha256d config.unpruned chain t ht db h.opened with
    ⟨r, hr, -⟩ | ⟨cur, fetched, hf, below, hkept, hstore⟩
  · rw [hr]
    exact ⟨[], hregistered, fun b hb => absurd hb List.not_mem_nil⟩
  · have hf : t.Fetches config (db.ledger.cursorFrom config chain) cur fetched := hf
    obtain ⟨tr, htr⟩ := h.tracks chain hchain
    obtain ⟨hheights, hfresh⟩ := @Tracks.accepted_fresh w sha256d config chain t _ tr htr cur fetched hf
    have hver := (@walk_spec w sha256d chain (db.ledger.prevHash chain.chain_id cur) fetched).1
    have hstale := hu.kept cur fetched hf
    generalize hwalk : walk w sha256d chain (db.ledger.prevHash chain.chain_id cur) fetched = r at *
    obtain ⟨blocks, stale⟩ := r
    obtain rfl : stale = none := hstale
    obtain rfl := hkept rfl
    rw [hstore]
    simp only [rollbackOps, Option.toList_none, List.map_nil, List.nil_append]
    unfold storeOps
    cases hlast : blocks.getLast? with
    | none => exact ⟨[], hregistered, fun b hb => absurd hb List.not_mem_nil⟩
    | some last =>
      have haux : (PsobIndexer.registered sha256d chain db).redb.aux_blocks = db.redb.aux_blocks :=
        congrArg Ledger.blocks (h.opened.registered sha256d chain).2
      have hnew : ∀ row ∈ rowsOf blocks, (PsobIndexer.registered sha256d chain db).redb.aux_blocks.get? row.1 = none := by
        intro row hrow
        obtain ⟨b, hb, rfl⟩ := List.mem_map.1 hrow
        rw [haux]
        exact (hfresh b hb).2
      have hbatch : BatchOk (PsobIndexer.registered sha256d chain db) (rowsOf blocks) := by
        constructor
        · intro row hrow
          obtain ⟨b, hb, rfl⟩ := List.mem_map.1 hrow
          refine ⟨(hver b hb).witnessed _, ⟨rfl, rfl⟩, fun b' hb' => ?_⟩
          rw [hnew _ hrow] at hb'
          cases hb'
        · refine List.pairwise_of_forall_mem_list fun row hrow row' hrow' he => ?_
          obtain ⟨b, hb, rfl⟩ := List.mem_map.1 hrow
          obtain ⟨b', hb', rfl⟩ := List.mem_map.1 hrow'
          obtain ⟨i, hi⟩ := List.mem_iff_getElem?.1 hb
          obtain ⟨j, hj⟩ := List.mem_iff_getElem?.1 hb'
          have hsame := hheights i b hi
          rw [(BlockKey.mk.inj he).2, hheights j b' hj] at hsame
          obtain rfl : i = j := by omega
          rw [hi] at hj
          exact Option.some.inj hj
      refine ⟨blocks, ?_, fun b hb => ⟨(hfresh b hb).1, cur, fetched, hf, by rw [hwalk]; exact hb⟩⟩
      exact (hregistered.trans (.batch hbatch hnew) hparents).congr rfl rfl rfl rfl

/-! ## The steps of a run -/

/-- The parent's record says mainnet. -/
def Confirmed (db : Database) (p : Hash32) : Prop := ∃ sp, db.cache_parents.get? p = some sp ∧ sp.parent_state = 1

/-- The parents a tick goes by. -/
def TaskPhase.parents : TaskPhase → List Hash32
  | idle | stored _ => []
  | resolving _ parents => parents
  | classifying _ answers new_mainnet => answers.map Prod.fst ++ new_mainnet
  | sending _ parents | announcing parents => parents
  | trying parent parents | counting parent _ parents => parent :: parents

/-- The parents a tick put on mainnet and did not come to yet. -/
def TaskPhase.queued : TaskPhase → List Hash32
  | classifying _ _ new_mainnet => new_mainnet
  | sending _ parents | announcing parents | trying _ parents | counting _ _ parents => parents
  | _ => []

/-- The tick sends the group of the parent. -/
def TaskPhase.Sends (p : Hash32) : TaskPhase → Prop
  | sending msg _ => msg.isSibling p = true
  | _ => False

/-- The tick is trying the parent. -/
def TaskPhase.Holds (p : Hash32) : TaskPhase → Prop
  | trying parent _ | counting parent _ _ => parent = p
  | phase => phase.Sends p

/-- The tick is trying the parent, or will be the first to try it. -/
def TaskPhase.Waits (announced : KMap Hash32 Unit) (p : Hash32) (phase : TaskPhase) : Prop :=
  phase.Holds p ∨ p ∈ phase.queued ∧ announced.contains p = false

/-- A tick has the parent still on its way. -/
def Loops.Waiting (s : Loops) (p : Hash32) : Prop := ∃ c, (s.phase c).Waits s.announced p

/-- A piece whose writes go through and that neither rolls back nor prunes. -/
def LoopStep.Plain (w : Nat) (sha256d : Bytes → Hash32) (config : Config) (s : Loops) (step : LoopStep) : Prop :=
  match s.phase step.chain.chain_id with
  | .idle => step.chain ∈ config.chains ∧ step.t.commits = .all ∧ step.t.Undisturbed w sha256d config step.chain s.db
  | .stored _ => ∀ l, (step.t.iter l).Perm l
  | .classifying .. => step.t.commits = .all
  | _ => True

/-- About parents new in this run: no block comes in under one that was tried or
confirmed, and is not on its way, while all its blocks were of one other chain; and
the record that is looked up for an announcement says mainnet still. -/
def LoopStep.OnTime (w : Nat) (sha256d : Bytes → Hash32) (config : Config) (db₁ : Database) (s : Loops) (step : LoopStep) :
    Prop :=
  match s.phase step.chain.chain_id with
  | .idle => ∀ b p, step.t.Accepts w sha256d config step.chain s.db b → b.parentHash sha256d = some p →
      storedUnder sha256d db₁ p = [] → s.announced.contains p = true ∨ Confirmed s.db p → ¬ s.Waiting p →
      (∀ b' ∈ storedUnder sha256d s.db p, b'.chain_id = step.chain.chain_id) ∨ 2 ≤ chainCount (storedUnder sha256d s.db p)
  | .trying p _ => storedUnder sha256d db₁ p = [] → s.db.OnMainnet p
  | _ => True

/-- What every state of a run from `db₁` satisfies. -/
structure LoopsSound (sha256d : Bytes → Hash32) (config : Config) (db₁ : Database) (s : Loops) : Prop where
  tracked : Tracked config s.db
  listing : Listing sha256d s.db
  backed : Backed s.db
  unprobed : ∀ p sp, s.db.cache_parents.get? p = some sp → sp.parent_state = 0 → HasList s.db p
  known : ∀ c, ∀ p ∈ (s.phase c).parents, HasList s.db p
  once : ∀ p, announcements s.sent p ≤ 1 ∧ (0 < announcements s.sent p → s.announced.contains p = true)
  held : ∀ c p, (s.phase c).Holds p → s.announced.contains p = true ∧ announcements s.sent p = 0
  alone : ∀ c c' p, (s.phase c).Holds p → (s.phase c').Holds p → c = c'
  groups : ∀ p, 0 < announcements s.sent p ∨ (∃ c, (s.phase c).Sends p) → 2 ≤ chainCount (storedUnder sha256d s.db p)
  complete : ∀ p, storedUnder sha256d db₁ p = [] → s.announced.contains p = true ∨ Confirmed s.db p →
    2 ≤ chainCount (storedUnder sha256d s.db p) → 0 < announcements s.sent p ∨ s.Waiting p

variable {db₁ : Database} {s : Loops}

theorem Loops.setPhase_phase (s : Loops) (g : Gossip) (c c' : UInt32) (phase : TaskPhase) :
    (s.setPhase g c phase).phase c' = if c' = c then phase else s.phase c' := by
  unfold setPhase
  exact Function.update_apply ..

theorem LoopsSound.known_setPhase (h : LoopsSound sha256d config db₁ s) (g : Gossip) (c : UInt32) {phase : TaskPhase}
    (hphase : ∀ p ∈ phase.parents, HasList s.db p) :
    ∀ c', ∀ p ∈ ((s.setPhase g c phase).phase c').parents, HasList s.db p := by
  intro c' p hp
  rw [Loops.setPhase_phase] at hp
  split_ifs at hp
  · exact hphase p hp
  · exact h.known c' p hp

theorem LoopsSound.groups_setPhase (h : LoopsSound sha256d config db₁ s) {g : Gossip} {c : UInt32}
    {phase : TaskPhase} {p : Hash32} (hphase : phase.Sends p → 2 ≤ chainCount (storedUnder sha256d s.db p))
    (hp : ∃ c', ((s.setPhase g c phase).phase c').Sends p) : 2 ≤ chainCount (storedUnder sha256d s.db p) := by
  obtain ⟨c', hp⟩ := hp
  rw [Loops.setPhase_phase] at hp
  split_ifs at hp
  · exact hphase hp
  · exact h.groups p (.inr ⟨c', hp⟩)

/-- A tick goes on without touching what the loops share. -/
theorem LoopsSound.move (h : LoopsSound sha256d config db₁ s) {c : UInt32} {old : TaskPhase} (hold : s.phase c = old)
    (phase : TaskPhase) (hknown : ∀ p ∈ phase.parents, HasList s.db p) (hholds : ∀ p, phase.Holds p → old.Holds p)
    (hsends : ∀ p, phase.Sends p → 2 ≤ chainCount (storedUnder sha256d s.db p))
    (hwaits : ∀ p, storedUnder sha256d db₁ p = [] → 2 ≤ chainCount (storedUnder sha256d s.db p) → old.Waits s.announced p →
      phase.Waits s.announced p) :
    LoopsSound sha256d config db₁ (s.setPhase s.toGossip c phase) := by
  have hheld : ∀ c' p, ((s.setPhase s.toGossip c phase).phase c').Holds p → (s.phase c').Holds p := by
    intro c' p hp
    rw [Loops.setPhase_phase] at hp
    split_ifs at hp with hc
    · rw [hc, hold]
      exact hholds p hp
    · exact hp
  refine { h with known := h.known_setPhase _ c hknown, held := ?_, alone := ?_, groups := ?_, complete := ?_ }
  · exact fun c' p hp => h.held c' p (hheld c' p hp)
  · exact fun c' c'' p hp hp' => h.alone c' c'' p (hheld c' p hp) (hheld c'' p hp')
  · rintro p (hp | hp)
    · exact h.groups p (.inl hp)
    · exact h.groups_setPhase (hsends p) hp
  · intro p hnew htried htwo
    refine (h.complete p hnew htried htwo).imp_right ?_
    rintro ⟨c', hp⟩
    refine ⟨c', ?_⟩
    rw [Loops.setPhase_phase]
    split_ifs with hc
    · rw [hc, hold] at hp
      exact hwaits p hnew htwo hp
    · exact hp

/-- A parent is tried for the first time. -/
theorem LoopsSound.take (h : LoopsSound sha256d config db₁ s) {c : UInt32} {parent : Hash32} {parents : List Hash32}
    (hold : s.phase c = .announcing (parent :: parents)) (hfirst : s.announced.contains parent = false) :
    LoopsSound sha256d config db₁
      (s.setPhase { s.toGossip with announced := s.announced.insert parent () } c (.trying parent parents)) := by
  have hinsert : ∀ p, (s.announced.insert parent ()).contains p = true ↔ p = parent ∨ s.announced.contains p = true := by
    intro p
    unfold KMap.contains
    rw [KMap.get?_insert]
    split_ifs with hp <;> simp [hp]
  have hfree : ∀ c', ¬ (s.phase c').Holds parent := by
    intro c' hp
    rw [(h.held c' parent hp).1] at hfirst
    cases hfirst
  have hheld : ∀ c' p, ((s.setPhase { s.toGossip with announced := s.announced.insert parent () } c
      (.trying parent parents)).phase c').Holds p → c' = c ∧ p = parent ∨ p ≠ parent ∧ (s.phase c').Holds p := by
    intro c' p hp
    rw [Loops.setPhase_phase] at hp
    split_ifs at hp with hc
    · exact .inl ⟨hc, Eq.symm hp⟩
    · refine .inr ⟨?_, hp⟩
      rintro rfl
      exact hfree c' hp
  refine { h with known := ?_, once := ?_, held := ?_, alone := ?_, groups := ?_, complete := ?_ }
  · exact h.known_setPhase _ c fun p hp => h.known c p (by rw [hold]; exact hp)
  · exact fun p => ⟨(h.once p).1, fun hp => (hinsert p).2 (.inr ((h.once p).2 hp))⟩
  · intro c' p hp
    rcases hheld c' p hp with ⟨-, rfl⟩ | ⟨-, hp⟩
    · refine ⟨(hinsert p).2 (.inl rfl), Nat.eq_zero_of_not_pos fun hpos => ?_⟩
      rw [(h.once p).2 hpos] at hfirst
      cases hfirst
    · exact ⟨(hinsert p).2 (.inr (h.held c' p hp).1), (h.held c' p hp).2⟩
  · intro c' c'' p hp hp'
    rcases hheld c' p hp with ⟨rfl, rfl⟩ | ⟨hne, hp⟩
    · exact ((hheld c'' p hp').resolve_right fun hp' => hp'.1 rfl).1.symm
    · exact h.alone c' c'' p hp ((hheld c'' p hp').resolve_left fun hp' => hne hp'.2).2
  · rintro p (hp | hp)
    · exact h.groups p (.inl hp)
    · exact h.groups_setPhase False.elim hp
  · intro p hnew htried htwo
    by_cases hp : p = parent
    · refine .inr ⟨c, .inl ?_⟩
      rw [Loops.setPhase_self]
      exact hp.symm
    have hbefore : s.announced.contains p = true ∨ Confirmed s.db p :=
      htried.imp_left fun hann => ((hinsert p).1 hann).resolve_left hp
    refine (h.complete p hnew hbefore htwo).imp_right ?_
    rintro ⟨c', hwaits⟩
    refine ⟨c', hwaits.imp ?_ ?_⟩
    · intro hholds
      rw [Loops.setPhase_phase, if_neg]
      · exact hholds
      · rintro rfl
        rw [hold] at hholds
        exact hholds
    · rintro ⟨hqueued, hnot⟩
      refine ⟨?_, ?_⟩
      · rw [Loops.setPhase_phase]
        split_ifs with hc
        · rw [hc, hold] at hqueued
          exact (List.mem_cons.1 hqueued).resolve_left hp
        · exact hqueued
      · rw [Bool.eq_false_iff]
        intro hann
        rw [((hinsert p).1 hann).resolve_left hp] at hnot
        cases hnot

/-- A message goes out. -/
theorem LoopsSound.send (h : LoopsSound sha256d config db₁ s) {c : UInt32} {msg : Announcement} {parents : List Hash32}
    (hold : s.phase c = .sending msg parents) :
    LoopsSound sha256d config db₁ (s.setPhase { s.toGossip with sent := s.sent ++ [msg] } c (.announcing parents)) := by
  have hmine : ∀ p, msg.isSibling p = true → (s.phase c).Holds p := fun p hp => by rw [hold]; exact hp
  have hheld : ∀ c' p, ((s.setPhase { s.toGossip with sent := s.sent ++ [msg] } c (.announcing parents)).phase c').Holds p →
      c' ≠ c ∧ (s.phase c').Holds p := by
    intro c' p hp
    rw [Loops.setPhase_phase] at hp
    split_ifs at hp with hc
    · exact hp.elim
    · exact ⟨hc, hp⟩
  refine { h with known := ?_, once := ?_, held := ?_, alone := ?_, groups := ?_, complete := ?_ }
  · exact h.known_setPhase _ c fun p hp => h.known c p (by rw [hold]; exact hp)
  · intro p
    change announcements (s.sent ++ [msg]) p ≤ 1 ∧ (0 < announcements (s.sent ++ [msg]) p → s.announced.contains p = true)
    rw [announcements_send]
    split_ifs with hp
    · obtain ⟨hann, hzero⟩ := h.held c p (hmine p hp)
      exact ⟨by omega, fun _ => hann⟩
    · exact h.once p
  · intro c' p hp
    obtain ⟨hc, hp⟩ := hheld c' p hp
    refine ⟨(h.held c' p hp).1, ?_⟩
    change announcements (s.sent ++ [msg]) p = 0
    rw [announcements_send, if_neg]
    · exact (h.held c' p hp).2
    · exact fun hmsg => hc (h.alone c' c p hp (hmine p hmsg))
  · exact fun c' c'' p hp hp' => h.alone c' c'' p (hheld c' p hp).2 (hheld c'' p hp').2
  · rintro p (hp | hp)
    · change 0 < announcements (s.sent ++ [msg]) p at hp
      rw [announcements_send] at hp
      split_ifs at hp with hmsg
      · exact h.groups p (.inr ⟨c, by rw [hold]; exact hmsg⟩)
      · exact h.groups p (.inl hp)
    · exact h.groups_setPhase False.elim hp
  · intro p hnew htried htwo
    change 0 < announcements (s.sent ++ [msg]) p ∨ _
    rw [announcements_send]
    rcases h.complete p hnew htried htwo with hpos | ⟨c', hwaits⟩
    · exact .inl (Nat.lt_of_lt_of_le hpos (Nat.le_add_right ..))
    by_cases hc : c' = c
    · rw [hc, hold] at hwaits
      rcases hwaits with hmsg | hqueued
      · have hmsg : msg.isSibling p = true := hmsg
        rw [if_pos hmsg]
        exact .inl (Nat.succ_pos _)
      · exact .inr ⟨c, .inr (by rw [Loops.setPhase_self]; exact hqueued)⟩
    · exact .inr ⟨c', by rw [Loops.setPhase_phase, if_neg hc]; exact hwaits⟩

/-! ## The store changes -/

/-- Storing keeps what is stored under a parent. -/
theorem Stores.chainCount_le {db db' : Database} {blocks : List StoredBlock} (h : Stores sha256d db db' blocks)
    (p : Hash32) :
    chainCount (storedUnder sha256d db p) ≤ chainCount (storedUnder sha256d db' p) := by
  refine chainCount_le_of_subset fun b hb => ⟨b, ?_, rfl⟩
  obtain ⟨⟨k, hk⟩, hp⟩ := (mem_storedUnder sha256d).1 hb
  exact (mem_storedUnder sha256d).2 ⟨⟨k, h.kept k b hk⟩, hp⟩

theorem Stores.confirmed {db db' : Database} {blocks : List StoredBlock} (h : Stores sha256d db db' blocks) {p : Hash32}
    (hp : Confirmed db' p) : Confirmed db p := by
  obtain ⟨sp, hsp, hstate⟩ := hp
  rcases h.parents p with hsame | ⟨-, sp', hsp', hzero⟩
  · exact ⟨sp, hsame ▸ hsp, hstate⟩
  · rw [hsp] at hsp'
    cases hsp'
    rw [hstate] at hzero
    cases hzero

/-- Blocks of one chain make a group whole only where there was one of another. -/
theorem Stores.whole {db db' : Database} {blocks : List StoredBlock} (h : Stores sha256d db db' blocks) {c : UInt32}
    (hc : ∀ b ∈ blocks, b.chain_id = c) {p : Hash32} (hbefore : ¬ 2 ≤ chainCount (storedUnder sha256d db p))
    (hafter : 2 ≤ chainCount (storedUnder sha256d db' p)) :
    ∃ b ∈ blocks, b.parentHash sha256d = some p ∧ ∃ b' ∈ storedUnder sha256d db p, b'.chain_id ≠ c := by
  obtain ⟨b, hb, b', hb', hne⟩ := two_le_chainCount.1 hafter
  have hin : ∀ b ∈ storedUnder sha256d db' p, b ∈ storedUnder sha256d db p ∨ b ∈ blocks ∧ b.parentHash sha256d = some p := by
    intro b hb
    obtain ⟨⟨k, hk⟩, hp⟩ := (mem_storedUnder sha256d).1 hb
    rcases h.rows k b hk with hold | hin
    · exact .inl ((mem_storedUnder sha256d).2 ⟨⟨k, hold⟩, hp⟩)
    · exact .inr ⟨hin, hp⟩
  rcases hin b hb with hold | ⟨hnew, hp⟩ <;> rcases hin b' hb' with hold' | ⟨hnew', hp'⟩
  · exact absurd (two_le_chainCount.2 ⟨b, hold, b', hold', hne⟩) hbefore
  · exact ⟨b', hnew', hp', b, hold, fun he => hne (he.trans (hc b' hnew').symm)⟩
  · exact ⟨b, hnew, hp, b', hold', fun he => hne ((hc b hnew).trans he.symm)⟩
  · exact absurd ((hc b hnew).trans (hc b' hnew').symm) hne

/-- Blocks come in, on time for every group that is not on its way. -/
theorem LoopsSound.stores (h : LoopsSound sha256d config db₁ s) {db' : Database} {blocks : List StoredBlock}
    (hstores : Stores sha256d s.db db' blocks) (htracked : Tracked config db') {c : UInt32} (hc : ∀ b ∈ blocks, b.chain_id = c)
    (hontime : ∀ b ∈ blocks, ∀ p, b.parentHash sha256d = some p → storedUnder sha256d db₁ p = [] →
      s.announced.contains p = true ∨ Confirmed s.db p → ¬ s.Waiting p →
      (∀ b' ∈ storedUnder sha256d s.db p, b'.chain_id = c) ∨ 2 ≤ chainCount (storedUnder sha256d s.db p)) :
    LoopsSound sha256d config db₁ { s with db := db' } where
  tracked := htracked
  listing := hstores.listing h.listing
  backed := by
    intro p hp
    change db'.redb.parent_blocks.get? p = none
    rw [hstores.table]
    rcases hstores.parents p with hsame | ⟨hnone, -⟩
    · exact h.backed p (hsame ▸ hp)
    · exact h.backed p hnone
  unprobed := by
    intro p sp hsp hzero
    change db'.cache_parents.get? p = some sp at hsp
    by_cases hsame : db'.cache_parents.get? p = s.db.cache_parents.get? p
    · exact (hstores.lists p).1 (h.unprobed p sp (hsame ▸ hsp) hzero)
    · exact (hstores.lists p).2 hsame
  known c' p hp := (hstores.lists p).1 (h.known c' p hp)
  once := h.once
  held := h.held
  alone := h.alone
  groups p hp := (h.groups p hp).trans (hstores.chainCount_le p)
  complete := by
    intro p hnew htried htwo
    have hbefore : s.announced.contains p = true ∨ Confirmed s.db p := htried.imp_right hstores.confirmed
    by_cases hwhole : 2 ≤ chainCount (storedUnder sha256d s.db p)
    · exact h.complete p hnew hbefore hwhole
    -- the group becomes whole, so it must be on its way
    refine .inr (by_contra fun hwaits => ?_)
    obtain ⟨b, hb, hp, b', hb', hne⟩ := hstores.whole hc hwhole htwo
    exact hne ((hontime b hb p hp hnew hbefore hwaits).resolve_right hwhole b' hb')

/-- What one answer of the explorer leaves alone. -/
theorem classifyParent_keeps (sha256d : Bytes → Hash32) {db : Database} (h : Opened db) (p : Hash32) (x : Option UInt64) :
    let db' := (db.classifyParent true p x).2
    Opened db' ∧ db'.ledger = db.ledger ∧ db'.cache_siblings = db.cache_siblings ∧ (Backed db → Backed db') := by
  obtain ⟨hopen, hledger⟩ := h.runStore sha256d (classifyOps_regular [(p, x)])
  refine ⟨hopen, hledger.trans (foldl_classifyOps [(p, x)] db.ledger), ?_⟩
  have hnone : ∀ q, (db.cache_parents.modify p (·.classified x)).get? q = none → db.cache_parents.get? q = none := by
    intro q hq
    rw [KMap.get?_modify] at hq
    split_ifs at hq with hqp
    · rw [hqp]
      exact Option.map_eq_none_iff.1 hq
    · exact hq
  unfold Backed
  rw [classifyParent_cache]
  unfold Database.classifyParent
  simp only [not_true, if_false]
  split
  · exact ⟨rfl, fun hb q hq => hb q (hnone q hq)⟩
  · rename_i sp hsp
    refine ⟨rfl, fun hb q hq => ?_⟩
    simp only [KMap.get?_insert]
    split_ifs with hqp
    · rw [hqp] at hq
      exact absurd (hq.symm.trans hsp) (by simp)
    · exact hb q (hnone q hq)

/-- An answer is recorded; a parent it puts on mainnet is queued already. -/
theorem LoopsSound.classified (h : LoopsSound sha256d config db₁ s) {parent : Hash32} {x : Option UInt64}
    (hqueued : x.isSome = true → ∃ c, parent ∈ (s.phase c).queued) :
    LoopsSound sha256d config db₁ { s with db := (s.db.classifyParent true parent x).2 } := by
  obtain ⟨hopen, hledger, hsiblings, hbacked⟩ := classifyParent_keeps sha256d h.tracked.opened parent x
  have hcache := classifyParent_cache true s.db parent x
  generalize (s.db.classifyParent true parent x).2 = db' at *
  have hunder : ∀ p, storedUnder sha256d db' p = storedUnder sha256d s.db p := by
    intro p
    unfold storedUnder
    rw [show db'.redb.aux_blocks = s.db.redb.aux_blocks from congrArg Ledger.blocks hledger]
  have hlists : ∀ p, HasList s.db p → HasList db' p := by
    intro p hp
    unfold HasList
    rw [hsiblings]
    exact hp
  refine ⟨⟨hopen, ?_⟩, ?_, hbacked h.backed, ?_, fun c p hp => hlists p (h.known c p hp), h.once, h.held, h.alone, ?_, ?_⟩
  · intro chain hchain
    rw [show ({ s with db := db' } : Loops).db.ledger = s.db.ledger from hledger]
    exact h.tracked.tracks chain hchain
  · refine ⟨?_, fun p => ?_⟩
    · rw [show ({ s with db := db' } : Loops).db.redb.aux_blocks = s.db.redb.aux_blocks from congrArg Ledger.blocks hledger]
      exact h.listing.keyed
    · rw [hunder]
      unfold Database.siblings
      rw [hsiblings]
      exact h.listing.listed p
  · intro p sp hsp hzero
    change db'.cache_parents.get? p = some sp at hsp
    rw [hcache, KMap.get?_modify] at hsp
    split_ifs at hsp
    · -- an answered parent is not unprobed
      obtain ⟨sp₀, -, rfl⟩ := Option.map_eq_some_iff.1 hsp
      cases x <;> simp [StoredParent.classified] at hzero
    · exact hlists p (h.unprobed p sp hsp hzero)
  · intro p hp
    rw [hunder]
    exact h.groups p hp
  · intro p hnew htried htwo
    rw [hunder] at htwo
    rcases htried with hann | ⟨sp, hsp, hone⟩
    · exact h.complete p hnew (.inl hann) htwo
    change db'.cache_parents.get? p = some sp at hsp
    rw [hcache, KMap.get?_modify] at hsp
    split_ifs at hsp with hp
    · obtain ⟨sp₀, -, rfl⟩ := Option.map_eq_some_iff.1 hsp
      cases x with
      | none => simp [StoredParent.classified] at hone
      | some ltc_height =>
        obtain ⟨c, hin⟩ := hqueued rfl
        cases hann : s.announced.contains p with
        | true => exact h.complete p hnew (.inl hann) htwo
        | false => exact .inr ⟨c, .inr ⟨hp ▸ hin, hann⟩⟩
    · exact h.complete p hnew (.inr ⟨sp, hsp, hone⟩) htwo

/-! ## Each piece of a tick -/

section Pieces
variable {step : LoopStep}

theorem LoopsSound.store (h : LoopsSound sha256d config db₁ s) (hphase : s.phase step.chain.chain_id = .idle)
    (hplain : step.Plain w sha256d config s) (hontime : step.OnTime w sha256d config db₁ s) :
    LoopsSound sha256d config db₁ (step.run w sha256d true config s) := by
  unfold LoopStep.Plain at hplain
  unfold LoopStep.OnTime at hontime
  unfold LoopStep.run
  simp only [hphase] at hplain hontime ⊢
  obtain ⟨hchain, ht, hu⟩ := hplain
  obtain ⟨blocks, hstores, hblocks⟩ := storeChain_stores h.tracked hchain ht hu
  -- the tick that finds no parent to classify
  have htracked : Tracked config (storeChain w sha256d config step.chain step.t s.db).2 := by
    have hstep := @Tracked.step config w sha256d s.db (.tick step.chain { step.t with iter := fun _ => [] }) h.tracked
      ⟨hchain, ht⟩
    have hsame : storeChain w sha256d config step.chain { step.t with iter := fun _ => [] } s.db =
        storeChain w sha256d config step.chain step.t s.db := rfl
    simp only [IngestOp.run] at hstep
    rw [ingestChain_eq, hsame] at hstep
    generalize storeChain w sha256d config step.chain step.t s.db = r at hstep
    obtain ⟨e | _ | pending, db⟩ := r <;> exact hstep
  have hstored := h.stores hstores htracked (fun b hb => (hblocks b hb).1)
    (fun b hb p => hontime b p (hblocks b hb).2)
  generalize storeChain w sha256d config step.chain step.t s.db = r at hstored
  have hnone : ∀ p, ¬ TaskPhase.idle.Waits s.announced p := fun p hp => hp.elim id fun hq => List.not_mem_nil hq.1
  obtain ⟨e | _ | pending, db⟩ := r
  · exact hstored.move hphase _ (by simp [TaskPhase.parents]) (fun p => id) (fun p hp => hp.elim) (fun p _ _ => id)
  · exact hstored.move hphase _ (by simp [TaskPhase.parents]) (fun p => id) (fun p hp => hp.elim) (fun p _ _ => id)
  · exact hstored.move hphase _ (by simp [TaskPhase.parents]) (fun p hp => hp.elim) (fun p hp => hp.elim)
      (fun p _ _ hp => absurd hp (hnone p))

theorem LoopsSound.record (h : LoopsSound sha256d config db₁ s) {blocks : List StoredBlock} {parent : Hash32}
    {ltc_height : Option UInt64} {answers : List (Hash32 × Option UInt64)} {new_mainnet : List Hash32}
    (hphase : s.phase step.chain.chain_id = .classifying blocks ((parent, ltc_height) :: answers) new_mainnet)
    (hplain : step.Plain w sha256d config s) : LoopsSound sha256d config db₁ (step.run w sha256d true config s) := by
  unfold LoopStep.Plain at hplain
  unfold LoopStep.run
  simp only [hphase] at hplain ⊢
  have hok : s.db.classifyParent true parent ltc_height = (.ok (), (s.db.classifyParent true parent ltc_height).2) :=
    Prod.ext (classifyParent_fst true s.db parent ltc_height) rfl
  rw [hplain]
  simp only [Commits.all]
  rw [hok]
  -- the parent is queued before the answer is recorded
  generalize hqueue : (if ltc_height.isSome then new_mainnet ++ [parent] else new_mainnet) = queue
  have hkeep : ∀ p ∈ new_mainnet, p ∈ queue := by
    intro p hp
    rw [← hqueue]
    split_ifs
    · exact List.mem_append_left _ hp
    · exact hp
  have hmoved := h.move hphase (.classifying blocks answers queue) ?_ (fun p hp => hp.elim) (fun p hp => hp.elim)
    (fun p _ _ hp => hp.imp False.elim fun hq => ⟨hkeep p hq.1, hq.2⟩)
  · refine hmoved.classified fun hhit => ⟨step.chain.chain_id, ?_⟩
    rw [Loops.setPhase_self]
    subst hqueue
    rw [if_pos hhit]
    exact List.mem_append_right _ (List.mem_singleton_self parent)
  · intro p hp
    refine h.known step.chain.chain_id p ?_
    rw [hphase]
    rcases List.mem_append.1 hp with hanswer | hp
    · exact List.mem_append_left _ (List.mem_cons_of_mem _ hanswer)
    · subst hqueue
      split_ifs at hp
      · rcases List.mem_append.1 hp with hp | hp
        · exact List.mem_append_right _ hp
        · rw [List.mem_singleton.1 hp]
          exact List.mem_append_left _ List.mem_cons_self
      · exact List.mem_append_right _ hp

/-- A group is announced when the parent is looked up in time and has blocks of two
chains. -/
theorem LoopsSound.lookUp (h : LoopsSound sha256d config db₁ s) {parent : Hash32} {parents : List Hash32}
    (hphase : s.phase step.chain.chain_id = .trying parent parents) (hontime : step.OnTime w sha256d config db₁ s) :
    LoopsSound sha256d config db₁ (step.run w sha256d true config s) := by
  unfold LoopStep.OnTime at hontime
  unfold LoopStep.run
  simp only [hphase, h.backed.getParent] at hontime ⊢
  have hknown : ∀ p ∈ parent :: parents, HasList s.db p := by
    intro p hp
    refine h.known step.chain.chain_id p ?_
    rw [hphase]
    exact hp
  cases hltc : (s.db.cache_parents.get? parent).bind (·.ltc_height) with
  | none =>
    refine h.move hphase _ (fun p hp => hknown p (List.mem_cons_of_mem _ hp)) (fun p hp => hp.elim) (fun p hp => hp.elim) ?_
    rintro p hnew - (rfl | hqueued)
    · -- a new parent is on mainnet still
      obtain ⟨sp, ltc_height, hsp, -, hheight⟩ := hontime hnew
      rw [hsp, Option.bind_some, hheight] at hltc
      cases hltc
    · exact .inr hqueued
  | some ltc_height => exact h.move hphase _ hknown (fun p hp => hp) (fun p hp => hp.elim) (fun p _ _ hp => hp)

theorem LoopsSound.count (h : LoopsSound sha256d config db₁ s) {parent : Hash32} {ltc_height : UInt64}
    {parents : List Hash32} (hphase : s.phase step.chain.chain_id = .counting parent ltc_height parents) :
    LoopsSound sha256d config db₁ (step.run w sha256d true config s) := by
  unfold LoopStep.run
  simp only [hphase]
  have hknown : ∀ p ∈ parent :: parents, HasList s.db p := by
    intro p hp
    refine h.known step.chain.chain_id p ?_
    rw [hphase]
    exact hp
  have hmsg := h.listing.groupMessage (hknown parent List.mem_cons_self) ltc_height
  have hrest : ∀ p ∈ parents, HasList s.db p := fun p hp => hknown p (List.mem_cons_of_mem _ hp)
  split_ifs at hmsg with htwo
  · obtain ⟨legs, hmsg⟩ := hmsg
    rw [hmsg]
    have hsibling : ∀ p, (Announcement.sibling (hashDisplay parent) ltc_height legs).isSibling p = true ↔ parent = p := by
      intro p
      rw [Announcement.isSibling, decide_eq_true_eq, hashDisplay_inj]
    refine h.move hphase _ hrest (fun p hp => (hsibling p).1 hp) ?_ ?_
    · intro p hp
      rw [← (hsibling p).1 hp]
      exact htwo
    · exact fun p _ _ hp => hp.imp_left (hsibling p).2
  · rw [hmsg]
    refine h.move hphase _ hrest (fun p hp => hp.elim) (fun p hp => hp.elim) ?_
    rintro p - hcount (rfl | hqueued)
    · exact absurd hcount htwo
    · exact .inr hqueued

theorem LoopsSound.run (h : LoopsSound sha256d config db₁ s) (hplain : step.Plain w sha256d config s)
    (hontime : step.OnTime w sha256d config db₁ s) : LoopsSound sha256d config db₁ (step.run w sha256d true config s) := by
  have hknown := h.known step.chain.chain_id
  cases hphase : s.phase step.chain.chain_id with
  | idle => exact h.store hphase hplain hontime
  | stored blocks =>
    unfold LoopStep.Plain at hplain
    unfold LoopStep.run
    simp only [hphase] at hplain ⊢
    refine h.move hphase _ (fun p hp => ?_) (fun p hp => hp.elim) (fun p hp => hp.elim) ?_
    · obtain ⟨sp, hsp, hzero⟩ := (mem_unclassifiedParents hplain).1 hp
      exact h.unprobed p sp hsp hzero
    · exact fun p _ _ hp => hp.imp id fun hq => absurd hq.1 List.not_mem_nil
  | resolving blocks parents =>
    rw [hphase] at hknown
    unfold LoopStep.run
    simp only [hphase]
    refine h.move hphase _ (fun p hp => hknown p ?_) (fun p hp => hp.elim) (fun p hp => hp.elim) ?_
    · simpa [TaskPhase.parents, List.map_map, Function.comp_def] using hp
    · exact fun p _ _ hp => hp.imp id fun hq => absurd hq.1 List.not_mem_nil
  | classifying blocks answers new_mainnet =>
    cases answers with
    | cons answer answers => exact h.record hphase hplain
    | nil =>
      rw [hphase] at hknown
      unfold LoopStep.run
      simp only [hphase]
      obtain ⟨hsame, hheader⟩ := @tipMessage_frame sha256d s.db h.backed step.chain blocks
      generalize tipMessage sha256d s.db step.chain blocks = r at hsame hheader
      obtain ⟨msg, db⟩ := r
      obtain rfl : db = s.db := hsame
      have hnot : ∀ p m, msg = some m → ¬ (TaskPhase.sending m new_mainnet).Sends p := by
        intro p m hm hp
        rw [TaskPhase.Sends, hheader m hm p] at hp
        cases hp
      cases msg with
      | none => exact h.move hphase _ hknown (fun p hp => hp.elim) (fun p hp => hp.elim) (fun p _ _ hp => hp)
      | some m =>
        exact h.move hphase _ hknown (fun p hp => absurd hp (hnot p m rfl)) (fun p hp => absurd hp (hnot p m rfl))
          (fun p _ _ hp => hp.imp False.elim id)
  | sending msg parents =>
    unfold LoopStep.run
    simp only [hphase]
    exact h.send hphase
  | announcing parents =>
    rw [hphase] at hknown
    unfold LoopStep.run
    simp only [hphase]
    cases parents with
    | nil => exact h.move hphase _ hknown (fun p => id) (fun p hp => hp.elim) (fun p _ _ => id)
    | cons parent parents =>
      simp only [not_true, false_or]
      split_ifs with htried
      · refine h.move hphase _ (fun p hp => hknown p (List.mem_cons_of_mem _ hp)) (fun p => id) (fun p hp => hp.elim) ?_
        rintro p - - (hp | ⟨hqueued, hnot⟩)
        · exact hp.elim
        · rcases List.mem_cons.1 hqueued with rfl | hqueued
          · rw [htried] at hnot
            cases hnot
          · exact .inr ⟨hqueued, hnot⟩
      · exact h.take hphase (Bool.eq_false_iff.2 htried)
  | trying parent parents => exact h.lookUp hphase hontime
  | counting parent ltc_height parents => exact h.count hphase

end Pieces

/-! ## The start of a process -/

/-- No unprobed parent is on disk. -/
def Probed (db : Database) : Prop := ∀ p sp, db.redb.parent_blocks.get? p = some sp → sp.parent_state ≠ 0

theorem openDb_warm {r : Redb} {db : Database} (h : openDb sha256d r = .ok db) :
    db = warmUpCache sha256d db.redb ∧ db.redb.parent_blocks = r.parent_blocks := by
  unfold openDb Redb.gate at h
  split at h
  · split_ifs at h
    · cases h
      exact ⟨rfl, rfl⟩
    · cases h
  · cases h
    exact ⟨rfl, rfl⟩

theorem Probed.run {db : Database} (h : Probed db) {op : StoreOp} (hop : op.Regular) : Probed (op.run sha256d db) := by
  have hother : op.Other → Probed (op.run sha256d db) := by
    intro hop p sp hsp
    rcases (hop.parents db p).2 with hsame | hnone
    · exact h p sp (hsame ▸ hsp)
    · rw [hnone] at hsp
      cases hsp
  cases op with
  | classifyParent q x =>
    intro p sp hsp
    simp only [StoreOp.run] at hsp
    have hcache := classifyParent_cache true db q x
    unfold Database.classifyParent at hsp
    simp only [not_true, if_false] at hsp
    split at hsp
    · exact h p sp hsp
    · rename_i sq hsq
      rw [KMap.get?_insert] at hsp
      split_ifs at hsp
      · -- the record that is written is the one just classified
        cases hsp
        rw [KMap.get?_modify, if_pos rfl] at hsq
        obtain ⟨sp₀, -, rfl⟩ := Option.map_eq_some_iff.1 hsq
        cases x <;> simp
      · exact h p sp hsp
  | reopen =>
    change Probed ((openDb sha256d db.redb).toOption.getD db)
    cases ho : openDb sha256d db.redb with
    | error e => exact h
    | ok db' =>
      intro p sp hsp
      refine h p sp ?_
      rw [← (openDb_warm ho).2]
      exact hsp
  | insertBlocks rows => exact hother hop
  | rollbackFrom c from_height => exact hother hop
  | pruneBefore c below => exact hother hop
  | setCursorHeight c hh => exact hother hop
  | upsertChain c name electrs => exact hother hop

theorem Probed.runStore {db : Database} (h : Probed db) {ops : List StoreOp} (hops : ∀ op ∈ ops, op.Regular) :
    Probed (runStore sha256d db ops) := by
  induction ops generalizing db with
  | nil => exact h
  | cons op ops ih =>
    obtain ⟨hop, hops⟩ := List.forall_mem_cons.1 hops
    exact ih (h.run hop) hops

theorem Probed.step {db : Database} (h : Probed db) (hopen : Opened db) {op : IngestOp} (hop : op.Committed config) :
    Probed (op.run w sha256d config db) := by
  cases op with
  | restart => exact @Probed.run sha256d db h .reopen trivial
  | tick chain t =>
    obtain ⟨-, ht⟩ := hop
    have hregistered : Probed (registered sha256d chain db) := h.run trivial
    obtain ⟨hopen', hledger⟩ := hopen.registered sha256d chain
    simp only [IngestOp.run]
    rcases idle_or_fetches config t (db.ledger.cursorFrom config chain) with hidle | ⟨cur, fetched, hf⟩
    · rw [(ingestChain_idle sha256d hopen (upsertChain_all sha256d ht hopen chain) hidle).1]
      exact hregistered
    · obtain ⟨below, hbelow, -, heq⟩ := @ingestFetched_all sha256d w config chain t ht _ hopen' cur fetched
      rw [ingestChain_fetches sha256d hopen (upsertChain_all sha256d ht hopen chain) hf, heq]
      have hver := (@walk_spec w sha256d chain ((registered sha256d chain db).ledger.prevHash chain.chain_id cur) fetched).1
      refine (hregistered.runStore (tickOps_regular hver _ hbelow)).runStore ?_
      intro op hop
      obtain ⟨a, -, rfl⟩ := List.mem_map.1 hop
      trivial

/-- A process that has just opened its store. -/
def Loops.start (db : Database) : Loops := ⟨⟨db, .empty, []⟩, fun _ => .idle⟩

variable (w sha256d)

end Sha

/-! ## Two chains under one parent -/

/-- The first header of a chain. -/
def legRaw (chain_id : UInt32) : Bytes :=
  leU32 (chain_id * 65536 + 1) ++ List.replicate 68 0 ++ leU32 CHAIN_POW_LIMIT_BITS ++ List.replicate 4 0

def legId₆₃ : Hash32 :=
  ⟨[0x4c, 0x57, 0x44, 0x8d, 0x67, 0xac, 0x7d, 0xdb, 0x0a, 0xaf, 0x0b, 0x36, 0xfb, 0x6a, 0xbf, 0xff,
    0x55, 0xff, 0x58, 0x51, 0xe5, 0x53, 0xc7, 0xb9, 0xd7, 0xa6, 0x0d, 0x5b, 0x8d, 0x29, 0xcb, 0x3d], rfl⟩

def legId₅₀ : Hash32 :=
  ⟨[0x2c, 0xd2, 0x9f, 0x3d, 0x76, 0xd9, 0xe8, 0xac, 0xee, 0x07, 0x1b, 0x50, 0x0a, 0x61, 0x31, 0xba,
    0xc3, 0x5d, 0xcb, 0xb7, 0xef, 0xd7, 0x9e, 0x36, 0xd5, 0xaa, 0x30, 0x1b, 0x50, 0x82, 0x2c, 0x42], rfl⟩

def legsRoot : Hash32 :=
  ⟨[0x6a, 0xc7, 0xc9, 0xdb, 0x0a, 0x65, 0xfb, 0xb3, 0x79, 0xa1, 0xa8, 0x76, 0xeb, 0x7b, 0xc7, 0x80,
    0x0e, 0x06, 0xe2, 0xb7, 0x7a, 0x55, 0xfd, 0x7c, 0x6e, 0x17, 0xf6, 0x07, 0xc6, 0x28, 0xd8, 0x21], rfl⟩

def legsTxid : Hash32 :=
  ⟨[0x90, 0x3c, 0x09, 0x82, 0xe1, 0xdd, 0x46, 0xb4, 0xbe, 0x30, 0x35, 0xe6, 0x03, 0x36, 0x82, 0x9c,
    0x3d, 0x1d, 0xb1, 0x0b, 0xdc, 0x65, 0xdf, 0x89, 0x31, 0xcc, 0xc7, 0xb9, 0xa1, 0xb0, 0xe1, 0x53], rfl⟩

def legsParentId : Hash32 :=
  ⟨[0x8c, 0xf5, 0xcc, 0x19, 0xc7, 0x37, 0xc0, 0x70, 0x82, 0xcc, 0x7d, 0x5e, 0x6b, 0xe1, 0x4a, 0xfa,
    0xf6, 0xf2, 0xdc, 0xf9, 0x74, 0x9c, 0x5c, 0x3d, 0xbf, 0x9a, 0xb5, 0xd0, 0x7a, 0x61, 0x00, 0x25], rfl⟩

/-- A coinbase that commits both headers, in a tree of two. -/
def legsCoinbase : Bytes :=
  leU32 1 ++ [1] ++ List.replicate 32 0 ++ List.replicate 4 0xff ++ [44] ++ AUXPOW_MAGIC ++ legsRoot.reverse.val ++
    leU32 2 ++ leU32 0 ++ List.replicate 4 0xff ++ [0] ++ leU32 0

/-- Double-SHA256 on the strings the two blocks hash, zero elsewhere. -/
def legsSha (b : Bytes) : Hash32 :=
  if b = legRaw 63 then legId₆₃
  else if b = legRaw 50 then legId₅₀
  else if b = legId₅₀.val ++ legId₆₃.val then legsRoot
  else if b = legsCoinbase then legsTxid
  else if b = sampleParent legsTxid then legsParentId
  else ByteArr.fill 32 0

/-- The payload of a header at a slot of the tree, next to the other one. -/
def legWire (chain_id slot : UInt32) (sibling : Hash32) : Bytes :=
  legRaw chain_id ++ legsCoinbase ++ List.replicate 32 0 ++ [0] ++ leU32 0 ++ [1] ++ sibling.val ++ leU32 slot ++
    sampleParent legsTxid

def legChain (chain_id : UInt32) : AuxChain :=
  ⟨chain_id, "chain", "https://junk-api.s3na.xyz", CHAIN_POW_LIMIT_BITS, some 0⟩

def legsConfig : Config := ⟨[legChain 63, legChain 50], 64, none, none, by decide, sampleBatch_pos⟩

/-- An endpoint with the first block of its chain, and an explorer that knows the
parent. -/
def legTick (id : Hash32) (wire : Bytes) : Tick where
  electrs := ⟨some 1, fun _ => some (hashDisplay id), fun _ _ => some wire⟩
  resolver := sampleResolver
  net p _ _ := .response 200 (some ⟨hashDisplay p, 7⟩)
  iter l := l
  commits := .all

def legTick₆₃ : Tick := legTick legId₆₃ (legWire 63 1 legId₅₀)

def legTick₅₀ : Tick := legTick legId₅₀ (legWire 50 0 legId₆₃)

/-- A tick of one of the two loops, from its start height. -/
def LoopStep.fresh (s : Loops) (step : LoopStep) : Bool :=
  match s.phase step.chain.chain_id with
  | .idle => step.chain ∈ legsConfig.chains ∧ s.db.ledger.cursorFrom legsConfig step.chain = some 0
  | _ => true

end PsobIndexer
