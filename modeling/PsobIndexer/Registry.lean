import PsobIndexer.Node
import PsobIndexer.OrderBounds
/-!
# The chains a node knows (`chain_registry` of `src/db.rs`)

Intents are checked against the chains in the registry, and all that a tick does to it
is to register its chain. So the order book comes out as if the ticks did nothing
else, and whatever is in it trades two chains that were registered before.
-/
open Lib

namespace PsobIndexer

open Database

/-! ## The registry -/

/-- The metadata that the checks of the book and the gate of a restart read. -/
def RegistryKey (key : String) : Prop := key = META_SCHEMA_VERSION ∨ ∃ v r, registryRow (key, v) = some r

theorem registryRow_chainKey (c : UInt32) (v : String) :
    registryRow (chainKey c, v) = some (c, (splitOnce '|' v).1, (splitOnce '|' v).2) := by
  have hstrip : stripPrefix "chain." (chainKey c) = some (toString c.toNat) := by
    have hlist : (chainKey c).toList = "chain.".toList ++ (toString c.toNat).toList := String.toList_append
    have hlen : "chain.".length = "chain.".toList.length := rfl
    unfold stripPrefix
    rw [hlist, if_pos (List.isPrefixOf_iff_prefix.2 (List.prefix_append _ _)), hlen, List.drop_left, String.ofList_toList]
  unfold registryRow
  simp only [hstrip, parseDec_repr c.toNat_lt, Option.bind_eq_bind, Option.bind_some, UInt32.ofNat_toNat]
  rfl

theorem registryKey_chainKey (c : UInt32) : RegistryKey (chainKey c) := .inr ⟨"", _, registryRow_chainKey c ""⟩

/-- A cursor is no chain: its key starts with a digit. -/
theorem not_registryKey_cursorKey (c : UInt32) : ¬ RegistryKey (cursorKey c) := by
  rintro (hschema | ⟨v, r, hr⟩)
  · exact schema_ne_cursorKey c hschema.symm
  · obtain ⟨id, hid, -⟩ := Option.bind_eq_some_iff.1 hr
    unfold stripPrefix at hid
    split_ifs at hid with hpre
    obtain ⟨rest, hrest⟩ := List.isPrefixOf_iff_prefix.1 hpre
    have hlist : (cursorKey c).toList = (toString c.toNat).toList ++ ".cursor_height".toList := String.toList_append
    have hdigits : (toString c.toNat).toList = Nat.toDigits 10 c.toNat := by
      rw [Nat.toString_eq_repr, Nat.toList_repr]
    rw [hlist, hdigits] at hrest
    cases hd : Nat.toDigits 10 c.toNat with
    | nil => exact Nat.toDigits_ne_nil hd
    | cons x xs =>
      rw [hd] at hrest
      have hx : x = 'c' := (List.cons.inj hrest).1.symm
      have hdigit : Char.isDigit x = true := Nat.isDigit_of_mem_toDigits (by decide) (by decide) (hd ▸ List.mem_cons_self)
      rw [hx] at hdigit
      exact absurd hdigit (by decide)

/-- Stores of one registry. -/
structure SameRegistry (db db' : Database) : Prop where
  metadata : ∀ key, RegistryKey key → db'.redb.metadata.get? key = db.redb.metadata.get? key
  cached : ∀ key, RegistryKey key → db'.cache_meta.get? key = db.cache_meta.get? key

theorem SameRegistry.of_eq {db db' : Database} (hmeta : db'.redb.metadata = db.redb.metadata)
    (hcache : db'.cache_meta = db.cache_meta) : SameRegistry db db' :=
  ⟨fun _ _ => by rw [hmeta], fun _ _ => by rw [hcache]⟩

theorem SameRegistry.refl (db : Database) : SameRegistry db db := .of_eq rfl rfl

theorem SameRegistry.trans {db db' db'' : Database} (h : SameRegistry db db') (h' : SameRegistry db' db'') :
    SameRegistry db db'' :=
  ⟨fun k hk => (h'.metadata k hk).trans (h.metadata k hk), fun k hk => (h'.cached k hk).trans (h.cached k hk)⟩

/-- The chains that a store knows: a cached key names one. -/
theorem mem_chainRegistry {iter : List (String × String) → List (String × String)} (hiter : ∀ l, (iter l).Perm l)
    {db : Database} {c : UInt32} :
    c ∈ (db.chainRegistry iter).map Prod.fst ↔
      ∃ key v r, db.cache_meta.get? key = some v ∧ registryRow (key, v) = some r ∧ r.1 = c := by
  simp only [chainRegistry, List.mem_map, List.mem_filterMap, (hiter _).mem_iff, KMap.mem_entries, Prod.exists]
  constructor
  · rintro ⟨c', name, url, ⟨key, v, hget, hrow⟩, rfl⟩
    exact ⟨key, v, _, name, url, hget, hrow, rfl⟩
  · rintro ⟨key, v, c', name, url, hget, hrow, rfl⟩
    exact ⟨c', name, url, ⟨key, v, hget, hrow⟩, rfl⟩

theorem SameRegistry.mem_iff {db db' : Database} (h : SameRegistry db db')
    {iter : List (String × String) → List (String × String)} (hiter : ∀ l, (iter l).Perm l) {c : UInt32} :
    c ∈ (db'.chainRegistry iter).map Prod.fst ↔ c ∈ (db.chainRegistry iter).map Prod.fst := by
  rw [mem_chainRegistry hiter, mem_chainRegistry hiter]
  refine exists_congr fun key => exists_congr fun v => exists_congr fun r => ?_
  refine ⟨fun ⟨hget, hrow, hc⟩ => ⟨?_, hrow, hc⟩, fun ⟨hget, hrow, hc⟩ => ⟨?_, hrow, hc⟩⟩
  · rw [← hget, h.cached key (.inr ⟨v, r, hrow⟩)]
  · rw [← hget, h.cached key (.inr ⟨v, r, hrow⟩)]

/-- The verdict on an intent depends on the registry only. -/
theorem SameRegistry.checkIntent {db db' : Database} (h : SameRegistry db db') (S : SigScheme) (enforce : Bool)
    {iter : List (String × String) → List (String × String)} (hiter : ∀ l, (iter l).Perm l) (now : UInt64)
    (intent : SwapIntentMessage) :
    checkIntent S enforce iter now db' intent = checkIntent S enforce iter now db intent := by
  unfold PsobIndexer.checkIntent validateSwapIntent
  simp only [h.mem_iff hiter]

section Sha
variable {w : Nat} {sha256d : Bytes → Hash32}

theorem getMeta_registry {key : String} (hkey : ¬ RegistryKey key) (db : Database) :
    SameRegistry db (db.getMeta key).2 := by
  unfold getMeta
  split
  · exact .refl db
  · split
    · refine ⟨fun _ _ => rfl, fun k hk => ?_⟩
      rw [KMap.get?_insert, if_neg]
      rintro rfl
      exact hkey hk
    · exact .refl db

theorem setMeta_registry {key : String} (hkey : ¬ RegistryKey key) (commit : Bool) (db : Database) (value : String) :
    SameRegistry db (db.setMeta commit key value).2 := by
  have hset : ∀ (m : KMap String String) (k : String), RegistryKey k → (m.insert key value).get? k = m.get? k := by
    intro m k hk
    rw [KMap.get?_insert, if_neg]
    rintro rfl
    exact hkey hk
  cases commit with
  | false => exact ⟨fun _ _ => rfl, fun k hk => hset _ k hk⟩
  | true => exact ⟨fun k hk => hset _ k hk, fun k hk => hset _ k hk⟩

theorem rollbackStale_registry (commits : Commits) (chain_id : UInt32) (db : Database) (stale : Option UInt64) :
    SameRegistry db (rollbackStale sha256d commits db chain_id stale).2 := by
  have hkey := not_registryKey_cursorKey chain_id
  have hrewind : ∀ (commit : Bool) (db : Database) (from_height : UInt64),
      SameRegistry db (db.rewindCursor commit chain_id from_height).2 := by
    intro commit db from_height
    unfold rewindCursor
    simp only
    split
    · exact getMeta_registry hkey db
    · split_ifs
      · exact (getMeta_registry hkey db).trans (setMeta_registry hkey _ _ _)
      · exact getMeta_registry hkey db
  have hroll : ∀ (commit : Bool) (from_height : UInt64), SameRegistry db
      (db.rollbackFrom sha256d commit commits.rollback_parents commits.rewind chain_id from_height).2 := by
    intro commit from_height
    cases commit with
    | false => exact .refl db
    | true =>
      rw [rollbackFrom_eq]
      have hmeta : SameRegistry db (afterRollback sha256d commits.rollback_parents chain_id from_height db) := .of_eq rfl rfl
      have hcursor := hmeta.trans (hrewind commits.rewind _ from_height)
      split <;> rename_i hr <;> rw [hr] at hcursor <;> exact hcursor
  unfold rollbackStale
  split
  · exact .refl db
  · rename_i s
    have hs := hroll commits.rollback s
    split <;> rename_i hr <;> rw [hr] at hs <;> exact hs

theorem storePending_registry (config : Config) (commits : Commits) (chain_id : UInt32) (db : Database)
    {pending : List StoredBlock} (hw : ∀ row ∈ rowsOf pending, Witnessed row) :
    SameRegistry db (storePending sha256d config commits db chain_id pending).2 := by
  have hprune : ∀ (db : Database) (last : UInt64),
      SameRegistry db (pruneWindow sha256d config commits db chain_id last).2 := by
    intro db last
    unfold pruneWindow pruneBefore
    cases config.max_kept_blocks with
    | none => exact .refl db
    | some max_kept =>
      simp only
      split_ifs <;> first | exact .refl db | exact .of_eq rfl rfl
  unfold storePending
  cases hlast : pending.getLast? with
  | none => exact .refl db
  | some last =>
    have hne : rowsOf pending ≠ [] := by
      rintro hnil
      rw [List.map_eq_nil_iff.1 hnil] at hlast
      cases hlast
    obtain ⟨-, -, -, hmeta, hcache⟩ := @insertBlocks_witnessed sha256d commits.insert db _ hne hw
    have hinsert : SameRegistry db (db.insertBlocks sha256d commits.insert (rowsOf pending)).2 := .of_eq hmeta hcache
    simp only
    generalize db.insertBlocks sha256d commits.insert (rowsOf pending) = r at hinsert ⊢
    obtain ⟨r, d⟩ := r
    cases r with
    | error e => exact hinsert
    | ok u =>
      have hcursor := hinsert.trans
        (setMeta_registry (not_registryKey_cursorKey chain_id) commits.cursor d (toString last.height))
      change SameRegistry db (d.setCursorHeight commits.cursor chain_id last.height).2 at hcursor
      simp only
      generalize d.setCursorHeight commits.cursor chain_id last.height = r at hcursor ⊢
      obtain ⟨r, d⟩ := r
      cases r with
      | error e => exact hcursor
      | ok u => exact hcursor.trans (hprune d last.height)

theorem classifyPendingParents_registry (t : Tick) (db : Database) :
    SameRegistry db (classifyPendingParents t.resolver t.net t.commits.classify t.iter db).2 := by
  have hparent : ∀ (commit : Bool) (db : Database) (p : Hash32) (ltc_height : Option UInt64),
      SameRegistry db (db.classifyParent commit p ltc_height).2 := by
    intro commit db p ltc_height
    unfold classifyParent
    cases commit with
    | false => exact .of_eq rfl rfl
    | true =>
      simp only [not_true, if_false]
      split <;> exact .of_eq rfl rfl
  have hloop : ∀ (results : List (Hash32 × Option UInt64)) (db : Database),
      SameRegistry db (classifyLoop t.commits.classify db results).2 := by
    intro results
    induction results with
    | nil => exact fun db => .refl db
    | cons e results ih =>
      intro db
      rw [classifyLoop_cons]
      split_ifs
      · exact (hparent true db e.1 e.2).trans (ih _)
      · exact hparent false db e.1 e.2
  unfold classifyPendingParents
  simp only
  split_ifs
  · exact .refl db
  · exact hloop _ db

/-- What a tick does to the registry is to register its chain. -/
theorem ingestChain_registry (config : Config) (chain : AuxChain) (t : Tick) (db : Database) :
    SameRegistry (db.upsertChain t.commits.upsert chain.chain_id chain.name chain.electrs).2
      (ingestChain w sha256d config chain t db).2 := by
  have hkey := not_registryKey_cursorKey chain.chain_id
  have hfetched : ∀ (db : Database) (cursor : UInt64) (fetched : List Fetched),
      SameRegistry db (ingestFetched w sha256d config chain t db cursor fetched).2 := by
    intro db cursor fetched
    have hprev : SameRegistry db (prevHashAt db chain.chain_id cursor).2 := by
      unfold prevHashAt blockAt
      split_ifs
      · exact .refl db
      · simp only
        split
        · exact .refl db
        · split <;> exact .of_eq rfl rfl
    unfold ingestFetched
    refine hprev.trans ?_
    generalize prevHashAt db chain.chain_id cursor = start
    obtain ⟨prev_hash, d⟩ := start
    have hrows := @rowsOf_walk w sha256d chain prev_hash fetched
    simp only
    generalize walk w sha256d chain prev_hash fetched = r at hrows ⊢
    obtain ⟨pending, stale⟩ := r
    refine (@rollbackStale_registry sha256d t.commits chain.chain_id d stale).trans ?_
    simp only
    generalize rollbackStale sha256d t.commits d chain.chain_id stale = r
    obtain ⟨r, d⟩ := r
    cases r with
    | error e => exact .refl d
    | ok u =>
      have hstored := @storePending_registry sha256d config t.commits chain.chain_id d pending fun row hr => (hrows row hr).2
      refine hstored.trans ?_
      simp only
      generalize storePending sha256d config t.commits d chain.chain_id pending = r
      obtain ⟨r, d⟩ := r
      cases r with
      | error e => exact .refl d
      | ok u =>
        have hclass := classifyPendingParents_registry t d
        simp only
        generalize classifyPendingParents t.resolver t.net t.commits.classify t.iter d = r at hclass ⊢
        obtain ⟨r, d⟩ := r
        cases r <;> exact hclass
  unfold ingestChain
  generalize db.upsertChain t.commits.upsert chain.chain_id chain.name chain.electrs = r
  obtain ⟨r, d⟩ := r
  cases r with
  | error e => exact .refl d
  | ok u =>
    cases t.electrs.tipHeight with
    | none => exact .refl d
    | some tip_height =>
      have hcursor : SameRegistry d (d.cursorHeight chain.chain_id).2 := getMeta_registry hkey d
      simp only
      refine hcursor.trans ?_
      generalize d.cursorHeight chain.chain_id = r
      obtain ⟨cursor, d⟩ := r
      simp only
      split
      · exact .refl d
      · split_ifs
        · exact .refl d
        · exact .refl d
        · split
          · exact .refl d
          · exact hfetched _ _ _

end Sha

/-! ## Stores of one book -/

/-- Stores of one registry and one book. -/
structure SameBook (db db' : Database) : Prop extends SameRegistry db db' where
  book : db'.book = db.book

theorem SameBook.refl (db : Database) : SameBook db db := ⟨.refl db, rfl⟩

theorem SameBook.table {db db' : Database} (h : SameBook db db') : db'.redb.swap_intents = db.redb.swap_intents :=
  congrArg Book.table h.book

theorem SameBook.cache {db db' : Database} (h : SameBook db db') : db'.cache_intents = db.cache_intents :=
  congrArg Book.cache h.book

/-- Same answer, and one book afterwards. -/
def BookAgree {ε : Type} (x y : ε × Database) : Prop := y.1 = x.1 ∧ SameBook x.2 y.2

theorem get?_insert_congr {m m' : KMap String String} {k : String} (h : m'.get? k = m.get? k) (key value : String) :
    (m'.insert key value).get? k = (m.insert key value).get? k := by
  rw [KMap.get?_insert, KMap.get?_insert, h]

theorem getMeta_book {db db' : Database} (h : SameBook db db') {key : String} (hkey : RegistryKey key) :
    BookAgree (db.getMeta key) (db'.getMeta key) := by
  unfold getMeta
  rw [h.cached _ hkey, h.metadata _ hkey]
  split
  · exact ⟨rfl, h⟩
  · split
    · exact ⟨rfl, ⟨h.metadata, fun k hk => get?_insert_congr (h.cached k hk) _ _⟩, h.book⟩
    · exact ⟨rfl, h⟩

theorem setMeta_book {db db' : Database} (h : SameBook db db') (commit : Bool) (key value : String) :
    BookAgree (db.setMeta commit key value) (db'.setMeta commit key value) := by
  cases commit with
  | false => exact ⟨rfl, ⟨h.metadata, fun k hk => get?_insert_congr (h.cached k hk) _ _⟩, h.book⟩
  | true =>
    exact ⟨rfl, ⟨fun k hk => get?_insert_congr (h.metadata k hk) _ _, fun k hk => get?_insert_congr (h.cached k hk) _ _⟩,
      h.book⟩

theorem upsertChain_book {db db' : Database} (h : SameBook db db') (commit : Bool) (c : UInt32) (name electrs : String) :
    BookAgree (db.upsertChain commit c name electrs) (db'.upsertChain commit c name electrs) := by
  obtain ⟨hanswer, hsame⟩ := getMeta_book h (registryKey_chainKey c)
  unfold upsertChain
  simp only
  rw [hanswer]
  split_ifs
  · exact ⟨rfl, hsame⟩
  · exact setMeta_book hsame _ _ _

theorem pruneExpiredIntents_book {db db' : Database} (h : SameBook db db') (commit : Bool) (now : UInt64) :
    BookAgree (db.pruneExpiredIntents commit now) (db'.pruneExpiredIntents commit now) := by
  unfold pruneExpiredIntents
  simp only [h.cache, h.table]
  split_ifs
  · exact ⟨rfl, h⟩
  · exact ⟨rfl, ⟨h.metadata, h.cached⟩, rfl⟩
  · exact ⟨rfl, h⟩

theorem insertIntent_book {db db' : Database} (h : SameBook db db') (prune_commit commit : Bool) (now : UInt64)
    (intent : SwapIntentMessage) :
    BookAgree (db.insertIntent prune_commit commit now intent) (db'.insertIntent prune_commit commit now intent) := by
  have hpruned := pruneExpiredIntents_book h prune_commit now
  unfold insertIntent
  generalize db.pruneExpiredIntents prune_commit now = x at hpruned ⊢
  generalize db'.pruneExpiredIntents prune_commit now = y at hpruned ⊢
  obtain ⟨r, d⟩ := x
  obtain ⟨r', d'⟩ := y
  obtain ⟨rfl, hsame⟩ : r' = r ∧ SameBook d d' := hpruned
  cases r' with
  | error e => exact ⟨rfl, hsame⟩
  | ok n =>
    simp only [hsame.cache, hsame.table]
    split_ifs
    · exact ⟨rfl, hsame⟩
    · exact ⟨rfl, ⟨hsame.metadata, hsame.cached⟩, rfl⟩
    · refine ⟨rfl, ⟨hsame.metadata, hsame.cached⟩, ?_⟩
      unfold book
      rw [hsame.table]

section Entry
variable {S : SigScheme} {enforce : Bool} {iter : List (String × String) → List (String × String)}

theorem createSwapIntent_book (hiter : ∀ l, (iter l).Perm l) {db db' : Database} (h : SameBook db db')
    (check_now now : UInt64) (prune_commit commit : Bool) (intent : SwapIntentMessage) :
    BookAgree (createSwapIntent S enforce iter check_now now prune_commit commit db intent)
      (createSwapIntent S enforce iter check_now now prune_commit commit db' intent) := by
  have hinsert := insertIntent_book h prune_commit commit now intent
  unfold createSwapIntent
  rw [h.toSameRegistry.checkIntent S enforce hiter check_now intent]
  cases checkIntent S enforce iter check_now db intent with
  | error e => exact ⟨rfl, h⟩
  | ok u =>
    simp only
    generalize db.insertIntent prune_commit commit now intent = x at hinsert ⊢
    generalize db'.insertIntent prune_commit commit now intent = y at hinsert ⊢
    obtain ⟨r, d⟩ := x
    obtain ⟨r', d'⟩ := y
    obtain ⟨rfl, hsame⟩ : r' = r ∧ SameBook d d' := hinsert
    cases r' <;> exact ⟨rfl, hsame⟩

theorem listIntents_book {db db' : Database} (h : SameBook db db')
    (order : List (String × SwapIntentMessage) → List (String × SwapIntentMessage)) (commit : Bool) (prune_now now : UInt64)
    (source target : Option UInt32) (protocol : Option String) (page : Page) :
    BookAgree (db.listIntents order commit prune_now now source target protocol page)
      (db'.listIntents order commit prune_now now source target protocol page) := by
  have hpruned := pruneExpiredIntents_book h commit prune_now
  unfold listIntents
  generalize db.pruneExpiredIntents commit prune_now = x at hpruned ⊢
  generalize db'.pruneExpiredIntents commit prune_now = y at hpruned ⊢
  obtain ⟨r, d⟩ := x
  obtain ⟨r', d'⟩ := y
  obtain ⟨rfl, hsame⟩ : r' = r ∧ SameBook d d' := hpruned
  cases r' with
  | error e => exact ⟨rfl, hsame⟩
  | ok n =>
    refine ⟨?_, hsame⟩
    simp only [matchingIntents, hsame.cache]

theorem BookStep.run_book (hiter : ∀ l, (iter l).Perm l) {db db' : Database} (h : SameBook db db') (step : BookStep) :
    SameBook (step.run S enforce iter db) (step.run S enforce iter db') := by
  cases step with
  | create check_now now prune_commit commit intent =>
    exact (createSwapIntent_book hiter h check_now now prune_commit commit intent).2
  | gossip check_now now prune_commit commit payload =>
    cases payload with
    | none => exact h
    | some intent =>
      unfold run inboundIntent
      simp only
      rw [h.toSameRegistry.checkIntent S enforce hiter check_now intent]
      cases checkIntent S enforce iter check_now db intent with
      | error e => exact h
      | ok u => exact (insertIntent_book h prune_commit commit now intent).2
  | list prune_now now commit source target protocol page =>
    exact (listIntents_book h _ commit prune_now now source target protocol page).2
  | prune now commit => exact (pruneExpiredIntents_book h commit now).2
  | upsertChain commit chain_id name electrs => exact (upsertChain_book h commit chain_id name electrs).2

end Entry

section Run
variable (w : Nat) {sha256d : Bytes → Hash32} (config : Config) (S : SigScheme) (enforce : Bool)
  {iter : List (String × String) → List (String × String)}

theorem restart_book {db db' : Database} (h : SameBook db db') :
    SameBook ((openDb sha256d db.redb).toOption.getD db) ((openDb sha256d db'.redb).toOption.getD db') := by
  have hbook : ∀ r r' : Redb, r'.swap_intents = r.swap_intents →
      (warmUpCache sha256d r').book = (warmUpCache sha256d r).book := by
    intro r r' hr
    unfold book warmUpCache
    rw [hr]
  unfold openDb Redb.gate
  rw [h.metadata META_SCHEMA_VERSION (.inl rfl)]
  split
  · split_ifs
    · exact ⟨⟨h.metadata, h.metadata⟩, hbook _ _ h.table⟩
    · exact h
  · have hmeta : ∀ key, RegistryKey key →
        (db'.redb.metadata.insert META_SCHEMA_VERSION (toString SCHEMA_VERSION)).get? key =
          (db.redb.metadata.insert META_SCHEMA_VERSION (toString SCHEMA_VERSION)).get? key :=
      fun key hkey => get?_insert_congr (h.metadata key hkey) _ _
    exact ⟨⟨hmeta, hmeta⟩, hbook _ _ h.table⟩

/-- A tick leaves the book of the store that its chain is registered in. -/
theorem ingestChain_book (chain : AuxChain) (t : Tick) (db : Database) :
    SameBook (db.upsertChain t.commits.upsert chain.chain_id chain.name chain.electrs).2
      (ingestChain w sha256d config chain t db).2 := by
  refine ⟨ingestChain_registry config chain t db, ?_⟩
  have hput : ∀ (b : Book) (db : Database), (db.withBook b).book = b := fun _ _ => rfl
  have htick := (@ingestChain_blind w sha256d config chain t).keeps hput withBook_book db
  have hupsert := (upsertChain_blind t.commits.upsert chain.chain_id chain.name chain.electrs).keeps hput withBook_book db
  exact htick.trans hupsert.symm

/-- What an order is answered. -/
inductive BookReply where
  | created (r : Except ApiError String)
  | listed (r : Except DbError (List SwapIntentMessage × Nat))

variable (order : List (String × SwapIntentMessage) → List (String × SwapIntentMessage))

def NodeOp.reply (iter : List (String × String) → List (String × String)) (db : Database) : NodeOp → Option BookReply
  | book (.create check_now now prune_commit commit intent) =>
    some (.created (createSwapIntent S enforce iter check_now now prune_commit commit db intent).1)
  | book (.list prune_now now commit source target protocol page) =>
    some (.listed (db.listIntents order commit prune_now now source target protocol page).1)
  | _ => none

variable (sha256d) (iter)

/-- The node with ticks that do nothing but register their chain. -/
def NodeOp.runBook (db : Database) : NodeOp → Database
  | ingest (.tick chain t) => (db.upsertChain t.commits.upsert chain.chain_id chain.name chain.electrs).2
  | op => op.run w sha256d config S enforce iter db

variable {sha256d iter}

theorem NodeOp.run_book (hiter : ∀ l, (iter l).Perm l) {db db' : Database} (h : SameBook db db') (op : NodeOp) :
    SameBook (op.runBook w sha256d config S enforce iter db) (op.run w sha256d config S enforce iter db') := by
  cases op with
  | ingest op =>
    cases op with
    | tick chain t =>
      have hupsert := (upsertChain_book h t.commits.upsert chain.chain_id chain.name chain.electrs).2
      have htick := @ingestChain_book w sha256d config chain t db'
      exact ⟨hupsert.toSameRegistry.trans htick.toSameRegistry, htick.book.trans hupsert.book⟩
    | restart => exact restart_book h
  | book step => exact BookStep.run_book hiter h step

variable (sha256d iter)

/-- However the ingest loops and the orders interleave, and whichever transactions fail,
the book, the registry and the answers to all orders are those of a node whose ticks
only register their chain. -/
theorem book_follows_registry (hiter : ∀ l, (iter l).Perm l) (db : Database) (ops : List NodeOp) :
    let all := serveNode w sha256d config S enforce iter db ops
    let own := ops.foldl (NodeOp.runBook w sha256d config S enforce iter) db
    all.book = own.book ∧
      (∀ c, c ∈ (all.chainRegistry iter).map Prod.fst ↔ c ∈ (own.chainRegistry iter).map Prod.fst) ∧
      ownedAnswers (NodeOp.run w sha256d config S enforce iter) (NodeOp.reply S enforce order iter) (!·.indexes) db ops =
        ownedAnswers (NodeOp.runBook w sha256d config S enforce iter) (NodeOp.reply S enforce order iter) (!·.indexes) db ops := by
  intro all own
  have hstep : ∀ (db db' : Database) (op : NodeOp), SameBook db db' →
      SameBook (op.runBook w sha256d config S enforce iter db) (op.run w sha256d config S enforce iter db') :=
    fun _ _ op h => NodeOp.run_book w config S enforce hiter h op
  have hsame : SameBook own all := List.foldl_rel (.refl db) fun op _ db db' h => hstep db db' op h
  refine ⟨hsame.book, fun c => hsame.mem_iff hiter, ownedAnswers_congr hstep ?_ (.refl db) ops⟩
  intro db db' op h
  cases op with
  | ingest op => rfl
  | book step =>
    cases step with
    | create check_now now prune_commit commit intent =>
      exact congrArg (some ∘ BookReply.created) (createSwapIntent_book hiter h check_now now prune_commit commit intent).1
    | list prune_now now commit source target protocol page =>
      exact congrArg (some ∘ BookReply.listed) (listIntents_book h order commit prune_now now source target protocol page).1
    | gossip => rfl
    | prune => rfl
    | upsertChain => rfl

end Run

/-! ## What the book trades -/

/-- The chain that an action registers. -/
def NodeOp.registers : NodeOp → Option UInt32
  | ingest (.tick chain _) => some chain.chain_id
  | book (.upsertChain _ chain_id _ _) => some chain_id
  | _ => none

/-- Every chain that the store knows, and every one that its book trades, is in `ids`. -/
structure KnownChains (ids : List UInt32) (db : Database) : Prop where
  cached : ∀ key v r, db.cache_meta.get? key = some v → registryRow (key, v) = some r → r.1 ∈ ids
  stored : ∀ key v r, db.redb.metadata.get? key = some v → registryRow (key, v) = some r → r.1 ∈ ids
  traded : ∀ id i, db.cache_intents.get? id = some i ∨ db.redb.swap_intents.get? id = some i →
    i.from_chain ∈ ids ∧ i.to_chain ∈ ids ∧ i.from_chain ≠ i.to_chain

section Known
variable {ids : List UInt32} {db : Database}

theorem KnownChains.mono {ids' : List UInt32} (h : KnownChains ids db) (hsub : ids ⊆ ids') : KnownChains ids' db where
  cached key v r hv hr := hsub (h.cached key v r hv hr)
  stored key v r hv hr := hsub (h.stored key v r hv hr)
  traded id i hi := ⟨hsub (h.traded id i hi).1, hsub (h.traded id i hi).2.1, (h.traded id i hi).2.2⟩

/-- The registry and the book are all that matters. -/
theorem KnownChains.of_sameBook {db' : Database} (h : KnownChains ids db) (hsame : SameBook db db') :
    KnownChains ids db' where
  cached key v r hv hr := h.cached key v r (by rw [← hsame.cached key (.inr ⟨v, r, hr⟩), hv]) hr
  stored key v r hv hr := h.stored key v r (by rw [← hsame.metadata key (.inr ⟨v, r, hr⟩), hv]) hr
  traded id i hi := h.traded id i (by rwa [← hsame.cache, ← hsame.table])

theorem known_insert {m : KMap String String} {c : UInt32} {value : String} (hc : c ∈ ids)
    (h : ∀ key v r, m.get? key = some v → registryRow (key, v) = some r → r.1 ∈ ids) (key v : String)
    (r : UInt32 × String × String) (hv : (m.insert (chainKey c) value).get? key = some v)
    (hr : registryRow (key, v) = some r) : r.1 ∈ ids := by
  rw [KMap.get?_insert] at hv
  split_ifs at hv with hkey
  · rw [hkey, registryRow_chainKey] at hr
    cases hr
    exact hc
  · exact h key v r hv hr

theorem KnownChains.upsertChain (h : KnownChains ids db) {c : UInt32} (hc : c ∈ ids) (commit : Bool)
    (name electrs : String) :
    KnownChains ids (db.upsertChain commit c name electrs).2 := by
  have hread : KnownChains ids (db.getMeta (chainKey c)).2 := by
    unfold getMeta
    split
    · exact h
    · split
      · exact ⟨known_insert hc h.cached, h.stored, h.traded⟩
      · exact h
  unfold Database.upsertChain
  simp only
  split_ifs
  · exact hread
  · cases commit with
    | false => exact ⟨known_insert hc hread.cached, hread.stored, hread.traded⟩
    | true => exact ⟨known_insert hc hread.cached, known_insert hc hread.stored, hread.traded⟩

theorem KnownChains.prune (h : KnownChains ids db) (commit : Bool) (now : UInt64) :
    KnownChains ids (db.pruneExpiredIntents commit now).2 := by
  rcases pruneExpiredIntents_snd commit now db with he | he
  · rw [he]
    exact h
  · rw [he]
    refine ⟨h.cached, h.stored, fun id i hi => h.traded id i ?_⟩
    unfold Database.pruned at hi
    simp only [KMap.get?_eraseAll] at hi
    rcases hi with hi | hi <;> split_ifs at hi
    · exact .inl hi
    · exact .inr hi

theorem KnownChains.insertIntent (h : KnownChains ids db) {intent : SwapIntentMessage}
    (hi : intent.from_chain ∈ ids ∧ intent.to_chain ∈ ids ∧ intent.from_chain ≠ intent.to_chain) (prune_commit commit : Bool)
    (now : UInt64) : KnownChains ids (db.insertIntent prune_commit commit now intent).2 := by
  have hinsert : ∀ {m : KMap String SwapIntentMessage} {id : String} {i : SwapIntentMessage},
      (m.insert intent.intent_id intent).get? id = some i → i = intent ∨ m.get? id = some i := by
    intro m id i hm
    rw [KMap.get?_insert] at hm
    split_ifs at hm
    · exact .inl (Option.some.inj hm).symm
    · exact .inr hm
  have hpruned := h.prune prune_commit now
  unfold Database.insertIntent
  generalize db.pruneExpiredIntents prune_commit now = r at hpruned ⊢
  obtain ⟨r, d⟩ := r
  cases r with
  | error e => exact hpruned
  | ok n =>
    simp only at hpruned ⊢
    split_ifs
    · exact hpruned
    · refine ⟨hpruned.cached, hpruned.stored, fun id i hstored => ?_⟩
      rcases hstored with hstored | hstored <;> rcases hinsert hstored with rfl | hold
      · exact hi
      · exact hpruned.traded id i (.inl hold)
      · exact hi
      · exact hpruned.traded id i (.inr hold)
    · refine ⟨hpruned.cached, hpruned.stored, fun id i hstored => ?_⟩
      rcases hstored with hstored | hstored
      · rcases hinsert hstored with rfl | hold
        · exact hi
        · exact hpruned.traded id i (.inl hold)
      · exact hpruned.traded id i (.inr hstored)

section Entry
variable {S : SigScheme} {enforce : Bool} {iter : List (String × String) → List (String × String)}

/-- The check lets intents through that trade two chains of the registry. -/
theorem KnownChains.checked (h : KnownChains ids db) (hiter : ∀ l, (iter l).Perm l) {now : UInt64}
    {intent : SwapIntentMessage} (hcheck : checkIntent S enforce iter now db intent = .ok ()) :
    intent.from_chain ∈ ids ∧ intent.to_chain ∈ ids ∧ intent.from_chain ≠ intent.to_chain := by
  have hids : ∀ {c : UInt32}, c ∈ (db.chainRegistry iter).map Prod.fst → c ∈ ids := by
    intro c hc
    obtain ⟨key, v, r, hv, hr, rfl⟩ := (mem_chainRegistry hiter).1 hc
    exact h.cached key v r hv hr
  unfold checkIntent validateSwapIntent at hcheck
  simp only [throw_bind, ite_throw_eq_ok] at hcheck
  obtain ⟨-, -, -, hne, hfrom, hto, -⟩ := hcheck
  exact ⟨hids (not_not.1 hfrom), hids (not_not.1 hto), hne⟩

theorem KnownChains.bookStep (h : KnownChains ids db) (hiter : ∀ l, (iter l).Perm l) {step : BookStep}
    (hreg : ∀ c ∈ (NodeOp.book step).registers, c ∈ ids) : KnownChains ids (step.run S enforce iter db) := by
  cases step with
  | create check_now now prune_commit commit intent =>
    unfold BookStep.run createSwapIntent
    simp only
    cases hcheck : checkIntent S enforce iter check_now db intent with
    | error e => exact h
    | ok u =>
      have hinsert := h.insertIntent (h.checked hiter hcheck) prune_commit commit now
      simp only
      split <;> rename_i hr <;> rw [hr] at hinsert <;> exact hinsert
  | gossip check_now now prune_commit commit payload =>
    cases payload with
    | none => exact h
    | some intent =>
      unfold BookStep.run inboundIntent
      simp only
      cases hcheck : checkIntent S enforce iter check_now db intent with
      | error e => exact h
      | ok u => exact h.insertIntent (h.checked hiter hcheck) prune_commit commit now
  | list prune_now now commit source target protocol page =>
    have hpruned := h.prune commit prune_now
    unfold BookStep.run listIntents
    simp only
    split <;> rename_i hr <;> rw [hr] at hpruned <;> exact hpruned
  | prune now commit => exact h.prune commit now
  | upsertChain commit chain_id name electrs => exact h.upsertChain (hreg chain_id rfl) commit name electrs

end Entry

theorem KnownChains.restart {sha256d : Bytes → Hash32} (h : KnownChains ids db) :
    KnownChains ids ((openDb sha256d db.redb).toOption.getD db) := by
  have hschema : ∀ v, registryRow (META_SCHEMA_VERSION, v) = none := by
    intro v
    have hstrip : stripPrefix "chain." META_SCHEMA_VERSION = none := by decide +kernel
    unfold registryRow
    simp only [hstrip]
    rfl
  have htraded : ∀ id i, db.redb.swap_intents.get? id = some i ∨ db.redb.swap_intents.get? id = some i →
      i.from_chain ∈ ids ∧ i.to_chain ∈ ids ∧ i.from_chain ≠ i.to_chain :=
    fun id i hi => h.traded id i (.inr (or_self_iff.1 hi))
  unfold openDb Redb.gate
  split
  · split_ifs
    · exact ⟨h.stored, h.stored, htraded⟩
    · exact h
  · have hstored : ∀ key v r, (db.redb.metadata.insert META_SCHEMA_VERSION (toString SCHEMA_VERSION)).get? key = some v →
        registryRow (key, v) = some r → r.1 ∈ ids := by
      intro key v r hv hr
      rw [KMap.get?_insert] at hv
      split_ifs at hv with hkey
      · rw [hkey, hschema] at hr
        cases hr
      · exact h.stored key v r hv hr
    exact ⟨hstored, hstored, htraded⟩

end Known

section Run
variable (w : Nat) (sha256d : Bytes → Hash32) (config : Config) (S : SigScheme) (enforce : Bool)
  (iter : List (String × String) → List (String × String))

variable {w sha256d config S enforce iter}

theorem KnownChains.step (hiter : ∀ l, (iter l).Perm l) {ids : List UInt32} {db : Database} (h : KnownChains ids db)
    {op : NodeOp} (hreg : ∀ c ∈ op.registers, c ∈ ids) : KnownChains ids (op.run w sha256d config S enforce iter db) := by
  cases op with
  | ingest op =>
    cases op with
    | tick chain t =>
      exact (h.upsertChain (hreg chain.chain_id rfl) t.commits.upsert chain.name chain.electrs).of_sameBook
        (ingestChain_book w config chain t db)
    | restart => exact h.restart
  | book step => exact h.bookStep hiter hreg

variable (w sha256d config S enforce iter)

/-- In every run of a node that starts on an empty file, whichever transactions fail: an
intent that is in the book, in the cache or on disk, trades two different chains, and
each is one that the run registered, by a tick or on a start. -/
theorem orders_between_known_chains (hiter : ∀ l, (iter l).Perm l) (db₀ : Database) (ops : List NodeOp)
    (hopen : openDb sha256d Redb.empty = .ok db₀) (id : String) (i : SwapIntentMessage)
    (hi : (serveNode w sha256d config S enforce iter db₀ ops).cache_intents.get? id = some i ∨
      (serveNode w sha256d config S enforce iter db₀ ops).redb.swap_intents.get? id = some i) :
    i.from_chain ≠ i.to_chain ∧ ∀ c, c = i.from_chain ∨ c = i.to_chain → ∃ op ∈ ops, op.registers = some c := by
  have hfresh : KnownChains [] db₀ := by
    have hempty : KnownChains [] (warmUpCache sha256d Redb.empty) := by
      refine ⟨fun _ _ _ hv => ?_, fun _ _ _ hv => ?_, fun _ _ hi => ?_⟩
      · cases hv
      · cases hv
      · rcases hi with hi | hi <;> cases hi
    have hrestart := @KnownChains.restart [] (warmUpCache sha256d Redb.empty) sha256d hempty
    have hredb : (warmUpCache sha256d Redb.empty).redb = Redb.empty := rfl
    rwa [hredb, hopen] at hrestart
  have hrun : ∀ (ids : List UInt32) (db : Database) (ops : List NodeOp), KnownChains ids db →
      (∀ op ∈ ops, ∀ c ∈ op.registers, c ∈ ids) → KnownChains ids (serveNode w sha256d config S enforce iter db ops) := by
    intro ids db ops h hops
    induction ops generalizing db with
    | nil => exact h
    | cons op ops ih =>
      obtain ⟨hop, hops⟩ := List.forall_mem_cons.1 hops
      exact ih _ (h.step hiter hop) hops
  have hknown := hrun (ops.filterMap NodeOp.registers) db₀ ops (hfresh.mono (List.nil_subset _))
    fun op hop c hc => List.mem_filterMap.2 ⟨op, hop, hc⟩
  obtain ⟨hfrom, hto, hne⟩ := hknown.traded id i hi
  refine ⟨hne, fun c hc => ?_⟩
  rcases hc with rfl | rfl
  · exact List.mem_filterMap.1 hfrom
  · exact List.mem_filterMap.1 hto

end Run

/-! ## An offer of two registered chains -/

/-- The start of a node that knows two chains, a tick of one, and an offer. -/
def offerOps : List NodeOp :=
  [.book (.upsertChain true 50 "dingocoin" "https://dingo-api.s3na.xyz"),
    .book (.upsertChain true 63 "junkcoin" "https://junk-api.s3na.xyz"), .book (.create 1000 1000 true true offerA)]

theorem serveNode_offerOps :
    serveNode 64 sampleSha sampleConfig offerScheme true (fun l => l) freshDb offerOps = offeredDb := by
  have hrun : serveNode 64 sampleSha sampleConfig offerScheme true (fun l => l) freshDb offerOps =
      runBook offerScheme true (fun l => l) offerDb [.create 1000 1000 true true offerA] := rfl
  rw [hrun, runBook_offerA]
  rfl

theorem orders_between_known_chains_offer : offerA.from_chain ≠ offerA.to_chain ∧
    ∀ c, c = offerA.from_chain ∨ c = offerA.to_chain → ∃ op ∈ offerOps, op.registers = some c := by
  have hin := (insertIntent_ok offeredDb_eq).1
  rw [← serveNode_offerOps] at hin
  exact orders_between_known_chains 64 sampleSha sampleConfig offerScheme true (fun l => l) (fun l => .refl l) freshDb offerOps
    rfl offerA.intent_id offerA (.inl hin)

/-- The offer, and a tick after it. -/
def offerTickOps : List NodeOp := offerOps ++ [.ingest (.tick sampleChain (sampleTick sampleElectrs))]

theorem book_follows_registry_offer :
    (serveNode 64 sampleSha sampleConfig offerScheme true (fun l => l) freshDb offerTickOps).book =
      (offerTickOps.foldl (NodeOp.runBook 64 sampleSha sampleConfig offerScheme true (fun l => l)) freshDb).book := by
  have h := book_follows_registry 64 sampleSha sampleConfig offerScheme true (fun l => l) (fun l => l) (fun l => .refl l)
    freshDb offerTickOps
  exact h.1

end PsobIndexer
