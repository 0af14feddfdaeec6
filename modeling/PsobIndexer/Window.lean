import PsobIndexer.Counters
import PsobIndexer.Reorg
/-!
# The bounded window

With `max_kept_blocks` set, a successful tick leaves a chain with at most that
many blocks, the ones up to its cursor. A tick that stores blocks keeps the
highest of them whether or not it prunes: where the guard skips the pruning
there is nothing to remove. A write whose failure the code ignores does not
matter here.
-/
open Lib

namespace PsobIndexer

open Database

section Sha
variable {w : Nat} {sha256d : Bytes → Hash32}

/-! ## A write that reports success went through -/

theorem setMeta_ok {commit : Bool} {db : Database} {key value : String} (h : (db.setMeta commit key value).1 = .ok ()) :
    commit = true := by
  cases commit with
  | true => rfl
  | false => cases h

theorem upsertChain_ok {commit : Bool} {db db' : Database} {c : UInt32} {name electrs : String}
    (h : db.upsertChain commit c name electrs = (.ok (), db')) :
    db.upsertChain true c name electrs = (.ok (), db') := by
  unfold Database.upsertChain at h ⊢
  simp only at h ⊢
  split_ifs at h ⊢ with hsame
  · exact h
  · rw [setMeta_ok (congrArg Prod.fst h)] at h
    exact h

theorem rewindCursor_ok {commit : Bool} {db db' : Database} {c : UInt32} {from_height : UInt64}
    (h : db.rewindCursor commit c from_height = (.ok (), db')) : (db.rewindCursor true c from_height).2 = db' := by
  unfold Database.rewindCursor at h ⊢
  simp only at h ⊢
  split at h
  · cases h
    rfl
  · split_ifs at h ⊢ with hle
    · rw [← setMeta_ok (congrArg Prod.fst h), h]
    · cases h
      rfl

theorem Opened.rollbackFrom_ok {db db' : Database} (h : Opened db) {commit : Bool} {parent_commits : Hash32 → Bool}
    {cursor_commit : Bool} {c : UInt32} {from_height : UInt64} {n : Nat}
    (hok : db.rollbackFrom sha256d commit parent_commits cursor_commit c from_height = (.ok n, db')) :
    Opened db' ∧ db'.ledger = (StoreOp.rollbackFrom c from_height).onLedger db.ledger := by
  unfold Database.rollbackFrom at hok
  cases commit with
  | false => cases hok
  | true =>
    simp only [not_true, if_false] at hok
    split at hok
    · cases hok
    · rename_i db₁ hrewind
      cases hok
      rw [← rewindCursor_ok hrewind]
      exact h.rewound (eraseAll_chainRows db c from_height) (eraseAll_droppedRows db c (from_height ≤ ·)) rfl rfl

theorem rollbackStale_ok {commits : Commits} {db db' : Database} (h : Opened db) {c : UInt32} {stale : Option UInt64}
    (hok : rollbackStale sha256d commits db c stale = (.ok (), db')) :
    Opened db' ∧ db'.ledger = (rollbackOps c stale).foldl StoreOp.onLedger db.ledger := by
  unfold rollbackStale at hok
  cases stale with
  | none =>
    cases hok
    exact ⟨h, rfl⟩
  | some s =>
    simp only at hok
    split at hok
    · cases hok
    · rename_i n db₁ hroll
      cases hok
      exact h.rollbackFrom_ok hroll

theorem pruneBefore_ok {commit : Bool} {db db' : Database} {c : UInt32} {below : UInt64} {n : Nat}
    (h : db.pruneBefore sha256d commit c below = (.ok n, db')) : db' = (StoreOp.pruneBefore c below).run sha256d db := by
  cases commit with
  | false => cases h
  | true => exact (congrArg Prod.snd h).symm

theorem insertBlocks_commit {commit : Bool} {db db' : Database} {rows : List BlockRow} (hne : rows ≠ [])
    (h : db.insertBlocks sha256d commit rows = (.ok (), db')) : commit = true := by
  unfold Database.insertBlocks at h
  rw [if_neg hne] at h
  cases commit with
  | true => rfl
  | false =>
    simp only at h
    split at h <;> cases h

/-- Where a chain whose lowest height is `lowest` is pruned once its cursor is at `last`. -/
def pruneHeight (config : Config) (lowest : Option UInt64) (last : UInt64) : Option UInt64 :=
  config.max_kept_blocks.bind fun max_kept =>
    let below := saturatingAdd (saturatingSub last max_kept) 1
    if below > 1 ∧ lowest.any (· < below) then some below else none

theorem minHeight_eq (db : Database) (c : UInt32) : minHeight db c = (heightsOf db.cache_blocks.entries c).min? := by
  unfold minHeight
  cases hfind : db.stats.chains.find? (fun s => s.chain_id = c) with
  | some s =>
    obtain ⟨c', -, rfl⟩ := mem_stats_chains.1 (List.mem_of_find?_eq_some hfind)
    obtain rfl : c' = c := by simpa using List.find?_some hfind
    rfl
  | none =>
    -- a chain without a counter has no cached block
    by_cases hnil : heightsOf db.cache_blocks.entries c = []
    · rw [hnil]
      rfl
    · have hmem := mem_stats_chains.2 ⟨c, hnil, rfl⟩
      exact absurd rfl (of_decide_eq_false (Bool.not_eq_true _ ▸ List.find?_eq_none.1 hfind _ hmem))

theorem pruneWindow_ok {config : Config} {commits : Commits} {db db' : Database} (h : Opened db) {c : UInt32}
    {last : UInt64} (hok : pruneWindow sha256d config commits db c last = (.ok (), db')) :
    Opened db' ∧ db'.ledger = ((pruneHeight config (heightsOf db.ledger.blocks.entries c).min? last).toList.map
      (StoreOp.pruneBefore c)).foldl StoreOp.onLedger db.ledger := by
  have hlowest : minHeight db c = (heightsOf db.ledger.blocks.entries c).min? := by
    rw [minHeight_eq, h.cached]
    rfl
  unfold pruneWindow at hok
  unfold pruneHeight
  rw [← hlowest]
  cases hkept : config.max_kept_blocks with
  | none =>
    rw [hkept] at hok
    cases hok
    exact ⟨h, rfl⟩
  | some max_kept =>
    simp only [hkept] at hok
    simp only [Option.bind_some]
    split_ifs at hok ⊢ with hdo
    · have hbelow : StoreOp.Regular (.pruneBefore c (saturatingAdd (saturatingSub last max_kept) 1)) := le_of_lt hdo.1
      split at hok
      · cases hok
      · rename_i n db₁ hprune
        cases hok
        rw [pruneBefore_ok hprune]
        exact h.run sha256d hbelow
    · cases hok
      exact ⟨h, rfl⟩

theorem storePending_ok {config : Config} {commits : Commits} {db db' : Database} (h : Opened db) {c : UInt32}
    {pending : List StoredBlock} (hw : ∀ row ∈ rowsOf pending, Witnessed row)
    (hok : storePending sha256d config commits db c pending = (.ok (), db')) :
    Opened db' ∧ ∃ below, db'.ledger = (storeOps c pending below).foldl StoreOp.onLedger db.ledger ∧
      ∀ last, pending.getLast? = some last → below = pruneHeight config
        (heightsOf (db.ledger.blocks.insertAll (rowsOf pending)).entries c).min? last.height := by
  unfold storePending at hok
  unfold storeOps
  cases hlast : pending.getLast? with
  | none =>
    rw [hlast] at hok
    cases hok
    exact ⟨h, none, rfl, fun last hl => by cases hl⟩
  | some last =>
    have hne : rowsOf pending ≠ [] := by
      intro hnil
      rw [List.map_eq_nil_iff.1 hnil] at hlast
      cases hlast
    simp only [hlast] at hok
    split at hok
    · cases hok
    rename_i db₁ hinsert
    split at hok
    · cases hok
    rename_i db₂ hcursor
    rw [insertBlocks_commit hne hinsert] at hinsert
    rw [setMeta_ok (congrArg Prod.fst hcursor)] at hcursor
    obtain ⟨hopen₁, hledger₁⟩ := @Opened.run sha256d db h (.insertBlocks (rowsOf pending)) hw
    simp only [StoreOp.run, hinsert] at hopen₁ hledger₁
    obtain ⟨hopen₂, hledger₂⟩ := @Opened.run sha256d db₁ hopen₁ (.setCursorHeight c last.height) trivial
    simp only [StoreOp.run, hcursor] at hopen₂ hledger₂
    obtain ⟨hopen', hledger'⟩ := pruneWindow_ok hopen₂ hok
    refine ⟨hopen', pruneHeight config (heightsOf db₂.ledger.blocks.entries c).min? last.height, ?_, ?_⟩
    · rw [hledger', hledger₂, hledger₁]
      rfl
    · intro last' hl
      cases hl
      rw [hledger₂, hledger₁]
      rfl

theorem classifyParent_ok (sha256d : Bytes → Hash32) {commit : Bool} {db db' : Database} {p : Hash32}
    {ltc_height : Option UInt64} (h : db.classifyParent commit p ltc_height = (.ok (), db')) :
    db' = (StoreOp.classifyParent p ltc_height).run sha256d db := by
  cases commit with
  | false => cases h
  | true => exact (congrArg Prod.snd h).symm

theorem classifyLoop_ok (sha256d : Bytes → Hash32) {commits : Hash32 → Bool}
    {answers : List (Hash32 × Option UInt64)} {db db' : Database} {new_mainnet : List Hash32}
    (h : classifyLoop commits db answers = (.ok new_mainnet, db')) :
    db' = runStore sha256d db (classifyOps answers) := by
  induction answers generalizing db new_mainnet with
  | nil =>
    cases h
    rfl
  | cons a answers ih =>
    obtain ⟨p, ltc_height⟩ := a
    rw [classifyLoop] at h
    split at h
    · cases h
    rename_i db₁ hone
    split at h
    · cases h
    rename_i hloop
    cases h
    rw [ih hloop, classifyParent_ok sha256d hone]
    rfl

theorem classifyPendingParents_ok (sha256d : Bytes → Hash32) {t : Tick} {db db' : Database} (h : Opened db)
    {new_mainnet : List Hash32}
    (hok : classifyPendingParents t.resolver t.net t.commits.classify t.iter db = (.ok new_mainnet, db')) :
    Opened db' ∧ db'.ledger = db.ledger := by
  unfold classifyPendingParents at hok
  simp only at hok
  split_ifs at hok
  · cases hok
    exact ⟨h, rfl⟩
  · rw [classifyLoop_ok sha256d hok]
    obtain ⟨hopen, hledger⟩ := h.runStore sha256d (classifyOps_regular _)
    exact ⟨hopen, hledger.trans (foldl_classifyOps _ _)⟩

/-! ## A successful tick -/

theorem ingestFetched_ok {config : Config} {chain : AuxChain} {t : Tick} {db db' : Database} (h : Opened db)
    {cur : UInt64} {fetched : List Fetched} {batch : IngestBatch}
    (hok : ingestFetched w sha256d config chain t db cur fetched = (.ok batch, db')) :
    let r := walk w sha256d chain (db.ledger.prevHash chain.chain_id cur) fetched
    batch.blocks = r.1 ∧ Opened db' ∧ ∃ below,
      db'.ledger = (rollbackOps chain.chain_id r.2 ++ storeOps chain.chain_id r.1 below).foldl StoreOp.onLedger db.ledger ∧
      ∀ last, r.1.getLast? = some last → below = pruneHeight config (heightsOf
        (((rollbackOps chain.chain_id r.2).foldl StoreOp.onLedger db.ledger).blocks.insertAll (rowsOf r.1)).entries
          chain.chain_id).min? last.height := by
  intro r
  have hw : ∀ row ∈ rowsOf r.1, Witnessed row := by
    intro row hrow
    obtain ⟨b, hb, rfl⟩ := List.mem_map.1 hrow
    exact ((walk_spec chain _ fetched).1 b hb).witnessed _
  unfold ingestFetched at hok
  simp only [prevHashAt_opened h] at hok
  split at hok
  · cases hok
  rename_i db₁ hroll
  split at hok
  · cases hok
  rename_i db₂ hstore
  split at hok
  · cases hok
  rename_i db₃ hclass
  cases hok
  obtain ⟨hopen₁, hledger₁⟩ := rollbackStale_ok h hroll
  obtain ⟨hopen₂, below, hledger₂, hbelow⟩ := storePending_ok hopen₁ hw hstore
  obtain ⟨hopen₃, hledger₃⟩ := classifyPendingParents_ok sha256d hopen₂ hclass
  refine ⟨rfl, hopen₃, below, ?_, ?_⟩
  · rw [hledger₃, hledger₂, hledger₁, List.foldl_append]
  · rw [← hledger₁]
    exact hbelow

theorem registered_ok {chain : AuxChain} {t : Tick} {config : Config} {db db' : Database} {batch : IngestBatch}
    (hok : ingestChain w sha256d config chain t db = (.ok batch, db')) :
    db.upsertChain t.commits.upsert chain.chain_id chain.name chain.electrs = (.ok (), registered sha256d chain db) := by
  unfold ingestChain at hok
  split at hok
  · cases hok
  rename_i db₁ hupsert
  have htrue := upsertChain_ok hupsert
  rw [hupsert, registered, StoreOp.run, htrue]

/-- A successful tick either leaves the ledger as it was and accepts nothing, or
fetches its window and acts on the ledger as the walk says. -/
theorem ingestChain_ok {config : Config} {chain : AuxChain} {t : Tick} {db db' : Database} (h : Opened db)
    {batch : IngestBatch} (hok : ingestChain w sha256d config chain t db = (.ok batch, db')) :
    Opened db' ∧ ((batch.blocks = [] ∧ db'.ledger = db.ledger) ∨
      ∃ cur fetched, t.Fetches config (db.ledger.cursorFrom config chain) cur fetched ∧
        let r := walk w sha256d chain (db.ledger.prevHash chain.chain_id cur) fetched
        batch.blocks = r.1 ∧ ∃ below,
          db'.ledger =
            (rollbackOps chain.chain_id r.2 ++ storeOps chain.chain_id r.1 below).foldl StoreOp.onLedger db.ledger ∧
          ∀ last, r.1.getLast? = some last → below = pruneHeight config (heightsOf
            (((rollbackOps chain.chain_id r.2).foldl StoreOp.onLedger db.ledger).blocks.insertAll (rowsOf r.1)).entries
              chain.chain_id).min? last.height) := by
  have hupsert := registered_ok hok
  obtain ⟨hopen, hledger⟩ := h.registered sha256d chain
  rcases idle_or_fetches config t (db.ledger.cursorFrom config chain) with hidle | ⟨cur, fetched, hf⟩
  · obtain ⟨hsnd, hbatch⟩ := @ingestChain_idle sha256d w config chain t db h hupsert hidle
    rw [hok] at hsnd hbatch
    have hdb : db' = registered sha256d chain db := hsnd
    rw [hbatch batch rfl, hdb]
    exact ⟨hopen, .inl ⟨rfl, hledger⟩⟩
  · rw [ingestChain_fetches sha256d h hupsert hf] at hok
    obtain ⟨hblocks, hopen', hstore⟩ := ingestFetched_ok hopen hok
    rw [hledger] at hblocks hstore
    exact ⟨hopen', .inr ⟨cur, fetched, hf, hblocks, hstore⟩⟩

/-! ## The window of a chain -/

variable {config : Config} {L : Ledger} {chain : AuxChain} {t : BlockTrack}

theorem Tracks.mem_heights (h : Tracks config L chain t) {hh : UInt64} :
    hh ∈ heightsOf L.blocks.entries chain.chain_id ↔ t.lo < hh.toNat ∧ hh.toNat ≤ t.cursor := by
  rw [mem_heightsOf]
  constructor
  · rintro ⟨b, hb⟩
    rw [h.blocks] at hb
    exact Track.item_bounds hb
  · rintro ⟨hlo, hcur⟩
    obtain ⟨b, hb⟩ := Track.exists_item hlo hcur
    exact ⟨b, (h.blocks hh).trans hb⟩

/-- The heights of a chain are a range that ends at its cursor. -/
theorem Tracks.heights (h : Tracks config L chain t) {first cur : UInt64} (hfirst : first.toNat = t.lo + 1)
    (hcur : cur.toNat = t.cursor) : heightsOf L.blocks.entries chain.chain_id = rangeInclusive first cur := by
  refine eq_of_increasing (heightsOf_increasing _ _) (increasing_rangeInclusive _ _) fun hh => ?_
  rw [h.mem_heights, mem_rangeInclusive, UInt64.le_iff_toNat_le, UInt64.le_iff_toNat_le, hfirst, hcur]
  omega

theorem Tracks.heights_nil (h : Tracks config L chain t) (hnil : t.items = []) :
    heightsOf L.blocks.entries chain.chain_id = [] := by
  refine List.eq_nil_iff_forall_not_mem.2 fun hh hmem => ?_
  obtain ⟨hlo, hcur⟩ := h.mem_heights.1 hmem
  rw [Track.cursor, hnil, List.length_nil] at hcur
  omega

/-- The pruning after a batch keeps the highest blocks, also where its guard skips it. -/
theorem Tracks.pruned (h : Tracks config L chain t) (hne : t.items ≠ []) {last max_kept : UInt64}
    (hlast : last.toNat = t.cursor) (hkept : config.max_kept_blocks = some max_kept) (hpos : 1 ≤ max_kept) :
    Tracks config (((pruneHeight config (heightsOf L.blocks.entries chain.chain_id).min? last).toList.map
      (StoreOp.pruneBefore chain.chain_id)).foldl StoreOp.onLedger L) chain (t.keep max_kept.toNat) := by
  have hcursor : t.cursor = t.lo + t.items.length := rfl
  have hlen := List.length_pos_iff.2 hne
  have hlt := last.toNat_lt
  have hone : (1 : UInt64).toNat = 1 := rfl
  rw [UInt64.le_iff_toNat_le] at hpos
  -- neither saturation matters
  have hbelow : (saturatingAdd (saturatingSub last max_kept) 1).toNat = last.toNat - max_kept.toNat + 1 := by
    rw [toNat_saturatingAdd, toNat_saturatingSub]
    omega
  have hfirst : (UInt64.ofNat (t.lo + 1)).toNat = t.lo + 1 := UInt64.toNat_ofNat_of_lt' (by show _ < 2 ^ 64; omega)
  have hlowest : (heightsOf L.blocks.entries chain.chain_id).min? = some (UInt64.ofNat (t.lo + 1)) := by
    rw [List.min?_eq_some_iff]
    constructor
    · exact h.mem_heights.2 (by omega)
    · intro hh hmem
      have := h.mem_heights.1 hmem
      rw [UInt64.le_iff_toNat_le]
      omega
  rw [pruneHeight, hkept, hlowest]
  simp only [Option.bind_some, Option.any_some, decide_eq_true_eq, gt_iff_lt, UInt64.lt_iff_toNat_lt, hbelow, hfirst, hone]
  split_ifs with hdo
  · have hprune := h.prune (saturatingAdd (saturatingSub last max_kept) 1)
    have hcount : (saturatingAdd (saturatingSub last max_kept) 1).toNat - 1 - t.lo = t.items.length - max_kept.toNat := by
      omega
    rw [hcount] at hprune
    exact hprune
  · have hall : t.items.length - max_kept.toNat = 0 := by omega
    rw [Track.keep, hall, Track.trim_zero]
    exact h

/-! ## The tick -/

/-- What a successful tick that accepts the given blocks does to the track of its
chain when at most `k` blocks are kept. -/
inductive WindowMove (k : Nat) (t : BlockTrack) : List StoredBlock → BlockTrack → Prop where
  | stay : WindowMove k t [] t
  | pop (hne : t.items ≠ []) : WindowMove k t [] t.pop
  | extend (pending : List StoredBlock) (hne : pending ≠ []) (hh : HeightsFrom t.cursor pending)
      (hbs : pending.IsChain Builds) (hjoin : ∀ a ∈ t.items.getLast?, ∀ b ∈ pending.head?, Builds a b) :
      WindowMove k t pending ((t.extend pending hbs hjoin).keep k)

theorem WindowMove.length_le {k : Nat} {pending : List StoredBlock} {t' : BlockTrack} (h : WindowMove k t pending t')
    (hle : t.items.length ≤ k) : t'.items.length ≤ k := by
  cases h with
  | stay => exact hle
  | pop _ =>
    have hpop : t.pop.items.length = t.items.length - 1 := List.length_dropLast
    omega
  | extend _ _ _ hbs hjoin =>
    rw [Track.length_keep]
    exact min_le_left _ _

/-- What was stored or accepted and is gone lies at least `k` below the cursor, or
is the block the tick rolled back. -/
theorem WindowMove.removed {k : Nat} {pending : List StoredBlock} {t' : BlockTrack} (h : WindowMove k t pending t')
    (hk : 0 < k) {hh : Nat} (hheld : (t.lo < hh ∧ hh ≤ t.cursor) ∨ ∃ b ∈ pending, b.height.toNat = hh)
    (hgone : t'.item hh = none) :
    t'.items ≠ [] ∧ hh + k ≤ t'.cursor ∨ t.items ≠ [] ∧ pending = [] ∧ hh = t.cursor ∧ hh = t'.cursor + 1 := by
  cases h with
  | stay =>
    rcases hheld with ⟨hlo, hcur⟩ | ⟨b, hb, -⟩
    · obtain ⟨b, hb⟩ := Track.exists_item hlo hcur
      rw [hb] at hgone
      cases hgone
    · cases hb
  | pop hne =>
    rcases hheld with ⟨hlo, hcur⟩ | ⟨b, hb, -⟩
    · obtain ⟨b, hb⟩ := Track.exists_item hlo hcur
      have hpop := t.cursor_pop hne
      rw [Track.item_pop, hb] at hgone
      split_ifs at hgone with hlt
      exact .inr ⟨hne, rfl, by omega, by omega⟩
    · cases hb
  | extend _ hne hheights hbs hjoin =>
    have hpos := List.length_pos_iff.2 hne
    have hcursor := Track.cursor_extend t pending hbs hjoin
    have hin : t.lo < hh ∧ hh ≤ (t.extend pending hbs hjoin).cursor := by
      rw [hcursor]
      rcases hheld with ⟨hlo, hcur⟩ | ⟨b, hb, rfl⟩
      · omega
      · obtain ⟨i, hi⟩ := List.mem_iff_getElem?.1 hb
        have hheight := hheights i b hi
        have hlt := (List.getElem?_eq_some_iff.1 hi).1
        unfold Track.cursor at hheight ⊢
        omega
    obtain ⟨b, hb⟩ := Track.exists_item (t := t.extend pending hbs hjoin) hin.1 hin.2
    rw [Track.item_keep, hb] at hgone
    split_ifs at hgone with hlt
    refine .inl ⟨?_, ?_⟩
    · rw [← List.length_pos_iff, Track.length_keep, Track.extend, List.length_append]
      omega
    · rw [Track.cursor_keep]
      omega

theorem cursor_kept {ops : List StoreOp} {c : UInt32} (h : L.cursor c ≠ none) :
    (ops.foldl StoreOp.onLedger L).cursor c ≠ none := by
  induction ops generalizing L with
  | nil => exact h
  | cons op ops ih =>
    refine ih ?_
    cases op with
    | rollbackFrom c' from_height =>
      simp only [StoreOp.onLedger]
      split_ifs
      · exact Option.some_ne_none _
      · exact h
    | setCursorHeight c' hh =>
      simp only [StoreOp.onLedger]
      split_ifs
      · exact Option.some_ne_none _
      · exact h
    | insertBlocks _ => exact h
    | pruneBefore _ _ => exact h
    | classifyParent _ _ => exact h
    | upsertChain _ _ _ => exact h
    | reopen => exact h

theorem Tracks.windowTick (h : Tracks config L chain t) {cur tip : UInt64} {fetched : List Fetched}
    (hcur : L.cursorFrom config chain = some cur) (hwin : saturatingAdd cur 1 ≤ windowEnd config cur tip)
    (hfetched : fetched.map (·.1) = rangeInclusive (saturatingAdd cur 1) (windowEnd config cur tip))
    {max_kept : UInt64} (hkept : config.max_kept_blocks = some max_kept) (hpos : 1 ≤ max_kept) {below : Option UInt64} :
    let r := walk w sha256d chain (L.prevHash chain.chain_id cur) fetched
    (∀ last, r.1.getLast? = some last → below = pruneHeight config (heightsOf
      (((rollbackOps chain.chain_id r.2).foldl StoreOp.onLedger L).blocks.insertAll (rowsOf r.1)).entries
        chain.chain_id).min? last.height) →
    ∃ t', Tracks config ((rollbackOps chain.chain_id r.2 ++ storeOps chain.chain_id r.1 below).foldl StoreOp.onLedger L)
      chain t' ∧ WindowMove max_kept.toNat t r.1 t' := by
  have hwalked := @Tracks.walked config L chain t w sha256d h cur tip fetched hcur hwin hfetched
  generalize walk w sha256d chain (L.prevHash chain.chain_id cur) fetched = r at hwalked ⊢
  obtain ⟨pending, stale⟩ := r
  intro r hbelow
  obtain ⟨hc, hheights, hlinked, hat, hempty⟩ := hwalked
  have hstart := h.startOf_ne_none hcur
  cases hlast : pending.getLast? with
  | none =>
    obtain rfl := List.getLast?_eq_none_iff.1 hlast
    obtain ⟨t', ht', hmove⟩ := h.move hstart hc hheights hlinked hat hempty below
    refine ⟨t', ht', ?_⟩
    cases hmove with
    | stay => exact .stay
    | pop _ hne => exact .pop hne
    | extend _ _ hne => exact absurd rfl hne
  | some last =>
    have hne : pending ≠ [] := by
      rintro rfl
      cases hlast
    obtain ⟨hbs, hjoin, hstore⟩ := h.accept hlast hstart hc hheights hlinked hat
    have hitems : (t.extend pending hbs hjoin).items ≠ [] := List.append_ne_nil_of_right_ne_nil _ hne
    have hheight : last.height.toNat = (t.extend pending hbs hjoin).cursor := by
      rw [Track.cursor_extend, hheights.getLast hlast]
    have hpruned := hstore.pruned hitems hheight hkept hpos
    refine ⟨_, ?_, .extend pending hne hheights hbs hjoin⟩
    rw [hbelow last hlast, List.foldl_append]
    simp only [r, storeOps, hlast, List.foldl_cons]
    exact hpruned

/-! ## Runs -/

variable (w sha256d)

/-- A tick of a configured chain that reports success, or a restart. -/
def IngestOp.Succeeds (config : Config) (db : Database) : IngestOp → Prop
  | tick chain t => chain ∈ config.chains ∧ ∃ batch, (ingestChain w sha256d config chain t db).1 = .ok batch
  | restart => True

/-- An open store in which every configured chain is a track of at most `max_kept` blocks. -/
structure Windowed (config : Config) (max_kept : UInt64) (db : Database) : Prop where
  opened : Opened db
  tracks : ∀ chain ∈ config.chains, ∃ t, Tracks config db.ledger chain t ∧ t.items.length ≤ max_kept.toNat

/-- The stored heights of a chain are an interval that is empty or ends at the
cursor, with at most `max_kept` blocks in it, and the cache holds the same blocks. -/
structure BoundedWindow (db : Database) (chain_id : UInt32) (max_kept : UInt64) : Prop where
  interval : heightsOf db.redb.aux_blocks.entries chain_id = [] ∨
    ∃ first cursor, (db.cursorHeight chain_id).1 = some cursor ∧ first ≤ cursor ∧
      heightsOf db.redb.aux_blocks.entries chain_id = rangeInclusive first cursor
  few : db.chainBlockCount chain_id ≤ max_kept.toNat
  cached : db.cache_blocks = db.redb.aux_blocks

variable {w sha256d} {max_kept : UInt64}

theorem Tracks.boundedWindow {db : Database} (hopen : Opened db) (h : Tracks config db.ledger chain t)
    (hle : t.items.length ≤ max_kept.toNat) : BoundedWindow db chain.chain_id max_kept := by
  by_cases hnil : t.items = []
  · have hheights := h.heights_nil hnil
    rw [Database.ledger_blocks] at hheights
    refine ⟨.inl hheights, ?_, hopen.cached⟩
    rw [chainBlockCount_eq, hheights]
    exact Nat.zero_le _
  · obtain ⟨cur, hcursor, hcur⟩ := h.cursor_stored hnil
    have hpos := List.length_pos_iff.2 hnil
    have hlt := cur.toNat_lt
    unfold Track.cursor at hcur
    have hfirst : (UInt64.ofNat (t.lo + 1)).toNat = t.lo + 1 := UInt64.toNat_ofNat_of_lt' (by show _ < 2 ^ 64; omega)
    have hheights := h.heights hfirst hcur
    rw [Database.ledger_blocks] at hheights
    refine ⟨.inr ⟨_, cur, ?_, ?_, hheights⟩, ?_, hopen.cached⟩
    · rw [hopen.synced.cursorHeight]
      exact hcursor
    · rw [UInt64.le_iff_toNat_le]
      omega
    · rw [chainBlockCount_eq, hheights, length_rangeInclusive]
      omega

/-- A successful tick moves the window of its chain and leaves those of the others. -/
theorem Windowed.tick {db db' : Database} (h : Windowed config max_kept db)
    (hkept : config.max_kept_blocks = some max_kept) (hpos : 1 ≤ max_kept) (hchain : chain ∈ config.chains) {t : Tick}
    {batch : IngestBatch} (hok : ingestChain w sha256d config chain t db = (.ok batch, db')) :
    Opened db' ∧ (∀ c, db.ledger.cursor c ≠ none → db'.ledger.cursor c ≠ none) ∧
      ∀ chain' ∈ config.chains, ∃ tr tr', Tracks config db.ledger chain' tr ∧ tr.items.length ≤ max_kept.toNat ∧
        Tracks config db'.ledger chain' tr' ∧
        WindowMove max_kept.toNat tr (if chain' = chain then batch.blocks else []) tr' := by
  obtain ⟨hopen, hidle | ⟨cur, fetched, hf, hblocks, below, hledger, hbelow⟩⟩ := ingestChain_ok h.opened hok
  · obtain ⟨hnil, hledger⟩ := hidle
    rw [hledger, hnil]
    refine ⟨hopen, fun _ hc => hc, fun chain' hchain' => ?_⟩
    obtain ⟨tr, htr, hle⟩ := h.tracks chain' hchain'
    rw [ite_self]
    exact ⟨tr, tr, htr, hle, htr, .stay⟩
  · rw [hledger, hblocks]
    refine ⟨hopen, fun _ => cursor_kept, fun chain' hchain' => ?_⟩
    obtain ⟨tr, htr, hle⟩ := h.tracks chain' hchain'
    obtain ⟨hcur, tip, -, -, hwin, hfetch⟩ := hf
    by_cases hid : chain' = chain
    · subst hid
      obtain ⟨tr', htr', hmove⟩ := htr.windowTick hcur hwin (fetchWindow_heights hfetch) hkept hpos hbelow
      rw [if_pos rfl]
      exact ⟨tr, tr', htr, hle, htr', hmove⟩
    · have hne : chain'.chain_id ≠ chain.chain_id := fun he => hid (Config.eq_of_chain_id hchain' hchain he)
      have hver := (@walk_spec w sha256d chain (db.ledger.prevHash chain.chain_id cur) fetched).1
      rw [if_neg hid]
      exact ⟨tr, tr, htr, hle, htr.frame (tickOps_touches (fun b hb => (hver b hb).1) _ below) hne, .stay⟩

theorem Windowed.step {db : Database} (h : Windowed config max_kept db)
    (hkept : config.max_kept_blocks = some max_kept) (hpos : 1 ≤ max_kept) {op : IngestOp}
    (hop : op.Succeeds w sha256d config db) : Windowed config max_kept (op.run w sha256d config db) := by
  cases op with
  | tick chain t =>
    obtain ⟨hchain, batch, hbatch⟩ := hop
    obtain ⟨hopen, -, htracks⟩ := h.tick hkept hpos hchain (Prod.ext hbatch rfl)
    refine ⟨hopen, fun chain' hchain' => ?_⟩
    obtain ⟨tr, tr', -, hle, htr', hmove⟩ := htracks chain' hchain'
    exact ⟨tr', htr', hmove.length_le hle⟩
  | restart =>
    obtain ⟨hopen, hledger⟩ := @Opened.run sha256d db h.opened .reopen trivial
    refine ⟨hopen, ?_⟩
    change ∀ chain ∈ config.chains, ∃ t, Tracks config (StoreOp.reopen.run sha256d db).ledger chain t ∧ _
    rw [hledger]
    exact h.tracks

theorem windowed_fresh {db₀ : Database} (h : openDb sha256d Redb.empty = .ok db₀) : Windowed config max_kept db₀ := by
  have htracked : Tracked config db₀ := tracked_fresh h
  refine ⟨htracked.opened, fun chain hchain => ?_⟩
  obtain ⟨t, ht⟩ := htracked.tracks chain hchain
  refine ⟨t, ht, ?_⟩
  rw [ht.unset (cursorOf_fresh h chain.chain_id)]
  exact Nat.zero_le _

variable (w sha256d)

/-- After any run of successful ticks, the stored heights of a chain are an
interval that is empty or ends at the cursor, with at most `max_kept_blocks` in
it. What a further tick removes lies at least that many below its cursor, or is
the block it rolled back, which was the one at the cursor. -/
theorem window_bounded (config : Config) (db₀ : Database) (ops : List IngestOp)
    (hopen : openDb sha256d Redb.empty = .ok db₀) (max_kept : UInt64)
    (hkept : config.max_kept_blocks = some max_kept) (hpos : 1 ≤ max_kept)
    (hops : Along (IngestOp.run w sha256d config) (IngestOp.Succeeds w sha256d config) db₀ ops)
    (chain : AuxChain) (hchain : chain ∈ config.chains) :
    let db := runIngest w sha256d config db₀ ops
    BoundedWindow db chain.chain_id max_kept ∧
    ∀ t batch db', ingestChain w sha256d config chain t db = (.ok batch, db') →
      BoundedWindow db' chain.chain_id max_kept ∧
      ∀ h : UInt64, ((∃ b, db.redb.aux_blocks.get? ⟨chain.chain_id, h⟩ = some b) ∨ ∃ b ∈ batch.blocks, b.height = h) →
        db'.redb.aux_blocks.get? ⟨chain.chain_id, h⟩ = none →
        ∃ cursor, (db'.cursorHeight chain.chain_id).1 = some cursor ∧
          (h.toNat + max_kept.toNat ≤ cursor.toNat ∨
            batch.blocks = [] ∧ (db.cursorHeight chain.chain_id).1 = some h ∧ h.toNat = cursor.toNat + 1) := by
  intro db
  have hw : Windowed config max_kept db :=
    hops.invariant (fun _ _ hi hop => hi.step hkept hpos hop) (windowed_fresh hopen)
  constructor
  · obtain ⟨tr, htr, hle⟩ := hw.tracks chain hchain
    exact htr.boundedWindow hw.opened hle
  · intro t batch db' hok
    obtain ⟨hopen', hcursor, htracks⟩ := hw.tick hkept hpos hchain hok
    obtain ⟨tr, tr', htr, hle, htr', hmove⟩ := htracks chain hchain
    rw [if_pos rfl] at hmove
    refine ⟨htr'.boundedWindow hopen' (hmove.length_le hle), fun h hheld hgone => ?_⟩
    have hheld' : (tr.lo < h.toNat ∧ h.toNat ≤ tr.cursor) ∨ ∃ b ∈ batch.blocks, b.height.toNat = h.toNat := by
      rcases hheld with ⟨b, hb⟩ | ⟨b, hb, rfl⟩
      · exact .inl (Track.item_bounds ((htr.blocks h).symm.trans hb))
      · exact .inr ⟨b, hb, rfl⟩
    have hgone' : tr'.item h.toNat = none := (htr'.blocks h).symm.trans hgone
    simp only [hopen'.synced.cursorHeight, hw.opened.synced.cursorHeight]
    rcases hmove.removed (UInt64.le_iff_toNat_le.1 hpos) hheld' hgone' with ⟨hne, hlow⟩ | ⟨hne, hnil, htop, hnext⟩
    · obtain ⟨cursor, hstored, hat⟩ := htr'.cursor_stored hne
      exact ⟨cursor, hstored, .inl (by omega)⟩
    · obtain ⟨cur, hstored, hat⟩ := htr.cursor_stored hne
      obtain ⟨cursor, hstored'⟩ : ∃ cursor, db'.ledger.cursor chain.chain_id = some cursor := by
        refine Option.ne_none_iff_exists'.1 (hcursor chain.chain_id ?_)
        rw [hstored]
        exact Option.some_ne_none cur
      have hat' := htr'.at_cursor cursor (by unfold Ledger.cursorFrom; rw [hstored']; rfl)
      obtain rfl : h = cur := UInt64.toNat_inj.1 (by omega)
      exact ⟨cursor, hstored', .inr ⟨hnil, hstored, by omega⟩⟩

end Sha

/-- The sample chain with a window of one block. -/
def windowedConfig : Config := ⟨[sampleChain], 64, none, some 1, sampleChain_nodup, sampleBatch_pos⟩

/-- A batch of two blocks is larger than the window: the first of them goes. -/
theorem window_bounded_sample :
    let db := runIngest 64 sampleSha windowedConfig freshDb [.tick sampleChain (sampleTick sampleElectrs)]
    BoundedWindow db 63 1 ∧ heightsOf db.redb.aux_blocks.entries 63 = [2] := by
  have hrun : (ingestChain 64 sampleSha windowedConfig sampleChain (sampleTick sampleElectrs) freshDb).1.toOption.isSome ∧
      heightsOf (ingestChain 64 sampleSha windowedConfig sampleChain (sampleTick sampleElectrs)
        freshDb).2.redb.aux_blocks.entries 63 = [2] := by
    decide +kernel
  obtain ⟨hok, hheights⟩ := hrun
  have hsucceeds : ∃ batch,
      (ingestChain 64 sampleSha windowedConfig sampleChain (sampleTick sampleElectrs) freshDb).1 = .ok batch := by
    cases hresult : (ingestChain 64 sampleSha windowedConfig sampleChain (sampleTick sampleElectrs) freshDb).1 with
    | ok batch => exact ⟨batch, rfl⟩
    | error e =>
      rw [hresult] at hok
      cases hok
  have hops : Along (IngestOp.run 64 sampleSha windowedConfig) (IngestOp.Succeeds 64 sampleSha windowedConfig) freshDb
      [.tick sampleChain (sampleTick sampleElectrs)] := ⟨⟨List.mem_cons_self, hsucceeds⟩, trivial⟩
  have hstore : runIngest 64 sampleSha windowedConfig freshDb [.tick sampleChain (sampleTick sampleElectrs)] =
      (ingestChain 64 sampleSha windowedConfig sampleChain (sampleTick sampleElectrs) freshDb).2 := rfl
  rw [← hstore] at hheights
  have hbounded := window_bounded 64 sampleSha windowedConfig freshDb _ rfl 1 rfl (by decide) hops sampleChain
    List.mem_cons_self
  exact ⟨hbounded.1, hheights⟩

end PsobIndexer
