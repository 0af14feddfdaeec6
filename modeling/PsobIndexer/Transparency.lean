import PsobIndexer.Restart
import PsobIndexer.Resolve
/-!
# What a restart changes

`Restartable` strengthens `Coherent` by what the tables know: all metadata, the
schema version, and the parents that have been classified. Opening such tables
again gives back the block, metadata and sibling caches, and of the parents
exactly the classified ones (`restart_transparent_iff`).
-/
open Lib

namespace PsobIndexer

open Database

section Sha
variable (sha256d : Bytes → Hash32)

/-! ## The sibling lists a warm-up builds -/

/-- The blocks of a list of rows that are under `p`. -/
def rowsUnder (rows : List BlockRow) (p : Hash32) : List StoredBlock :=
  (rows.map Prod.snd).filter (fun b => b.parentHash sha256d = some p)

/-- Loading rows with distinct, rightly keyed blocks appends them to the lists
of their parents, and creates no empty list. -/
theorem get?_foldl_warmSibling (rows : List BlockRow) (m : KMap Hash32 (List StoredBlock)) (p : Hash32)
    (hkeyed : ∀ row ∈ rows, row.2.chain_id = row.1.chain_id ∧ row.2.height = row.1.height)
    (hn : (rows.map Prod.fst).Nodup)
    (hnew : ∀ row ∈ rows, ∀ q, ∀ b ∈ (m.get? q).getD [], ¬ (b.chain_id = row.1.chain_id ∧ b.height = row.1.height)) :
    (rows.foldl (warmSibling sha256d) m).get? p =
      if rowsUnder sha256d rows p = [] then m.get? p else some ((m.get? p).getD [] ++ rowsUnder sha256d rows p) := by
  induction rows generalizing m with
  | nil => simp [rowsUnder]
  | cons row rows ih =>
    obtain ⟨hnot, hn⟩ := List.nodup_cons.1 hn
    have hrow := hkeyed row List.mem_cons_self
    have hkeyed' : ∀ r ∈ rows, r.2.chain_id = r.1.chain_id ∧ r.2.height = r.1.height :=
      fun r hr => hkeyed r (List.mem_cons_of_mem _ hr)
    rw [List.foldl_cons]
    cases hq : row.2.parentHash sha256d with
    | none =>
      have hstep : warmSibling sha256d m row = m := by
        unfold warmSibling
        rw [hq]
      have hunder : rowsUnder sha256d (row :: rows) p = rowsUnder sha256d rows p := by
        unfold rowsUnder
        rw [List.map_cons, List.filter_cons_of_neg (by simp [hq])]
      rw [hstep, hunder]
      exact ih m hkeyed' hn fun r hr => hnew r (List.mem_cons_of_mem _ hr)
    | some q =>
      have hpush : warmSibling sha256d m row = m.insert q ((m.get? q).getD [] ++ [row.2]) := by
        unfold warmSibling
        rw [hq]
        simp only
        rw [pushSibling_of_not_mem]
        intro b hb hk
        rw [hrow.1, hrow.2] at hk
        exact hnew row List.mem_cons_self q b hb hk
      have hnew' : ∀ r ∈ rows, ∀ q', ∀ b ∈ ((warmSibling sha256d m row).get? q').getD [],
          ¬ (b.chain_id = r.1.chain_id ∧ b.height = r.1.height) := by
        intro r hr q' b hb hk
        rw [hpush, KMap.get?_insert] at hb
        split_ifs at hb with hqq
        · rw [Option.getD_some, List.mem_append, List.mem_singleton] at hb
          rcases hb with hb | rfl
          · exact hnew r (List.mem_cons_of_mem _ hr) q b hb hk
          · rw [hrow.1, hrow.2] at hk
            have hkey : row.1 = r.1 := by
              obtain ⟨⟨c, h⟩, b⟩ := row
              obtain ⟨⟨c', h'⟩, b'⟩ := r
              simp only at hk
              rw [hk.1, hk.2]
            exact hnot (List.mem_map.2 ⟨r, hr, hkey.symm⟩)
        · exact hnew r (List.mem_cons_of_mem _ hr) q' b hb hk
      rw [ih _ hkeyed' hn hnew', hpush, KMap.get?_insert]
      by_cases hpq : p = q
      · subst hpq
        have hunder : rowsUnder sha256d (row :: rows) p = row.2 :: rowsUnder sha256d rows p := by
          unfold rowsUnder
          rw [List.map_cons, List.filter_cons_of_pos (by simp [hq])]
        rw [hunder, if_pos rfl, Option.getD_some, if_neg (List.cons_ne_nil _ _)]
        split_ifs with hnil
        · rw [hnil]
        · rw [List.append_assoc, List.singleton_append]
      · have hunder : rowsUnder sha256d (row :: rows) p = rowsUnder sha256d rows p := by
          unfold rowsUnder
          rw [List.map_cons, List.filter_cons_of_neg (by simpa [hq] using Ne.symm hpq)]
        rw [hunder, if_neg hpq]

variable {sha256d}

/-- The lists of a reopened store are those of its blocks, in key order. -/
theorem get?_warm {db : Database}
    (hkeyed : ∀ k b, db.redb.aux_blocks.get? k = some b → b.chain_id = k.chain_id ∧ b.height = k.height) (p : Hash32) :
    (warmUpCache sha256d db.redb).cache_siblings.get? p =
      if storedUnder sha256d db p = [] then none else some (storedUnder sha256d db p) := by
  have hfold := get?_foldl_warmSibling sha256d db.redb.aux_blocks.entries .empty p
    (fun row hr => hkeyed row.1 row.2 (KMap.mem_entries.1 hr)) db.redb.aux_blocks.keys_nodup
    (fun _ _ _ _ hb => by simp at hb)
  simp only [KMap.get?_empty, Option.getD_none, List.nil_append] at hfold
  exact hfold

theorem Coherent.get?_warm {db : Database} (h : Coherent sha256d db) (p : Hash32) :
    (warmUpCache sha256d db.redb).cache_siblings.get? p =
      if storedUnder sha256d db p = [] then none else some (storedUnder sha256d db p) :=
  PsobIndexer.get?_warm h.keyed p

variable (sha256d)

structure Restartable (db : Database) : Prop where
  coherent : Coherent sha256d db
  metaSynced : db.MetaSynced
  schema : db.redb.metadata.get? META_SCHEMA_VERSION = some (toString SCHEMA_VERSION)
  classified : ∀ p, db.redb.parent_blocks.get? p = (db.cache_parents.get? p).filter (fun sp => sp.parent_state ≠ 0)

variable {sha256d}

theorem restartable_fresh {db₀ : Database} (h : openDb sha256d Redb.empty = .ok db₀) : Restartable sha256d db₀ := by
  refine ⟨coherent_fresh h, ?_, ?_, ?_⟩
  · cases h
    rfl
  · cases h
    exact KMap.get?_insert_self _ _ _
  · cases h
    intro p
    rfl

theorem Restartable.insertOne {db : Database} (h : Restartable sha256d db) {row : BlockRow} (hrow : RowOk db row) :
    Restartable sha256d (db.insertOne sha256d row) := by
  obtain ⟨hpb, hmeta, -, hcache, -⟩ := insertOne_frame sha256d db row
  refine ⟨h.coherent.insertOne hrow, ?_, ?_, ?_⟩
  · unfold MetaSynced
    rw [hcache, hmeta]
    exact h.metaSynced
  · rw [hmeta]
    exact h.schema
  · intro p
    obtain ⟨aux, haux, -⟩ := hrow.witnessed
    rw [hpb, h.classified p, insertOne_eq db haux]
    simp only
    split_ifs with hc
    · rfl
    · rw [KMap.get?_insert]
      split_ifs with hp
      · -- the parent was in no cache, and its new record is unprobed
        have hnone : db.cache_parents.get? p = none := by
          rw [hp]
          simpa [KMap.contains] using hc
        rw [hnone]
        rfl
      · rfl

theorem Restartable.classifyParent {db : Database} (h : Restartable sha256d db) (p : Hash32)
    (ltc_height : Option UInt64) : Restartable sha256d (db.classifyParent true p ltc_height).2 := by
  have hcache := classifyParent_cache true db p ltc_height
  have hcoh := h.coherent.classifyParent p ltc_height
  have hrest : (db.classifyParent true p ltc_height).2.MetaSynced ∧
      (db.classifyParent true p ltc_height).2.redb.metadata.get? META_SCHEMA_VERSION = some (toString SCHEMA_VERSION) ∧
      (db.classifyParent true p ltc_height).2.redb.parent_blocks =
        ((db.cache_parents.get? p).map (·.classified ltc_height)).elim db.redb.parent_blocks
          (db.redb.parent_blocks.insert p) := by
    unfold Database.classifyParent
    simp only [not_true, if_false, KMap.get?_modify, if_true]
    cases db.cache_parents.get? p with
    | none => exact ⟨h.metaSynced, h.schema, rfl⟩
    | some sp => exact ⟨h.metaSynced, h.schema, rfl⟩
  refine ⟨hcoh, hrest.1, hrest.2.1, fun q => ?_⟩
  rw [hrest.2.2, hcache, KMap.get?_modify]
  cases hsp : db.cache_parents.get? p with
  | none =>
    simp only [Option.map_none, Option.elim]
    rw [h.classified q]
    split_ifs with hq
    · rw [hq, hsp]
    · rfl
  | some sp =>
    simp only [Option.map_some, Option.elim, KMap.get?_insert]
    split_ifs with hq
    · have hstate : (sp.classified ltc_height).parent_state ≠ 0 := by
        unfold StoredParent.classified
        simp only
        split_ifs <;> decide
      simp [Option.filter, hstate]
    · exact h.classified q

theorem Restartable.withMeta {db : Database} (h : Restartable sha256d db) {key : String} (value : String)
    (hkey : META_SCHEMA_VERSION ≠ key) : Restartable sha256d (db.withMeta key value) := by
  refine ⟨h.coherent.of_eq rfl rfl rfl rfl rfl, h.metaSynced.withMeta key value, ?_, h.classified⟩
  simp only [Database.withMeta, KMap.get?_insert, if_neg hkey]
  exact h.schema

theorem schema_ne_chainKey (c : UInt32) : META_SCHEMA_VERSION ≠ chainKey c := by
  intro h
  have hl := congrArg String.toList h
  rw [chainKey, String.toList_append] at hl
  exact absurd (List.cons.inj hl).1 (by decide)

theorem schema_ne_cursorKey (c : UInt32) : META_SCHEMA_VERSION ≠ cursorKey c := by
  intro h
  -- a cursor key has more dots than `schema_version`
  have hl := congrArg (fun s : String => '.' ∈ s.toList) h
  simp only [cursorKey, String.toList_append, List.mem_append, eq_iff_iff] at hl
  exact absurd (hl.2 (.inr (by decide))) (by decide)

/-! ## Runs without a restart -/

/-- The calls of a run: batches that overwrite nothing, and no pruning below 0
while block 0 is stored. -/
def StoreOp.Consistent (db : Database) : StoreOp → Prop
  | insertBlocks rows => BatchOk db rows
  | pruneBefore c below => 1 ≤ below ∨ db.redb.aux_blocks.get? ⟨c, 0⟩ = none
  | reopen => False
  | _ => True

theorem Restartable.rollbackFrom {db : Database} (h : Restartable sha256d db) (c : UInt32) (from_height : UInt64) :
    Restartable sha256d (db.rollbackFrom sha256d true (fun _ => true) true c from_height).2 := by
  have hrolled : Restartable sha256d (db.rolledBack sha256d c from_height) := by
    refine ⟨h.coherent.rolledBack c from_height, h.metaSynced, h.schema, fun p => ?_⟩
    simp only [Database.rolledBack, KMap.get?_eraseAll]
    split_ifs
    · rfl
    · exact h.classified p
  rw [rollbackFrom_true, hrolled.metaSynced.rewindCursor]
  simp only
  split_ifs
  · exact hrolled.withMeta _ (schema_ne_cursorKey c)
  · exact hrolled

theorem Restartable.step {db : Database} {op : StoreOp} (h : Restartable sha256d db) (hop : op.Consistent db) :
    Restartable sha256d (op.run sha256d db) := by
  cases op with
  | insertBlocks rows =>
    exact BatchOk.invariant (I := Restartable sha256d) (fun _ _ hi hrow => hi.insertOne hrow) hop h
  | rollbackFrom c from_height => exact h.rollbackFrom c from_height
  | pruneBefore c below =>
    change Restartable sha256d (db.pruneBefore sha256d true c below).2
    by_cases hbelow : 1 ≤ below
    · rw [pruneBefore_true sha256d db c hbelow]
      exact ⟨h.coherent.prunedBelow c hbelow, h.metaSynced, h.schema, h.classified⟩
    · obtain rfl := eq_zero_of_not_one_le hbelow
      rw [pruneBefore_zero sha256d (hop.resolve_left hbelow)]
      exact h
  | classifyParent p ltc_height => exact h.classifyParent p ltc_height
  | setCursorHeight c hh => exact h.withMeta _ (schema_ne_cursorKey c)
  | upsertChain c name electrs =>
    change Restartable sha256d (db.upsertChain true c name electrs).2
    rcases h.metaSynced.upsertChain c name electrs with he | he
    · rw [he]
      exact h
    · rw [he]
      exact h.withMeta _ (schema_ne_chainKey c)
  | reopen => exact hop.elim

/-! ## Opening again -/

theorem Restartable.openDb {db : Database} (h : Restartable sha256d db) :
    openDb sha256d db.redb = .ok (warmUpCache sha256d db.redb) := by
  have hgate : db.redb.gate = .ok db.redb := by
    unfold Redb.gate
    rw [h.schema, Option.bind_some]
    have hparse : parseDec (2 ^ 32) (toString SCHEMA_VERSION) = some SCHEMA_VERSION := parseDec_repr (by decide)
    rw [hparse]
    rfl
  unfold PsobIndexer.openDb
  rw [hgate]
  rfl

/-- The queries that a restart should leave alone. Lists whose order is the
map's own are compared up to order. -/
structure SameQueries (db db' : Database) : Prop where
  blockAt : ∀ c h, (db'.blockAt c h).1 = (db.blockAt c h).1
  cursorHeight : ∀ c, (db'.cursorHeight c).1 = (db.cursorHeight c).1
  chainRegistry : ∀ iter iter', IterOrder iter → IterOrder iter' →
    (db'.chainRegistry iter').Perm (db.chainRegistry iter)
  getParent : ∀ p, (db'.getParent p).1 = (db.getParent p).1
  unclassifiedParents : ∀ iter iter', IterOrder iter → IterOrder iter' →
    (db'.unclassifiedParents iter').Perm (db.unclassifiedParents iter)
  siblingsForParent : ∀ p, (db'.siblingsForParent p).Perm (db.siblingsForParent p)
  sharedMainnetParents : ∀ iter iter' min_legs chain_filter, IterOrder iter → IterOrder iter' →
    (db'.allSharedParents iter' min_legs chain_filter).Perm (db.allSharedParents iter min_legs chain_filter)
  epochBlocks : ∀ iter iter' ltc_start ltc_end chain_filter page, IterOrder iter → IterOrder iter' →
    db'.epochBlocks iter' ltc_start ltc_end chain_filter page = db.epochBlocks iter ltc_start ltc_end chain_filter page
  stats : db'.stats = db.stats

/-- Every cached parent has been classified, and no mainnet parent has lost its
last block to pruning. -/
def Settled (db : Database) : Prop :=
  ∀ p sp, db.cache_parents.get? p = some sp →
    sp.parent_state ≠ 0 ∧ (sp.ltc_height.isSome = true → db.cache_siblings.get? p ≠ some [])

/-- Adding a leg; the order of two legs does not matter. -/
theorem legsByChain_perm {l l' : List StoredBlock} (h : l.Perm l') : legsByChain l = legsByChain l' := by
  unfold legsByChain
  refine h.foldl_eq' (fun a _ b _ m => ?_) _
  apply KMap.ext_get?
  intro c
  simp only [KMap.get?_insert]
  by_cases hab : a.chain_id = b.chain_id
  · simp only [hab, if_true, Option.map_some, Option.getD_some]
    by_cases hc : c = b.chain_id
    · cases m.get? b.chain_id with
      | none => simp [hc, min_comm]
      | some h => simp [hc, min_right_comm]
    · simp [hc]
  · simp only [if_neg hab, if_neg (Ne.symm hab)]
    by_cases hca : c = a.chain_id
    · simp [hca, hab]
    · simp [hca]

theorem Coherent.siblingsForParent {db : Database} (h : Coherent sha256d db) (p : Hash32) :
    (db.siblingsForParent p).Perm (storedUnder sha256d db p) := by
  have hl := h.listed p
  unfold Database.siblingsForParent siblings at *
  cases hget : db.cache_siblings.get? p with
  | some l =>
    rw [hget] at hl
    exact hl
  | none =>
    rw [hget] at hl
    have hnil : storedUnder sha256d db p = [] := hl.symm.eq_nil
    have hindex : db.indexedBlocks p = [] := by
      refine List.eq_nil_iff_forall_not_mem.2 fun b hb => ?_
      have hp := h.indexed.indexedBlocks hb
      obtain ⟨e, -, hget⟩ := List.mem_filterMap.1 hb
      have hmem := (mem_storedUnder sha256d).2 ⟨⟨_, hget⟩, hp⟩
      rw [hnil] at hmem
      cases hmem
    simp only [siblingBlocksRange, hindex, hnil]
    exact .refl _

/-! ## A settled store comes back as it was -/

/-- The classified parents on disk are all the cached ones. -/
theorem Restartable.parent_blocks {db : Database} (h : Restartable sha256d db) (hs : Settled db) :
    db.redb.parent_blocks = db.cache_parents := by
  apply KMap.ext_get?
  intro p
  rw [h.classified p]
  cases hsp : db.cache_parents.get? p with
  | none => rfl
  | some sp => simp [Option.filter, (hs p sp hsp).1]

theorem Coherent.warm_siblings {db : Database} (h : Coherent sha256d db) (p : Hash32) :
    (warmUpCache sha256d db.redb).siblings p = storedUnder sha256d db p := by
  unfold siblings
  rw [h.get?_warm]
  split_ifs with hnil
  · rw [hnil]
    rfl
  · rfl

theorem Restartable.coherent_warm {db : Database} (h : Restartable sha256d db) (hs : Settled db) :
    Coherent sha256d (warmUpCache sha256d db.redb) where
  cached := rfl
  keyed := h.coherent.keyed
  indexed := h.coherent.indexed
  listed p := by
    rw [h.coherent.warm_siblings]
    exact .refl _
  parents k b p hb hp := by
    obtain ⟨sp, hsp⟩ := h.coherent.parents k b p hb hp
    exact ⟨sp, by rw [warmUpCache, h.parent_blocks hs]; exact hsp⟩
  states p sp hsp := by
    rw [warmUpCache, h.parent_blocks hs] at hsp
    exact h.coherent.states p sp hsp

/-- The shared-parent record of a settled parent is the same after the warm-up. -/
theorem Restartable.sharedParent_warm {db : Database} (h : Restartable sha256d db) (hs : Settled db) (min_legs : Nat)
    (chain_filter : Option UInt32) {e : Hash32 × StoredParent} (he : e ∈ db.cache_parents.entries) :
    (warmUpCache sha256d db.redb).sharedParent min_legs chain_filter e = db.sharedParent min_legs chain_filter e := by
  obtain ⟨p, sp⟩ := e
  obtain ⟨-, hmain⟩ := hs p sp (KMap.mem_entries.1 he)
  unfold sharedParent
  cases hltc : sp.ltc_height with
  | none => simp
  | some ltc_h =>
    have hl := h.coherent.listed p
    unfold siblings at hl
    simp only [Option.bind_eq_bind, Option.bind_some]
    rw [h.coherent.get?_warm]
    cases hget : db.cache_siblings.get? p with
    | none =>
      rw [hget] at hl
      rw [if_pos hl.symm.eq_nil]
    | some l =>
      rw [hget, Option.getD_some] at hl
      have hne : storedUnder sha256d db p ≠ [] := by
        intro hnil
        rw [hnil] at hl
        refine hmain (by rw [hltc]; rfl) ?_
        rw [hget, hl.eq_nil]
      rw [if_neg hne, Option.bind_some, Option.bind_some, legsByChain_perm (hl.symm.filter _)]

/-- Rows with the same place in the epoch order are the same row. -/
theorem Coherent.epochRow_unique {db : Database} (h : Coherent sha256d db) {ltc_start ltc_end : UInt64}
    {chain_filter : Option UInt32} {e e' : Hash32 × StoredParent} {a b : EpochRow}
    (ha : a ∈ db.epochRows ltc_start ltc_end chain_filter e) (hb : b ∈ db.epochRows ltc_start ltc_end chain_filter e')
    (hab : EpochRow.le a b = true) (hba : EpochRow.le b a = true) : a = b := by
  have hrow : ∀ {e : Hash32 × StoredParent} {a : EpochRow}, a ∈ db.epochRows ltc_start ltc_end chain_filter e →
      ∃ s, db.redb.aux_blocks.get? ⟨a.chain_id, a.height⟩ = some s ∧ a.hash_le = s.hash_le := by
    intro e a ha
    unfold epochRows at ha
    split at ha
    · cases ha
    · split_ifs at ha
      · obtain ⟨s, hs, rfl⟩ := List.mem_map.1 ha
        obtain ⟨⟨k, hk⟩, -⟩ := h.mem_siblings.1 (List.mem_filter.1 hs).1
        refine ⟨s, ?_, rfl⟩
        rw [h.get?_key hk]
        exact hk
      · cases ha
  obtain ⟨s, hs, hsh⟩ := hrow ha
  obtain ⟨t, ht, hth⟩ := hrow hb
  obtain ⟨c, hh, l, x⟩ := a
  obtain ⟨c', hh', l', x'⟩ := b
  simp only [EpochRow.le, Bool.or_eq_true, Bool.and_eq_true, decide_eq_true_eq] at hab hba
  have hl : l = l' := le_antisymm (hab.elim le_of_lt fun he => le_of_eq he.1) (hba.elim le_of_lt fun he => le_of_eq he.1)
  subst hl
  simp only [lt_irrefl, false_or, true_and] at hab hba
  have hc : c = c' := le_antisymm (hab.elim le_of_lt fun he => le_of_eq he.1) (hba.elim le_of_lt fun he => le_of_eq he.1)
  subst hc
  simp only [lt_irrefl, false_or, true_and] at hab hba
  have hh : hh = hh' := le_antisymm hab hba
  subst hh
  simp only at hs ht hsh hth
  rw [hs] at ht
  cases ht
  rw [hsh, hth]

theorem EpochRow.le_trans (a b c : EpochRow) (hab : EpochRow.le a b = true) (hbc : EpochRow.le b c = true) :
    EpochRow.le a c = true := by
  simp only [EpochRow.le, Bool.or_eq_true, Bool.and_eq_true, decide_eq_true_eq, UInt64.lt_iff_toNat_lt,
    UInt32.lt_iff_toNat_lt, UInt64.le_iff_toNat_le, ← UInt64.toNat_inj, ← UInt32.toNat_inj] at *
  omega

theorem EpochRow.le_total (a b : EpochRow) : (EpochRow.le a b || EpochRow.le b a) = true := by
  simp only [EpochRow.le, Bool.or_eq_true, Bool.and_eq_true, decide_eq_true_eq, UInt64.lt_iff_toNat_lt,
    UInt32.lt_iff_toNat_lt, UInt64.le_iff_toNat_le, ← UInt64.toNat_inj, ← UInt32.toNat_inj] at *
  omega

/-- The sorted epoch rows do not depend on the order of the map. -/
theorem Restartable.epochBlocks_warm {db : Database} (h : Restartable sha256d db) (hs : Settled db)
    {iter iter' : List (Hash32 × StoredParent) → List (Hash32 × StoredParent)} (hi : IterOrder iter)
    (hi' : IterOrder iter') (ltc_start ltc_end : UInt64) (chain_filter : Option UInt32) (page : Page) :
    (warmUpCache sha256d db.redb).epochBlocks iter' ltc_start ltc_end chain_filter page =
      db.epochBlocks iter ltc_start ltc_end chain_filter page := by
  have hrows : ∀ e, ((warmUpCache sha256d db.redb).epochRows ltc_start ltc_end chain_filter e).Perm
      (db.epochRows ltc_start ltc_end chain_filter e) := by
    intro e
    unfold epochRows
    cases e.2.ltc_height with
    | none => exact .refl _
    | some ltc_h =>
      simp only
      split_ifs
      · have hperm : ((warmUpCache sha256d db.redb).siblings e.1).Perm (db.siblings e.1) := by
          rw [h.coherent.warm_siblings]
          exact (h.coherent.listed e.1).symm
        exact (hperm.filter _).map _
      · exact .refl _
  have hperm : ((iter' (warmUpCache sha256d db.redb).cache_parents.entries).flatMap
        ((warmUpCache sha256d db.redb).epochRows ltc_start ltc_end chain_filter)).Perm
      ((iter db.cache_parents.entries).flatMap (db.epochRows ltc_start ltc_end chain_filter)) := by
    have hentries : (iter' (warmUpCache sha256d db.redb).cache_parents.entries).Perm (iter db.cache_parents.entries) := by
      rw [warmUpCache, h.parent_blocks hs]
      exact (hi'.perm _).trans (hi.perm _).symm
    exact (hentries.flatMap_right _).trans (List.Perm.flatMap_left _ fun e _ => hrows e)
  have hsorted : ((iter' (warmUpCache sha256d db.redb).cache_parents.entries).flatMap
        ((warmUpCache sha256d db.redb).epochRows ltc_start ltc_end chain_filter)).mergeSort EpochRow.le =
      ((iter db.cache_parents.entries).flatMap (db.epochRows ltc_start ltc_end chain_filter)).mergeSort EpochRow.le := by
    refine @List.Perm.eq_of_pairwise _ (fun a b => EpochRow.le a b = true) _ _ ?_
      (List.pairwise_mergeSort EpochRow.le_trans EpochRow.le_total _)
      (List.pairwise_mergeSort EpochRow.le_trans EpochRow.le_total _)
      ((List.mergeSort_perm _ _).trans (hperm.trans (List.mergeSort_perm _ _).symm))
    intro a b ha hb hab hba
    have ha' := hperm.mem_iff.1 ((List.mergeSort_perm _ _).mem_iff.1 ha)
    have hb' := (List.mergeSort_perm _ _).mem_iff.1 hb
    obtain ⟨e, -, hae⟩ := List.mem_flatMap.1 ha'
    obtain ⟨e', -, hbe⟩ := List.mem_flatMap.1 hb'
    exact h.coherent.epochRow_unique hae hbe hab hba
  unfold epochBlocks
  rw [hsorted]

theorem Restartable.stats_warm {db : Database} (h : Restartable sha256d db) (hs : Settled db) :
    (warmUpCache sha256d db.redb).stats = db.stats := by
  have hgroup : ∀ e, (warmUpCache sha256d db.redb).isSiblingGroup e = db.isSiblingGroup e := by
    intro e
    have hperm : (((warmUpCache sha256d db.redb).siblings e.1).map (·.chain_id)).dedup.Perm
        ((db.siblings e.1).map (·.chain_id)).dedup := by
      rw [h.coherent.warm_siblings]
      exact ((h.coherent.listed e.1).symm.map _).dedup
    have hlen := hperm.length_eq
    unfold siblings at hlen
    unfold isSiblingGroup
    rw [hlen]
  have hgroups : (warmUpCache sha256d db.redb).isSiblingGroup = db.isSiblingGroup := funext hgroup
  have hparents : (warmUpCache sha256d db.redb).cache_parents = db.cache_parents := h.parent_blocks hs
  have hblocks : (warmUpCache sha256d db.redb).cache_blocks = db.cache_blocks := h.coherent.cached.symm
  unfold stats
  rw [hgroups, hparents, hblocks]
  rfl

theorem Restartable.sameQueries {db : Database} (h : Restartable sha256d db) (hs : Settled db) :
    SameQueries db (warmUpCache sha256d db.redb) where
  blockAt c hh := by
    rw [blockAt_fst, blockAt_fst, h.coherent.cached]
    rfl
  cursorHeight c := by
    rw [cursorHeight_fst, cursorHeight_fst, getMeta_fst, getMeta_fst, h.metaSynced]
    rfl
  chainRegistry iter iter' hi hi' := by
    unfold Database.chainRegistry
    rw [h.metaSynced]
    exact ((hi'.perm _).trans (hi.perm _).symm).filterMap _
  getParent p := by
    rw [getParent_fst, getParent_fst, ← h.parent_blocks hs]
    rfl
  unclassifiedParents iter iter' hi hi' := by
    unfold Database.unclassifiedParents
    rw [← h.parent_blocks hs]
    exact (((hi'.perm _).trans (hi.perm _).symm).filter _).map _
  siblingsForParent p :=
    ((h.coherent_warm hs).siblingsForParent p).trans (h.coherent.siblingsForParent p).symm
  sharedMainnetParents iter iter' min_legs chain_filter hi hi' := by
    have hparents : (warmUpCache sha256d db.redb).cache_parents = db.cache_parents := h.parent_blocks hs
    unfold allSharedParents
    refine (List.mergeSort_perm _ _).trans (List.Perm.trans ?_ (List.mergeSort_perm _ _).symm)
    rw [hparents]
    have hcongr : (iter' db.cache_parents.entries).filterMap
          ((warmUpCache sha256d db.redb).sharedParent min_legs chain_filter) =
        (iter' db.cache_parents.entries).filterMap (db.sharedParent min_legs chain_filter) :=
      List.filterMap_congr fun e he => h.sharedParent_warm hs min_legs chain_filter ((hi'.perm _).mem_iff.1 he)
    rw [hcongr]
    exact ((hi'.perm _).trans (hi.perm _).symm).filterMap _
  epochBlocks iter iter' ltc_start ltc_end chain_filter page hi hi' :=
    h.epochBlocks_warm hs hi hi' ltc_start ltc_end chain_filter page
  stats := h.stats_warm hs

/-- A restart that changes no answer found the store settled. -/
theorem Restartable.settled {db : Database} (h : Restartable sha256d db)
    (hq : SameQueries db (warmUpCache sha256d db.redb)) : Settled db := by
  intro p sp hsp
  constructor
  · -- an unprobed parent is not on disk
    intro hzero
    have hmem := (@mem_unclassifiedParents (fun l => l) (fun _ => .refl _) db p).2 ⟨sp, hsp, hzero⟩
    have hmem' := (hq.unclassifiedParents (fun l => l) (fun l => l) .id .id).mem_iff.2 hmem
    obtain ⟨sp', hsp', hzero'⟩ := (mem_unclassifiedParents (fun _ => .refl _)).1 hmem'
    change db.redb.parent_blocks.get? p = some sp' at hsp'
    rw [h.classified p, Option.filter_eq_some_iff] at hsp'
    simp [hzero'] at hsp'
  · -- an emptied list is not rebuilt, and `min_legs = 0` shows the difference
    intro hltc hempty
    obtain ⟨ltc_h, hltc⟩ := Option.isSome_iff_exists.1 hltc
    have hin : (⟨p, ltc_h, []⟩ : SharedParent) ∈ db.allSharedParents (fun l => l) 0 none := by
      unfold allSharedParents
      rw [List.mem_mergeSort, List.mem_filterMap]
      refine ⟨(p, sp), KMap.mem_entries.2 hsp, ?_⟩
      simp [sharedParent, hltc, hempty, legsByChain, KMap.empty]
    have hin' := (hq.sharedMainnetParents (fun l => l) (fun l => l) 0 none .id .id).mem_iff.2 hin
    unfold allSharedParents at hin'
    rw [List.mem_mergeSort, List.mem_filterMap] at hin'
    obtain ⟨e, -, he⟩ := hin'
    have hnil : storedUnder sha256d db p = [] := by
      have hl := h.coherent.listed p
      unfold siblings at hl
      rw [hempty] at hl
      exact hl.symm.eq_nil
    unfold sharedParent at he
    simp only [Option.bind_eq_bind, Option.bind_eq_some_iff] at he
    obtain ⟨l, -, sibs, hsibs, he⟩ := he
    split_ifs at he
    simp only [Option.some.injEq, SharedParent.mk.injEq] at he
    rw [he.1, h.coherent.get?_warm, if_pos hnil] at hsibs
    cases hsibs

variable (sha256d)

/-- After a run of calls that overwrite nothing, the tables open again, and the
reopened store answers as before exactly when the store was settled. -/
theorem restart_transparent_iff (db₀ : Database) (ops : List StoreOp) (hopen : openDb sha256d Redb.empty = .ok db₀)
    (hops : Along (StoreOp.run sha256d) StoreOp.Consistent db₀ ops) :
    ∃ db', openDb sha256d (runStore sha256d db₀ ops).redb = .ok db' ∧
      (SameQueries (runStore sha256d db₀ ops) db' ↔ Settled (runStore sha256d db₀ ops)) := by
  have h : Restartable sha256d (runStore sha256d db₀ ops) :=
    hops.invariant (fun _ _ hi hop => hi.step hop) (restartable_fresh hopen)
  exact ⟨_, h.openDb, h.settled, h.sameQueries⟩

end Sha

/-- One block stored and its parent found on mainnet. -/
theorem restart_transparent_iff_classified :
    ∃ db', openDb sampleSha (runStore sampleSha freshDb [.insertBlocks [(⟨63, 1⟩, sampleBlock₁ 1)],
        .classifyParent sampleParentId₁ (some 7), .setCursorHeight 63 1]).redb = .ok db' ∧
      SameQueries (runStore sampleSha freshDb [.insertBlocks [(⟨63, 1⟩, sampleBlock₁ 1)],
        .classifyParent sampleParentId₁ (some 7), .setCursorHeight 63 1]) db' := by
  have hfresh : openDb sampleSha Redb.empty = .ok freshDb := rfl
  have hrow : RowOk freshDb (⟨63, 1⟩, sampleBlock₁ 1) :=
    ⟨⟨_, rfl, by decide +kernel⟩, ⟨rfl, rfl⟩, fun b hb => by cases hb⟩
  obtain ⟨db', hopen, hiff⟩ := restart_transparent_iff sampleSha freshDb
    [.insertBlocks [(⟨63, 1⟩, sampleBlock₁ 1)], .classifyParent sampleParentId₁ (some 7), .setCursorHeight 63 1] hfresh
    ⟨⟨by simpa using hrow, by simp⟩, trivial, trivial, trivial⟩
  refine ⟨db', hopen, hiff.2 ?_⟩
  -- the only cached parent is the classified one, and its list has the block
  intro p sp hsp
  have hall : (runStore sampleSha freshDb [.insertBlocks [(⟨63, 1⟩, sampleBlock₁ 1)],
      .classifyParent sampleParentId₁ (some 7), .setCursorHeight 63 1]).cache_parents.entries.all (fun e =>
        e.2.parent_state ≠ 0 && (runStore sampleSha freshDb [.insertBlocks [(⟨63, 1⟩, sampleBlock₁ 1)],
          .classifyParent sampleParentId₁ (some 7), .setCursorHeight 63 1]).cache_siblings.get? e.1 ≠ some []) = true := by
    decide +kernel
  have hp := List.all_eq_true.1 hall (p, sp) (KMap.mem_entries.2 hsp)
  simp only [Bool.and_eq_true, decide_eq_true_eq] at hp
  exact ⟨hp.1, fun _ => hp.2⟩

/-- One block stored, its parent unprobed: after a restart nobody will probe it. -/
theorem restart_forgets_parent :
    openDb sampleSha Redb.empty = .ok freshDb ∧
      (let db := runStore sampleSha freshDb [.insertBlocks [(⟨63, 1⟩, sampleBlock₁ 1)]]
       let db' := StoreOp.run sampleSha db .reopen
       db.unclassifiedParents (fun l => l) = [sampleParentId₁] ∧ db'.unclassifiedParents (fun l => l) = [] ∧
         (db.getParent sampleParentId₁).1.isSome = true ∧ (db'.getParent sampleParentId₁).1.isSome = false ∧
         db.stats.total_parents = 1 ∧ db'.stats.total_parents = 0) := by
  refine ⟨rfl, ?_⟩
  decide +kernel

end PsobIndexer
