import PsobIndexer.Coherence
/-!
# Restarts

Opening the tables again rebuilds the caches. Parents are written to disk only
when they are classified, so a restart forgets the unprobed ones; a rollback
removes the index rows of cached parents only, so after a restart it can leave
rows behind. Both results below say under which condition this does not happen:
`sibling_queries_right` for the sibling index over runs with restarts, and
`restart_transparent_iff` for all queries over one restart.
-/
open Lib

namespace PsobIndexer

open Database

section Sha
variable (sha256d : Bytes → Hash32)

/-! ## The sibling index over runs with restarts -/

/-- The calls of the store; a rollback finds the parents of the blocks it drops
in the cache. -/
def StoreOp.ParentsCached (db : Database) : StoreOp → Prop
  | insertBlocks rows => (rows.map Prod.fst).Nodup ∧ ∀ row ∈ rows, db.redb.aux_blocks.get? row.1 = none ∧ Witnessed row
  | rollbackFrom c from_height => ∀ k b p, db.redb.aux_blocks.get? k = some b → k.chain_id = c →
      from_height ≤ k.height → b.parentHash sha256d = some p → ∃ sp, db.cache_parents.get? p = some sp
  | pruneBefore _ below => 1 ≤ below
  | _ => True

variable {sha256d}

theorem classifyParent_tables (commit : Bool) (db : Database) (p : Hash32) (ltc_height : Option UInt64) :
    (db.classifyParent commit p ltc_height).2.redb.aux_blocks = db.redb.aux_blocks ∧
      (db.classifyParent commit p ltc_height).2.redb.sibling_index = db.redb.sibling_index := by
  unfold classifyParent
  cases commit with
  | false => exact ⟨rfl, rfl⟩
  | true =>
    simp only [not_true, if_false]
    split <;> exact ⟨rfl, rfl⟩

theorem Indexed.of_eq {r r' : Redb} (h : Indexed sha256d r) (haux : r'.aux_blocks = r.aux_blocks)
    (hindex : r'.sibling_index = r.sibling_index) : Indexed sha256d r' := by
  unfold Indexed
  rw [haux, hindex]
  exact h

/-- Opening rewrites no block and no index row. -/
theorem openDb_tables {r : Redb} {db : Database} (h : openDb sha256d r = .ok db) :
    db.redb.aux_blocks = r.aux_blocks ∧ db.redb.sibling_index = r.sibling_index := by
  unfold openDb Redb.gate at h
  split at h
  · split_ifs at h
    · cases h
      exact ⟨rfl, rfl⟩
    · cases h
  · cases h
    exact ⟨rfl, rfl⟩

theorem Indexed.rollbackFrom {db : Database} (h : Indexed sha256d db.redb) {c : UInt32} {from_height : UInt64}
    (hop : (StoreOp.rollbackFrom c from_height).ParentsCached sha256d db) :
    Indexed sha256d (db.rollbackFrom sha256d true (fun _ => true) true c from_height).2.redb := by
  rw [rollbackFrom_true]
  obtain ⟨ha, hi, -⟩ := rewindCursor_frame true (db.rolledBack sha256d c from_height) c from_height
  have hrolled : Indexed sha256d (db.rolledBack sha256d c from_height).redb := h.drop rfl (h.get?_rolledBack hop)
  exact hrolled.of_eq ha hi

theorem Indexed.insertBlocks {db : Database} (h : Indexed sha256d db.redb) {rows : List BlockRow}
    (hop : (StoreOp.insertBlocks rows).ParentsCached sha256d db) :
    Indexed sha256d (db.insertBlocks sha256d true rows).2.redb := by
  obtain ⟨hn, hrows⟩ := hop
  rw [insertBlocks_ok sha256d db rows fun row hr => (hrows row hr).2]
  induction rows generalizing db with
  | nil => exact h
  | cons row rows ih =>
    obtain ⟨hnot, hn⟩ := List.nodup_cons.1 hn
    obtain ⟨hnone, hw⟩ := hrows row List.mem_cons_self
    refine ih (h.insertOne hw fun b hb => ?_) hn fun r hr => ?_
    · rw [hnone] at hb
      cases hb
    · have hne : r.1 ≠ row.1 := fun he => hnot (he ▸ List.mem_map.2 ⟨r, hr, rfl⟩)
      rw [aux_blocks_insertOne hw, KMap.get?_insert, if_neg hne]
      exact hrows r (List.mem_cons_of_mem _ hr)

theorem upsertChain_tables (commit : Bool) (db : Database) (c : UInt32) (name electrs : String) :
    (db.upsertChain commit c name electrs).2.redb.aux_blocks = db.redb.aux_blocks ∧
      (db.upsertChain commit c name electrs).2.redb.sibling_index = db.redb.sibling_index := by
  obtain ⟨m, hm⟩ := getMeta_frame db (chainKey c)
  unfold upsertChain setMeta
  simp only [hm]
  split_ifs <;> exact ⟨rfl, rfl⟩

theorem Indexed.step {db : Database} {op : StoreOp} (h : Indexed sha256d db.redb) (hop : op.ParentsCached sha256d db) :
    Indexed sha256d (op.run sha256d db).redb := by
  cases op with
  | insertBlocks rows => exact h.insertBlocks hop
  | rollbackFrom c from_height => exact h.rollbackFrom hop
  | pruneBefore c below =>
    have hbelow : 1 ≤ below := hop
    change Indexed sha256d (db.pruneBefore sha256d true c below).2.redb
    rw [pruneBefore_true sha256d db c hbelow]
    exact h.drop rfl (h.get?_prunedBelow c hbelow)
  | classifyParent p ltc_height =>
    obtain ⟨ha, hi⟩ := classifyParent_tables true db p ltc_height
    exact h.of_eq ha hi
  | setCursorHeight c hh => exact h.of_eq rfl rfl
  | upsertChain c name electrs =>
    obtain ⟨ha, hi⟩ := upsertChain_tables true db c name electrs
    exact h.of_eq ha hi
  | reopen =>
    change Indexed sha256d ((openDb sha256d db.redb).toOption.getD db).redb
    cases ho : openDb sha256d db.redb with
    | error e => exact h
    | ok db' => exact h.of_eq (openDb_tables ho).1 (openDb_tables ho).2

/-- The blocks of one parent's index rows are under that parent. -/
theorem Indexed.indexedBlocks {db : Database} (h : Indexed sha256d db.redb) {p : Hash32} {b : StoredBlock}
    (hb : b ∈ db.indexedBlocks p) : b.parentHash sha256d = some p := by
  obtain ⟨⟨k, u⟩, hk, hget⟩ := List.mem_filterMap.1 hb
  obtain ⟨hrow, hwin⟩ := KMap.mem_range.1 hk
  rw [SiblingKey.mem_parent] at hwin
  obtain ⟨b', hb', hp⟩ := (h k).1 hrow
  rw [hget] at hb'
  cases hb'
  rw [hp, hwin]

variable (sha256d)

/-- In a run whose rollbacks all find the parents of the blocks they drop in the
cache, a sibling query returns blocks of its parent only, and such a rollback
leaves no index row at its heights. -/
theorem sibling_queries_right (db₀ : Database) (ops : List StoreOp) (hopen : openDb sha256d Redb.empty = .ok db₀)
    (hops : Along (StoreOp.run sha256d) (StoreOp.ParentsCached sha256d) db₀ ops) :
    (∀ p page, ∀ b ∈ ((runStore sha256d db₀ ops).siblingBlocksRange p page).1, b.parentHash sha256d = some p) ∧
    ∀ c from_height, (StoreOp.rollbackFrom c from_height).ParentsCached sha256d (runStore sha256d db₀ ops) →
      ∀ q h, from_height ≤ h → (runStore sha256d db₀ (ops ++ [.rollbackFrom c from_height])).redb.sibling_index.contains
        ⟨q, c, h⟩ = false := by
  have hrun : Indexed sha256d (runStore sha256d db₀ ops).redb :=
    hops.invariant (I := fun db => Indexed sha256d db.redb) (fun _ _ hi hop => hi.step hop) (coherent_fresh hopen).indexed
  constructor
  · intro p page b hb
    exact hrun.indexedBlocks (List.mem_of_mem_drop (List.mem_of_mem_take hb))
  · intro c from_height hop q h hle
    have hafter := hrun.get?_rolledBack hop ⟨q, c, h⟩
    rw [if_pos ⟨rfl, by simpa using hle⟩] at hafter
    rw [runStore, List.foldl_append]
    change ((runStore sha256d db₀ ops).rollbackFrom sha256d true (fun _ => true) true c from_height).2.redb.sibling_index.contains
      _ = false
    rw [rollbackFrom_true, KMap.contains, (rewindCursor_frame true _ c from_height).2.1, hafter]
    rfl

end Sha

/-- A classified parent survives the restart, so the rollback after it cleans up. -/
theorem sibling_queries_right_classified :
    (runStore sampleSha freshDb ([.insertBlocks [(⟨63, 1⟩, sampleBlock₁ 1)], .classifyParent sampleParentId₁ (some 7),
      .reopen] ++ [.rollbackFrom 63 1])).redb.sibling_index.contains ⟨sampleParentId₁, 63, 1⟩ = false := by
  have hcached : ∀ k b p, (runStore sampleSha freshDb [.insertBlocks [(⟨63, 1⟩, sampleBlock₁ 1)],
      .classifyParent sampleParentId₁ (some 7), .reopen]).redb.aux_blocks.get? k = some b → k.chain_id = 63 →
      (1 : UInt64) ≤ k.height → b.parentHash sampleSha = some p →
      ∃ sp, (runStore sampleSha freshDb [.insertBlocks [(⟨63, 1⟩, sampleBlock₁ 1)],
        .classifyParent sampleParentId₁ (some 7), .reopen]).cache_parents.get? p = some sp := by
    intro k b p hb _ _ hp
    have hone : (runStore sampleSha freshDb [.insertBlocks [(⟨63, 1⟩, sampleBlock₁ 1)],
        .classifyParent sampleParentId₁ (some 7), .reopen]).redb.aux_blocks.entries.map
          (fun e => e.2.parentHash sampleSha) = [some sampleParentId₁] := by
      decide +kernel
    have hmem := List.mem_map_of_mem (f := fun e : BlockRow => e.2.parentHash sampleSha) (KMap.mem_entries.2 hb)
    rw [hone, List.mem_singleton, hp] at hmem
    obtain rfl := Option.some.inj hmem
    exact Option.isSome_iff_exists.1 (by decide +kernel)
  have hfresh : openDb sampleSha Redb.empty = .ok freshDb := rfl
  refine (sibling_queries_right sampleSha freshDb _ hfresh ?_).2 63 1 hcached sampleParentId₁ 1 (le_refl _)
  refine ⟨⟨by decide, ?_⟩, trivial, trivial, trivial⟩
  intro row hrow
  rw [List.mem_singleton] at hrow
  subst hrow
  exact ⟨rfl, _, rfl, by decide +kernel⟩

/-- After insert, restart and rollback the row of the first block's parent is
still indexed; once another block is stored at its key, a query for that parent
returns it. -/
theorem sibling_query_misattributes :
    openDb sampleSha Redb.empty = .ok freshDb ∧
      (runStore sampleSha freshDb [.insertBlocks [(⟨63, 1⟩, sampleBlock₁ 1)], .reopen,
        .rollbackFrom 63 1]).redb.sibling_index.contains ⟨sampleParentId₁, 63, 1⟩ = true ∧
      ((runStore sampleSha freshDb [.insertBlocks [(⟨63, 1⟩, sampleBlock₁ 1)], .reopen, .rollbackFrom 63 1,
        .insertBlocks [(⟨63, 1⟩, sampleBlock₂ 1)]]).siblingBlocksRange sampleParentId₁ .default).1.map
          (fun b => b.parentHash sampleSha) = [some sampleParentId₂] ∧
      sampleParentId₂ ≠ sampleParentId₁ := by
  refine ⟨rfl, ?_⟩
  decide +kernel

end PsobIndexer
