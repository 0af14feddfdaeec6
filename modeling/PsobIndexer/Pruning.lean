import PsobIndexer.Isolation
import PsobIndexer.Transparency
/-!
# What a pruning removes

`pruneBefore` picks the old rows twice: on disk by a key range that ends at the
saturated `below - 1`, in the caches by `height < below`. The two agree for every
`below` from 1 on. For 0 the range still holds height 0, and the table loses a
block that the caches keep.
-/
open Lib

namespace PsobIndexer

open Database

section Sha
variable (sha256d : Bytes → Hash32)

/-- The pruning takes the blocks of chain `c` below `below` out of the tables and
the caches, counts them, and does nothing else. -/
structure PruneExact (db : Database) (c : UInt32) (below : UInt64) : Prop where
  blocks : ∀ k, (db.pruneBefore sha256d true c below).2.redb.aux_blocks.get? k =
    if k.chain_id = c ∧ k.height < below then none else db.redb.aux_blocks.get? k
  cached : ∀ k, (db.pruneBefore sha256d true c below).2.cache_blocks.get? k =
    if k.chain_id = c ∧ k.height < below then none else db.cache_blocks.get? k
  index : ∀ k : SiblingKey, (db.pruneBefore sha256d true c below).2.redb.sibling_index.get? k =
    if k.chain_id = c ∧ k.height < below then none else db.redb.sibling_index.get? k
  lists : ∀ p, (db.pruneBefore sha256d true c below).2.cache_siblings.get? p =
    (db.cache_siblings.get? p).map (List.filter (fun b => !(b.chain_id = c && b.height < below)))
  count : (db.pruneBefore sha256d true c below).1 =
    .ok (db.redb.aux_blocks.keys.countP (fun k => k.chain_id = c && k.height < below))
  cursor : ∀ c', ((db.pruneBefore sha256d true c below).2.cursorHeight c').1 = (db.cursorHeight c').1
  parents : (db.pruneBefore sha256d true c below).2.cache_parents = db.cache_parents ∧
    (db.pruneBefore sha256d true c below).2.redb.parent_blocks = db.redb.parent_blocks
  again : (db.pruneBefore sha256d true c below).2.pruneBefore sha256d true c below =
    (.ok 0, (db.pruneBefore sha256d true c below).2)

theorem get?_filter_below {α : Type} (m : KMap BlockKey α) (c : UInt32) (below : UInt64) (k : BlockKey) :
    (m.filter (fun k _ => keepKey c (· < below) k)).get? k =
      if k.chain_id = c ∧ k.height < below then none else m.get? k := by
  have h := get?_filter_keepKey m c k.chain_id (· < below) k.height
  simpa only [decide_eq_true_eq] using h

/-- The window on disk has as many rows as there are old blocks. -/
theorem length_prunedRows (db : Database) (c : UInt32) {below : UInt64} (hbelow : 1 ≤ below) :
    (db.chainRows c 0 (saturatingSub below 1)).length =
      db.redb.aux_blocks.keys.countP (fun k => k.chain_id = c && k.height < below) := by
  rw [chainRows, KMap.range, KMap.keys, List.countP_map, List.countP_eq_length_filter]
  congr 1
  refine List.filter_congr fun e _ => ?_
  simp only [BlockKey.mem_window, le_saturatingSub_one hbelow, UInt64.zero_le, true_and, Function.comp_apply,
    Bool.decide_and]

variable {sha256d}

/-- A list that is not visited has no block to drop. -/
theorem Coherent.get?_keptSiblings {db : Database} (h : Coherent sha256d db) (c : UInt32) (drop : UInt64 → Bool)
    (p : Hash32) :
    (db.keptSiblings sha256d c drop).get? p = (db.cache_siblings.get? p).map (List.filter (keepBlock c drop)) := by
  have hlist := h.keptSiblings c drop p
  unfold siblings at hlist
  unfold Database.keptSiblings at hlist ⊢
  rw [get?_retainSiblings] at hlist ⊢
  split_ifs with hp
  · rfl
  · rw [if_neg hp] at hlist
    cases hget : db.cache_siblings.get? p with
    | none => rfl
    | some l =>
      rw [hget, Option.getD_some] at hlist
      rw [Option.map_some, ← hlist]

theorem Coherent.pruneExact {db : Database} (h : Coherent sha256d db) (c : UInt32) {below : UInt64} (hbelow : 1 ≤ below) :
    PruneExact sha256d db c below := by
  have hafter := pruneBefore_true sha256d db c hbelow
  have hblocks : ∀ k, (db.prunedBelow sha256d c below).redb.aux_blocks.get? k =
      if k.chain_id = c ∧ k.height < below then none else db.redb.aux_blocks.get? k :=
    get?_filter_below db.redb.aux_blocks c below
  have hcached : ∀ k, (db.prunedBelow sha256d c below).cache_blocks.get? k =
      if k.chain_id = c ∧ k.height < below then none else db.cache_blocks.get? k :=
    get?_filter_below db.cache_blocks c below
  constructor
  · rw [hafter]
    exact hblocks
  · rw [hafter]
    exact hcached
  · intro k
    rw [hafter, h.indexed.get?_prunedBelow c hbelow]
    simp only [decide_eq_true_eq]
  · intro p
    rw [hafter]
    exact h.get?_keptSiblings c (· < below) p
  · rw [← length_prunedRows db c hbelow]
    rfl
  · intro c'
    rw [hafter]
    simp only [cursorHeight_fst, getMeta_fst]
    rfl
  · rw [hafter]
    exact ⟨rfl, rfl⟩
  · rw [hafter]
    apply pruneBefore_nothing
    · refine List.eq_nil_iff_forall_not_mem.2 fun row hrow => ?_
      obtain ⟨hget, hc, -, hle⟩ := mem_chainRows.1 hrow
      rw [hblocks, if_pos ⟨hc, (le_saturatingSub_one hbelow _).1 hle⟩] at hget
      cases hget
    · refine List.eq_nil_iff_forall_not_mem.2 fun row hrow => ?_
      rw [droppedRows, List.mem_filter, Bool.and_eq_true, decide_eq_true_eq, decide_eq_true_eq] at hrow
      have hget := KMap.mem_entries.1 hrow.1
      rw [hcached, if_pos hrow.2] at hget
      cases hget

/-- Below 0 there is nothing to prune, and nothing happens if height 0 is free. -/
theorem pruneExact_zero {db : Database} {c : UInt32} (h : db.redb.aux_blocks.get? ⟨c, 0⟩ = none) :
    PruneExact sha256d db c 0 := by
  have hnothing := pruneBefore_zero sha256d h
  constructor
  · simp only [hnothing, UInt64.not_lt_zero, and_false, if_false, implies_true]
  · simp only [hnothing, UInt64.not_lt_zero, and_false, if_false, implies_true]
  · simp only [hnothing, UInt64.not_lt_zero, and_false, if_false, implies_true]
  · intro p
    simp only [hnothing, UInt64.not_lt_zero, decide_false, Bool.and_false, Bool.not_false]
    cases db.cache_siblings.get? p with
    | none => rfl
    | some l => rw [Option.map_some, List.filter_true]
  · simp [hnothing]
  · simp only [hnothing, implies_true]
  · simp only [hnothing, and_self]
  · simp only [hnothing]

variable (sha256d)

/-- The two layers select the same rows except where `below` is 0 and a block
stands at height 0. -/
theorem prune_exact_iff (db : Database) (h : Coherent sha256d db) (c : UInt32) (below : UInt64) :
    PruneExact sha256d db c below ↔ 1 ≤ below ∨ db.redb.aux_blocks.get? ⟨c, 0⟩ = none := by
  constructor
  · intro hexact
    by_cases hbelow : 1 ≤ below
    · exact .inl hbelow
    · obtain rfl := eq_zero_of_not_one_le hbelow
      have hkept := hexact.blocks ⟨c, 0⟩
      rw [if_neg (fun hlt => UInt64.not_lt_zero hlt.2)] at hkept
      cases hb : db.redb.aux_blocks.get? ⟨c, 0⟩ with
      | none => exact .inr rfl
      | some b =>
        have hrow : ((⟨c, 0⟩, b) : BlockRow) ∈ db.chainRows c 0 (saturatingSub 0 1) :=
          mem_chainRows.2 ⟨hb, rfl, UInt64.zero_le, UInt64.zero_le⟩
        have hgone : (db.pruneBefore sha256d true c 0).2.redb.aux_blocks.get? ⟨c, 0⟩ = none := by
          unfold pruneBefore
          simp only [not_true, if_false, KMap.get?_eraseAll]
          rw [if_pos (List.mem_map.2 ⟨_, hrow, rfl⟩)]
        rw [hgone, hb] at hkept
        cases hkept
  · rintro (hbelow | hfree)
    · exact h.pruneExact c hbelow
    · by_cases hbelow : 1 ≤ below
      · exact h.pruneExact c hbelow
      · obtain rfl := eq_zero_of_not_one_le hbelow
        exact pruneExact_zero hfree

end Sha

/-- Chain 63 loses its first block to a pruning below 2, and its parent keeps the
block of chain 50. -/
theorem prune_exact_shared : PruneExact sampleSha sharedDb 63 2 :=
  (prune_exact_iff sampleSha sharedDb coherent_sharedDb 63 2).2 (.inl (by decide))

/-- A chain ingested from its genesis. -/
def genesisDb : Database := runStore sampleSha freshDb [.insertBlocks [(⟨63, 0⟩, sampleBlock₁ 0)]]

theorem coherent_genesisDb : Coherent sampleSha genesisDb := by
  have hops : Along (StoreOp.run sampleSha) StoreOp.Fresh freshDb [.insertBlocks [(⟨63, 0⟩, sampleBlock₁ 0)]] := by
    refine ⟨⟨by decide, ?_⟩, trivial⟩
    intro row hrow
    rw [List.mem_singleton] at hrow
    subst hrow
    exact ⟨rfl, rfl, rfl, _, rfl, by decide +kernel⟩
  exact hops.invariant (fun _ _ hc hop => hc.step hop) (coherent_fresh rfl)

/-- Pruning below 0 removes the genesis block from the table and not from the cache. -/
theorem prune_below_zero : Coherent sampleSha genesisDb ∧
    (genesisDb.pruneBefore sampleSha true 63 0).2.redb.aux_blocks.contains ⟨63, 0⟩ = false ∧
    (genesisDb.pruneBefore sampleSha true 63 0).2.cache_blocks.contains ⟨63, 0⟩ = true ∧
    ¬ PruneExact sampleSha genesisDb 63 0 := by
  have hafter : genesisDb.redb.aux_blocks.contains ⟨63, 0⟩ = true ∧
      (genesisDb.pruneBefore sampleSha true 63 0).2.redb.aux_blocks.contains ⟨63, 0⟩ = false ∧
      (genesisDb.pruneBefore sampleSha true 63 0).2.cache_blocks.contains ⟨63, 0⟩ = true := by decide +kernel
  obtain ⟨hbefore, htable, hcache⟩ := hafter
  refine ⟨coherent_genesisDb, htable, hcache, fun h => ?_⟩
  have hkept := h.blocks ⟨63, 0⟩
  rw [if_neg (fun hlt => UInt64.not_lt_zero hlt.2)] at hkept
  rw [KMap.contains, hkept, ← KMap.contains, hbefore] at htable
  cases htable

end PsobIndexer
