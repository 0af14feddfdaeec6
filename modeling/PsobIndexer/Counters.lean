import PsobIndexer.Groups
/-!
# Counters

`stats` folds over the block cache and the parent cache; `chainBlockCount` and
`latestHeight` scan the block table, and the group listing filters the parents by
their mainnet height. On a coherent store they count the same blocks and the
same groups.
-/
open Lib

namespace PsobIndexer

open Database

/-! ## One chain's counters -/

/-- The heights of a chain's rows, in row order. -/
def heightsOf (rows : List BlockRow) (c : UInt32) : List UInt64 :=
  (rows.filter (fun row => row.1.chain_id = c)).map (fun row => row.1.height)

theorem max?_append_singleton (l : List UInt64) (h : UInt64) : (l ++ [h]).max? = some ((l.max?.map (max · h)).getD h) := by
  cases l with
  | nil => rfl
  | cons x xs =>
    rw [List.cons_append, List.max?_cons', List.max?_cons', List.foldl_append]
    rfl

/-- In increasing order, the greatest comes last and the least first. -/
theorem max?_of_increasing {l : List UInt64} (h : l.Pairwise (· < ·)) : l.max? = l.getLast? := by
  induction l using List.reverseRecOn with
  | nil => rfl
  | append_singleton l x ih =>
    obtain ⟨hl, -, hx⟩ := List.pairwise_append.1 h
    rw [max?_append_singleton, List.getLast?_concat, ih hl]
    cases hlast : l.getLast? with
    | none => rfl
    | some m =>
      have hlt := hx m (List.mem_of_getLast? hlast) x (List.mem_singleton_self x)
      rw [Option.map_some, Option.getD_some, max_eq_right hlt.le]

theorem elim_eq_getD {α β : Type} (o : Option α) (b : β) (f : α → β) : o.elim b f = (o.map f).getD b := by
  cases o <;> rfl

theorem get?_countRow (m : KMap UInt32 ChainStats) (row : BlockRow) {c : UInt32} {s : ChainStats}
    (h : (m.get? row.1.chain_id).getD ⟨row.1.chain_id, 0, none, none⟩ = s) :
    (countRow m row).get? c = if c = row.1.chain_id then
      some { s with
        blocks := s.blocks + 1
        min_height := some ((s.min_height.map (min · row.1.height)).getD row.1.height)
        max_height := some ((s.max_height.map (max · row.1.height)).getD row.1.height) }
      else m.get? c := by
  unfold countRow
  rw [KMap.get?_insert, h, elim_eq_getD, elim_eq_getD]
  split_ifs <;> rfl

/-- The fold's counters of one chain: how many rows it has, its least and its
greatest height. -/
theorem get?_countRows (rows : List BlockRow) (c : UInt32) :
    (rows.foldl countRow .empty).get? c =
      if heightsOf rows c = [] then none
      else some ⟨c, (heightsOf rows c).length, (heightsOf rows c).min?, (heightsOf rows c).max?⟩ := by
  induction rows using List.reverseRecOn generalizing c with
  | nil => rfl
  | append_singleton rows row ih =>
    -- a chain not seen yet has the counters of no rows
    have hentry : ((rows.foldl countRow .empty).get? row.1.chain_id).getD ⟨row.1.chain_id, 0, none, none⟩ =
        ⟨row.1.chain_id, (heightsOf rows row.1.chain_id).length, (heightsOf rows row.1.chain_id).min?,
          (heightsOf rows row.1.chain_id).max?⟩ := by
      rw [ih]
      split_ifs with hnil
      · rw [hnil]
        rfl
      · rfl
    rw [List.foldl_append, List.foldl_cons, List.foldl_nil, get?_countRow _ row hentry]
    by_cases hc : c = row.1.chain_id
    · subst hc
      have hheights : heightsOf (rows ++ [row]) row.1.chain_id = heightsOf rows row.1.chain_id ++ [row.1.height] := by
        simp [heightsOf]
      rw [if_pos rfl, hheights, if_neg (List.append_ne_nil_of_right_ne_nil _ (List.cons_ne_nil _ _)),
        min?_append_singleton, max?_append_singleton, List.length_append, List.length_singleton]
    · have hheights : heightsOf (rows ++ [row]) c = heightsOf rows c := by
        simp [heightsOf, Ne.symm hc]
      rw [if_neg hc, ih, hheights]

/-- Each row is counted once, for one chain. -/
theorem sum_countRow (m : KMap UInt32 ChainStats) (row : BlockRow) :
    ((countRow m row).entries.map (fun e => e.2.blocks)).sum = (m.entries.map (fun e => e.2.blocks)).sum + 1 := by
  unfold countRow
  simp only
  rw [((m.insert_perm _ _).map _).sum_eq, List.map_cons, List.sum_cons]
  cases hold : m.get? row.1.chain_id with
  | none =>
    rw [KMap.erase_of_none hold, Option.getD_none]
    dsimp only
    omega
  | some s =>
    rw [((KMap.erase_perm hold).map _).sum_eq, List.map_cons, List.sum_cons, Option.getD_some]
    dsimp only
    omega

theorem sum_countRows (rows : List BlockRow) :
    ((rows.foldl countRow .empty).entries.map (fun e => e.2.blocks)).sum = rows.length := by
  induction rows using List.reverseRecOn with
  | nil => rfl
  | append_singleton rows row ih =>
    rw [List.foldl_append, List.foldl_cons, List.foldl_nil, sum_countRow, ih, List.length_append, List.length_singleton]

/-! ## The scans of the table -/

/-- The rows of one chain, whatever their height. -/
theorem chainRows_all (db : Database) (c : UInt32) :
    db.chainRows c 0 u64Max = db.redb.aux_blocks.entries.filter (fun row => row.1.chain_id = c) := by
  rw [chainRows, KMap.range]
  refine List.filter_congr fun row _ => ?_
  have hmax : row.1.height ≤ u64Max := UInt64.le_iff_toNat_le.2 (Nat.le_of_lt_succ row.1.height.toNat_lt)
  simp [BlockKey.mem_window, hmax]

/-- The table lists a chain's heights in increasing order. -/
theorem heightsOf_increasing (m : KMap BlockKey StoredBlock) (c : UInt32) : (heightsOf m.entries c).Pairwise (· < ·) := by
  refine List.pairwise_map.2 ((m.sorted.filter _).imp_of_mem fun {a b} ha hb hlt => ?_)
  have hca : a.1.chain_id = c := by simpa using (List.mem_filter.1 ha).2
  have hcb : b.1.chain_id = c := by simpa using (List.mem_filter.1 hb).2
  rw [lt_iff_not_ge, BlockKey.le_iff] at hlt
  rw [UInt64.lt_iff_toNat_lt]
  simp only [BlockKey.toNat, hca, hcb] at hlt
  omega

theorem chainBlockCount_eq (db : Database) (c : UInt32) :
    db.chainBlockCount c = (heightsOf db.redb.aux_blocks.entries c).length := by
  rw [chainBlockCount, chainRows_all, heightsOf, List.length_map]

theorem latestHeight_eq (db : Database) (c : UInt32) :
    db.latestHeight c = (heightsOf db.redb.aux_blocks.entries c).max? := by
  rw [max?_of_increasing (heightsOf_increasing _ c), latestHeight, chainRows_all, heightsOf, List.getLast?_map]

theorem mem_heightsOf {m : KMap BlockKey StoredBlock} {c : UInt32} {h : UInt64} :
    h ∈ heightsOf m.entries c ↔ ∃ b, m.get? ⟨c, h⟩ = some b := by
  simp only [heightsOf, List.mem_map, List.mem_filter, decide_eq_true_eq, Prod.exists, KMap.mem_entries]
  constructor
  · rintro ⟨⟨c', h'⟩, b, ⟨hb, rfl⟩, rfl⟩
    exact ⟨b, hb⟩
  · rintro ⟨b, hb⟩
    exact ⟨⟨c, h⟩, b, ⟨hb, rfl⟩, rfl⟩

/-! ## Stats -/

theorem mem_stats_chains {db : Database} {s : ChainStats} :
    s ∈ db.stats.chains ↔ ∃ c, heightsOf db.cache_blocks.entries c ≠ [] ∧
      s = ⟨c, (heightsOf db.cache_blocks.entries c).length, (heightsOf db.cache_blocks.entries c).min?,
        (heightsOf db.cache_blocks.entries c).max?⟩ := by
  simp only [stats, List.mem_map, Prod.exists, exists_eq_right, KMap.mem_entries, get?_countRows]
  refine exists_congr fun c => ?_
  split_ifs with hnil
  · simp [hnil]
  · simp [hnil, eq_comm]

/-- One row for each chain. -/
theorem stats_chains_nodup (db : Database) : (db.stats.chains.map (·.chain_id)).Nodup := by
  have hkeys : db.stats.chains.map (·.chain_id) = (db.cache_blocks.entries.foldl countRow .empty).keys := by
    rw [stats, KMap.keys, List.map_map]
    refine List.map_congr_left fun e he => ?_
    have hget := KMap.mem_entries.1 he
    rw [get?_countRows] at hget
    split_ifs at hget
    rw [Function.comp_apply, ← Option.some.inj hget]
  rw [hkeys]
  exact KMap.keys_nodup _

section Sha
variable {sha256d : Bytes → Hash32}

/-- A cached parent is counted by `stats` exactly when the listing shows it. -/
theorem Coherent.isSiblingGroup {db : Database} (h : Coherent sha256d db) {e : Hash32 × StoredParent}
    (he : e ∈ db.cache_parents.entries) : db.isSiblingGroup e = (db.sharedParent 2 none e).isSome := by
  have hstate := h.states e.1 e.2 (KMap.mem_entries.1 he)
  rw [Bool.eq_iff_iff]
  unfold Database.isSiblingGroup sharedParent
  cases hltc : e.2.ltc_height with
  | none =>
    rw [hltc] at hstate
    simp only [Option.isSome_none, Bool.false_eq_true, iff_false] at hstate
    simp [hstate]
  | some ltc_h =>
    rw [hltc] at hstate
    simp only [Option.isSome_some, iff_true] at hstate
    cases hl : db.cache_siblings.get? e.1 with
    | none => simp
    | some l =>
      simp only [hstate, decide_true, Bool.true_and, Option.getD_some, decide_eq_true_eq, Option.bind_eq_bind,
        Option.bind_some, Option.all_none, List.filter_true, length_legsByChain]
      rw [← chainCount]
      split_ifs with hlen
      · simpa using hlen
      · simpa using hlen

theorem Coherent.sibling_groups {db : Database} (h : Coherent sha256d db)
    {iter : List (Hash32 × StoredParent) → List (Hash32 × StoredParent)} (hiter : ∀ l, (iter l).Perm l) (page : Page) :
    (db.sharedMainnetParents iter 2 page none).2 = db.stats.sibling_groups := by
  unfold sharedMainnetParents allSharedParents
  simp only [List.length_mergeSort]
  rw [List.length_filterMap_eq_countP, (hiter _).countP_eq, stats]
  exact List.countP_congr fun e he => by rw [h.isSiblingGroup he]

variable (sha256d)

/-- After any coherent run, the counters are those of the stored blocks, however
they are computed. -/
theorem stats_agree (db₀ : Database) (ops : List StoreOp) (hopen : openDb sha256d Redb.empty = .ok db₀)
    (hops : Along (StoreOp.run sha256d) StoreOp.Fresh db₀ ops) :
    let db := runStore sha256d db₀ ops
    db.stats.total_blocks = (db.stats.chains.map (·.blocks)).sum ∧
    (db.stats.chains.map (·.chain_id)).Nodup ∧
    (∀ c, (∃ s ∈ db.stats.chains, s.chain_id = c) ↔ ∃ h b, db.redb.aux_blocks.get? ⟨c, h⟩ = some b) ∧
    (∀ s ∈ db.stats.chains, s.blocks = db.chainBlockCount s.chain_id ∧ s.max_height = db.latestHeight s.chain_id ∧
      ∃ h, s.min_height = some h ∧ IsLeast {h | ∃ b, db.redb.aux_blocks.get? ⟨s.chain_id, h⟩ = some b} h) ∧
    ∀ (iter : List (Hash32 × StoredParent) → List (Hash32 × StoredParent)) (page : Page), (∀ l, (iter l).Perm l) →
      db.stats.sibling_groups = (db.sharedMainnetParents iter 2 page none).2 := by
  intro db
  have h : Coherent sha256d db := hops.invariant (fun _ _ hc hop => hc.step hop) (coherent_fresh hopen)
  refine ⟨?_, stats_chains_nodup db, ?_, ?_, fun iter page hiter => (h.sibling_groups hiter page).symm⟩
  · have hsum := sum_countRows db.cache_blocks.entries
    rw [h.cached] at hsum
    simp only [stats, totalBlocks, KMap.size, h.cached, List.map_map]
    exact hsum.symm
  · intro c
    simp only [mem_stats_chains, h.cached]
    constructor
    · rintro ⟨s, ⟨c', hne, rfl⟩, rfl⟩
      obtain ⟨hh, hmem⟩ := List.exists_mem_of_ne_nil _ hne
      exact ⟨hh, mem_heightsOf.1 hmem⟩
    · rintro ⟨hh, hb⟩
      exact ⟨_, ⟨c, List.ne_nil_of_mem (mem_heightsOf.2 hb), rfl⟩, rfl⟩
  · intro s hs
    rw [mem_stats_chains, h.cached] at hs
    obtain ⟨c, hne, rfl⟩ := hs
    refine ⟨(chainBlockCount_eq db c).symm, (latestHeight_eq db c).symm, ?_⟩
    obtain ⟨least, hleast⟩ := Option.isSome_iff_exists.1 (List.isSome_min?_of_ne_nil hne)
    obtain ⟨hmem, hle⟩ := List.min?_eq_some_iff.1 hleast
    exact ⟨least, hleast, mem_heightsOf.1 hmem, fun hh hb => hle hh (mem_heightsOf.2 hb)⟩

end Sha

/-- Two chains share one group, in both counts. -/
theorem stats_agree_shared : sharedDb.stats.sibling_groups = (sharedDb.sharedMainnetParents id 2 .default none).2 :=
  (stats_agree sampleSha freshDb _ rfl sharedDb_fresh).2.2.2.2 id .default fun l => .refl l

end PsobIndexer
