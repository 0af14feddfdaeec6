import PsobIndexer.Groups
/-!
# Epoch windows

`epochBlocks` joins the parent cache with the sibling lists. On a coherent store
the join has one row for each stored block of a mainnet parent, and no two rows
share a place in the order, so cutting the sorted rows into pages loses nothing
and the order of the map does not show.
-/
open Lib

namespace PsobIndexer

open Database

/-- The order of epoch rows, strictly: by LTC height, then chain, then height. -/
def EpochRow.Before (a b : EpochRow) : Prop :=
  a.ltc_height < b.ltc_height ∨ (a.ltc_height = b.ltc_height ∧
    (a.chain_id < b.chain_id ∨ (a.chain_id = b.chain_id ∧ a.height < b.height)))

def EpochRow.key (r : EpochRow) : BlockKey := ⟨r.chain_id, r.height⟩

theorem EpochRow.before_of_le {a b : EpochRow} (hle : EpochRow.le a b = true) (hne : a.key ≠ b.key) : a.Before b := by
  simp only [EpochRow.le, Bool.or_eq_true, Bool.and_eq_true, decide_eq_true_eq] at hle
  rcases hle with hltc | ⟨hltc, hchain | ⟨hchain, hheight⟩⟩
  · exact .inl hltc
  · exact .inr ⟨hltc, .inl hchain⟩
  · refine .inr ⟨hltc, .inr ⟨hchain, lt_of_le_of_ne hheight fun he => hne ?_⟩⟩
    rw [EpochRow.key, EpochRow.key, hchain, he]

section Sha
variable (sha256d : Bytes → Hash32)

/-- The row is about a stored block that passes the filter, under a mainnet parent
in the window. -/
def InEpoch (db : Database) (ltc_start ltc_end : UInt64) (chain_filter : Option UInt32) (r : EpochRow) : Prop :=
  ∃ b p, db.redb.aux_blocks.get? ⟨r.chain_id, r.height⟩ = some b ∧ b.hash_le = r.hash_le ∧
    b.parentHash sha256d = some p ∧ OnMainnetAt db p r.ltc_height ∧ ltc_start ≤ r.ltc_height ∧
    r.ltc_height ≤ ltc_end ∧ ∀ c, chain_filter = some c → r.chain_id = c

/-- The rows of a window before they are sorted. -/
def joinedRows (iter : List (Hash32 × StoredParent) → List (Hash32 × StoredParent)) (db : Database)
    (ltc_start ltc_end : UInt64) (chain_filter : Option UInt32) : List EpochRow :=
  (iter db.cache_parents.entries).flatMap (db.epochRows ltc_start ltc_end chain_filter)

variable {sha256d}

theorem Coherent.mem_epochRows {db : Database} (h : Coherent sha256d db) {ltc_start ltc_end : UInt64}
    {chain_filter : Option UInt32} {e : Hash32 × StoredParent} {r : EpochRow} :
    r ∈ db.epochRows ltc_start ltc_end chain_filter e ↔ e.2.ltc_height = some r.ltc_height ∧
      ltc_start ≤ r.ltc_height ∧ r.ltc_height ≤ ltc_end ∧ (∀ c, chain_filter = some c → r.chain_id = c) ∧
      ∃ b, db.redb.aux_blocks.get? r.key = some b ∧ b.parentHash sha256d = some e.1 ∧ b.hash_le = r.hash_le := by
  unfold epochRows
  cases hltc : e.2.ltc_height with
  | none => simp
  | some ltc_h =>
    simp only [Option.some.injEq]
    constructor
    · intro hr
      split_ifs at hr with hwin
      · obtain ⟨s, hs, rfl⟩ := List.mem_map.1 hr
        obtain ⟨hmem, hfilter⟩ := List.mem_filter.1 hs
        obtain ⟨⟨k, hk⟩, hp⟩ := h.mem_siblings.1 hmem
        refine ⟨rfl, hwin.1, hwin.2, ?_, s, ?_, hp, rfl⟩
        · rintro c rfl
          simpa using hfilter
        · rw [EpochRow.key, h.get?_key hk]
          exact hk
      · cases hr
    · rintro ⟨rfl, hlo, hhi, hfilter, b, hb, hp, hhash⟩
      obtain ⟨hc, hh⟩ := h.keyed _ b hb
      rw [if_pos ⟨hlo, hhi⟩]
      refine List.mem_map.2 ⟨b, List.mem_filter.2 ⟨h.mem_siblings.2 ⟨⟨_, hb⟩, hp⟩, ?_⟩, ?_⟩
      · cases chain_filter with
        | none => rfl
        | some c =>
          rw [Option.all_some, hc]
          exact beq_iff_eq.2 (hfilter c rfl)
      · obtain ⟨c, hh', l, x⟩ := r
        simp only [EpochRow.key] at hc hh
        rw [hc, hh, hhash]

theorem Coherent.mem_joinedRows {db : Database} (h : Coherent sha256d db)
    {iter : List (Hash32 × StoredParent) → List (Hash32 × StoredParent)} (hiter : ∀ l, (iter l).Perm l)
    {ltc_start ltc_end : UInt64} {chain_filter : Option UInt32} {r : EpochRow} :
    r ∈ joinedRows iter db ltc_start ltc_end chain_filter ↔ InEpoch sha256d db ltc_start ltc_end chain_filter r := by
  unfold joinedRows
  rw [List.mem_flatMap]
  constructor
  · rintro ⟨⟨p, sp⟩, he, hr⟩
    have hsp := KMap.mem_entries.1 ((hiter _).mem_iff.1 he)
    obtain ⟨hltc, hlo, hhi, hfilter, b, hb, hp, hhash⟩ := h.mem_epochRows.1 hr
    have hstate := (h.states p sp hsp).2 (by rw [hltc]; rfl)
    exact ⟨b, p, hb, hhash, hp, ⟨sp, hsp, hstate, hltc⟩, hlo, hhi, hfilter⟩
  · rintro ⟨b, p, hb, hhash, hp, ⟨sp, hsp, -, hltc⟩, hlo, hhi, hfilter⟩
    refine ⟨(p, sp), (hiter _).mem_iff.2 (KMap.mem_entries.2 hsp), ?_⟩
    exact h.mem_epochRows.2 ⟨hltc, hlo, hhi, hfilter, b, hb, hp, hhash⟩

/-- The stored blocks of a parent have different keys. -/
theorem Coherent.siblings_keys_nodup {db : Database} (h : Coherent sha256d db) (p : Hash32) :
    ((db.siblings p).map (fun b => (⟨b.chain_id, b.height⟩ : BlockKey))).Nodup := by
  rw [((h.listed p).map _).nodup_iff]
  have hkeys : (db.redb.aux_blocks.entries.map Prod.snd).map (fun b => (⟨b.chain_id, b.height⟩ : BlockKey)) =
      db.redb.aux_blocks.entries.map Prod.fst := by
    rw [List.map_map]
    refine List.map_congr_left fun e he => ?_
    exact h.get?_key (KMap.mem_entries.1 he)
  have hn : ((db.redb.aux_blocks.entries.map Prod.snd).map (fun b => (⟨b.chain_id, b.height⟩ : BlockKey))).Nodup := by
    rw [hkeys]
    exact KMap.keys_nodup _
  exact hn.sublist (List.filter_sublist.map _)

/-- No block has two rows. -/
theorem Coherent.joinedRows_nodup {db : Database} (h : Coherent sha256d db)
    {iter : List (Hash32 × StoredParent) → List (Hash32 × StoredParent)} (hiter : ∀ l, (iter l).Perm l)
    (ltc_start ltc_end : UInt64) (chain_filter : Option UInt32) :
    ((joinedRows iter db ltc_start ltc_end chain_filter).map EpochRow.key).Nodup := by
  unfold joinedRows
  rw [List.map_flatMap, List.nodup_flatMap]
  constructor
  · intro e _
    unfold epochRows
    split
    · exact List.nodup_nil
    · split_ifs
      · rw [List.map_map]
        exact (h.siblings_keys_nodup e.1).sublist (List.filter_sublist.map _)
      · exact List.nodup_nil
  · have hkeys : (iter db.cache_parents.entries).Pairwise (fun e e' => e.1 ≠ e'.1) := by
      rw [← List.pairwise_map, ← List.Nodup, ((hiter _).map _).nodup_iff]
      exact KMap.keys_nodup _
    -- a block under two parents would have two parents
    refine hkeys.imp fun hne k hk hk' => ?_
    obtain ⟨r, hr, rfl⟩ := List.mem_map.1 hk
    obtain ⟨r', hr', he⟩ := List.mem_map.1 hk'
    obtain ⟨-, -, -, -, b, hb, hp, -⟩ := h.mem_epochRows.1 hr
    obtain ⟨-, -, -, -, b', hb', hp', -⟩ := h.mem_epochRows.1 hr'
    rw [he, hb] at hb'
    cases hb'
    rw [hp] at hp'
    exact hne (Option.some.inj hp')

theorem epochBlocks_eq (iter : List (Hash32 × StoredParent) → List (Hash32 × StoredParent)) (db : Database)
    (ltc_start ltc_end : UInt64) (chain_filter : Option UInt32) (page : Page) :
    db.epochBlocks iter ltc_start ltc_end chain_filter page =
      (page.slice ((joinedRows iter db ltc_start ltc_end chain_filter).mergeSort EpochRow.le),
        ((joinedRows iter db ltc_start ltc_end chain_filter).mergeSort EpochRow.le).length) := rfl

/-- The sorted rows do not depend on the order of the map. -/
theorem Coherent.sortedRows {db : Database} (h : Coherent sha256d db)
    {iter : List (Hash32 × StoredParent) → List (Hash32 × StoredParent)} (hiter : ∀ l, (iter l).Perm l)
    (ltc_start ltc_end : UInt64) (chain_filter : Option UInt32) :
    (joinedRows iter db ltc_start ltc_end chain_filter).mergeSort EpochRow.le =
      (joinedRows id db ltc_start ltc_end chain_filter).mergeSort EpochRow.le := by
  refine mergeSort_eq_of_perm EpochRow.le_trans EpochRow.le_total ((hiter _).flatMap_right _) ?_
  intro a ha b hb hab hba
  obtain ⟨e, -, hae⟩ := List.mem_flatMap.1 ha
  obtain ⟨e', -, hbe⟩ := List.mem_flatMap.1 hb
  exact h.epochRow_unique hae hbe hab hba

theorem Coherent.sortedRows_increasing {db : Database} (h : Coherent sha256d db) (ltc_start ltc_end : UInt64)
    (chain_filter : Option UInt32) :
    ((joinedRows id db ltc_start ltc_end chain_filter).mergeSort EpochRow.le).Pairwise EpochRow.Before := by
  have hle := List.pairwise_mergeSort EpochRow.le_trans EpochRow.le_total
    (joinedRows id db ltc_start ltc_end chain_filter)
  have hn := h.joinedRows_nodup List.Perm.refl ltc_start ltc_end chain_filter
  rw [← ((List.mergeSort_perm _ EpochRow.le).map _).nodup_iff, List.Nodup, List.pairwise_map] at hn
  exact hle.imp₂ (fun _ _ hab hne => EpochRow.before_of_le hab hne) hn

variable (sha256d)

/-- After any coherent run, the pages of a window show one row for each stored
block under a mainnet parent in it, in strictly increasing order, whatever order
the map yields its parents in on each page. -/
theorem epoch_windows_complete (db₀ : Database) (ops : List StoreOp) (hopen : openDb sha256d Redb.empty = .ok db₀)
    (hops : Along (StoreOp.run sha256d) StoreOp.Fresh db₀ ops) (ltc_start ltc_end : UInt64)
    (chain_filter : Option UInt32) (limit : Nat) (hlimit : 1 ≤ limit) :
    let db := runStore sha256d db₀ ops
    ∃ rows : List EpochRow,
      (∀ (iters : Nat → List (Hash32 × StoredParent) → List (Hash32 × StoredParent)) (n : Nat),
        (∀ i l, (iters i l).Perm l) → rows.length ≤ n →
        (List.range n).flatMap (fun i =>
          (db.epochBlocks (iters i) ltc_start ltc_end chain_filter ⟨limit, i * limit⟩).1) = rows) ∧
      (∀ (iter : List (Hash32 × StoredParent) → List (Hash32 × StoredParent)) (page : Page), (∀ l, (iter l).Perm l) →
        (db.epochBlocks iter ltc_start ltc_end chain_filter page).2 = rows.length) ∧
      rows.Pairwise EpochRow.Before ∧
      (rows.map EpochRow.key).Nodup ∧
      ∀ r, r ∈ rows ↔ InEpoch sha256d db ltc_start ltc_end chain_filter r := by
  intro db
  have h : Coherent sha256d db := hops.invariant (fun _ _ hc hop => hc.step hop) (coherent_fresh hopen)
  refine ⟨(joinedRows id db ltc_start ltc_end chain_filter).mergeSort EpochRow.le, ?_, ?_, ?_, ?_, ?_⟩
  · intro iters n hiters hn
    have hlen := hn.trans (Nat.le_mul_of_pos_right n hlimit)
    simp only [epochBlocks_eq, h.sortedRows (hiters _), Page.slice]
    rw [flatMap_pages, List.take_of_length_le hlen]
  · intro iter page hiter
    rw [epochBlocks_eq, h.sortedRows hiter]
  · exact h.sortedRows_increasing ltc_start ltc_end chain_filter
  · rw [((List.mergeSort_perm _ EpochRow.le).map _).nodup_iff]
    exact h.joinedRows_nodup List.Perm.refl ltc_start ltc_end chain_filter
  · intro r
    rw [List.mem_mergeSort]
    exact h.mem_joinedRows List.Perm.refl

end Sha

/-- The two legs of a shared parent at LTC height 7, chain 50 first. -/
theorem epoch_windows_complete_shared :
    ∃ rows : List EpochRow, (∀ r, r ∈ rows ↔ InEpoch sampleSha sharedDb 1 9 none r) ∧
      (List.range rows.length).flatMap (fun i => (sharedDb.epochBlocks id 1 9 none ⟨1, i * 1⟩).1) = rows := by
  obtain ⟨rows, hpages, -, -, -, hmem⟩ := epoch_windows_complete sampleSha freshDb _ rfl sharedDb_fresh 1 9 none 1 le_rfl
  exact ⟨rows, hmem, hpages (fun _ => id) rows.length (fun _ l => .refl l) le_rfl⟩

end PsobIndexer
