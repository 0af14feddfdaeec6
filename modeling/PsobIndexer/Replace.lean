import PsobIndexer.Coherence
/-!
# A second block at a taken key

`insert_blocks` overwrites the row of a taken key, but it only ever adds to the
sibling index, and a sibling list refuses an entry whose chain and height it
has. What it leaves is compared with what it leaves on a store that has lost the
old block everywhere.
-/
open Lib

namespace PsobIndexer

open Database

/-- The store without the block at `k`: in no table, no cache and no list. -/
def Database.removed (db : Database) (k : BlockKey) : Database :=
  { db with
    redb := { db.redb with
      aux_blocks := db.redb.aux_blocks.erase k
      sibling_index := db.redb.sibling_index.filter (fun s _ => !(s.chain_id = k.chain_id && s.height = k.height)) }
    cache_blocks := db.cache_blocks.erase k
    cache_siblings := retainSiblings db.cache_siblings db.cache_siblings.keys k.chain_id (· = k.height) }

section Sha
variable (sha256d : Bytes → Hash32)

/-- After `b` went in at `k`, the store answers as `clean` does about `k`, and `k`
is listed under the parent of `b` alone; sibling lists are compared by `same`. -/
structure Replaced (same : List StoredBlock → List StoredBlock → Prop) (k : BlockKey) (b : StoredBlock)
    (after clean : Database) : Prop where
  blockAt : (after.blockAt k.chain_id k.height).1 = (clean.blockAt k.chain_id k.height).1
  rows : after.redb.aux_blocks = clean.redb.aux_blocks
  siblings : ∀ p, same (after.siblingsForParent p) (clean.siblingsForParent p)
  range : ∀ p page, after.siblingBlocksRange p page = clean.siblingBlocksRange p page
  index : after.redb.sibling_index = clean.redb.sibling_index
  one_parent : ∀ p, after.redb.sibling_index.contains ⟨p, k.chain_id, k.height⟩ = true ↔ b.parentHash sha256d = some p
  entries : ∀ p, ∀ s ∈ after.siblings p, s.chain_id = k.chain_id → s.height = k.height → s = b

variable {sha256d}

/-! ## One committed row -/

/-- A block that went in has a witness. -/
theorem insertBlocks_one_ok {db : Database} {k : BlockKey} {b : StoredBlock}
    (h : (db.insertBlocks sha256d true [(k, b)]).1 = .ok ()) : ∃ p, b.parentHash sha256d = some p := by
  cases hp : b.parentHash sha256d with
  | some p => exact ⟨p, rfl⟩
  | none =>
    unfold insertBlocks at h
    rw [if_neg (List.cons_ne_nil _ _)] at h
    simp only [List.foldlM_cons, insertRow, hp] at h
    cases h

/-- The row, its index entry and its place on the list of its parent. -/
theorem insertBlocks_one (db : Database) {k : BlockKey} {b : StoredBlock} {p : Hash32}
    (hp : b.parentHash sha256d = some p) :
    let after := (db.insertBlocks sha256d true [(k, b)]).2
    after.redb.aux_blocks = db.redb.aux_blocks.insert k b ∧
      after.redb.sibling_index = db.redb.sibling_index.insert ⟨p, k.chain_id, k.height⟩ () ∧
      after.cache_blocks = db.cache_blocks.insert k b ∧
      after.cache_siblings = db.cache_siblings.insert p (pushSibling (db.siblings p) k b) := by
  obtain ⟨aux, haux, rfl⟩ := Option.map_eq_some_iff.1 hp
  have hrow : insertRow sha256d db.redb (k, b) = .ok { db.redb with
      aux_blocks := db.redb.aux_blocks.insert k b
      sibling_index := db.redb.sibling_index.insert ⟨sha256d aux.parent_header, k.chain_id, k.height⟩ () } := by
    unfold insertRow
    simp only [hp]
  intro after
  have hafter : after = ({ db with
      redb := { db.redb with
        aux_blocks := db.redb.aux_blocks.insert k b
        sibling_index := db.redb.sibling_index.insert ⟨sha256d aux.parent_header, k.chain_id, k.height⟩ () }
      cache_blocks := db.cache_blocks.insert k b }.indexRows sha256d [(k, b)]).2 := by
    show (db.insertBlocks sha256d true [(k, b)]).2 = _
    unfold insertBlocks
    rw [if_neg (List.cons_ne_nil _ _)]
    simp only [List.foldlM_cons, List.foldlM_nil, hrow]
    rfl
  rw [hafter, indexRows, indexRow]
  simp only [haux]
  by_cases hcontains : db.cache_parents.contains (sha256d aux.parent_header) = true
  · simp only [hcontains, if_true]
    exact ⟨rfl, rfl, rfl, rfl⟩
  · simp only [hcontains]
    cases parentWork aux.parent_header <;> exact ⟨rfl, rfl, rfl, rfl⟩

/-! ## The store without the old block -/

theorem get?_removed_siblings (db : Database) (k : BlockKey) (p : Hash32) :
    (db.removed k).cache_siblings.get? p =
      (db.cache_siblings.get? p).map (List.filter (keepBlock k.chain_id (· = k.height))) := by
  rw [removed, get?_retainSiblings]
  split_ifs with hp
  · rfl
  · have hnone : db.cache_siblings.get? p = none := by
      cases hget : db.cache_siblings.get? p with
      | none => rfl
      | some l => exact absurd (KMap.mem_keys.2 ⟨l, hget⟩) hp
    rw [hnone]
    rfl

theorem siblings_removed (db : Database) (k : BlockKey) (p : Hash32) :
    (db.removed k).siblings p = (db.siblings p).filter (keepBlock k.chain_id (· = k.height)) := by
  unfold siblings
  rw [get?_removed_siblings]
  cases db.cache_siblings.get? p <;> rfl

theorem keepBlock_eq_false {k : BlockKey} {b : StoredBlock} :
    keepBlock k.chain_id (· = k.height) b = false ↔ b.chain_id = k.chain_id ∧ b.height = k.height := by
  simp [keepBlock]

/-- A listed block with the fields of `k` is the one stored there. -/
theorem Listing.listed_at {db : Database} (h : Listing sha256d db) {k : BlockKey} {p : Hash32} {s : StoredBlock}
    (hs : s ∈ db.siblings p) (hk : s.chain_id = k.chain_id ∧ s.height = k.height) :
    db.redb.aux_blocks.get? k = some s ∧ s.parentHash sha256d = some p := by
  obtain ⟨⟨k', hget⟩, hp⟩ := h.mem_siblings.1 hs
  have hkey := h.get?_key hget
  rw [hk.1, hk.2] at hkey
  rw [← hkey] at hget
  exact ⟨hget, hp⟩

theorem Listing.siblings_nodup {db : Database} (h : Listing sha256d db) (p : Hash32) : (db.siblings p).Nodup := by
  rw [(h.listed p).nodup_iff]
  refine List.Nodup.filter _ (List.Nodup.map_on ?_ (KMap.entries_nodup _))
  intro e he e' he' hval
  have hkey := h.get?_key (KMap.mem_entries.1 he)
  have hkey' := h.get?_key (KMap.mem_entries.1 he')
  exact Prod.ext (by rw [← hkey, ← hkey', hval]) hval

/-- What is left of a list that holds the old block, with that block at the end. -/
theorem Listing.perm_removed {db : Database} (h : Listing sha256d db) {k : BlockKey} {p : Hash32} {b : StoredBlock}
    (hb : b ∈ db.siblings p) (hk : b.chain_id = k.chain_id ∧ b.height = k.height) :
    (db.siblings p).Perm ((db.siblings p).filter (keepBlock k.chain_id (· = k.height)) ++ [b]) := by
  have hold := (h.listed_at hb hk).1
  have hout : (db.siblings p).filter (fun s => !keepBlock k.chain_id (· = k.height) s) = [b] := by
    rw [← List.perm_singleton, List.perm_ext_iff_of_nodup ((h.siblings_nodup p).filter _) (List.nodup_singleton b)]
    intro s
    rw [List.mem_filter, List.mem_singleton, Bool.not_eq_true', keepBlock_eq_false]
    constructor
    · rintro ⟨hs, hsk⟩
      have hget := (h.listed_at hs hsk).1
      rw [hold] at hget
      exact (Option.some.inj hget).symm
    · rintro rfl
      exact ⟨hb, hk⟩
  have hsplit := List.filter_append_perm (keepBlock k.chain_id (· = k.height)) (db.siblings p)
  rw [hout] at hsplit
  exact hsplit.symm

/-- A store without the old block takes the new one at the end of the list. -/
theorem pushSibling_removed (db : Database) (k : BlockKey) (b : StoredBlock) (p : Hash32) :
    pushSibling ((db.removed k).siblings p) k b = (db.siblings p).filter (keepBlock k.chain_id (· = k.height)) ++ [b] := by
  rw [siblings_removed]
  refine pushSibling_of_not_mem fun s hs hk => ?_
  have hkeep := (List.mem_filter.1 hs).2
  rw [keepBlock_eq_false.2 hk] at hkeep
  cases hkeep

theorem mem_pushSibling {l : List StoredBlock} {k : BlockKey} {b s : StoredBlock} (hs : s ∈ pushSibling l k b) :
    s ∈ l ∨ s = b := by
  unfold pushSibling at hs
  split_ifs at hs
  · exact .inl hs
  · exact (List.mem_append.1 hs).imp_right List.mem_singleton.1

theorem subset_pushSibling (l : List StoredBlock) (k : BlockKey) (b : StoredBlock) : l ⊆ pushSibling l k b := by
  unfold pushSibling
  split_ifs
  · exact List.Subset.refl l
  · exact List.subset_append_left l [b]

/-! ## When the old block is replaced -/

theorem siblingBlocksRange_congr {db db' : Database} (hrows : db'.redb.aux_blocks = db.redb.aux_blocks)
    (hindex : db'.redb.sibling_index = db.redb.sibling_index) (p : Hash32) (page : Page) :
    db'.siblingBlocksRange p page = db.siblingBlocksRange p page := by
  unfold siblingBlocksRange indexedBlocks
  rw [hrows, hindex]

section Settled
variable {db : Database} {k : BlockKey} {b b' : StoredBlock} {p : Hash32} (h : Coherent sha256d db)
  (hold : db.redb.aux_blocks.get? k = some b) (hp : b'.parentHash sha256d = some p)
  (hsettled : ∀ q, b.parentHash sha256d = some q → b' = b)

include h hold hp hsettled

/-- If a listed old block is the new one, only the new one is listed at `k`. -/
theorem settled_listed {q : Hash32} {s : StoredBlock} (hs : s ∈ db.siblings q)
    (hk : s.chain_id = k.chain_id ∧ s.height = k.height) : s = b' ∧ q = p := by
  obtain ⟨hget, hq⟩ := h.listing.listed_at hs hk
  rw [hold] at hget
  cases hget
  obtain rfl := hsettled q hq
  exact ⟨rfl, Option.some.inj (hq.symm.trans hp)⟩

theorem settled_indexed {s : SiblingKey} (hs : db.redb.sibling_index.get? s = some ())
    (hk : s.chain_id = k.chain_id ∧ s.height = k.height) : s.parent = p := by
  obtain ⟨b₀, hb₀, hq⟩ := (h.indexed s).1 hs
  rw [hk.1, hk.2] at hb₀
  have heq : b₀ = b := Option.some.inj (hb₀.symm.trans hold)
  rw [heq] at hq
  rw [← hsettled _ hq] at hq
  exact Option.some.inj (hq.symm.trans hp)

theorem settled_tables :
    (db.insertBlocks sha256d true [(k, b')]).2.redb.aux_blocks =
        ((db.removed k).insertBlocks sha256d true [(k, b')]).2.redb.aux_blocks ∧
      (db.insertBlocks sha256d true [(k, b')]).2.redb.sibling_index =
        ((db.removed k).insertBlocks sha256d true [(k, b')]).2.redb.sibling_index := by
  obtain ⟨hrows, hindex, -, -⟩ := insertBlocks_one db hp (k := k)
  obtain ⟨hrows', hindex', -, -⟩ := insertBlocks_one (db.removed k) hp (k := k)
  constructor
  · rw [hrows, hrows']
    apply KMap.ext_get?
    intro k'
    rw [KMap.get?_insert, KMap.get?_insert, removed, KMap.get?_erase]
    split <;> rfl
  · rw [hindex, hindex']
    apply KMap.ext_get?
    intro s
    rw [KMap.get?_insert, KMap.get?_insert]
    split_ifs with hs
    · rfl
    · rw [removed, KMap.get?_filter]
      cases hget : db.redb.sibling_index.get? s with
      | none => rfl
      | some u =>
        by_cases hk : s.chain_id = k.chain_id ∧ s.height = k.height
        · refine absurd ?_ hs
          rw [← settled_indexed h hold hp hsettled hget hk, ← hk.1, ← hk.2]
        · simp [Option.filter, hk]

theorem settled_siblings {same : List StoredBlock → List StoredBlock → Prop} (hrefl : ∀ l, same l l)
    (hlist : same (pushSibling (db.siblings p) k b') ((db.siblings p).filter (keepBlock k.chain_id (· = k.height)) ++ [b']))
    (q : Hash32) : same ((db.insertBlocks sha256d true [(k, b')]).2.siblingsForParent q)
      (((db.removed k).insertBlocks sha256d true [(k, b')]).2.siblingsForParent q) := by
  obtain ⟨-, -, -, hlists⟩ := insertBlocks_one db hp (k := k)
  obtain ⟨-, -, -, hlists'⟩ := insertBlocks_one (db.removed k) hp (k := k)
  obtain ⟨hrows, hindex⟩ := settled_tables h hold hp hsettled
  unfold siblingsForParent
  rw [hlists, hlists', KMap.get?_insert, KMap.get?_insert]
  by_cases hq : q = p
  · subst hq
    rw [if_pos rfl, if_pos rfl, pushSibling_removed]
    exact hlist
  · rw [if_neg hq, if_neg hq, get?_removed_siblings]
    cases hget : db.cache_siblings.get? q with
    | none =>
      simp only [Option.map_none, siblingBlocksRange_congr hrows hindex]
      exact hrefl _
    | some l =>
      have hl : db.siblings q = l := by rw [siblings, hget, Option.getD_some]
      have hkeep : l.filter (keepBlock k.chain_id (· = k.height)) = l := by
        refine List.filter_eq_self.2 fun s hs => ?_
        rw [← Bool.not_eq_false, keepBlock_eq_false]
        exact fun hk => hq (settled_listed h hold hp hsettled (hl ▸ hs) hk).2
      simp only [Option.map_some, hkeep]
      exact hrefl _

/-- All is as on the clean store, as far as the list of the new block's parent is. -/
theorem Coherent.replaced {same : List StoredBlock → List StoredBlock → Prop} (hrefl : ∀ l, same l l)
    (hlist : same (pushSibling (db.siblings p) k b')
      ((db.siblings p).filter (keepBlock k.chain_id (· = k.height)) ++ [b'])) :
    Replaced sha256d same k b' (db.insertBlocks sha256d true [(k, b')]).2
      ((db.removed k).insertBlocks sha256d true [(k, b')]).2 := by
  obtain ⟨-, hindex, hcache, hlists⟩ := insertBlocks_one db hp (k := k)
  obtain ⟨-, -, hcache', -⟩ := insertBlocks_one (db.removed k) hp (k := k)
  obtain ⟨hrows, hsameindex⟩ := settled_tables h hold hp hsettled
  constructor
  · rw [blockAt_fst, blockAt_fst, hcache, hcache', KMap.get?_insert_self, KMap.get?_insert_self, hrows]
  · exact hrows
  · exact settled_siblings h hold hp hsettled hrefl hlist
  · exact siblingBlocksRange_congr hrows hsameindex
  · exact hsameindex
  · intro q
    rw [KMap.contains_iff, hindex, KMap.get?_insert, hp, Option.some.injEq]
    constructor
    · rintro ⟨u, hu⟩
      split_ifs at hu with hs
      · exact (congrArg SiblingKey.parent hs).symm
      · exact (settled_indexed h hold hp hsettled hu ⟨rfl, rfl⟩).symm
    · rintro rfl
      exact ⟨(), if_pos rfl⟩
  · intro q s hs hc hh
    rw [siblings, hlists, KMap.get?_insert] at hs
    split_ifs at hs with hq
    · rw [Option.getD_some] at hs
      rcases mem_pushSibling hs with hs | rfl
      · exact (settled_listed h hold hp hsettled hs ⟨hc, hh⟩).1
      · rfl
    · exact (settled_listed h hold hp hsettled hs ⟨hc, hh⟩).1

end Settled

/-- Every list keeps the blocks it had. -/
theorem mem_siblings_insertBlocks {db : Database} {k : BlockKey} {b s : StoredBlock} {p q : Hash32}
    (hp : b.parentHash sha256d = some p) (hs : s ∈ db.siblings q) :
    s ∈ (db.insertBlocks sha256d true [(k, b)]).2.siblings q := by
  obtain ⟨-, -, -, hlists⟩ := insertBlocks_one db hp (k := k)
  rw [siblings, hlists, KMap.get?_insert]
  split_ifs with hq
  · rw [Option.getD_some]
    exact subset_pushSibling _ _ _ (hq ▸ hs)
  · exact hs

/-- The old block stays on its list, so it has to be the new one. -/
theorem Replaced.forced {db clean : Database} (h : Coherent sha256d db) {k : BlockKey} {b b' : StoredBlock} {p q : Hash32}
    (hold : db.redb.aux_blocks.get? k = some b) (hp : b'.parentHash sha256d = some p)
    {same : List StoredBlock → List StoredBlock → Prop}
    (hr : Replaced sha256d same k b' (db.insertBlocks sha256d true [(k, b')]).2 clean)
    (hq : b.parentHash sha256d = some q) : b' = b := by
  have hmem : b ∈ db.siblings q := h.mem_siblings.2 ⟨⟨k, hold⟩, hq⟩
  obtain ⟨hc, hh⟩ := h.keyed k b hold
  exact (hr.entries q b (mem_siblings_insertBlocks hp hmem) hc hh).symm

/-- A list whose last block is the one at `k`. -/
theorem Listing.filter_of_last {db : Database} (h : Listing sha256d db) {k : BlockKey} {p : Hash32} {b : StoredBlock}
    (hk : b.chain_id = k.chain_id ∧ b.height = k.height) (hlast : (db.siblings p).getLast? = some b) :
    (db.siblings p).filter (keepBlock k.chain_id (· = k.height)) ++ [b] = db.siblings p := by
  obtain ⟨init, hinit⟩ := List.getLast?_eq_some_iff.1 hlast
  have hnodup := h.siblings_nodup p
  rw [hinit] at hnodup
  have hout : b ∉ init := fun hm => (List.nodup_append.1 hnodup).2.2 b hm b (List.mem_singleton_self _) rfl
  have hold := (h.listed_at (List.mem_of_getLast? hlast) hk).1
  have hkeep : init.filter (keepBlock k.chain_id (· = k.height)) = init := by
    refine List.filter_eq_self.2 fun s hs => ?_
    rw [← Bool.not_eq_false, keepBlock_eq_false]
    intro hsk
    have hget := (h.listed_at (p := p) (hinit ▸ List.mem_append_left _ hs) hsk).1
    rw [hold] at hget
    cases hget
    exact hout hs
  have hgone : keepBlock k.chain_id (· = k.height) b = false := keepBlock_eq_false.2 hk
  rw [hinit, List.filter_append, hkeep, List.filter_cons_of_neg (by rw [hgone]; decide), List.filter_nil, List.append_nil]

/-- An unlisted old block leaves room for the new one. -/
theorem Listing.pushSibling_of_unlisted {db : Database} (h : Listing sha256d db) {k : BlockKey} {b b' : StoredBlock}
    {p : Hash32} (hold : db.redb.aux_blocks.get? k = some b) (hno : b.parentHash sha256d = none) :
    pushSibling (db.siblings p) k b' = (db.siblings p).filter (keepBlock k.chain_id (· = k.height)) ++ [b'] := by
  have hunlisted : ∀ s ∈ db.siblings p, ¬ (s.chain_id = k.chain_id ∧ s.height = k.height) := by
    intro s hs hk
    obtain ⟨hget, hq⟩ := h.listed_at hs hk
    rw [hold] at hget
    cases hget
    rw [hno] at hq
    cases hq
  rw [pushSibling_of_not_mem hunlisted, List.filter_eq_self.2]
  intro s hs
  rw [← Bool.not_eq_false, keepBlock_eq_false]
  exact hunlisted s hs

variable (sha256d)

/-- The old block is replaced everywhere exactly if the new one is the old one, or
the old one was never listed. Down to the order of the sibling lists the old one
must have been the last of its list. -/
theorem reinsert_replaces_iff (db : Database) (k : BlockKey) (b b' : StoredBlock) (h : Coherent sha256d db)
    (hold : db.redb.aux_blocks.get? k = some b) (hkey : b'.chain_id = k.chain_id ∧ b'.height = k.height)
    (hinsert : (db.insertBlocks sha256d true [(k, b')]).1 = .ok ()) :
    (Replaced sha256d List.Perm k b' (db.insertBlocks sha256d true [(k, b')]).2
        ((db.removed k).insertBlocks sha256d true [(k, b')]).2 ↔ b' = b ∨ b.header.aux = none) ∧
      (Replaced sha256d Eq k b' (db.insertBlocks sha256d true [(k, b')]).2
        ((db.removed k).insertBlocks sha256d true [(k, b')]).2 ↔
          (b' = b ∧ ∀ p, b.parentHash sha256d = some p → (db.siblings p).getLast? = some b) ∨ b.header.aux = none) := by
  obtain ⟨p, hp⟩ := insertBlocks_one_ok hinsert
  have hnone : b.header.aux = none ↔ b.parentHash sha256d = none := Option.map_eq_none_iff.symm
  have hsettled : b' = b ∨ b.header.aux = none → ∀ q, b.parentHash sha256d = some q → b' = b := by
    rintro (he | hno) q hq
    · exact he
    · rw [hnone.1 hno] at hq
      cases hq
  have hforced : ∀ {same clean}, Replaced sha256d same k b' (db.insertBlocks sha256d true [(k, b')]).2 clean →
      b' = b ∨ b.header.aux = none := by
    intro same clean hr
    cases hq : b.parentHash sha256d with
    | none => exact .inr (hnone.2 hq)
    | some q => exact .inl (hr.forced h hold hp hq)
  have hlisted : b' = b → b' ∈ db.siblings p := fun he => h.mem_siblings.2 ⟨⟨k, he ▸ hold⟩, hp⟩
  constructor
  · refine ⟨hforced, fun hcond => h.replaced hold hp (hsettled hcond) List.Perm.refl ?_⟩
    rcases hcond with he | hno
    · rw [pushSibling_of_mem (hlisted he) hkey]
      exact h.listing.perm_removed (hlisted he) hkey
    · exact .of_eq (h.listing.pushSibling_of_unlisted hold (hnone.1 hno))
  · constructor
    · intro hr
      rcases hforced hr with he | hno
      · refine .inl ⟨he, fun q hq => ?_⟩
        rw [← he, hp] at hq
        obtain rfl := Option.some.inj hq
        have hlists := hr.siblings p
        unfold siblingsForParent at hlists
        rw [(insertBlocks_one db hp (k := k)).2.2.2, (insertBlocks_one (db.removed k) hp (k := k)).2.2.2,
          KMap.get?_insert_self, KMap.get?_insert_self, pushSibling_of_mem (hlisted he) hkey, pushSibling_removed] at hlists
        have hsame : db.siblings p = (db.siblings p).filter (keepBlock k.chain_id (· = k.height)) ++ [b'] := hlists
        rw [← he, hsame, List.getLast?_concat]
      · exact .inr hno
    · intro hcond
      refine h.replaced hold hp (hsettled (hcond.imp_left And.left)) (fun _ => rfl) ?_
      rcases hcond with ⟨he, hlast⟩ | hno
      · subst he
        rw [pushSibling_of_mem (hlisted rfl) hkey, h.listing.filter_of_last hkey (hlast p hp)]
      · exact h.listing.pushSibling_of_unlisted hold (hnone.1 hno)

end Sha

/-! ## A crash between the batch and the cursor -/

/-- The first sample block is stored, and the cursor was not moved. -/
def uncursoredDb : Database := (freshDb.insertBlocks sampleSha true [(⟨63, 1⟩, sampleBlock₁ 1)]).2

theorem sampleBlock₁_parentHash : (sampleBlock₁ 1).parentHash sampleSha = some sampleParentId₁ := by decide +kernel

theorem coherent_uncursoredDb : Coherent sampleSha uncursoredDb := by
  have hop : (StoreOp.insertBlocks [(⟨63, 1⟩, sampleBlock₁ 1)]).Fresh freshDb := by
    refine ⟨by decide, ?_⟩
    intro row hrow
    rw [List.mem_singleton] at hrow
    subst hrow
    exact ⟨rfl, rfl, rfl, _, rfl, by decide +kernel⟩
  exact (coherent_fresh (rfl : openDb sampleSha Redb.empty = .ok freshDb)).step hop

theorem uncursoredDb_row : uncursoredDb.redb.aux_blocks.get? ⟨63, 1⟩ = some (sampleBlock₁ 1) := by
  rw [uncursoredDb, (insertBlocks_one freshDb sampleBlock₁_parentHash).1, KMap.get?_insert_self]

/-- The same block again is harmless. -/
theorem reinsert_replaces_same :
    Replaced sampleSha List.Perm ⟨63, 1⟩ (sampleBlock₁ 1)
      (uncursoredDb.insertBlocks sampleSha true [(⟨63, 1⟩, sampleBlock₁ 1)]).2
      ((uncursoredDb.removed ⟨63, 1⟩).insertBlocks sampleSha true [(⟨63, 1⟩, sampleBlock₁ 1)]).2 := by
  have hinsert : (uncursoredDb.insertBlocks sampleSha true [(⟨63, 1⟩, sampleBlock₁ 1)]).1 = .ok () := by decide +kernel
  exact (reinsert_replaces_iff sampleSha uncursoredDb ⟨63, 1⟩ (sampleBlock₁ 1) (sampleBlock₁ 1) coherent_uncursoredDb
    uncursoredDb_row ⟨rfl, rfl⟩ hinsert).1.2 (.inl rfl)

/-- Another block at that height goes in, and the first one stays on the list of
its parent. -/
theorem reinsert_keeps_old :
    Coherent sampleSha uncursoredDb ∧ uncursoredDb.redb.aux_blocks.get? ⟨63, 1⟩ = some (sampleBlock₁ 1) ∧
      (uncursoredDb.insertBlocks sampleSha true [(⟨63, 1⟩, sampleBlock₂ 1)]).1 = .ok () ∧
      ¬ Replaced sampleSha List.Perm ⟨63, 1⟩ (sampleBlock₂ 1)
        (uncursoredDb.insertBlocks sampleSha true [(⟨63, 1⟩, sampleBlock₂ 1)]).2
        ((uncursoredDb.removed ⟨63, 1⟩).insertBlocks sampleSha true [(⟨63, 1⟩, sampleBlock₂ 1)]).2 := by
  have hinsert : (uncursoredDb.insertBlocks sampleSha true [(⟨63, 1⟩, sampleBlock₂ 1)]).1 = .ok () := by decide +kernel
  have hparent : (sampleBlock₂ 1).parentHash sampleSha = some sampleParentId₂ := by decide +kernel
  refine ⟨coherent_uncursoredDb, uncursoredDb_row, hinsert, fun hr => ?_⟩
  have heq := hr.forced coherent_uncursoredDb uncursoredDb_row hparent sampleBlock₁_parentHash
  have hids : sampleId₂ = sampleId₁ := congrArg StoredBlock.hash_le heq
  exact absurd hids (by decide)

end PsobIndexer
