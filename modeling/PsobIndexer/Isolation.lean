import PsobIndexer.Lib.Fallible
import PsobIndexer.Coherence
/-!
# Chains do not touch each other

What the store keeps of one chain: its rows, its cursor, its entries in the
sibling index and in the sibling lists, and the records of the parents its
blocks are under. Calls for another chain change none of it, whether their
transactions go through or not.
-/
open Lib

namespace PsobIndexer

open Database

section Sha
variable (sha256d : Bytes → Hash32)

/-- `p` has a stored block of the chain. -/
def Anchors (db : Database) (c : UInt32) (p : Hash32) : Prop :=
  ∃ h b, db.redb.aux_blocks.get? ⟨c, h⟩ = some b ∧ b.parentHash sha256d = some p

/-- `db'` holds of chain `c`, and of the parents in `P`, what `db` holds. -/
structure SameChain (c : UInt32) (P : Hash32 → Prop) (db db' : Database) : Prop where
  rows : ∀ h, db'.redb.aux_blocks.get? ⟨c, h⟩ = db.redb.aux_blocks.get? ⟨c, h⟩
  cached : ∀ h, db'.cache_blocks.get? ⟨c, h⟩ = db.cache_blocks.get? ⟨c, h⟩
  cursor : (db'.cache_meta.get? (cursorKey c)).or (db'.redb.metadata.get? (cursorKey c)) =
    (db.cache_meta.get? (cursorKey c)).or (db.redb.metadata.get? (cursorKey c))
  index : ∀ p h, db'.redb.sibling_index.get? ⟨p, c, h⟩ = db.redb.sibling_index.get? ⟨p, c, h⟩
  lists : ∀ p, (db'.siblings p).filter (·.chain_id = c) = (db.siblings p).filter (·.chain_id = c)
  parents : ∀ p, P p → db'.cache_parents.get? p = db.cache_parents.get? p ∧
    db'.redb.parent_blocks.get? p = db.redb.parent_blocks.get? p

variable {sha256d} {c a : UInt32} {P : Hash32 → Prop}

theorem SameChain.refl (db : Database) : SameChain c P db db :=
  ⟨fun _ => rfl, fun _ => rfl, rfl, fun _ _ => rfl, fun _ => rfl, fun _ _ => ⟨rfl, rfl⟩⟩

theorem SameChain.trans {db db₁ db₂ : Database} (h₁ : SameChain c P db db₁) (h₂ : SameChain c P db₁ db₂) :
    SameChain c P db db₂ where
  rows h := (h₂.rows h).trans (h₁.rows h)
  cached h := (h₂.cached h).trans (h₁.cached h)
  cursor := h₂.cursor.trans h₁.cursor
  index p h := (h₂.index p h).trans (h₁.index p h)
  lists p := (h₂.lists p).trans (h₁.lists p)
  parents p hp := ⟨(h₂.parents p hp).1.trans (h₁.parents p hp).1, (h₂.parents p hp).2.trans (h₁.parents p hp).2⟩

/-- Dropping blocks of another chain leaves this chain's part of a list. -/
theorem filter_keepBlock (hne : c ≠ a) (drop : UInt64 → Bool) (l : List StoredBlock) :
    (l.filter (keepBlock a drop)).filter (·.chain_id = c) = l.filter (·.chain_id = c) := by
  rw [List.filter_filter]
  apply List.filter_congr
  intro b _
  by_cases hb : b.chain_id = c
  · simp [keepBlock, hb, hne]
  · simp [hb]

/-- A retained list keeps this chain's blocks, whether it was visited or not. -/
theorem filter_retainSiblings (hne : c ≠ a) (m : KMap Hash32 (List StoredBlock)) (parents : List Hash32)
    (drop : UInt64 → Bool) (p : Hash32) :
    (((retainSiblings m parents a drop).get? p).getD []).filter (·.chain_id = c) =
      ((m.get? p).getD []).filter (·.chain_id = c) := by
  rw [get?_retainSiblings]
  split_ifs
  · cases m.get? p with
    | none => rfl
    | some l => exact filter_keepBlock hne drop l
  · rfl

/-! ## Inserting -/

theorem insertRow_same {r r' : Redb} {row : BlockRow} (h : insertRow sha256d r row = .ok r') (hne : row.1.chain_id ≠ c) :
    (∀ hh, r'.aux_blocks.get? ⟨c, hh⟩ = r.aux_blocks.get? ⟨c, hh⟩) ∧
      (∀ p hh, r'.sibling_index.get? ⟨p, c, hh⟩ = r.sibling_index.get? ⟨p, c, hh⟩) ∧
      r'.parent_blocks = r.parent_blocks ∧ r'.metadata = r.metadata := by
  unfold insertRow at h
  split at h
  · cases h
  · cases h
    refine ⟨fun hh => ?_, fun p hh => ?_, rfl, rfl⟩
    · rw [KMap.get?_insert, if_neg]
      exact fun he => hne (congrArg BlockKey.chain_id he).symm
    · rw [KMap.get?_insert, if_neg]
      exact fun he => hne (congrArg SiblingKey.chain_id he).symm

theorem foldlM_insertRow_same {rows : List BlockRow} {r r' : Redb} (h : rows.foldlM (insertRow sha256d) r = .ok r')
    (hne : ∀ row ∈ rows, row.1.chain_id ≠ c) :
    (∀ hh, r'.aux_blocks.get? ⟨c, hh⟩ = r.aux_blocks.get? ⟨c, hh⟩) ∧
      (∀ p hh, r'.sibling_index.get? ⟨p, c, hh⟩ = r.sibling_index.get? ⟨p, c, hh⟩) ∧
      r'.parent_blocks = r.parent_blocks ∧ r'.metadata = r.metadata := by
  induction rows generalizing r with
  | nil =>
    cases h
    exact ⟨fun _ => rfl, fun _ _ => rfl, rfl, rfl⟩
  | cons row rows ih =>
    rw [List.foldlM_cons] at h
    obtain ⟨r₁, h₁, h⟩ := except_bind_eq_ok.1 h
    obtain ⟨hrows, hindex, hparents, hmeta⟩ := insertRow_same h₁ (hne row List.mem_cons_self)
    obtain ⟨hrows', hindex', hparents', hmeta'⟩ := ih h fun r hr => hne r (List.mem_cons_of_mem _ hr)
    exact ⟨fun hh => (hrows' hh).trans (hrows hh), fun p hh => (hindex' p hh).trans (hindex p hh),
      hparents'.trans hparents, hmeta'.trans hmeta⟩

/-- Indexing a block of another chain adds it to a list, and a record to the
parents only where there was none. -/
theorem indexRow_same {db : Database} {row : BlockRow} (hne : row.2.chain_id ≠ c)
    (hP : ∀ p, P p → db.cache_parents.contains p = true) : SameChain c P db (db.indexRow sha256d row).2 := by
  unfold indexRow
  split
  · exact .refl db
  · rename_i aux haux
    have hlist : ∀ p, (((db.cache_siblings.insert (sha256d aux.parent_header)
        (pushSibling ((db.cache_siblings.get? (sha256d aux.parent_header)).getD []) row.1 row.2)).get? p).getD []).filter
          (·.chain_id = c) = (db.siblings p).filter (·.chain_id = c) := by
      intro p
      rw [KMap.get?_insert]
      split_ifs with hp
      · rw [hp, Option.getD_some]
        unfold pushSibling
        split_ifs
        · rfl
        · rw [List.filter_append, List.filter_cons_of_neg (by simpa using hne), List.filter_nil, List.append_nil]
          rfl
      · rfl
    simp only
    split_ifs with hcontains
    · exact ⟨fun _ => rfl, fun _ => rfl, rfl, fun _ _ => rfl, hlist, fun _ _ => ⟨rfl, rfl⟩⟩
    · split
      · exact ⟨fun _ => rfl, fun _ => rfl, rfl, fun _ _ => rfl, hlist, fun _ _ => ⟨rfl, rfl⟩⟩
      · refine ⟨fun _ => rfl, fun _ => rfl, rfl, fun _ _ => rfl, hlist, fun p hp => ⟨?_, rfl⟩⟩
        rw [KMap.get?_insert, if_neg]
        intro he
        exact hcontains (he ▸ hP p hp)

theorem indexRows_same {rows : List BlockRow} {db : Database} (hne : ∀ row ∈ rows, row.2.chain_id ≠ c)
    (hP : ∀ p, P p → db.cache_parents.contains p = true) : SameChain c P db (db.indexRows sha256d rows).2 := by
  induction rows generalizing db with
  | nil => exact .refl db
  | cons row rows ih =>
    have hrow : SameChain c P db (db.indexRow sha256d row).2 := indexRow_same (hne row List.mem_cons_self) hP
    rw [indexRows]
    split
    · rename_i hr
      rw [hr] at hrow
      exact hrow
    · rename_i hr
      rw [hr] at hrow
      refine hrow.trans (ih (fun r hr => hne r (List.mem_cons_of_mem _ hr)) fun p hp => ?_)
      rw [KMap.contains, (hrow.parents p hp).1]
      exact hP p hp

/-- Rows of another chain. -/
theorem insertBlocks_same {db : Database} {rows : List BlockRow} (commit : Bool)
    (hkeys : ∀ row ∈ rows, row.1.chain_id ≠ c) (hblocks : ∀ row ∈ rows, row.2.chain_id ≠ c)
    (hP : ∀ p, P p → db.cache_parents.contains p = true) :
    SameChain c P db (db.insertBlocks sha256d commit rows).2 := by
  have hcache : ∀ hh, (db.cache_blocks.insertAll rows).get? ⟨c, hh⟩ = db.cache_blocks.get? ⟨c, hh⟩ := fun hh =>
    KMap.get?_insertAll_of_ne fun row hr he => hkeys row hr (congrArg BlockKey.chain_id he)
  have hfail : SameChain c P db { db with cache_blocks := db.cache_blocks.insertAll rows } :=
    ⟨fun _ => rfl, hcache, rfl, fun _ _ => rfl, fun _ => rfl, fun _ _ => ⟨rfl, rfl⟩⟩
  unfold insertBlocks
  by_cases hnil : rows = []
  · rw [if_pos hnil]
    exact .refl db
  · simp only [if_neg hnil]
    cases hfold : rows.foldlM (insertRow sha256d) db.redb with
    | error e => exact hfail
    | ok redb =>
      cases commit with
      | false => exact hfail
      | true =>
        obtain ⟨hrows, hindex, hparents, hmeta⟩ := foldlM_insertRow_same hfold hkeys
        have hwritten : SameChain c P db { db with redb := redb, cache_blocks := db.cache_blocks.insertAll rows } := by
          exact ⟨hrows, hcache, by rw [hmeta], hindex, fun _ => rfl, fun p _ => ⟨rfl, by rw [hparents]⟩⟩
        simp only [if_true]
        exact hwritten.trans (indexRows_same hblocks hP)

/-! ## Rolling back and pruning -/

theorem rewindCursor_same (hne : c ≠ a) (commit : Bool) (db : Database) (from_height : UInt64) :
    SameChain c P db (db.rewindCursor commit a from_height).2 := by
  have hkey : cursorKey c ≠ cursorKey a := fun he => hne (cursorKey_inj he)
  have hget : SameChain c P db (db.getMeta (cursorKey a)).2 := by
    unfold getMeta
    split
    · exact .refl db
    · split
      · refine ⟨fun _ => rfl, fun _ => rfl, ?_, fun _ _ => rfl, fun _ => rfl, fun _ _ => ⟨rfl, rfl⟩⟩
        rw [KMap.get?_insert, if_neg hkey]
      · exact .refl db
  have hset : ∀ (db : Database) (value : String), SameChain c P db (db.setMeta commit (cursorKey a) value).2 := by
    intro db value
    cases commit with
    | false =>
      refine ⟨fun _ => rfl, fun _ => rfl, ?_, fun _ _ => rfl, fun _ => rfl, fun _ _ => ⟨rfl, rfl⟩⟩
      simp only [setMeta, Bool.false_eq_true, if_false, KMap.get?_insert, if_neg hkey]
    | true =>
      refine ⟨fun _ => rfl, fun _ => rfl, ?_, fun _ _ => rfl, fun _ => rfl, fun _ _ => ⟨rfl, rfl⟩⟩
      simp only [setMeta, if_true, KMap.get?_insert, if_neg hkey]
  unfold rewindCursor
  simp only
  split
  · exact hget
  · split_ifs
    · exact hget.trans (hset _ _)
    · exact hget

theorem rollbackFrom_same {db : Database} (h : Coherent sha256d db) (hne : c ≠ a) (commit : Bool)
    (parent_commits : Hash32 → Bool) (cursor_commit : Bool) (from_height : UInt64) :
    SameChain c (Anchors sha256d db c) db
      (db.rollbackFrom sha256d commit parent_commits cursor_commit a from_height).2 := by
  cases commit with
  | false =>
    unfold rollbackFrom
    exact .refl db
  | true =>
    have hkept : ∀ p ∈ db.emptiedParents sha256d a (from_height ≤ ·), (db.siblings p).filter (·.chain_id = c) = [] := by
      intro p hp
      have hl := filter_retainSiblings (c := c) hne db.cache_siblings
        (rowParents sha256d (db.droppedRows a (from_height ≤ ·))) (from_height ≤ ·) p
      change (((db.keptSiblings sha256d a (from_height ≤ ·)).get? p).getD []).filter _ = _ at hl
      rw [mem_emptiedParents hp] at hl
      exact hl.symm
    -- a parent with a block of chain `c` on its list is not emptied
    have hanchored : ∀ p, Anchors sha256d db c p → p ∉ db.emptiedParents sha256d a (from_height ≤ ·) := by
      rintro p ⟨hh, b, hb, hbp⟩ hp
      have hmem : b ∈ (db.siblings p).filter (·.chain_id = c) :=
        List.mem_filter.2 ⟨h.mem_siblings.2 ⟨⟨_, hb⟩, hbp⟩, by simpa using (h.keyed _ b hb).1⟩
      rw [hkept p hp] at hmem
      cases hmem
    have hdropped : SameChain c (Anchors sha256d db c) db
        { db with
          redb :=
            { db.redb with
              aux_blocks := db.redb.aux_blocks.eraseAll ((db.chainRows a from_height u64Max).map Prod.fst)
              sibling_index := eraseSiblingRows db.redb.sibling_index db.cache_parents.keys a from_height
              parent_blocks := db.redb.parent_blocks.eraseAll
                ((db.emptiedParents sha256d a (from_height ≤ ·)).filter parent_commits) }
          cache_blocks := db.cache_blocks.eraseAll ((db.droppedRows a (from_height ≤ ·)).map Prod.fst)
          cache_siblings := (db.keptSiblings sha256d a (from_height ≤ ·)).eraseAll
            (db.emptiedParents sha256d a (from_height ≤ ·))
          cache_parents := db.cache_parents.eraseAll (db.emptiedParents sha256d a (from_height ≤ ·)) } := by
      constructor
      · intro hh
        rw [KMap.get?_eraseAll, if_neg]
        intro hm
        obtain ⟨row, hrow, he⟩ := List.mem_map.1 hm
        have hwin := BlockKey.mem_window.1 (KMap.mem_range.1 hrow).2
        exact hne ((congrArg BlockKey.chain_id he).symm.trans hwin.1)
      · intro hh
        rw [KMap.get?_eraseAll, if_neg]
        intro hm
        obtain ⟨row, hrow, he⟩ := List.mem_map.1 hm
        have hchain : row.1.chain_id = a := by simpa using (Bool.and_eq_true_iff.1 (List.mem_filter.1 hrow).2).1
        exact hne ((congrArg BlockKey.chain_id he).symm.trans hchain)
      · rfl
      · intro p hh
        rw [get?_eraseSiblingRows, if_neg]
        exact fun hk => hne hk.2.1
      · intro p
        unfold siblings
        rw [KMap.get?_eraseAll]
        split_ifs with hp
        · exact (hkept p hp).symm
        · exact filter_retainSiblings hne _ _ _ p
      · intro p hp
        rw [KMap.get?_eraseAll, KMap.get?_eraseAll, if_neg (hanchored p hp),
          if_neg (fun hm => hanchored p hp (List.mem_filter.1 hm).1)]
        exact ⟨rfl, rfl⟩
    have hrewound := hdropped.trans (rewindCursor_same hne cursor_commit _ from_height)
    unfold rollbackFrom
    simp only [not_true, if_false]
    split <;> rename_i hr <;> exact (congrArg Prod.snd hr).symm ▸ hrewound

theorem pruneBefore_same (hne : c ≠ a) (commit : Bool) (db : Database) (below : UInt64) :
    SameChain c P db (db.pruneBefore sha256d commit a below).2 := by
  cases commit with
  | false =>
    unfold pruneBefore
    exact .refl db
  | true =>
    unfold pruneBefore
    simp only [not_true, if_false]
    constructor
    · intro hh
      rw [KMap.get?_eraseAll, if_neg]
      intro hm
      obtain ⟨row, hrow, he⟩ := List.mem_map.1 hm
      have hwin := BlockKey.mem_window.1 (KMap.mem_range.1 hrow).2
      exact hne ((congrArg BlockKey.chain_id he).symm.trans hwin.1)
    · intro hh
      rw [KMap.get?_eraseAll, if_neg]
      intro hm
      obtain ⟨row, hrow, he⟩ := List.mem_map.1 hm
      have hchain : row.1.chain_id = a := by simpa using (Bool.and_eq_true_iff.1 (List.mem_filter.1 hrow).2).1
      exact hne ((congrArg BlockKey.chain_id he).symm.trans hchain)
    · rfl
    · intro p hh
      rw [KMap.get?_eraseAll, if_neg]
      intro hm
      obtain ⟨row, hrow, he⟩ := List.mem_filterMap.1 hm
      obtain ⟨q, -, hq⟩ := Option.map_eq_some_iff.1 he
      have hwin := BlockKey.mem_window.1 (KMap.mem_range.1 hrow).2
      exact hne ((congrArg SiblingKey.chain_id hq).symm.trans hwin.1)
    · exact fun p => filter_retainSiblings hne _ _ _ p
    · exact fun _ _ => ⟨rfl, rfl⟩

/-! ## One call for one chain -/

/-- A call for a chain, with the fate of its transactions. -/
inductive ChainOp where
  | insertBlocks (commit : Bool) (rows : List BlockRow)
  | rollbackFrom (commit : Bool) (parent_commits : Hash32 → Bool) (cursor_commit : Bool) (from_height : UInt64)
  | pruneBefore (commit : Bool) (below : UInt64)

variable (sha256d)

def ChainOp.run (db : Database) (a : UInt32) : ChainOp → Database
  | insertBlocks commit rows => (db.insertBlocks sha256d commit rows).2
  | rollbackFrom commit parent_commits cursor_commit from_height =>
    (db.rollbackFrom sha256d commit parent_commits cursor_commit a from_height).2
  | pruneBefore commit below => (db.pruneBefore sha256d commit a below).2

/-- The batch has fresh rows of chain `a` only; pruning starts at 1. -/
def ChainOp.For (db : Database) (a : UInt32) : ChainOp → Prop
  | insertBlocks _ rows => ∀ row ∈ rows, row.1.chain_id = a ∧ row.2.chain_id = a ∧ row.2.height = row.1.height ∧
      db.redb.aux_blocks.get? row.1 = none
  | rollbackFrom _ _ _ _ => True
  | pruneBefore _ below => 1 ≤ below

variable {sha256d}

theorem ChainOp.same {db : Database} (h : Coherent sha256d db) (hne : c ≠ a) {op : ChainOp} (hop : op.For db a) :
    SameChain c (Anchors sha256d db c) db (op.run sha256d db a) := by
  cases op with
  | insertBlocks commit rows =>
    refine insertBlocks_same commit (fun row hr => ?_) (fun row hr => ?_) ?_
    · exact (hop row hr).1 ▸ hne.symm
    · exact (hop row hr).2.1 ▸ hne.symm
    · rintro p ⟨hh, b, hb, hbp⟩
      exact KMap.contains_iff.2 (h.parents _ b p hb hbp)
  | rollbackFrom commit parent_commits cursor_commit from_height =>
    exact rollbackFrom_same h hne commit parent_commits cursor_commit from_height
  | pruneBefore commit below => exact pruneBefore_same hne commit db below

variable (sha256d)

/-- A call for chain `a` on a coherent store changes nothing that belongs to
chain `c`: not its blocks, its cursor, its index rows, its list entries or the
records of its parents. -/
theorem chain_isolated (db : Database) (a c : UInt32) (op : ChainOp) (h : Coherent sha256d db) (hne : c ≠ a)
    (hop : op.For db a) :
    (∀ hh, ((op.run sha256d db a).blockAt c hh).1 = (db.blockAt c hh).1) ∧
      ((op.run sha256d db a).cursorHeight c).1 = (db.cursorHeight c).1 ∧
      (∀ p hh, (op.run sha256d db a).redb.sibling_index.get? ⟨p, c, hh⟩ = db.redb.sibling_index.get? ⟨p, c, hh⟩) ∧
      (∀ p, (((op.run sha256d db a).cache_siblings.get? p).getD []).filter (·.chain_id = c) =
        ((db.cache_siblings.get? p).getD []).filter (·.chain_id = c)) ∧
      ∀ p hh b, db.redb.aux_blocks.get? ⟨c, hh⟩ = some b → b.parentHash sha256d = some p →
        (op.run sha256d db a).cache_parents.get? p = db.cache_parents.get? p ∧
          (op.run sha256d db a).redb.parent_blocks.get? p = db.redb.parent_blocks.get? p := by
  have hsame := ChainOp.same h hne hop
  refine ⟨fun hh => ?_, ?_, hsame.index, hsame.lists, fun p hh b hb hbp => hsame.parents p ⟨hh, b, hb, hbp⟩⟩
  · rw [blockAt_fst, blockAt_fst, hsame.rows, hsame.cached]
  · rw [cursorHeight_fst, cursorHeight_fst, getMeta_fst, getMeta_fst, hsame.cursor]

end Sha

/-- A block of any chain under the parent of the first sample block. -/
def legBlock (chain_id : UInt32) (height : UInt64) : StoredBlock := { sampleBlock₁ height with chain_id := chain_id }

/-- Two chains share a parent on mainnet. -/
def sharedDb : Database := runStore sampleSha freshDb
  [.insertBlocks [(⟨63, 1⟩, legBlock 63 1), (⟨50, 1⟩, legBlock 50 1)], .classifyParent sampleParentId₁ (some 7)]

theorem sharedDb_fresh : Along (StoreOp.run sampleSha) StoreOp.Fresh freshDb
    [.insertBlocks [(⟨63, 1⟩, legBlock 63 1), (⟨50, 1⟩, legBlock 50 1)], .classifyParent sampleParentId₁ (some 7)] := by
  refine ⟨⟨by decide, ?_⟩, trivial, trivial⟩
  intro row hrow
  rcases List.mem_cons.1 hrow with rfl | hrow
  · exact ⟨rfl, rfl, rfl, _, rfl, by decide +kernel⟩
  · rw [List.mem_singleton] at hrow
    subst hrow
    exact ⟨rfl, rfl, rfl, _, rfl, by decide +kernel⟩

theorem coherent_sharedDb : Coherent sampleSha sharedDb :=
  sharedDb_fresh.invariant (fun _ _ hc hop => hc.step hop) (coherent_fresh rfl)

/-- The other chain goes back to nothing and the parent's record stays. -/
theorem chain_isolated_shared :
    ((ChainOp.rollbackFrom true (fun _ => true) true 0).run sampleSha sharedDb 63).cache_parents.get? sampleParentId₁ =
      sharedDb.cache_parents.get? sampleParentId₁ := by
  have hanchor : (sharedDb.redb.aux_blocks.get? ⟨50, 1⟩).bind (·.parentHash sampleSha) = some sampleParentId₁ := by
    decide +kernel
  obtain ⟨b, hrow, hparent⟩ := Option.bind_eq_some_iff.1 hanchor
  exact ((chain_isolated sampleSha sharedDb 63 50 (.rollbackFrom true (fun _ => true) true 0) coherent_sharedDb
    (by decide) trivial).2.2.2.2 sampleParentId₁ 1 b hrow hparent).1

end PsobIndexer
