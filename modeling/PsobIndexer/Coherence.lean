import PsobIndexer.Lib.Run
import PsobIndexer.Mutators
import PsobIndexer.Atomicity
/-!
# The caches agree with the tables

`Coherent` is the invariant of a store that is open: the block cache is the
block table, the sibling index and the sibling lists hold exactly the stored
blocks of each parent, every such parent is cached, and its state says whether
it has a mainnet height. `Coherent.insertOne`, `Coherent.drop` and
`Coherent.classifyParent` are the step lemmas; a rollback and a pruning are two
drops.
-/
open Lib

namespace PsobIndexer

open Database

section Sha
variable (sha256d : Bytes → Hash32)

/-- The stored blocks of a parent, in key order. -/
def storedUnder (db : Database) (p : Hash32) : List StoredBlock :=
  (db.redb.aux_blocks.entries.map Prod.snd).filter (fun b => b.parentHash sha256d = some p)

theorem mem_storedUnder {db : Database} {p : Hash32} {b : StoredBlock} :
    b ∈ storedUnder sha256d db p ↔ (∃ k, db.redb.aux_blocks.get? k = some b) ∧ b.parentHash sha256d = some p := by
  simp only [storedUnder, List.mem_filter, List.mem_map, Prod.exists, exists_eq_right, KMap.mem_entries, decide_eq_true_eq]

/-- The sibling index has a row for each stored block, under its parent. -/
def Indexed (r : Redb) : Prop :=
  ∀ k : SiblingKey, r.sibling_index.get? k = some () ↔
    ∃ b, r.aux_blocks.get? ⟨k.chain_id, k.height⟩ = some b ∧ b.parentHash sha256d = some k.parent

structure Coherent (db : Database) : Prop where
  cached : db.cache_blocks = db.redb.aux_blocks
  keyed : ∀ k b, db.redb.aux_blocks.get? k = some b → b.chain_id = k.chain_id ∧ b.height = k.height
  indexed : Indexed sha256d db.redb
  listed : ∀ p, (db.siblings p).Perm (storedUnder sha256d db p)
  parents : ∀ k b p, db.redb.aux_blocks.get? k = some b → b.parentHash sha256d = some p →
    ∃ sp, db.cache_parents.get? p = some sp
  states : ∀ p sp, db.cache_parents.get? p = some sp → (sp.parent_state = 1 ↔ sp.ltc_height.isSome = true)

variable {sha256d}

theorem Coherent.of_eq {db db' : Database} (h : Coherent sha256d db) (hblocks : db'.cache_blocks = db.cache_blocks)
    (haux : db'.redb.aux_blocks = db.redb.aux_blocks) (hindex : db'.redb.sibling_index = db.redb.sibling_index)
    (hsiblings : db'.cache_siblings = db.cache_siblings) (hparents : db'.cache_parents = db.cache_parents) :
    Coherent sha256d db' where
  cached := by rw [hblocks, haux, h.cached]
  keyed := by
    rw [haux]
    exact h.keyed
  indexed := by
    unfold Indexed
    rw [haux, hindex]
    exact h.indexed
  listed := by
    intro p
    unfold siblings storedUnder
    rw [haux, hsiblings]
    exact h.listed p
  parents := by
    rw [haux, hparents]
    exact h.parents
  states := by
    rw [hparents]
    exact h.states

/-- The part of `Coherent` that a restart always brings back: rows have the keys
their blocks spell, and the sibling lists hold the stored blocks. -/
structure Listing (sha256d : Bytes → Hash32) (db : Database) : Prop where
  keyed : ∀ k b, db.redb.aux_blocks.get? k = some b → b.chain_id = k.chain_id ∧ b.height = k.height
  listed : ∀ p, (db.siblings p).Perm (storedUnder sha256d db p)

theorem Coherent.listing {db : Database} (h : Coherent sha256d db) : Listing sha256d db := ⟨h.keyed, h.listed⟩

theorem Listing.mem_siblings {db : Database} (h : Listing sha256d db) {p : Hash32} {b : StoredBlock} :
    b ∈ db.siblings p ↔ (∃ k, db.redb.aux_blocks.get? k = some b) ∧ b.parentHash sha256d = some p :=
  (h.listed p).mem_iff.trans (mem_storedUnder sha256d)

theorem Coherent.mem_siblings {db : Database} (h : Coherent sha256d db) {p : Hash32} {b : StoredBlock} :
    b ∈ db.siblings p ↔ (∃ k, db.redb.aux_blocks.get? k = some b) ∧ b.parentHash sha256d = some p :=
  h.listing.mem_siblings

/-- A stored block is found at the key its fields spell. -/
theorem Listing.get?_key {db : Database} (h : Listing sha256d db) {k : BlockKey} {b : StoredBlock}
    (hb : db.redb.aux_blocks.get? k = some b) : (⟨b.chain_id, b.height⟩ : BlockKey) = k := by
  obtain ⟨hc, hh⟩ := h.keyed k b hb
  rw [hc, hh]

theorem Coherent.get?_key {db : Database} (h : Coherent sha256d db) {k : BlockKey} {b : StoredBlock}
    (hb : db.redb.aux_blocks.get? k = some b) : (⟨b.chain_id, b.height⟩ : BlockKey) = k := h.listing.get?_key hb

/-! ## Inserting a row -/

/-- What a row must satisfy: its block names its key, carries a witness, and is
the stored block if the key is taken. -/
structure RowOk (db : Database) (row : BlockRow) : Prop where
  witnessed : Witnessed row
  keyed : row.2.chain_id = row.1.chain_id ∧ row.2.height = row.1.height
  fresh : ∀ b, db.redb.aux_blocks.get? row.1 = some b → b = row.2

theorem insertOne_eq (db : Database) {row : BlockRow} {aux : AuxPow} (haux : row.2.header.aux = some aux) :
    db.insertOne sha256d row =
      { db with
        redb := { db.redb with
          aux_blocks := db.redb.aux_blocks.insert row.1 row.2
          sibling_index := db.redb.sibling_index.insert ⟨sha256d aux.parent_header, row.1.chain_id, row.1.height⟩ () }
        cache_blocks := db.cache_blocks.insert row.1 row.2
        cache_siblings := db.cache_siblings.insert (sha256d aux.parent_header)
          (pushSibling (db.siblings (sha256d aux.parent_header)) row.1 row.2)
        cache_parents := if db.cache_parents.contains (sha256d aux.parent_header) then db.cache_parents
          else db.cache_parents.insert (sha256d aux.parent_header) (newParent sha256d aux) } := by
  unfold insertOne
  simp only [haux]

theorem pushSibling_of_mem {list : List StoredBlock} {k : BlockKey} {block b : StoredBlock} (hb : b ∈ list)
    (hk : b.chain_id = k.chain_id ∧ b.height = k.height) : pushSibling list k block = list := by
  unfold pushSibling
  rw [if_pos (List.any_eq_true.2 ⟨b, hb, by simp [hk]⟩)]

theorem pushSibling_of_not_mem {list : List StoredBlock} {k : BlockKey} {block : StoredBlock}
    (h : ∀ b ∈ list, ¬ (b.chain_id = k.chain_id ∧ b.height = k.height)) : pushSibling list k block = list ++ [block] := by
  unfold pushSibling
  rw [if_neg]
  intro hany
  obtain ⟨b, hb, hk⟩ := List.any_eq_true.1 hany
  exact h b hb (by simpa using hk)

/-- The list of the row's parent grows by the row, unless the row is there. -/
theorem Listing.listed_insertOne {db : Database} (h : Listing sha256d db) {row : BlockRow} (hrow : RowOk db row)
    {p : Hash32} (hp : row.2.parentHash sha256d = some p) :
    (pushSibling (db.siblings p) row.1 row.2).Perm
      (((db.redb.aux_blocks.insert row.1 row.2).entries.map Prod.snd).filter
        (fun b => b.parentHash sha256d = some p)) := by
  cases hold : db.redb.aux_blocks.get? row.1 with
  | some b =>
    obtain rfl := hrow.fresh b hold
    rw [KMap.insert_of_get? hold, pushSibling_of_mem (h.mem_siblings.2 ⟨⟨_, hold⟩, hp⟩) hrow.keyed]
    exact h.listed p
  | none =>
    have hnew : ∀ b ∈ db.siblings p, ¬ (b.chain_id = row.1.chain_id ∧ b.height = row.1.height) := by
      intro b hb hk
      obtain ⟨⟨k, hkb⟩, -⟩ := h.mem_siblings.1 hb
      have hkey := h.get?_key hkb
      rw [hk.1, hk.2] at hkey
      rw [← hkey] at hkb
      rw [hold] at hkb
      cases hkb
    have hperm := ((db.redb.aux_blocks.insert_perm row.1 row.2).map Prod.snd).filter
      (fun b => b.parentHash sha256d = some p)
    rw [KMap.erase_of_none hold, List.map_cons, List.filter_cons_of_pos (by simpa using hp)] at hperm
    rw [pushSibling_of_not_mem hnew]
    exact (List.perm_append_singleton _ _).trans (((h.listed p).cons _).trans hperm.symm)

theorem Listing.insertOne {db : Database} (h : Listing sha256d db) {row : BlockRow} (hrow : RowOk db row) :
    Listing sha256d (db.insertOne sha256d row) := by
  obtain ⟨aux, haux, -⟩ := hrow.witnessed
  have hp : row.2.parentHash sha256d = some (sha256d aux.parent_header) := by
    rw [StoredBlock.parentHash, haux, Option.map_some]
  rw [insertOne_eq db haux]
  constructor
  · intro k b hb
    rw [KMap.get?_insert] at hb
    split_ifs at hb with hk
    · cases hb
      rw [hk]
      exact hrow.keyed
    · exact h.keyed k b hb
  · intro q
    by_cases hq : q = sha256d aux.parent_header
    · have hl := h.listed_insertOne hrow hp
      unfold siblings storedUnder
      simp only [hq, KMap.get?_insert_self, Option.getD_some]
      exact hl
    · -- the row is under another parent
      unfold siblings storedUnder
      simp only [KMap.get?_insert, if_neg hq]
      refine (h.listed q).trans ?_
      unfold storedUnder
      have hout : row.2.parentHash sha256d ≠ some q := by
        rw [hp]
        exact fun he => hq (Option.some.inj he).symm
      cases hold : db.redb.aux_blocks.get? row.1 with
      | some b =>
        obtain rfl := hrow.fresh b hold
        rw [KMap.insert_of_get? hold]
      | none =>
        have hperm := ((db.redb.aux_blocks.insert_perm row.1 row.2).map Prod.snd).filter
          (fun b => b.parentHash sha256d = some q)
        rw [KMap.erase_of_none hold, List.map_cons, List.filter_cons_of_neg (by simpa using hout)] at hperm
        exact hperm.symm

theorem Indexed.insertOne {db : Database} (h : Indexed sha256d db.redb) {row : BlockRow} (hw : Witnessed row)
    (hfresh : ∀ b, db.redb.aux_blocks.get? row.1 = some b → b = row.2) :
    Indexed sha256d (db.insertOne sha256d row).redb := by
  obtain ⟨aux, haux, -⟩ := hw
  have hp : row.2.parentHash sha256d = some (sha256d aux.parent_header) := by
    rw [StoredBlock.parentHash, haux, Option.map_some]
  rw [insertOne_eq db haux]
  intro k
  simp only [KMap.get?_insert]
  by_cases hk : (⟨k.chain_id, k.height⟩ : BlockKey) = row.1
  · rw [if_pos hk]
    simp only [Option.some.injEq, exists_eq_left', hp]
    constructor
    · intro hin
      split_ifs at hin with heq
      · rw [heq]
      · obtain ⟨b, hb, hbp⟩ := (h k).1 hin
        rw [hk] at hb
        rw [hfresh b hb, hp] at hbp
        exact Option.some.inj hbp
    · intro hpk
      rw [if_pos]
      rw [← hk, hpk]
  · have hne : k ≠ ⟨sha256d aux.parent_header, row.1.chain_id, row.1.height⟩ := by
      intro he
      exact hk (by rw [he])
    rw [if_neg hk, if_neg hne]
    exact h k

theorem Coherent.insertOne {db : Database} (h : Coherent sha256d db) {row : BlockRow} (hrow : RowOk db row) :
    Coherent sha256d (db.insertOne sha256d row) := by
  obtain ⟨aux, haux, -⟩ := hrow.witnessed
  have hp : row.2.parentHash sha256d = some (sha256d aux.parent_header) := by
    rw [StoredBlock.parentHash, haux, Option.map_some]
  have hindexed := h.indexed.insertOne hrow.witnessed hrow.fresh
  have hlisting := h.listing.insertOne hrow
  rw [insertOne_eq db haux] at hindexed hlisting ⊢
  constructor
  · simp only [h.cached]
  · exact hlisting.keyed
  · exact hindexed
  · exact hlisting.listed
  · intro k b q hb hbq
    have hold : ∀ sp, db.cache_parents.get? q = some sp → ∃ sp, (if db.cache_parents.contains (sha256d aux.parent_header)
        then db.cache_parents else db.cache_parents.insert (sha256d aux.parent_header) (newParent sha256d aux)).get? q =
          some sp := by
      intro sp hsp
      split_ifs
      · exact ⟨sp, hsp⟩
      · rw [KMap.get?_insert]
        split_ifs
        · exact ⟨_, rfl⟩
        · exact ⟨sp, hsp⟩
    rw [KMap.get?_insert] at hb
    split_ifs at hb with hk
    · cases hb
      rw [hp] at hbq
      cases hbq
      split_ifs with hc
      · exact KMap.contains_iff.1 hc
      · exact ⟨_, KMap.get?_insert_self _ _ _⟩
    · obtain ⟨sp, hsp⟩ := h.parents k b q hb hbq
      exact hold sp hsp
  · intro q sp hsp
    split_ifs at hsp with hc
    · exact h.states q sp hsp
    · rw [KMap.get?_insert] at hsp
      split_ifs at hsp
      · cases hsp
        simp [newParent]
      · exact h.states q sp hsp

/-! ## Dropping blocks -/

/-- Tables that lost the rows of a chain at certain heights. -/
theorem Indexed.drop {r r' : Redb} (h : Indexed sha256d r) {c : UInt32} {drop : UInt64 → Bool}
    (haux : r'.aux_blocks = r.aux_blocks.filter (fun k _ => keepKey c drop k))
    (hindex : ∀ k : SiblingKey, r'.sibling_index.get? k =
      if k.chain_id = c ∧ drop k.height = true then none else r.sibling_index.get? k) : Indexed sha256d r' := by
  intro k
  rw [hindex, haux, KMap.get?_filter]
  simp only [Option.filter_eq_some_iff]
  by_cases hk : k.chain_id = c ∧ drop k.height = true
  · have hgone : keepKey c drop ⟨k.chain_id, k.height⟩ = false := keepKey_eq_false.2 hk
    rw [if_pos hk]
    simp [hgone]
  · have hkept : keepKey c drop ⟨k.chain_id, k.height⟩ = true := by
      rw [← Bool.not_eq_false]
      exact fun hf => hk (keepKey_eq_false.1 hf)
    rw [if_neg hk, h k]
    simp [hkept]

/-- A rollback removes the rows it should, if it visits the parents of the
blocks it drops. -/
theorem Indexed.get?_rolledBack {db : Database} (h : Indexed sha256d db.redb) {c : UInt32} {from_height : UInt64}
    (hparents : ∀ k b p, db.redb.aux_blocks.get? k = some b → k.chain_id = c → from_height ≤ k.height →
      b.parentHash sha256d = some p → ∃ sp, db.cache_parents.get? p = some sp) (k : SiblingKey) :
    (db.rolledBack sha256d c from_height).redb.sibling_index.get? k =
      if k.chain_id = c ∧ decide (from_height ≤ k.height) = true then none else db.redb.sibling_index.get? k := by
  simp only [Database.rolledBack, get?_eraseSiblingRows, decide_eq_true_eq]
  by_cases hk : k.chain_id = c ∧ from_height ≤ k.height
  · by_cases hp : k.parent ∈ db.cache_parents.keys
    · simp [hk, hp]
    · have hnone : db.redb.sibling_index.get? k = none := by
        cases hget : db.redb.sibling_index.get? k with
        | none => rfl
        | some u =>
          obtain ⟨b, hb, hbp⟩ := (h k).1 hget
          exact absurd (KMap.mem_keys.2 (hparents _ b _ hb hk.1 hk.2 hbp)) hp
      simp [hk, hnone]
  · rw [if_neg hk, if_neg (fun hh => hk hh.2)]

theorem Indexed.get?_prunedBelow {db : Database} (h : Indexed sha256d db.redb) (c : UInt32) {below : UInt64}
    (hbelow : 1 ≤ below) (k : SiblingKey) :
    (db.prunedBelow sha256d c below).redb.sibling_index.get? k =
      if k.chain_id = c ∧ decide (k.height < below) = true then none else db.redb.sibling_index.get? k := by
  have hlt : ∀ hh : UInt64, hh ≤ saturatingSub below 1 ↔ hh < below := by
    intro hh
    rw [UInt64.le_iff_toNat_le, UInt64.lt_iff_toNat_lt, toNat_saturatingSub]
    rw [UInt64.le_iff_toNat_le] at hbelow
    have : (1 : UInt64).toNat = 1 := rfl
    omega
  have hrow : k ∈ (db.chainRows c 0 (saturatingSub below 1)).filterMap (fun row =>
        (row.2.parentHash sha256d).map (fun p => (⟨p, row.1.chain_id, row.1.height⟩ : SiblingKey))) ↔
      (k.chain_id = c ∧ k.height < below) ∧ db.redb.sibling_index.get? k = some () := by
    rw [h k, List.mem_filterMap]
    constructor
    · rintro ⟨⟨kk, b⟩, hmem, hk⟩
      obtain ⟨hget, hwin⟩ := KMap.mem_range.1 hmem
      rw [BlockKey.mem_window, hlt] at hwin
      obtain ⟨p, hp, rfl⟩ := Option.map_eq_some_iff.1 hk
      exact ⟨⟨hwin.1, hwin.2.2⟩, b, hget, hp⟩
    · rintro ⟨⟨hc, hh⟩, b, hget, hp⟩
      refine ⟨(⟨k.chain_id, k.height⟩, b), KMap.mem_range.2 ⟨hget, ?_⟩, by simp [hp]⟩
      rw [BlockKey.mem_window, hlt]
      exact ⟨hc, UInt64.zero_le, hh⟩
  simp only [Database.prunedBelow, KMap.get?_eraseAll, hrow, decide_eq_true_eq]
  cases hget : db.redb.sibling_index.get? k with
  | none => simp
  | some u => simp

/-- A store that lost the blocks of a chain at certain heights everywhere, and
no parent that still has blocks. -/
theorem Coherent.drop {db db' : Database} (h : Coherent sha256d db) {c : UInt32} {drop : UInt64 → Bool}
    (haux : db'.redb.aux_blocks = db.redb.aux_blocks.filter (fun k _ => keepKey c drop k))
    (hcache : db'.cache_blocks = db.cache_blocks.filter (fun k _ => keepKey c drop k))
    (hindex : ∀ k : SiblingKey, db'.redb.sibling_index.get? k =
      if k.chain_id = c ∧ drop k.height = true then none else db.redb.sibling_index.get? k)
    (hlists : ∀ p, db'.siblings p = (db.siblings p).filter (keepBlock c drop))
    (hparents : ∀ p, db'.siblings p ≠ [] → db'.cache_parents.get? p = db.cache_parents.get? p)
    (hsub : ∀ p sp, db'.cache_parents.get? p = some sp → db.cache_parents.get? p = some sp) :
    Coherent sha256d db' := by
  have hget : ∀ {k b}, db'.redb.aux_blocks.get? k = some b ↔
      db.redb.aux_blocks.get? k = some b ∧ keepKey c drop k = true := by
    intro k b
    rw [haux, KMap.get?_filter, Option.filter_eq_some_iff]
  have hlisted : ∀ p, (db'.siblings p).Perm (storedUnder sha256d db' p) := by
    intro p
    have hvalues : (db.redb.aux_blocks.filter (fun k _ => keepKey c drop k)).entries.map Prod.snd =
        (db.redb.aux_blocks.entries.map Prod.snd).filter (keepBlock c drop) := by
      rw [KMap.filter, List.filter_map]
      congr 1
      apply List.filter_congr
      intro e he
      obtain ⟨hc, hh⟩ := h.keyed e.1 e.2 (KMap.mem_entries.1 he)
      simp only [keepKey, keepBlock, Function.comp_apply, hc, hh]
    rw [hlists]
    unfold storedUnder
    rw [haux, hvalues, List.filter_comm]
    exact (h.listed p).filter _
  constructor
  · rw [hcache, haux, h.cached]
  · intro k b hb
    exact h.keyed k b (hget.1 hb).1
  · exact h.indexed.drop haux hindex
  · exact hlisted
  · intro k b p hb hp
    have hne : db'.siblings p ≠ [] :=
      List.ne_nil_of_mem ((hlisted p).mem_iff.2 ((mem_storedUnder sha256d).2 ⟨⟨k, hb⟩, hp⟩))
    rw [hparents p hne]
    exact h.parents k b p (hget.1 hb).1 hp
  · intro p sp hsp
    exact h.states p sp (hsub p sp hsp)

/-- The lists that are not visited have no dropped block. -/
theorem Coherent.keptSiblings {db : Database} (h : Coherent sha256d db) (c : UInt32) (drop : UInt64 → Bool) (p : Hash32) :
    ((db.keptSiblings sha256d c drop).get? p).getD [] = (db.siblings p).filter (keepBlock c drop) := by
  unfold Database.keptSiblings
  rw [get?_retainSiblings]
  split_ifs with hp
  · unfold siblings
    cases db.cache_siblings.get? p <;> rfl
  · symm
    refine List.filter_eq_self.2 fun b hb => ?_
    obtain ⟨⟨k, hk⟩, hbp⟩ := h.mem_siblings.1 hb
    obtain ⟨hc, hh⟩ := h.keyed k b hk
    rw [← Bool.not_eq_false]
    intro hdrop
    simp only [keepBlock, Bool.not_eq_false', Bool.and_eq_true, decide_eq_true_eq, hc, hh] at hdrop
    refine hp ((mem_droppedParents sha256d).2 ⟨k, b, ?_, hdrop.1, hdrop.2, hbp⟩)
    rw [h.cached]
    exact hk

theorem mem_emptiedParents {db : Database} {c : UInt32} {drop : UInt64 → Bool} {p : Hash32}
    (hp : p ∈ db.emptiedParents sha256d c drop) : (db.keptSiblings sha256d c drop).get? p = some [] := by
  rw [emptiedParents, List.mem_filter] at hp
  simpa using hp.2

theorem Coherent.rolledBack {db : Database} (h : Coherent sha256d db) (c : UInt32) (from_height : UInt64) :
    Coherent sha256d (db.rolledBack sha256d c from_height) := by
  have hlists : ∀ p, (db.rolledBack sha256d c from_height).siblings p =
      (db.siblings p).filter (keepBlock c (from_height ≤ ·)) := by
    intro p
    rw [← h.keptSiblings]
    unfold Database.rolledBack siblings
    rw [KMap.get?_eraseAll]
    split_ifs with hp
    · rw [mem_emptiedParents hp]
      rfl
    · rfl
  refine h.drop rfl rfl (h.indexed.get?_rolledBack fun k b p hb _ _ hp => h.parents k b p hb hp) hlists ?_ ?_
  · intro p hne
    unfold Database.rolledBack
    rw [KMap.get?_eraseAll, if_neg]
    intro hp
    refine hne ?_
    rw [hlists, ← h.keptSiblings, mem_emptiedParents hp]
    rfl
  · intro p sp hsp
    unfold Database.rolledBack at hsp
    rw [KMap.get?_eraseAll] at hsp
    split_ifs at hsp
    exact hsp

theorem Coherent.prunedBelow {db : Database} (h : Coherent sha256d db) (c : UInt32) {below : UInt64}
    (hbelow : 1 ≤ below) : Coherent sha256d (db.prunedBelow sha256d c below) := by
  exact h.drop rfl rfl (h.indexed.get?_prunedBelow c hbelow) (h.keptSiblings c _) (fun _ _ => rfl) (fun _ _ hsp => hsp)

/-! ## Classifying -/

theorem Coherent.classifyParent {db : Database} (h : Coherent sha256d db) (p : Hash32) (ltc_height : Option UInt64) :
    Coherent sha256d (db.classifyParent true p ltc_height).2 := by
  have hmod : Coherent sha256d { db with cache_parents := db.cache_parents.modify p (·.classified ltc_height) } := by
    refine { h with parents := ?_, states := ?_ }
    · intro k b q hb hq
      obtain ⟨sp, hsp⟩ := h.parents k b q hb hq
      rw [KMap.get?_modify]
      split_ifs with hqp
      · rw [← hqp, hsp]
        exact ⟨_, rfl⟩
      · exact ⟨sp, hsp⟩
    · intro q sp hsp
      rw [KMap.get?_modify] at hsp
      split_ifs at hsp
      · obtain ⟨sp₀, -, rfl⟩ := Option.map_eq_some_iff.1 hsp
        cases ltc_height <;> simp [StoredParent.classified]
      · exact h.states q sp hsp
  unfold Database.classifyParent
  simp only [not_true, if_false]
  split
  · exact hmod
  · exact hmod.of_eq rfl rfl rfl rfl rfl

/-! ## Runs of the store -/

variable (sha256d)

/-- A call on the store, or a restart of the process. -/
inductive StoreOp where
  | insertBlocks (rows : List BlockRow)
  | rollbackFrom (chain_id : UInt32) (from_height : UInt64)
  | pruneBefore (chain_id : UInt32) (below : UInt64)
  | classifyParent (parent_hash_le : Hash32) (ltc_height : Option UInt64)
  | setCursorHeight (chain_id : UInt32) (height : UInt64)
  | upsertChain (chain_id : UInt32) (name electrs : String)
  | reopen

/-- The store after a call whose transactions all commit. A restart that the
schema gate refuses leaves things as they are. -/
def StoreOp.run (db : Database) : StoreOp → Database
  | insertBlocks rows => (db.insertBlocks sha256d true rows).2
  | rollbackFrom chain_id from_height => (db.rollbackFrom sha256d true (fun _ => true) true chain_id from_height).2
  | pruneBefore chain_id below => (db.pruneBefore sha256d true chain_id below).2
  | classifyParent p ltc_height => (db.classifyParent true p ltc_height).2
  | setCursorHeight chain_id height => (db.setCursorHeight true chain_id height).2
  | upsertChain chain_id name electrs => (db.upsertChain true chain_id name electrs).2
  | reopen => (openDb sha256d db.redb).toOption.getD db

/-- The store after a list of calls. -/
def runStore (db : Database) (ops : List StoreOp) : Database := ops.foldl (StoreOp.run sha256d) db

variable {sha256d}

/-- A batch whose rows are right for the store and for each other. -/
structure BatchOk (db : Database) (rows : List BlockRow) : Prop where
  row_ok : ∀ row ∈ rows, RowOk db row
  agree : rows.Pairwise (fun r r' => r.1 = r'.1 → r.2 = r'.2)

theorem aux_blocks_insertOne {db : Database} {row : BlockRow} (h : Witnessed row) :
    (db.insertOne sha256d row).redb.aux_blocks = db.redb.aux_blocks.insert row.1 row.2 := by
  obtain ⟨aux, haux, -⟩ := h
  rw [insertOne_eq db haux]

/-- Once its first row is in, the rest of a batch is still right. -/
theorem BatchOk.tail {db : Database} {row : BlockRow} {rows : List BlockRow} (h : BatchOk db (row :: rows)) :
    BatchOk (db.insertOne sha256d row) rows := by
  obtain ⟨hfirst, hrest⟩ := List.pairwise_cons.1 h.agree
  refine ⟨fun r hr => ?_, hrest⟩
  obtain ⟨hw, hk, hf⟩ := h.row_ok r (List.mem_cons_of_mem _ hr)
  refine ⟨hw, hk, fun b hb => ?_⟩
  rw [aux_blocks_insertOne (h.row_ok row List.mem_cons_self).witnessed, KMap.get?_insert] at hb
  split_ifs at hb with he
  · cases hb
    exact hfirst r hr he.symm
  · exact hf b hb

/-- What one row keeps, a batch keeps. -/
theorem BatchOk.invariant {I : Database → Prop} (hstep : ∀ db row, I db → RowOk db row → I (db.insertOne sha256d row))
    {db : Database} {rows : List BlockRow} (h : BatchOk db rows) (hi : I db) :
    I (db.insertBlocks sha256d true rows).2 := by
  rw [insertBlocks_ok sha256d db rows fun row hr => (h.row_ok row hr).witnessed]
  induction rows generalizing db with
  | nil => exact hi
  | cons row rows ih => exact ih h.tail (hstep db row hi (h.row_ok row List.mem_cons_self))

theorem rewindCursor_frame (commit : Bool) (db : Database) (c : UInt32) (from_height : UInt64) :
    (db.rewindCursor commit c from_height).2.redb.aux_blocks = db.redb.aux_blocks ∧
      (db.rewindCursor commit c from_height).2.redb.sibling_index = db.redb.sibling_index ∧
      (db.rewindCursor commit c from_height).2.redb.parent_blocks = db.redb.parent_blocks ∧
      (db.rewindCursor commit c from_height).2.cache_blocks = db.cache_blocks ∧
      (db.rewindCursor commit c from_height).2.cache_siblings = db.cache_siblings ∧
      (db.rewindCursor commit c from_height).2.cache_parents = db.cache_parents := by
  obtain ⟨m, hm⟩ := getMeta_frame db (cursorKey c)
  unfold rewindCursor setMeta
  simp only [hm]
  split
  · exact ⟨rfl, rfl, rfl, rfl, rfl, rfl⟩
  · split_ifs <;> exact ⟨rfl, rfl, rfl, rfl, rfl, rfl⟩

theorem Coherent.rollbackFrom {db : Database} (h : Coherent sha256d db) (c : UInt32) (from_height : UInt64) :
    Coherent sha256d (db.rollbackFrom sha256d true (fun _ => true) true c from_height).2 := by
  rw [rollbackFrom_true]
  obtain ⟨ha, hi, -, hb, hs, hp⟩ := rewindCursor_frame true (db.rolledBack sha256d c from_height) c from_height
  exact (h.rolledBack c from_height).of_eq hb ha hi hs hp

theorem coherent_fresh {db₀ : Database} (h : openDb sha256d Redb.empty = .ok db₀) : Coherent sha256d db₀ := by
  cases h
  constructor
  · rfl
  · intro k b hb
    cases hb
  · intro k
    constructor
    · intro hk
      cases hk
    · rintro ⟨b, hb, -⟩
      cases hb
  · intro p
    exact .refl _
  · intro k b p hb
    cases hb
  · intro p sp hsp
    cases hsp

/-- The calls of a coherent run: batches of new, witnessed, rightly keyed rows
with distinct keys, rollbacks, prunings from 1 on, and classifications. -/
def StoreOp.Fresh (db : Database) : StoreOp → Prop
  | insertBlocks rows => (rows.map Prod.fst).Nodup ∧ ∀ row ∈ rows, db.redb.aux_blocks.get? row.1 = none ∧
      row.2.chain_id = row.1.chain_id ∧ row.2.height = row.1.height ∧
      ∃ aux, row.2.header.aux = some aux ∧ aux.parent_header.length = 80
  | rollbackFrom _ _ => True
  | pruneBefore _ below => 1 ≤ below
  | classifyParent _ _ => True
  | setCursorHeight _ _ => False
  | upsertChain _ _ _ => False
  | reopen => False

theorem batchOk_of_fresh {db : Database} {rows : List BlockRow} (h : (StoreOp.insertBlocks rows).Fresh db) :
    BatchOk db rows := by
  obtain ⟨hn, hrows⟩ := h
  refine ⟨fun row hr => ?_, ?_⟩
  · obtain ⟨hnone, hc, hh, aux, haux, hlen⟩ := hrows row hr
    refine ⟨⟨aux, haux, by omega⟩, ⟨hc, hh⟩, fun b hb => ?_⟩
    rw [hnone] at hb
    cases hb
  · exact (List.pairwise_map.1 hn).imp fun hne heq => absurd heq hne

theorem Coherent.step {db : Database} {op : StoreOp} (h : Coherent sha256d db) (hop : op.Fresh db) :
    Coherent sha256d (op.run sha256d db) := by
  cases op with
  | insertBlocks rows => exact (batchOk_of_fresh hop).invariant (fun _ _ hc hrow => hc.insertOne hrow) h
  | rollbackFrom c from_height => exact h.rollbackFrom c from_height
  | pruneBefore c below =>
    have hbelow : 1 ≤ below := hop
    change Coherent sha256d (db.pruneBefore sha256d true c below).2
    rw [pruneBefore_true sha256d db c hbelow]
    exact h.prunedBelow c hbelow
  | classifyParent p ltc_height => exact h.classifyParent p ltc_height
  | setCursorHeight c hh => exact hop.elim
  | upsertChain c name electrs => exact hop.elim
  | reopen => exact hop.elim

variable (sha256d)

/-- Every run from an empty open database keeps its caches, its index and its
parents in step with the block table. -/
theorem store_coherent (db₀ : Database) (ops : List StoreOp) (hopen : openDb sha256d Redb.empty = .ok db₀)
    (hops : Along (StoreOp.run sha256d) StoreOp.Fresh db₀ ops) :
    let db := runStore sha256d db₀ ops
    db.cache_blocks = db.redb.aux_blocks ∧
    (∀ p c h, db.redb.sibling_index.contains ⟨p, c, h⟩ = true ↔
      ∃ b, db.redb.aux_blocks.get? ⟨c, h⟩ = some b ∧ b.parentHash sha256d = some p) ∧
    (∀ p, ((db.cache_siblings.get? p).getD []).Perm
      ((db.redb.aux_blocks.entries.map Prod.snd).filter (fun b => b.parentHash sha256d = some p))) ∧
    (∀ k b p, db.redb.aux_blocks.get? k = some b → b.parentHash sha256d = some p →
      db.cache_parents.contains p = true) ∧
    (∀ p sp, db.cache_parents.get? p = some sp → (sp.parent_state = 1 ↔ sp.ltc_height.isSome = true)) := by
  intro db
  have h : Coherent sha256d db := hops.invariant (fun _ _ hc hop => hc.step hop) (coherent_fresh hopen)
  refine ⟨h.cached, ?_, h.listed, ?_, h.states⟩
  · intro p c hh
    rw [KMap.contains_iff, ← h.indexed ⟨p, c, hh⟩]
    exact ⟨fun ⟨_, hu⟩ => hu, fun hu => ⟨(), hu⟩⟩
  · intro k b p hb hp
    exact KMap.contains_iff.2 (h.parents k b p hb hp)

end Sha

/-- Two blocks stored, one rolled back, its parent with it. -/
theorem store_coherent_rollback :
    (runStore sampleSha freshDb [.insertBlocks [(⟨63, 1⟩, sampleBlock₁ 1), (⟨63, 2⟩, sampleBlock₂ 2)],
      .classifyParent sampleParentId₁ (some 7), .rollbackFrom 63 2, .pruneBefore 63 1]).cache_parents.contains
        sampleParentId₁ = true := by
  have hfresh : openDb sampleSha Redb.empty = .ok freshDb := rfl
  have hrow : ((runStore sampleSha freshDb [.insertBlocks [(⟨63, 1⟩, sampleBlock₁ 1), (⟨63, 2⟩, sampleBlock₂ 2)],
      .classifyParent sampleParentId₁ (some 7), .rollbackFrom 63 2, .pruneBefore 63 1]).redb.aux_blocks.get? ⟨63, 1⟩).bind
        (·.parentHash sampleSha) = some sampleParentId₁ := by
    decide +kernel
  obtain ⟨b, hb, hp⟩ := Option.bind_eq_some_iff.1 hrow
  refine (store_coherent sampleSha freshDb _ hfresh ?_).2.2.2.1 ⟨63, 1⟩ b sampleParentId₁ hb hp
  refine ⟨⟨by decide, ?_⟩, trivial, trivial, le_refl (1 : UInt64), trivial⟩
  intro row hrow
  rcases List.mem_cons.1 hrow with rfl | hrow
  · exact ⟨rfl, rfl, rfl, _, rfl, by decide +kernel⟩
  · rw [List.mem_singleton] at hrow
    subst hrow
    exact ⟨rfl, rfl, rfl, _, rfl, by decide +kernel⟩

end PsobIndexer
