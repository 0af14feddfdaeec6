import PsobIndexer.Steady
import PsobIndexer.Epochs
import PsobIndexer.Blocks
import PsobIndexer.Proofs
/-!
# Sibling groups at the API (`src/server.rs`)

A group is listed by `/siblings`, described by `/siblings/{parent_hash}`, and its
legs are blocks of `/block` and rows of `/epoch`. On a store that the ingest loops
filled the four agree: what one of them lists the others find.
-/
open Lib

namespace PsobIndexer

open Database

/-! ## Handlers -/

def chainName (config : Config) (chain_id : UInt32) : Option String :=
  (config.chains.find? (fun c => c.chain_id = chain_id)).map (·.name)

structure Paged (α : Type) where
  total : Nat
  limit : Nat
  offset : Nat
  items : List α

def paged {α : Type} (total : Nat) (page : Page) (items : List α) : Paged α := ⟨total, page.limit, page.offset, items⟩

/-- A leg of a listed group; its hash is left to the other endpoints. -/
structure ChainLeg where
  chain_id : UInt32
  name : Option String
  height : UInt64
  block_hash : String
  deriving DecidableEq

structure SiblingSummary where
  parent_hash : String
  ltc_height : UInt64
  legs_count : Nat
  legs : List ChainLeg
  deriving DecidableEq

structure SiblingQuery where
  min_legs : Option Nat
  chain_id : Option UInt32
  limit : Option Nat
  offset : Option Nat

structure SiblingBlockItem where
  chain_id : UInt32
  height : UInt64
  block_hash : String
  auxpow_hex : Option String

structure SiblingDetail where
  parent_hash : String
  ltc_height : Option UInt64
  parent_state : Int
  sibling_count : Nat
  siblings : List SiblingBlockItem

inductive DetailError where
  | badHash (e : Hex32Error)
  | notFound (msg : String)

structure EpochQuery where
  chain_id : Option UInt32
  limit : Option Nat
  offset : Option Nat

structure EpochBlockItem where
  chain_id : UInt32
  height : UInt64
  ltc_height : UInt64
  block_hash : String

structure EpochResponse where
  ltc_start : UInt64
  ltc_end : UInt64
  total_blocks : Nat
  limit : Nat
  offset : Nat
  blocks : List EpochBlockItem

def siblingSummary (config : Config) (p : SharedParent) : SiblingSummary where
  parent_hash := hashDisplay p.parent_hash_le
  ltc_height := p.ltc_height
  legs_count := p.legs.length
  legs := p.legs.map fun leg => ⟨leg.1, chainName config leg.1, leg.2, ""⟩

def siblingItem (include_aux : Bool) (s : StoredBlock) : SiblingBlockItem where
  chain_id := s.chain_id
  height := s.height
  block_hash := hashDisplay s.hash_le
  auxpow_hex := if include_aux then some s.wire_hex else none

def epochItem (r : EpochRow) : EpochBlockItem := ⟨r.chain_id, r.height, r.ltc_height, hashDisplay r.hash_le⟩

section Handlers
variable (iter : List (Hash32 × StoredParent) → List (Hash32 × StoredParent))

/-- `GET /api/v1/siblings`. -/
def siblingsHandler (config : Config) (db : Database) (q : SiblingQuery) : Paged SiblingSummary :=
  let page := Page.new q.limit q.offset
  let (parents, total) := db.sharedMainnetParents iter (q.min_legs.getD 2) page q.chain_id
  paged total page (parents.map (siblingSummary config))

/-- `GET /api/v1/siblings/{parent_hash}`. -/
def siblingDetailHandler (db : Database) (parent_hash_hex : String) (include_auxpow : Option Bool) :
    Except DetailError SiblingDetail × Database :=
  match leOfDisplay parent_hash_hex with
  | .error e => (.error (.badHash e), db)
  | .ok parent_bytes =>
    match db.getParent parent_bytes with
    | (none, db) => (.error (.notFound ("parent hash " ++ parent_hash_hex ++ " is not indexed")), db)
    | (some parent_info, db) =>
      let (siblings, total) := db.siblingBlocksRange parent_bytes .default
      (.ok
        { parent_hash := parent_hash_hex
          ltc_height := parent_info.ltc_height
          parent_state := parent_info.parent_state
          sibling_count := total
          siblings := siblings.map (siblingItem (include_auxpow.getD false)) }, db)

/-- `GET /api/v1/epoch/{ltc_start}/{ltc_end}`. -/
def epochHandler (db : Database) (ltc_start ltc_end : UInt64) (q : EpochQuery) : Except ApiError EpochResponse :=
  if ltc_start > ltc_end then .error (.badRequest "ltc_start must be <= ltc_end")
  else if saturatingSub ltc_end ltc_start > 10000 then
    .error (.badRequest "requested epoch range exceeds maximum of 10000")
  else
    let page := Page.new q.limit q.offset
    let (blocks, total) := db.epochBlocks iter ltc_start ltc_end q.chain_id page
    .ok ⟨ltc_start, ltc_end, total, page.limit, page.offset, blocks.map epochItem⟩

/-- `GET /api/v1/epoch/latest`. -/
def epochLatestHandler (config : Config) (db : Database) (q : SiblingQuery) : Except ApiError SiblingSummary :=
  match db.latestSiblingGroup iter (q.min_legs.getD 2) with
  | none => .error (.notFound "no sibling groups indexed yet")
  | some group => .ok (siblingSummary config group)

end Handlers

/-! ## What they show of a parent -/

section Sha
variable (sha256d : Bytes → Hash32)

/-- The other endpoints find a leg of a listed group: its block is stored under the
parent, `/block` shows the parent and its height, and `/epoch` has the row. -/
structure LegFound (config : Config) (db : Database) (g : SiblingSummary) (p : Hash32) (leg : ChainLeg) : Prop where
  name : leg.name = chainName config leg.chain_id
  block : ∃ b, db.redb.aux_blocks.get? ⟨leg.chain_id, leg.height⟩ = some b ∧ b.parentHash sha256d = some p ∧
    (∃ r, (blockDetailHandler sha256d config db leg.chain_id leg.height).1 = .ok r ∧ r.parent_hash = g.parent_hash ∧
      r.ltc_height = some g.ltc_height ∧ r.parent_state = 1 ∧ r.block_hash = hashDisplay b.hash_le) ∧
    ∀ iter, (∀ l, (List.Perm (iter l) l)) → ∃ offset, ∀ limit, ∃ r,
      epochHandler iter db g.ltc_height g.ltc_height ⟨none, limit, some offset⟩ = .ok r ∧
        ⟨leg.chain_id, leg.height, g.ltc_height, hashDisplay b.hash_le⟩ ∈ r.blocks

/-- The description of a listed group: a mainnet parent at the listed height, with a
count of all its stored blocks and the first of them, the legs among them if there
is room for all. -/
structure GroupDescribed (db : Database) (g : SiblingSummary) (p : Hash32) (d : SiblingDetail) : Prop where
  parent : d.parent_hash = g.parent_hash ∧ d.ltc_height = some g.ltc_height ∧ d.parent_state = 1
  count : d.sibling_count = (storedUnder sha256d db p).length
  shown : d.siblings.length = min 20 d.sibling_count
  legs : d.sibling_count ≤ 20 → ∀ leg ∈ g.legs, ∃ item ∈ d.siblings, item.chain_id = leg.chain_id ∧ item.height = leg.height

variable {sha256d}

/-- What a listed group stands for, whatever number of legs was asked for. -/
theorem Coherent.of_mem_allSharedParents {db : Database} (h : Coherent sha256d db)
    {iter : List (Hash32 × StoredParent) → List (Hash32 × StoredParent)} (hiter : ∀ l, (iter l).Perm l)
    {min_legs : Nat} {chain_filter : Option UInt32} {g : SharedParent}
    (hg : g ∈ db.allSharedParents iter min_legs chain_filter) :
    OnMainnetAt db g.parent_hash_le g.ltc_height ∧
      ∀ leg ∈ g.legs, ∃ b, db.redb.aux_blocks.get? ⟨leg.1, leg.2⟩ = some b ∧ b.parentHash sha256d = some g.parent_hash_le := by
  unfold allSharedParents at hg
  rw [List.mem_mergeSort, List.mem_filterMap] at hg
  obtain ⟨⟨p, sp⟩, hmem, hg⟩ := hg
  have hsp := KMap.mem_entries.1 ((hiter _).mem_iff.1 hmem)
  unfold sharedParent at hg
  obtain ⟨ltc_h, hltc, hg⟩ := Option.bind_eq_some_iff.1 hg
  obtain ⟨l, hl, hg⟩ := Option.bind_eq_some_iff.1 hg
  simp only at hl hltc hg
  split_ifs at hg
  cases hg
  refine ⟨⟨sp, hsp, (h.states p sp hsp).2 (by rw [hltc]; rfl), hltc⟩, fun leg hleg => ?_⟩
  obtain ⟨⟨b, hb, hc, hh⟩, -⟩ := mem_legsByChain.1 hleg
  have hlisted : b ∈ db.siblings p := by
    unfold siblings
    rw [hl]
    exact (List.mem_filter.1 hb).1
  obtain ⟨⟨k, hk⟩, hp⟩ := h.mem_siblings.1 hlisted
  refine ⟨b, ?_, hp⟩
  rw [← hc, ← hh, h.get?_key hk]
  exact hk

/-- The indexed blocks of a parent are its stored ones. -/
theorem Coherent.indexedBlocks_perm {db : Database} (h : Coherent sha256d db) (p : Hash32) :
    (db.indexedBlocks p).Perm (storedUnder sha256d db p) := by
  have hrange : (db.redb.sibling_index.range ⟨p, 0, 0⟩ ⟨p, 0xffffffff, u64Max⟩).Pairwise (fun e e' => e.1 ≠ e'.1) :=
    (List.pairwise_map.1 db.redb.sibling_index.keys_nodup).filter _
  have hnodup : (db.indexedBlocks p).Nodup := by
    unfold indexedBlocks
    refine List.pairwise_filterMap.2 (hrange.imp_of_mem fun {e e'} he he' hne b hb b' hb' heq => hne ?_)
    subst heq
    -- a block has one key, and the rows of the window have one parent
    have hkey := (h.get?_key hb).symm.trans (h.get?_key hb')
    have hparent : ∀ {e : SiblingKey × Unit}, e ∈ db.redb.sibling_index.range ⟨p, 0, 0⟩ ⟨p, 0xffffffff, u64Max⟩ →
        e.1.parent = p := fun hmem => SiblingKey.mem_parent.1 (KMap.mem_range.1 hmem).2
    obtain ⟨⟨q, c, hh⟩, u⟩ := e
    obtain ⟨⟨q', c', hh'⟩, u'⟩ := e'
    cases hparent he
    cases hparent he'
    cases hkey
    rfl
  refine (List.perm_ext_iff_of_nodup hnodup ?_).2 fun b => ?_
  · have hkeys := h.siblings_keys_nodup p
    rw [((h.listed p).map _).nodup_iff] at hkeys
    exact hkeys.of_map
  · rw [mem_storedUnder]
    constructor
    · intro hb
      obtain ⟨e, -, hget⟩ := List.mem_filterMap.1 hb
      exact ⟨⟨_, hget⟩, h.indexed.indexedBlocks hb⟩
    · rintro ⟨⟨k, hk⟩, hp⟩
      refine List.mem_filterMap.2 ⟨(⟨p, k.chain_id, k.height⟩, ()), KMap.mem_range.2 ⟨?_, SiblingKey.mem_parent.2 rfl⟩, hk⟩
      exact (h.indexed ⟨p, k.chain_id, k.height⟩).2 ⟨b, hk, hp⟩

/-- A stored block at the API. -/
theorem Coherent.blockDetail {db : Database} (h : Coherent sha256d db) (config : Config) {c : UInt32} {hh : UInt64}
    {b : StoredBlock} {p : Hash32} {ltc_height : UInt64} (hb : db.redb.aux_blocks.get? ⟨c, hh⟩ = some b)
    (hp : b.parentHash sha256d = some p) (hmain : OnMainnetAt db p ltc_height) :
    ∃ r, (blockDetailHandler sha256d config db c hh).1 = .ok r ∧ r.parent_hash = hashDisplay p ∧
      r.ltc_height = some ltc_height ∧ r.parent_state = 1 ∧ r.block_hash = hashDisplay b.hash_le := by
  obtain ⟨sp, hsp, hstate, hltc⟩ := hmain
  have hat : (db.blockAt c hh).1 = some b := by
    rw [blockAt_fst, h.cached, hb]
    rfl
  have hsame := blockAt_sameReads db c hh
  have hparent : (db.getParent p).1 = some sp := by
    rw [getParent_fst, hsp]
    rfl
  have hread := @SameReads.blockFromStored sha256d _ _ hsame b
  have hserved : (blockFromStored sha256d db b).1.parent_hash = hashDisplay p ∧
      (blockFromStored sha256d db b).1.ltc_height = some ltc_height ∧
      (blockFromStored sha256d db b).1.parent_state = 1 ∧
      (blockFromStored sha256d db b).1.block_hash = hashDisplay b.hash_le := by
    unfold blockFromStored
    simp only [hp]
    simp [hparent, hltc, hstate]
  rw [← hread] at hserved
  unfold blockDetailHandler
  generalize db.blockAt c hh = r at hat hserved
  obtain ⟨found, db'⟩ := r
  simp only at hat hserved
  subst hat
  simp only
  generalize blockFromStored sha256d db' b = r at hserved
  obtain ⟨response, db''⟩ := r
  split <;> exact ⟨_, rfl, hserved⟩

/-- A stored block of a mainnet parent has a row in the epoch of its LTC height. -/
theorem Coherent.epochShows {db : Database} (h : Coherent sha256d db)
    {iter : List (Hash32 × StoredParent) → List (Hash32 × StoredParent)} (hiter : ∀ l, (iter l).Perm l) {c : UInt32}
    {hh ltc_height : UInt64} {b : StoredBlock} {p : Hash32} (hb : db.redb.aux_blocks.get? ⟨c, hh⟩ = some b)
    (hp : b.parentHash sha256d = some p) (hmain : OnMainnetAt db p ltc_height) :
    ∃ offset, ∀ limit, ∃ r, epochHandler iter db ltc_height ltc_height ⟨none, limit, some offset⟩ = .ok r ∧
      ⟨c, hh, ltc_height, hashDisplay b.hash_le⟩ ∈ r.blocks := by
  have hrow : (⟨c, hh, ltc_height, b.hash_le⟩ : EpochRow) ∈
      (joinedRows iter db ltc_height ltc_height none).mergeSort EpochRow.le := by
    rw [List.mem_mergeSort, h.mem_joinedRows hiter]
    exact ⟨b, p, hb, rfl, hp, hmain, le_rfl, le_rfl, fun _ hc => by cases hc⟩
  obtain ⟨offset, hoffset⟩ := List.mem_iff_getElem?.1 hrow
  refine ⟨offset, fun limit => ?_⟩
  have hrange : ¬ saturatingSub ltc_height ltc_height > 10000 := by
    rw [gt_iff_lt, UInt64.lt_iff_toNat_lt, toNat_saturatingSub, Nat.sub_self]
    exact Nat.not_lt_zero _
  unfold epochHandler
  rw [if_neg (lt_irrefl _), if_neg hrange]
  refine ⟨_, rfl, List.mem_map.2 ⟨⟨c, hh, ltc_height, b.hash_le⟩, ?_, rfl⟩⟩
  -- the row is the first one of its page
  unfold Page.slice Page.new
  refine List.mem_iff_getElem?.2 ⟨0, ?_⟩
  rw [List.getElem?_take_of_lt (lt_of_lt_of_le Nat.one_pos (le_max_left _ _)), List.getElem?_drop]
  exact hoffset

theorem Coherent.siblingDetail {db : Database} (h : Coherent sha256d db) {p : Hash32} {sp : StoredParent}
    (hsp : db.cache_parents.get? p = some sp) (include_auxpow : Option Bool) :
    (siblingDetailHandler db (hashDisplay p) include_auxpow).1 = .ok
      { parent_hash := hashDisplay p
        ltc_height := sp.ltc_height
        parent_state := sp.parent_state
        sibling_count := (storedUnder sha256d db p).length
        siblings := ((db.indexedBlocks p).take 20).map (siblingItem (include_auxpow.getD false)) } := by
  have hget : db.getParent p = (some sp, db) := by
    unfold getParent
    rw [hsp]
  unfold siblingDetailHandler
  rw [leOfDisplay_hashDisplay]
  simp only [hget, siblingBlocksRange, Page.slice, Page.default, List.drop_zero, (h.indexedBlocks_perm p).length_eq]

/-- A group that is shown is one of the shared parents. -/
theorem mem_of_shown {config : Config} {db : Database} {iter : List (Hash32 × StoredParent) → List (Hash32 × StoredParent)}
    {q : SiblingQuery} {g : SiblingSummary}
    (hg : g ∈ (siblingsHandler iter config db q).items ∨ epochLatestHandler iter config db q = .ok g) :
    ∃ sp, siblingSummary config sp = g ∧ ∃ chain_filter, sp ∈ db.allSharedParents iter (q.min_legs.getD 2) chain_filter := by
  rcases hg with hg | hg
  · obtain ⟨sp, hmem, rfl⟩ := List.mem_map.1 hg
    exact ⟨sp, rfl, q.chain_id, List.mem_of_mem_drop (List.mem_of_mem_take hmem)⟩
  · unfold epochLatestHandler at hg
    rw [latestSiblingGroup_eq_head?] at hg
    split at hg
    · cases hg
    · rename_i sp hsp
      cases hg
      exact ⟨sp, rfl, none, List.mem_of_mem_head? hsp⟩

variable (w : Nat) (sha256d)

/-- On a store that committed ticks and restarts filled, each group that `/siblings`
lists or `/epoch/latest` answers with is described by the detail endpoint, and each of
its legs is found by `/block` and by `/epoch`, under the same parent and LTC height. -/
theorem listed_groups_found (config : Config) (db₀ : Database) (ops : List IngestOp)
    (hopen : openDb sha256d Redb.empty = .ok db₀) (hops : ∀ op ∈ ops, op.Committed config ∧ op.Iterates)
    (iter : List (Hash32 × StoredParent) → List (Hash32 × StoredParent)) (hiter : ∀ l, (iter l).Perm l) (q : SiblingQuery)
    (g : SiblingSummary) (hg : g ∈ (siblingsHandler iter config (runIngest w sha256d config db₀ ops) q).items ∨
      epochLatestHandler iter config (runIngest w sha256d config db₀ ops) q = .ok g) (include_auxpow : Option Bool) :
    let db := runIngest w sha256d config db₀ ops
    g.legs_count = g.legs.length ∧ ∃ p, g.parent_hash = hashDisplay p ∧
      (∃ d, (siblingDetailHandler db g.parent_hash include_auxpow).1 = .ok d ∧ GroupDescribed sha256d db g p d) ∧
      ∀ leg ∈ g.legs, LegFound sha256d config db g p leg := by
  intro db
  obtain ⟨hsteady, -⟩ := @steady_run _ w config ops _ (steady_fresh hopen).1 (tracked_fresh hopen) hops
  have h : Coherent sha256d db := hsteady.restartable.coherent
  obtain ⟨sp, rfl, chain_filter, hmem⟩ := mem_of_shown hg
  obtain ⟨hmain, hlegs⟩ := h.of_mem_allSharedParents hiter hmem
  have hleg : ∀ leg ∈ (siblingSummary config sp).legs, ∃ b, db.redb.aux_blocks.get? ⟨leg.chain_id, leg.height⟩ = some b ∧
      b.parentHash sha256d = some sp.parent_hash_le := by
    intro leg hmem
    obtain ⟨x, hx, rfl⟩ := List.mem_map.1 hmem
    exact hlegs x hx
  refine ⟨(List.length_map _).symm, sp.parent_hash_le, rfl, ?_, fun leg hmem => ?_⟩
  · obtain ⟨parent, hparent, hstate, hltc⟩ := hmain
    refine ⟨_, h.siblingDetail hparent include_auxpow, ⟨rfl, hltc, hstate⟩, rfl, ?_, fun hcount leg hmem => ?_⟩
    · rw [List.length_map, List.length_take, (h.indexedBlocks_perm _).length_eq]
    · obtain ⟨b, hb, hp⟩ := hleg leg hmem
      have hindexed : b ∈ db.indexedBlocks sp.parent_hash_le :=
        (h.indexedBlocks_perm _).mem_iff.2 ((mem_storedUnder sha256d).2 ⟨⟨_, hb⟩, hp⟩)
      rw [← (h.indexedBlocks_perm _).length_eq] at hcount
      refine ⟨siblingItem _ b, List.mem_map_of_mem (by rwa [List.take_of_length_le hcount]), ?_⟩
      exact h.keyed _ b hb
  · obtain ⟨b, hb, hp⟩ := hleg leg hmem
    refine ⟨?_, b, hb, hp, h.blockDetail config hb hp hmain, fun iter hiter => h.epochShows hiter hb hp hmain⟩
    obtain ⟨x, -, rfl⟩ := List.mem_map.1 hmem
    rfl

end Sha

/-! ## The group of two chains -/

theorem legsStore_listed : ((siblingsHandler id legsConfig legsStore ⟨none, none, none, none⟩).items.map fun g =>
    (g.ltc_height, g.legs.map fun leg => (leg.chain_id, leg.height))) = [(7, [(50, 1), (63, 1)])] := by
  decide +kernel

theorem listed_groups_found_legs : ∃ g ∈ (siblingsHandler id legsConfig legsStore ⟨none, none, none, none⟩).items,
    g.legs.length = 2 ∧ ∃ p, ∀ leg ∈ g.legs, LegFound legsSha legsConfig legsStore g p leg := by
  have hlisted := legsStore_listed
  obtain ⟨g, hg⟩ : ∃ g, (siblingsHandler id legsConfig legsStore ⟨none, none, none, none⟩).items = [g] := by
    rw [← List.length_eq_one_iff, ← List.length_map, hlisted]
    rfl
  rw [hg] at hlisted ⊢
  have hmem : g ∈ (siblingsHandler id legsConfig legsStore ⟨none, none, none, none⟩).items := by
    rw [hg]
    exact List.mem_singleton_self g
  unfold legsStore at hmem ⊢
  obtain ⟨-, p, -, -, hlegs⟩ := listed_groups_found legsSha 64 legsConfig freshDb legsOps rfl legsOps_committed id
    (fun l => .refl l) ⟨none, none, none, none⟩ g (.inl hmem) none
  refine ⟨g, List.mem_singleton_self g, ?_, p, hlegs⟩
  have hcount := congrArg (fun l : List (UInt64 × List (UInt32 × UInt64)) => l.map fun x => x.2.length) hlisted
  simpa using hcount

end PsobIndexer
