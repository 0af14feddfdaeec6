import PsobIndexer.Transparency
import PsobIndexer.Cosettle
import PsobIndexer.Independent
/-!
# What `psob-explain` reports (`src/bin/psob-explain.rs`)

The tool opens the file of an indexer and re-checks the top sibling group: every
sibling must fold to one chain root, and the coinbase must commit that root. On
a file that the ingest loops wrote, it reports yes to both, unless strings that
were hashed collide or a coinbase is 64 bytes long.
-/
open Lib

namespace PsobIndexer

open Database

/-- The chain root must come right after the first magic, reversed. -/
def rootCommittedInCoinbase (coinbase_tx : Bytes) (chain_root : Hash32) : Bool :=
  match findSubslice coinbase_tx AUXPOW_MAGIC with
  | none => false
  | some magic_at =>
    match getRange coinbase_tx (magic_at + 4) (magic_at + 4 + 32) with
    | none => false
    | some tail => (ByteArr.ofSlice 32 tail 0).reverse = chain_root

inductive Explained where
  /-- `(none yet — ingest more blocks first)` -/
  | noGroups
  /-- Whether the siblings fold to one root, and whether the coinbase commits it. -/
  | checked (all_same committed : Bool)
  /-- An `expect`, an `unwrap` or the index of the first root fails. -/
  | panics
  deriving DecidableEq

section Sha
variable (sha256d : Bytes → Hash32)

def explainRoots : List StoredBlock → Option (List (UInt32 × UInt64 × Hash32))
  | [] => some []
  | b :: siblings => do
    let aux ← b.header.aux
    let root := merkleFoldBranch sha256d (sha256d b.header.raw) aux.chain_merkle_branch aux.chain_index
    let roots ← explainRoots siblings
    return (b.chain_id, b.height, root) :: roots

def explainSiblings (siblings : List StoredBlock) : Explained :=
  match explainRoots sha256d siblings, siblings.head?.bind (·.header.aux) with
  | some ((c, h, first) :: roots), some aux =>
    .checked (((c, h, first) :: roots).all (fun r => r.2.2 = first)) (rootCommittedInCoinbase aux.coinbase_tx first)
  | _, _ => .panics

def psobExplain (iter : List (Hash32 × StoredParent) → List (Hash32 × StoredParent)) (r : Redb) (min_legs : Nat) :
    Except DbError Explained := do
  let db ← openDb sha256d r
  match (db.sharedMainnetParents iter min_legs (Page.new (some 10) (some 0)) none).1.head? with
  | none => return .noGroups
  | some top => return explainSiblings sha256d (db.siblingsForParent top.parent_hash_le)

variable {sha256d}

/-! ## One root, committed -/

/-- An accepted witness commits its own root, as the tool checks it. -/
theorem rootCommitted_of_commitment {h : Hash32} {aux : AuxPow} {c : UInt32}
    (hv : verifyAuxpowCommitment sha256d h aux c = true) :
    rootCommittedInCoinbase aux.coinbase_tx
      (merkleFoldBranch sha256d h aux.chain_merkle_branch aux.chain_index) = true := by
  obtain ⟨-, -, tail, ⟨magic_at, hfind, -, hrange⟩, hroot, -⟩ := (verifyAuxpowCommitment_iff sha256d _ _ _).1 hv
  obtain ⟨-, hlen, rfl⟩ := getRange_eq_some.1 hrange
  have hmagic : AUXPOW_MAGIC.length = 4 := rfl
  rw [hmagic] at hlen hroot
  have htail : getRange aux.coinbase_tx (magic_at + 4) (magic_at + 4 + 32) =
      some ((aux.coinbase_tx.drop (magic_at + 4)).take 32) :=
    getRange_eq_some.2 ⟨by omega, by omega, by rw [Nat.add_sub_cancel_left]⟩
  have htake : (aux.coinbase_tx.drop (magic_at + 4)).take 32 =
      (merkleFoldBranch sha256d h aux.chain_merkle_branch aux.chain_index).reverse.val := by
    rw [← hroot, Nat.add_sub_cancel_left, List.take_take]
    rfl
  unfold rootCommittedInCoinbase
  simp only [hfind, htail, htake, ByteArr.ofSlice_self, ByteArr.reverse_reverse, decide_true]

theorem explainRoots_of_aux {siblings : List StoredBlock} (h : ∀ b ∈ siblings, ∃ aux, b.header.aux = some aux) :
    ∃ roots, explainRoots sha256d siblings = some roots ∧ ∀ r ∈ roots, ∃ b ∈ siblings, ∃ aux,
      b.header.aux = some aux ∧
        r.2.2 = merkleFoldBranch sha256d (sha256d b.header.raw) aux.chain_merkle_branch aux.chain_index := by
  induction siblings with
  | nil => exact ⟨[], rfl, fun _ hr => by simp at hr⟩
  | cons b siblings ih =>
    obtain ⟨⟨aux, haux⟩, hrest⟩ := List.forall_mem_cons.1 h
    obtain ⟨roots, hroots, hmem⟩ := ih hrest
    refine ⟨_ :: roots, by simp only [explainRoots, haux, hroots, Option.bind_eq_bind, Option.bind_some]; rfl, ?_⟩
    intro r hr
    rcases List.mem_cons.1 hr with rfl | hr
    · exact ⟨b, List.mem_cons_self, aux, haux, rfl⟩
    · obtain ⟨b', hb', hroot⟩ := hmem r hr
      exact ⟨b', List.mem_cons_of_mem _ hb', hroot⟩

/-- The block has a witness under the parent `p`, and the guest accepts it. -/
structure AcceptedUnder (sha256d : Bytes → Hash32) (p : Hash32) (b : StoredBlock) (aux : AuxPow) : Prop where
  witness : b.header.aux = some aux
  parent : sha256d aux.parent_header = p
  hash : b.hash_le = sha256d b.header.raw
  commits : verifyAuxpowCommitment sha256d b.hash_le aux b.chain_id = true

/-- Why two siblings could have two roots. -/
def Excused (sha256d : Bytes → Hash32) (b₁ b₂ : StoredBlock) (aux₁ aux₂ : AuxPow) : Prop :=
  b₁.header.aux = some aux₁ ∧ b₂.header.aux = some aux₂ ∧
    sha256d aux₁.parent_header = sha256d aux₂.parent_header ∧
    (Collision sha256d (aux₁.parent_header :: aux₂.parent_header ::
        (hashedBy sha256d b₁.hash_le aux₁ ++ hashedBy sha256d b₂.hash_le aux₂)) ∨
      aux₁.coinbase_tx.length = 64 ∨ aux₂.coinbase_tx.length = 64)

theorem AcceptedUnder.one_root {p : Hash32} {b₁ b₂ : StoredBlock} {aux₁ aux₂ : AuxPow}
    (h₁ : AcceptedUnder sha256d p b₁ aux₁) (h₂ : AcceptedUnder sha256d p b₂ aux₂)
    (hexc : ¬ Excused sha256d b₁ b₂ aux₁ aux₂) :
    merkleFoldBranch sha256d (sha256d b₁.header.raw) aux₁.chain_merkle_branch aux₁.chain_index =
      merkleFoldBranch sha256d (sha256d b₂.header.raw) aux₂.chain_merkle_branch aux₂.chain_index := by
  have hp := h₁.parent.trans h₂.parent.symm
  have hexcused := fun h => hexc ⟨h₁.witness, h₂.witness, hp, h⟩
  rw [← h₁.hash, ← h₂.hash]
  exact (commitments_agree hp h₁.commits h₂.commits (fun hc => hexcused (.inl hc))
    (fun h64 => hexcused (.inr (.inl h64))) (fun h64 => hexcused (.inr (.inr h64)))).2.1

/-- A group of accepted siblings is confirmed, unless two of them are excused. -/
theorem explainSiblings_confirms {p : Hash32} {siblings : List StoredBlock} (hne : siblings ≠ [])
    (hsib : ∀ b ∈ siblings, ∃ aux, AcceptedUnder sha256d p b aux) :
    explainSiblings sha256d siblings = .checked true true ∨
      ∃ b₁ ∈ siblings, ∃ b₂ ∈ siblings, ∃ aux₁ aux₂, Excused sha256d b₁ b₂ aux₁ aux₂ := by
  refine or_iff_not_imp_right.2 fun hexc => ?_
  obtain ⟨b, siblings, rfl⟩ := List.exists_cons_of_ne_nil hne
  obtain ⟨aux₀, h₀⟩ := hsib b List.mem_cons_self
  obtain ⟨roots, hroots, hmem⟩ := @explainRoots_of_aux sha256d siblings fun b' hb' => by
    obtain ⟨aux, h⟩ := hsib b' (List.mem_cons_of_mem _ hb')
    exact ⟨aux, h.witness⟩
  have hall : roots.all (fun r =>
      r.2.2 = merkleFoldBranch sha256d (sha256d b.header.raw) aux₀.chain_merkle_branch aux₀.chain_index) = true := by
    rw [List.all_eq_true]
    intro r hr
    obtain ⟨b', hb', aux, ha, hfold⟩ := hmem r hr
    obtain ⟨aux', h'⟩ := hsib b' (List.mem_cons_of_mem _ hb')
    obtain rfl := Option.some.inj (ha.symm.trans h'.witness)
    rw [decide_eq_true_eq, hfold]
    exact h'.one_root h₀ fun h => hexc ⟨b', List.mem_cons_of_mem _ hb', b, List.mem_cons_self, aux, aux₀, h⟩
  have hcommitted := rootCommitted_of_commitment h₀.commits
  rw [h₀.hash] at hcommitted
  simp only [explainSiblings, explainRoots, h₀.witness, hroots, Option.bind_eq_bind, Option.bind_some, List.head?_cons,
    Option.pure_def, List.all_cons, decide_true, hall, hcommitted, Bool.and_self]

/-! ## The file -/

/-- The siblings of a listed group of a freshly opened file are the stored
blocks of its parent, and there is at least one. -/
theorem siblings_of_group {db : Database} (hkeyed : ∀ k b, db.redb.aux_blocks.get? k = some b →
      b.chain_id = k.chain_id ∧ b.height = k.height)
    {iter : List (Hash32 × StoredParent) → List (Hash32 × StoredParent)} {min_legs : Nat} {chain_filter : Option UInt32}
    {g : SharedParent} (hg : g ∈ (warmUpCache sha256d db.redb).allSharedParents iter min_legs chain_filter) :
    (warmUpCache sha256d db.redb).siblingsForParent g.parent_hash_le = storedUnder sha256d db g.parent_hash_le ∧
      storedUnder sha256d db g.parent_hash_le ≠ [] := by
  unfold allSharedParents at hg
  rw [List.mem_mergeSort, List.mem_filterMap] at hg
  obtain ⟨⟨p, sp⟩, -, hg⟩ := hg
  unfold sharedParent at hg
  obtain ⟨hh, -, hg⟩ := Option.bind_eq_some_iff.1 hg
  obtain ⟨l, hl, hg⟩ := Option.bind_eq_some_iff.1 hg
  simp only at hl hg
  split_ifs at hg
  cases hg
  have hwarm := @get?_warm sha256d db hkeyed p
  rw [hl] at hwarm
  split_ifs at hwarm with hnil
  unfold siblingsForParent
  rw [hl]
  exact ⟨Option.some.inj hwarm, hnil⟩

theorem openDb_current {db : Database} (h : db.redb.metadata.get? META_SCHEMA_VERSION = some (toString SCHEMA_VERSION)) :
    openDb sha256d db.redb = .ok (warmUpCache sha256d db.redb) := by
  have hparse : parseDec (2 ^ 32) (toString SCHEMA_VERSION) = some SCHEMA_VERSION := parseDec_repr (by decide)
  unfold openDb Redb.gate
  rw [h, Option.bind_some, hparse]
  rfl

/-- On a current file the tool finds no group, or checks the stored blocks of
some parent. -/
theorem psobExplain_current {db : Database}
    (hschema : db.redb.metadata.get? META_SCHEMA_VERSION = some (toString SCHEMA_VERSION))
    (hkeyed : ∀ k b, db.redb.aux_blocks.get? k = some b → b.chain_id = k.chain_id ∧ b.height = k.height)
    (iter : List (Hash32 × StoredParent) → List (Hash32 × StoredParent)) (min_legs : Nat) :
    psobExplain sha256d iter db.redb min_legs = .ok .noGroups ∨
      ∃ p, psobExplain sha256d iter db.redb min_legs = .ok (explainSiblings sha256d (storedUnder sha256d db p)) ∧
        storedUnder sha256d db p ≠ [] := by
  unfold psobExplain
  rw [openDb_current hschema]
  simp only [bind, Except.bind]
  split
  · exact .inl rfl
  · rename_i top htop
    obtain ⟨hsiblings, hne⟩ := @siblings_of_group sha256d db hkeyed iter min_legs none top
      (List.mem_of_mem_drop (List.mem_of_mem_take (List.mem_of_mem_head? htop)))
    rw [hsiblings]
    exact .inr ⟨_, rfl, hne⟩

variable {w : Nat}

/-- No tick touches the schema row, and a restart finds it current. -/
theorem schema_run {config : Config} {db₀ : Database} (hopen : openDb sha256d Redb.empty = .ok db₀)
    (ops : List IngestOp) :
    (runIngest w sha256d config db₀ ops).redb.metadata.get? META_SCHEMA_VERSION = some (toString SCHEMA_VERSION) := by
  have halong : Along (IngestOp.run w sha256d config) (fun _ _ => True) db₀ ops := along_of_forall fun _ _ => trivial
  refine halong.invariant (I := fun db => db.redb.metadata.get? META_SCHEMA_VERSION = some (toString SCHEMA_VERSION)) ?_ ?_
  · intro db op h _
    cases op with
    | tick chain t =>
      -- as any other chain sees it
      obtain ⟨c, hc⟩ : ∃ c, c ≠ chain.chain_id := ⟨chain.chain_id + 1, by simp⟩
      have hview : SameView c db (ingestChain w sha256d config chain t db).2 := ingestChain_view config hc t db
      exact (hview.metadata _ (.inl rfl)).trans h
    | restart =>
      simp only [IngestOp.run, openDb_current h]
      exact h
  · cases hopen
    exact KMap.get?_insert_self _ _ _

theorem RowsVerified.accepted {config : Config} {db : Database} (hrows : RowsVerified w sha256d config db) {k : BlockKey}
    {b : StoredBlock} (hb : db.redb.aux_blocks.get? k = some b) {p : Hash32} (hp : b.parentHash sha256d = some p) :
    ∃ aux, AcceptedUnder sha256d p b aux := by
  obtain ⟨-, chain, -, hver⟩ := hrows k b (.inr hb)
  obtain ⟨hhash, -, -, -, -, -, aux, haux, hcommit, -⟩ := hver.headerValid
  rw [StoredBlock.parentHash, haux, Option.map_some, Option.some.injEq] at hp
  rw [← hhash, ← hver.1] at hcommit
  exact ⟨aux, haux, hp, hhash, hcommit⟩

variable (w sha256d)

/-- A file that ticks and restarts wrote opens, the tool does not panic on it, and
the group it checks has one chain root, committed in the coinbase. Otherwise two
of the strings that two of the stored siblings hash collide, or the coinbase of
one is 64 bytes long. -/
theorem explain_confirms (config : Config) (db₀ : Database) (ops : List IngestOp)
    (iter : List (Hash32 × StoredParent) → List (Hash32 × StoredParent)) (min_legs : Nat)
    (hopen : openDb sha256d Redb.empty = .ok db₀) (hops : ∀ op ∈ ops, op.Configured config) :
    ∃ v, psobExplain sha256d iter (runIngest w sha256d config db₀ ops).redb min_legs = .ok v ∧
    (v = .noGroups ∨ v = .checked true true ∨
      ∃ b₁ b₂ aux₁ aux₂, (∃ k, (runIngest w sha256d config db₀ ops).redb.aux_blocks.get? k = some b₁) ∧
        (∃ k, (runIngest w sha256d config db₀ ops).redb.aux_blocks.get? k = some b₂) ∧
        b₁.header.aux = some aux₁ ∧ b₂.header.aux = some aux₂ ∧
        sha256d aux₁.parent_header = sha256d aux₂.parent_header ∧
        (Collision sha256d (aux₁.parent_header :: aux₂.parent_header ::
            (hashedBy sha256d b₁.hash_le aux₁ ++ hashedBy sha256d b₂.hash_le aux₂)) ∨
          aux₁.coinbase_tx.length = 64 ∨ aux₂.coinbase_tx.length = 64)) := by
  have hrows : RowsVerified w sha256d config (runIngest w sha256d config db₀ ops) := rowsVerified_run hopen hops
  have hschema := @schema_run sha256d w config db₀ hopen ops
  generalize runIngest w sha256d config db₀ ops = db at hrows hschema ⊢
  have hkeyed : ∀ k b, db.redb.aux_blocks.get? k = some b → b.chain_id = k.chain_id ∧ b.height = k.height := by
    intro k b hb
    rw [(hrows k b (.inr hb)).1]
    exact ⟨rfl, rfl⟩
  rcases psobExplain_current hschema hkeyed iter min_legs with hnone | ⟨p, hrun, hne⟩
  · exact ⟨_, hnone, .inl rfl⟩
  · refine ⟨_, hrun, .inr ?_⟩
    have hsib : ∀ b ∈ storedUnder sha256d db p, ∃ aux, AcceptedUnder sha256d p b aux := by
      intro b hb
      obtain ⟨⟨k, hk⟩, hp⟩ := (mem_storedUnder sha256d).1 hb
      exact hrows.accepted hk hp
    rcases explainSiblings_confirms hne hsib with hok | ⟨b₁, hb₁, b₂, hb₂, aux₁, aux₂, hexc⟩
    · exact .inl hok
    · exact .inr ⟨b₁, b₂, aux₁, aux₂, ((mem_storedUnder sha256d).1 hb₁).1, ((mem_storedUnder sha256d).1 hb₂).1, hexc⟩

end Sha

theorem legsStore_explained : (psobExplain legsSha id legsStore.redb 2).toOption = some (.checked true true) := by
  decide +kernel

theorem explain_confirms_legs :
    (psobExplain legsSha id legsStore.redb 2).toOption = some (.checked true true) ∧
      ∃ v, psobExplain legsSha id legsStore.redb 2 = .ok v ∧ (v = .noGroups ∨ v = .checked true true ∨
        ∃ b₁ b₂ : StoredBlock, ∃ aux₁ aux₂, b₁.header.aux = some aux₁ ∧ b₂.header.aux = some aux₂ ∧
          legsSha aux₁.parent_header = legsSha aux₂.parent_header) := by
  obtain ⟨v, hv, hcases⟩ := explain_confirms legsSha 64 legsConfig freshDb legsOps id 2 rfl legsOps_configured
  refine ⟨legsStore_explained, v, hv, ?_⟩
  rcases hcases with hv | hv | ⟨b₁, b₂, aux₁, aux₂, -, -, ha₁, ha₂, hp, -⟩
  · exact .inl hv
  · exact .inr (.inl hv)
  · exact .inr (.inr ⟨b₁, b₂, aux₁, aux₂, ha₁, ha₂, hp⟩)

end PsobIndexer
