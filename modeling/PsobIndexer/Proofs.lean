import PsobIndexer.Blocks
import PsobIndexer.ProofInput
/-!
# Serving a proof witness (`GET /api/v1/proof/{chain_id}/{height}`)

`proofHandler` serves the witness of a stored block field by field, as hex. A
client that decodes the fields has the stored witness again, and the guest's
commitment check accepts it for the served block hash.
-/
open Lib

namespace PsobIndexer

open Database

/-! ## Handler and client -/

/-- The hash that a display string spells; the errors are `invalid hex: {e}` and
`expected a 32-byte hash, got {n}`. -/
def leOfDisplay (hex_str : String) : Except Hex32Error Hash32 := (hex32 hex_str).map ByteArr.reverse

section Sha
variable (w : Nat) (sha256d : Bytes → Hash32)

/-- `GET /api/v1/proof/{chain_id}/{height}`. -/
def proofHandler (db : Database) (chain_id : UInt32) (height : UInt64) : Except ApiError ProofResponse × Database :=
  match db.blockAt chain_id height with
  | (none, db) => (.error (.notFound ("block " ++ toString chain_id ++ "@" ++ toString height ++ " is not indexed")), db)
  | (some block, db) =>
    match proofFromStored sha256d db block with
    | (none, db) => (.error (.internal (.noAuxpow block.chain_id block.height)), db)
    | (some response, db) => (.ok response, db)

/-- The branch a list of hex strings spells, in the order of its bytes. -/
def unhexBranch : List String → Option (List Hash32)
  | [] => some []
  | hex :: branch => do
    let sibling ← (hex32 hex).toOption
    let siblings ← unhexBranch branch
    return sibling :: siblings

/-- The witness a client reads from the fields of the response. -/
def ProofResponse.witness (r : ProofResponse) : Option AuxPow := do
  let coinbase_tx ← hexDecode r.coinbase_tx
  let parent_merkle_branch ← unhexBranch r.parent_merkle_branch
  let chain_merkle_branch ← unhexBranch r.chain_merkle_branch
  let parent_header ← hexDecode r.parent_header
  return { coinbase_tx, parent_merkle_branch, parent_index := r.parent_index, chain_merkle_branch,
           chain_index := r.chain_index, parent_header }

/-! ## Decoding what was served -/

theorem hex32_hexEncode (h : Hash32) : hex32 (hexEncode h.val) = .ok h := by
  unfold hex32
  simp only [hexDecode_hexEncode, h.property, dite_true]

theorem leOfDisplay_hashDisplay (h : Hash32) : leOfDisplay (hashDisplay h) = .ok h := by
  unfold leOfDisplay hashDisplay
  rw [hex32_hexEncode]
  exact congrArg Except.ok (ByteArr.reverse_reverse h)

theorem unhexBranch_map (branch : List Hash32) : unhexBranch (branch.map (fun h => hexEncode h.val)) = some branch := by
  induction branch with
  | nil => rfl
  | cons h branch ih =>
    rw [List.map_cons, unhexBranch, hex32_hexEncode, ih]
    rfl

variable {sha256d}

theorem witness_proofFromStored {db : Database} {b : StoredBlock} {aux : AuxPow} (haux : b.header.aux = some aux) :
    ∃ r, (proofFromStored sha256d db b).1 = some r ∧ r.witness = some aux ∧ r.auxpow_hex = b.wire_hex ∧
      r.block_hash = hashDisplay b.hash_le ∧ r.parent_hash = hashDisplay (sha256d aux.parent_header) ∧
      r.coinbase_txid = hashDisplay (sha256d aux.coinbase_tx) ∧ r.parent_chain_id = aux.parentChainId := by
  unfold proofFromStored
  simp only [haux]
  refine ⟨_, rfl, ?_, rfl, rfl, rfl, rfl, rfl⟩
  unfold ProofResponse.witness
  simp only [hexDecode_hexEncode, unhexBranch_map]
  rfl

/-- What a lookup finds is held. -/
theorem holds_of_blockAt {db : Database} {c : UInt32} {h : UInt64} {b : StoredBlock} (hb : (db.blockAt c h).1 = some b) :
    db.Holds ⟨c, h⟩ b := by
  rw [blockAt_fst] at hb
  cases hcache : db.cache_blocks.get? ⟨c, h⟩ with
  | some b' =>
    rw [hcache, Option.some_or] at hb
    cases hb
    exact .inl hcache
  | none =>
    rw [hcache, Option.none_or] at hb
    exact .inr hb

variable {w}

/-- A block found under a configured chain's id was verified for that chain. -/
theorem RowsVerified.blockAt {config : Config} {db : Database} (h : RowsVerified w sha256d config db) {chain : AuxChain}
    (hchain : chain ∈ config.chains) {height : UInt64} {b : StoredBlock}
    (hb : (db.blockAt chain.chain_id height).1 = some b) : b.height = height ∧ Verified w sha256d chain b := by
  obtain ⟨hk, chain', hchain', hver⟩ := h _ b (holds_of_blockAt hb)
  have hid : chain'.chain_id = chain.chain_id := hver.1.symm.trans (congrArg BlockKey.chain_id hk).symm
  rw [Config.eq_of_chain_id hchain' hchain hid] at hver
  exact ⟨(congrArg BlockKey.height hk).symm, hver⟩

theorem rowsVerified_run {config : Config} {db₀ : Database} {ops : List IngestOp}
    (hopen : openDb sha256d Redb.empty = .ok db₀) (hops : ∀ op ∈ ops, op.Configured config) :
    RowsVerified w sha256d config (runIngest w sha256d config db₀ ops) := by
  have halong : Along (IngestOp.run w sha256d config) (fun _ op => op.Configured config) db₀ ops := along_of_forall hops
  exact halong.invariant (fun _ _ hi hop => hi.step hop) (rowsVerified_fresh hopen)

variable (w sha256d)

/-- For every block that ticks and restarts leave under a configured chain, the
proof endpoint answers; its fields decode to the witness that its payload parses
to, and the guest's commitment check accepts it for the hash shown. -/
theorem served_proof_verifies (config : Config) (db₀ : Database) (ops : List IngestOp) (chain : AuxChain) (h : UInt64)
    (block : StoredBlock) (hopen : openDb sha256d Redb.empty = .ok db₀) (hops : ∀ op ∈ ops, op.Configured config)
    (hchain : chain ∈ config.chains)
    (hblock : ((runIngest w sha256d config db₀ ops).blockAt chain.chain_id h).1 = some block) :
    ∃ r aux wire base,
      (proofHandler sha256d (runIngest w sha256d config db₀ ops) chain.chain_id h).1 = .ok r ∧
      r.witness = some aux ∧ leOfDisplay r.block_hash = .ok block.hash_le ∧
      verifyAuxpowCommitment sha256d block.hash_le aux chain.chain_id = true ∧
      leOfDisplay r.parent_hash = .ok (sha256d aux.parent_header) ∧
      leOfDisplay r.coinbase_txid = .ok (sha256d aux.coinbase_tx) ∧
      hexDecode r.auxpow_hex = some wire ∧ parseAuxpow w wire = .ok (base, aux) ∧ sha256d base.val = block.hash_le := by
  obtain ⟨-, hver⟩ := (rowsVerified_run (w := w) hopen hops).blockAt hchain hblock
  obtain ⟨-, -, -, -, -, -, aux', haux', hcommit, -⟩ := hver.headerValid
  obtain ⟨-, wire, base, aux, hwire, hparse, hheader, hhash, -⟩ := hver
  have haux : block.header.aux = some aux := by rw [hheader]
  obtain ⟨db', hat⟩ : ∃ db', (runIngest w sha256d config db₀ ops).blockAt chain.chain_id h = (some block, db') :=
    ⟨_, Prod.ext hblock rfl⟩
  obtain ⟨r, hr, hwitness, hhex, hid, hparent, htxid, -⟩ := @witness_proofFromStored sha256d db' block aux haux
  refine ⟨r, aux, wire, base, ?_, hwitness, ?_, ?_, ?_, ?_, ?_, hparse, hhash.symm⟩
  · obtain ⟨db'', hproof⟩ : ∃ db'', proofFromStored sha256d db' block = (some r, db'') := ⟨_, Prod.ext hr rfl⟩
    unfold proofHandler
    simp only [hat, hproof]
  · rw [hid, leOfDisplay_hashDisplay]
  · rw [hheader] at haux' hcommit
    cases haux'
    rw [hhash]
    exact hcommit
  · rw [hparent, leOfDisplay_hashDisplay]
  · rw [htxid, leOfDisplay_hashDisplay]
  · rw [hhex, hwire, hexDecode_hexEncode]

end Sha

/-- The proof of the second sample block. -/
theorem served_proof_verifies_sample : ∃ block r aux, (sampleStore.blockAt 63 2).1 = some block ∧
    (proofHandler sampleSha sampleStore 63 2).1 = .ok r ∧ r.witness = some aux ∧
    verifyAuxpowCommitment sampleSha sampleId₂ aux 63 = true := by
  have hblock : (sampleStore.blockAt 63 2).1.map (·.hash_le) = some sampleId₂ := by decide +kernel
  obtain ⟨block, hblock, hid⟩ := Option.map_eq_some_iff.1 hblock
  have hops : ∀ op ∈ sampleOps, op.Configured sampleConfig := by
    intro op hop
    rcases List.mem_cons.1 hop with rfl | hop
    · exact List.mem_cons_self
    · rw [List.mem_singleton.1 hop]
      trivial
  obtain ⟨r, aux, -, -, hr, hwitness, -, hcommit, -⟩ :=
    served_proof_verifies 64 sampleSha sampleConfig freshDb sampleOps sampleChain 2 block rfl hops List.mem_cons_self hblock
  rw [hid] at hcommit
  exact ⟨block, r, aux, hblock, hr, hwitness, hcommit⟩

end PsobIndexer
