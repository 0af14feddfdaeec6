import PsobIndexer.CauxpowExact
import PsobIndexer.OrderBook
import PsobIndexer.Guest
/-!
# Serving and verifying blocks (`src/server.rs`)

`verifyHandler` checks a payload a client sends, `blockFromStored` and
`proofFromStored` serve a stored block with its payload, and
`blockDetailHandler` adds a report on the stored header. A stored payload that
fits `/verify`'s size limit comes back valid with the hashes it was served with.
-/
open Lib

namespace PsobIndexer

open Database

/-! ## Handlers -/

/-- Upper bound on `wire_hex` for `/verify`, in bytes. -/
def MAX_WIRE_HEX_LEN : Nat := 1000000

structure VerifyRequest where
  chain_id : UInt32
  wire_hex : String
  /-- Ignored. -/
  pow_limit_bits : Option UInt32

structure VerifyResponse where
  valid : Bool
  pow_checked : Bool
  chain_id : UInt32
  block_hash : String
  parent_hash : String
  parent_chain_id : Option UInt32
  coinbase_root_hex : String
  n_size : UInt32
  nonce : UInt32
  chain_branch_depth : Nat
  chain_index : UInt32
  verification : VerificationReport
  deriving DecidableEq

/-- Why `/verify` refuses a request; all are bad requests. -/
inductive VerifyError where
  /-- `wire_hex too large: {len} bytes (max 1000000)` -/
  | tooLarge (len : Nat)
  | notHex
  /-- `chain not configured on this indexer; cannot vouch for its pow limit` -/
  | chainNotConfigured
  /-- `cannot parse CAuxPow wire: {e}` -/
  | cannotParse (e : AuxPowParseError)
  deriving DecidableEq

structure BlockResponse where
  chain_id : UInt32
  height : UInt64
  block_hash : String
  parent_hash : String
  ltc_height : Option UInt64
  parent_state : Int
  has_auxpow : Bool
  header_len : Nat
  wire_len : Nat
  raw_auxpow_hex : Option String
  verification : Option VerificationReport

structure ProofResponse where
  chain_id : UInt32
  height : UInt64
  block_hash : String
  parent_hash : String
  parent_chain_id : Option UInt32
  parent_merkle_branch : List String
  parent_index : UInt32
  chain_merkle_branch : List String
  chain_index : UInt32
  coinbase_tx : String
  parent_header : String
  auxpow_hex : String
  ltc_height : Option UInt64
  parent_state : Int
  coinbase_txid : String

def powLimitFor (config : Config) (chain_id : UInt32) : Option UInt32 :=
  (config.chains.find? (fun c => c.chain_id = chain_id)).map (·.pow_limit_bits)

section Sha
variable (w : Nat) (sha256d : Bytes → Hash32)

def AuxBlock.blockHashDisplay (b : AuxBlock) : String := hashDisplay (sha256d b.base.val)

def AuxBlock.parentHashDisplay (b : AuxBlock) : String := hashDisplay (sha256d b.aux.parent_header)

/-- Parse a payload and report on it. -/
def verifyWireBlock (wire : Bytes) (chain_id pow_limit_bits : UInt32) :
    Except AuxPowParseError (AuxBlock × VerificationReport) := do
  let aux_block ← AuxBlock.fromWire w wire
  return (aux_block, verifyAuxHeader sha256d aux_block.base.val aux_block.aux chain_id pow_limit_bits)

/-- `POST /api/v1/verify`. -/
def verifyHandler (config : Config) (req : VerifyRequest) : Except VerifyError VerifyResponse :=
  if req.wire_hex.utf8ByteSize > MAX_WIRE_HEX_LEN then .error (.tooLarge req.wire_hex.utf8ByteSize)
  else match hexDecode req.wire_hex with
    | none => .error .notHex
    | some wire =>
      match powLimitFor config req.chain_id with
      | none => .error .chainNotConfigured
      | some pow_limit =>
        match verifyWireBlock w sha256d wire req.chain_id pow_limit with
        | .error e => .error (.cannotParse e)
        | .ok (aux_block, report) => .ok
          { valid := report.valid, pow_checked := false, chain_id := req.chain_id
            block_hash := aux_block.blockHashDisplay sha256d
            parent_hash := aux_block.parentHashDisplay sha256d
            parent_chain_id := aux_block.aux.parentChainId
            coinbase_root_hex := report.coinbase_root_hex
            n_size := report.n_size, nonce := report.nonce
            chain_branch_depth := report.chain_branch_depth
            chain_index := report.chain_index
            verification := report }

/-- A stored block as it is served. The lookup of its parent may cache it. -/
def blockFromStored (db : Database) (block : StoredBlock) : BlockResponse × Database :=
  let parent_bytes := block.parentHash sha256d
  let (parent_info, db) : Option StoredParent × Database := match parent_bytes with
    | some pb => db.getParent pb
    | none => (none, db)
  ({ chain_id := block.chain_id, height := block.height
     block_hash := hashDisplay block.hash_le
     parent_hash := (parent_bytes.map hashDisplay).getD ""
     ltc_height := parent_info.bind (·.ltc_height)
     parent_state := (parent_info.map (·.parent_state)).getD 0
     has_auxpow := block.header.aux.isSome
     header_len := block.header.raw.length
     wire_len := block.wire_hex.utf8ByteSize / 2
     raw_auxpow_hex := some block.wire_hex
     verification := none }, db)

/-- The proof witness of a stored block; `none` if it has no AuxPoW. -/
def proofFromStored (db : Database) (block : StoredBlock) : Option ProofResponse × Database :=
  match block.header.aux with
  | none => (none, db)
  | some aux =>
    let parent_bytes := sha256d aux.parent_header
    let (parent_info, db) := db.getParent parent_bytes
    (some
      { chain_id := block.chain_id, height := block.height
        block_hash := hashDisplay block.hash_le
        parent_hash := hashDisplay parent_bytes
        parent_chain_id := aux.parentChainId
        parent_merkle_branch := aux.parent_merkle_branch.map (fun h => hexEncode h.val)
        parent_index := aux.parent_index
        chain_merkle_branch := aux.chain_merkle_branch.map (fun h => hexEncode h.val)
        chain_index := aux.chain_index
        coinbase_tx := hexEncode aux.coinbase_tx
        parent_header := hexEncode aux.parent_header
        auxpow_hex := block.wire_hex
        ltc_height := parent_info.bind (·.ltc_height)
        parent_state := (parent_info.map (·.parent_state)).getD 0
        coinbase_txid := hashDisplay (sha256d aux.coinbase_tx) }, db)

/-- `GET /api/v1/block/{chain_id}/{height}`: the block, with a report when its
chain is configured. -/
def blockDetailHandler (config : Config) (db : Database) (chain_id : UInt32) (height : UInt64) :
    Except ApiError BlockResponse × Database :=
  match db.blockAt chain_id height with
  | (none, db) => (.error (.notFound ("block " ++ toString chain_id ++ "@" ++ toString height ++ " is not indexed")), db)
  | (some block, db) =>
    let (response, db) := blockFromStored sha256d db block
    match block.header.aux, powLimitFor config chain_id with
    | some aux, some pl =>
      (.ok { response with verification := some (verifyAuxHeader sha256d block.header.raw aux chain_id pl) }, db)
    | _, _ => (.ok response, db)

/-! ## Stored payloads verify -/

variable {w sha256d}

theorem powLimitFor_mem {config : Config} {chain : AuxChain} (h : chain ∈ config.chains) :
    powLimitFor config chain.chain_id = some chain.pow_limit_bits := by
  unfold powLimitFor
  cases hfind : config.chains.find? (fun c => c.chain_id = chain.chain_id) with
  | none =>
    have := List.find?_eq_none.1 hfind chain h
    simp at this
  | some c =>
    have hid : c.chain_id = chain.chain_id := by simpa using List.find?_some hfind
    rw [Config.eq_of_chain_id (List.mem_of_find?_eq_some hfind) h hid, Option.map_some]

/-- The report on a verified block is valid. -/
theorem Verified.report {chain : AuxChain} {b : StoredBlock} (h : Verified w sha256d chain b) :
    ∃ aux, b.header.aux = some aux ∧
      (verifyAuxHeader sha256d b.header.raw aux chain.chain_id chain.pow_limit_bits).valid = true := by
  obtain ⟨-, wire, base, aux, -, -, hheader, -, hlight⟩ := h
  refine ⟨aux, by rw [hheader], ?_⟩
  rw [hheader, verifyAuxHeader_valid_iff]
  exact ((lightVerify_iff sha256d _ _ _ _ _).1 hlight).2

theorem Verified.verifyHandler {config : Config} {chain : AuxChain} (hchain : chain ∈ config.chains) {b : StoredBlock}
    (h : Verified w sha256d chain b) (hsize : b.wire_hex.utf8ByteSize ≤ MAX_WIRE_HEX_LEN) (pow : Option UInt32)
    (db : Database) :
    ∃ r, verifyHandler w sha256d config ⟨chain.chain_id, b.wire_hex, pow⟩ = .ok r ∧ r.valid = true ∧
      r.block_hash = (blockFromStored sha256d db b).1.block_hash ∧
      r.parent_hash = (blockFromStored sha256d db b).1.parent_hash := by
  obtain ⟨-, wire, base, aux, hwire, hparse, hheader, hhash, hlight⟩ := h
  have hfrom : AuxBlock.fromWire w wire = .ok ⟨wire, base, aux⟩ := by
    unfold AuxBlock.fromWire
    rw [hparse]
    rfl
  have hreport : verifyWireBlock w sha256d wire chain.chain_id chain.pow_limit_bits =
      .ok (⟨wire, base, aux⟩, verifyAuxHeader sha256d base.val aux chain.chain_id chain.pow_limit_bits) := by
    unfold verifyWireBlock
    rw [hfrom]
    rfl
  have hdecode : hexDecode b.wire_hex = some wire := by
    rw [hwire, hexDecode_hexEncode]
  unfold PsobIndexer.verifyHandler
  simp only [not_lt.2 hsize, if_false, hdecode, powLimitFor_mem hchain, hreport]
  refine ⟨_, rfl, ?_, ?_, ?_⟩
  · exact (verifyAuxHeader_valid_iff sha256d _ _ _ _).2 ((lightVerify_iff sha256d _ _ _ _ _).1 hlight).2
  · simp only [blockFromStored, hhash]
    rfl
  · simp only [blockFromStored, StoredBlock.parentHash, hheader]
    rfl

variable (w sha256d)

/-- Every stored block of a configured chain is served with its payload and a
valid report. `/verify` finds the payload valid, with the served hashes, if it
is at most `MAX_WIRE_HEX_LEN` bytes, and refuses it for its size otherwise. -/
theorem served_blocks_verify (config : Config) (db₀ : Database) (ops : List IngestOp) (chain : AuxChain) (h : UInt64)
    (block : StoredBlock) (pow : Option UInt32) (hopen : openDb sha256d Redb.empty = .ok db₀)
    (hops : ∀ op ∈ ops, op.Configured config) (hchain : chain ∈ config.chains)
    (hblock : ((runIngest w sha256d config db₀ ops).blockAt chain.chain_id h).1 = some block) :
    let db := runIngest w sha256d config db₀ ops
    let served := (blockFromStored sha256d db block).1
    served.raw_auxpow_hex = some block.wire_hex ∧
    (∃ proof, (proofFromStored sha256d db block).1 = some proof ∧ proof.auxpow_hex = block.wire_hex) ∧
    (block.wire_hex.utf8ByteSize ≤ MAX_WIRE_HEX_LEN →
      ∃ r, verifyHandler w sha256d config ⟨chain.chain_id, block.wire_hex, pow⟩ = .ok r ∧ r.valid = true ∧
        r.block_hash = served.block_hash ∧ r.parent_hash = served.parent_hash) ∧
    (MAX_WIRE_HEX_LEN < block.wire_hex.utf8ByteSize →
      verifyHandler w sha256d config ⟨chain.chain_id, block.wire_hex, pow⟩ =
        .error (.tooLarge block.wire_hex.utf8ByteSize)) ∧
    ∃ response report, (blockDetailHandler sha256d config db chain.chain_id h).1 = .ok response ∧
      response.verification = some report ∧ report.valid = true := by
  intro db served
  have hrows : RowsVerified w sha256d config db := by
    have halong : Along (IngestOp.run w sha256d config) (fun _ op => op.Configured config) db₀ ops := along_of_forall hops
    exact halong.invariant (fun _ _ hi hop => hi.step hop) (rowsVerified_fresh hopen)
  have hver : Verified w sha256d chain block := by
    have hheld : db.Holds ⟨chain.chain_id, h⟩ block := by
      rw [blockAt_fst] at hblock
      cases hcache : db.cache_blocks.get? ⟨chain.chain_id, h⟩ with
      | some b =>
        rw [hcache] at hblock
        cases hblock
        exact .inl hcache
      | none =>
        rw [hcache, Option.none_or] at hblock
        exact .inr hblock
    obtain ⟨hk, chain', hchain', hver⟩ := hrows _ block hheld
    have hid : chain'.chain_id = chain.chain_id := hver.1.symm.trans (congrArg BlockKey.chain_id hk).symm
    rwa [← Config.eq_of_chain_id hchain' hchain hid]
  obtain ⟨aux, haux, hreport⟩ := hver.report
  refine ⟨rfl, ?_, fun hsize => hver.verifyHandler hchain hsize pow db, fun hsize => ?_, ?_⟩
  · unfold proofFromStored
    simp only [haux]
    exact ⟨_, rfl, rfl⟩
  · unfold verifyHandler
    rw [if_pos hsize]
  · unfold blockDetailHandler
    obtain ⟨db', hat⟩ : ∃ db', db.blockAt chain.chain_id h = (some block, db') := ⟨_, Prod.ext hblock rfl⟩
    simp only [hat, haux, powLimitFor_mem hchain]
    exact ⟨_, _, rfl, rfl, hreport⟩

end Sha

/-! ## A padded payload -/

theorem utf8Len_hexChars (b : Bytes) : String.utf8Len (hexChars b) = 2 * b.length := by
  have hdigit : ∀ n < 16, (hexDigit n).utf8Size = 1 := by decide
  induction b with
  | nil => rfl
  | cons x xs ih =>
    have hx := x.toNat_lt
    rw [hexChars, String.utf8Len_cons, String.utf8Len_cons, hdigit _ (by omega), hdigit _ (by omega), ih, List.length_cons]
    omega

theorem utf8ByteSize_hexEncode (b : Bytes) : (hexEncode b).utf8ByteSize = 2 * b.length := by
  rw [hexEncode, String.utf8ByteSize_ofList, utf8Len_hexChars]

/-- The parser does not look at what follows the witness. -/
theorem parseAuxpow_append {w : Nat} {full tail : Bytes} {base : ByteArr 80} {aux : AuxPow}
    (h : parseAuxpow w full = .ok (base, aux)) (hlen : (full ++ tail).length < 2 ^ w) :
    parseAuxpow w (full ++ tail) = .ok (base, aux) := by
  have hfull : full.length < 2 ^ w := by
    rw [List.length_append] at hlen
    omega
  obtain ⟨a, s, trailing, hwire, rfl, haux⟩ := (parseAuxpow_iff hfull base aux).1 h
  exact (parseAuxpow_iff hlen base aux).2 ⟨a, s, trailing ++ tail, hwire, by rw [List.append_assoc _ trailing], haux⟩

/-- The first sample block's payload with bytes after it. -/
def paddedWire (tail : Bytes) : Bytes := sampleWire (ByteArr.fill 32 0) sampleId₁ sampleTxid₁ ++ tail

theorem length_paddedWire (tail : Bytes) : (paddedWire tail).length = 297 + tail.length := by
  have hhash : ∀ h : Hash32, h.val.length = 32 := fun h => h.property
  simp only [paddedWire, sampleWire, sampleRaw, sampleCoinbase, sampleParent, AUXPOW_MAGIC, List.length_append,
    List.length_replicate, length_leU32, hhash, List.length_cons, List.length_nil]

/-- An endpoint whose only block is served padded. -/
def paddedElectrs (tail : Bytes) : ElectrsClient :=
  ⟨some 1, fun _ => some (hashDisplay sampleId₁), fun _ _ => some (paddedWire tail)⟩

/-- The store after a tick against it. -/
def paddedStore (tail : Bytes) : Database :=
  runIngest 64 sampleSha sampleConfig freshDb [.tick sampleChain (sampleTick (paddedElectrs tail))]

/-- The tick stores the payload as it came. -/
theorem paddedStore_blockAt {tail : Bytes} (hlen : (paddedWire tail).length < 2 ^ 64) :
    ∃ block, ((paddedStore tail).blockAt 63 1).1 = some block ∧ block.wire_hex = hexEncode (paddedWire tail) := by
  obtain ⟨base, hbase⟩ : ∃ base : ByteArr 80, base.val = sampleRaw (ByteArr.fill 32 0) := ⟨⟨_, by decide⟩, rfl⟩
  have hparse : parseAuxpow 64 (sampleWire (ByteArr.fill 32 0) sampleId₁ sampleTxid₁) =
      .ok (base, sampleAux sampleId₁ sampleTxid₁) := by
    have hval : (parseAuxpow 64 (sampleWire (ByteArr.fill 32 0) sampleId₁ sampleTxid₁)).toOption.map
        (fun r => (r.1.val, r.2)) = some (sampleRaw (ByteArr.fill 32 0), sampleAux sampleId₁ sampleTxid₁) := by
      decide +kernel
    cases hr : parseAuxpow 64 (sampleWire (ByteArr.fill 32 0) sampleId₁ sampleTxid₁) with
    | error e =>
      rw [hr] at hval
      cases hval
    | ok r =>
      rw [hr] at hval
      obtain ⟨h₁, h₂⟩ := Prod.mk.inj (Option.some.inj hval)
      rw [← hbase] at h₁
      exact congrArg Except.ok (Prod.ext (Subtype.ext h₁) h₂)
  have hid : sampleSha base.val = sampleId₁ := by
    rw [hbase]
    rfl
  have hlight : lightVerify sampleSha base.val (sampleAux sampleId₁ sampleTxid₁) 63 CHAIN_POW_LIMIT_BITS =
      .ok (sampleSha base.val) := by
    rw [lightVerify_iff, ← verifyAuxHeader_valid_iff, hbase]
    exact ⟨rfl, by decide +kernel⟩
  have hpass : Passes 64 sampleSha sampleChain (1, hashDisplay sampleId₁, paddedWire tail) base
      (sampleAux sampleId₁ sampleTxid₁) := by
    refine ⟨?_, parseAuxpow_append hparse hlen, hlight⟩
    rw [hid]
    simp [eqIgnoreAsciiCase]
  have hopen : Opened freshDb := (@tracked_fresh sampleConfig sampleSha freshDb rfl).opened
  have hfetch : (sampleTick (paddedElectrs tail)).Fetches sampleConfig (freshDb.ledger.cursorFrom sampleConfig sampleChain) 0
      [(1, hashDisplay sampleId₁, paddedWire tail)] := by
    have hwindow : rangeInclusive (saturatingAdd 0 1) (windowEnd sampleConfig 0 1) = [1] := by decide
    have hraw : 80 ≤ (paddedWire tail).length := by
      rw [length_paddedWire]
      omega
    refine ⟨by decide, 1, rfl, by decide, by decide, ?_⟩
    rw [hwindow]
    exact @fetchWindow_ok (paddedElectrs tail) [1] (fun _ => hashDisplay sampleId₁) (fun _ => paddedWire tail)
      (fun _ _ => rfl) (fun _ _ => rfl) (fun _ _ => hraw)
  obtain ⟨hopen', below, hbelow, hledger⟩ := @ingestChain_ledger sampleConfig sampleChain 64 sampleSha
    (sampleTick (paddedElectrs tail)) rfl freshDb hopen 0 _ hfetch
  obtain rfl := hbelow rfl
  have hwalk : walk 64 sampleSha sampleChain (freshDb.ledger.prevHash sampleChain.chain_id 0)
      [(1, hashDisplay sampleId₁, paddedWire tail)] =
        ([acceptedBlock sampleSha sampleChain (1, hashDisplay sampleId₁, paddedWire tail) base
          (sampleAux sampleId₁ sampleTxid₁)], none) := by
    unfold walk
    rw [judge_of_passes hpass]
    rfl
  have hstore : (ingestChain 64 sampleSha sampleConfig sampleChain (sampleTick (paddedElectrs tail)) freshDb).2 =
      paddedStore tail := rfl
  rw [hwalk, hstore] at hledger
  rw [hstore] at hopen'
  generalize paddedStore tail = db at hopen' hledger ⊢
  refine ⟨acceptedBlock sampleSha sampleChain (1, hashDisplay sampleId₁, paddedWire tail) base
    (sampleAux sampleId₁ sampleTxid₁), ?_, rfl⟩
  have hblocks : db.redb.aux_blocks = freshDb.redb.aux_blocks.insert ⟨63, 1⟩ (acceptedBlock sampleSha sampleChain
      (1, hashDisplay sampleId₁, paddedWire tail) base (sampleAux sampleId₁ sampleTxid₁)) :=
    congrArg Ledger.blocks hledger
  rw [blockAt_fst, hopen'.cached, hblocks, KMap.get?_insert_self, Option.some_or]

/-- A stored payload, padded or not, passes `/verify` if it is short enough. -/
theorem served_blocks_verify_sample :
    ∃ block r, ((paddedStore [7]).blockAt 63 1).1 = some block ∧ block.wire_hex = hexEncode (paddedWire [7]) ∧
      verifyHandler 64 sampleSha sampleConfig ⟨63, block.wire_hex, none⟩ = .ok r ∧ r.valid = true := by
  obtain ⟨block, hblock, hwire⟩ := @paddedStore_blockAt [7] (by rw [length_paddedWire]; decide)
  have hops : ∀ op ∈ [IngestOp.tick sampleChain (sampleTick (paddedElectrs [7]))], op.Configured sampleConfig := by
    intro op hop
    rw [List.mem_singleton.1 hop]
    exact List.mem_cons_self
  have hsize : block.wire_hex.utf8ByteSize ≤ MAX_WIRE_HEX_LEN := by
    rw [hwire, utf8ByteSize_hexEncode, length_paddedWire]
    decide
  obtain ⟨-, -, hok, -, -⟩ := served_blocks_verify 64 sampleSha sampleConfig freshDb _ sampleChain 1 block none rfl hops
    List.mem_cons_self hblock
  obtain ⟨r, hr, hvalid, -, -⟩ := hok hsize
  exact ⟨block, r, hblock, hwire, hr, hvalid⟩

/-- Half a million zero bytes after the witness: the block is stored and served,
and `/verify` refuses what was served. -/
theorem verify_refuses_served :
    openDb sampleSha Redb.empty = .ok freshDb ∧ sampleChain ∈ sampleConfig.chains ∧
      ∃ block, ((paddedStore (List.replicate 500000 0)).blockAt 63 1).1 = some block ∧
        ∀ pow, verifyHandler 64 sampleSha sampleConfig ⟨63, block.wire_hex, pow⟩ =
          .error (.tooLarge block.wire_hex.utf8ByteSize) := by
  have hlen : (paddedWire (List.replicate 500000 0)).length = 500297 := by
    rw [length_paddedWire, List.length_replicate]
  obtain ⟨block, hblock, hwire⟩ := @paddedStore_blockAt (List.replicate 500000 0) (by omega)
  refine ⟨rfl, List.mem_cons_self, block, hblock, fun pow => ?_⟩
  have hsize : MAX_WIRE_HEX_LEN < block.wire_hex.utf8ByteSize := by
    rw [hwire, utf8ByteSize_hexEncode, hlen]
    decide
  unfold verifyHandler
  rw [if_pos hsize]

end PsobIndexer
