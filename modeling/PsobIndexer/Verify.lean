import PsobIndexer.Common
/-!
# Light verification (`src/verify.rs`)

The indexer's own copy of the PSob checks: a per-step report
(`verifyAuxHeader`) for the API and a single verdict (`lightVerify`) for the
ingestor. Both are built from `checkHeaderFormat`, `verifyProof1` and
`verifyProof2`.
-/
open Lib

namespace PsobIndexer

/-! ## Text -/

/-- A hash as display (big-endian) hex. -/
def hashDisplay (le : Hash32) : String := hexEncode le.reverse.val

theorem hashDisplay_inj {h h' : Hash32} : hashDisplay h = hashDisplay h' ↔ h = h' := by
  constructor
  · intro he
    have hdecode := congrArg hexDecode he
    unfold hashDisplay at hdecode
    rw [hexDecode_hexEncode, hexDecode_hexEncode] at hdecode
    exact ByteArr.reverse_inj (Subtype.ext (Option.some.inj hdecode))
  · rintro rfl
    rfl

/-- `{x:08x}`. -/
def hex08 (x : UInt32) : String := hexEncode (leBytes 4 x.toNat).reverse

/-- `{x:?}` of an optional number. -/
def debugOption : Option UInt32 → String
  | none => "None"
  | some x => "Some(" ++ toString x ++ ")"

/-! ## Reports -/

structure StepResult where
  ok : Bool
  error : Option String
  deriving DecidableEq

def StepResult.pass : StepResult := ⟨true, none⟩

def StepResult.err (msg : String) : StepResult := ⟨false, some msg⟩

@[simp] theorem StepResult.pass_ok : StepResult.pass.ok = true := rfl

@[simp] theorem StepResult.err_ok (msg : String) : (StepResult.err msg).ok = false := rfl

structure Proof2Outcome where
  proof2 : StepResult
  anti_grind : StepResult
  /-- The committed bytes, in the reversed order the coinbase stores them. -/
  committed : Option Hash32
  n_size : UInt32
  nonce : UInt32
  deriving DecidableEq

structure VerificationReport where
  valid : Bool
  chain_id : UInt32
  block_hash : String
  parent_hash : String
  parent_chain_id : Option UInt32
  header_format : StepResult
  proof1_coinbase_to_parent_root : StepResult
  proof2_aux_to_chain_root : StepResult
  anti_grind_lcg_slot : StepResult
  chain_root_hex : String
  coinbase_root_hex : String
  chain_branch_depth : Nat
  chain_index : UInt32
  n_size : UInt32
  nonce : UInt32
  fatal_error : Option String
  deriving DecidableEq

/-! ## The steps -/

/-- Exactly 80 bytes, the chain id, and a valid compact target within the limit. -/
def checkHeaderFormat (base : Bytes) (chain_id pow_limit_bits : UInt32) : StepResult :=
  if base.length ≠ 80 then .err ("header must be 80 bytes, got " ++ toString base.length)
  else
    let version := leU32At base 0
    let got_chain := version >>> 16
    if got_chain ≠ chain_id then
      .err ("chain id " ++ toString got_chain ++ " != expected " ++ toString chain_id)
    else
      let bits := leU32At base 72
      match expandTarget bits with
      | none => .err ("invalid nBits 0x" ++ hex08 bits ++ " (cannot decode)")
      | some target =>
        match expandTarget pow_limit_bits with
        | none => .err ("invalid powLimitBits 0x" ++ hex08 pow_limit_bits)
        | some pow_limit =>
          if ¬ targetLeq target pow_limit then
            .err ("target easier than powLimit (nBits 0x" ++ hex08 bits ++ ")")
          else .pass

section Sha
variable (sha256d : Bytes → Hash32)

/-- Proof 1: the coinbase is the parent's generation transaction and is included
in the parent block. -/
def verifyProof1 (aux : AuxPow) (chain_id : UInt32) : StepResult :=
  if aux.parent_index ≠ 0 then
    .err ("coinbase must be at parent index 0, got " ++ toString aux.parent_index)
  else if ¬ aux.parentChainId.any (fun pid => pid ≠ chain_id) then
    let pid := (aux.parentChainId.map toString).getD "unparseable"
    .err ("parent chain id " ++ pid ++ " equals aux chain id — self-merge rejected")
  else if aux.parentChainId ≠ some LTC_CHAIN_ID then
    .err ("parent chain id " ++ debugOption aux.parentChainId ++ " is not Litecoin mainnet (8192)")
  else match aux.parentMerkleRoot with
  | none => .err "parent header too short for merkle root"
  | some parent_root =>
    let cb_txid := sha256d aux.coinbase_tx
    let folded := merkleFoldBranch sha256d cb_txid aux.parent_merkle_branch aux.parent_index
    if folded ≠ parent_root then .err "coinbase txid does not fold to the parent block's merkle root"
    else .pass

/-- Proof 2 and anti-grind: the chain root is committed after the only magic,
the size is `2^depth` and the nonce pins the slot. -/
def verifyProof2 (aux_block_hash : Hash32) (aux : AuxPow) (chain_id : UInt32) : Proof2Outcome :=
  let depth := aux.chain_merkle_branch.length
  if depth > 30 then
    { proof2 := .err ("merkle branch depth " ++ toString depth ++ " exceeds maximum (30)")
      anti_grind := .err "skipped: merkle branch depth exceeds maximum (30)"
      committed := none, n_size := 0, nonce := 0 }
  else
    let chain_root := merkleFoldBranch sha256d aux_block_hash aux.chain_merkle_branch aux.chain_index
    let root_reversed := chain_root.reverse
    let cb := aux.coinbase_tx
    match findSubslice cb AUXPOW_MAGIC with
    | none =>
      { proof2 := .err "merged-mining magic fabe6d6d not found in coinbase"
        anti_grind := .err "skipped: coinbase has no AuxPoW commitment"
        committed := none, n_size := 0, nonce := 0 }
    | some magic_at =>
      if (findSubslice (cb.drop (magic_at + 1)) AUXPOW_MAGIC).isSome then
        { proof2 := .err "more than one merged-mining magic in the coinbase"
          anti_grind := .err "ambiguous AuxPoW commitment"
          committed := none, n_size := 0, nonce := 0 }
      else
        let root_pos := magic_at + AUXPOW_MAGIC.length
        match getRange cb root_pos (root_pos + 40) with
        | none =>
          { proof2 := .err "truncated AuxPoW commitment after magic"
            anti_grind := .err "skipped"
            committed := none, n_size := 0, nonce := 0 }
        | some tail =>
          let committed : Hash32 := ByteArr.ofSlice 32 tail 0
          let n_size := leU32At tail 32
          let nonce := leU32At tail 36
          if committed ≠ root_reversed then
            { proof2 := .err "computed chain root ≠ root committed in parent coinbase"
              anti_grind := .err "skipped"
              committed := none, n_size := n_size, nonce := nonce }
          else
            let grill :=
              if n_size ≠ 1 <<< UInt32.ofNat depth then
                .err ("anti-grind size " ++ toString n_size ++ " != 2^" ++ toString depth)
              else if aux.chain_index ≠ getExpectedIndex nonce chain_id (UInt32.ofNat depth) then
                .err ("chain index " ++ toString aux.chain_index ++ " violates LCG slot (nonce " ++ toString nonce ++
                  ", chain_id " ++ toString chain_id ++ ", depth " ++ toString depth ++ ")")
              else .pass
            { proof2 := .pass, anti_grind := grill, committed := some committed
              n_size := n_size, nonce := nonce }

/-! ## The verdicts -/

/-- Verify a parsed header and witness, step by step. -/
def verifyAuxHeader (base : Bytes) (aux : AuxPow) (chain_id pow_limit_bits : UInt32) : VerificationReport :=
  let report : VerificationReport :=
    { valid := false, chain_id := chain_id, block_hash := "", parent_hash := "", parent_chain_id := none
      header_format := checkHeaderFormat base chain_id pow_limit_bits
      proof1_coinbase_to_parent_root := .pass, proof2_aux_to_chain_root := .pass, anti_grind_lcg_slot := .pass
      chain_root_hex := "", coinbase_root_hex := "", chain_branch_depth := aux.chain_merkle_branch.length
      chain_index := aux.chain_index, n_size := 0, nonce := 0, fatal_error := none }
  if ¬ report.header_format.ok then report
  else
    let block_hash := sha256d base
    let proof1 := verifyProof1 sha256d aux chain_id
    let out := verifyProof2 sha256d block_hash aux chain_id
    -- both root fields show the committed root, and only when the two roots agree
    let root_hex := (out.committed.map hashDisplay).getD ""
    { report with
      block_hash := hashDisplay block_hash
      parent_hash := hashDisplay (sha256d aux.parent_header)
      parent_chain_id := aux.parentChainId
      proof1_coinbase_to_parent_root := proof1
      proof2_aux_to_chain_root := out.proof2
      anti_grind_lcg_slot := out.anti_grind
      n_size := out.n_size
      nonce := out.nonce
      coinbase_root_hex := root_hex
      chain_root_hex := root_hex
      valid := report.header_format.ok && proof1.ok && out.proof2.ok && out.anti_grind.ok }

/-- The ingestor's gate: the block hash, or the first step that failed. -/
def lightVerify (base : Bytes) (aux : AuxPow) (chain_id pow_limit_bits : UInt32) : Except String Hash32 :=
  if ¬ (checkHeaderFormat base chain_id pow_limit_bits).ok then .error "header format checks failed"
  else
    let block_hash := sha256d base
    if ¬ (verifyProof1 sha256d aux chain_id).ok then .error "proof 1 (coinbase → parent root) failed"
    else
      let out := verifyProof2 sha256d block_hash aux chain_id
      if ¬ out.proof2.ok then .error "proof 2 (aux → chain root) failed"
      else if ¬ out.anti_grind.ok then .error "anti-grind LCG slot check failed"
      else .ok block_hash

end Sha

end PsobIndexer
