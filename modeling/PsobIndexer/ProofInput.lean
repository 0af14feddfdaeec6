import PsobIndexer.Ingest
import PsobIndexer.Merkle
import PsobIndexer.Lib.Checked
/-!
# Deposit proofs (`crates/chain-rpc/src/lib.rs`)

`build_proof_input` asks an endpoint for a merkle proof and for the headers from
the checkpoint to the block that buries the deposit, and puts them together for
the guest. The height, the siblings and the position of the reply are the
endpoint's. `w` is the pointer width, `max_headers` is how many headers a `Vec`
can hold; memory is not limited otherwise.
-/
open Lib

namespace PsobIndexer

/-! ## Data -/

/-- A reply to `/tx/{txid}/merkle-proof`; `pos` is a `usize`. -/
structure MerkleProofResp where
  block_height : UInt64
  merkle : List String
  pos : Nat

/-- The endpoint with the requests a proof needs, `none` for a failed one. -/
structure ProofClient extends ElectrsClient where
  merkleProof : String → Option MerkleProofResp
  txBytes : String → Option Bytes

/-- The on-chain checkpoint the proof must descend from. -/
structure CheckpointParams where
  checkpoint_hash : Hash32
  checkpoint_height : UInt64
  checkpoint_chainwork : Hash32
  min_confirmations : UInt32
  custody_hash160 : ByteArr 20
  custody_epoch : UInt64
  chain_id : UInt32

/-- A sibling, and whether the node is the left child. -/
structure MerkleStep where
  sibling : Hash32
  left : Bool

structure MerkleProof where
  txid : Hash32
  path : List MerkleStep

/-- What is handed to the guest. -/
structure ProofInput where
  chain_id : UInt32
  checkpoint_hash : Hash32
  checkpoint_chainwork : Hash32
  headers : List BlockHeader
  deposit_header_index : UInt32
  min_confirmations : UInt32
  merkle_proof : MerkleProof
  deposit_tx : Bytes
  custody_hash160 : ByteArr 20
  custody_epoch : UInt64
  pow_limit_bits : UInt32

inductive Hex32Error where
  | notHex
  | length (n : Nat)
  deriving DecidableEq

inductive ProofInputError where
  | merkleProof
  | notAboveCheckpoint (dep_height checkpoint_height : UInt64)
  | tipHeight
  | insufficientConfirmations (end_height tip : UInt64)
  /-- `Vec::with_capacity` panics, in either build. -/
  | capacityOverflow
  | blockHashAt (h : UInt64)
  | headerWire (h : UInt64)
  | noWitness (h : UInt64) (e : AuxPowParseError)
  | hash (e : Hex32Error)
  | txBytes
  deriving DecidableEq

/-! ## The builder -/

def hex32 (display_hex : String) : Except Hex32Error Hash32 :=
  match hexDecode display_hex with
  | none => .error .notHex
  | some v => if h : v.length = 32 then .ok ⟨v, h⟩ else .error (.length v.length)

section Width
variable (w max_headers : Nat)

/-- The header at a height with its AuxPoW witness, which must be there. -/
def jkcHeaderWithAuxpow (client : ProofClient) (h : UInt64) : Except ProofInputError BlockHeader := do
  let hash ← (client.blockHashAt h).elim (throw (.blockHashAt h)) pure
  let wire ← (client.headerWire h hash).elim (throw (.headerWire h)) pure
  let (raw, aux) ← (parseAuxpow w wire).mapError (.noWitness h)
  return ⟨raw.val, some aux⟩

/-- The steps from level `level` on: each sibling in consensus order, `left` when
its bit of `pos` is clear. -/
def merklePath (pos : Nat) : Nat → List String → Checked ProofInputError (List MerkleStep)
  | _, [] => pure []
  | level, sib :: merkle => do
    let sibling ← Checked.ofExcept ((hex32 sib).mapError .hash)
    let bit ← Checked.bitAt w pos level
    let path ← merklePath pos (level + 1) merkle
    return ⟨sibling.reverse, !bit⟩ :: path

/-- `Vec::with_capacity(n as usize)`. -/
def withCapacity (n : UInt64) : Except ProofInputError Unit :=
  if n.toNat % 2 ^ w ≤ max_headers then pure () else throw .capacityOverflow

/-- Assemble the witness of a deposit. -/
def buildProofInput (client : ProofClient) (deposit_txid_display : String) (cp : CheckpointParams) :
    Checked ProofInputError ProofInput := do
  let mp ← Checked.ofExcept ((client.merkleProof deposit_txid_display).elim (throw .merkleProof) pure)
  let dep_height := mp.block_height
  Checked.ofExcept (if dep_height ≤ cp.checkpoint_height then
    throw (.notAboveCheckpoint dep_height cp.checkpoint_height) else pure ())
  -- `min_confirmations` headers that cover and bury the deposit block
  let conf := (max cp.min_confirmations 1).toUInt64
  let sum ← Checked.add dep_height conf
  let end_height ← Checked.sub sum 1
  let tip ← Checked.ofExcept (client.tipHeight.elim (throw .tipHeight) pure)
  Checked.ofExcept (if tip < end_height then throw (.insufficientConfirmations end_height tip) else pure ())
  let capacity ← Checked.sub end_height cp.checkpoint_height
  Checked.ofExcept (withCapacity w max_headers capacity)
  let first ← Checked.add cp.checkpoint_height 1
  let headers ← Checked.ofExcept ((rangeInclusive first end_height).mapM (jkcHeaderWithAuxpow w client))
  let first ← Checked.add cp.checkpoint_height 1
  let index ← Checked.sub dep_height first
  let txid ← Checked.ofExcept ((hex32 deposit_txid_display).mapError .hash)
  let path ← merklePath w mp.pos 0 mp.merkle
  let deposit_tx ← Checked.ofExcept ((client.txBytes deposit_txid_display).elim (throw .txBytes) pure)
  return {
    chain_id := cp.chain_id
    checkpoint_hash := cp.checkpoint_hash
    checkpoint_chainwork := cp.checkpoint_chainwork
    headers
    deposit_header_index := index.toUInt32
    min_confirmations := cp.min_confirmations
    merkle_proof := ⟨txid.reverse, path⟩
    deposit_tx
    custody_hash160 := cp.custody_hash160
    custody_epoch := cp.custody_epoch
    pow_limit_bits := CHAIN_POW_LIMIT_BITS }

end Width

/-- Fold a merkle path the way the guest does. -/
def foldMerkle (sha256d : Bytes → Hash32) (proof : MerkleProof) : Hash32 :=
  proof.path.foldl (fun acc step =>
    sha256d (if step.left then acc.val ++ step.sibling.val else step.sibling.val ++ acc.val)) proof.txid

/-! ## What the reply promises

The property and the condition are about the untrusted parts: the reply, the
tip, the headers that can be fetched. -/

/-- The confirmations asked for, at least one. -/
def CheckpointParams.confirmations (cp : CheckpointParams) : Nat := max cp.min_confirmations.toNat 1

/-- The headers cover the deposit block and as many blocks from it on as
confirmations are asked for; each is the one fetched for its height. -/
structure WindowOf (w : Nat) (client : ProofClient) (cp : CheckpointParams) (input : ProofInput) : Prop where
  index_lt : input.deposit_header_index.toNat < input.headers.length
  buried : input.headers.length - input.deposit_header_index.toNat = cp.confirmations
  fetched : ∀ (i : Nat) (header : BlockHeader), input.headers[i]? = some header →
    ∃ h : UInt64, h.toNat = cp.checkpoint_height.toNat + 1 + i ∧ jkcHeaderWithAuxpow w client h = .ok header

/-- No overflow on the way, and an input only with a well-formed window. -/
def WellFormedWindow (w max_headers : Nat) (client : ProofClient) (txid : String) (cp : CheckpointParams) : Prop :=
  Checked.overflows (buildProofInput w max_headers client txid cp) = [] ∧
    ∀ input, Checked.result (buildProofInput w max_headers client txid cp) = .ok input → WindowOf w client cp input

/-- Everything up to the merkle path is there: a high enough tip, room for the
headers, the headers themselves and a txid. -/
structure WindowRead (w max_headers : Nat) (client : ProofClient) (txid : String) (cp : CheckpointParams)
    (dep_height : UInt64) : Prop where
  tip : ∃ tip, client.tipHeight = some tip ∧ dep_height.toNat + cp.confirmations - 1 ≤ tip.toNat
  room : (dep_height.toNat + cp.confirmations - 1 - cp.checkpoint_height.toNat) % 2 ^ w ≤ max_headers
  headers : ∀ h : UInt64, cp.checkpoint_height < h → h.toNat ≤ dep_height.toNat + cp.confirmations - 1 →
    (jkcHeaderWithAuxpow w client h).isOk
  txid : (hex32 txid).isOk

/-- The reply can be worked with: the window ends below `2 ^ 64`; where the path
is reached, no more than `w` siblings come before the first unreadable one; where
everything is read, the deposit is at most `2 ^ 32` above the checkpoint. -/
structure ReplyOk (w max_headers : Nat) (client : ProofClient) (txid : String) (cp : CheckpointParams)
    (mp : MerkleProofResp) : Prop where
  window_end : mp.block_height.toNat + cp.confirmations < 2 ^ 64
  siblings : WindowRead w max_headers client txid cp mp.block_height →
    (mp.merkle.takeWhile (fun sib => (hex32 sib).isOk)).length ≤ w
  index : WindowRead w max_headers client txid cp mp.block_height → (∀ sib ∈ mp.merkle, (hex32 sib).isOk) →
    (client.txBytes txid).isSome → mp.block_height.toNat - cp.checkpoint_height.toNat ≤ 2 ^ 32

/-! ## The merkle path -/

/-- The strings are the display hex of these hashes. -/
def Spells (merkle : List String) (sibs : List Hash32) : Prop :=
  List.Forall₂ (fun sib s => hex32 sib = .ok s.reverse) merkle sibs

section Width
variable {w : Nat}

theorem result_merklePath {pos level : Nat} {merkle : List String} {path : List MerkleStep} :
    (merklePath w pos level merkle).result = .ok path ↔
      ∃ sibs, Spells merkle sibs ∧ path = (sibs.zipIdx level).map (fun s => ⟨s.1, !pos.testBit (s.2 % w)⟩) := by
  induction merkle generalizing level path with
  | nil =>
    simp only [merklePath, Checked.result_pure, Except.ok.injEq, Spells, List.forall₂_nil_left_iff, exists_eq_left,
      List.zipIdx_nil, List.map_nil]
    exact eq_comm
  | cons sib merkle ih =>
    simp only [merklePath, Checked.result_bind_eq_ok, Checked.result_ofExcept, Checked.result_bitAt, mapError_eq_ok,
      Checked.result_pure, Except.ok.injEq, exists_eq_left', ih, Spells, List.forall₂_cons_left_iff]
    constructor
    · rintro ⟨s, hs, -, ⟨sibs, hsibs, rfl⟩, rfl⟩
      exact ⟨s.reverse :: sibs, ⟨s.reverse, sibs, by rw [hs, ByteArr.reverse_reverse], hsibs, rfl⟩, rfl⟩
    · rintro ⟨-, ⟨s, sibs, hs, hsibs, rfl⟩, rfl⟩
      exact ⟨s.reverse, hs, _, ⟨sibs, hsibs, rfl⟩, by rw [ByteArr.reverse_reverse]; rfl⟩

/-- The shifts are those of the siblings before the first unreadable one. -/
theorem overflows_merklePath {pos level : Nat} (merkle : List String) (hlevel : level ≤ w) :
    (merklePath w pos level merkle).overflows = [] ↔
      level + (merkle.takeWhile (fun sib => (hex32 sib).isOk)).length ≤ w := by
  induction merkle generalizing level with
  | nil => simpa [merklePath] using hlevel
  | cons sib merkle ih =>
    simp only [merklePath, Checked.overflows_bind_eq_nil, Checked.overflows_ofExcept, Checked.result_ofExcept,
      Checked.overflows_bitAt, Checked.result_bitAt, mapError_eq_ok, Checked.overflows_pure, true_and, implies_true,
      and_true, Except.ok.injEq, forall_eq']
    cases hsib : hex32 sib with
    | error e => simpa [List.takeWhile_cons, hsib, Except.isOk, Except.toBool] using hlevel
    | ok s =>
      have hcount : ((sib :: merkle).takeWhile (fun sib => (hex32 sib).isOk)).length =
          (merkle.takeWhile (fun sib => (hex32 sib).isOk)).length + 1 := by
        simp [hsib, Except.isOk, Except.toBool]
      rw [hcount]
      constructor
      · intro h
        obtain ⟨hlt, hrest⟩ := h s rfl
        have := (ih hlt).1 hrest
        omega
      · rintro h _ -
        have hlt : level < w := by omega
        exact ⟨hlt, (ih hlt).2 (by omega)⟩

/-! ## The window -/

/-- The last height of the window, as the code computes it. -/
def endHeight (cp : CheckpointParams) (dep_height : UInt64) : UInt64 :=
  dep_height + (max cp.min_confirmations 1).toUInt64 - 1

theorem toNat_confirmations (cp : CheckpointParams) :
    (max cp.min_confirmations 1).toUInt64.toNat = cp.confirmations := by
  rw [UInt32.toNat_toUInt64, CheckpointParams.confirmations]
  by_cases h : cp.min_confirmations ≤ 1
  · have hle := UInt32.le_iff_toNat_le.1 h
    rw [UInt32.toNat_one] at hle
    rw [max_eq_right h, max_eq_right hle]
    rfl
  · have hlt := UInt32.lt_iff_toNat_lt.1 (not_le.1 h)
    rw [UInt32.toNat_one] at hlt
    rw [max_eq_left (le_of_lt (not_le.1 h)), max_eq_left (le_of_lt hlt)]

theorem confirmations_pos (cp : CheckpointParams) : 1 ≤ cp.confirmations := le_max_right _ _

theorem toNat_endHeight {cp : CheckpointParams} {dep_height : UInt64}
    (h : dep_height.toNat + cp.confirmations < 2 ^ 64) :
    (endHeight cp dep_height).toNat = dep_height.toNat + cp.confirmations - 1 := by
  have hpos := confirmations_pos cp
  have hsum : (dep_height + (max cp.min_confirmations 1).toUInt64).toNat = dep_height.toNat + cp.confirmations := by
    rw [UInt64.toNat_add, toNat_confirmations, Nat.mod_eq_of_lt h]
  have hone : (1 : UInt64) ≤ dep_height + (max cp.min_confirmations 1).toUInt64 := by
    rw [UInt64.le_iff_toNat_le, hsum, UInt64.toNat_one]
    omega
  rw [endHeight, UInt64.toNat_sub_of_le _ _ hone, hsum, UInt64.toNat_one]

/-- The steps before the merkle path, with the headers and the txid they read. -/
structure Reached (w max_headers : Nat) (client : ProofClient) (txid : String) (cp : CheckpointParams)
    (dep_height : UInt64) (headers : List BlockHeader) (leaf : Hash32) : Prop where
  tip : ∃ tip, client.tipHeight = some tip ∧ ¬ tip < endHeight cp dep_height
  room : withCapacity w max_headers (endHeight cp dep_height - cp.checkpoint_height) = .ok ()
  headers : (rangeInclusive (cp.checkpoint_height + 1) (endHeight cp dep_height)).mapM (jkcHeaderWithAuxpow w client) =
    .ok headers
  txid : hex32 txid = .ok leaf

variable {max_headers : Nat} {client : ProofClient} {txid : String} {cp : CheckpointParams}

/-- An input is put together from the reply and what the steps before and after
the path read. -/
theorem result_build {input : ProofInput} (h : (buildProofInput w max_headers client txid cp).result = .ok input) :
    ∃ mp leaf, client.merkleProof txid = some mp ∧ cp.checkpoint_height < mp.block_height ∧
      Reached w max_headers client txid cp mp.block_height input.headers leaf ∧
      (merklePath w mp.pos 0 mp.merkle).result = .ok input.merkle_proof.path ∧ (client.txBytes txid).isSome ∧
      input.merkle_proof.txid = leaf.reverse ∧
      input.deposit_header_index = (mp.block_height - (cp.checkpoint_height + 1)).toUInt32 := by
  simp only [buildProofInput, Checked.result_bind_eq_ok, Checked.result_ofExcept, elim_throw_eq_ok,
    ite_throw_pure_eq_ok, Checked.result_add, Checked.result_sub, Checked.result_pure, mapError_eq_ok, Except.ok.injEq,
    exists_eq_left'] at h
  obtain ⟨mp, hmp, -, habove, tip, htip, -, hend, ⟨⟩, hroom, headers, hheaders, leaf, hleaf, path, hpath, tx, htx, rfl⟩ := h
  exact ⟨mp, leaf, hmp, not_le.1 habove, ⟨⟨tip, htip, hend⟩, hroom, hheaders, hleaf⟩, hpath, by rw [htx]; rfl, rfl, rfl⟩

theorem build_returns {mp : MerkleProofResp} {headers : List BlockHeader} {leaf : Hash32} {path : List MerkleStep}
    (hmp : client.merkleProof txid = some mp) (habove : cp.checkpoint_height < mp.block_height)
    (hreached : Reached w max_headers client txid cp mp.block_height headers leaf)
    (hpath : (merklePath w mp.pos 0 mp.merkle).result = .ok path) (htx : (client.txBytes txid).isSome) :
    ∃ input, (buildProofInput w max_headers client txid cp).result = .ok input := by
  obtain ⟨tip, htip, hend⟩ := hreached.tip
  obtain ⟨tx, htx⟩ := Option.isSome_iff_exists.1 htx
  simp only [buildProofInput, Checked.result_bind_eq_ok, Checked.result_ofExcept, elim_throw_eq_ok,
    ite_throw_pure_eq_ok, Checked.result_add, Checked.result_sub, Checked.result_pure, mapError_eq_ok, Except.ok.injEq,
    exists_eq_left']
  exact ⟨_, mp, hmp, (), not_le.2 habove, tip, htip, (), hend, (), hreached.room, headers, hreached.headers, leaf,
    hreached.txid, path, hpath, tx, htx, rfl⟩

/-- Before the reply and below the checkpoint nothing is computed. -/
theorem overflows_build_trivial
    (h : ∀ mp, client.merkleProof txid = some mp → mp.block_height ≤ cp.checkpoint_height) :
    (buildProofInput w max_headers client txid cp).overflows = [] := by
  simp only [buildProofInput, Checked.overflows_bind_eq_nil, Checked.overflows_ofExcept, Checked.result_ofExcept,
    elim_throw_eq_ok, ite_throw_pure_eq_ok, true_and]
  intro mp hmp _ habove
  exact absurd (h mp hmp) habove

/-- The first sum is the one that can overflow, and after it the path. -/
theorem overflows_build {mp : MerkleProofResp} (hmp : client.merkleProof txid = some mp)
    (habove : cp.checkpoint_height < mp.block_height) :
    (buildProofInput w max_headers client txid cp).overflows = [] ↔
      mp.block_height.toNat + cp.confirmations < 2 ^ 64 ∧
        ∀ headers leaf, Reached w max_headers client txid cp mp.block_height headers leaf →
          (merklePath w mp.pos 0 mp.merkle).overflows = [] := by
  simp only [buildProofInput, Checked.overflows_bind_eq_nil, Checked.overflows_ofExcept, Checked.result_ofExcept,
    elim_throw_eq_ok, ite_throw_pure_eq_ok, Checked.overflows_add, Checked.overflows_sub, Checked.result_add,
    Checked.result_sub, Checked.overflows_pure, mapError_eq_ok, true_and, Except.ok.injEq, forall_eq', hmp,
    Option.some.injEq, toNat_confirmations, implies_true, and_true]
  have hlt := UInt64.lt_iff_toNat_lt.1 habove
  have hfirst : cp.checkpoint_height.toNat + UInt64.toNat 1 < 2 ^ 64 := by
    have := mp.block_height.toNat_lt
    rw [UInt64.toNat_one]
    omega
  have hindex : cp.checkpoint_height + 1 ≤ mp.block_height := by
    rw [UInt64.le_iff_toNat_le, UInt64.toNat_add, Nat.mod_eq_of_lt hfirst, UInt64.toNat_one]
    omega
  constructor
  · intro h
    obtain ⟨hsum, -, h⟩ := h () (not_le.2 habove)
    refine ⟨hsum, fun headers leaf hreached => ?_⟩
    obtain ⟨tip, htip, hend⟩ := hreached.tip
    exact (((h tip htip () hend).2 () hreached.room).2 headers hreached.headers).2.2 leaf hreached.txid
  · rintro ⟨hsum, hpath⟩ - -
    have hend := toNat_endHeight hsum
    have hpos := confirmations_pos cp
    refine ⟨hsum, ?_, fun tip htip _ hle => ⟨?_, fun _ hroom => ⟨hfirst, fun headers hheaders =>
      ⟨hfirst, hindex, fun leaf hleaf => hpath headers leaf ⟨⟨tip, htip, hle⟩, hroom, hheaders, hleaf⟩⟩⟩⟩⟩
    · rw [UInt64.le_iff_toNat_le, UInt64.toNat_add, toNat_confirmations, Nat.mod_eq_of_lt hsum, UInt64.toNat_one]
      omega
    · rw [UInt64.le_iff_toNat_le]
      exact le_trans (by omega) (le_of_eq hend.symm)

theorem toNat_checkpoint_succ {dep_height : UInt64} (habove : cp.checkpoint_height < dep_height) :
    (cp.checkpoint_height + 1).toNat = cp.checkpoint_height.toNat + 1 := by
  have hlt := UInt64.lt_iff_toNat_lt.1 habove
  have hdep := dep_height.toNat_lt
  rw [UInt64.toNat_add, UInt64.toNat_one, Nat.mod_eq_of_lt (by omega)]

theorem withCapacity_ok {n : UInt64} : withCapacity w max_headers n = .ok () ↔ n.toNat % 2 ^ w ≤ max_headers := by
  unfold withCapacity
  by_cases h : n.toNat % 2 ^ w ≤ max_headers
  · simp [h]
  · simp [h]

theorem reached_iff {dep_height : UInt64} (habove : cp.checkpoint_height < dep_height)
    (hsum : dep_height.toNat + cp.confirmations < 2 ^ 64) :
    WindowRead w max_headers client txid cp dep_height ↔
      ∃ headers leaf, Reached w max_headers client txid cp dep_height headers leaf := by
  have hend := toNat_endHeight hsum
  have hfirst := toNat_checkpoint_succ habove
  have hpos := confirmations_pos cp
  have hlt := UInt64.lt_iff_toNat_lt.1 habove
  have hcapacity : (endHeight cp dep_height - cp.checkpoint_height).toNat =
      dep_height.toNat + cp.confirmations - 1 - cp.checkpoint_height.toNat := by
    rw [UInt64.toNat_sub_of_le _ _ (by rw [UInt64.le_iff_toNat_le, hend]; omega), hend]
  have hmem : ∀ h : UInt64, h ∈ rangeInclusive (cp.checkpoint_height + 1) (endHeight cp dep_height) ↔
      cp.checkpoint_height < h ∧ h.toNat ≤ dep_height.toNat + cp.confirmations - 1 := by
    intro h
    rw [mem_rangeInclusive, UInt64.le_iff_toNat_le, UInt64.le_iff_toNat_le, UInt64.lt_iff_toNat_lt, hfirst, hend,
      Nat.succ_le_iff]
  constructor
  · rintro ⟨⟨tip, htip, hle⟩, hroom, hheaders, htxid⟩
    obtain ⟨leaf, hleaf⟩ := isOk_iff.1 htxid
    obtain ⟨headers, hread⟩ := exists_forall₂ (R := fun h header => jkcHeaderWithAuxpow w client h = .ok header)
      (fun h hin => isOk_iff.1 (hheaders h ((hmem h).1 hin).1 ((hmem h).1 hin).2))
    refine ⟨headers, leaf, ⟨tip, htip, ?_⟩, withCapacity_ok.2 (by rwa [hcapacity]), mapM_eq_ok_iff.2 hread, hleaf⟩
    rw [UInt64.lt_iff_toNat_lt, hend]
    omega
  · rintro ⟨headers, leaf, ⟨tip, htip, hle⟩, hroom, hheaders, htxid⟩
    rw [UInt64.lt_iff_toNat_lt, hend, not_lt] at hle
    have hroom := withCapacity_ok.1 hroom
    rw [hcapacity] at hroom
    refine ⟨⟨tip, htip, hle⟩, hroom, fun h habove hle => ?_, isOk_iff.2 ⟨leaf, htxid⟩⟩
    have hin := (hmem h).2 ⟨habove, hle⟩
    obtain ⟨i, hi⟩ := List.mem_iff_getElem?.1 hin
    have hlen := mapM_ok_length hheaders
    obtain ⟨header, hheader⟩ : ∃ header, headers[i]? = some header :=
      ⟨_, List.getElem?_eq_getElem (by rw [hlen]; exact (List.getElem?_eq_some_iff.1 hi).1)⟩
    exact isOk_iff.2 ⟨header, mapM_ok_getElem? hheaders hi hheader⟩

/-- Below `2 ^ 64` the window is as long as it should be; only the index can be
cut to 32 bits. -/
theorem windowOf_iff {dep_height : UInt64} {input : ProofInput} {leaf : Hash32}
    (habove : cp.checkpoint_height < dep_height) (hsum : dep_height.toNat + cp.confirmations < 2 ^ 64)
    (hreached : Reached w max_headers client txid cp dep_height input.headers leaf)
    (hindex : input.deposit_header_index = (dep_height - (cp.checkpoint_height + 1)).toUInt32) :
    WindowOf w client cp input ↔ dep_height.toNat - cp.checkpoint_height.toNat ≤ 2 ^ 32 := by
  have hfirst := toNat_checkpoint_succ habove
  have hpos := confirmations_pos cp
  have hlt := UInt64.lt_iff_toNat_lt.1 habove
  have hlen : input.headers.length = dep_height.toNat + cp.confirmations - 1 - cp.checkpoint_height.toNat := by
    rw [mapM_ok_length hreached.headers, length_rangeInclusive, toNat_endHeight hsum, hfirst]
    omega
  have hcut : input.deposit_header_index.toNat = (dep_height.toNat - cp.checkpoint_height.toNat - 1) % 2 ^ 32 := by
    rw [hindex, UInt64.toNat_toUInt32, UInt64.toNat_sub_of_le _ _ (by rw [UInt64.le_iff_toNat_le, hfirst]; omega),
      hfirst]
    rfl
  have hcut_le := Nat.mod_le (dep_height.toNat - cp.checkpoint_height.toNat - 1) (2 ^ 32)
  constructor
  · intro hwindow
    have hburied := hwindow.buried
    have hbound := Nat.mod_lt (dep_height.toNat - cp.checkpoint_height.toNat - 1) (show 0 < 2 ^ 32 by decide)
    omega
  · intro hnear
    rw [Nat.mod_eq_of_lt (by omega)] at hcut
    refine ⟨by omega, by omega, fun i header hheader => ?_⟩
    obtain ⟨h, hh⟩ : ∃ h, (rangeInclusive (cp.checkpoint_height + 1) (endHeight cp dep_height))[i]? = some h :=
      ⟨_, List.getElem?_eq_getElem (by
        rw [← mapM_ok_length hreached.headers]
        exact (List.getElem?_eq_some_iff.1 hheader).1)⟩
    exact ⟨h, by rw [getElem?_rangeInclusive hh, hfirst], mapM_ok_getElem? hreached.headers hh hheader⟩

theorem overflows_path_iff (mp : MerkleProofResp) :
    (merklePath w mp.pos 0 mp.merkle).overflows = [] ↔
      (mp.merkle.takeWhile (fun sib => (hex32 sib).isOk)).length ≤ w := by
  rw [overflows_merklePath mp.merkle (Nat.zero_le w), Nat.zero_add]

/-- A path is returned if and only if every sibling is readable. -/
theorem path_returns_iff (mp : MerkleProofResp) :
    (∃ path, (merklePath w mp.pos 0 mp.merkle).result = .ok path) ↔ ∀ sib ∈ mp.merkle, (hex32 sib).isOk := by
  constructor
  · rintro ⟨path, hpath⟩
    obtain ⟨sibs, hsibs, -⟩ := result_merklePath.1 hpath
    exact ((List.forall₂_and_left _ _).1 (hsibs.imp fun _ s h => ⟨isOk_iff.2 ⟨s.reverse, h⟩, h⟩)).1
  · intro hread
    obtain ⟨sibs, hsibs⟩ := exists_forall₂ (R := fun sib (s : Hash32) => hex32 sib = .ok s.reverse) (l := mp.merkle)
      fun sib hsib => by
        obtain ⟨s, hs⟩ := isOk_iff.1 (hread sib hsib)
        exact ⟨s.reverse, by rw [hs, ByteArr.reverse_reverse]⟩
    exact ⟨_, result_merklePath.2 ⟨sibs, hsibs, rfl⟩⟩

/-- The window is well formed if and only if there is no reply, or one that is
not above the checkpoint, or one that can be worked with. -/
theorem window_wellFormed_iff (w max_headers : Nat) (client : ProofClient) (txid : String) (cp : CheckpointParams) :
    WellFormedWindow w max_headers client txid cp ↔
      ∀ mp, client.merkleProof txid = some mp → cp.checkpoint_height < mp.block_height →
        ReplyOk w max_headers client txid cp mp := by
  constructor
  · rintro ⟨hlog, hinput⟩ mp hmp habove
    obtain ⟨hsum, hpath⟩ := (overflows_build hmp habove).1 hlog
    refine ⟨hsum, fun hread => ?_, fun hread hsibs htx => ?_⟩
    · obtain ⟨headers, leaf, hreached⟩ := (reached_iff habove hsum).1 hread
      exact (overflows_path_iff mp).1 (hpath headers leaf hreached)
    · obtain ⟨headers, leaf, hreached⟩ := (reached_iff habove hsum).1 hread
      obtain ⟨path, hpath⟩ := (path_returns_iff (w := w) mp).2 hsibs
      obtain ⟨input, hok⟩ := build_returns hmp habove hreached hpath htx
      obtain ⟨mp', leaf', hmp', -, hreached', -, -, -, hindex⟩ := result_build hok
      cases hmp.symm.trans hmp'
      exact (windowOf_iff habove hsum hreached' hindex).1 (hinput input hok)
  · intro hreply
    refine ⟨?_, fun input hok => ?_⟩
    · by_cases hlow : ∀ mp, client.merkleProof txid = some mp → mp.block_height ≤ cp.checkpoint_height
      · exact overflows_build_trivial hlow
      · simp only [not_forall, not_le] at hlow
        obtain ⟨mp, hmp, habove⟩ := hlow
        have hok := hreply mp hmp habove
        refine (overflows_build hmp habove).2 ⟨hok.window_end, fun headers leaf hreached => ?_⟩
        exact (overflows_path_iff mp).2 (hok.siblings ((reached_iff habove hok.window_end).2 ⟨headers, leaf, hreached⟩))
    · obtain ⟨mp, leaf, hmp, habove, hreached, hpath, htx, -, hindex⟩ := result_build hok
      have hreply := hreply mp hmp habove
      have hread := (reached_iff habove hreply.window_end).2 ⟨_, leaf, hreached⟩
      exact (windowOf_iff habove hreply.window_end hreached hindex).2
        (hreply.index hread ((path_returns_iff mp).1 ⟨_, hpath⟩) htx)

end Width

/-- A reply at the last height there is, right above the checkpoint. -/
def lastHeightClient : ProofClient where
  tipHeight := some 0
  blockHashAt _ := none
  headerBytes _ _ := none
  merkleProof _ := some ⟨u64Max, [], 0⟩
  txBytes _ := some []

def lastHeightParams : CheckpointParams where
  checkpoint_hash := ByteArr.fill 32 0
  checkpoint_height := u64Max - 1
  checkpoint_chainwork := ByteArr.fill 32 0
  min_confirmations := 2
  custody_hash160 := ByteArr.fill 20 0
  custody_epoch := 0
  chain_id := 8224

/-- The window's end wraps to 0, below any tip, and the input has no headers. -/
theorem window_end_wraps :
    let build := buildProofInput 64 (2 ^ 56) lastHeightClient (hashDisplay (ByteArr.fill 32 0)) lastHeightParams
    build.overflows ≠ [] ∧
      (∃ input, build.result = .ok input ∧ input.headers = [] ∧ input.deposit_header_index = 0) ∧
      ¬ WellFormedWindow 64 (2 ^ 56) lastHeightClient (hashDisplay (ByteArr.fill 32 0)) lastHeightParams := by
  intro build
  have hlog : build.overflows ≠ [] := by decide +kernel
  have hreturns : (build.result.map (fun input => (input.headers, input.deposit_header_index))).toOption =
      some ([], 0) := by decide +kernel
  refine ⟨hlog, ?_, fun h => hlog h.1⟩
  cases hresult : build.result with
  | error e =>
    rw [hresult] at hreturns
    cases hreturns
  | ok input =>
    rw [hresult] at hreturns
    obtain ⟨hheaders, hindex⟩ := Prod.mk.inj (Option.some.inj hreturns)
    exact ⟨input, rfl, hheaders, hindex⟩

end PsobIndexer
