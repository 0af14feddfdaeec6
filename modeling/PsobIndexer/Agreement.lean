import PsobIndexer.Verify
/-!
# The verifiers agree

The commitment check is written twice: `verifyAuxpowCommitment` for the guest,
`verifyProof1` and `verifyProof2` for the indexer, with other orders of checks
and other early exits. `Proof1` and `Proof2` say what both are for; each copy
is proved equivalent to them, on any witness, malformed ones included.
-/
open Lib

namespace PsobIndexer

/-! ## What the proofs require -/

section Sha
variable (sha256d : Bytes → Hash32)

/-- The coinbase is the generation transaction of a Litecoin block other than
our own chain's. -/
def Proof1 (aux : AuxPow) (chain_id : UInt32) : Prop :=
  aux.parent_index = 0 ∧ aux.parentChainId = some LTC_CHAIN_ID ∧ LTC_CHAIN_ID ≠ chain_id ∧
    aux.parentMerkleRoot =
      some (merkleFoldBranch sha256d (sha256d aux.coinbase_tx) aux.parent_merkle_branch aux.parent_index)

/-- `tail` is the 40 bytes after the only merged-mining magic in `cb`. -/
def CommitmentTail (cb tail : Bytes) : Prop :=
  ∃ magic_at, findSubslice cb AUXPOW_MAGIC = some magic_at ∧
    findSubslice (cb.drop (magic_at + 1)) AUXPOW_MAGIC = none ∧
    getRange cb (magic_at + AUXPOW_MAGIC.length) (magic_at + AUXPOW_MAGIC.length + 40) = some tail

/-- The tail starts with the reversed chain root. -/
def RootCommitted (aux_block_hash : Hash32) (aux : AuxPow) (tail : Bytes) : Prop :=
  tail.take 32 = (merkleFoldBranch sha256d aux_block_hash aux.chain_merkle_branch aux.chain_index).reverse.val

/-- The tail's size field is `2^depth` and its nonce pins the slot. -/
def SlotPinned (aux : AuxPow) (chain_id : UInt32) (tail : Bytes) : Prop :=
  leU32At tail 32 = 1 <<< UInt32.ofNat aux.chain_merkle_branch.length ∧
    aux.chain_index =
      getExpectedIndex (leU32At tail 36) chain_id (UInt32.ofNat aux.chain_merkle_branch.length)

/-- The aux block is committed in the coinbase, at its own slot. -/
def Proof2 (aux_block_hash : Hash32) (aux : AuxPow) (chain_id : UInt32) : Prop :=
  aux.chain_merkle_branch.length ≤ 30 ∧
    ∃ tail, CommitmentTail aux.coinbase_tx tail ∧ RootCommitted sha256d aux_block_hash aux tail ∧
      SlotPinned aux chain_id tail

/-- The header's own checks: its size, its chain, and a target within the limit. -/
def HeaderFormat (base : Bytes) (chain_id pow_limit_bits : UInt32) : Prop :=
  base.length = 80 ∧ leU32At base 0 >>> 16 = chain_id ∧
    ∃ target limit, expandTarget (leU32At base 72) = some target ∧ expandTarget pow_limit_bits = some limit ∧
      targetLeq target limit = true

/-! ## The guest's copy -/

theorem verifyAuxpowCommitment_iff (aux_block_hash : Hash32) (aux : AuxPow) (chain_id : UInt32) :
    verifyAuxpowCommitment sha256d aux_block_hash aux chain_id = true ↔
      Proof1 sha256d aux chain_id ∧ Proof2 sha256d aux_block_hash aux chain_id := by
  constructor
  · intro h
    simp only [verifyAuxpowCommitment] at h
    -- every early exit returns false, so one path is left
    repeat' split at h
    all_goals try contradiction
    rename_i hidx _ pid hpid hltc _ root hroot hfold hdepth _ magic_at hmagic hone _ tail htail hneedle hsize
    rw [not_not] at hidx hltc hfold hneedle hsize
    refine ⟨⟨hidx, ?_, ?_, ?_⟩, by omega, tail, ⟨magic_at, hmagic, ?_, htail⟩, hneedle, hsize, ?_⟩
    · rw [hpid, hltc.2]
    · exact hltc.2 ▸ hltc.1
    · rw [hroot, hfold]
    · simpa using hone
    · simpa using h
  · rintro ⟨⟨hidx, hpid, hltc, hroot⟩, hdepth, tail, ⟨magic_at, hmagic, hone, htail⟩, hneedle, hsize, hslot⟩
    have hdepth' : ¬ aux.chain_merkle_branch.length > 30 := by omega
    simp only [RootCommitted] at hneedle
    simp only [verifyAuxpowCommitment, hidx, hpid, hltc, hroot, hdepth', hmagic, hone, htail, hneedle, hsize, ← hslot,
      ne_eq, not_true_eq_false, not_false_eq_true, and_self, if_false, Option.isSome_none, Bool.false_eq_true,
      decide_true]

/-! ## The indexer's copy -/

theorem verifyProof1_iff (aux : AuxPow) (chain_id : UInt32) :
    (verifyProof1 sha256d aux chain_id).ok = true ↔ Proof1 sha256d aux chain_id := by
  unfold verifyProof1 Proof1
  cases hpid : aux.parentChainId with
  | none =>
    by_cases hidx : aux.parent_index = 0 <;> simp [hidx]
  | some pid =>
    by_cases hidx : aux.parent_index = 0
    · by_cases hltc : pid = LTC_CHAIN_ID
      · subst hltc
        by_cases hne : LTC_CHAIN_ID = chain_id
        · simp [hidx, hne]
        · cases hroot : aux.parentMerkleRoot with
          | none => simp [hidx, hne]
          | some root =>
            by_cases hfold : merkleFoldBranch sha256d (sha256d aux.coinbase_tx) aux.parent_merkle_branch 0 = root
            · simp [hidx, hne, hfold]
            · simp [hidx, hne, hfold, Ne.symm hfold]
      · by_cases hne : pid = chain_id
        · subst hne
          simp [hidx, hltc]
        · simp [hidx, hne, hltc]
    · simp [hidx]

theorem getRange_length {b s : Bytes} {i n : Nat} (h : getRange b i (i + n) = some s) : s.length = n := by
  obtain ⟨-, hle, rfl⟩ := getRange_eq_some.1 h
  rw [List.length_take, List.length_drop]
  omega

/-- With the magic read, the indexer's proof 2 is decided by the tail alone. -/
theorem verifyProof2_of_tail {aux_block_hash : Hash32} {aux : AuxPow} {chain_id : UInt32} {tail : Bytes}
    (hdepth : aux.chain_merkle_branch.length ≤ 30) (htail : CommitmentTail aux.coinbase_tx tail) :
    ((verifyProof2 sha256d aux_block_hash aux chain_id).proof2.ok = true ↔
      RootCommitted sha256d aux_block_hash aux tail) ∧
    ((verifyProof2 sha256d aux_block_hash aux chain_id).anti_grind.ok = true ↔
      RootCommitted sha256d aux_block_hash aux tail ∧ SlotPinned aux chain_id tail) := by
  obtain ⟨magic_at, hmagic, hone, hrange⟩ := htail
  have hdepth' : ¬ aux.chain_merkle_branch.length > 30 := by omega
  have hlen := getRange_length hrange
  have hcommitted : ∀ root : Hash32, (ByteArr.ofSlice 32 tail 0 : Hash32) = root ↔ tail.take 32 = root.val := by
    intro root
    rw [Subtype.ext_iff, ByteArr.ofSlice_val (by omega), List.drop_zero]
  simp only [verifyProof2, hdepth', if_false, hmagic, hone, Option.isSome_none, Bool.false_eq_true, hrange,
    ne_eq, hcommitted, RootCommitted, SlotPinned]
  split
  · rename_i hroot
    simp [hroot]
  · rename_i hroot
    rw [not_not] at hroot
    split
    · rename_i hsize
      simp [hroot, hsize]
    · rename_i hsize
      rw [not_not] at hsize
      split
      · rename_i hslot
        simp [hroot, hsize, hslot]
      · rename_i hslot
        rw [not_not] at hslot
        simp [hroot, hsize, ← hslot]

/-- Without a readable tail the indexer's proof 2 and its anti-grind check fail. -/
theorem verifyProof2_tail {aux_block_hash : Hash32} {aux : AuxPow} {chain_id : UInt32}
    (h : (verifyProof2 sha256d aux_block_hash aux chain_id).proof2.ok = true ∨
      (verifyProof2 sha256d aux_block_hash aux chain_id).anti_grind.ok = true) :
    aux.chain_merkle_branch.length ≤ 30 ∧ ∃ tail, CommitmentTail aux.coinbase_tx tail := by
  unfold verifyProof2 at h
  dsimp only at h
  split at h
  · rcases h with h | h <;> cases h
  · rename_i hdepth
    split at h
    · rcases h with h | h <;> cases h
    · rename_i magic_at hmagic
      split at h
      · rcases h with h | h <;> cases h
      · rename_i hone
        split at h
        · rcases h with h | h <;> cases h
        · rename_i tail htail
          exact ⟨by omega, tail, magic_at, hmagic, by simpa using hone, htail⟩

theorem verifyProof2_iff (aux_block_hash : Hash32) (aux : AuxPow) (chain_id : UInt32) :
    (verifyProof2 sha256d aux_block_hash aux chain_id).proof2.ok = true ∧
      (verifyProof2 sha256d aux_block_hash aux chain_id).anti_grind.ok = true ↔
      Proof2 sha256d aux_block_hash aux chain_id := by
  constructor
  · rintro ⟨h2, hg⟩
    obtain ⟨hdepth, tail, htail⟩ := verifyProof2_tail sha256d (.inl h2)
    obtain ⟨hroot, hslot⟩ := (verifyProof2_of_tail sha256d hdepth htail).2.1 hg
    exact ⟨hdepth, tail, htail, hroot, hslot⟩
  · rintro ⟨hdepth, tail, htail, hroot, hslot⟩
    obtain ⟨h2, hg⟩ := @verifyProof2_of_tail sha256d aux_block_hash aux chain_id tail hdepth htail
    exact ⟨h2.2 hroot, hg.2 ⟨hroot, hslot⟩⟩

theorem checkHeaderFormat_iff (base : Bytes) (chain_id pow_limit_bits : UInt32) :
    (checkHeaderFormat base chain_id pow_limit_bits).ok = true ↔ HeaderFormat base chain_id pow_limit_bits := by
  unfold checkHeaderFormat HeaderFormat
  by_cases hlen : base.length = 80
  · by_cases hchain : leU32At base 0 >>> 16 = chain_id
    · cases htarget : expandTarget (leU32At base 72) with
      | none => simp [hlen, hchain, htarget]
      | some target =>
        cases hlimit : expandTarget pow_limit_bits with
        | none => simp [hlen, hchain, htarget]
        | some limit => by_cases hle : targetLeq target limit <;> simp [hlen, hchain, htarget, hle]
    · simp [hlen, hchain]
  · simp [hlen]

/-! ## The verdicts -/

theorem lightVerify_iff (base : Bytes) (aux : AuxPow) (chain_id pow_limit_bits : UInt32) (id : Hash32) :
    lightVerify sha256d base aux chain_id pow_limit_bits = .ok id ↔
      id = sha256d base ∧ HeaderFormat base chain_id pow_limit_bits ∧ Proof1 sha256d aux chain_id ∧
        Proof2 sha256d (sha256d base) aux chain_id := by
  rw [← checkHeaderFormat_iff, ← verifyProof1_iff, ← verifyProof2_iff]
  unfold lightVerify
  by_cases hf : (checkHeaderFormat base chain_id pow_limit_bits).ok = true
  · by_cases h1 : (verifyProof1 sha256d aux chain_id).ok = true
    · by_cases h2 : (verifyProof2 sha256d (sha256d base) aux chain_id).proof2.ok = true
      · by_cases hg : (verifyProof2 sha256d (sha256d base) aux chain_id).anti_grind.ok = true
        · simp [hf, h1, h2, hg, eq_comm]
        · simp [hf, h1, h2, hg]
      · simp [hf, h1, h2]
    · simp [hf, h1]
  · simp [hf]

theorem verifyAuxHeader_valid_iff (base : Bytes) (aux : AuxPow) (chain_id pow_limit_bits : UInt32) :
    (verifyAuxHeader sha256d base aux chain_id pow_limit_bits).valid = true ↔
      HeaderFormat base chain_id pow_limit_bits ∧ Proof1 sha256d aux chain_id ∧
        Proof2 sha256d (sha256d base) aux chain_id := by
  rw [← checkHeaderFormat_iff, ← verifyProof1_iff, ← verifyProof2_iff]
  unfold verifyAuxHeader
  by_cases hf : (checkHeaderFormat base chain_id pow_limit_bits).ok = true
  · simp [hf, and_assoc]
  · simp [hf]

/-- The report, the ingestor's gate and the guest's commitment check accept the
same headers and witnesses. -/
theorem verifiers_agree (base : Bytes) (aux : AuxPow) (chain_id pow_limit_bits : UInt32) :
    ((verifyAuxHeader sha256d base aux chain_id pow_limit_bits).valid = true ↔
      lightVerify sha256d base aux chain_id pow_limit_bits = .ok (sha256d base)) ∧
    (lightVerify sha256d base aux chain_id pow_limit_bits = .ok (sha256d base) ↔
      base.length = 80 ∧ leU32At base 0 >>> 16 = chain_id ∧
      (∃ target limit, expandTarget (leU32At base 72) = some target ∧ expandTarget pow_limit_bits = some limit ∧
        targetLeq target limit = true) ∧
      verifyAuxpowCommitment sha256d (sha256d base) aux chain_id = true) := by
  constructor
  · rw [verifyAuxHeader_valid_iff, lightVerify_iff]
    simp
  · rw [lightVerify_iff, verifyAuxpowCommitment_iff, HeaderFormat]
    constructor
    · rintro ⟨-, ⟨hlen, hchain, htarget⟩, h1, h2⟩
      exact ⟨hlen, hchain, htarget, h1, h2⟩
    · rintro ⟨hlen, hchain, htarget, h1, h2⟩
      exact ⟨rfl, ⟨hlen, hchain, htarget⟩, h1, h2⟩

end Sha

end PsobIndexer
