import PsobIndexer.Lib.Shift
import PsobIndexer.Agreement
import PsobIndexer.Guest
/-!
# The report explorers show (`src/verify.rs`)

A report carries a flag for each step and the two chain roots as hex. It starts
with every proof marked ok and is filled in after the header check. Each flag is
compared here with what it stands for, and each root field with the root it is
named after.
-/
open Lib

namespace PsobIndexer

/-- Nothing was checked, for the reason `fatal`. -/
def VerificationReport.failed (chain_id : UInt32) (fatal : String) : VerificationReport where
  valid := false
  chain_id := chain_id
  block_hash := ""
  parent_hash := ""
  parent_chain_id := none
  header_format := .err fatal
  proof1_coinbase_to_parent_root := .err "skipped: fatal parse error"
  proof2_aux_to_chain_root := .err "skipped: fatal parse error"
  anti_grind_lcg_slot := .err "skipped: fatal parse error"
  chain_root_hex := ""
  coinbase_root_hex := ""
  chain_branch_depth := 0
  chain_index := 0
  n_size := 0
  nonce := 0
  fatal_error := some fatal

section Sha
variable (sha256d : Bytes → Hash32)

/-- Verify a raw payload. -/
def verifyAuxpowWire (w : Nat) (wire : Bytes) (chain_id pow_limit_bits : UInt32) :
    Except AuxPowParseError VerificationReport := do
  let (base, aux) ← parseAuxpow w wire
  return verifyAuxHeader sha256d base.val aux chain_id pow_limit_bits

/-- Verify an assembled header, the form the store keeps. -/
def verifyHeader (header : BlockHeader) (chain_id pow_limit_bits : UInt32) : VerificationReport :=
  match header.aux with
  | some aux => verifyAuxHeader sha256d header.raw aux chain_id pow_limit_bits
  | none => .failed chain_id "header has no AuxPoW witness (PSob requires merge-mined blocks)"

/-! ## What each flag stands for -/

/-- Proof 1, spelled out over the parent header's bytes. -/
structure ParentChecked (aux : AuxPow) (chain_id : UInt32) : Prop where
  index : aux.parent_index = 0
  length : 80 ≤ aux.parent_header.length
  parent_chain : leU32At aux.parent_header 0 >>> 16 = LTC_CHAIN_ID
  other_chain : LTC_CHAIN_ID ≠ chain_id
  folds : merkleFoldBranch sha256d (sha256d aux.coinbase_tx) aux.parent_merkle_branch aux.parent_index =
    ByteArr.ofSlice 32 aux.parent_header 36

/-- Proof 2: the block folds to the root after the only magic. -/
def RootChecked (aux_block_hash : Hash32) (aux : AuxPow) : Prop :=
  aux.chain_merkle_branch.length ≤ 30 ∧
    ∃ tail, CommitmentTail aux.coinbase_tx tail ∧ RootCommitted sha256d aux_block_hash aux tail

/-- Anti-grind: moreover the size is `2^depth` and the index is the nonce's slot. -/
def SlotChecked (aux_block_hash : Hash32) (aux : AuxPow) (chain_id : UInt32) : Prop :=
  aux.chain_merkle_branch.length ≤ 30 ∧
    ∃ tail, CommitmentTail aux.coinbase_tx tail ∧ RootCommitted sha256d aux_block_hash aux tail ∧
      (leU32At tail 32).toNat = 2 ^ aux.chain_merkle_branch.length ∧
      aux.chain_index = getExpectedIndex (leU32At tail 36) chain_id (UInt32.ofNat aux.chain_merkle_branch.length)

/-- No flag of the report is set without its step holding of the header. -/
structure FlagsChecked (report : VerificationReport) (header : BlockHeader) (chain_id : UInt32) : Prop where
  proof1 : report.proof1_coinbase_to_parent_root.ok = true → ∃ aux, header.aux = some aux ∧
    ParentChecked sha256d aux chain_id
  proof2 : report.proof2_aux_to_chain_root.ok = true → ∃ aux, header.aux = some aux ∧
    RootChecked sha256d (sha256d header.raw) aux
  anti_grind : report.anti_grind_lcg_slot.ok = true → ∃ aux, header.aux = some aux ∧
    SlotChecked sha256d (sha256d header.raw) aux chain_id

theorem parentChainId_eq_some {aux : AuxPow} (h : 80 ≤ aux.parent_header.length) (pid : UInt32) :
    aux.parentChainId = some pid ↔ leU32At aux.parent_header 0 >>> 16 = pid := by
  have hrange : getRange aux.parent_header 0 4 = some (aux.parent_header.take 4) := by
    rw [getRange_eq_some]
    exact ⟨by omega, by omega, rfl⟩
  simp only [AuxPow.parentChainId, hrange, Option.map_some, Option.some.injEq, leU32At, List.drop_zero]

theorem parentMerkleRoot_eq_some {aux : AuxPow} {root : Hash32} :
    aux.parentMerkleRoot = some root ↔
      80 ≤ aux.parent_header.length ∧ root = ByteArr.ofSlice 32 aux.parent_header 36 := by
  unfold AuxPow.parentMerkleRoot
  split
  · rename_i hlen
    simp
    omega
  · rename_i hlen
    simp only [Option.some.injEq, eq_comm, iff_and_self]
    omega

theorem proof1_iff_parentChecked (aux : AuxPow) (chain_id : UInt32) :
    Proof1 sha256d aux chain_id ↔ ParentChecked sha256d aux chain_id := by
  constructor
  · rintro ⟨hindex, hpid, hother, hroot⟩
    obtain ⟨hlen, hfold⟩ := parentMerkleRoot_eq_some.1 hroot
    exact ⟨hindex, hlen, (parentChainId_eq_some hlen _).1 hpid, hother, hfold⟩
  · rintro ⟨hindex, hlen, hpid, hother, hfold⟩
    exact ⟨hindex, (parentChainId_eq_some hlen _).2 hpid, hother, parentMerkleRoot_eq_some.2 ⟨hlen, hfold⟩⟩

theorem proof2_iff_slotChecked (aux_block_hash : Hash32) (aux : AuxPow) (chain_id : UInt32) :
    Proof2 sha256d aux_block_hash aux chain_id ↔ SlotChecked sha256d aux_block_hash aux chain_id := by
  refine and_congr_right fun hdepth => exists_congr fun tail => and_congr_right fun _ => and_congr_right fun _ => ?_
  rw [SlotPinned, ← UInt32.toNat_inj, toNat_one_shl (by omega)]

theorem SlotChecked.root {aux_block_hash : Hash32} {aux : AuxPow} {chain_id : UInt32}
    (h : SlotChecked sha256d aux_block_hash aux chain_id) : RootChecked sha256d aux_block_hash aux := by
  obtain ⟨hdepth, tail, htail, hroot, -⟩ := h
  exact ⟨hdepth, tail, htail, hroot⟩

/-- Proof 2's flag alone. -/
theorem verifyProof2_root_iff (aux_block_hash : Hash32) (aux : AuxPow) (chain_id : UInt32) :
    (verifyProof2 sha256d aux_block_hash aux chain_id).proof2.ok = true ↔ RootChecked sha256d aux_block_hash aux := by
  constructor
  · intro h
    obtain ⟨hdepth, tail, htail⟩ := verifyProof2_tail sha256d (.inl h)
    exact ⟨hdepth, tail, htail, (verifyProof2_of_tail sha256d hdepth htail).1.1 h⟩
  · rintro ⟨hdepth, tail, htail, hroot⟩
    exact (verifyProof2_of_tail sha256d hdepth htail).1.2 hroot

/-- The anti-grind flag alone; it is set only where proof 2's is. -/
theorem verifyProof2_slot_iff (aux_block_hash : Hash32) (aux : AuxPow) (chain_id : UInt32) :
    (verifyProof2 sha256d aux_block_hash aux chain_id).anti_grind.ok = true ↔
      SlotChecked sha256d aux_block_hash aux chain_id := by
  rw [← proof2_iff_slotChecked]
  constructor
  · intro h
    obtain ⟨hdepth, tail, htail⟩ := verifyProof2_tail sha256d (.inr h)
    exact ⟨hdepth, tail, htail, (verifyProof2_of_tail sha256d hdepth htail).2.1 h⟩
  · rintro ⟨hdepth, tail, htail, hslot⟩
    exact (verifyProof2_of_tail sha256d hdepth htail).2.2 hslot

/-! ## The flags -/

/-- Past the header check, each flag is exactly its step. -/
theorem flagsChecked_of_format {base : Bytes} {chain_id pow_limit_bits : UInt32} (aux : AuxPow)
    (h : HeaderFormat base chain_id pow_limit_bits) :
    FlagsChecked sha256d (verifyAuxHeader sha256d base aux chain_id pow_limit_bits) ⟨base, some aux⟩ chain_id := by
  have hok := (checkHeaderFormat_iff base chain_id pow_limit_bits).2 h
  constructor
  · intro hflag
    simp only [verifyAuxHeader, hok, not_true_eq_false, if_false] at hflag
    exact ⟨aux, rfl, (proof1_iff_parentChecked sha256d aux chain_id).1 ((verifyProof1_iff sha256d aux chain_id).1 hflag)⟩
  · intro hflag
    simp only [verifyAuxHeader, hok, not_true_eq_false, if_false] at hflag
    exact ⟨aux, rfl, (verifyProof2_root_iff sha256d _ aux chain_id).1 hflag⟩
  · intro hflag
    simp only [verifyAuxHeader, hok, not_true_eq_false, if_false] at hflag
    exact ⟨aux, rfl, (verifyProof2_slot_iff sha256d _ aux chain_id).1 hflag⟩

/-- A report that stops at the header check shows every later step as ok. -/
theorem flags_of_bad_format {base : Bytes} {chain_id pow_limit_bits : UInt32} (aux : AuxPow)
    (h : ¬ HeaderFormat base chain_id pow_limit_bits) :
    let report := verifyAuxHeader sha256d base aux chain_id pow_limit_bits
    report.proof1_coinbase_to_parent_root.ok = true ∧ report.proof2_aux_to_chain_root.ok = true ∧
      report.anti_grind_lcg_slot.ok = true := by
  rw [← checkHeaderFormat_iff] at h
  simp only [verifyAuxHeader, h, Bool.false_eq_true, not_false_eq_true, if_true, StepResult.pass_ok, and_self]

theorem flagsChecked_aux_iff (base : Bytes) (aux : AuxPow) (chain_id pow_limit_bits : UInt32) :
    FlagsChecked sha256d (verifyAuxHeader sha256d base aux chain_id pow_limit_bits) ⟨base, some aux⟩ chain_id ↔
      HeaderFormat base chain_id pow_limit_bits ∨
        ParentChecked sha256d aux chain_id ∧ SlotChecked sha256d (sha256d base) aux chain_id := by
  constructor
  · intro h
    by_cases hformat : HeaderFormat base chain_id pow_limit_bits
    · exact .inl hformat
    · obtain ⟨h1, -, h3⟩ := flags_of_bad_format sha256d aux hformat
      obtain ⟨a, ha, hparent⟩ := h.proof1 h1
      obtain ⟨a', ha', hslot⟩ := h.anti_grind h3
      cases ha
      cases ha'
      exact .inr ⟨hparent, hslot⟩
  · rintro (hformat | ⟨hparent, hslot⟩)
    · exact flagsChecked_of_format sha256d aux hformat
    · exact ⟨fun _ => ⟨aux, rfl, hparent⟩, fun _ => ⟨aux, rfl, hslot.root⟩, fun _ => ⟨aux, rfl, hslot⟩⟩

/-- The flags of a report can be trusted exactly when the header check passed, or
when the witness is good whatever the header. A header without a witness gets a
report with no flag set. -/
theorem flags_checked_iff (base : Bytes) (aux : AuxPow) (header : BlockHeader) (chain_id pow_limit_bits : UInt32) :
    (FlagsChecked sha256d (verifyAuxHeader sha256d base aux chain_id pow_limit_bits) ⟨base, some aux⟩ chain_id ↔
      HeaderFormat base chain_id pow_limit_bits ∨
        ParentChecked sha256d aux chain_id ∧ SlotChecked sha256d (sha256d base) aux chain_id) ∧
    (FlagsChecked sha256d (verifyHeader sha256d header chain_id pow_limit_bits) header chain_id ↔
      ∀ a, header.aux = some a → HeaderFormat header.raw chain_id pow_limit_bits ∨
        ParentChecked sha256d a chain_id ∧ SlotChecked sha256d (sha256d header.raw) a chain_id) := by
  refine ⟨flagsChecked_aux_iff sha256d base aux chain_id pow_limit_bits, ?_⟩
  obtain ⟨raw, haux⟩ := header
  cases haux with
  | some a =>
    have h := flagsChecked_aux_iff sha256d raw a chain_id pow_limit_bits
    constructor
    · intro hflags a' ha'
      cases ha'
      exact h.1 hflags
    · intro hcond
      exact h.2 (hcond a rfl)
  | none =>
    constructor
    · intro _ a ha
      cases ha
    · intro _
      constructor <;> intro h <;> cases h

end Sha

/-- A witness whose coinbase is not the generation transaction. -/
def strayAux : AuxPow := { sampleAux sampleId₁ sampleTxid₁ with parent_index := 1 }

/-- Checked as a block of chain 50, a header of chain 63 stops the report early:
proof 1 reads ok, and its witness was not looked at. -/
theorem unchecked_flag_ok :
    let report := verifyAuxHeader sampleSha sampleBase₁.val strayAux 50 CHAIN_POW_LIMIT_BITS
    report.proof1_coinbase_to_parent_root.ok = true ∧
      ¬ FlagsChecked sampleSha report ⟨sampleBase₁.val, some strayAux⟩ 50 := by
  have hflag : (verifyAuxHeader sampleSha sampleBase₁.val strayAux 50
      CHAIN_POW_LIMIT_BITS).proof1_coinbase_to_parent_root.ok = true := by decide +kernel
  refine ⟨hflag, fun h => ?_⟩
  obtain ⟨aux, haux, hparent⟩ := h.proof1 hflag
  cases haux
  exact absurd hparent.index (by decide)

/-! ## The roots -/

section Sha
variable (sha256d : Bytes → Hash32)

/-- The root whose bytes, last byte first, follow the magic. -/
def committedRoot (tail : Bytes) : Hash32 := ByteArr.reverse (ByteArr.ofSlice 32 tail 0)

/-- The root fields show the folded root and the committed one in display order,
and are equal exactly when proof 2 passed. -/
structure RootsShown (report : VerificationReport) (aux_block_hash : Hash32) (aux : AuxPow) (tail : Bytes) : Prop where
  chain_root : report.chain_root_hex =
    hashDisplay (merkleFoldBranch sha256d aux_block_hash aux.chain_merkle_branch aux.chain_index)
  coinbase_root : report.coinbase_root_hex = hashDisplay (committedRoot tail)
  agree : report.chain_root_hex = report.coinbase_root_hex ↔ report.proof2_aux_to_chain_root.ok = true

/-- The commitment is to the root whose reversed bytes follow the magic. -/
theorem rootCommitted_iff {aux_block_hash : Hash32} {aux : AuxPow} {tail : Bytes} (hlen : tail.length = 40) :
    RootCommitted sha256d aux_block_hash aux tail ↔
      committedRoot tail = merkleFoldBranch sha256d aux_block_hash aux.chain_merkle_branch aux.chain_index := by
  have hval : (ByteArr.ofSlice 32 tail 0).val = tail.take 32 := by
    rw [ByteArr.ofSlice_val (by omega), List.drop_zero]
  rw [RootCommitted, ← hval, ← Subtype.ext_iff, committedRoot]
  constructor
  · intro h
    rw [h, ByteArr.reverse_reverse]
  · intro h
    rw [← h, ByteArr.reverse_reverse]

theorem CommitmentTail.length {cb tail : Bytes} (h : CommitmentTail cb tail) : tail.length = 40 := by
  obtain ⟨magic_at, -, -, hrange⟩ := h
  exact getRange_length hrange

/-- With the magic read, what proof 2 hands to the root fields: the committed
bytes where the roots agree, nothing where they differ. -/
theorem verifyProof2_committed {aux_block_hash : Hash32} {aux : AuxPow} {chain_id : UInt32} {tail : Bytes}
    (hdepth : aux.chain_merkle_branch.length ≤ 30) (htail : CommitmentTail aux.coinbase_tx tail) :
    (verifyProof2 sha256d aux_block_hash aux chain_id).committed =
      if committedRoot tail = merkleFoldBranch sha256d aux_block_hash aux.chain_merkle_branch aux.chain_index then
        some (committedRoot tail).reverse
      else none := by
  have hlen := htail.length
  obtain ⟨magic_at, hmagic, hone, hrange⟩ := htail
  have hdepth' : ¬ aux.chain_merkle_branch.length > 30 := by omega
  simp only [verifyProof2, hdepth', if_false, hmagic, hone, Option.isSome_none, Bool.false_eq_true, hrange]
  by_cases hroot : committedRoot tail = merkleFoldBranch sha256d aux_block_hash aux.chain_merkle_branch aux.chain_index
  · rw [if_pos hroot, ← hroot, committedRoot, ByteArr.reverse_reverse, if_neg (by simp)]
  · rw [if_neg hroot, if_pos]
    intro he
    exact hroot (by rw [committedRoot, he, ByteArr.reverse_reverse])

/-- The two root fields of a report that got past the header check. -/
theorem verifyAuxHeader_roots {base : Bytes} {aux : AuxPow} {chain_id pow_limit_bits : UInt32} {tail : Bytes}
    (hformat : HeaderFormat base chain_id pow_limit_bits) (hdepth : aux.chain_merkle_branch.length ≤ 30)
    (htail : CommitmentTail aux.coinbase_tx tail) :
    let report := verifyAuxHeader sha256d base aux chain_id pow_limit_bits
    let root := merkleFoldBranch sha256d (sha256d base) aux.chain_merkle_branch aux.chain_index
    report.chain_root_hex = report.coinbase_root_hex ∧
      report.coinbase_root_hex = (if committedRoot tail = root then hashDisplay root.reverse else "") ∧
      (report.proof2_aux_to_chain_root.ok = true ↔ committedRoot tail = root) := by
  have hok := (checkHeaderFormat_iff base chain_id pow_limit_bits).2 hformat
  simp only [verifyAuxHeader, hok, not_true_eq_false, if_false]
  refine ⟨trivial, ?_, ?_⟩
  · rw [verifyProof2_committed sha256d hdepth htail]
    split
    · rename_i hroot
      rw [hroot, Option.map_some, Option.getD_some]
    · rfl
  · rw [(verifyProof2_of_tail sha256d hdepth htail).1, rootCommitted_iff sha256d htail.length]

/-- The root fields are the real roots exactly when the roots agree and read the
same in both byte orders: the code reverses bytes that already stand in display
order, and shows nothing where the roots differ. -/
theorem roots_shown_iff (w : Nat) (wire : Bytes) (chain_id pow_limit_bits : UInt32) (base : ByteArr 80) (aux : AuxPow)
    (hparse : parseAuxpow w wire = .ok (base, aux)) (hformat : HeaderFormat base.val chain_id pow_limit_bits)
    (hdepth : aux.chain_merkle_branch.length ≤ 30) (tail : Bytes) (htail : CommitmentTail aux.coinbase_tx tail) :
    ∃ report, verifyAuxpowWire sha256d w wire chain_id pow_limit_bits = .ok report ∧
      (RootsShown sha256d report (sha256d base.val) aux tail ↔
        committedRoot tail = merkleFoldBranch sha256d (sha256d base.val) aux.chain_merkle_branch aux.chain_index ∧
          (committedRoot tail).reverse = committedRoot tail) := by
  refine ⟨verifyAuxHeader sha256d base.val aux chain_id pow_limit_bits, ?_, ?_⟩
  · rw [verifyAuxpowWire, hparse]
    rfl
  · obtain ⟨heq, hshown, hproof2⟩ := verifyAuxHeader_roots sha256d hformat hdepth htail
    constructor
    · intro h
      have hroot := hproof2.1 (h.agree.1 heq)
      have hdisplay := h.coinbase_root
      rw [hshown, if_pos hroot, ← hroot] at hdisplay
      exact ⟨hroot, hashDisplay_inj.1 hdisplay⟩
    · rintro ⟨hroot, hrev⟩
      rw [if_pos hroot, ← hroot, hrev] at hshown
      exact ⟨by rw [heq, hshown, hroot], hshown, by simp only [heq, hproof2, hroot]⟩

end Sha

/-- What follows the magic in the first sample block's coinbase. -/
def sampleTail : Bytes := sampleId₁.reverse.val ++ leU32 1 ++ leU32 0

theorem sampleTail_commitment : CommitmentTail (sampleAux sampleId₁ sampleTxid₁).coinbase_tx sampleTail :=
  ⟨42, by decide +kernel, by decide +kernel, by decide +kernel⟩

theorem format_sample₁ : HeaderFormat sampleBase₁.val 63 CHAIN_POW_LIMIT_BITS := by
  rw [← checkHeaderFormat_iff]
  decide +kernel

theorem roots_shown_sample :
    ∃ report, verifyAuxpowWire sampleSha 64 (sampleWire (ByteArr.fill 32 0) sampleId₁ sampleTxid₁) 63
        CHAIN_POW_LIMIT_BITS = .ok report ∧
      (RootsShown sampleSha report (sampleSha sampleBase₁.val) (sampleAux sampleId₁ sampleTxid₁) sampleTail ↔
        committedRoot sampleTail = sampleId₁ ∧ sampleId₁.reverse = sampleId₁) := by
  have hid : sampleSha sampleBase₁.val = sampleId₁ := by decide +kernel
  have hroot : committedRoot sampleTail = sampleId₁ := by decide +kernel
  obtain ⟨report, hreport, hiff⟩ := roots_shown_iff sampleSha 64 (sampleWire (ByteArr.fill 32 0) sampleId₁ sampleTxid₁) 63
    CHAIN_POW_LIMIT_BITS sampleBase₁ (sampleAux sampleId₁ sampleTxid₁) parse_sample₁ format_sample₁ (by decide) sampleTail
    sampleTail_commitment
  refine ⟨report, hreport, ?_⟩
  rw [hiff, hroot, hid]
  rfl

/-- On a valid block the root fields show the root's bytes in the wrong order. -/
theorem roots_shown_reversed :
    parseAuxpow 64 (sampleWire (ByteArr.fill 32 0) sampleId₁ sampleTxid₁) =
      .ok (sampleBase₁, sampleAux sampleId₁ sampleTxid₁) ∧
    HeaderFormat sampleBase₁.val 63 CHAIN_POW_LIMIT_BITS ∧
    CommitmentTail (sampleAux sampleId₁ sampleTxid₁).coinbase_tx sampleTail ∧
    ∃ report, verifyAuxpowWire sampleSha 64 (sampleWire (ByteArr.fill 32 0) sampleId₁ sampleTxid₁) 63
        CHAIN_POW_LIMIT_BITS = .ok report ∧ report.valid = true ∧
      ¬ RootsShown sampleSha report (sampleSha sampleBase₁.val) (sampleAux sampleId₁ sampleTxid₁) sampleTail := by
  refine ⟨parse_sample₁, format_sample₁, sampleTail_commitment,
    verifyAuxHeader sampleSha sampleBase₁.val (sampleAux sampleId₁ sampleTxid₁) 63 CHAIN_POW_LIMIT_BITS, ?_, ?_, ?_⟩
  · rw [verifyAuxpowWire, parse_sample₁]
    rfl
  · decide +kernel
  · intro h
    have hroot : committedRoot sampleTail = sampleSha sampleBase₁.val := by decide +kernel
    obtain ⟨-, hshown, -⟩ := verifyAuxHeader_roots sampleSha format_sample₁ (by decide) sampleTail_commitment
    rw [sampleAux, merkleFoldBranch, if_pos hroot] at hshown
    have hdisplay := h.coinbase_root
    rw [sampleAux, hshown, hroot] at hdisplay
    exact absurd (hashDisplay_inj.1 hdisplay) (by decide +kernel)

end PsobIndexer
