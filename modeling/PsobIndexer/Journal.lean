import PsobIndexer.Lib.Abi
import PsobIndexer.Common
/-!
# Proof journals (`crates/common/src/lib.rs`)

The public outputs of the deposit and the withdrawal guest, as the contract
decodes them: static Solidity words back to back. The deposit encoder writes
into a zeroed array at fixed offsets, the withdrawal encoder appends words, and
both decoders read at offsets of their own. Encoding and decoding again gives
the journal; decoding accepts any bytes in the padding, so it can be undone only
where the padding is zero (`decoding_canonical_iff`).
-/
open Lib

namespace PsobIndexer

/-! ## The journals -/

/-- Public outputs of the deposit guest. -/
structure Journal where
  deposit_block_hash : Hash32
  deposit_txid : Hash32
  amount_sats : UInt64
  recipient : ByteArr 20
  confirmations : UInt32
  checkpoint_hash : Hash32
  pow_limit_bits : UInt32
  proven_work : Hash32
  custody_hash160 : ByteArr 20
  custody_epoch : UInt64
  chain_id : UInt32
  deriving DecidableEq

/-- Public outputs of the withdrawal guest. -/
structure WithdrawalJournal where
  withdrawal_id : Hash32
  recipient_hash160 : ByteArr 20
  payout_sats : UInt64
  checkpoint_hash : Hash32
  confirmations : UInt32
  pow_limit_bits : UInt32
  proven_work : Hash32
  chain_id : UInt32
  deriving DecidableEq

/-- A value right-aligned in 32 bytes. -/
def wordFromBe (bytes : Bytes) : ByteArr 32 := (ByteArr.fill 32 0).copyFrom (32 - bytes.length) bytes

def Journal.abiEncode (j : Journal) : ByteArr 352 :=
  let out := ByteArr.fill 352 0
  let out := out.copyFrom 0 j.deposit_block_hash.val
  let out := out.copyFrom 32 j.deposit_txid.val
  let out := out.copyFrom 88 (beU64 j.amount_sats)
  let out := out.copyFrom 108 j.recipient.val
  let out := out.copyFrom 156 (beU32 j.confirmations)
  let out := out.copyFrom 160 j.checkpoint_hash.val
  let out := out.copyFrom 220 (beU32 j.pow_limit_bits)
  let out := out.copyFrom 224 j.proven_work.val
  let out := out.copyFrom 256 j.custody_hash160.val
  let out := out.copyFrom 312 (beU64 j.custody_epoch)
  out.copyFrom 348 (beU32 j.chain_id)

def Journal.abiDecode (data : Bytes) : Except String Journal :=
  if data.length ≠ 352 then .error "journal must be 352 bytes"
  else .ok
    { deposit_block_hash := ByteArr.ofSlice 32 data 0
      deposit_txid := ByteArr.ofSlice 32 data 32
      amount_sats := beU64At data 88
      recipient := ByteArr.ofSlice 20 data 108
      confirmations := beU32At data 156
      checkpoint_hash := ByteArr.ofSlice 32 data 160
      pow_limit_bits := beU32At data 220
      proven_work := ByteArr.ofSlice 32 data 224
      custody_hash160 := ByteArr.ofSlice 20 data 256
      custody_epoch := beU64At data 312
      chain_id := beU32At data 348 }

def WithdrawalJournal.abiEncode (j : WithdrawalJournal) : Bytes :=
  j.withdrawal_id.val ++
    j.recipient_hash160.val ++ (ByteArr.fill 12 0).val ++
    (wordFromBe (beU64 j.payout_sats)).val ++
    j.checkpoint_hash.val ++
    (wordFromBe (beU32 j.confirmations)).val ++
    (wordFromBe (beU32 j.pow_limit_bits)).val ++
    j.proven_work.val ++
    (wordFromBe (beU32 j.chain_id)).val

def WithdrawalJournal.abiDecode (data : Bytes) : Except String WithdrawalJournal :=
  if data.length ≠ 256 then .error "withdrawal journal must be 256 bytes"
  else .ok
    { withdrawal_id := ByteArr.ofSlice 32 data 0
      recipient_hash160 := ByteArr.ofSlice 20 data 32
      payout_sats := beU64At data 88
      checkpoint_hash := ByteArr.ofSlice 32 data 96
      confirmations := beU32At data 156
      pow_limit_bits := beU32At data 188
      proven_work := ByteArr.ofSlice 32 data 192
      chain_id := beU32At data 252 }

/-! ## The words of a journal -/

/-- `bytes32`. -/
def bytes32 : Cell := .leftAligned 32

/-- `bytes20`. -/
def bytes20 : Cell := .leftAligned 20

/-- `address`. -/
def address : Cell := .rightAligned 20

/-- `uint64`. -/
def uint64 : Cell := .rightAligned 8

/-- `uint32`. -/
def uint32 : Cell := .rightAligned 4

/-- The Solidity types of the fields, in declaration order. -/
def Journal.cells : List Cell :=
  [bytes32, bytes32, uint64, address, uint32, bytes32, uint32, bytes32, bytes20, uint64, uint32]

/-- The fields, in declaration order. -/
def Journal.values (j : Journal) : List Bytes :=
  [j.deposit_block_hash.val, j.deposit_txid.val, beU64 j.amount_sats, j.recipient.val, beU32 j.confirmations,
    j.checkpoint_hash.val, beU32 j.pow_limit_bits, j.proven_work.val, j.custody_hash160.val, beU64 j.custody_epoch,
    beU32 j.chain_id]

def WithdrawalJournal.cells : List Cell := [bytes32, bytes20, uint64, bytes32, uint32, uint32, bytes32, uint32]

def WithdrawalJournal.values (j : WithdrawalJournal) : List Bytes :=
  [j.withdrawal_id.val, j.recipient_hash160.val, beU64 j.payout_sats, j.checkpoint_hash.val, beU32 j.confirmations,
    beU32 j.pow_limit_bits, j.proven_work.val, beU32 j.chain_id]

theorem Journal.fits (j : Journal) : Fits cells j.values := by
  simp only [Fits, values, List.map_cons, List.map_nil, ByteArr.length_val, length_beU64, length_beU32]
  rfl

theorem WithdrawalJournal.fits (j : WithdrawalJournal) : Fits cells j.values := by
  simp only [Fits, values, List.map_cons, List.map_nil, ByteArr.length_val, length_beU64, length_beU32]
  rfl

/-- The writes of the encoder leave the words of the fields. -/
theorem Journal.abiEncode_words (j : Journal) : j.abiEncode.val = abiWords cells j.values := by
  have hwrites := @copyFrom_foldl 352 0
    [(0, j.deposit_block_hash.val), (32, j.deposit_txid.val), (88, beU64 j.amount_sats), (108, j.recipient.val),
      (156, beU32 j.confirmations), (160, j.checkpoint_hash.val), (220, beU32 j.pow_limit_bits),
      (224, j.proven_work.val), (256, j.custody_hash160.val), (312, beU64 j.custody_epoch), (348, beU32 j.chain_id)]
    (by simp [InOrder]) (ByteArr.fill 352 0) [] rfl rfl
  have hgap : List.replicate 36 (0 : UInt8) = List.replicate 12 0 ++ List.replicate 24 0 := rfl
  rw [abiEncode]
  simp only [List.foldl_cons, List.foldl_nil] at hwrites
  rw [hwrites]
  simp [spread, abiWords, cells, values, Cell.word, bytes32, bytes20, address, uint64, uint32, Cell.rightAligned,
    Cell.leftAligned, Cell.len, hgap]

theorem wordFromBe_val {bytes : Bytes} (h : bytes.length ≤ 32) :
    (wordFromBe bytes).val = List.replicate (32 - bytes.length) 0 ++ bytes := by
  have hend : 32 - bytes.length + bytes.length = 32 := Nat.sub_add_cancel h
  have hwrite := @copyFrom_foldl 32 0 [(32 - bytes.length, bytes)] ⟨Nat.zero_le _, le_of_eq hend⟩ (ByteArr.fill 32 0) []
    rfl rfl
  rw [wordFromBe]
  simpa [spread, hend] using hwrite

theorem WithdrawalJournal.abiEncode_words (j : WithdrawalJournal) : j.abiEncode = abiWords cells j.values := by
  rw [abiEncode, wordFromBe_val (by simp), wordFromBe_val (by simp), wordFromBe_val (by simp), wordFromBe_val (by simp)]
  simp [abiWords, cells, values, Cell.word, bytes32, bytes20, uint64, uint32, Cell.rightAligned, Cell.leftAligned,
    Cell.len, ByteArr.fill]

-- from here on the encoder is known by its words
attribute [irreducible] Journal.abiEncode

/-! ## Decoding -/

theorem ofSlice_eq_iff {n o : Nat} {b : Bytes} {a : ByteArr n} (h : o + n ≤ b.length) :
    ByteArr.ofSlice n b o = a ↔ (b.drop o).take n = a.val := by
  rw [← ByteArr.ofSlice_val h, Subtype.ext_iff]

/-- Decoding takes the values out of the words. -/
theorem Journal.abiDecode_eq_ok {data : Bytes} {j : Journal} :
    abiDecode data = .ok j ↔ data.length = 352 ∧ payloads cells data = j.values := by
  by_cases hlen : data.length = 352
  · have hread : payloads cells data = j.values ↔
        (data.drop 0).take 32 = j.deposit_block_hash.val ∧ (data.drop 32).take 32 = j.deposit_txid.val ∧
          (data.drop 88).take 8 = beU64 j.amount_sats ∧ (data.drop 108).take 20 = j.recipient.val ∧
          (data.drop 156).take 4 = beU32 j.confirmations ∧ (data.drop 160).take 32 = j.checkpoint_hash.val ∧
          (data.drop 220).take 4 = beU32 j.pow_limit_bits ∧ (data.drop 224).take 32 = j.proven_work.val ∧
          (data.drop 256).take 20 = j.custody_hash160.val ∧ (data.drop 312).take 8 = beU64 j.custody_epoch ∧
          (data.drop 348).take 4 = beU32 j.chain_id := by
      simp [payloads, cells, values, Cell.payload, bytes32, bytes20, address, uint64, uint32, Cell.rightAligned,
        Cell.leftAligned, Cell.len, List.drop_take, List.take_take]
    rw [hread, abiDecode, if_neg (not_not.2 hlen), Except.ok.injEq]
    rw [← ofSlice_eq_iff (by omega), ← ofSlice_eq_iff (by omega), ← beU64At_eq_iff (by omega), ← ofSlice_eq_iff (by omega),
      ← beU32At_eq_iff (by omega), ← ofSlice_eq_iff (by omega), ← beU32At_eq_iff (by omega), ← ofSlice_eq_iff (by omega),
      ← ofSlice_eq_iff (by omega), ← beU64At_eq_iff (by omega), ← beU32At_eq_iff (by omega)]
    cases j
    simp only [Journal.mk.injEq, hlen, true_and]
  · rw [abiDecode, if_pos hlen]
    simp [hlen]

theorem WithdrawalJournal.abiDecode_eq_ok {data : Bytes} {j : WithdrawalJournal} :
    abiDecode data = .ok j ↔ data.length = 256 ∧ payloads cells data = j.values := by
  by_cases hlen : data.length = 256
  · have hread : payloads cells data = j.values ↔
        (data.drop 0).take 32 = j.withdrawal_id.val ∧ (data.drop 32).take 20 = j.recipient_hash160.val ∧
          (data.drop 88).take 8 = beU64 j.payout_sats ∧ (data.drop 96).take 32 = j.checkpoint_hash.val ∧
          (data.drop 156).take 4 = beU32 j.confirmations ∧ (data.drop 188).take 4 = beU32 j.pow_limit_bits ∧
          (data.drop 192).take 32 = j.proven_work.val ∧ (data.drop 252).take 4 = beU32 j.chain_id := by
      simp [payloads, cells, values, Cell.payload, bytes32, bytes20, uint64, uint32, Cell.rightAligned,
        Cell.leftAligned, Cell.len, List.drop_take, List.take_take]
    rw [hread, abiDecode, if_neg (not_not.2 hlen), Except.ok.injEq]
    rw [← ofSlice_eq_iff (by omega), ← ofSlice_eq_iff (by omega), ← beU64At_eq_iff (by omega), ← ofSlice_eq_iff (by omega),
      ← beU32At_eq_iff (by omega), ← beU32At_eq_iff (by omega), ← ofSlice_eq_iff (by omega), ← beU32At_eq_iff (by omega)]
    cases j
    simp only [WithdrawalJournal.mk.injEq, hlen, true_and]
  · rw [abiDecode, if_pos hlen]
    simp [hlen]

def Journal.codec : AbiCodec Journal where
  cells := cells
  values := values
  encode j := j.abiEncode.val
  decode := abiDecode
  fits := fits
  encode_words := abiEncode_words
  decode_eq_ok _ _ := abiDecode_eq_ok
  decode_ok data hlen := by
    have hlen : data.length = 352 := hlen
    rw [abiDecode, if_neg (not_not.2 hlen)]
    exact ⟨_, rfl⟩

def WithdrawalJournal.codec : AbiCodec WithdrawalJournal where
  cells := cells
  values := values
  encode := abiEncode
  decode := abiDecode
  fits := fits
  encode_words := abiEncode_words
  decode_eq_ok _ _ := abiDecode_eq_ok
  decode_ok data hlen := by
    have hlen : data.length = 256 := hlen
    rw [abiDecode, if_neg (not_not.2 hlen)]
    exact ⟨_, rfl⟩

theorem Journal.codec_decode : codec.decode = abiDecode := rfl

theorem Journal.codec_encode (j : Journal) : codec.encode j = j.abiEncode.val := rfl

theorem Journal.codec_size : 32 * codec.cells.length = 352 := rfl

theorem WithdrawalJournal.codec_decode : codec.decode = abiDecode := rfl

theorem WithdrawalJournal.codec_encode : codec.encode = abiEncode := rfl

theorem WithdrawalJournal.codec_size : 32 * codec.cells.length = 256 := rfl

/-- A deposit journal's words, written out. -/
def Journal.words (j : Journal) : List Bytes :=
  [j.deposit_block_hash.val, j.deposit_txid.val, List.replicate 24 0 ++ beU64 j.amount_sats,
    List.replicate 12 0 ++ j.recipient.val, List.replicate 28 0 ++ beU32 j.confirmations, j.checkpoint_hash.val,
    List.replicate 28 0 ++ beU32 j.pow_limit_bits, j.proven_work.val, j.custody_hash160.val ++ List.replicate 12 0,
    List.replicate 24 0 ++ beU64 j.custody_epoch, List.replicate 28 0 ++ beU32 j.chain_id]

/-- A withdrawal journal's words, written out. -/
def WithdrawalJournal.words (j : WithdrawalJournal) : List Bytes :=
  [j.withdrawal_id.val, j.recipient_hash160.val ++ List.replicate 12 0, List.replicate 24 0 ++ beU64 j.payout_sats,
    j.checkpoint_hash.val, List.replicate 28 0 ++ beU32 j.confirmations, List.replicate 28 0 ++ beU32 j.pow_limit_bits,
    j.proven_work.val, List.replicate 28 0 ++ beU32 j.chain_id]

theorem Journal.words_eq (j : Journal) : List.zipWith Cell.word cells j.values = j.words := by
  simp [words, cells, values, Cell.word, bytes32, bytes20, address, uint64, uint32, Cell.rightAligned, Cell.leftAligned,
    Cell.len]

theorem WithdrawalJournal.words_eq (j : WithdrawalJournal) : List.zipWith Cell.word cells j.values = j.words := by
  simp [words, cells, values, Cell.word, bytes32, bytes20, uint64, uint32, Cell.rightAligned, Cell.leftAligned, Cell.len]

/-- Both journals are decoded to what was encoded, and encoded as one word a field. -/
theorem journal_abi_round_trip :
    (∀ j : Journal, Journal.abiDecode j.abiEncode.val = .ok j ∧ j.abiEncode.val = j.words.flatten ∧
      ∀ word ∈ j.words, word.length = 32) ∧
      ∀ j : WithdrawalJournal, WithdrawalJournal.abiDecode j.abiEncode = .ok j ∧ j.abiEncode.length = 256 ∧
        j.abiEncode = j.words.flatten ∧ ∀ word ∈ j.words, word.length = 32 := by
  refine ⟨fun j => ⟨?_, ?_, ?_⟩, fun j => ⟨?_, ?_, ?_, ?_⟩⟩
  · rw [← Journal.codec_decode, ← Journal.codec_encode, Journal.codec.decode_encode]
  · rw [Journal.abiEncode_words, abiWords, Journal.words_eq]
  · rw [← Journal.words_eq]
    exact length_of_mem_words j.fits
  · rw [← WithdrawalJournal.codec_decode, ← WithdrawalJournal.codec_encode, WithdrawalJournal.codec.decode_encode]
  · rw [← WithdrawalJournal.codec_encode, WithdrawalJournal.codec.length_encode, WithdrawalJournal.codec_size]
  · rw [WithdrawalJournal.abiEncode_words, abiWords, WithdrawalJournal.words_eq]
  · rw [← WithdrawalJournal.words_eq]
    exact length_of_mem_words j.fits

/-! ## Canonical encodings -/

/-- What is decoded encodes to the same bytes exactly when the padding is zero. -/
theorem decoding_canonical_iff (data : Bytes) :
    ((∀ j, Journal.abiDecode data = .ok j → j.abiEncode.val = data) ↔
      (data.length = 352 → ∀ x ∈ paddings Journal.cells data, x = 0)) ∧
      ((∀ j, WithdrawalJournal.abiDecode data = .ok j → j.abiEncode = data) ↔
        (data.length = 256 → ∀ x ∈ paddings WithdrawalJournal.cells data, x = 0)) := by
  have hdeposit := Journal.codec.canonical_iff data
  have hwithdrawal := WithdrawalJournal.codec.canonical_iff data
  rw [Journal.codec_size, Journal.codec_decode] at hdeposit
  rw [WithdrawalJournal.codec_size, WithdrawalJournal.codec_decode, WithdrawalJournal.codec_encode] at hwithdrawal
  exact ⟨hdeposit, hwithdrawal⟩

/-- 352 zero bytes but for the first byte of the third word's padding. -/
def dirtyJournal : Bytes := (List.replicate 352 0).set 64 1

/-- Two byte strings, one journal; only the clean one is its encoding. -/
theorem dirty_padding_decodes :
    (∃ j, Journal.abiDecode dirtyJournal = .ok j ∧ Journal.abiDecode (List.replicate 352 0) = .ok j ∧
      j.abiEncode.val ≠ dirtyJournal) ∧ dirtyJournal ≠ List.replicate 352 0 := by
  refine ⟨⟨⟨ByteArr.fill 32 0, ByteArr.fill 32 0, 0, ByteArr.fill 20 0, 0, ByteArr.fill 32 0, 0, ByteArr.fill 32 0,
    ByteArr.fill 20 0, 0, 0⟩, ?_⟩, ?_⟩
  · decide +kernel
  · decide +kernel

end PsobIndexer
