import PsobIndexer.Report
/-!
# Honest witnesses

A miner who commits a block as the protocol asks is accepted: at any depth, with
any nonce, whatever stands around the commitment in the coinbase, as long as the
magic occurs nowhere else in it.
-/
open Lib

namespace PsobIndexer

/-! ## Substring search -/

/-- `needle` stands in `hay` at position `i`. -/
def OccursAt (hay needle : Bytes) (i : Nat) : Prop :=
  i + needle.length ≤ hay.length ∧ (hay.drop i).take needle.length = needle

instance (hay needle : Bytes) (i : Nat) : Decidable (OccursAt hay needle i) :=
  inferInstanceAs (Decidable (_ ∧ _))

theorem occursAt_iff_span {hay needle : Bytes} {i : Nat} :
    OccursAt hay needle i ↔ Span hay i (i + needle.length) needle := by
  rw [← span_iff_getRange, getRange_eq_some, OccursAt, Nat.add_sub_cancel_left]
  constructor
  · rintro ⟨hle, he⟩
    exact ⟨by omega, hle, he.symm⟩
  · rintro ⟨-, hle, he⟩
    exact ⟨hle, he.symm⟩

/-- The search finds the first occurrence. -/
theorem findSubslice_eq_some {hay needle : Bytes} {i : Nat} :
    findSubslice hay needle = some i ↔ OccursAt hay needle i ∧ ∀ j < i, ¬ OccursAt hay needle j := by
  rw [findSubslice, List.findIdx?_eq_some_iff_getElem]
  simp only [windows, List.getElem_map, List.getElem_range, List.length_map, List.length_range, beq_iff_eq, OccursAt]
  constructor
  · rintro ⟨hlt, he, hfirst⟩
    refine ⟨⟨by omega, he⟩, ?_⟩
    rintro j hj ⟨-, hej⟩
    exact hfirst j hj hej
  · rintro ⟨⟨hle, he⟩, hfirst⟩
    refine ⟨by omega, he, ?_⟩
    intro j hj hej
    exact hfirst j hj ⟨by omega, hej⟩

theorem findSubslice_eq_none {hay needle : Bytes} :
    findSubslice hay needle = none ↔ ∀ i, ¬ OccursAt hay needle i := by
  simp only [findSubslice, List.findIdx?_eq_none_iff, windows, List.forall_mem_map, List.mem_range, beq_eq_false_iff_ne,
    OccursAt, not_and]
  constructor
  · intro h i hle
    exact h i (by omega)
  · intro h i hlt
    exact h i (by omega)

/-- An occurrence past a first part of the buffer. -/
theorem OccursAt.of_drop {hay needle : Bytes} {n i : Nat} (hne : needle ≠ []) (h : OccursAt (hay.drop n) needle i) :
    OccursAt hay needle (n + i) := by
  obtain ⟨hle, he⟩ := h
  have hpos := List.length_pos_iff.2 hne
  rw [List.length_drop] at hle
  exact ⟨by omega, by rwa [← List.drop_drop]⟩

/-- `needle` stands in `hay` exactly once. -/
def OccursOnce (hay needle : Bytes) : Prop := ∃! i, OccursAt hay needle i

/-- The only magic is found, and no second one after it. -/
theorem OccursOnce.found {hay needle : Bytes} {i : Nat} (hne : needle ≠ []) (h : OccursOnce hay needle)
    (hi : OccursAt hay needle i) :
    findSubslice hay needle = some i ∧ findSubslice (hay.drop (i + 1)) needle = none := by
  rw [findSubslice_eq_some, findSubslice_eq_none]
  refine ⟨⟨hi, ?_⟩, ?_⟩
  · intro j hj hocc
    exact absurd (h.unique hocc hi) (by omega)
  · intro j hocc
    exact absurd (h.unique (hocc.of_drop hne) hi) (by omega)

/-! ## The honest commitment -/

section Sha
variable (sha256d : Bytes → Hash32)

/-- What an honest coinbase carries after the magic. -/
def honestTail (root : Hash32) (depth : Nat) (nonce : UInt32) : Bytes :=
  root.reverse.val ++ leBytes 4 (2 ^ depth) ++ leU32 nonce

def honestCoinbase (before : Bytes) (root : Hash32) (depth : Nat) (nonce : UInt32) (after : Bytes) : Bytes :=
  before ++ AUXPOW_MAGIC ++ honestTail root depth nonce ++ after

theorem length_honestTail (root : Hash32) (depth : Nat) (nonce : UInt32) : (honestTail root depth nonce).length = 40 := by
  simp only [honestTail, List.length_append, root.reverse.property, length_leBytes, length_leU32]

theorem honestTail_root (root : Hash32) (depth : Nat) (nonce : UInt32) :
    (honestTail root depth nonce).take 32 = root.reverse.val := by
  rw [honestTail, List.append_assoc, List.take_left' root.reverse.property]

theorem honestTail_size (root : Hash32) {depth : Nat} (nonce : UInt32) (h : depth ≤ 30) :
    (leU32At (honestTail root depth nonce) 32).toNat = 2 ^ depth := by
  have hpow : 2 ^ depth < 2 ^ 32 := Nat.pow_lt_pow_right (by decide) (by omega)
  have hdrop : (honestTail root depth nonce).drop 32 = leBytes 4 (2 ^ depth) ++ leU32 nonce := by
    rw [honestTail, List.append_assoc, List.drop_left' root.reverse.property]
  rw [leU32At, hdrop, List.take_left' (length_leBytes 4 _), leNat_leBytes (by simpa using hpow),
    UInt32.toNat_ofNat_of_lt' hpow]

theorem honestTail_nonce (root : Hash32) (depth : Nat) (nonce : UInt32) :
    leU32At (honestTail root depth nonce) 36 = nonce := by
  have hdrop : (honestTail root depth nonce).drop 36 = leU32 nonce := by
    rw [honestTail, List.drop_left']
    rw [List.length_append, root.reverse.property, length_leBytes]
  rw [leU32At, hdrop, List.take_of_length_le (by rw [length_leU32]), leU32_roundtrip]

/-- The tail is what is read after the only magic. -/
theorem honestCoinbase_tail {before after : Bytes} {root : Hash32} {depth : Nat} {nonce : UInt32}
    (honce : OccursOnce (honestCoinbase before root depth nonce after) AUXPOW_MAGIC) :
    CommitmentTail (honestCoinbase before root depth nonce after) (honestTail root depth nonce) := by
  have hmagic : OccursAt (honestCoinbase before root depth nonce after) AUXPOW_MAGIC before.length := by
    rw [occursAt_iff_span, honestCoinbase, List.append_assoc (before ++ AUXPOW_MAGIC)]
    exact span_mid before AUXPOW_MAGIC _
  obtain ⟨hfound, hone⟩ := honce.found (List.cons_ne_nil _ _) hmagic
  refine ⟨before.length, hfound, hone, ?_⟩
  have hspan := span_mid (before ++ AUXPOW_MAGIC) (honestTail root depth nonce) after
  rwa [List.length_append, length_honestTail, ← span_iff_getRange] at hspan

/-- Every honest witness passes the commitment check. -/
theorem honest_witness_accepted (aux_block_hash : Hash32) (chain_id : UInt32) (chain_branch : List Hash32) (nonce : UInt32)
    (parent_branch : List Hash32) (before after : Bytes) (parent_header : ByteArr 80) (hchain : chain_id ≠ 8192)
    (hdepth : chain_branch.length ≤ 30) (hversion : leU32At parent_header.val 0 >>> 16 = 8192) :
    let chain_index := getExpectedIndex nonce chain_id (UInt32.ofNat chain_branch.length)
    let root := merkleFoldBranch sha256d aux_block_hash chain_branch chain_index
    let coinbase := before ++ AUXPOW_MAGIC ++ (root.reverse.val ++ leBytes 4 (2 ^ chain_branch.length) ++ leU32 nonce) ++
      after
    ByteArr.ofSlice 32 parent_header.val 36 = merkleFoldBranch sha256d (sha256d coinbase) parent_branch 0 →
    OccursOnce coinbase AUXPOW_MAGIC →
    verifyAuxpowCommitment sha256d aux_block_hash
      { coinbase_tx := coinbase
        parent_merkle_branch := parent_branch
        parent_index := 0
        chain_merkle_branch := chain_branch
        chain_index := chain_index
        parent_header := parent_header.val } chain_id = true := by
  intro chain_index root coinbase hroot honce
  rw [verifyAuxpowCommitment_iff, proof1_iff_parentChecked, proof2_iff_slotChecked]
  constructor
  · exact ⟨rfl, le_of_eq parent_header.property.symm, hversion, hchain.symm, hroot.symm⟩
  · refine ⟨hdepth, honestTail root chain_branch.length nonce, honestCoinbase_tail honce, ?_, ?_, ?_⟩
    · exact honestTail_root root chain_branch.length nonce
    · exact honestTail_size root nonce hdepth
    · rw [honestTail_nonce]

end Sha

/-! ## A block of chain 63 in a tree of four -/

/-- What stands before the magic in the coinbase. -/
def minedBefore : Bytes := leU32 1 ++ [1] ++ List.replicate 32 0 ++ List.replicate 4 0xff ++ [44]

/-- What stands after the nonce. -/
def minedAfter : Bytes := List.replicate 4 0xff ++ [0] ++ leU32 0

/-- The siblings on the way from slot 2 to the chain root. -/
def minedBranch : List Hash32 := [ByteArr.fill 32 0x22, ByteArr.fill 32 0x33]

/-- The parent block holds one more transaction. -/
def minedParentBranch : List Hash32 := [ByteArr.fill 32 0x44]

def minedNode : Hash32 := digest "a91c0f6f0334fe3847ac89ef9e9bfed69a5e3d4e90a020b6737899998089b80f"

def minedRoot : Hash32 := digest "ec38edeedcc5107b89c09080d2c857f2ffdd3fdf8b1b771c02b3d509279c9dc5"

def minedTxid : Hash32 := digest "c667bd05da172d29fae9dd856ee292abd72d0ce272310571f3c7df8d82bd8f20"

def minedParentRoot : Hash32 := digest "b71ef84a3979cd962713247c38e3d59a91519b9b0c23634a19e9632bcb539eb7"

def minedCoinbase : Bytes := honestCoinbase minedBefore minedRoot 2 5 minedAfter

/-- Double-SHA256 on the strings the two branches hash, zero elsewhere. -/
def minedSha (b : Bytes) : Hash32 :=
  if b = sampleId₁.val ++ List.replicate 32 0x22 then minedNode
  else if b = List.replicate 32 0x33 ++ minedNode.val then minedRoot
  else if b = minedCoinbase then minedTxid
  else if b = minedTxid.val ++ List.replicate 32 0x44 then minedParentRoot
  else ByteArr.fill 32 0

theorem minedIndex : getExpectedIndex 5 63 (UInt32.ofNat minedBranch.length) = 2 := by decide +kernel

theorem minedRoot_eq : merkleFoldBranch minedSha sampleId₁ minedBranch 2 = minedRoot := by decide +kernel

theorem minedCoinbase_once : OccursOnce minedCoinbase AUXPOW_MAGIC := by
  have hfound : OccursAt minedCoinbase AUXPOW_MAGIC 42 ∧ ∀ j < 92, OccursAt minedCoinbase AUXPOW_MAGIC j → j = 42 := by
    decide +kernel
  refine ⟨42, hfound.1, ?_⟩
  intro i hi
  have hlen : minedCoinbase.length = 95 := by decide +kernel
  have hmagic : AUXPOW_MAGIC.length = 4 := rfl
  have hle := hi.1
  rw [hlen, hmagic] at hle
  exact hfound.2 i (by omega) hi

/-- The block stands two levels down, at the slot nonce 5 gives chain 63. -/
theorem honest_witness_accepted_mined :
    verifyAuxpowCommitment minedSha sampleId₁
      { coinbase_tx := minedCoinbase
        parent_merkle_branch := minedParentBranch
        parent_index := 0
        chain_merkle_branch := minedBranch
        chain_index := 2
        parent_header := sampleParent minedParentRoot } 63 = true := by
  have h := honest_witness_accepted minedSha sampleId₁ 63 minedBranch 5 minedParentBranch minedBefore minedAfter
    ⟨sampleParent minedParentRoot, by decide +kernel⟩ (by decide) (by decide) (by decide +kernel)
  simp only [minedIndex, minedRoot_eq] at h
  exact h (by decide +kernel) minedCoinbase_once

end PsobIndexer
