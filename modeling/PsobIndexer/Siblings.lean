import PsobIndexer.Agreement
/-!
# Proof-of-Sibling binding

Two witnesses under the same parent header commit to one chain root, and one
chain has one block under a parent. Collision resistance is not assumed: the
theorem names the byte strings the two checks hash and concludes with two of
them colliding, or with a 64-byte coinbase that reads as an inner node.
-/
open Lib

namespace PsobIndexer

/-- Two distinct strings of `xs` with one digest. -/
def Collision (sha256d : Bytes → Hash32) (xs : List Bytes) : Prop :=
  ∃ x ∈ xs, ∃ y ∈ xs, x ≠ y ∧ sha256d x = sha256d y

theorem eq_of_no_collision {sha256d : Bytes → Hash32} {xs : List Bytes} (h : ¬ Collision sha256d xs) {x y : Bytes}
    (hx : x ∈ xs) (hy : y ∈ xs) (he : sha256d x = sha256d y) : x = y := by
  by_contra hne
  exact h ⟨x, hx, y, hy, hne, he⟩

section Sha
variable (sha256d : Bytes → Hash32)

/-! ## What a verification hashes -/

/-- The buffers `merkleFoldBranch` hashes, in order. -/
def foldInputs (leaf : Hash32) : List Hash32 → UInt32 → List Bytes
  | [], _ => []
  | sib :: branch, idx =>
    foldBuf leaf sib idx :: foldInputs (sha256d (foldBuf leaf sib idx)) branch (idx >>> 1)

/-- Every byte string `verifyAuxpowCommitment` hashes on its way to `true`. -/
def hashedBy (aux_block_hash : Hash32) (aux : AuxPow) : List Bytes :=
  aux.coinbase_tx :: (foldInputs sha256d (sha256d aux.coinbase_tx) aux.parent_merkle_branch aux.parent_index ++
    foldInputs sha256d aux_block_hash aux.chain_merkle_branch aux.chain_index)

theorem length_foldBuf (acc sib : Hash32) (idx : UInt32) : (foldBuf acc sib idx).length = 64 := by
  unfold foldBuf
  split <;> rw [List.length_append, acc.property, sib.property]

theorem foldBuf_inj {acc sib acc' sib' : Hash32} {idx : UInt32} (h : foldBuf acc sib idx = foldBuf acc' sib' idx) :
    acc = acc' ∧ sib = sib' := by
  unfold foldBuf at h
  split at h
  · obtain ⟨ha, hs⟩ := List.append_inj h (by rw [acc.property, acc'.property])
    exact ⟨Subtype.ext ha, Subtype.ext hs⟩
  · obtain ⟨hs, ha⟩ := List.append_inj h (by rw [sib.property, sib'.property])
    exact ⟨Subtype.ext ha, Subtype.ext hs⟩

/-! ## Folds of equal depth -/

/-- Equal depth, equal index, equal root: the leaf and the branch are equal. -/
theorem merkleFold_inj {xs : List Bytes} (hc : ¬ Collision sha256d xs) (b b' : List Hash32) :
    ∀ (leaf leaf' : Hash32) (idx : UInt32), b.length = b'.length →
      (∀ x ∈ foldInputs sha256d leaf b idx, x ∈ xs) → (∀ x ∈ foldInputs sha256d leaf' b' idx, x ∈ xs) →
      merkleFoldBranch sha256d leaf b idx = merkleFoldBranch sha256d leaf' b' idx → leaf = leaf' ∧ b = b' := by
  induction b generalizing b' with
  | nil =>
    intro leaf leaf' idx hlen _ _ hroot
    obtain rfl := List.length_eq_zero_iff.1 hlen.symm
    exact ⟨hroot, rfl⟩
  | cons sib b ih =>
    intro leaf leaf' idx hlen hin hin' hroot
    obtain ⟨sib', b', rfl⟩ := List.exists_cons_of_length_eq_add_one hlen.symm
    simp only [foldInputs, List.mem_cons, forall_eq_or_imp] at hin hin'
    obtain ⟨hacc, hb⟩ := ih b' _ _ _ (by simpa using hlen) hin.2 hin'.2 hroot
    obtain ⟨hleaf, hsib⟩ := foldBuf_inj (eq_of_no_collision hc hin.1 hin'.1 hacc)
    exact ⟨hleaf, by rw [hsib, hb]⟩

/-! ## Folds of the parent branch -/

theorem merkleFold_append_zero (leaf : Hash32) (b b' : List Hash32) :
    merkleFoldBranch sha256d leaf (b ++ b') 0 = merkleFoldBranch sha256d (merkleFoldBranch sha256d leaf b 0) b' 0 := by
  induction b generalizing leaf with
  | nil => rfl
  | cons sib b ih => exact ih (sha256d (foldBuf leaf sib 0))

theorem foldInputs_append_zero (leaf : Hash32) (b b' : List Hash32) :
    foldInputs sha256d leaf (b ++ b') 0 =
      foldInputs sha256d leaf b 0 ++ foldInputs sha256d (merkleFoldBranch sha256d leaf b 0) b' 0 := by
  induction b generalizing leaf with
  | nil => rfl
  | cons sib b ih => exact congrArg (foldBuf leaf sib 0 :: ·) (ih (sha256d (foldBuf leaf sib 0)))

/-- A fold of at least one level is the digest of one of its 64-byte buffers. -/
theorem merkleFold_digest (leaf : Hash32) (b : List Hash32) (idx : UInt32) (hb : b ≠ []) :
    ∃ buf ∈ foldInputs sha256d leaf b idx, buf.length = 64 ∧ merkleFoldBranch sha256d leaf b idx = sha256d buf := by
  induction b generalizing leaf idx with
  | nil => exact absurd rfl hb
  | cons sib b ih =>
    by_cases hb' : b = []
    · subst hb'
      exact ⟨foldBuf leaf sib idx, List.mem_cons_self, length_foldBuf leaf sib idx, rfl⟩
    · obtain ⟨buf, hmem, hlen, he⟩ := ih (sha256d (foldBuf leaf sib idx)) (idx >>> 1) hb'
      exact ⟨buf, List.mem_cons_of_mem _ hmem, hlen, he⟩

/-- Two coinbases folded to one parent root are equal, unless the one folded up
the shorter branch is itself a 64-byte node. -/
theorem coinbase_unique_of_le {xs : List Bytes} (hc : ¬ Collision sha256d xs) {cb cb' : Bytes} {b b' : List Hash32}
    (hcb : cb ∈ xs) (hcb' : cb' ∈ xs) (hin : ∀ x ∈ foldInputs sha256d (sha256d cb) b 0, x ∈ xs)
    (hin' : ∀ x ∈ foldInputs sha256d (sha256d cb') b' 0, x ∈ xs) (hle : b.length ≤ b'.length)
    (hroot : merkleFoldBranch sha256d (sha256d cb) b 0 = merkleFoldBranch sha256d (sha256d cb') b' 0)
    (h64 : cb.length ≠ 64) : cb = cb' := by
  -- cut the longer branch so that the top parts have equal depth
  obtain ⟨low, high, rfl, hhigh⟩ : ∃ low high, b' = low ++ high ∧ b.length = high.length :=
    ⟨b'.take (b'.length - b.length), b'.drop (b'.length - b.length), (List.take_append_drop _ _).symm,
      by rw [List.length_drop]; omega⟩
  rw [merkleFold_append_zero] at hroot
  rw [foldInputs_append_zero] at hin'
  have hlow : ∀ x ∈ foldInputs sha256d (sha256d cb') low 0, x ∈ xs := fun x hx => hin' x (List.mem_append_left _ hx)
  have hleaf := (merkleFold_inj sha256d hc b high _ _ 0 hhigh hin
    (fun x hx => hin' x (List.mem_append_right _ hx)) hroot).1
  by_cases hnil : low = []
  · subst hnil
    exact eq_of_no_collision hc hcb hcb' hleaf
  · obtain ⟨buf, hmem, hlen, he⟩ := merkleFold_digest sha256d (sha256d cb') low 0 hnil
    have : cb = buf := eq_of_no_collision hc hcb (hlow buf hmem) (hleaf.trans he)
    exact absurd (this ▸ hlen) h64

theorem coinbase_unique {xs : List Bytes} (hc : ¬ Collision sha256d xs) {cb cb' : Bytes} {b b' : List Hash32}
    (hcb : cb ∈ xs) (hcb' : cb' ∈ xs) (hin : ∀ x ∈ foldInputs sha256d (sha256d cb) b 0, x ∈ xs)
    (hin' : ∀ x ∈ foldInputs sha256d (sha256d cb') b' 0, x ∈ xs)
    (hroot : merkleFoldBranch sha256d (sha256d cb) b 0 = merkleFoldBranch sha256d (sha256d cb') b' 0)
    (h64 : cb.length ≠ 64) (h64' : cb'.length ≠ 64) : cb = cb' := by
  rcases Nat.le_total b.length b'.length with hle | hle
  · exact coinbase_unique_of_le sha256d hc hcb hcb' hin hin' hle hroot h64
  · exact (coinbase_unique_of_le sha256d hc hcb' hcb hin' hin hle hroot.symm h64').symm

/-! ## The committed tail -/

theorem CommitmentTail.unique {cb tail tail' : Bytes} (h : CommitmentTail cb tail) (h' : CommitmentTail cb tail') :
    tail = tail' := by
  obtain ⟨m, hm, -, ht⟩ := h
  obtain ⟨m', hm', -, ht'⟩ := h'
  obtain rfl : m = m' := Option.some.inj (hm.symm.trans hm')
  exact Option.some.inj (ht.symm.trans ht')

theorem toNat_one_shiftLeft {n : Nat} (h : n ≤ 30) : ((1 : UInt32) <<< UInt32.ofNat n).toNat = 2 ^ n := by
  have hpow : 2 ^ n < 2 ^ 32 := Nat.pow_lt_pow_right (by decide) (by omega)
  rw [UInt32.toNat_shiftLeft, UInt32.toNat_ofNat_of_lt' (by show n < 2 ^ 32; omega), Nat.mod_eq_of_lt (by omega : n < 32)]
  show (1 <<< n) % 2 ^ 32 = 2 ^ n
  rw [Nat.one_shiftLeft, Nat.mod_eq_of_lt hpow]

/-- The size field fixes the depth. -/
theorem depth_unique {n m : Nat} (hn : n ≤ 30) (hm : m ≤ 30)
    (h : (1 : UInt32) <<< UInt32.ofNat n = 1 <<< UInt32.ofNat m) : n = m := by
  have := congrArg UInt32.toNat h
  rw [toNat_one_shiftLeft hn, toNat_one_shiftLeft hm] at this
  exact Nat.pow_right_injective (le_refl 2) this

/-- Two witnesses the guest accepts under one parent header have equal depth and
fold to one chain root, and on one chain they commit the same block at the
same slot. The exceptions are explicit: two of the strings hashed collide, or a
coinbase is exactly 64 bytes long. -/
theorem sibling_binding (h₁ h₂ : Hash32) (aux₁ aux₂ : AuxPow) (c₁ c₂ : UInt32)
    (hparent : aux₁.parent_header = aux₂.parent_header)
    (hv₁ : verifyAuxpowCommitment sha256d h₁ aux₁ c₁ = true)
    (hv₂ : verifyAuxpowCommitment sha256d h₂ aux₂ c₂ = true) :
    Collision sha256d (hashedBy sha256d h₁ aux₁ ++ hashedBy sha256d h₂ aux₂) ∨
      aux₁.coinbase_tx.length = 64 ∨ aux₂.coinbase_tx.length = 64 ∨
      (aux₁.chain_merkle_branch.length = aux₂.chain_merkle_branch.length ∧
        merkleFoldBranch sha256d h₁ aux₁.chain_merkle_branch aux₁.chain_index =
          merkleFoldBranch sha256d h₂ aux₂.chain_merkle_branch aux₂.chain_index ∧
        (c₁ = c₂ → aux₁.chain_index = aux₂.chain_index ∧
          aux₁.chain_merkle_branch = aux₂.chain_merkle_branch ∧ h₁ = h₂)) := by
  by_cases hc : Collision sha256d (hashedBy sha256d h₁ aux₁ ++ hashedBy sha256d h₂ aux₂)
  · exact .inl hc
  by_cases h64 : aux₁.coinbase_tx.length = 64
  · exact .inr (.inl h64)
  by_cases h64' : aux₂.coinbase_tx.length = 64
  · exact .inr (.inr (.inl h64'))
  refine .inr (.inr (.inr ?_))
  obtain ⟨⟨hi₁, -, -, hr₁⟩, hd₁, tail, ht₁, hroot₁, hsize₁, hslot₁⟩ := (verifyAuxpowCommitment_iff sha256d _ _ _).1 hv₁
  obtain ⟨⟨hi₂, -, -, hr₂⟩, hd₂, tail', ht₂, hroot₂, hsize₂, hslot₂⟩ := (verifyAuxpowCommitment_iff sha256d _ _ _).1 hv₂
  have hmerkle : merkleFoldBranch sha256d (sha256d aux₁.coinbase_tx) aux₁.parent_merkle_branch 0 =
      merkleFoldBranch sha256d (sha256d aux₂.coinbase_tx) aux₂.parent_merkle_branch 0 := by
    rw [hi₁] at hr₁
    rw [hi₂] at hr₂
    simp only [AuxPow.parentMerkleRoot, hparent] at hr₁ hr₂
    exact Option.some.inj (hr₁.symm.trans hr₂)
  have hcb : aux₁.coinbase_tx = aux₂.coinbase_tx :=
    coinbase_unique sha256d hc (by simp [hashedBy]) (by simp [hashedBy])
      (fun x hx => by simp [hashedBy, hi₁, hx]) (fun x hx => by simp [hashedBy, hi₂, hx]) hmerkle h64 h64'
  obtain rfl : tail = tail' := ht₁.unique (hcb ▸ ht₂)
  have hdepth : aux₁.chain_merkle_branch.length = aux₂.chain_merkle_branch.length :=
    depth_unique hd₁ hd₂ (hsize₁.symm.trans hsize₂)
  have hfold := ByteArr.reverse_inj (Subtype.ext (hroot₁.symm.trans hroot₂))
  refine ⟨hdepth, hfold, fun hcc => ?_⟩
  have hidx : aux₁.chain_index = aux₂.chain_index := by rw [hslot₁, hslot₂, hcc, hdepth]
  rw [hidx] at hfold
  obtain ⟨hh, hb⟩ := merkleFold_inj sha256d hc _ _ _ _ _ hdepth
    (fun x hx => by simp [hashedBy, hidx, hx]) (fun x hx => by simp [hashedBy, hx]) hfold
  exact ⟨hidx, hb, hh⟩

end Sha

/-! ## Two chains under one parent -/

/-- The double-SHA256 of 32 bytes `0x11` followed by 32 bytes `0x22`. -/
def pairRoot : Hash32 :=
  ⟨[0x11, 0x40, 0xb5, 0x74, 0xaf, 0xee, 0x3c, 0xb8, 0x9a, 0x4d, 0xb3, 0xdc, 0x80, 0x37, 0xac, 0xfa,
    0x85, 0x6f, 0x51, 0x12, 0xe6, 0x8a, 0x95, 0x4e, 0x3c, 0xa0, 0xa9, 0x08, 0x08, 0x2c, 0x98, 0xba], rfl⟩

/-- A coinbase that commits `pairRoot` with size 2 and nonce 0. -/
def pairCoinbase : Bytes := AUXPOW_MAGIC ++ pairRoot.reverse.val ++ leU32 2 ++ leU32 0

/-- The double-SHA256 of `pairCoinbase`. -/
def pairTxid : Hash32 :=
  ⟨[0x61, 0xe9, 0x04, 0xec, 0xe2, 0x82, 0x6d, 0x1c, 0x05, 0xa9, 0xac, 0xd3, 0xca, 0x0e, 0xcd, 0x11,
    0xfa, 0x51, 0x73, 0x31, 0x93, 0x78, 0xea, 0x23, 0xf5, 0xa3, 0x00, 0x80, 0x43, 0x78, 0xda, 0x0a], rfl⟩

/-- Double-SHA256 on the two strings these witnesses hash, zero elsewhere. -/
def pairSha (b : Bytes) : Hash32 :=
  if b = List.replicate 32 0x11 ++ List.replicate 32 0x22 then pairRoot
  else if b = pairCoinbase then pairTxid
  else ByteArr.fill 32 0

/-- The witness of the block at slot `chain_index`, next to `sibling`. -/
def pairAux (chain_index : UInt32) (sibling : Hash32) : AuxPow where
  coinbase_tx := pairCoinbase
  parent_merkle_branch := []
  parent_index := 0
  chain_merkle_branch := [sibling]
  chain_index := chain_index
  parent_header := leU32 0x20000000 ++ List.replicate 32 0 ++ pairTxid.val ++ List.replicate 12 0

theorem sibling_binding_pair :
    verifyAuxpowCommitment pairSha (ByteArr.fill 32 0x11) (pairAux 0 (ByteArr.fill 32 0x22)) 8224 = true ∧
    verifyAuxpowCommitment pairSha (ByteArr.fill 32 0x22) (pairAux 1 (ByteArr.fill 32 0x11)) 63 = true ∧
    merkleFoldBranch pairSha (ByteArr.fill 32 0x11) [ByteArr.fill 32 0x22] 0 =
      merkleFoldBranch pairSha (ByteArr.fill 32 0x22) [ByteArr.fill 32 0x11] 1 := by
  have hv₁ : verifyAuxpowCommitment pairSha (ByteArr.fill 32 0x11) (pairAux 0 (ByteArr.fill 32 0x22)) 8224 = true := by
    decide +kernel
  have hv₂ : verifyAuxpowCommitment pairSha (ByteArr.fill 32 0x22) (pairAux 1 (ByteArr.fill 32 0x11)) 63 = true := by
    decide +kernel
  rcases sibling_binding pairSha _ _ (pairAux 0 (ByteArr.fill 32 0x22)) (pairAux 1 (ByteArr.fill 32 0x11)) _ _ rfl
    hv₁ hv₂ with ⟨x, hx, y, hy, hne, he⟩ | h | h | h
  · have hfree : ∀ x ∈ [pairCoinbase, List.replicate 32 0x11 ++ List.replicate 32 0x22],
        ∀ y ∈ [pairCoinbase, List.replicate 32 0x11 ++ List.replicate 32 0x22],
          pairSha x = pairSha y → x = y := by decide +kernel
    have hall : ∀ z ∈ hashedBy pairSha (ByteArr.fill 32 0x11) (pairAux 0 (ByteArr.fill 32 0x22)) ++
        hashedBy pairSha (ByteArr.fill 32 0x22) (pairAux 1 (ByteArr.fill 32 0x11)),
          z ∈ [pairCoinbase, List.replicate 32 0x11 ++ List.replicate 32 0x22] := by decide +kernel
    exact absurd (hfree x (hall x hx) y (hall y hy) he) hne
  · exact absurd h (by decide)
  · exact absurd h (by decide)
  · exact ⟨hv₁, hv₂, h.2.1⟩

end PsobIndexer
