import PsobIndexer.ProofInput
/-!
# Built paths and the consensus fold

`merkle_fold_branch` halves its index, so from level 32 on it takes the left
side. `build_proof_input` shifts the position by the level, which is not defined
from the pointer width on: with overflow checks it panics there, without them
the bits of the position come round again. So the two folds agree on a branch of
`n` levels just when no bit comes round that is set.
-/
open Lib

namespace PsobIndexer

/-- The fold of the path that is built from the siblings is the consensus fold,
whatever the hash, the leaf and the siblings, `n` of them. -/
def PathsFold (w : Nat) (p : Profile) (n : Nat) (pos : UInt32) : Prop :=
  ∀ (sha256d : Bytes → Hash32) (txid : Hash32) (sibs : List Hash32) (merkle : List String),
    sibs.length = n → Spells merkle sibs →
    ∃ path, Checked.runIn p (merklePath w pos.toNat 0 merkle) = some (.ok path) ∧
      foldMerkle sha256d ⟨txid, path⟩ = merkleFoldBranch sha256d txid sibs pos

theorem hex32_hashDisplay (h : Hash32) : hex32 (hashDisplay h) = .ok h.reverse := by
  rw [hex32, hashDisplay, hexDecode_hexEncode]
  exact dif_pos h.reverse.property

theorem spells_hashDisplay (sibs : List Hash32) : Spells (sibs.map hashDisplay) sibs := by
  rw [Spells, List.forall₂_map_left_iff, List.forall₂_same]
  exact fun s _ => hex32_hashDisplay s

theorem Spells.isOk {merkle : List String} {sibs : List Hash32} (h : Spells merkle sibs) :
    ∀ sib ∈ merkle, (hex32 sib).isOk :=
  ((List.forall₂_and_left _ _).1 (h.imp fun _ s hs => ⟨isOk_iff.2 ⟨s.reverse, hs⟩, hs⟩)).1

/-! ## Both folds take sides -/

/-- The steps of a path as sides of a fold. -/
theorem foldMerkle_eq (sha256d : Bytes → Hash32) (txid : Hash32) (path : List MerkleStep) :
    foldMerkle sha256d ⟨txid, path⟩ =
      foldSides (merkleNode sha256d) txid (path.map (fun step => (step.sibling, step.left))) := by
  unfold foldMerkle
  induction path generalizing txid with
  | nil => rfl
  | cons step path ih =>
    rw [List.foldl_cons, ih, List.map_cons, foldSides]
    congr 1
    unfold merkleNode
    cases step.left with
    | false => rfl
    | true => rfl

/-- Every combination of two hashes is that of some hash function. -/
theorem exists_merkleNode (f : Hash32 → Hash32 → Hash32) : ∃ sha256d, merkleNode sha256d = f := by
  refine ⟨fun b => f (ByteArr.ofSlice 32 b 0) (ByteArr.ofSlice 32 b 32), ?_⟩
  funext l r
  have hl : ByteArr.ofSlice 32 (l.val ++ r.val) 0 = l := by
    apply Subtype.ext
    rw [ByteArr.ofSlice_val (by rw [List.length_append, l.property, r.property]; omega), List.drop_zero,
      List.take_left' l.property]
  have hr : ByteArr.ofSlice 32 (l.val ++ r.val) 32 = r := by
    apply Subtype.ext
    rw [ByteArr.ofSlice_val (by rw [List.length_append, l.property, r.property]), List.drop_left' l.property,
      List.take_of_length_le (le_of_eq r.property)]
  rw [merkleNode, hl, hr]

/-- The side that the shifted position gives. -/
def builtSide (w : Nat) (pos : UInt32) (level : Nat) : Bool := !pos.toNat.testBit (level % w)

def consensusSide (pos : UInt32) (level : Nat) : Bool := !pos.toNat.testBit level

section Width
variable {w : Nat}

/-- The path of readable siblings, with its sides. -/
theorem merklePath_spells (w : Nat) (pos : UInt32) {merkle : List String} {sibs : List Hash32} (h : Spells merkle sibs) :
    ∃ path, (merklePath w pos.toNat 0 merkle).result = .ok path ∧
      ∀ (sha256d : Bytes → Hash32) (txid : Hash32),
        foldMerkle sha256d ⟨txid, path⟩ = foldSides (merkleNode sha256d) txid (sidesBy (builtSide w pos) sibs) := by
  refine ⟨_, result_merklePath.2 ⟨sibs, h, rfl⟩, fun sha256d txid => ?_⟩
  rw [foldMerkle_eq, List.map_map]
  rfl

theorem overflows_spells (pos : UInt32) {merkle : List String} {sibs : List Hash32} (h : Spells merkle sibs) :
    (merklePath w pos.toNat 0 merkle).overflows = [] ↔ sibs.length ≤ w := by
  rw [overflows_merklePath merkle (Nat.zero_le w), Nat.zero_add, List.takeWhile_eq_self_iff.2 h.isOk, h.length_eq]

/-- The sides agree below the width, and above it where the bit that comes round is clear. -/
theorem sides_agree_iff (hw : 32 ≤ w) (pos : UInt32) (n : Nat) :
    (∀ level < n, builtSide w pos level = consensusSide pos level) ↔
      ∀ level, w ≤ level → level < n → pos.toNat.testBit (level % w) = false := by
  have hhigh : ∀ level, w ≤ level → pos.toNat.testBit level = false := by
    intro level hlevel
    exact Nat.testBit_lt_two_pow (lt_of_lt_of_le pos.toNat_lt (Nat.pow_le_pow_right (by decide) (hw.trans hlevel)))
  constructor
  · intro h level hlevel hn
    have hside := h level hn
    rw [builtSide, consensusSide, hhigh level hlevel] at hside
    exact Bool.not_inj hside
  · intro h level hn
    rw [builtSide, consensusSide]
    by_cases hlevel : w ≤ level
    · rw [h level hlevel hn, hhigh level hlevel]
    · rw [Nat.mod_eq_of_lt (by omega)]

/-- Agreement of the folds is agreement of the sides. -/
theorem folds_agree_iff (pos : UInt32) (n : Nat) :
    (∀ (sha256d : Bytes → Hash32) (txid : Hash32) (sibs : List Hash32), sibs.length = n →
      foldSides (merkleNode sha256d) txid (sidesBy (builtSide w pos) sibs) = merkleFoldBranch sha256d txid sibs pos) ↔
      ∀ level < n, builtSide w pos level = consensusSide pos level := by
  have hmark : (ByteArr.fill 32 0 : Hash32) ≠ ByteArr.fill 32 1 := by decide
  have hflag : (ByteArr.fill 32 0 : Hash32) ≠ ByteArr.fill 32 2 := by decide
  have hne : (ByteArr.fill 32 1 : Hash32) ≠ ByteArr.fill 32 2 := by decide
  rw [← foldSides_agree_iff hmark hflag hne]
  constructor
  · intro h f acc sibs hlen
    obtain ⟨sha256d, rfl⟩ := exists_merkleNode f
    rw [h sha256d acc sibs hlen, merkleFoldBranch_eq, foldPath, sidesOf_eq]
    rfl
  · intro h sha256d txid sibs hlen
    rw [h _ _ _ hlen, merkleFoldBranch_eq, foldPath, sidesOf_eq]
    rfl

/-- The proof of an input is the path of the reply, built without a panic. -/
theorem build_path {p : Profile} {max_headers : Nat} {client : ProofClient} {txid : String} {cp : CheckpointParams}
    {input : ProofInput} (h : Checked.runIn p (buildProofInput w max_headers client txid cp) = some (.ok input)) :
    ∃ mp leaf, client.merkleProof txid = some mp ∧ hex32 txid = .ok leaf ∧ input.merkle_proof.txid = leaf.reverse ∧
      Checked.runIn p (merklePath w mp.pos 0 mp.merkle) = some (.ok input.merkle_proof.path) := by
  obtain ⟨hlog, hok⟩ := Checked.runIn_eq_some.1 h
  obtain ⟨mp, leaf, hmp, habove, hreached, hpath, -, hleaf, -⟩ := result_build hok
  refine ⟨mp, leaf, hmp, hreached.txid, hleaf, Checked.runIn_eq_some.2 ⟨fun hp => ?_, hpath⟩⟩
  exact ((overflows_build hmp habove).1 (hlog hp)).2 _ leaf hreached

/-- The proof that is built is the path of the reply. On branches of `n` siblings
it is built and folds like the consensus fold, with overflow checks just when `n`
is at most the width, and without them just when no bit of the position that
comes round is set. -/
theorem built_paths_fold_iff (hw : 32 ≤ w) :
    (∀ (p : Profile) (max_headers : Nat) (client : ProofClient) (txid : String) (cp : CheckpointParams)
      (input : ProofInput),
      Checked.runIn p (buildProofInput w max_headers client txid cp) = some (.ok input) →
      ∃ mp leaf, client.merkleProof txid = some mp ∧ hex32 txid = .ok leaf ∧ input.merkle_proof.txid = leaf.reverse ∧
        Checked.runIn p (merklePath w mp.pos 0 mp.merkle) = some (.ok input.merkle_proof.path)) ∧
      ∀ (n : Nat) (pos : UInt32),
        (PathsFold w .debug n pos ↔ n ≤ w) ∧
        (PathsFold w .release n pos ↔ ∀ level, w ≤ level → level < n → pos.toNat.testBit (level % w) = false) := by
  refine ⟨fun p _ _ _ _ _ h => build_path h, fun n pos => ⟨?_, ?_⟩⟩
  · constructor
    · intro h
      obtain ⟨path, hrun, -⟩ := h (fun _ => ByteArr.fill 32 0) (ByteArr.fill 32 0) (List.replicate n (ByteArr.fill 32 0)) _
        List.length_replicate (spells_hashDisplay _)
      have hlog := (Checked.runIn_eq_some.1 hrun).1 rfl
      rwa [overflows_spells pos (spells_hashDisplay _), List.length_replicate] at hlog
    · rintro hn sha256d txid sibs merkle rfl hspells
      obtain ⟨path, hpath, hfold⟩ := merklePath_spells w pos hspells
      refine ⟨path, Checked.runIn_eq_some.2 ⟨fun _ => (overflows_spells pos hspells).2 hn, hpath⟩, ?_⟩
      rw [hfold]
      exact (folds_agree_iff pos sibs.length).2 ((sides_agree_iff hw pos sibs.length).2 fun level hlevel hlt => by omega)
        sha256d txid sibs rfl
  · rw [← sides_agree_iff hw, ← folds_agree_iff]
    constructor
    · intro h sha256d txid sibs hlen
      obtain ⟨path, hpath, hfold⟩ := merklePath_spells w pos (spells_hashDisplay sibs)
      obtain ⟨path', hrun, hfold'⟩ := h sha256d txid sibs _ hlen (spells_hashDisplay sibs)
      cases hpath.symm.trans (Checked.runIn_eq_some.1 hrun).2
      rw [← hfold, hfold']
    · intro h sha256d txid sibs merkle hlen hspells
      obtain ⟨path, hpath, hfold⟩ := merklePath_spells w pos hspells
      have hrun : Checked.runIn .release (merklePath w pos.toNat 0 merkle) = some (.ok path) := congrArg some hpath
      exact ⟨path, hrun, by rw [hfold, h sha256d txid sibs hlen]⟩

end Width

theorem built_paths_fold_iff_short : PathsFold 64 .debug 64 1 :=
  (((built_paths_fold_iff (w := 64) (by decide)).2 64 1).1).2 (le_refl 64)

/-- 64 zero siblings and one of ones above them. -/
def longBranch : List Hash32 := List.replicate 64 (ByteArr.fill 32 0) ++ [ByteArr.fill 32 1]

/-- A hash that tells whether a child of ones came first. -/
def orderHash (b : Bytes) : Hash32 :=
  detect (ByteArr.fill 32 0) (ByteArr.fill 32 1) (ByteArr.fill 32 2) (ByteArr.ofSlice 32 b 0) (ByteArr.ofSlice 32 b 32)

/-- Position 1 on 65 levels: bit 0 comes round at level 64. With overflow checks
the shift there panics. -/
theorem long_path_folds_apart :
    Checked.runIn .debug (merklePath 64 1 0 (longBranch.map hashDisplay)) = none ∧
      ∃ path, Checked.runIn .release (merklePath 64 1 0 (longBranch.map hashDisplay)) = some (.ok path) ∧
        foldMerkle orderHash ⟨ByteArr.fill 32 0, path⟩ ≠ merkleFoldBranch orderHash (ByteArr.fill 32 0) longBranch 1 := by
  refine ⟨?_, ?_⟩
  · have hlong : (merklePath 64 1 0 (longBranch.map hashDisplay)).overflows ≠ [] :=
      mt (overflows_spells 1 (spells_hashDisplay longBranch)).1 (by decide)
    exact Checked.runIn_debug_eq_none.2 hlong
  · obtain ⟨path, hpath, hfold⟩ := merklePath_spells 64 1 (spells_hashDisplay longBranch)
    refine ⟨path, congrArg some hpath, ?_⟩
    rw [hfold]
    decide +kernel

end PsobIndexer
