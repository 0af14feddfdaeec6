import PsobIndexer.Lib.MerkleTree
import PsobIndexer.Common
/-!
# Merkle branches

`merkle_fold_branch` takes its side at each level from a running index that it
halves. That is the path fold with the bits of the index, so along the siblings
of a leaf in a perfect tree it reaches the root, and what it makes of an index
is decided by the low bits, one for each level.
-/
open Lib

namespace PsobIndexer

/-- The low bit of an index, as the fold tests it. -/
theorem and_one_eq_zero_iff (idx : UInt32) : idx &&& 1 = 0 ↔ idx.toNat.testBit 0 = false := by
  rw [← UInt32.toNat_inj, UInt32.toNat_and, UInt32.toNat_one, UInt32.toNat_zero, Nat.and_one_is_mod, Nat.testBit_zero,
    decide_eq_false_iff_not]
  omega

theorem toNat_shiftRight_one (idx : UInt32) : (idx >>> 1).toNat = idx.toNat / 2 := by
  rw [UInt32.toNat_shiftRight, UInt32.toNat_one, Nat.shiftRight_eq_div_pow]

section Sha
variable (sha256d : Bytes → Hash32)

/-- The hash of an inner node. -/
def merkleNode (left right : Hash32) : Hash32 := sha256d (left.val ++ right.val)

theorem merkleFoldBranch_eq (leaf : Hash32) (branch : List Hash32) (idx : UInt32) :
    merkleFoldBranch sha256d leaf branch idx = foldPath (merkleNode sha256d) leaf branch idx.toNat := by
  induction branch generalizing leaf idx with
  | nil => rfl
  | cons sib branch ih =>
    have hlevel : sha256d (foldBuf leaf sib idx) =
        if !idx.toNat.testBit 0 then merkleNode sha256d leaf sib else merkleNode sha256d sib leaf := by
      unfold foldBuf merkleNode
      by_cases hbit : idx &&& 1 = 0
      · rw [if_pos hbit, (and_one_eq_zero_iff idx).1 hbit]
        rfl
      · rw [if_neg hbit, Bool.eq_true_of_not_eq_false (mt (and_one_eq_zero_iff idx).2 hbit)]
        rfl
    rw [merkleFoldBranch, ih, foldPath, foldPath, sidesOf_cons, foldSides, hlevel, toNat_shiftRight_one]

/-- A leaf of a perfect tree folds to the root along its siblings, and a fold
depends on the index only through as many low bits as the branch is long. -/
theorem merkle_fold_reaches_root :
    (∀ (depth : Nat) (tree : PerfectTree Hash32 depth) (i : UInt32) (leaf : Hash32), depth ≤ 32 →
      tree.leaves[i.toNat]? = some leaf →
      merkleFoldBranch sha256d leaf (tree.siblings (merkleNode sha256d) i.toNat) i = tree.root (merkleNode sha256d)) ∧
      ∀ (leaf : Hash32) (branch : List Hash32) (i j : UInt32),
        i.toNat % 2 ^ branch.length = j.toNat % 2 ^ branch.length →
        merkleFoldBranch sha256d leaf branch i = merkleFoldBranch sha256d leaf branch j := by
  refine ⟨?_, ?_⟩
  · intro depth tree i leaf _ hleaf
    rw [merkleFoldBranch_eq]
    exact tree.foldPath_siblings _ hleaf
  · intro leaf branch i j hlow
    rw [merkleFoldBranch_eq, merkleFoldBranch_eq, foldPath, foldPath, sidesOf_congr hlow]

end Sha

/-- The right one of two leaves, with the first 32 bytes for the hash. -/
theorem merkle_fold_reaches_root_right :
    merkleFoldBranch (ByteArr.ofSlice 32 · 0) (ByteArr.fill 32 2) [ByteArr.fill 32 1] 1 = ByteArr.fill 32 1 :=
  (merkle_fold_reaches_root (ByteArr.ofSlice 32 · 0)).1 1 (.node (.leaf (ByteArr.fill 32 1)) (.leaf (ByteArr.fill 32 2)))
    1 (ByteArr.fill 32 2) (by decide) rfl

end PsobIndexer
