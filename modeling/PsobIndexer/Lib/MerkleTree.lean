import Mathlib
/-!
# Merkle trees and paths

A path folds a leaf with one sibling a level, from the bottom up; at each level
the node is the left or the right child. `foldSides` is told the sides,
`foldPath` reads them from the bits of the leaf's position, lowest first. In a
perfect tree the path of a leaf folds to the root. `f` combines two children.
-/

namespace Lib

variable {α : Type}

/-! ## Paths -/

/-- Fold a leaf up a path. A step is the sibling and whether the node is the left child. -/
def foldSides (f : α → α → α) : α → List (α × Bool) → α
  | acc, [] => acc
  | acc, (sib, left) :: steps => foldSides f (if left then f acc sib else f sib acc) steps

/-- The siblings of a path with the sides that the bits of `i` give, lowest first. -/
def sidesOf (i : Nat) (sibs : List α) : List (α × Bool) := sibs.zipIdx.map fun s => (s.1, !i.testBit s.2)

def foldPath (f : α → α → α) (acc : α) (sibs : List α) (i : Nat) : α := foldSides f acc (sidesOf i sibs)

@[simp] theorem sidesOf_nil (i : Nat) : sidesOf i ([] : List α) = [] := rfl

/-- Above the lowest level the sides are those of half the position. -/
@[simp] theorem sidesOf_cons (i : Nat) (sib : α) (sibs : List α) :
    sidesOf i (sib :: sibs) = (sib, !i.testBit 0) :: sidesOf (i / 2) sibs := by
  simp only [sidesOf, List.zipIdx_cons, List.map_cons, List.cons.injEq, true_and]
  rw [List.zipIdx_succ, List.map_map]
  refine List.map_congr_left fun s _ => ?_
  rw [Function.comp_apply, Nat.testBit_succ]

theorem sidesOf_append (i : Nat) (sibs sibs' : List α) :
    sidesOf i (sibs ++ sibs') = sidesOf i sibs ++ sidesOf (i / 2 ^ sibs.length) sibs' := by
  induction sibs generalizing i with
  | nil => simp
  | cons sib sibs ih =>
    rw [List.cons_append, sidesOf_cons, sidesOf_cons, ih, List.cons_append, List.length_cons, pow_succ, Nat.mul_comm,
      Nat.div_div_eq_div_mul]

/-- A path of `n` levels sees the low `n` bits of the position. -/
theorem sidesOf_congr {i j : Nat} {sibs : List α} (h : i % 2 ^ sibs.length = j % 2 ^ sibs.length) :
    sidesOf i sibs = sidesOf j sibs := by
  refine List.map_congr_left fun s hs => ?_
  have hlt : s.2 < sibs.length := by
    have := List.snd_lt_of_mem_zipIdx hs
    omega
  have hbit := congrArg (Nat.testBit · s.2) h
  simp only [Nat.testBit_mod_two_pow, hlt, decide_true, Bool.true_and] at hbit
  rw [hbit]

theorem foldSides_append (f : α → α → α) (acc : α) (steps steps' : List (α × Bool)) :
    foldSides f acc (steps ++ steps') = foldSides f (foldSides f acc steps) steps' := by
  induction steps generalizing acc with
  | nil => rfl
  | cons s steps ih => exact ih _

/-! ## Which sides were taken -/

/-- The siblings of a path with a side for each level. -/
def sidesBy (side : Nat → Bool) (sibs : List α) : List (α × Bool) := sibs.zipIdx.map fun s => (s.1, side s.2)

theorem sidesOf_eq (i : Nat) (sibs : List α) : sidesOf i sibs = sidesBy (fun level => !i.testBit level) sibs := rfl

theorem sidesBy_congr {side side' : Nat → Bool} {sibs : List α} (h : ∀ level < sibs.length, side level = side' level) :
    sidesBy side sibs = sidesBy side' sibs := by
  refine List.map_congr_left fun s hs => ?_
  have hlt := List.snd_lt_of_mem_zipIdx hs
  rw [h s.2 (by omega)]

/-- A combination that keeps `flag`, and makes it where `mark` is the left child. -/
def detect [DecidableEq α] (zero mark flag l r : α) : α :=
  if l = mark ∨ l = flag ∨ r = flag then flag else zero

section Detect
variable [DecidableEq α] {zero mark flag : α}

theorem foldSides_detect_zero (hmark : zero ≠ mark) (hflag : zero ≠ flag) {steps : List (α × Bool)}
    (h : ∀ s ∈ steps, s.1 = zero) : foldSides (detect zero mark flag) zero steps = zero := by
  induction steps with
  | nil => rfl
  | cons s steps ih =>
    obtain ⟨hs, hsteps⟩ := List.forall_mem_cons.1 h
    rw [foldSides, hs, ite_self, detect, if_neg (by simp [hmark, hflag])]
    exact ih hsteps

theorem foldSides_detect_flag {steps : List (α × Bool)} :
    foldSides (detect zero mark flag) flag steps = flag := by
  induction steps with
  | nil => rfl
  | cons s steps ih =>
    have hstep : (if s.2 then detect zero mark flag flag s.1 else detect zero mark flag s.1 flag) = flag := by
      simp [detect]
    rw [foldSides, hstep, ih]

/-- With a mark at one level the fold tells the side taken there. -/
theorem foldSides_detect (hmark : zero ≠ mark) (hflag : zero ≠ flag) (hne : mark ≠ flag) (side : Nat → Bool) (k n : Nat) :
    foldSides (detect zero mark flag) zero (sidesBy side (List.replicate k zero ++ mark :: List.replicate n zero)) =
      if side k then zero else flag := by
  have hzero : ∀ (m j : Nat), ∀ s ∈ ((List.replicate m zero).zipIdx j).map (fun s => (s.1, side s.2)), s.1 = zero := by
    intro m j s hs
    obtain ⟨t, ht, rfl⟩ := List.mem_map.1 hs
    exact List.eq_of_mem_replicate (List.fst_mem_of_mem_zipIdx ht)
  rw [sidesBy, List.zipIdx_append, List.map_append, foldSides_append, foldSides_detect_zero hmark hflag (hzero k 0),
    List.zipIdx_cons, List.map_cons, foldSides, List.length_replicate, Nat.zero_add]
  by_cases hside : side k
  · rw [if_pos hside, if_pos hside, detect, if_neg (by simp [hmark, hflag, hne]),
      foldSides_detect_zero hmark hflag (hzero n _)]
  · rw [if_neg hside, if_neg hside, detect, if_pos (.inl rfl), foldSides_detect_flag]

end Detect

/-- Two choices of sides fold alike, whatever combines two children, if and only
if they agree on every level. -/
theorem foldSides_agree_iff [DecidableEq α] {zero mark flag : α} (hmark : zero ≠ mark) (hflag : zero ≠ flag)
    (hne : mark ≠ flag) (side side' : Nat → Bool) (n : Nat) :
    (∀ (f : α → α → α) (acc : α) (sibs : List α), sibs.length = n →
      foldSides f acc (sidesBy side sibs) = foldSides f acc (sidesBy side' sibs)) ↔
      ∀ level < n, side level = side' level := by
  constructor
  · intro h k hk
    have hlen : (List.replicate k zero ++ mark :: List.replicate (n - k - 1) zero).length = n := by
      rw [List.length_append, List.length_cons, List.length_replicate, List.length_replicate]
      omega
    have hfold := h (detect zero mark flag) zero _ hlen
    rw [foldSides_detect hmark hflag hne, foldSides_detect hmark hflag hne] at hfold
    cases hside : side k with
    | false =>
      cases hside' : side' k with
      | false => rfl
      | true =>
        rw [hside, hside', if_neg Bool.false_ne_true, if_pos rfl] at hfold
        exact absurd hfold.symm hflag
    | true =>
      cases hside' : side' k with
      | false =>
        rw [hside, hside', if_pos rfl, if_neg Bool.false_ne_true] at hfold
        exact absurd hfold hflag
      | true => rfl
  · intro h f acc sibs hlen
    rw [sidesBy_congr (by rwa [hlen])]

/-! ## Perfect trees -/

/-- A tree of `2 ^ depth` leaves. -/
inductive PerfectTree (α : Type) : Nat → Type
  | leaf (a : α) : PerfectTree α 0
  | node {depth : Nat} (l r : PerfectTree α depth) : PerfectTree α (depth + 1)

namespace PerfectTree

def root (f : α → α → α) {depth : Nat} : PerfectTree α depth → α
  | .leaf a => a
  | .node l r => f (l.root f) (r.root f)

/-- The leaves from left to right. -/
def leaves {depth : Nat} : PerfectTree α depth → List α
  | .leaf a => [a]
  | .node l r => l.leaves ++ r.leaves

/-- The siblings on the way from leaf `i` to the root, bottom first. -/
def siblings (f : α → α → α) {depth : Nat} : PerfectTree α depth → Nat → List α
  | .leaf _, _ => []
  | @PerfectTree.node _ depth l r, i =>
    if i < 2 ^ depth then l.siblings f i ++ [r.root f] else r.siblings f (i - 2 ^ depth) ++ [l.root f]

theorem length_leaves {depth : Nat} (t : PerfectTree α depth) : t.leaves.length = 2 ^ depth := by
  induction t with
  | leaf => rfl
  | node l r ihl ihr =>
    rw [leaves, List.length_append, ihl, ihr, pow_succ]
    omega

theorem length_siblings (f : α → α → α) {depth : Nat} (t : PerfectTree α depth) (i : Nat) :
    (t.siblings f i).length = depth := by
  induction t generalizing i with
  | leaf => rfl
  | node l r ihl ihr =>
    rw [siblings]
    split
    · rw [List.length_append, ihl, List.length_singleton]
    · rw [List.length_append, ihr, List.length_singleton]

/-- A leaf folds to the root along its siblings, with its position for the sides. -/
theorem foldPath_siblings (f : α → α → α) {depth : Nat} (t : PerfectTree α depth) {i : Nat} {a : α}
    (ha : t.leaves[i]? = some a) : foldPath f a (t.siblings f i) i = t.root f := by
  induction t generalizing i with
  | leaf b =>
    obtain ⟨hi, rfl⟩ := List.getElem?_eq_some_iff.1 ha
    have hzero : i = 0 := Nat.lt_one_iff.1 hi
    subst hzero
    rfl
  | @node depth l r ihl ihr =>
    have hi : i < 2 ^ (depth + 1) := by
      rw [← length_leaves (.node l r)]
      exact (List.getElem?_eq_some_iff.1 ha).1
    rw [leaves] at ha
    rw [siblings, root]
    split
    · -- in the left half the top bit is clear
      rename_i hlow
      rw [List.getElem?_append_left (by rwa [length_leaves])] at ha
      have hfold := ihl ha
      have htop : i / 2 ^ depth = 0 := Nat.div_eq_of_lt hlow
      rw [foldPath] at hfold ⊢
      rw [sidesOf_append, foldSides_append, hfold, length_siblings, htop]
      simp [foldSides]
    · -- in the right half it is set, and below it the position is the one in that half
      rename_i hhigh
      rw [List.getElem?_append_right (by rw [length_leaves]; omega), length_leaves] at ha
      have hfold := ihr ha
      have htop : i / 2 ^ depth = 1 := by
        rw [pow_succ] at hi
        exact Nat.div_eq_of_lt_le (by omega) (by omega)
      have hlow : i % 2 ^ depth = (i - 2 ^ depth) % 2 ^ depth := by
        rw [Nat.mod_eq_sub_mod (by omega)]
      rw [foldPath] at hfold ⊢
      rw [sidesOf_append, foldSides_append, length_siblings, htop,
        sidesOf_congr (show i % 2 ^ (r.siblings f (i - 2 ^ depth)).length =
          (i - 2 ^ depth) % 2 ^ (r.siblings f (i - 2 ^ depth)).length by rw [length_siblings]; exact hlow), hfold]
      simp [foldSides]

end PerfectTree

end Lib
