import Mathlib
/-!
# Pages of a sorted list

Items are taken from a table in some order, sorted and cut into pages. A stable
sort leaves items that share a place in the order they came in, so the pages
depend on that order exactly if two different items share a place.
-/

namespace Lib

variable {α ε : Type}

/-! ## Pages -/

/-- The pages of `limit` items, one after another. -/
theorem flatMap_pages (l : List α) (limit n : Nat) :
    (List.range n).flatMap (fun k => (l.drop (k * limit)).take limit) = l.take (n * limit) := by
  induction n with
  | zero => simp
  | succ n ih =>
    rw [List.range_succ, List.flatMap_append, ih, List.flatMap_singleton, Nat.succ_mul, List.take_add]

/-! ## A sort by a preorder -/

theorem eq_of_increasing [LinearOrder α] {l l' : List α} (h : l.Pairwise (· < ·)) (h' : l'.Pairwise (· < ·))
    (hmem : ∀ a, a ∈ l ↔ a ∈ l') : l = l' := by
  have hperm := (List.perm_ext_iff_of_nodup (h.imp ne_of_lt) (h'.imp ne_of_lt)).2 hmem
  refine hperm.eq_of_pairwise ?_ h h'
  intro a b _ _ hab hba
  exact absurd hab (not_lt_of_gt hba)

section Preorder
variable {le : α → α → Bool} (trans : ∀ a b c, le a b = true → le b c = true → le a c = true)
  (total : ∀ a b, (le a b || le b a) = true)

include trans total

theorem mergeSort_eq_of_perm {l l' : List α} (h : l.Perm l')
    (hanti : ∀ a ∈ l, ∀ b ∈ l, le a b = true → le b a = true → a = b) : l.mergeSort le = l'.mergeSort le := by
  refine List.Perm.eq_of_pairwise ?_ (List.pairwise_mergeSort trans total l) (List.pairwise_mergeSort trans total l')
    ((List.mergeSort_perm l le).trans (h.trans (List.mergeSort_perm l' le).symm))
  intro a b ha hb hab hba
  exact hanti a (List.mem_mergeSort.1 ha) b (h.mem_iff.2 (List.mem_mergeSort.1 hb)) hab hba

/-- Items that share the place of `a` stay in the order they came in. -/
theorem filter_mergeSort (a : α) (l : List α) :
    (l.mergeSort le).filter (fun b => le a b && le b a) = l.filter (fun b => le a b && le b a) := by
  have hpairs : (l.filter (fun b => le a b && le b a)).Pairwise (fun x y => le x y = true) := by
    refine List.pairwise_of_forall_mem_list fun x hx y hy => ?_
    have hx' := Bool.and_eq_true_iff.1 (List.mem_filter.1 hx).2
    have hy' := Bool.and_eq_true_iff.1 (List.mem_filter.1 hy).2
    exact trans x a y hx'.2 hy'.1
  have hsub := (List.sublist_mergeSort trans total hpairs List.filter_sublist).filter (fun b => le a b && le b a)
  rw [List.filter_filter] at hsub
  simp only [Bool.and_self] at hsub
  exact (hsub.eq_of_length ((List.mergeSort_perm l le).filter _).length_eq.symm).symm

theorem le_of_head?_mergeSort {l : List α} {a b : α} (ha : (l.mergeSort le).head? = some a) (hb : b ∈ l) :
    le a b = true := by
  obtain ⟨rest, hrest⟩ := List.head?_eq_some_iff.1 ha
  have hsorted := List.pairwise_mergeSort trans total l
  replace hb : b ∈ l.mergeSort le := List.mem_mergeSort.2 hb
  rw [hrest] at hb
  rw [hrest] at hsorted
  rcases List.mem_cons.1 hb with rfl | hb
  · simpa using total b b
  · exact (List.pairwise_cons.1 hsorted).1 b hb

end Preorder

/-! ## Orders of a table -/

/-- The rows that satisfy `p` first. -/
def toFront (p : ε → Bool) (l : List ε) : List ε := l.filter p ++ l.filter (fun e => !p e)

theorem toFront_perm (p : ε → Bool) (l : List ε) : (toFront p l).Perm l := List.filter_append_perm p l

/-- The item of a row that was put first is the first item. -/
theorem head?_filterMap_toFront [DecidableEq ε] {f : ε → Option α} {l : List ε} {e : ε} {a : α} (he : e ∈ l)
    (ha : f e = some a) : ((toFront (fun x => decide (x = e)) l).filterMap f).head? = some a := by
  have hmem : e ∈ l.filter (fun x => decide (x = e)) := List.mem_filter.2 ⟨he, by simp⟩
  obtain ⟨x, rest, hrest⟩ := List.exists_cons_of_ne_nil (List.ne_nil_of_mem hmem)
  have hx : x = e := by
    have hx := List.mem_cons_self (a := x) (l := rest)
    rw [← hrest] at hx
    simpa using (List.mem_filter.1 hx).2
  rw [toFront, hrest, List.cons_append, List.filterMap_cons_some (by rw [hx]; exact ha), List.head?_cons]

/-- The sorted items do not depend on the order of the table exactly if items that
share a place are equal. -/
theorem mergeSort_order_iff [DecidableEq ε] {le : α → α → Bool}
    (trans : ∀ a b c, le a b = true → le b c = true → le a c = true) (total : ∀ a b, (le a b || le b a) = true)
    (f : ε → Option α) (l : List ε) :
    (∀ p q, ((toFront p l).filterMap f).mergeSort le = ((toFront q l).filterMap f).mergeSort le) ↔
      ∀ a ∈ l.filterMap f, ∀ b ∈ l.filterMap f, le a b = true → le b a = true → a = b := by
  constructor
  · intro h a ha b hb hab hba
    obtain ⟨e, he, hfe⟩ := List.mem_filterMap.1 ha
    obtain ⟨e', he', hfe'⟩ := List.mem_filterMap.1 hb
    have hfirst := head?_filterMap_toFront he hfe
    have hfirst' := head?_filterMap_toFront he' hfe'
    obtain ⟨rest, hrest⟩ := List.head?_eq_some_iff.1 hfirst
    obtain ⟨rest', hrest'⟩ := List.head?_eq_some_iff.1 hfirst'
    -- the items at the place of `a` come out as they went in
    have htied := congrArg (List.filter (fun x => le a x && le x a))
      (h (fun x => decide (x = e)) (fun x => decide (x = e')))
    have haa : le a a = true := by simpa using total a a
    rw [filter_mergeSort trans total, filter_mergeSort trans total, hrest, hrest',
      List.filter_cons_of_pos (by simp [haa]), List.filter_cons_of_pos (by simp [hab, hba])] at htied
    exact (List.cons.inj htied).1
  · intro h p q
    refine mergeSort_eq_of_perm trans total (((toFront_perm p l).trans (toFront_perm q l).symm).filterMap f) ?_
    intro a ha b hb
    rw [((toFront_perm p l).filterMap f).mem_iff] at ha hb
    exact h a ha b hb

/-! ## Reading page after page -/

/-- An order a table can be walked in. -/
structure TableOrder (ε : Type) where
  run : List ε → List ε
  perm : ∀ l, (run l).Perm l

/-- The rows that satisfy `p` first. -/
def TableOrder.front (p : ε → Bool) : TableOrder ε := ⟨toFront p, toFront_perm p⟩

/-- `limit` of the sorted items of a table, from position `offset` on. -/
def readPage (le : α → α → Bool) (f : ε → Option α) (l : List ε) (o : TableOrder ε) (limit offset : Nat) : List α :=
  ((((o.run l).filterMap f).mergeSort le).drop offset).take limit

/-- No page depends on the order the table was walked in, and pages read one after
another, each in an order of its own, are the items, each of them once. -/
structure StablePages (read : TableOrder ε → Nat → Nat → List α) (items : List α) : Prop where
  same : ∀ o o' limit offset, 1 ≤ limit → read o limit offset = read o' limit offset
  once : ∀ limit, 1 ≤ limit → ∀ (orders : Nat → TableOrder ε) n, items.length ≤ n * limit →
    ((List.range n).flatMap fun k => read (orders k) limit (k * limit)).Perm items

/-- Pages are stable exactly if no two different items share a place. -/
theorem stablePages_iff {le : α → α → Bool} (trans : ∀ a b c, le a b = true → le b c = true → le a c = true)
    (total : ∀ a b, (le a b || le b a) = true) (f : ε → Option α) (l : List ε) :
    StablePages (readPage le f l) (l.filterMap f) ↔
      ∀ a ∈ l.filterMap f, ∀ b ∈ l.filterMap f, le a b = true → le b a = true → a = b := by
  classical
  rw [← mergeSort_order_iff trans total f l]
  constructor
  · rintro h p q
    -- a page that is long enough is the whole list
    have hwhole : ∀ p, readPage le f l (.front p) (l.length + 1) 0 = ((toFront p l).filterMap f).mergeSort le := by
      intro p
      unfold readPage
      rw [List.drop_zero, List.take_of_length_le]
      · rfl
      · rw [List.length_mergeSort]
        refine (List.length_filterMap_le _ _).trans ?_
        rw [((TableOrder.front p).perm l).length_eq]
        exact Nat.le_succ _
    rw [← hwhole p, ← hwhole q]
    exact h.same _ _ _ _ (Nat.le_add_left _ _)
  · intro h
    have hanti := (mergeSort_order_iff trans total f l).1 h
    have hsorted : ∀ o : TableOrder ε, ((o.run l).filterMap f).mergeSort le = (l.filterMap f).mergeSort le := by
      intro o
      refine (mergeSort_eq_of_perm trans total ((o.perm l).symm.filterMap f) hanti).symm
    constructor
    · intro o o' limit offset _
      rw [readPage, readPage, hsorted, hsorted]
    · intro limit _ orders n hn
      have hpage : ∀ k, readPage le f l (orders k) limit (k * limit) =
          (((l.filterMap f).mergeSort le).drop (k * limit)).take limit := by
        intro k
        rw [readPage, hsorted]
      simp only [hpage]
      rw [flatMap_pages, List.take_of_length_le (by rw [List.length_mergeSort]; exact hn)]
      exact List.mergeSort_perm _ _

end Lib
