import Mathlib
/-!
# Finite maps with ordered keys

A `KMap` is a list of key-value pairs in strictly increasing key order, so a
scan returns rows in key order and two maps with the same lookups are the same
map (`KMap.ext_get?`). Bulk updates are folds of `insert` and `erase`; their
lookup lemmas (`get?_insertAll_last`, `get?_eraseAll`) are what an invariant proof
needs, so such a proof never looks at the list.
-/

namespace Lib

/-- Rows in strictly increasing key order. -/
structure KMap (κ : Type) (α : Type) [LinearOrder κ] where
  entries : List (κ × α)
  sorted : entries.Pairwise (fun a b => a.1 < b.1)

namespace KMap

variable {κ α : Type} [LinearOrder κ]

/-! ## Operations -/

def empty : KMap κ α := ⟨[], List.Pairwise.nil⟩

def get? (m : KMap κ α) (k : κ) : Option α := m.entries.lookup k

def contains (m : KMap κ α) (k : κ) : Bool := (m.get? k).isSome

/-- Put `(k, v)` at its place, replacing a row with the same key. -/
def insertRow (k : κ) (v : α) : List (κ × α) → List (κ × α)
  | [] => [(k, v)]
  | (k', v') :: rest =>
    if k < k' then (k, v) :: (k', v') :: rest
    else if k = k' then (k, v) :: rest
    else (k', v') :: insertRow k v rest

theorem mem_insertRow {k : κ} {v : α} {l : List (κ × α)} {e : κ × α} (h : e ∈ insertRow k v l) :
    e = (k, v) ∨ e ∈ l := by
  induction l with
  | nil => simpa [insertRow] using h
  | cons x rest ih =>
    obtain ⟨k', v'⟩ := x
    simp only [insertRow] at h
    split_ifs at h with h1 h2
    · simpa using h
    · rcases List.mem_cons.1 h with h | h
      · exact .inl h
      · exact .inr (List.mem_cons_of_mem _ h)
    · rcases List.mem_cons.1 h with h | h
      · exact .inr (h ▸ List.mem_cons_self)
      · rcases ih h with h | h
        · exact .inl h
        · exact .inr (List.mem_cons_of_mem _ h)

theorem insertRow_sorted (k : κ) (v : α) {l : List (κ × α)} (h : l.Pairwise (fun a b => a.1 < b.1)) :
    (insertRow k v l).Pairwise (fun a b => a.1 < b.1) := by
  induction l with
  | nil => exact List.pairwise_singleton _ _
  | cons x rest ih =>
    obtain ⟨k', v'⟩ := x
    obtain ⟨hx, hrest⟩ := List.pairwise_cons.1 h
    simp only [insertRow]
    split_ifs with h1 h2
    · refine List.pairwise_cons.2 ⟨fun e he => ?_, h⟩
      rcases List.mem_cons.1 he with rfl | he
      · exact h1
      · exact h1.trans (hx e he)
    · subst h2
      exact List.pairwise_cons.2 ⟨hx, hrest⟩
    · refine List.pairwise_cons.2 ⟨fun e he => ?_, ih hrest⟩
      rcases mem_insertRow he with rfl | he
      · exact lt_of_le_of_ne (not_lt.1 h1) (Ne.symm h2)
      · exact hx e he

def insert (m : KMap κ α) (k : κ) (v : α) : KMap κ α := ⟨insertRow k v m.entries, insertRow_sorted k v m.sorted⟩

/-- Keep the rows whose key and value satisfy `p`. -/
def filter (m : KMap κ α) (p : κ → α → Bool) : KMap κ α :=
  ⟨m.entries.filter (fun e => p e.1 e.2), m.sorted.sublist List.filter_sublist⟩

def erase (m : KMap κ α) (k : κ) : KMap κ α := m.filter (fun k' _ => !decide (k' = k))

def eraseAll (m : KMap κ α) (ks : List κ) : KMap κ α := ks.foldl erase m

def insertAll (m : KMap κ α) (kvs : List (κ × α)) : KMap κ α := kvs.foldl (fun m e => m.insert e.1 e.2) m

/-- Apply `f` to the row at `k`, if there is one. -/
def modify (m : KMap κ α) (k : κ) (f : α → α) : KMap κ α :=
  match m.get? k with
  | some v => m.insert k (f v)
  | none => m

def keys (m : KMap κ α) : List κ := m.entries.map Prod.fst

def size (m : KMap κ α) : Nat := m.entries.length

/-- The rows with a key from `lo` to `hi`, in key order. -/
def range (m : KMap κ α) (lo hi : κ) : List (κ × α) := m.entries.filter (fun e => lo ≤ e.1 ∧ e.1 ≤ hi)

/-! ## Lookups -/

theorem lookup_cons (k k' : κ) (v : α) (l : List (κ × α)) :
    ((k', v) :: l).lookup k = if k = k' then some v else l.lookup k := by
  rw [List.lookup_cons]
  by_cases h : k = k'
  · simp [h]
  · simp [h, beq_eq_false_iff_ne.2 h]

theorem lookup_eq_some_iff {k : κ} {v : α} {l : List (κ × α)} (h : l.Pairwise (fun a b => a.1 < b.1)) :
    l.lookup k = some v ↔ (k, v) ∈ l := by
  induction l with
  | nil => simp
  | cons x rest ih =>
    obtain ⟨k', v'⟩ := x
    obtain ⟨hx, hrest⟩ := List.pairwise_cons.1 h
    rw [lookup_cons]
    by_cases hk : k = k'
    · subst hk
      have hnot : (k, v) ∉ rest := fun hm => lt_irrefl k (hx (k, v) hm)
      simp only [if_true, Option.some.injEq, List.mem_cons, Prod.mk.injEq, true_and, hnot, or_false]
      exact eq_comm
    · simp [hk, ih hrest]

theorem mem_entries {m : KMap κ α} {k : κ} {v : α} : (k, v) ∈ m.entries ↔ m.get? k = some v :=
  (lookup_eq_some_iff m.sorted).symm

theorem entries_nodup (m : KMap κ α) : m.entries.Nodup := by
  apply m.sorted.imp
  intro a b hlt he
  subst he
  exact lt_irrefl _ hlt

theorem keys_nodup (m : KMap κ α) : (m.entries.map Prod.fst).Nodup :=
  List.pairwise_map.2 (m.sorted.imp fun hlt => ne_of_lt hlt)

theorem ext_get? {m m' : KMap κ α} (h : ∀ k, m.get? k = m'.get? k) : m = m' := by
  have hperm : m.entries.Perm m'.entries := by
    rw [List.perm_ext_iff_of_nodup m.entries_nodup m'.entries_nodup]
    rintro ⟨k, v⟩
    rw [mem_entries, mem_entries, h]
  have he : m.entries = m'.entries :=
    hperm.eq_of_pairwise (fun _ _ _ _ hab hba => absurd (hab.trans hba) (lt_irrefl _)) m.sorted m'.sorted
  cases m
  cases m'
  simpa using he

@[simp] theorem get?_empty (k : κ) : (empty : KMap κ α).get? k = none := rfl

theorem get?_insert (m : KMap κ α) (k k' : κ) (v : α) :
    (m.insert k v).get? k' = if k' = k then some v else m.get? k' := by
  obtain ⟨l, hl⟩ := m
  simp only [insert, get?]
  clear hl
  induction l with
  | nil => simp [insertRow, lookup_cons]
  | cons x rest ih =>
    obtain ⟨k₁, v₁⟩ := x
    simp only [insertRow]
    by_cases h1 : k < k₁
    · rw [if_pos h1, lookup_cons]
    · rw [if_neg h1]
      by_cases h2 : k = k₁
      · subst h2
        rw [if_pos rfl, lookup_cons, lookup_cons]
        by_cases h3 : k' = k <;> simp [h3]
      · rw [if_neg h2, lookup_cons, lookup_cons, ih]
        by_cases h3 : k' = k₁
        · simp [h3, Ne.symm h2]
        · simp [h3]

@[simp] theorem get?_insert_self (m : KMap κ α) (k : κ) (v : α) : (m.insert k v).get? k = some v := by
  rw [get?_insert, if_pos rfl]

theorem get?_filter (m : KMap κ α) (p : κ → α → Bool) (k : κ) :
    (m.filter p).get? k = (m.get? k).filter (p k) := by
  apply Option.ext
  intro v
  rw [Option.filter_eq_some_iff, ← mem_entries, ← mem_entries]
  simp [filter, List.mem_filter]

theorem get?_erase (m : KMap κ α) (k k' : κ) : (m.erase k).get? k' = if k' = k then none else m.get? k' := by
  rw [erase, get?_filter]
  cases m.get? k' <;> by_cases h : k' = k <;> simp [h, Option.filter]

theorem get?_eraseAll (m : KMap κ α) (ks : List κ) (k : κ) :
    (m.eraseAll ks).get? k = if k ∈ ks then none else m.get? k := by
  induction ks generalizing m with
  | nil => simp [eraseAll]
  | cons x ks ih =>
    simp only [eraseAll, List.foldl_cons] at ih ⊢
    rw [ih, get?_erase]
    by_cases hk : k ∈ ks
    · simp [hk]
    · by_cases hx : k = x <;> simp [hk, hx]

theorem get?_modify (m : KMap κ α) (k k' : κ) (f : α → α) :
    (m.modify k f).get? k' = if k' = k then (m.get? k).map f else m.get? k' := by
  unfold modify
  cases h : m.get? k with
  | some v => simp [get?_insert]
  | none =>
    by_cases hk : k' = k
    · simp [hk, h]
    · simp [hk]

/-- A bulk insert leaves the last row of each key. -/
theorem get?_insertAll_last (m : KMap κ α) (kvs : List (κ × α)) (k : κ) :
    (m.insertAll kvs).get? k = (kvs.reverse.lookup k).or (m.get? k) := by
  induction kvs generalizing m with
  | nil => simp [insertAll]
  | cons e kvs ih =>
    obtain ⟨k₁, v₁⟩ := e
    simp only [insertAll, List.foldl_cons] at ih ⊢
    rw [ih, get?_insert, List.reverse_cons, List.lookup_append, lookup_cons]
    by_cases hk : k = k₁
    · simp [hk]
    · simp [hk]

theorem get?_insertAll_of_ne {m : KMap κ α} {kvs : List (κ × α)} {k : κ} (h : ∀ e ∈ kvs, e.1 ≠ k) :
    (m.insertAll kvs).get? k = m.get? k := by
  have hnone : kvs.reverse.lookup k = none := by
    rw [List.lookup_eq_none_iff]
    intro e he
    simpa using (h e (List.mem_reverse.1 he)).symm
  rw [get?_insertAll_last, hnone, Option.none_or]

/-! ## One row taken out -/

theorem erase_perm {m : KMap κ α} {k : κ} {v : α} (h : m.get? k = some v) :
    m.entries.Perm ((k, v) :: (m.erase k).entries) := by
  have hnot : (k, v) ∉ (m.erase k).entries := by
    rw [mem_entries, get?_erase, if_pos rfl]
    exact Option.some_ne_none v ∘ Eq.symm
  rw [List.perm_ext_iff_of_nodup m.entries_nodup (List.nodup_cons.2 ⟨hnot, entries_nodup _⟩)]
  rintro ⟨k', v'⟩
  rw [List.mem_cons, mem_entries, mem_entries, get?_erase, Prod.mk.injEq]
  by_cases hk : k' = k
  · subst hk
    simp [h, eq_comm]
  · simp [hk]

theorem erase_insert (m : KMap κ α) (k : κ) (v : α) : (m.insert k v).erase k = m.erase k := by
  apply ext_get?
  intro k'
  rw [get?_erase, get?_erase, get?_insert]
  split <;> rfl

theorem insert_perm (m : KMap κ α) (k : κ) (v : α) : (m.insert k v).entries.Perm ((k, v) :: (m.erase k).entries) := by
  have h := erase_perm (m.get?_insert_self k v)
  rwa [erase_insert] at h

theorem erase_of_none {m : KMap κ α} {k : κ} (h : m.get? k = none) : m.erase k = m := by
  apply ext_get?
  intro k'
  rw [get?_erase]
  split
  · rename_i hk
    rw [hk, h]
  · rfl

theorem insert_of_get? {m : KMap κ α} {k : κ} {v : α} (h : m.get? k = some v) : m.insert k v = m := by
  apply ext_get?
  intro k'
  rw [get?_insert]
  split
  · rename_i hk
    rw [hk, h]
  · rfl

/-- An insert that leaves the values as they were found its row in place. -/
theorem get?_of_values_insert {m : KMap κ α} {k : κ} {v : α}
    (h : ((m.insert k v).entries.map Prod.snd).Perm (m.entries.map Prod.snd)) : m.get? k = some v := by
  have hnew := h.symm.trans ((m.insert_perm k v).map Prod.snd)
  cases hk : m.get? k with
  | none =>
    rw [erase_of_none hk] at hnew
    have hlen := hnew.length_eq
    simp at hlen
  | some w =>
    have hold := ((erase_perm hk).map Prod.snd).symm.trans hnew
    rw [List.map_cons, List.map_cons] at hold
    have hsingle : [w].Perm [v] := (List.perm_append_right_iff ((m.erase k).entries.map Prod.snd)).1 hold
    rw [List.singleton_perm_singleton.1 hsingle]

/-- An erase that leaves the values as they were found no row. -/
theorem get?_of_values_erase {m : KMap κ α} {k : κ}
    (h : ((m.erase k).entries.map Prod.snd).Perm (m.entries.map Prod.snd)) : m.get? k = none := by
  cases hk : m.get? k with
  | none => rfl
  | some w =>
    have hlen := (h.trans ((erase_perm hk).map Prod.snd)).length_eq
    simp at hlen

/-! ## Sizes -/

theorem size_erase_le (m : KMap κ α) (k : κ) : (m.erase k).size ≤ m.size := List.length_filter_le _ _

theorem size_eraseAll_le (m : KMap κ α) (ks : List κ) : (m.eraseAll ks).size ≤ m.size := by
  induction ks generalizing m with
  | nil => exact le_rfl
  | cons k ks ih => exact (ih (m.erase k)).trans (m.size_erase_le k)

theorem size_insert_le (m : KMap κ α) (k : κ) (v : α) : (m.insert k v).size ≤ m.size + 1 := by
  have hperm := (m.insert_perm k v).length_eq
  have herase := m.size_erase_le k
  rw [List.length_cons] at hperm
  simp only [size] at herase ⊢
  omega

theorem mem_keys {m : KMap κ α} {k : κ} : k ∈ m.keys ↔ ∃ v, m.get? k = some v := by
  simp only [keys, List.mem_map, Prod.exists, exists_and_right, exists_eq_right, mem_entries]

theorem mem_range {m : KMap κ α} {lo hi k : κ} {v : α} :
    (k, v) ∈ m.range lo hi ↔ m.get? k = some v ∧ lo ≤ k ∧ k ≤ hi := by
  simp only [range, List.mem_filter, mem_entries, decide_eq_true_eq]

/-- Erasing the keys of the rows that satisfy `q` keeps the other rows. -/
theorem eraseAll_filter (m : KMap κ α) (q : κ × α → Bool) :
    m.eraseAll ((m.entries.filter q).map Prod.fst) = m.filter (fun k v => !q (k, v)) := by
  apply ext_get?
  intro k
  have hmem : k ∈ (m.entries.filter q).map Prod.fst ↔ ∃ v, m.get? k = some v ∧ q (k, v) = true := by
    simp only [List.mem_map, List.mem_filter, Prod.exists, exists_and_right, exists_eq_right, mem_entries]
  rw [get?_eraseAll, get?_filter]
  cases h : m.get? k with
  | none => simp
  | some v => cases hq : q (k, v) <;> simp [hmem, h, hq, Option.filter]

theorem contains_iff {m : KMap κ α} {k : κ} : m.contains k = true ↔ ∃ v, m.get? k = some v := by
  rw [contains, Option.isSome_iff_exists]

end KMap

end Lib
