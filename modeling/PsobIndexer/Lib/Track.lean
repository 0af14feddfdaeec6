import Mathlib
/-!
# Linked tracks

A track holds one item at each of the positions `lo + 1, …, cursor`, and each
item is linked to the one before it. It grows at the upper end by whole runs,
loses its last item, and is trimmed at the lower end.
-/

namespace Lib

structure Track (β : Type) (Link : β → β → Prop) where
  lo : Nat
  items : List β
  linked : items.IsChain Link

namespace Track

variable {β : Type} {Link : β → β → Prop}

/-- The highest position in use, or `lo` when there is none. -/
def cursor (t : Track β Link) : Nat := t.lo + t.items.length

/-- The item at a position. -/
def item (t : Track β Link) (h : Nat) : Option β := if t.lo < h then t.items[h - t.lo - 1]? else none

theorem item_eq_some {t : Track β Link} {h : Nat} {b : β} :
    t.item h = some b ↔ t.lo < h ∧ t.items[h - t.lo - 1]? = some b := by
  unfold item
  split_ifs with hlo
  · simp [hlo]
  · simp [hlo]

theorem item_bounds {t : Track β Link} {h : Nat} {b : β} (hb : t.item h = some b) : t.lo < h ∧ h ≤ t.cursor := by
  obtain ⟨hlo, hget⟩ := item_eq_some.1 hb
  obtain ⟨hlt, -⟩ := List.getElem?_eq_some_iff.1 hget
  unfold cursor
  omega

theorem exists_item {t : Track β Link} {h : Nat} (hlo : t.lo < h) (hcur : h ≤ t.cursor) : ∃ b, t.item h = some b := by
  unfold cursor at hcur
  have hlt : h - t.lo - 1 < t.items.length := by omega
  exact ⟨t.items[h - t.lo - 1], item_eq_some.2 ⟨hlo, List.getElem?_eq_getElem hlt⟩⟩

theorem item_cursor (t : Track β Link) : t.item t.cursor = t.items.getLast? := by
  unfold item cursor
  rw [List.getLast?_eq_getElem?]
  split_ifs with hlo
  · congr 1
    omega
  · have hnil : t.items = [] := List.length_eq_zero_iff.1 (by omega)
    simp [hnil]

/-- Neighbours are linked. -/
theorem link_item {t : Track β Link} {h : Nat} {a b : β} (ha : t.item h = some a) (hb : t.item (h + 1) = some b) :
    Link a b := by
  obtain ⟨hlo, hget⟩ := item_eq_some.1 ha
  obtain ⟨-, hget'⟩ := item_eq_some.1 hb
  obtain ⟨hlt, rfl⟩ := List.getElem?_eq_some_iff.1 hget
  have hnext : h + 1 - t.lo - 1 = h - t.lo - 1 + 1 := by omega
  rw [hnext] at hget'
  obtain ⟨hlt', rfl⟩ := List.getElem?_eq_some_iff.1 hget'
  exact List.isChain_iff_getElem.1 t.linked _ hlt'

/-! ## Operations -/

/-- A track with nothing on it. -/
def start (lo : Nat) : Track β Link := ⟨lo, [], .nil⟩

/-- Append a linked run. -/
def extend (t : Track β Link) (bs : List β) (hbs : bs.IsChain Link)
    (hjoin : ∀ a ∈ t.items.getLast?, ∀ b ∈ bs.head?, Link a b) : Track β Link :=
  ⟨t.lo, t.items ++ bs, t.linked.append hbs hjoin⟩

/-- Drop the last item. -/
def pop (t : Track β Link) : Track β Link := ⟨t.lo, t.items.dropLast, t.linked.dropLast⟩

/-- Drop the lowest `n` items. -/
def trim (t : Track β Link) (n : Nat) : Track β Link :=
  ⟨t.lo + min n t.items.length, t.items.drop n, t.linked.drop n⟩

/-- Keep the highest `k` items. -/
def keep (t : Track β Link) (k : Nat) : Track β Link := t.trim (t.items.length - k)

theorem item_start (lo h : Nat) : (start lo : Track β Link).item h = none := by
  simp [item, start]

theorem cursor_extend (t : Track β Link) (bs : List β) (hbs : bs.IsChain Link)
    (hjoin : ∀ a ∈ t.items.getLast?, ∀ b ∈ bs.head?, Link a b) : (t.extend bs hbs hjoin).cursor = t.cursor + bs.length := by
  simp only [cursor, extend, List.length_append]
  omega

theorem item_extend (t : Track β Link) (bs : List β) (hbs : bs.IsChain Link)
    (hjoin : ∀ a ∈ t.items.getLast?, ∀ b ∈ bs.head?, Link a b) (h : Nat) :
    (t.extend bs hbs hjoin).item h = if h ≤ t.cursor then t.item h else bs[h - t.cursor - 1]? := by
  have hc : t.cursor = t.lo + t.items.length := rfl
  simp only [item, extend, List.getElem?_append]
  by_cases hlo : t.lo < h
  · by_cases hcur : h ≤ t.cursor
    · rw [if_pos hlo, if_pos hlo, if_pos hcur, if_pos (by omega)]
    · rw [if_pos hlo, if_neg hcur, if_neg (by omega)]
      congr 1
      omega
  · rw [if_neg hlo, if_neg hlo, if_pos (by omega)]

theorem cursor_pop (t : Track β Link) (hne : t.items ≠ []) : t.pop.cursor + 1 = t.cursor := by
  have hpos := List.length_pos_iff.2 hne
  simp only [cursor, pop, List.length_dropLast]
  omega

theorem item_pop (t : Track β Link) (h : Nat) : t.pop.item h = if h < t.cursor then t.item h else none := by
  have hc : t.cursor = t.lo + t.items.length := rfl
  simp only [item, pop, List.getElem?_dropLast]
  by_cases hlo : t.lo < h
  · by_cases hcur : h < t.cursor
    · rw [if_pos hlo, if_pos hlo, if_pos hcur, if_pos (by omega)]
    · rw [if_pos hlo, if_neg hcur, if_neg (by omega)]
  · simp [hlo]

theorem trim_zero (t : Track β Link) : t.trim 0 = t := by
  simp [trim]

theorem cursor_trim (t : Track β Link) (n : Nat) : (t.trim n).cursor = t.cursor := by
  simp only [cursor, trim, List.length_drop]
  omega

theorem item_trim (t : Track β Link) (n h : Nat) : (t.trim n).item h = if t.lo + n < h then t.item h else none := by
  simp only [item, trim, List.getElem?_drop]
  by_cases hlo : t.lo + min n t.items.length < h
  · rw [if_pos hlo]
    by_cases hn : t.lo + n < h
    · rw [if_pos hn, if_pos (by omega)]
      by_cases hlen : n ≤ t.items.length
      · congr 1
        omega
      · rw [List.getElem?_eq_none (by omega), List.getElem?_eq_none (by omega)]
    · rw [if_neg hn, List.getElem?_eq_none (by omega)]
  · rw [if_neg hlo, if_neg (by omega)]

theorem length_keep (t : Track β Link) (k : Nat) : (t.keep k).items.length = min k t.items.length := by
  simp only [keep, trim, List.length_drop]
  omega

theorem cursor_keep (t : Track β Link) (k : Nat) : (t.keep k).cursor = t.cursor := cursor_trim t _

/-- Items up to `cursor - k` go. -/
theorem item_keep (t : Track β Link) (k h : Nat) : (t.keep k).item h = if t.cursor - k < h then t.item h else none := by
  have hc : t.cursor = t.lo + t.items.length := rfl
  rw [keep, item_trim]
  by_cases hlo : t.lo < h
  · exact if_congr (by omega) rfl rfl
  · have hnone : t.item h = none := if_neg hlo
    rw [hnone, ite_self, ite_self]

end Track

end Lib
