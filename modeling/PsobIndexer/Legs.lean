import PsobIndexer.Transparency
/-!
# Legs of a sibling list

A sibling list has one leg for each chain on it, at the chain's lowest height
(`mem_legsByChain`), so it has as many legs as distinct chains.
-/
open Lib

namespace PsobIndexer

open Database

/-- The number of distinct chains on a list of blocks. -/
def chainCount (l : List StoredBlock) : Nat := (l.map (·.chain_id)).dedup.length

theorem chainCount_perm {l l' : List StoredBlock} (h : l.Perm l') : chainCount l = chainCount l' :=
  ((h.map _).dedup).length_eq

theorem chainCount_le_of_subset {l l' : List StoredBlock} (h : ∀ b ∈ l, ∃ b' ∈ l', b'.chain_id = b.chain_id) :
    chainCount l ≤ chainCount l' := by
  refine List.Subperm.length_le (List.subperm_of_subset (List.nodup_dedup _) fun c hc => ?_)
  obtain ⟨b, hb, rfl⟩ := List.mem_map.1 (List.mem_dedup.1 hc)
  obtain ⟨b', hb', heq⟩ := h b hb
  exact List.mem_dedup.2 (List.mem_map.2 ⟨b', hb', heq⟩)

/-- Two chains on the list are two blocks of different chains. -/
theorem two_le_chainCount {l : List StoredBlock} :
    2 ≤ chainCount l ↔ ∃ b ∈ l, ∃ b' ∈ l, b.chain_id ≠ b'.chain_id := by
  unfold chainCount
  constructor
  · intro h
    obtain ⟨c, rest, hcons⟩ := List.exists_cons_of_length_pos (lt_of_lt_of_le Nat.two_pos h)
    rw [hcons] at h
    obtain ⟨c', rest', rfl⟩ := List.exists_cons_of_length_pos (Nat.lt_of_succ_le (Nat.le_of_succ_le_succ h))
    have hn := List.nodup_dedup (l.map (·.chain_id))
    rw [hcons] at hn
    have hc : c ∈ l.map (·.chain_id) := List.mem_dedup.1 (by rw [hcons]; exact List.mem_cons_self)
    have hc' : c' ∈ l.map (·.chain_id) := List.mem_dedup.1 (by rw [hcons]; simp)
    obtain ⟨b, hb, rfl⟩ := List.mem_map.1 hc
    obtain ⟨b', hb', rfl⟩ := List.mem_map.1 hc'
    refine ⟨b, hb, b', hb', fun he => ?_⟩
    rw [he] at hn
    exact (List.nodup_cons.1 hn).1 List.mem_cons_self
  · rintro ⟨b, hb, b', hb', hne⟩
    have hsub : [b.chain_id, b'.chain_id] ⊆ (l.map (·.chain_id)).dedup := by
      intro c hc
      rw [List.mem_dedup]
      rcases List.mem_cons.1 hc with rfl | hc
      · exact List.mem_map_of_mem hb
      · rw [List.mem_singleton.1 hc]
        exact List.mem_map_of_mem hb'
    exact (List.subperm_of_subset (by simpa using hne) hsub).length_le

theorem min?_append_singleton (l : List UInt64) (h : UInt64) : (l ++ [h]).min? = some ((l.min?.map (min · h)).getD h) := by
  cases l with
  | nil => rfl
  | cons x xs =>
    rw [List.cons_append, List.min?_cons', List.min?_cons', List.foldl_append]
    rfl

/-- A leg is the lowest height of its chain. -/
theorem get?_legsByChain (l : List StoredBlock) (c : UInt32) :
    (legsByChain l).get? c = ((l.filter (·.chain_id = c)).map (·.height)).min? := by
  induction l using List.reverseRecOn with
  | nil => rfl
  | append_singleton l b ih =>
    have hstep : legsByChain (l ++ [b]) = (legsByChain l).insert b.chain_id
        ((((legsByChain l).get? b.chain_id).map (min · b.height)).getD b.height) := by
      unfold legsByChain
      rw [List.foldl_append]
      rfl
    rw [hstep, KMap.get?_insert, List.filter_append, List.map_append]
    by_cases hc : c = b.chain_id
    · subst hc
      rw [if_pos rfl, List.filter_cons_of_pos (by simp), List.filter_nil, List.map_cons, List.map_nil,
        min?_append_singleton, ih]
    · rw [if_neg hc, List.filter_cons_of_neg (by simpa using Ne.symm hc), List.filter_nil, List.map_nil, List.append_nil, ih]

theorem mem_legsByChain {l : List StoredBlock} {c : UInt32} {h : UInt64} :
    (c, h) ∈ (legsByChain l).entries ↔ (∃ b ∈ l, b.chain_id = c ∧ b.height = h) ∧ ∀ b ∈ l, b.chain_id = c → h ≤ b.height := by
  rw [KMap.mem_entries, get?_legsByChain, List.min?_eq_some_iff]
  simp only [List.mem_map, List.mem_filter, decide_eq_true_eq, and_assoc]
  refine and_congr_right fun _ => ⟨?_, ?_⟩
  · intro hle b hb hc
    exact hle b.height ⟨b, hb, hc, rfl⟩
  · rintro hle _ ⟨b, hb, hc, rfl⟩
    exact hle b hb hc

/-- The chains of the legs are the chains of the list. -/
theorem mem_keys_legsByChain {l : List StoredBlock} {c : UInt32} :
    c ∈ (legsByChain l).keys ↔ ∃ b ∈ l, b.chain_id = c := by
  rw [KMap.mem_keys, get?_legsByChain, ← Option.isSome_iff_exists, Option.isSome_iff_ne_none, ne_eq, List.min?_eq_none_iff,
    List.map_eq_nil_iff, List.filter_eq_nil_iff]
  simp

/-- One leg for each distinct chain. -/
theorem length_legsByChain (l : List StoredBlock) : (legsByChain l).entries.length = chainCount l := by
  have hperm : (legsByChain l).keys.Perm (l.map (·.chain_id)).dedup := by
    refine (List.perm_ext_iff_of_nodup (KMap.keys_nodup _) (List.nodup_dedup _)).2 ?_
    intro c
    exact mem_keys_legsByChain.trans (by rw [List.mem_dedup, List.mem_map])
  rw [chainCount, ← hperm.length_eq, KMap.keys, List.length_map]

end PsobIndexer
