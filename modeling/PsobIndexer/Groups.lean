import PsobIndexer.Legs
import PsobIndexer.Lib.Pages
import PsobIndexer.Isolation
/-!
# Sibling groups

The groups a coherent store lists, read off its tables: a mainnet parent with
stored blocks from enough chains, with one leg for each of them. The filter on a
chain and the latest group are then compared with what their names say; both go
wrong for the same reason, that they reuse a list made for another question.
-/
open Lib

namespace PsobIndexer

open Database

section Sha
variable (sha256d : Bytes → Hash32)

/-- The parent was found on mainnet, at this height. -/
def OnMainnetAt (db : Database) (p : Hash32) (ltc_height : UInt64) : Prop :=
  ∃ sp, db.cache_parents.get? p = some sp ∧ sp.parent_state = 1 ∧ sp.ltc_height = some ltc_height

/-- A mainnet parent with stored blocks from at least `min_legs` chains. -/
structure SharedAt (db : Database) (min_legs : Nat) (p : Hash32) (ltc_height : UInt64) : Prop where
  mainnet : OnMainnetAt db p ltc_height
  chains : min_legs ≤ chainCount (storedUnder sha256d db p)

variable {sha256d}

/-- The stored blocks of a parent that pass the filter of a listing. -/
theorem Coherent.mem_allSharedParents {db : Database} (h : Coherent sha256d db)
    {iter : List (Hash32 × StoredParent) → List (Hash32 × StoredParent)} (hiter : ∀ l, (iter l).Perm l)
    {min_legs : Nat} (hmin : 1 ≤ min_legs) {chain_filter : Option UInt32} {g : SharedParent} :
    g ∈ db.allSharedParents iter min_legs chain_filter ↔
      OnMainnetAt db g.parent_hash_le g.ltc_height ∧ min_legs ≤ g.legs.length ∧
        g.legs = (legsByChain ((storedUnder sha256d db g.parent_hash_le).filter
          (fun s => chain_filter.all (s.chain_id == ·)))).entries := by
  -- the cached list and the stored blocks have the same legs
  have hlegs : ∀ p l, db.cache_siblings.get? p = some l →
      legsByChain (l.filter (fun s => chain_filter.all (s.chain_id == ·))) =
        legsByChain ((storedUnder sha256d db p).filter (fun s => chain_filter.all (s.chain_id == ·))) := by
    intro p l hl
    have hperm := h.listed p
    rw [siblings, hl, Option.getD_some] at hperm
    exact legsByChain_perm (hperm.filter _)
  have hstate : ∀ p sp, db.cache_parents.get? p = some sp → ∀ hh, sp.ltc_height = some hh → sp.parent_state = 1 := by
    intro p sp hsp hh hltc
    exact (h.states p sp hsp).2 (by rw [hltc]; rfl)
  unfold allSharedParents
  rw [List.mem_mergeSort, List.mem_filterMap]
  constructor
  · rintro ⟨⟨p, sp⟩, hmem, hg⟩
    have hsp := KMap.mem_entries.1 ((hiter _).mem_iff.1 hmem)
    unfold sharedParent at hg
    obtain ⟨hh, hltc, hg⟩ := Option.bind_eq_some_iff.1 hg
    obtain ⟨l, hl, hg⟩ := Option.bind_eq_some_iff.1 hg
    simp only at hl hltc hg
    split_ifs at hg with hlen
    cases hg
    rw [hlegs p l hl] at hlen ⊢
    exact ⟨⟨sp, hsp, hstate p sp hsp hh hltc, hltc⟩, hlen, rfl⟩
  · rintro ⟨⟨sp, hsp, -, hltc⟩, hlen, hg⟩
    refine ⟨(g.parent_hash_le, sp), (hiter _).mem_iff.2 (KMap.mem_entries.2 hsp), ?_⟩
    cases hl : db.cache_siblings.get? g.parent_hash_le with
    | none =>
      -- no list, so no stored block and no leg
      have hnil : storedUnder sha256d db g.parent_hash_le = [] := by
        have hperm := h.listed g.parent_hash_le
        rw [siblings, hl] at hperm
        exact hperm.symm.eq_nil
      rw [hg, hnil, List.filter_nil] at hlen
      exact absurd (hmin.trans hlen) (by decide)
    | some l =>
      unfold sharedParent
      simp only [hltc, hl, Option.bind_eq_bind, Option.bind_some, hlegs _ l hl, ← hg]
      rw [if_pos hlen]

theorem Coherent.mem_groups {db : Database} (h : Coherent sha256d db)
    {iter : List (Hash32 × StoredParent) → List (Hash32 × StoredParent)} (hiter : ∀ l, (iter l).Perm l)
    {min_legs : Nat} (hmin : 1 ≤ min_legs) {g : SharedParent} :
    g ∈ db.allSharedParents iter min_legs none ↔ SharedAt sha256d db min_legs g.parent_hash_le g.ltc_height ∧
      g.legs = (legsByChain (storedUnder sha256d db g.parent_hash_le)).entries := by
  rw [h.mem_allSharedParents hiter hmin]
  simp only [Option.all_none, List.filter_true]
  constructor
  · rintro ⟨hmain, hlen, hg⟩
    rw [hg, length_legsByChain] at hlen
    exact ⟨⟨hmain, hlen⟩, hg⟩
  · rintro ⟨⟨hmain, hlen⟩, hg⟩
    rw [← length_legsByChain, ← hg] at hlen
    exact ⟨hmain, hlen, hg⟩

/-- The group of a parent that has enough chains. -/
theorem Coherent.group_listed {db : Database} (h : Coherent sha256d db)
    {iter : List (Hash32 × StoredParent) → List (Hash32 × StoredParent)} (hiter : ∀ l, (iter l).Perm l)
    {min_legs : Nat} (hmin : 1 ≤ min_legs) {p : Hash32} {ltc_height : UInt64}
    (hg : SharedAt sha256d db min_legs p ltc_height) :
    ⟨p, ltc_height, (legsByChain (storedUnder sha256d db p)).entries⟩ ∈ db.allSharedParents iter min_legs none :=
  (h.mem_groups hiter hmin).2 ⟨hg, rfl⟩

/-! ## The filter on a chain -/

/-- A page as long as the table of parents shows the whole list. -/
theorem sharedMainnetParents_all {db : Database} {iter : List (Hash32 × StoredParent) → List (Hash32 × StoredParent)}
    (hiter : ∀ l, (iter l).Perm l) (min_legs : Nat) {limit : Nat} (hlimit : db.cache_parents.size ≤ limit)
    (chain_filter : Option UInt32) :
    (db.sharedMainnetParents iter min_legs ⟨limit, 0⟩ chain_filter).1 = db.allSharedParents iter min_legs chain_filter := by
  have hlen : (db.allSharedParents iter min_legs chain_filter).length ≤ limit := by
    unfold allSharedParents
    rw [List.length_mergeSort]
    exact (List.length_filterMap_le _ _).trans (((hiter _).length_eq.le).trans hlimit)
  unfold sharedMainnetParents
  show List.take limit (List.drop 0 _) = _
  rw [List.drop_zero, List.take_of_length_le hlen]

theorem chainCount_filter_le (l : List StoredBlock) (c : UInt32) : chainCount (l.filter (·.chain_id = c)) ≤ 1 := by
  rw [← Nat.not_lt]
  intro h
  obtain ⟨b, hb, b', hb', hne⟩ := two_le_chainCount.1 h
  have hc := (List.mem_filter.1 hb).2
  have hc' := (List.mem_filter.1 hb').2
  simp only [decide_eq_true_eq] at hc hc'
  exact hne (hc.trans hc'.symm)

/-- A list of one chain passes that chain's filter. -/
theorem filter_of_chainCount {l : List StoredBlock} (h : chainCount l < 2) {b : StoredBlock} (hb : b ∈ l) :
    l.filter (·.chain_id = b.chain_id) = l := by
  refine List.filter_eq_self.2 fun s hs => ?_
  by_contra hne
  exact absurd (two_le_chainCount.2 ⟨s, hs, b, hb, by simpa using hne⟩) (Nat.not_le.2 h)

theorem filter_all_some (l : List StoredBlock) (c : UInt32) :
    l.filter (fun s => (some c).all (s.chain_id == ·)) = l.filter (·.chain_id = c) := by
  apply List.filter_congr
  intro b _
  rw [Option.all_some, Bool.beq_eq_decide_eq]

variable (sha256d)

/-- The filtered listing shows the groups with a leg on the chain, whole, exactly
if no mainnet parent with a block of that chain has `min_legs` chains, or two if
`min_legs` is one: the legs are filtered before they are counted. -/
theorem chain_filter_iff (db : Database) (h : Coherent sha256d db) (min_legs limit : Nat) (hmin : 1 ≤ min_legs)
    (hlimit : db.cache_parents.size ≤ limit) (c : UInt32)
    (iter iter' : List (Hash32 × StoredParent) → List (Hash32 × StoredParent)) (hiter : ∀ l, (iter l).Perm l)
    (hiter' : ∀ l, (iter' l).Perm l) :
    (∀ g, g ∈ (db.sharedMainnetParents iter min_legs ⟨limit, 0⟩ (some c)).1 ↔
        g ∈ (db.sharedMainnetParents iter' min_legs ⟨limit, 0⟩ none).1 ∧ ∃ hh, (c, hh) ∈ g.legs) ↔
      ∀ p ltc_height, OnMainnetAt db p ltc_height → (∃ b ∈ storedUnder sha256d db p, b.chain_id = c) →
        chainCount (storedUnder sha256d db p) < max 2 min_legs := by
  rw [sharedMainnetParents_all hiter _ hlimit, sharedMainnetParents_all hiter' _ hlimit]
  have hfiltered : ∀ g, g ∈ db.allSharedParents iter min_legs (some c) ↔
      OnMainnetAt db g.parent_hash_le g.ltc_height ∧ min_legs ≤ g.legs.length ∧
        g.legs = (legsByChain ((storedUnder sha256d db g.parent_hash_le).filter (·.chain_id = c))).entries := by
    intro g
    rw [h.mem_allSharedParents hiter hmin, filter_all_some]
  have hleg : ∀ p hh, (c, hh) ∈ (legsByChain (storedUnder sha256d db p)).entries →
      ∃ b ∈ storedUnder sha256d db p, b.chain_id = c := by
    intro p hh hm
    obtain ⟨⟨b, hb, hc, -⟩, -⟩ := mem_legsByChain.1 hm
    exact ⟨b, hb, hc⟩
  constructor
  · intro hall p ltc_height hmain ⟨b, hb, hc⟩
    by_contra hmany
    rw [Nat.not_lt, Nat.max_le] at hmany
    -- the whole group is listed without the filter, with a leg on `c`
    have hgroup := h.group_listed hiter' hmin ⟨hmain, hmany.2⟩
    have hkey : c ∈ (legsByChain (storedUnder sha256d db p)).keys := mem_keys_legsByChain.2 ⟨b, hb, hc⟩
    obtain ⟨hh, hget⟩ := KMap.mem_keys.1 hkey
    obtain ⟨-, -, hlegs⟩ := (hfiltered _).1 ((hall _).2 ⟨hgroup, hh, KMap.mem_entries.2 hget⟩)
    have hcount := congrArg List.length hlegs
    simp only [length_legsByChain] at hcount
    have hone := chainCount_filter_le (storedUnder sha256d db p) c
    omega
  · intro hcond g
    rw [hfiltered, h.mem_groups hiter' hmin]
    constructor
    · rintro ⟨hmain, hlen, hlegs⟩
      have hlen' := hlen
      rw [hlegs, length_legsByChain] at hlen'
      have hone := chainCount_filter_le (storedUnder sha256d db g.parent_hash_le) c
      have hpos : 0 < ((storedUnder sha256d db g.parent_hash_le).filter (·.chain_id = c)).length := by
        rw [List.length_pos_iff]
        intro hnil
        rw [hnil] at hlen'
        exact absurd (hmin.trans hlen') (by decide)
      obtain ⟨b, hb'⟩ := List.exists_mem_of_length_pos hpos
      obtain ⟨hb, hc⟩ := List.mem_filter.1 hb'
      obtain rfl : b.chain_id = c := by simpa using hc
      have hfew := hcond _ _ hmain ⟨b, hb, rfl⟩
      rw [Nat.max_eq_left (by omega)] at hfew
      rw [filter_of_chainCount hfew hb] at hlegs hlen'
      obtain ⟨hh, hget⟩ := KMap.mem_keys.1 (mem_keys_legsByChain.2 ⟨b, hb, rfl⟩)
      exact ⟨⟨⟨hmain, hlen'⟩, hlegs⟩, hh, hlegs ▸ KMap.mem_entries.2 hget⟩
    · rintro ⟨⟨⟨hmain, hchains⟩, hlegs⟩, hh, hm⟩
      obtain ⟨b, hb, rfl⟩ := hleg _ _ (hlegs ▸ hm)
      have hfew := hcond _ _ hmain ⟨b, hb, rfl⟩
      rw [lt_max_iff] at hfew
      have htwo : chainCount (storedUnder sha256d db g.parent_hash_le) < 2 := by omega
      rw [filter_of_chainCount htwo hb]
      refine ⟨hmain, ?_, hlegs⟩
      rw [hlegs, length_legsByChain]
      exact hchains

end Sha

/-- A mainnet parent with a block of one chain only. -/
def soloDb : Database := runStore sampleSha freshDb
  [.insertBlocks [(⟨63, 1⟩, legBlock 63 1)], .classifyParent sampleParentId₁ (some 7)]

theorem coherent_soloDb : Coherent sampleSha soloDb := by
  have hops : Along (StoreOp.run sampleSha) StoreOp.Fresh freshDb
      [.insertBlocks [(⟨63, 1⟩, legBlock 63 1)], .classifyParent sampleParentId₁ (some 7)] := by
    refine ⟨⟨by decide, ?_⟩, trivial, trivial⟩
    intro row hrow
    rw [List.mem_singleton] at hrow
    subst hrow
    exact ⟨rfl, rfl, rfl, _, rfl, by decide +kernel⟩
  exact hops.invariant (fun _ _ hc hop => hc.step hop) (coherent_fresh rfl)

/-- One chain under the parent: filtered or not, the same group. -/
theorem chain_filter_solo :
    soloDb.cache_parents.size ≤ 1 ∧
    ∀ g, g ∈ (soloDb.sharedMainnetParents id 1 ⟨1, 0⟩ (some 63)).1 ↔
      g ∈ (soloDb.sharedMainnetParents List.reverse 1 ⟨1, 0⟩ none).1 ∧ ∃ hh, (63, hh) ∈ g.legs := by
  have hsize : soloDb.cache_parents.size ≤ 1 := by decide +kernel
  have hchains : soloDb.redb.aux_blocks.entries.map (·.2.chain_id) = [63] := by decide +kernel
  refine ⟨hsize, (chain_filter_iff sampleSha soloDb coherent_soloDb 1 1 (by decide) hsize 63 id List.reverse
    List.Perm.refl List.reverse_perm).2 ?_⟩
  intro p ltc_height _ _
  rw [Nat.max_eq_left (by decide), ← Nat.not_le, two_le_chainCount]
  rintro ⟨b, hb, b', hb', hne⟩
  have hall : ∀ s ∈ storedUnder sampleSha soloDb p, s.chain_id = 63 := by
    intro s hs
    obtain ⟨⟨k, x⟩, hmem, rfl⟩ := List.mem_map.1 (List.mem_filter.1 hs).1
    have hc := List.mem_map_of_mem (f := fun e : BlockKey × StoredBlock => e.2.chain_id) hmem
    rw [hchains] at hc
    exact List.mem_singleton.1 hc
  exact hne ((hall b hb).trans (hall b' hb').symm)

/-- A group of two chains disappears when one of them is asked for. -/
theorem chain_filter_loses_group :
    Coherent sampleSha sharedDb ∧ sharedDb.cache_parents.size ≤ 1 ∧
    ¬ ∀ g, g ∈ (sharedDb.sharedMainnetParents id 2 ⟨1, 0⟩ (some 63)).1 ↔
      g ∈ (sharedDb.sharedMainnetParents id 2 ⟨1, 0⟩ none).1 ∧ ∃ hh, (63, hh) ∈ g.legs := by
  have hsize : sharedDb.cache_parents.size ≤ 1 := by decide +kernel
  refine ⟨coherent_sharedDb, hsize, fun hall => ?_⟩
  rw [@sharedMainnetParents_all sharedDb id List.Perm.refl 2 1 hsize,
    @sharedMainnetParents_all sharedDb id List.Perm.refl 2 1 hsize] at hall
  unfold allSharedParents at hall
  simp only [List.mem_mergeSort] at hall
  have hgroup : (⟨sampleParentId₁, 7, [(50, 1), (63, 1)]⟩ : SharedParent) ∈
      (id sharedDb.cache_parents.entries).filterMap (sharedDb.sharedParent 2 none) := by
    decide +kernel
  have hfiltered : (id sharedDb.cache_parents.entries).filterMap (sharedDb.sharedParent 2 (some 63)) = [] := by
    decide +kernel
  have hmem := (hall _).2 ⟨hgroup, 1, by decide⟩
  rw [hfiltered] at hmem
  cases hmem

/-! ## The latest group -/

/-- The order of the listing: most legs first, then the highest LTC height. -/
def SharedParent.before (a b : SharedParent) : Bool :=
  b.legs.length < a.legs.length || (b.legs.length = a.legs.length && b.ltc_height ≤ a.ltc_height)

theorem SharedParent.before_iff {a b : SharedParent} : a.before b = true ↔
    b.legs.length < a.legs.length ∨ b.legs.length = a.legs.length ∧ b.ltc_height ≤ a.ltc_height := by
  simp [SharedParent.before]

theorem SharedParent.before_trans (a b c : SharedParent) (hab : a.before b = true) (hbc : b.before c = true) :
    a.before c = true := by
  rw [SharedParent.before_iff] at hab hbc ⊢
  rcases hab with hab | ⟨hlen, hab⟩ <;> rcases hbc with hbc | ⟨hlen', hbc⟩
  · exact .inl (hbc.trans hab)
  · exact .inl (hlen' ▸ hab)
  · exact .inl (hlen ▸ hbc)
  · exact .inr ⟨hlen'.trans hlen, UInt64.le_trans hbc hab⟩

theorem SharedParent.before_total (a b : SharedParent) : (a.before b || b.before a) = true := by
  rw [Bool.or_eq_true, SharedParent.before_iff, SharedParent.before_iff]
  rcases Nat.lt_trichotomy a.legs.length b.legs.length with hlt | heq | hgt
  · exact .inr (.inl hlt)
  · rcases UInt64.le_total a.ltc_height b.ltc_height with hle | hle
    · exact .inr (.inr ⟨heq, hle⟩)
    · exact .inl (.inr ⟨heq.symm, hle⟩)
  · exact .inl (.inl hgt)

theorem latestSiblingGroup_eq_head? (db : Database) (iter : List (Hash32 × StoredParent) → List (Hash32 × StoredParent))
    (min_legs : Nat) : db.latestSiblingGroup iter min_legs = (db.allSharedParents iter min_legs none).head? := by
  show (List.take 1 (List.drop 0 (db.allSharedParents iter min_legs none))).getLast? = _
  cases db.allSharedParents iter min_legs none <;> rfl

/-- The latest group comes before every other in the order of the listing. -/
theorem latest_before {db : Database} {iter : List (Hash32 × StoredParent) → List (Hash32 × StoredParent)}
    {min_legs : Nat} {g g' : SharedParent} (hg : db.latestSiblingGroup iter min_legs = some g)
    (hg' : g' ∈ db.allSharedParents iter min_legs none) : g.before g' = true := by
  rw [latestSiblingGroup_eq_head?] at hg
  exact le_of_head?_mergeSort SharedParent.before_trans SharedParent.before_total hg (List.mem_mergeSort.1 hg')

section Sha
variable (sha256d : Bytes → Hash32)

/-- The latest group is a group of the greatest LTC height exactly if such a group
has also the most legs, the first key of the order it is taken from. -/
theorem latest_is_highest_iff (db : Database) (h : Coherent sha256d db) (min_legs : Nat) (hmin : 1 ≤ min_legs)
    (iter : List (Hash32 × StoredParent) → List (Hash32 × StoredParent)) (hiter : ∀ l, (iter l).Perm l) :
    ((db.latestSiblingGroup iter min_legs = none ↔ ¬ ∃ p ltc_height, SharedAt sha256d db min_legs p ltc_height) ∧
      ∀ g, db.latestSiblingGroup iter min_legs = some g → SharedAt sha256d db min_legs g.parent_hash_le g.ltc_height ∧
        g.legs = (legsByChain (storedUnder sha256d db g.parent_hash_le)).entries ∧
        ∀ p ltc_height, SharedAt sha256d db min_legs p ltc_height → ltc_height ≤ g.ltc_height) ↔
      ((∃ p ltc_height, SharedAt sha256d db min_legs p ltc_height) →
        ∃ p ltc_height, SharedAt sha256d db min_legs p ltc_height ∧
          ∀ p' ltc_height', SharedAt sha256d db min_legs p' ltc_height' → ltc_height' ≤ ltc_height ∧
            chainCount (storedUnder sha256d db p') ≤ chainCount (storedUnder sha256d db p)) := by
  have hsome : ∀ g, db.latestSiblingGroup iter min_legs = some g →
      SharedAt sha256d db min_legs g.parent_hash_le g.ltc_height ∧
        g.legs = (legsByChain (storedUnder sha256d db g.parent_hash_le)).entries := by
    intro g hg
    rw [latestSiblingGroup_eq_head?] at hg
    exact (h.mem_groups hiter hmin).1 (List.mem_of_mem_head? hg)
  have hbefore : ∀ g, db.latestSiblingGroup iter min_legs = some g → ∀ p ltc_height,
      SharedAt sha256d db min_legs p ltc_height →
        chainCount (storedUnder sha256d db p) < chainCount (storedUnder sha256d db g.parent_hash_le) ∨
        chainCount (storedUnder sha256d db p) = chainCount (storedUnder sha256d db g.parent_hash_le) ∧
          ltc_height ≤ g.ltc_height := by
    intro g hg p ltc_height hp
    have hle := SharedParent.before_iff.1 (latest_before hg (h.group_listed hiter hmin hp))
    rw [(hsome g hg).2, length_legsByChain, length_legsByChain] at hle
    exact hle
  have hnone : db.latestSiblingGroup iter min_legs = none ↔ ¬ ∃ p ltc_height, SharedAt sha256d db min_legs p ltc_height := by
    rw [latestSiblingGroup_eq_head?, List.head?_eq_none_iff, List.eq_nil_iff_forall_not_mem]
    constructor
    · rintro hnil ⟨p, ltc_height, hp⟩
      exact hnil _ (h.group_listed hiter hmin hp)
    · intro hno g hg
      exact hno ⟨_, _, ((h.mem_groups hiter hmin).1 hg).1⟩
  constructor
  · rintro ⟨-, hlatest⟩ hex
    cases hg : db.latestSiblingGroup iter min_legs with
    | none => exact absurd hex (hnone.1 hg)
    | some g =>
      refine ⟨g.parent_hash_le, g.ltc_height, (hlatest g hg).1, fun p' ltc_height' hp' => ⟨(hlatest g hg).2.2 p' _ hp', ?_⟩⟩
      rcases hbefore g hg p' ltc_height' hp' with hlt | ⟨heq, -⟩
      · exact hlt.le
      · exact heq.le
  · intro htop
    refine ⟨hnone, fun g hg => ⟨(hsome g hg).1, (hsome g hg).2, fun p' ltc_height' hp' => ?_⟩⟩
    obtain ⟨p, ltc_height, hp, hmost⟩ := htop ⟨_, _, hp'⟩
    have hlegs := (hmost _ _ (hsome g hg).1).2
    rcases hbefore g hg p ltc_height hp with hlt | ⟨-, hle⟩
    · exact absurd hlegs (Nat.not_le.2 hlt)
    · exact UInt64.le_trans (hmost _ _ hp').1 hle

end Sha

/-- The groups of a store, for its rows in the order `id`. -/
theorem Coherent.group_mem_filterMap {db : Database} (h : Coherent sampleSha db) {min_legs : Nat} (hmin : 1 ≤ min_legs)
    {p : Hash32} {ltc_height : UInt64} (hg : SharedAt sampleSha db min_legs p ltc_height) :
    ∃ legs, (⟨p, ltc_height, legs⟩ : SharedParent) ∈ db.cache_parents.entries.filterMap (db.sharedParent min_legs none) :=
  ⟨_, List.mem_mergeSort.1 (@Coherent.group_listed _ _ h id List.Perm.refl _ hmin _ _ hg)⟩

/-- The only group is the latest one. -/
theorem latest_is_highest_shared : ∃ g, sharedDb.latestSiblingGroup id 2 = some g ∧ ∀ p ltc_height,
    SharedAt sampleSha sharedDb 2 p ltc_height → ltc_height ≤ g.ltc_height := by
  have hgroups : sharedDb.cache_parents.entries.filterMap (sharedDb.sharedParent 2 none) =
      [⟨sampleParentId₁, 7, [(50, 1), (63, 1)]⟩] := by
    decide +kernel
  have honly : ∀ p ltc_height, SharedAt sampleSha sharedDb 2 p ltc_height → p = sampleParentId₁ ∧ ltc_height = 7 := by
    intro p ltc_height hp
    obtain ⟨legs, hmem⟩ := coherent_sharedDb.group_mem_filterMap (by decide) hp
    rw [hgroups, List.mem_singleton] at hmem
    injection hmem with hp hh
    exact ⟨hp, hh⟩
  have hfirst : sharedDb.latestSiblingGroup id 2 = some ⟨sampleParentId₁, 7, [(50, 1), (63, 1)]⟩ := by
    rw [latestSiblingGroup_eq_head?, allSharedParents, id, hgroups, List.mergeSort_singleton, List.head?_cons]
  have hlatest := (latest_is_highest_iff sampleSha sharedDb coherent_sharedDb 2 (by decide) id List.Perm.refl).2 ?_
  · exact ⟨_, hfirst, (hlatest.2 _ hfirst).2.2⟩
  · rintro ⟨p, ltc_height, hp⟩
    refine ⟨p, ltc_height, hp, fun p' ltc_height' hp' => ?_⟩
    obtain ⟨rfl, rfl⟩ := honly p ltc_height hp
    obtain ⟨rfl, rfl⟩ := honly p' ltc_height' hp'
    exact ⟨UInt64.le_refl _, Nat.le_refl _⟩

/-- Two groups: three legs at LTC height 7, two legs at LTC height 9. -/
def twoGroupsDb : Database := runStore sampleSha freshDb
  [.insertBlocks [(⟨63, 1⟩, legBlock 63 1), (⟨50, 1⟩, legBlock 50 1), (⟨51, 1⟩, legBlock 51 1),
     (⟨63, 2⟩, { sampleBlock₂ 2 with chain_id := 63 }), (⟨50, 2⟩, { sampleBlock₂ 2 with chain_id := 50 })],
   .classifyParent sampleParentId₁ (some 7), .classifyParent sampleParentId₂ (some 9)]

theorem coherent_twoGroupsDb : Coherent sampleSha twoGroupsDb := by
  have hops : Along (StoreOp.run sampleSha) StoreOp.Fresh freshDb
      [.insertBlocks [(⟨63, 1⟩, legBlock 63 1), (⟨50, 1⟩, legBlock 50 1), (⟨51, 1⟩, legBlock 51 1),
         (⟨63, 2⟩, { sampleBlock₂ 2 with chain_id := 63 }), (⟨50, 2⟩, { sampleBlock₂ 2 with chain_id := 50 })],
       .classifyParent sampleParentId₁ (some 7), .classifyParent sampleParentId₂ (some 9)] := by
    refine ⟨⟨by decide, ?_⟩, trivial, trivial, trivial⟩
    intro row hrow
    simp only [List.mem_cons, List.not_mem_nil, or_false] at hrow
    rcases hrow with rfl | rfl | rfl | rfl | rfl <;> exact ⟨rfl, rfl, rfl, _, rfl, by decide +kernel⟩
  exact hops.invariant (fun _ _ hc hop => hc.step hop) (coherent_fresh rfl)

/-- The group with more legs is returned, the other one is higher. -/
theorem latest_is_not_highest : Coherent sampleSha twoGroupsDb ∧
    ¬ ((twoGroupsDb.latestSiblingGroup id 2 = none ↔ ¬ ∃ p ltc_height, SharedAt sampleSha twoGroupsDb 2 p ltc_height) ∧
      ∀ g, twoGroupsDb.latestSiblingGroup id 2 = some g →
        SharedAt sampleSha twoGroupsDb 2 g.parent_hash_le g.ltc_height ∧
        ∀ p ltc_height, SharedAt sampleSha twoGroupsDb 2 p ltc_height → ltc_height ≤ g.ltc_height) := by
  refine ⟨coherent_twoGroupsDb, fun ⟨_, hlatest⟩ => ?_⟩
  have hgroups : twoGroupsDb.cache_parents.entries.filterMap (twoGroupsDb.sharedParent 2 none) =
      [⟨sampleParentId₁, 7, [(50, 1), (51, 1), (63, 1)]⟩, ⟨sampleParentId₂, 9, [(50, 2), (63, 2)]⟩] := by
    decide +kernel
  have hlisted : ∀ g, g ∈ twoGroupsDb.allSharedParents id 2 none ↔
      g = ⟨sampleParentId₁, 7, [(50, 1), (51, 1), (63, 1)]⟩ ∨ g = ⟨sampleParentId₂, 9, [(50, 2), (63, 2)]⟩ := by
    intro g
    rw [allSharedParents, List.mem_mergeSort, id, hgroups]
    simp
  cases hg : twoGroupsDb.latestSiblingGroup id 2 with
  | none =>
    rw [latestSiblingGroup_eq_head?, List.head?_eq_none_iff] at hg
    have hmem := (hlisted _).2 (.inl rfl)
    rw [hg] at hmem
    cases hmem
  | some g =>
    -- it comes before the group of three legs, and it is no lower than the other
    have hlegs := SharedParent.before_iff.1 (latest_before hg ((hlisted _).2 (.inl rfl)))
    have hsecond := ((coherent_twoGroupsDb.mem_groups List.Perm.refl (by decide)).1 ((hlisted _).2 (.inr rfl))).1
    have hhigh := (hlatest g hg).2 _ _ hsecond
    rw [latestSiblingGroup_eq_head?] at hg
    rcases (hlisted g).1 (List.mem_of_mem_head? hg) with rfl | rfl
    · exact absurd hhigh (by decide)
    · exact absurd hlegs (by decide)

end PsobIndexer
