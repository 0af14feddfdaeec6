import PsobIndexer.OrderBounds
import PsobIndexer.Groups
/-!
# Pages of the listings

Both listings sort what they collect from a hash map by a key that is not total
on it: intents by their timestamp, groups by their legs and LTC height. What the
pages show therefore depends on the order of the map exactly if two items share
the key.
-/
open Lib

namespace PsobIndexer

open Database

/-! ## Intents -/

/-- A cached intent that neither clock reading has expired and that passes the filters. -/
def Listed (prune_now now : UInt64) (source target : Option UInt32) (protocol : Option String)
    (i : SwapIntentMessage) : Bool :=
  prune_now < i.expiry && (i.expiry > now && source.all (i.from_chain == ·) && target.all (i.to_chain == ·) &&
    protocol.all (i.protocol == ·))

/-- The items of a page of `list_intents`. -/
def intentPage (db : Database) (prune_now now : UInt64) (source target : Option UInt32) (protocol : Option String)
    (o : TableOrder (String × SwapIntentMessage)) (limit offset : Nat) : List SwapIntentMessage :=
  match (db.listIntents o.run true prune_now now source target protocol ⟨limit, offset⟩).1 with
  | .ok (items, _) => items
  | .error _ => []

/-- What `list_intents` has to show, in the order of the ids. -/
def listedIntents (db : Database) (prune_now now : UInt64) (source target : Option UInt32) (protocol : Option String) :
    List SwapIntentMessage :=
  (db.cache_intents.entries.map Prod.snd).filter (Listed prune_now now source target protocol)

/-- Newest first. -/
def newestFirst (a b : SwapIntentMessage) : Bool := b.timestamp ≤ a.timestamp

theorem newestFirst_trans (a b c : SwapIntentMessage) (hab : newestFirst a b = true) (hbc : newestFirst b c = true) :
    newestFirst a c = true := by
  simp only [newestFirst, decide_eq_true_eq] at *
  exact UInt64.le_trans hbc hab

theorem newestFirst_total (a b : SwapIntentMessage) : (newestFirst a b || newestFirst b a) = true := by
  simp only [newestFirst, Bool.or_eq_true, decide_eq_true_eq]
  exact UInt64.le_total b.timestamp a.timestamp

theorem filter_map_snd {κ α : Type} (p : α → Bool) (l : List (κ × α)) :
    (l.map Prod.snd).filter p = l.filterMap (fun e => if p e.2 then some e.2 else none) := by
  induction l with
  | nil => rfl
  | cons e l ih =>
    rw [List.map_cons, List.filter_cons, List.filterMap_cons, ih]
    by_cases h : p e.2 <;> simp [h]

/-- A page of the intents is a page of the rows that are left after the pruning. -/
theorem intentPage_eq (db : Database) (prune_now now : UInt64) (source target : Option UInt32) (protocol : Option String) :
    intentPage db prune_now now source target protocol =
      readPage newestFirst
        (fun e : String × SwapIntentMessage => if e.2.expiry > now && source.all (e.2.from_chain == ·) &&
          target.all (e.2.to_chain == ·) && protocol.all (e.2.protocol == ·) then some e.2 else none)
        (db.cache_intents.filter (fun _ i => prune_now < i.expiry)).entries := by
  funext o limit offset
  unfold intentPage listIntents
  rw [pruneExpiredIntents_true]
  simp only [matchingIntents, pruned_cache, filter_map_snd]
  rfl

theorem listedIntents_eq (db : Database) (prune_now now : UInt64) (source target : Option UInt32)
    (protocol : Option String) : listedIntents db prune_now now source target protocol =
      (db.cache_intents.filter (fun _ i => prune_now < i.expiry)).entries.filterMap
        (fun e => if e.2.expiry > now && source.all (e.2.from_chain == ·) && target.all (e.2.to_chain == ·) &&
          protocol.all (e.2.protocol == ·) then some e.2 else none) := by
  unfold listedIntents
  rw [filter_map_snd, KMap.filter, List.filterMap_filter]
  apply List.filterMap_congr
  intro e _
  unfold Listed
  by_cases h : prune_now < e.2.expiry <;> simp [h]

/-! ## Groups -/

/-- The items of a page of `shared_mainnet_parents`. -/
def groupPage (db : Database) (min_legs : Nat) (chain_filter : Option UInt32) (o : TableOrder (Hash32 × StoredParent))
    (limit offset : Nat) : List SharedParent :=
  (db.sharedMainnetParents o.run min_legs ⟨limit, offset⟩ chain_filter).1

/-- What `shared_mainnet_parents` has to show, in the order of the parent hashes. -/
def listedGroups (db : Database) (min_legs : Nat) (chain_filter : Option UInt32) : List SharedParent :=
  db.cache_parents.entries.filterMap (db.sharedParent min_legs chain_filter)

theorem groupPage_eq (db : Database) (min_legs : Nat) (chain_filter : Option UInt32) :
    groupPage db min_legs chain_filter =
      readPage SharedParent.before (db.sharedParent min_legs chain_filter) db.cache_parents.entries := rfl

theorem SharedParent.tied_iff {a b : SharedParent} : a.before b = true ∧ b.before a = true ↔
    a.legs.length = b.legs.length ∧ a.ltc_height = b.ltc_height := by
  rw [SharedParent.before_iff, SharedParent.before_iff]
  constructor
  · rintro ⟨hab | ⟨hlen, hab⟩, hba | ⟨hlen', hba⟩⟩
    · exact absurd hab (Nat.lt_asymm hba)
    · exact absurd hlen' (Nat.ne_of_gt hab)
    · exact absurd hlen (Nat.ne_of_gt hba)
    · exact ⟨hlen', UInt64.le_antisymm hba hab⟩
  · rintro ⟨hlen, hh⟩
    exact ⟨.inr ⟨hlen.symm, UInt64.le_of_eq hh.symm⟩, .inr ⟨hlen, UInt64.le_of_eq hh⟩⟩

/-! ## The order of the map -/

/-- The pages of both listings depend on the content alone exactly if no two
different intents to show have the same timestamp, and no two different groups the
same number of legs and LTC height. -/
theorem pages_stable_iff (db : Database) (prune_now now : UInt64) (source target : Option UInt32)
    (protocol : Option String) (min_legs : Nat) (chain_filter : Option UInt32) :
    (StablePages (intentPage db prune_now now source target protocol)
        (listedIntents db prune_now now source target protocol) ↔
      ∀ i ∈ listedIntents db prune_now now source target protocol,
        ∀ i' ∈ listedIntents db prune_now now source target protocol, i.timestamp = i'.timestamp → i = i') ∧
      (StablePages (groupPage db min_legs chain_filter) (listedGroups db min_legs chain_filter) ↔
        ∀ g ∈ listedGroups db min_legs chain_filter, ∀ g' ∈ listedGroups db min_legs chain_filter,
          g.legs.length = g'.legs.length → g.ltc_height = g'.ltc_height → g = g') := by
  constructor
  · rw [intentPage_eq, listedIntents_eq, stablePages_iff newestFirst_trans newestFirst_total]
    simp only [newestFirst, decide_eq_true_eq]
    refine forall₄_congr fun i _ i' _ => ⟨fun h heq => ?_, fun h hle hle' => ?_⟩
    · exact h (UInt64.le_of_eq heq.symm) (UInt64.le_of_eq heq)
    · exact h (UInt64.le_antisymm hle' hle)
  · rw [groupPage_eq, listedGroups, stablePages_iff SharedParent.before_trans SharedParent.before_total]
    refine forall₄_congr fun g _ g' _ => ⟨fun h hlen hh => ?_, fun h hab hba => ?_⟩
    · have htied := SharedParent.tied_iff.2 ⟨hlen, hh⟩
      exact h htied.1 htied.2
    · have htied := SharedParent.tied_iff.1 ⟨hab, hba⟩
      exact h htied.1 htied.2

/-- The first maker's offer made once more, in the same second and under another id. -/
def offerAgain : SwapIntentMessage :=
  { offerA with
    intent_id := "y"
    signature := "9d2d304374a5d5571d7d8c39db99c8eed149767dcaf70be1a356a08376caa34f" ++
      "0d334629a3dcc85ef038c43897f9a9bef81003f04f503ac418afc9eb68cce6bc" }

/-- A book with two offers of one second. -/
def tiedDb : Database := ((offerDb.insertIntent true true 1000 offerA).2.insertIntent true true 1000 offerAgain).2

theorem tiedDb_entries :
    (tiedDb.cache_intents.filter (fun _ i => (1000 : UInt64) < i.expiry)).entries = [("x", offerA), ("y", offerAgain)] := by
  decide +kernel

/-- Two pages in two orders show one offer twice. -/
theorem pages_show_twice :
    intentPage tiedDb 1000 1000 none none none ⟨id, List.Perm.refl⟩ 1 0 = [offerA] ∧
      intentPage tiedDb 1000 1000 none none none ⟨List.reverse, List.reverse_perm⟩ 1 1 = [offerA] ∧
      ¬ StablePages (intentPage tiedDb 1000 1000 none none none) (listedIntents tiedDb 1000 1000 none none none) := by
  have htied : [offerA, offerAgain].Pairwise (fun a b => newestFirst a b = true) ∧
      [offerAgain, offerA].Pairwise (fun a b => newestFirst a b = true) := by
    decide
  have hforward : ∀ offset, intentPage tiedDb 1000 1000 none none none ⟨id, List.Perm.refl⟩ 1 offset =
      ([offerA, offerAgain].drop offset).take 1 := by
    intro offset
    rw [intentPage_eq, readPage, tiedDb_entries]
    exact congrArg (fun l => (List.drop offset l).take 1) (List.mergeSort_of_pairwise htied.1)
  have hbackward : ∀ offset, intentPage tiedDb 1000 1000 none none none ⟨List.reverse, List.reverse_perm⟩ 1 offset =
      ([offerAgain, offerA].drop offset).take 1 := by
    intro offset
    rw [intentPage_eq, readPage, tiedDb_entries]
    exact congrArg (fun l => (List.drop offset l).take 1) (List.mergeSort_of_pairwise htied.2)
  refine ⟨hforward 0, hbackward 1, fun h => ?_⟩
  have hsame := h.same ⟨id, List.Perm.refl⟩ ⟨List.reverse, List.reverse_perm⟩ 1 0 (Nat.le_refl 1)
  rw [hforward, hbackward] at hsame
  exact absurd hsame (by decide)

end PsobIndexer
