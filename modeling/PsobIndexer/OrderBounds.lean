import PsobIndexer.Lib.Run
import PsobIndexer.OrderBook
/-!
# Bounds of the order book

How large the book gets and how far ahead its intents reach. The lifetime of
an intent is bounded when it is checked, by the skew its timestamp may have and
the window its expiry may have from there; later clocks only lengthen the bound.
-/
open Lib

namespace PsobIndexer

open Database

/-- What the check leaves true of an intent at every clock from `t` on. -/
structure Sound (t : UInt64) (i : SwapIntentMessage) : Prop where
  expiry : i.expiry.toNat ≤ t.toNat + 300 + 30 * 86400
  chains : i.from_chain ≠ i.to_chain
  from_amount : i.from_amount ≠ 0
  to_amount : i.to_amount ≠ 0

theorem Sound.mono {t t' : UInt64} {i : SwapIntentMessage} (h : Sound t i) (hle : t ≤ t') : Sound t' i := by
  have hexpiry := h.expiry
  rw [UInt64.le_iff_toNat_le] at hle
  exact { h with expiry := by omega }

/-- The skew, the window and the saturation of their difference, put together. -/
theorem expiry_le {now timestamp expiry : UInt64} (hskew : timestamp ≤ now + 300)
    (hwindow : saturatingSub expiry timestamp ≤ 60 * 60 * 24 * 30) :
    expiry.toNat ≤ now.toNat + 300 + 30 * 86400 := by
  rw [UInt64.le_iff_toNat_le, UInt64.toNat_add] at hskew
  rw [UInt64.le_iff_toNat_le, toNat_saturatingSub] at hwindow
  have hmod := Nat.mod_le (now.toNat + (300 : UInt64).toNat) (2 ^ 64)
  have h300 : (300 : UInt64).toNat = 300 := rfl
  have h30d : (60 * 60 * 24 * 30 : UInt64).toNat = 30 * 86400 := rfl
  omega

theorem validateSwapIntent_sound {S : SigScheme} {enforce : Bool} {known_chains : List UInt32} {now : UInt64}
    {i : SwapIntentMessage} (h : validateSwapIntent S enforce known_chains now i = .ok ()) : Sound now i := by
  unfold validateSwapIntent at h
  simp only [throw_bind, ite_throw_eq_ok] at h
  obtain ⟨-, -, -, hchains, -, -, hamounts, hskew, -, hwindow, -⟩ := h
  exact ⟨expiry_le (not_lt.1 hskew) (not_lt.1 hwindow), hchains, fun h0 => hamounts (.inl h0), fun h0 => hamounts (.inr h0)⟩

/-! ## One step of the book -/

namespace BookStep

/-- The clock values the step reads, in order. -/
def reads : BookStep → List UInt64
  | create check_now now _ _ _ => [check_now, now]
  | gossip check_now now _ _ _ => [check_now, now]
  | list prune_now now _ _ _ _ _ => [prune_now, now]
  | prune now _ => [now]
  | upsertChain _ _ _ _ => []

/-- Its transactions go through. -/
def Succeeds : BookStep → Prop
  | create _ _ prune_commit commit _ => prune_commit = true ∧ commit = true
  | gossip _ _ prune_commit commit _ => prune_commit = true ∧ commit = true
  | list _ _ commit _ _ _ _ => commit = true
  | prune _ commit => commit = true
  | upsertChain commit _ _ _ => commit = true

end BookStep

/-- The book is within its capacity, the same in the cache and on disk, and
holds intents that were checked by clock `t`. -/
structure Bounded (t : UInt64) (db : Database) : Prop where
  size : db.cache_intents.size ≤ MAX_ACTIVE_INTENTS
  disk : db.cache_intents = db.redb.swap_intents
  sound : ∀ id i, db.cache_intents.get? id = some i → Sound t i

theorem Bounded.pruned {t : UInt64} {db : Database} (h : Bounded t db) (now : UInt64) : Bounded t (db.pruned now) := by
  refine ⟨(KMap.size_eraseAll_le _ _).trans h.size, ?_, fun id i hi => ?_⟩
  · simp only [Database.pruned, h.disk]
  · simp only [Database.pruned, KMap.get?_eraseAll] at hi
    split at hi
    · cases hi
    · exact h.sound id i hi

theorem insertIntent_true (now : UInt64) (db : Database) (i : SwapIntentMessage) :
    (db.insertIntent true true now i).2 =
      if (db.pruned now).cache_intents.size ≥ MAX_ACTIVE_INTENTS then db.pruned now
      else { db.pruned now with
        cache_intents := (db.pruned now).cache_intents.insert i.intent_id i
        redb := { (db.pruned now).redb with
          swap_intents := (db.pruned now).redb.swap_intents.insert i.intent_id i } } := by
  rw [insertIntent, pruneExpiredIntents_true]
  simp only [if_true]
  split <;> rfl

theorem Bounded.insertIntent {t : UInt64} {db : Database} (h : Bounded t db) {i : SwapIntentMessage} (hi : Sound t i)
    (now : UInt64) : Bounded t (db.insertIntent true true now i).2 := by
  have hp := h.pruned now
  rw [insertIntent_true]
  split
  · exact hp
  · rename_i hroom
    refine ⟨(KMap.size_insert_le _ _ _).trans (Nat.lt_of_not_le hroom), ?_, fun id j hj => ?_⟩
    · simp only [hp.disk]
    · simp only [KMap.get?_insert] at hj
      split at hj
      · cases hj
        exact hi
      · exact hp.sound id j hj

section Run
variable {S : SigScheme} {enforce : Bool} {iter : List (String × String) → List (String × String)}

theorem Bounded.step {t : UInt64} {db : Database} {s : BookStep} (h : Bounded t db) (hs : s.Succeeds)
    (hreads : ∀ r ∈ s.reads, r ≤ t) : Bounded t (s.run S enforce iter db) := by
  cases s with
  | create check_now now prune_commit commit i =>
    obtain ⟨rfl, rfl⟩ := hs
    unfold BookStep.run createSwapIntent
    simp only
    cases hv : checkIntent S enforce iter check_now db i with
    | error e => exact h
    | ok _ =>
      have hi : Sound t i := (validateSwapIntent_sound hv).mono (hreads check_now List.mem_cons_self)
      have hstored := h.insertIntent hi now
      simp only
      split <;> rename_i hr <;> rw [hr] at hstored <;> exact hstored
  | gossip check_now now prune_commit commit payload =>
    obtain ⟨rfl, rfl⟩ := hs
    cases payload with
    | none => exact h
    | some i =>
      unfold BookStep.run inboundIntent
      simp only
      cases hv : checkIntent S enforce iter check_now db i with
      | error e => exact h
      | ok _ =>
        exact h.insertIntent ((validateSwapIntent_sound hv).mono (hreads check_now List.mem_cons_self)) now
  | list prune_now now commit source target protocol page =>
    obtain rfl : commit = true := hs
    simp only [BookStep.run, Database.listIntents, pruneExpiredIntents_true]
    exact h.pruned prune_now
  | prune now commit =>
    obtain rfl : commit = true := hs
    simp only [BookStep.run, pruneExpiredIntents_true]
    exact h.pruned now
  | upsertChain commit chain_id name electrs =>
    obtain ⟨hcache, hdisk⟩ := upsertChain_intents commit db chain_id name electrs
    refine ⟨?_, ?_, ?_⟩
    · exact hcache ▸ h.size
    · exact hcache.trans (h.disk.trans hdisk.symm)
    · exact hcache ▸ h.sound

theorem Bounded.run {t : UInt64} {steps : List BookStep} {db : Database} (h : Bounded t db)
    (hs : ∀ s ∈ steps, s.Succeeds) (hreads : ∀ r ∈ steps.flatMap BookStep.reads, r ≤ t) :
    Bounded t (runBook S enforce iter db steps) :=
by
  have hok : ∀ s ∈ steps, s.Succeeds ∧ ∀ r ∈ s.reads, r ≤ t := fun s hmem =>
    ⟨hs s hmem, fun r hr => hreads r (List.mem_flatMap.2 ⟨s, hmem, hr⟩)⟩
  exact (along_of_forall hok).invariant (fun _ _ hi hstep => hi.step hstep.1 hstep.2) h

end Run

/-! ## What a listing returns -/

theorem mem_matchingIntents {order : List (String × SwapIntentMessage) → List (String × SwapIntentMessage)}
    (horder : ∀ l, (order l).Perm l) {db : Database} {now : UInt64} {source target : Option UInt32}
    {protocol : Option String} {i : SwapIntentMessage} :
    i ∈ db.matchingIntents order now source target protocol ↔
      (∃ id, db.cache_intents.get? id = some i) ∧ now < i.expiry ∧ (∀ c, source = some c → i.from_chain = c) ∧
        (∀ c, target = some c → i.to_chain = c) ∧ ∀ p, protocol = some p → i.protocol = p := by
  have hcached : i ∈ (order db.cache_intents.entries).map Prod.snd ↔ ∃ id, db.cache_intents.get? id = some i := by
    simp only [List.mem_map, (horder _).mem_iff, Prod.exists, exists_eq_right, KMap.mem_entries]
  have hall : ∀ {α : Type} [DecidableEq α] (o : Option α) (x : α), o.all (x == ·) = true ↔ ∀ c, o = some c → x = c := by
    intro α _ o x
    cases o <;> simp
  unfold Database.matchingIntents
  rw [List.mem_mergeSort, List.mem_filter, hcached]
  simp only [Bool.and_eq_true, decide_eq_true_eq, hall, and_assoc, gt_iff_lt]

/-- Over every run from an empty book: the book keeps its capacity, the cache is
the table, and an intent listed by a clock that has not gone back expires
within thirty days and five minutes, trades two chains and passes the filters. -/
theorem order_book_bounded (S : SigScheme) (enforce : Bool) (iter : List (String × String) → List (String × String))
    (db : Database) (steps : List BookStep) (hcache : db.cache_intents = .empty) (hdisk : db.redb.swap_intents = .empty)
    (hsteps : ∀ s ∈ steps, s.Succeeds) :
    (runBook S enforce iter db steps).cache_intents.size ≤ MAX_ACTIVE_INTENTS ∧
      (runBook S enforce iter db steps).cache_intents = (runBook S enforce iter db steps).redb.swap_intents ∧
      ∀ (order : List (String × SwapIntentMessage) → List (String × SwapIntentMessage)) (prune_now now : UInt64)
        (source target : Option UInt32) (protocol : Option String) (page : Page) (items : List SwapIntentMessage)
        (total : Nat), (∀ l, (order l).Perm l) →
        (steps.flatMap BookStep.reads ++ [prune_now, now]).Pairwise (· ≤ ·) →
        ((runBook S enforce iter db steps).listIntents order true prune_now now source target protocol page).1 =
          .ok (items, total) →
        ∀ i ∈ items, (now < i.expiry ∧ i.expiry.toNat ≤ now.toNat + 300 + 30 * 86400) ∧ i.from_chain ≠ i.to_chain ∧
          (i.from_amount ≠ 0 ∧ i.to_amount ≠ 0) ∧ (∀ c, source = some c → i.from_chain = c) ∧
          (∀ c, target = some c → i.to_chain = c) ∧ ∀ p, protocol = some p → i.protocol = p := by
  have hempty : ∀ t, Bounded t db := by
    intro t
    refine ⟨?_, hcache.trans hdisk.symm, ?_⟩
    · rw [hcache]
      exact Nat.zero_le _
    · intro id i hi
      rw [hcache] at hi
      cases hi
  have hrun : ∀ t, (∀ r ∈ steps.flatMap BookStep.reads, r ≤ t) → Bounded t (runBook S enforce iter db steps) :=
    fun t => (hempty t).run hsteps
  have hmax : Bounded u64Max (runBook S enforce iter db steps) :=
    hrun u64Max fun r _ => UInt64.le_iff_toNat_le.2 (Nat.le_of_lt_succ r.toNat_lt)
  refine ⟨hmax.size, hmax.disk, ?_⟩
  intro order prune_now now source target protocol page items total horder hclock hlist i hi
  obtain ⟨-, -, hbefore⟩ := List.pairwise_append.1 hclock
  have hb : Bounded now (runBook S enforce iter db steps) := hrun now fun r hr => hbefore r hr now (by simp)
  rw [listIntents, pruneExpiredIntents_true] at hlist
  cases hlist
  have hmatch := List.mem_of_mem_drop (List.mem_of_mem_take hi)
  obtain ⟨⟨id, hid⟩, hlive, hfilters⟩ := (mem_matchingIntents horder).1 hmatch
  have hsound := (hb.pruned prune_now).sound id i hid
  exact ⟨⟨hlive, hsound.expiry⟩, hsound.chains, ⟨hsound.from_amount, hsound.to_amount⟩, hfilters⟩

/-- One offer is stored, survives a pruning and is listed. -/
theorem order_book_bounded_offer :
    (1600 < offerA.expiry ∧ offerA.expiry.toNat ≤ (1600 : UInt64).toNat + 300 + 30 * 86400) ∧
      offerA.from_chain ≠ offerA.to_chain := by
  have hlisted : ((runBook offerScheme true (fun l => l) offerDb
      [.create 1000 1000 true true offerA, .prune 1500 true]).listIntents (fun l => l) true 1600 1600 none none none
        .default).1 = .ok ([offerA], 1) := by
    rw [runBook_offerA]
    decide +kernel
  have h := (order_book_bounded offerScheme true (fun l => l) offerDb
    [.create 1000 1000 true true offerA, .prune 1500 true] rfl rfl (by simp [BookStep.Succeeds])).2.2 (fun l => l) 1600 1600
    none none none .default [offerA] 1 (fun l => .refl l) (by simp [BookStep.reads]) hlisted offerA
    (List.mem_singleton_self _)
  exact ⟨h.1, h.2.1⟩

end PsobIndexer
