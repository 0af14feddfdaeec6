import PsobIndexer.Atomicity
/-!
# Parent resolution (`src/resolve.rs`, `src/ingest.rs`)

`resolve` asks an explorer whether a parent is on mainnet, with retries and one
visit to a fallback; `classifyPendingParents` records the answers. The network
is a function from the number of a request and its URL to a reply, and
`resolve` also returns the replies it consumed.

A parent that could not be looked up is recorded as a trial block. It is still
unprobed afterwards only if the loop stopped before it
(`outage_keeps_unclassified_iff`).
-/
open Lib

namespace PsobIndexer

open Database

/-! ## The resolver -/

structure BlockSummary where
  id : String
  height : UInt64
  deriving DecidableEq

/-- What a request gives: no answer, or a status and the summary its body
decodes to, if it does. -/
inductive Reply where
  | transport
  | response (status : Nat) (summary : Option BlockSummary)
  deriving DecidableEq

structure ParentResolver where
  base : String
  chain_slug : String
  /-- The explorer takes `{base}/block/{hash}`. -/
  flat : Bool
  max_retries : Nat
  fallback_base : Option String

/-- `s.trim_end_matches('/')`. -/
def trimEndSlashes (s : String) : String := String.ofList (s.toList.reverse.dropWhile (· = '/')).reverse

/-- `s.contains(t)`. -/
def containsText (s t : String) : Bool := s.toList.tails.any (t.toList.isPrefixOf ·)

def ParentResolver.withPolicyAndFallback (base chain_slug : String) (max_retries : Nat) (fallback_base : Option String) :
    ParentResolver :=
  let base_str := trimEndSlashes base
  { base := base_str
    chain_slug := chain_slug
    flat := "/api".toList.isSuffixOf base_str.toList || containsText base_str "litecoinspace" ||
      containsText base_str "s3na.xyz"
    max_retries := max_retries
    fallback_base := fallback_base.map trimEndSlashes }

/-- The height a summary gives for `hash_hex`. Only ASCII letters lower to
hexadecimal digits, so ASCII lowering decides the comparison. -/
def summaryHeight (hash_hex : String) (s : BlockSummary) : Option UInt64 :=
  if s.id.toList.map Char.toLower = hash_hex.toList then some s.height else none

def isSuccess (status : Nat) : Bool := 200 ≤ status && status < 300

def isServerError (status : Nat) : Bool := 500 ≤ status && status < 600

section Loop
variable (net : Nat → String → Reply) (url : String) (fallback_url : Option String) (hash_hex : String)

/-- The attempts that are left, from request number `n` on: the height found, if
any, and the replies consumed. -/
def resolveLoop : Nat → Nat → Bool → Option UInt64 × List Reply
  | 0, _, _ => (none, [])
  | left + 1, n, attempted_fallback =>
    let reply := net n url
    let retry (_ : Unit) :=
      let r := resolveLoop left (n + 1) attempted_fallback
      (r.1, reply :: r.2)
    match reply with
    | .response status summary =>
      if isSuccess status then
        match summary with
        | some s => (summaryHeight hash_hex s, [reply])
        | none => if 0 < left then retry () else (none, [reply])
      else if status = 404 then (none, [reply])
      else if (status = 429 ∨ isServerError status) ∧ 0 < left then retry ()
      else (none, [reply])
    | .transport =>
      match fallback_url, attempted_fallback with
      | some fb_url, false =>
        let fb := net (n + 1) fb_url
        let found := match fb with
          | .response status (some s) => if isSuccess status then summaryHeight hash_hex s else none
          | _ => none
        match found with
        | some h => (some h, [reply, fb])
        | none =>
          let r := resolveLoop left (n + 2) true
          (r.1, reply :: fb :: r.2)
      | _, _ => if 0 < left then retry () else (none, [reply])

end Loop

/-- Look a parent up. An error is never returned: an exhausted resolver and a
definite miss are both `none`. -/
def ParentResolver.resolve (R : ParentResolver) (net : Nat → String → Reply) (parent_hash_le : Hash32) :
    Option UInt64 × List Reply :=
  let hash_hex := hashDisplay parent_hash_le
  let url := if R.flat then R.base ++ "/block/" ++ hash_hex else R.base ++ "/" ++ R.chain_slug ++ "/block/" ++ hash_hex
  let fallback_url := R.fallback_base.map (fun b => trimEndSlashes b ++ "/block/" ++ hash_hex)
  resolveLoop net url fallback_url hash_hex (R.max_retries + 1) 0 false

/-! ## Recording the answers -/

/-- Record the answers one by one, stopping at the first write that fails; the
parents that became mainnet. -/
def classifyLoop (commits : Hash32 → Bool) :
    Database → List (Hash32 × Option UInt64) → Except DbError (List Hash32) × Database
  | db, [] => (.ok [], db)
  | db, (parent, ltc_height) :: results =>
    match db.classifyParent (commits parent) parent ltc_height with
    | (.error e, db) => (.error e, db)
    | (.ok (), db) =>
      match classifyLoop commits db results with
      | (.error e, db) => (.error e, db)
      | (.ok new_mainnet, db) => (.ok (if ltc_height.isSome then parent :: new_mainnet else new_mainnet), db)

/-- Resolve every unprobed parent and record the answers. Each parent has its
own requests. -/
def classifyPendingParents (R : ParentResolver) (net : Hash32 → Nat → String → Reply) (commits : Hash32 → Bool)
    (iter : List (Hash32 × StoredParent) → List (Hash32 × StoredParent)) (db : Database) :
    Except DbError (List Hash32) × Database :=
  let unclassified := db.unclassifiedParents iter
  if unclassified = [] then (.ok [], db)
  else classifyLoop commits db (unclassified.map (fun parent => (parent, (R.resolve (net parent) parent).1)))

/-! ## An outage -/

/-- A reply that decides nothing: no answer, 429, a server error, or a success
whose body does not decode. -/
def Reply.Indefinite : Reply → Prop
  | .transport => True
  | .response status summary => status = 429 ∨ isServerError status = true ∨ (isSuccess status = true ∧ summary = none)

theorem Reply.not_indefinite {status : Nat} {s : BlockSummary} (h : isSuccess status = true) :
    ¬ (Reply.response status (some s)).Indefinite := by
  unfold isSuccess at h
  simp only [Reply.Indefinite, isServerError, isSuccess, Bool.and_eq_true, decide_eq_true_eq, reduceCtorEq,
    and_false, or_false] at h ⊢
  omega

/-- The fallback finds nothing without a decodable summary. -/
theorem fallback_indefinite {hash_hex : String} {fb : Reply} (h : fb.Indefinite) :
    (match fb with
      | .response status (some s) => if isSuccess status then summaryHeight hash_hex s else none
      | _ => none) = none := by
  split
  · rename_i status s
    rw [if_neg fun hok => Reply.not_indefinite hok h]
  · rfl

theorem resolveLoop_indefinite (net : Nat → String → Reply) (url : String) (fallback_url : Option String)
    (hash_hex : String) (left n : Nat) (attempted_fallback : Bool)
    (h : ∀ r ∈ (resolveLoop net url fallback_url hash_hex left n attempted_fallback).2, r.Indefinite) :
    (resolveLoop net url fallback_url hash_hex left n attempted_fallback).1 = none := by
  induction left generalizing n attempted_fallback with
  | zero => rfl
  | succ left ih =>
    have hnext := ih (n + 1) attempted_fallback
    unfold resolveLoop at h ⊢
    cases hreply : net n url with
    | response status summary =>
      simp only [hreply] at h ⊢
      by_cases hok : isSuccess status = true
      · simp only [hok, if_true] at h ⊢
        cases summary with
        | some s => exact absurd (h _ List.mem_cons_self) (Reply.not_indefinite hok)
        | none =>
          by_cases hleft : 0 < left
          · simp only [hleft, if_true] at h ⊢
            exact hnext fun r hr => h r (List.mem_cons_of_mem _ hr)
          · simp only [hleft, if_false]
      · simp only [hok, Bool.false_eq_true, if_false] at h ⊢
        split_ifs at h ⊢
        · rfl
        · exact hnext fun r hr => h r (List.mem_cons_of_mem _ hr)
        · rfl
    | transport =>
      simp only [hreply] at h ⊢
      split at h
      · -- the fallback's reply is consumed too, and its summary would be definite
        rename_i fb_url
        have hfb : (net (n + 1) fb_url).Indefinite := by
          split at h <;> exact h _ (by simp)
        simp only [fallback_indefinite hfb] at h ⊢
        exact ih (n + 2) true fun r hr => h r (by simp [hr])
      · by_cases hleft : 0 < left
        · simp only [hleft, if_true] at h ⊢
          exact hnext fun r hr => h r (List.mem_cons_of_mem _ hr)
        · simp only [hleft, if_false]

theorem mem_unclassifiedParents {iter : List (Hash32 × StoredParent) → List (Hash32 × StoredParent)}
    (hiter : ∀ l, (iter l).Perm l) {db : Database} {p : Hash32} :
    p ∈ db.unclassifiedParents iter ↔ ∃ sp, db.cache_parents.get? p = some sp ∧ sp.parent_state = 0 := by
  simp only [unclassifiedParents, List.mem_map, List.mem_filter, decide_eq_true_eq, Prod.exists, exists_and_right,
    exists_eq_right, (hiter _).mem_iff, KMap.mem_entries]

theorem unclassifiedParents_nodup {iter : List (Hash32 × StoredParent) → List (Hash32 × StoredParent)}
    (hiter : ∀ l, (iter l).Perm l) (db : Database) : (db.unclassifiedParents iter).Nodup := by
  have hn : ((iter db.cache_parents.entries).map Prod.fst).Nodup :=
    ((hiter _).map Prod.fst).nodup_iff.2 db.cache_parents.keys_nodup
  exact hn.sublist (List.filter_sublist.map Prod.fst)

/-- A classification changes the cached record of its parent, failed or not. -/
theorem classifyParent_cache (commit : Bool) (db : Database) (p : Hash32) (ltc_height : Option UInt64) :
    (db.classifyParent commit p ltc_height).2.cache_parents =
      db.cache_parents.modify p (·.classified ltc_height) := by
  unfold classifyParent
  cases commit with
  | false => rfl
  | true =>
    simp only [not_true, if_false]
    split <;> rfl

theorem classifyParent_fst (commit : Bool) (db : Database) (p : Hash32) (ltc_height : Option UInt64) :
    (db.classifyParent commit p ltc_height).1 = if commit then .ok () else .error .redb := by
  unfold classifyParent
  cases commit with
  | false => rfl
  | true =>
    simp only [not_true, if_false, if_true]
    split <;> rfl

/-- One turn of the loop. -/
theorem classifyLoop_cons (commits : Hash32 → Bool) (db : Database) (p : Hash32) (ltc_height : Option UInt64)
    (results : List (Hash32 × Option UInt64)) :
    (classifyLoop commits db ((p, ltc_height) :: results)).2 =
      if commits p then (classifyLoop commits (db.classifyParent true p ltc_height).2 results).2
      else (db.classifyParent false p ltc_height).2 := by
  have hfst := classifyParent_fst (commits p) db p ltc_height
  rw [classifyLoop]
  cases hc : commits p with
  | false =>
    rw [hc] at hfst
    split
    · rename_i hr
      rw [hr]
      rfl
    · rename_i hr
      rw [hr] at hfst
      simp at hfst
  | true =>
    rw [hc] at hfst
    split
    · rename_i hr
      rw [hr] at hfst
      simp at hfst
    · rename_i hr
      rw [hr, if_pos rfl]
      split <;> rename_i hl <;> rw [hl]

theorem classifyLoop_other (commits : Hash32 → Bool) (results : List (Hash32 × Option UInt64)) (db : Database)
    (p : Hash32) (hp : p ∉ results.map Prod.fst) :
    (classifyLoop commits db results).2.cache_parents.get? p = db.cache_parents.get? p := by
  induction results generalizing db with
  | nil => rfl
  | cons e results ih =>
    obtain ⟨q, x⟩ := e
    rw [List.map_cons, List.mem_cons, not_or] at hp
    rw [classifyLoop_cons]
    split_ifs
    · rw [ih _ hp.2, classifyParent_cache, KMap.get?_modify, if_neg hp.1]
    · rw [classifyParent_cache, KMap.get?_modify, if_neg hp.1]

/-- The record of a parent after the loop: classified, unless the loop stopped
at an earlier one. -/
theorem classifyLoop_record (commits : Hash32 → Bool) (results : List (Hash32 × Option UInt64)) (db : Database)
    (p : Hash32) (ltc_height : Option UInt64) (hn : (results.map Prod.fst).Nodup) (hmem : (p, ltc_height) ∈ results) :
    (classifyLoop commits db results).2.cache_parents.get? p =
      if ∃ q ∈ (results.map Prod.fst).takeWhile (· ≠ p), commits q = false then db.cache_parents.get? p
      else (db.cache_parents.get? p).map (·.classified ltc_height) := by
  induction results generalizing db with
  | nil => simp at hmem
  | cons e results ih =>
    obtain ⟨q, x⟩ := e
    obtain ⟨hq, hn⟩ := List.nodup_cons.1 hn
    rw [classifyLoop_cons, List.map_cons]
    by_cases hqp : q = p
    · subst hqp
      have hx : x = ltc_height := by
        rcases List.mem_cons.1 hmem with he | he
        · exact (Prod.mk.inj he).2.symm
        · exact absurd (List.mem_map.2 ⟨_, he, rfl⟩) hq
      subst hx
      have hfirst : ¬ ∃ r ∈ ([] : List Hash32), commits r = false := by simp
      rw [List.takeWhile_cons_of_neg (by simp), if_neg hfirst]
      split_ifs
      · rw [classifyLoop_other _ _ _ _ hq, classifyParent_cache, KMap.get?_modify, if_pos rfl]
      · rw [classifyParent_cache, KMap.get?_modify, if_pos rfl]
    · have hmem' : (p, ltc_height) ∈ results := by
        rcases List.mem_cons.1 hmem with he | he
        · exact absurd (Prod.mk.inj he).1.symm hqp
        · exact he
      rw [List.takeWhile_cons_of_pos (by simpa using hqp)]
      cases hc : commits q with
      | false =>
        rw [if_neg (by simp), if_pos ⟨q, List.mem_cons_self, hc⟩, classifyParent_cache, KMap.get?_modify,
          if_neg (Ne.symm hqp)]
      | true =>
        rw [if_pos rfl, ih _ hn hmem', classifyParent_cache, KMap.get?_modify, if_neg (Ne.symm hqp)]
        exact if_congr (by simp only [List.exists_mem_cons_iff, hc, reduceCtorEq, false_or]) rfl rfl

/-- When a parent gets no definite answer, it is still unprobed afterwards
exactly when the write of a parent before it in the batch failed. -/
theorem outage_keeps_unclassified_iff (R : ParentResolver) (net : Hash32 → Nat → String → Reply)
    (commits : Hash32 → Bool) (iter iter' : List (Hash32 × StoredParent) → List (Hash32 × StoredParent))
    (hiter : ∀ l, (iter l).Perm l) (hiter' : ∀ l, (iter' l).Perm l) (db : Database) (p : Hash32) (sp : StoredParent)
    (hp : db.cache_parents.get? p = some sp) (hstate : sp.parent_state = 0)
    (hout : ∀ r ∈ (R.resolve (net p) p).2, r.Indefinite) :
    p ∈ (classifyPendingParents R net commits iter db).2.unclassifiedParents iter' ↔
      ∃ q ∈ (db.unclassifiedParents iter).takeWhile (· ≠ p), commits q = false := by
  have hmem : p ∈ db.unclassifiedParents iter := (mem_unclassifiedParents hiter).2 ⟨sp, hp, hstate⟩
  have hnone : (R.resolve (net p) p).1 = none := resolveLoop_indefinite _ _ _ _ _ _ _ hout
  have hfst : ((db.unclassifiedParents iter).map (fun q => (q, (R.resolve (net q) q).1))).map Prod.fst =
      db.unclassifiedParents iter := by
    rw [List.map_map]
    exact List.map_id _
  have hrecord := classifyLoop_record commits
    ((db.unclassifiedParents iter).map (fun q => (q, (R.resolve (net q) q).1))) db p none
    (by rw [hfst]; exact unclassifiedParents_nodup hiter db) (List.mem_map.2 ⟨p, hmem, by rw [hnone]⟩)
  rw [hfst, hp] at hrecord
  have hloop : (classifyPendingParents R net commits iter db).2 = (classifyLoop commits db
      ((db.unclassifiedParents iter).map (fun q => (q, (R.resolve (net q) q).1)))).2 := by
    unfold classifyPendingParents
    simp only
    rw [if_neg (List.ne_nil_of_mem hmem)]
  rw [mem_unclassifiedParents hiter', hloop, hrecord]
  split_ifs with hstop
  · exact iff_of_true ⟨sp, rfl, hstate⟩ hstop
  · refine iff_of_false ?_ hstop
    rintro ⟨sp', hsp', hzero⟩
    cases hsp'
    simp [StoredParent.classified] at hzero

/-- One block of chain 63 stored, its parent not yet looked up. -/
def pendingDb : Database := (freshDb.insertBlocks sampleSha true [(⟨63, 1⟩, sampleBlock₁ 1)]).2

/-- A resolver with a fallback and one retry. -/
def sampleResolver : ParentResolver :=
  .withPolicyAndFallback "https://litecoinspace.org/api" "litecoin" 1 (some "https://fallback.example/api")

/-- Alone in its batch, a parent nobody could be asked about is no longer unprobed. -/
theorem outage_keeps_unclassified_iff_pending :
    sampleParentId₁ ∉ (classifyPendingParents sampleResolver (fun _ _ _ => .transport) (fun _ => true) (fun l => l)
      pendingDb).2.unclassifiedParents (fun l => l) := by
  obtain ⟨sp, hsp, hstate⟩ : ∃ sp, pendingDb.cache_parents.get? sampleParentId₁ = some sp ∧ sp.parent_state = 0 :=
    (@mem_unclassifiedParents (fun l => l) (fun _ => .refl _) _ _).1 (by decide +kernel)
  rw [outage_keeps_unclassified_iff sampleResolver (fun _ _ _ => .transport) (fun _ => true) (fun l => l) (fun l => l)
    (fun _ => .refl _) (fun _ => .refl _) pendingDb sampleParentId₁ sp hsp hstate (by
      rw [show (sampleResolver.resolve (fun _ _ => .transport) sampleParentId₁).2 = [.transport, .transport, .transport]
        from by decide +kernel]
      simp [Reply.Indefinite])]
  simp

/-- Every request fails, and the parent is recorded as a trial block. -/
theorem outage_records_trial :
    openDb sampleSha Redb.empty = .ok freshDb ∧ pendingDb.unclassifiedParents (fun l => l) = [sampleParentId₁] ∧
      (let after := classifyPendingParents sampleResolver (fun _ _ _ => .transport) (fun _ => true) (fun l => l) pendingDb
       after.1 = .ok [] ∧ after.2.unclassifiedParents (fun l => l) = [] ∧
         (after.2.getParent sampleParentId₁).1.map (·.parent_state) = some 2) := by
  refine ⟨rfl, ?_⟩
  decide +kernel

end PsobIndexer
