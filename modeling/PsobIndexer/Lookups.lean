import PsobIndexer.Resolve
/-!
# What the resolver asks and answers

`resolve` with a log of its requests, each with the explorer it went to. One
relation says what an attempt can do (`Lookup`); it bounds the requests, places
the fallback, and shows that a height is always one an explorer gave for the
hash that was asked about.
-/
open Lib

namespace PsobIndexer

/-- The explorer a request goes to. -/
inductive Explorer where
  | primary
  | fallback
  deriving DecidableEq

section Loop
variable (net : Nat → String → Reply) (url : String) (fallback_url : Option String) (hash_hex : String)

/-- `resolveLoop` with the explorer of each request it makes. -/
def resolveRequests : Nat → Nat → Bool → Option UInt64 × List (Explorer × Reply)
  | 0, _, _ => (none, [])
  | left + 1, n, attempted_fallback =>
    let reply := net n url
    let retry (_ : Unit) :=
      let r := resolveRequests left (n + 1) attempted_fallback
      (r.1, (.primary, reply) :: r.2)
    match reply with
    | .response status summary =>
      if isSuccess status then
        match summary with
        | some s => (summaryHeight hash_hex s, [(.primary, reply)])
        | none => if 0 < left then retry () else (none, [(.primary, reply)])
      else if status = 404 then (none, [(.primary, reply)])
      else if (status = 429 ∨ isServerError status) ∧ 0 < left then retry ()
      else (none, [(.primary, reply)])
    | .transport =>
      match fallback_url, attempted_fallback with
      | some fb_url, false =>
        let fb := net (n + 1) fb_url
        let found := match fb with
          | .response status (some s) => if isSuccess status then summaryHeight hash_hex s else none
          | _ => none
        match found with
        | some h => (some h, [(.primary, reply), (.fallback, fb)])
        | none =>
          let r := resolveRequests left (n + 2) true
          (r.1, (.primary, reply) :: (.fallback, fb) :: r.2)
      | _, _ => if 0 < left then retry () else (none, [(.primary, reply)])

end Loop

/-- The requests of a lookup, in order. -/
def ParentResolver.requests (R : ParentResolver) (net : Nat → String → Reply) (parent_hash_le : Hash32) :
    List (Explorer × Reply) :=
  let hash_hex := hashDisplay parent_hash_le
  let url := if R.flat then R.base ++ "/block/" ++ hash_hex else R.base ++ "/" ++ R.chain_slug ++ "/block/" ++ hash_hex
  let fallback_url := R.fallback_base.map (fun b => trimEndSlashes b ++ "/block/" ++ hash_hex)
  (resolveRequests net url fallback_url hash_hex (R.max_retries + 1) 0 false).2

/-- A reply that gives `h` as the height of the block asked about. -/
def Reply.Vouches (hash_hex : String) (h : UInt64) : Reply → Prop
  | .transport => False
  | .response status summary => isSuccess status = true ∧ ∃ s, summary = some s ∧
      s.id.toList.map Char.toLower = hash_hex.toList ∧ s.height = h

/-- A reply that settles that the block is not on the parent chain. -/
def Reply.DefiniteMiss (hash_hex : String) : Reply → Prop
  | .transport => False
  | .response status summary => status = 404 ∨ isSuccess status = true ∧ ∃ s, summary = some s ∧
      s.id.toList.map Char.toLower ≠ hash_hex.toList

/-- What the attempts left over can come to; each constructor is one way out of
an attempt. -/
inductive Lookup (hash_hex : String) : Nat → Bool → Option UInt64 → List (Explorer × Reply) → Prop
  | exhausted {attempted} : Lookup hash_hex 0 attempted none []
  | found {left attempted h reply} : reply.Vouches hash_hex h →
      Lookup hash_hex (left + 1) attempted (some h) [(.primary, reply)]
  | given_up {left attempted reply} : Lookup hash_hex (left + 1) attempted none [(.primary, reply)]
  | retried {left attempted reply result log} : reply.Indefinite → Lookup hash_hex left attempted result log →
      Lookup hash_hex (left + 1) attempted result ((.primary, reply) :: log)
  | fallback_found {left h fb} : fb.Vouches hash_hex h →
      Lookup hash_hex (left + 1) false (some h) [(.primary, .transport), (.fallback, fb)]
  | fallback_missed {left fb result log} : Lookup hash_hex left true result log →
      Lookup hash_hex (left + 1) false result ((.primary, .transport) :: (.fallback, fb) :: log)

theorem summaryHeight_eq_some {hash_hex : String} {s : BlockSummary} {h : UInt64} :
    summaryHeight hash_hex s = some h ↔ s.id.toList.map Char.toLower = hash_hex.toList ∧ s.height = h := by
  unfold summaryHeight
  split <;> simp_all

theorem Reply.not_definiteMiss {hash_hex : String} {reply : Reply} (h : reply.Indefinite) :
    ¬ reply.DefiniteMiss hash_hex := by
  cases reply with
  | transport => exact fun hm => hm
  | response status summary =>
    simp only [Reply.Indefinite, isServerError, isSuccess, Bool.and_eq_true, decide_eq_true_eq] at h
    simp only [Reply.DefiniteMiss, isSuccess, Bool.and_eq_true, decide_eq_true_eq]
    rintro (h404 | ⟨hok, s, rfl, -⟩)
    · omega
    · simp only [reduceCtorEq, and_false, or_false] at h
      omega

theorem Reply.not_definiteMiss_of_vouches {hash_hex : String} {h : UInt64} {reply : Reply}
    (hv : reply.Vouches hash_hex h) : ¬ reply.DefiniteMiss hash_hex := by
  cases reply with
  | transport => exact hv.elim
  | response status summary =>
    obtain ⟨hok, s, rfl, hid, -⟩ := hv
    simp only [isSuccess, Bool.and_eq_true, decide_eq_true_eq] at hok
    rintro (h404 | ⟨-, s', hs, hne⟩)
    · omega
    · cases hs
      exact hne hid

/-- The loop does what `Lookup` says. -/
theorem resolveRequests_lookup (net : Nat → String → Reply) (url : String) (fallback_url : Option String)
    (hash_hex : String) (left n : Nat) (attempted_fallback : Bool) :
    Lookup hash_hex left attempted_fallback
      (resolveRequests net url fallback_url hash_hex left n attempted_fallback).1
      (resolveRequests net url fallback_url hash_hex left n attempted_fallback).2 := by
  induction left generalizing n attempted_fallback with
  | zero => exact .exhausted
  | succ left ih =>
    unfold resolveRequests
    cases hreply : net n url with
    | response status summary =>
      dsimp only
      by_cases hok : isSuccess status = true
      · rw [if_pos hok]
        cases summary with
        | some s =>
          dsimp only
          cases hs : summaryHeight hash_hex s with
          | none => exact .given_up
          | some h =>
            have hv : (Reply.response status (some s)).Vouches hash_hex h := ⟨hok, s, rfl, summaryHeight_eq_some.1 hs⟩
            exact .found hv
        | none =>
          have hind : (Reply.response status none).Indefinite := .inr (.inr ⟨hok, rfl⟩)
          dsimp only
          split_ifs
          · exact .retried hind (ih _ _)
          · exact .given_up
      · rw [if_neg hok]
        split_ifs with h404 hretry
        · exact .given_up
        · have hind : (Reply.response status summary).Indefinite := hretry.1.imp_right .inl
          exact .retried hind (ih _ _)
        · exact .given_up
    | transport =>
      dsimp only
      split
      · split
        · rename_i h hfound
          refine .fallback_found ?_
          split at hfound
          · rename_i status s hfb
            split_ifs at hfound with hok
            have hv : (Reply.response status (some s)).Vouches hash_hex h :=
              ⟨hok, s, rfl, summaryHeight_eq_some.1 hfound⟩
            rwa [hfb]
          · cases hfound
        · exact .fallback_missed (ih _ _)
      · split_ifs
        · exact .retried trivial (ih _ _)
        · exact .given_up

/-- Forgetting the explorers gives the loop back. -/
theorem resolveRequests_eq (net : Nat → String → Reply) (url : String) (fallback_url : Option String) (hash_hex : String)
    (left n : Nat) (attempted_fallback : Bool) :
    resolveLoop net url fallback_url hash_hex left n attempted_fallback =
      ((resolveRequests net url fallback_url hash_hex left n attempted_fallback).1,
        (resolveRequests net url fallback_url hash_hex left n attempted_fallback).2.map Prod.snd) := by
  induction left generalizing n attempted_fallback with
  | zero => rfl
  | succ left ih =>
    unfold resolveLoop resolveRequests
    cases hreply : net n url with
    | response status summary =>
      dsimp only
      by_cases hok : isSuccess status = true
      · rw [if_pos hok, if_pos hok]
        cases summary with
        | some s => rfl
        | none =>
          dsimp only
          split_ifs
          · rw [ih]
            rfl
          · rfl
      · rw [if_neg hok, if_neg hok]
        split_ifs
        · rfl
        · rw [ih]
          rfl
        · rfl
    | transport =>
      dsimp only
      rcases fallback_url with _ | fb_url
      · dsimp only
        split_ifs
        · rw [ih]
          rfl
        · rfl
      · cases attempted_fallback with
        | true =>
          dsimp only
          split_ifs
          · rw [ih]
            rfl
          · rfl
        | false =>
          dsimp only
          rw [ih]
          rcases net (n + 1) fb_url with _ | ⟨status, _ | s⟩
          · rfl
          · rfl
          · dsimp only
            cases (if isSuccess status = true then summaryHeight hash_hex s else none : Option UInt64) <;> rfl

section Lookup
variable {hash_hex : String} {left : Nat} {attempted : Bool} {result : Option UInt64} {log : List (Explorer × Reply)}

theorem Lookup.vouched (H : Lookup hash_hex left attempted result log) :
    ∀ h ∈ result, ∃ e ∈ log, e.2.Vouches hash_hex h := by
  induction H with
  | exhausted | given_up => simp
  | found hv => simpa using hv
  | retried _ _ ih => exact fun h hh => (ih h hh).imp fun e he => ⟨List.mem_cons_of_mem _ he.1, he.2⟩
  | fallback_found hv =>
    intro h hh
    cases hh
    exact ⟨_, List.mem_cons_of_mem _ List.mem_cons_self, hv⟩
  | fallback_missed _ ih =>
    exact fun h hh => (ih h hh).imp fun e he => ⟨List.mem_cons_of_mem _ (List.mem_cons_of_mem _ he.1), he.2⟩

theorem Lookup.counts (H : Lookup hash_hex left attempted result log) :
    log.countP (·.1 = .primary) ≤ left ∧ log.countP (·.1 = .fallback) ≤ if attempted then 0 else 1 := by
  induction H with
  | exhausted => simp
  | found | given_up => simp
  | retried _ _ ih => simpa using ih
  | fallback_found => simp
  | fallback_missed _ ih => simpa using ih

/-- A fallback request comes right after a failed one to the primary. -/
theorem Lookup.fallback_after (H : Lookup hash_hex left attempted result log) {before after : List (Explorer × Reply)}
    {fb : Reply} (hlog : log = before ++ (.fallback, fb) :: after) :
    ∃ before', before = before' ++ [(.primary, .transport)] := by
  induction H generalizing before with
  | exhausted => simp at hlog
  | found | given_up =>
    obtain _ | ⟨b, before⟩ := before <;> simp at hlog
  | @retried _ _ reply _ _ _ _ ih =>
    obtain _ | ⟨b, before⟩ := before
    · simp at hlog
    · obtain ⟨before', hb⟩ := ih (List.cons.inj hlog).2
      exact ⟨b :: before', by rw [hb, List.cons_append]⟩
  | fallback_found =>
    obtain _ | ⟨b, before⟩ := before
    · simp at hlog
    · obtain _ | ⟨b', before⟩ := before
      · exact ⟨[], by rw [← (List.cons.inj hlog).1]; rfl⟩
      · simp at hlog
  | fallback_missed _ ih =>
    obtain _ | ⟨b, before⟩ := before
    · simp at hlog
    · obtain _ | ⟨b', before⟩ := before
      · exact ⟨[], by rw [← (List.cons.inj hlog).1]; rfl⟩
      · obtain ⟨before', hb⟩ := ih (List.cons.inj (List.cons.inj hlog).2).2
        exact ⟨b :: b' :: before', by rw [hb, List.cons_append, List.cons_append]⟩

/-- A definite miss of the primary is the last request, and nothing was found. -/
theorem Lookup.miss_last (H : Lookup hash_hex left attempted result log) {before after : List (Explorer × Reply)}
    {reply : Reply} (hlog : log = before ++ (.primary, reply) :: after) (hmiss : reply.DefiniteMiss hash_hex) :
    after = [] ∧ result = none := by
  induction H generalizing before with
  | exhausted => simp at hlog
  | @found _ _ h reply' hv =>
    obtain _ | ⟨b, before⟩ := before
    · obtain rfl : reply' = reply := congrArg Prod.snd (List.cons.inj hlog).1
      exact absurd hmiss (Reply.not_definiteMiss_of_vouches hv)
    · simp at hlog
  | given_up =>
    obtain _ | ⟨b, before⟩ := before
    · exact ⟨(List.cons.inj hlog).2.symm, rfl⟩
    · simp at hlog
  | @retried _ _ reply' _ _ hind _ ih =>
    obtain _ | ⟨b, before⟩ := before
    · obtain rfl : reply' = reply := congrArg Prod.snd (List.cons.inj hlog).1
      exact absurd hmiss (Reply.not_definiteMiss hind)
    · exact ih (List.cons.inj hlog).2
  | fallback_found =>
    obtain _ | ⟨b, before⟩ := before
    · obtain rfl : Reply.transport = reply := congrArg Prod.snd (List.cons.inj hlog).1
      exact hmiss.elim
    · obtain _ | ⟨b', before⟩ := before <;> simp at hlog
  | fallback_missed _ ih =>
    obtain _ | ⟨b, before⟩ := before
    · obtain rfl : Reply.transport = reply := congrArg Prod.snd (List.cons.inj hlog).1
      exact hmiss.elim
    · obtain _ | ⟨b', before⟩ := before
      · simp at hlog
      · exact ih (List.cons.inj (List.cons.inj hlog).2).2

end Lookup

/-- Whatever the explorers reply: a height found is one a reply gave for this
hash; the primary is asked once an attempt, the fallback at most once and right
after the primary could not be reached; and a definite miss ends the lookup. -/
theorem resolver_never_invents (R : ParentResolver) (net : Nat → String → Reply) (parent_hash_le : Hash32) :
    let result := (R.resolve net parent_hash_le).1
    let log := R.requests net parent_hash_le
    (R.resolve net parent_hash_le).2 = log.map Prod.snd ∧
      (∀ h, result = some h → ∃ e ∈ log, e.2.Vouches (hashDisplay parent_hash_le) h) ∧
      log.countP (·.1 = .primary) ≤ R.max_retries + 1 ∧ log.countP (·.1 = .fallback) ≤ 1 ∧
      (∀ before after fb, log = before ++ (.fallback, fb) :: after →
        ∃ before', before = before' ++ [(.primary, .transport)]) ∧
      ∀ before after reply, log = before ++ (.primary, reply) :: after →
        reply.DefiniteMiss (hashDisplay parent_hash_le) → after = [] ∧ result = none := by
  intro result log
  let hash_hex := hashDisplay parent_hash_le
  let url := if R.flat then R.base ++ "/block/" ++ hash_hex else R.base ++ "/" ++ R.chain_slug ++ "/block/" ++ hash_hex
  let fallback_url := R.fallback_base.map (fun b => trimEndSlashes b ++ "/block/" ++ hash_hex)
  have heq := resolveRequests_eq net url fallback_url hash_hex (R.max_retries + 1) 0 false
  have H : Lookup hash_hex (R.max_retries + 1) false result log := by
    have hrun := resolveRequests_lookup net url fallback_url hash_hex (R.max_retries + 1) 0 false
    rwa [show (resolveRequests net url fallback_url hash_hex (R.max_retries + 1) 0 false).1 = result from
      (congrArg Prod.fst heq).symm] at hrun
  refine ⟨congrArg Prod.snd heq, fun h hh => H.vouched h hh, H.counts.1, H.counts.2, ?_, ?_⟩
  · exact fun before after fb hlog => H.fallback_after hlog
  · exact fun before after reply hlog hmiss => H.miss_last hlog hmiss

end PsobIndexer
