import PsobIndexer.Atomicity
/-!
# The order book (`src/server.rs`, `src/p2p/swarm.rs`)

Intents enter the book through the API and through gossip; both check them
against the chains in the registry and then store them under their id. A step
of the book is one of these, a listing, a pruning or a new chain. What is
proved: a stored intent stays, in the cache and on disk, until it expires or
until a later accepted intent carries its id.
-/
open Lib

namespace PsobIndexer

open Database

/-- What an API call answers when it fails. -/
inductive ApiError where
  | badRequest (msg : String)
  | notFound (msg : String)
  | invalidIntent (e : IntentError)
  | internal (e : DbError)
  deriving DecidableEq

section Entry
variable (S : SigScheme) (enforce : Bool) (iter : List (String × String) → List (String × String))

/-- The verdict on an intent, with the chains the registry knows. -/
def checkIntent (now : UInt64) (db : Database) (intent : SwapIntentMessage) : Except IntentError Unit :=
  validateSwapIntent S enforce ((db.chainRegistry iter).map Prod.fst) now intent

/-- `POST /api/v1/swap/intents`. The clock is read once for the check and once
for the pruning. -/
def createSwapIntent (check_now now : UInt64) (prune_commit commit : Bool) (db : Database) (intent : SwapIntentMessage) :
    Except ApiError String × Database :=
  match checkIntent S enforce iter check_now db intent with
  | .error e => (.error (.invalidIntent e), db)
  | .ok () =>
    match db.insertIntent prune_commit commit now intent with
    | (.error e, db) => (.error (.internal e), db)
    | (.ok (), db) => (.ok intent.intent_id, db)

/-- A message on the intents topic; `none` is a payload that does not decode. -/
def inboundIntent (check_now now : UInt64) (prune_commit commit : Bool) (db : Database) :
    Option SwapIntentMessage → Database
  | none => db
  | some intent =>
    match checkIntent S enforce iter check_now db intent with
    | .error _ => db
    | .ok () => (db.insertIntent prune_commit commit now intent).2

/-- One thing that happens to the book, with the clock values it reads. -/
inductive BookStep where
  | create (check_now now : UInt64) (prune_commit commit : Bool) (intent : SwapIntentMessage)
  | gossip (check_now now : UInt64) (prune_commit commit : Bool) (payload : Option SwapIntentMessage)
  | list (prune_now now : UInt64) (commit : Bool) (source target : Option UInt32) (protocol : Option String) (page : Page)
  | prune (now : UInt64) (commit : Bool)
  | upsertChain (commit : Bool) (chain_id : UInt32) (name electrs : String)

namespace BookStep

/-- The clock value the step prunes at. -/
def clock : BookStep → Option UInt64
  | create _ now _ _ _ => some now
  | gossip _ now _ _ _ => some now
  | list prune_now _ _ _ _ _ _ => some prune_now
  | prune now _ => some now
  | upsertChain _ _ _ _ => none

/-- The intent a step submits, if the check accepts it. -/
def accepted (db : Database) : BookStep → Option SwapIntentMessage
  | create check_now _ _ _ intent => if checkIntent S enforce iter check_now db intent = .ok () then some intent else none
  | gossip check_now _ _ _ payload => payload.filter (fun i => checkIntent S enforce iter check_now db i = .ok ())
  | _ => none

def run (db : Database) : BookStep → Database
  | create check_now now prune_commit commit intent =>
    (createSwapIntent S enforce iter check_now now prune_commit commit db intent).2
  | gossip check_now now prune_commit commit payload =>
    inboundIntent S enforce iter check_now now prune_commit commit db payload
  | list prune_now now commit source target protocol page =>
    (db.listIntents (fun l => l) commit prune_now now source target protocol page).2
  | prune now commit => (db.pruneExpiredIntents commit now).2
  | upsertChain commit chain_id name electrs => (db.upsertChain commit chain_id name electrs).2

end BookStep

/-- Every step prunes before `i` expires, and none of them submits an accepted
intent with its id. -/
def Undisturbed (i : SwapIntentMessage) : Database → List BookStep → Prop
  | _, [] => True
  | db, s :: steps =>
    (∀ t, s.clock = some t → t < i.expiry) ∧
      (∀ j, s.accepted S enforce iter db = some j → j.intent_id ≠ i.intent_id) ∧
      Undisturbed i (s.run S enforce iter db) steps

/-- The book after a list of steps. -/
def runBook (db : Database) (steps : List BookStep) : Database := steps.foldl (BookStep.run S enforce iter) db

end Entry

/-! ## What one operation does to a stored intent -/

/-- The intent is stored under its id, in the cache and on disk. -/
def InBook (db : Database) (i : SwapIntentMessage) : Prop :=
  db.cache_intents.get? i.intent_id = some i ∧ db.redb.swap_intents.get? i.intent_id = some i

theorem InBook.of_eq {db db' : Database} {i : SwapIntentMessage} (h : InBook db i)
    (hcache : db'.cache_intents = db.cache_intents) (hdisk : db'.redb.swap_intents = db.redb.swap_intents) :
    InBook db' i := by
  unfold InBook
  rw [hcache, hdisk]
  exact h

theorem InBook.pruned {db : Database} {i : SwapIntentMessage} {now : UInt64} (h : InBook db i) (hlive : now < i.expiry) :
    InBook (db.pruned now) i := by
  have hmem : i.intent_id ∉ db.expiredIds now := by
    intro hm
    obtain ⟨j, hj, hle⟩ := mem_expiredIds.1 hm
    rw [h.1] at hj
    cases hj
    exact absurd hlive (not_lt.2 hle)
  unfold InBook Database.pruned
  rw [KMap.get?_eraseAll, KMap.get?_eraseAll, if_neg hmem, if_neg hmem]
  exact h

/-- Pruning leaves the store as it was or without its expired intents. -/
theorem pruneExpiredIntents_snd (commit : Bool) (now : UInt64) (db : Database) :
    (db.pruneExpiredIntents commit now).2 = db ∨ (db.pruneExpiredIntents commit now).2 = db.pruned now := by
  cases commit with
  | true => exact .inr (by rw [pruneExpiredIntents_true])
  | false =>
    unfold pruneExpiredIntents
    simp only [Bool.false_eq_true, if_false]
    split_ifs <;> exact .inl rfl

theorem InBook.prune {db : Database} {i : SwapIntentMessage} {now : UInt64} (h : InBook db i) (hlive : now < i.expiry)
    (commit : Bool) : InBook (db.pruneExpiredIntents commit now).2 i := by
  rcases pruneExpiredIntents_snd commit now db with he | he
  · rw [he]
    exact h
  · rw [he]
    exact h.pruned hlive

/-- Storing an intent under another id keeps this one, whether it fails or not. -/
theorem InBook.insertIntent {db : Database} {i j : SwapIntentMessage} {now : UInt64} (h : InBook db i)
    (hlive : now < i.expiry) (hid : j.intent_id ≠ i.intent_id) (prune_commit commit : Bool) :
    InBook (db.insertIntent prune_commit commit now j).2 i := by
  have hp := h.prune hlive prune_commit
  unfold Database.insertIntent
  cases hr : db.pruneExpiredIntents prune_commit now with
  | mk r db₁ =>
    rw [hr] at hp
    cases r with
    | error e => exact hp
    | ok n =>
      simp only
      split_ifs
      · exact hp
      · unfold InBook
        simp only [KMap.get?_insert, if_neg hid.symm]
        exact hp
      · unfold InBook
        simp only [KMap.get?_insert, if_neg hid.symm]
        exact hp

/-- A new chain leaves the book alone. -/
theorem upsertChain_intents (commit : Bool) (db : Database) (chain_id : UInt32) (name electrs : String) :
    (db.upsertChain commit chain_id name electrs).2.cache_intents = db.cache_intents ∧
      (db.upsertChain commit chain_id name electrs).2.redb.swap_intents = db.redb.swap_intents := by
  obtain ⟨m, hm⟩ := getMeta_frame db (chainKey chain_id)
  unfold Database.upsertChain Database.setMeta
  simp only [hm]
  split_ifs <;> exact ⟨rfl, rfl⟩

theorem InBook.upsertChain {db : Database} {i : SwapIntentMessage} (h : InBook db i) (commit : Bool) (chain_id : UInt32)
    (name electrs : String) : InBook (db.upsertChain commit chain_id name electrs).2 i := by
  obtain ⟨hcache, hdisk⟩ := upsertChain_intents commit db chain_id name electrs
  exact h.of_eq hcache hdisk

/-! ## Steps and runs -/

section Run
variable {S : SigScheme} {enforce : Bool} {iter : List (String × String) → List (String × String)}

theorem InBook.step {db : Database} {i : SwapIntentMessage} {s : BookStep} (h : InBook db i)
    (hclock : ∀ t, s.clock = some t → t < i.expiry)
    (hid : ∀ j, s.accepted S enforce iter db = some j → j.intent_id ≠ i.intent_id) :
    InBook (s.run S enforce iter db) i := by
  cases s with
  | create check_now now prune_commit commit j =>
    unfold BookStep.run createSwapIntent
    simp only
    cases hv : checkIntent S enforce iter check_now db j with
    | error e => exact h
    | ok _ =>
      have hj := hid j (by simp [BookStep.accepted, hv])
      have hstored := h.insertIntent (hclock now rfl) hj prune_commit commit
      simp only
      split <;> rename_i hr <;> rw [hr] at hstored <;> exact hstored
  | gossip check_now now prune_commit commit payload =>
    cases payload with
    | none => exact h
    | some j =>
      unfold BookStep.run inboundIntent
      simp only
      cases hv : checkIntent S enforce iter check_now db j with
      | error e => exact h
      | ok _ =>
        have hj := hid j (by simp [BookStep.accepted, hv, Option.filter])
        exact h.insertIntent (hclock now rfl) hj prune_commit commit
  | list prune_now now commit source target protocol page =>
    have hp := h.prune (hclock prune_now rfl) commit
    unfold BookStep.run Database.listIntents
    simp only
    split <;> rename_i hr <;> rw [hr] at hp <;> exact hp
  | prune now commit => exact h.prune (hclock now rfl) commit
  | upsertChain commit chain_id name electrs => exact h.upsertChain commit chain_id name electrs

theorem InBook.run {i : SwapIntentMessage} {steps : List BookStep} {db : Database} (h : InBook db i)
    (hsteps : Undisturbed S enforce iter i db steps) : InBook (runBook S enforce iter db steps) i := by
  induction steps generalizing db with
  | nil => exact h
  | cons s steps ih =>
    obtain ⟨hclock, hid, hrest⟩ := hsteps
    exact ih (h.step hclock hid) hrest

end Run

/-- A stored intent is in its book. -/
theorem insertIntent_ok {prune_commit commit : Bool} {now : UInt64} {db db' : Database} {i : SwapIntentMessage}
    (h : db.insertIntent prune_commit commit now i = (.ok (), db')) : InBook db' i := by
  unfold Database.insertIntent at h
  split at h
  · simp at h
  · simp only at h
    split_ifs at h
    · simp at h
    · simp only [Prod.mk.injEq, true_and] at h
      rw [← h]
      exact ⟨KMap.get?_insert_self _ _ _, KMap.get?_insert_self _ _ _⟩
    · simp at h

theorem InBook.listed {db : Database} {i : SwapIntentMessage} (h : InBook db i)
    {iter : List (String × SwapIntentMessage) → List (String × SwapIntentMessage)} (hiter : IterOrder iter) {now : UInt64}
    (hlive : now < i.expiry) : i ∈ db.matchingIntents iter now none none none := by
  unfold Database.matchingIntents
  rw [List.mem_mergeSort, List.mem_filter, List.mem_map]
  exact ⟨⟨(i.intent_id, i), (hiter.perm _).mem_iff.2 (KMap.mem_entries.2 h.1), rfl⟩, by simpa using hlive⟩

theorem createSwapIntent_of_ok {S : SigScheme} {enforce : Bool} {iter : List (String × String) → List (String × String)}
    {check_now now : UInt64} {prune_commit commit : Bool} {db db' : Database} {i : SwapIntentMessage}
    (hcheck : checkIntent S enforce iter check_now db i = .ok ())
    (hinsert : db.insertIntent prune_commit commit now i = (.ok (), db')) :
    createSwapIntent S enforce iter check_now now prune_commit commit db i = (.ok i.intent_id, db') := by
  unfold createSwapIntent
  simp only [hcheck, hinsert]

/-- Both entry points store an intent that the check accepts. -/
theorem BookStep.run_accepted {S : SigScheme} {enforce : Bool} {iter : List (String × String) → List (String × String)}
    {db : Database} {s : BookStep} {i : SwapIntentMessage} {check_now now : UInt64} {prune_commit commit : Bool}
    (hs : s = .create check_now now prune_commit commit i ∨ s = .gossip check_now now prune_commit commit (some i))
    (hcheck : checkIntent S enforce iter check_now db i = .ok ()) :
    s.run S enforce iter db = (db.insertIntent prune_commit commit now i).2 := by
  rcases hs with rfl | rfl
  · simp only [run, createSwapIntent, hcheck]
    split <;> rename_i hr <;> rw [hr]
  · simp only [run, inboundIntent, hcheck]

/-- An intent that either entry point accepts and stores stays in the book with
its content, and is listed, until it expires or a later accepted intent carries
its id. The store may have any history before. -/
theorem stored_intent_stays (S : SigScheme) (enforce : Bool) (iter : List (String × String) → List (String × String))
    (db : Database) (s : BookStep) (i : SwapIntentMessage) (check_now now : UInt64) (prune_commit commit : Bool)
    (steps : List BookStep)
    (hs : s = .create check_now now prune_commit commit i ∨ s = .gossip check_now now prune_commit commit (some i))
    (hcheck : checkIntent S enforce iter check_now db i = .ok ())
    (hstored : (db.insertIntent prune_commit commit now i).1 = .ok ())
    (hsteps : Undisturbed S enforce iter i (s.run S enforce iter db) steps) :
    InBook (runBook S enforce iter db (s :: steps)) i ∧
      ∀ order t, IterOrder order → t < i.expiry →
        i ∈ (runBook S enforce iter db (s :: steps)).matchingIntents order t none none none := by
  have hin : InBook (s.run S enforce iter db) i := by
    rw [BookStep.run_accepted hs hcheck]
    exact insertIntent_ok (Prod.ext hstored rfl)
  have h : InBook (runBook S enforce iter db (s :: steps)) i := hin.run hsteps
  exact ⟨h, fun order t horder ht => h.listed horder ht⟩

/-! ## Two makers, one id -/

/-- An offer of five for seven under the id `x`. -/
def offer (maker_pubkey maker_receive_address signature : String) : SwapIntentMessage where
  protocol := "psob-swap"
  version := 1
  intent_id := "x"
  maker_pubkey := maker_pubkey
  from_chain := 50
  to_chain := 63
  from_amount := 5
  to_amount := 7
  maker_receive_address := maker_receive_address
  timestamp := 1000
  expiry := 2000
  settlement := "adaptor-v1"
  adaptor_point := ""
  maker_npub := ""
  maker_refund_address := ""
  signature := signature

/-- Signed with the secret key 1. -/
def offerA : SwapIntentMessage := offer "0279be667ef9dcbbac55a06295ce870b07029bfcdb2dce28d959f2815b16f81798" "A"
  ("89b6bd7a7c385383ff466db721729e2f4ab4c650bb72e2dedfafd6ff61277a55" ++
    "387dd707d7fdf421ef7d6e50ae22f25e6f2a460ba7f61120b8c18aa02efeca2e")

/-- Signed with the secret key 2. -/
def offerB : SwapIntentMessage := offer "02c6047f9441ed7d6d3045406e95c07cd85c778e4b8cef3ca7abac09b95c709ee5" "B"
  ("5906b1439b994465c9f3d4fdf7f09a4ab9ae0864262b0140def210148b097533" ++
    "094f7cbc50e2b17d479bd6b90a23b22341bf471f73def813f1dbb05e40084658")

def offerDigestA : Hash32 := digest "db1d72cc11175913c7d3b136dfea0d9220099e170402c5a5eb83e6505962ddb4"

def offerDigestB : Hash32 := digest "413d8ee7a34711e7b2eb2778087e1ebaaf98f2be4e6cbc938332c1a29a331394"

/-- SHA-256 and secp256k1 on the two offers; nothing else verifies. -/
def offerScheme : SigScheme where
  PublicKey := Bytes
  Signature := Bytes
  sha256 b :=
    if b = (canonicalIntentJson offerA).toUTF8.toList then offerDigestA
    else if b = (canonicalIntentJson offerB).toUTF8.toList then offerDigestB
    else ByteArr.fill 32 0
  pkFromSlice b :=
    if some b = hexDecode offerA.maker_pubkey ∨ some b = hexDecode offerB.maker_pubkey then some b else none
  sigFromCompact b := if b.length = 64 then some b else none
  verifyEcdsa d s k :=
    d = offerDigestA ∧ some s = hexDecode offerA.signature ∧ some k = hexDecode offerA.maker_pubkey ∨
      d = offerDigestB ∧ some s = hexDecode offerB.signature ∧ some k = hexDecode offerB.maker_pubkey

/-- A fresh database that knows the two chains. -/
def offerDb : Database :=
  ((freshDb.upsertChain true 50 "dingocoin" "https://dingo-api.s3na.xyz").2.upsertChain true 63 "junkcoin"
    "https://junk-api.s3na.xyz").2

/-- The check hashes one text only. -/
theorem checkIntent_digest {S : SigScheme} {enforce : Bool} {iter : List (String × String) → List (String × String)}
    {now : UInt64} {db : Database} {intent : SwapIntentMessage} {d : Hash32}
    (h : S.sha256 (canonicalIntentJson intent).toUTF8.toList = d) :
    checkIntent S enforce iter now db intent = checkIntent { S with sha256 := fun _ => d } enforce iter now db intent := by
  subst h
  rfl

theorem offerA_checked : checkIntent offerScheme true (fun l => l) 1000 offerDb offerA = .ok () := by
  have hdigest : offerScheme.sha256 (canonicalIntentJson offerA).toUTF8.toList = offerDigestA := if_pos rfl
  rw [checkIntent_digest hdigest]
  decide +kernel

/-- The store with the first offer. -/
def offeredDb : Database := (offerDb.insertIntent true true 1000 offerA).2

theorem offeredDb_eq : offerDb.insertIntent true true 1000 offerA = (.ok (), offeredDb) :=
  Prod.ext (by decide +kernel) rfl

theorem runBook_offerA (steps : List BookStep) :
    runBook offerScheme true (fun l => l) offerDb (.create 1000 1000 true true offerA :: steps) =
      runBook offerScheme true (fun l => l) offeredDb steps := by
  rw [runBook, List.foldl_cons, BookStep.run_accepted (.inl rfl) offerA_checked]
  rfl

theorem offerB_checked : checkIntent offerScheme true (fun l => l) 1001 offeredDb offerB = .ok () := by
  have hne : (canonicalIntentJson offerB).toUTF8.toList ≠ (canonicalIntentJson offerA).toUTF8.toList := by decide +kernel
  have hdigest : offerScheme.sha256 (canonicalIntentJson offerB).toUTF8.toList = offerDigestB :=
    (if_neg hne).trans (if_pos rfl)
  rw [checkIntent_digest hdigest]
  decide +kernel

theorem stored_intent_stays_offer :
    InBook (runBook offerScheme true (fun l => l) offerDb
      [.create 1000 1000 true true offerA, .prune 1500 true, .list 1600 1600 true none none none .default]) offerA :=
  (stored_intent_stays offerScheme true (fun l => l) offerDb (.create 1000 1000 true true offerA) offerA 1000 1000 true
    true [.prune 1500 true, .list 1600 1600 true none none none .default] (.inl rfl) offerA_checked
    (congrArg Prod.fst offeredDb_eq) (by simp [Undisturbed, BookStep.clock, BookStep.accepted]; decide)).1

/-- Another maker's offer with the same id, validly signed, takes the place of
the first one long before it expires. -/
theorem other_maker_displaces :
    checkIntent offerScheme true (fun l => l) 1000 offerDb offerA = .ok () ∧
      (createSwapIntent offerScheme true (fun l => l) 1000 1000 true true offerDb offerA).1 = .ok "x" ∧
      (let db := (createSwapIntent offerScheme true (fun l => l) 1000 1000 true true offerDb offerA).2
       let db' := (createSwapIntent offerScheme true (fun l => l) 1001 1001 true true db offerB).2
       offerA.maker_pubkey ≠ offerB.maker_pubkey ∧ 1001 < offerA.expiry ∧ db.cache_intents.get? "x" = some offerA ∧
         db'.cache_intents.get? "x" = some offerB ∧ offerA ∉ db'.matchingIntents (fun l => l) 1001 none none none) := by
  have hcreate := createSwapIntent_of_ok offerA_checked offeredDb_eq
  have hmakers : offerA.maker_pubkey ≠ offerB.maker_pubkey := by decide +kernel
  have hinsert : offeredDb.insertIntent true true 1001 offerB = (.ok (), (offeredDb.insertIntent true true 1001 offerB).2) :=
    Prod.ext (by decide +kernel) rfl
  have hdisplace := createSwapIntent_of_ok offerB_checked hinsert
  rw [hcreate]
  simp only [hdisplace]
  refine ⟨offerA_checked, rfl, hmakers, by decide, (insertIntent_ok offeredDb_eq).1, (insertIntent_ok hinsert).1, ?_⟩
  have hvalues : (offeredDb.insertIntent true true 1001 offerB).2.cache_intents.entries = [("x", offerB)] := by rfl
  intro hlisted
  unfold matchingIntents at hlisted
  rw [hvalues, List.mem_mergeSort, List.mem_filter] at hlisted
  exact hmakers (congrArg SwapIntentMessage.maker_pubkey (List.mem_singleton.1 hlisted.1))

end PsobIndexer
