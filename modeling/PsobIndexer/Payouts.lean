import PsobIndexer.Lib.CursorPages
import PsobIndexer.TxExact
import PsobIndexer.Deposit
/-!
# Payouts of a withdrawal (`crates/chain-rpc/src/lib.rs`)

`find_payouts` reads the confirmed history of the recipient page by page and keeps
the transactions that pay the recipient, carry the withdrawal's id and spend from
the custody. What it returns from an endpoint that serves a history is exactly
what the pages hold, and a payout it returns is one the proof builder can use, if
it is served the same transaction again.
-/
open Lib

namespace PsobIndexer

/-- Confirmation status of a transaction. -/
structure TxStatus where
  confirmed : Bool
  block_height : Option UInt64
  deriving DecidableEq, Repr

/-- One entry of the history of an address. -/
structure AddrTx where
  txid : String
  status : TxStatus
  deriving DecidableEq, Repr

/-- A payout that pays the recipient and carries the withdrawal's id. -/
structure PayoutTx where
  txid_display : String
  payout_sats : UInt64
  block_height : Option UInt64
  deriving DecidableEq, Repr

/-- What one scan reads, besides what the proof builder reads: the reply to the
request of that number for the page after a cursor, and the addresses that the
inputs of a transaction spend from, if its description lists inputs at all. -/
structure PayoutClient extends ProofClient where
  addressTxsChain : Nat → String → Option String → Option (List AddrTx)
  txVin : String → Option (Option (List (Option String)))

/-- Whether a transaction spends an input from an address. -/
def PayoutClient.txSpendsFrom (client : PayoutClient) (txid_display address : String) : Option Bool := do
  let vin ← client.txVin txid_display
  vin.elim (some false) fun inputs => some (inputs.any fun addr => addr == some address)

section Find
variable (w : Nat) (client : PayoutClient) (recipient_hash160 : ByteArr 20) (withdrawal_id : Hash32) (custody_address : String)

/-- One transaction of a page. -/
def visitPayout (payouts : List PayoutTx) (t : AddrTx) : Option (List PayoutTx) :=
  if !t.status.confirmed then some payouts
  else do
    let raw ← client.txBytes t.txid
    match parseWithdrawalOutputs w raw recipient_hash160 with
    | some (payout_sats, wid) =>
      if wid = withdrawal_id then do
        let spends ← client.txSpendsFrom t.txid custody_address
        -- a payout that does not spend from the custody is skipped
        if !spends then some payouts else some (payouts ++ [⟨t.txid, payout_sats, t.status.block_height⟩])
      else some payouts
    | none => some payouts

def findPayouts (recipient_address : String) (max_pages : Nat) : Option (List PayoutTx) :=
  scanPages AddrTx.txid (fun i last_seen => client.addressTxsChain i recipient_address last_seen)
    (visitPayout w client recipient_hash160 withdrawal_id custody_address) (max max_pages 1) 0 none []

/-- What makes an entry of the history the payout `p`. -/
structure IsPayout (t : AddrTx) (p : PayoutTx) : Prop where
  confirmed : t.status.confirmed = true
  txid : p.txid_display = t.txid
  height : p.block_height = t.status.block_height
  pays : ∃ raw, client.txBytes t.txid = some raw ∧
    parseWithdrawalOutputs w raw recipient_hash160 = some (p.payout_sats, withdrawal_id)
  spends : client.txSpendsFrom t.txid custody_address = some true

/-- The payout that an entry of the history is. -/
def payoutOf (t : AddrTx) : Option PayoutTx := do
  if !t.status.confirmed then none
  let raw ← client.txBytes t.txid
  let (payout_sats, wid) ← parseWithdrawalOutputs w raw recipient_hash160
  if wid ≠ withdrawal_id then none
  if client.txSpendsFrom t.txid custody_address ≠ some true then none
  return ⟨t.txid, payout_sats, t.status.block_height⟩

/-- The endpoint serves `history`, newest first, in pages of `limit`; between two
requests new transactions may come in front. -/
structure ServesHistory (address : String) (limit : Nat) (fresh : Nat → List AddrTx) (history : List AddrTx) : Prop where
  limit_pos : 0 < limit
  nodup : (history.map (·.txid)).Nodup
  first : fresh 0 = []
  fresh_new : ∀ i, ∀ t ∈ fresh i, t.txid ∉ history.map (·.txid)
  page : ∀ i last_seen,
    client.addressTxsChain i address last_seen = some (pageAfter AddrTx.txid limit (fresh i ++ history) last_seen)
  bytes : ∀ t ∈ history, ∃ raw, client.txBytes t.txid = some raw
  vin : ∀ t ∈ history, ∃ vin, client.txVin t.txid = some vin

variable {w client recipient_hash160 withdrawal_id custody_address}

theorem payoutOf_eq_some {t : AddrTx} {p : PayoutTx} :
    payoutOf w client recipient_hash160 withdrawal_id custody_address t = some p ↔
      IsPayout w client recipient_hash160 withdrawal_id custody_address t p := by
  unfold payoutOf
  constructor
  · intro h
    obtain ⟨hconf, raw, hraw, ⟨payout_sats, wid⟩, hparse, hwid, hspends, rfl⟩ : t.status.confirmed = true ∧
        ∃ raw, client.txBytes t.txid = some raw ∧ ∃ x, parseWithdrawalOutputs w raw recipient_hash160 = some x ∧
          x.2 = withdrawal_id ∧ client.txSpendsFrom t.txid custody_address = some true ∧
          ⟨t.txid, x.1, t.status.block_height⟩ = p := by
      simpa [Option.bind_eq_some_iff] using h
    subst hwid
    exact ⟨hconf, rfl, rfl, ⟨raw, hraw, hparse⟩, hspends⟩
  · rintro ⟨hconf, htxid, hheight, ⟨raw, hraw, hparse⟩, hspends⟩
    cases p
    cases htxid
    cases hheight
    simp [hconf, hraw, hparse, hspends]

/-- A visit that answers appends the payout that the entry is, if it is one. -/
theorem visitPayout_spec {payouts out : List PayoutTx} {t : AddrTx}
    (h : visitPayout w client recipient_hash160 withdrawal_id custody_address payouts t = some out) :
    out = payouts ++ (payoutOf w client recipient_hash160 withdrawal_id custody_address t).toList := by
  unfold visitPayout at h
  unfold payoutOf
  cases hconf : t.status.confirmed with
  | false =>
    simp only [hconf, Bool.not_false, if_true, Option.some.injEq] at h
    simp [h]
  | true =>
    obtain ⟨raw, hraw, h⟩ := Option.bind_eq_some_iff.1 (by simpa [hconf] using h)
    cases hparse : parseWithdrawalOutputs w raw recipient_hash160 with
    | none =>
      simp only [hparse, Option.some.injEq] at h
      simp [hraw, hparse, h]
    | some x =>
      obtain ⟨payout_sats, wid⟩ := x
      by_cases hwid : wid = withdrawal_id
      · simp only [hparse, hwid, if_true] at h
        obtain ⟨spends, hspends, h⟩ := Option.bind_eq_some_iff.1 h
        cases spends <;> simp_all
      · simp only [hparse, if_neg hwid, Option.some.injEq] at h
        simp [hraw, hparse, hwid, h]

theorem foldlM_visitPayout {l : List AddrTx} : ∀ {payouts out : List PayoutTx},
    l.foldlM (visitPayout w client recipient_hash160 withdrawal_id custody_address) payouts = some out →
    out = payouts ++ l.filterMap (payoutOf w client recipient_hash160 withdrawal_id custody_address) := by
  induction l with
  | nil =>
    intro payouts out h
    simpa using h.symm
  | cons t l ih =>
    intro payouts out h
    rw [List.foldlM_cons] at h
    obtain ⟨mid, hmid, h⟩ := Option.bind_eq_some_iff.1 h
    rw [ih h, visitPayout_spec hmid, List.append_assoc]
    cases hp : payoutOf w client recipient_hash160 withdrawal_id custody_address t <;> simp [hp]

/-- A visit answers where the transaction is served. -/
theorem visitPayout_served {t : AddrTx} (hraw : ∃ raw, client.txBytes t.txid = some raw)
    (hvin : ∃ vin, client.txVin t.txid = some vin) (payouts : List PayoutTx) :
    ∃ out, visitPayout w client recipient_hash160 withdrawal_id custody_address payouts t = some out := by
  obtain ⟨raw, hraw⟩ := hraw
  obtain ⟨vin, hvin⟩ := hvin
  have hspends : ∃ spends, client.txSpendsFrom t.txid custody_address = some spends := by
    cases vin <;> simp [PayoutClient.txSpendsFrom, hvin]
  obtain ⟨spends, hspends⟩ := hspends
  simp only [visitPayout, hraw, hspends, Option.bind_eq_bind, Option.bind_some]
  split
  · exact ⟨_, rfl⟩
  split
  · split
    · split <;> exact ⟨_, rfl⟩
    · exact ⟨_, rfl⟩
  · exact ⟨_, rfl⟩

theorem foldlM_visitPayout_served {l : List AddrTx} (hraw : ∀ t ∈ l, ∃ raw, client.txBytes t.txid = some raw)
    (hvin : ∀ t ∈ l, ∃ vin, client.txVin t.txid = some vin) : ∀ payouts : List PayoutTx,
    ∃ out, l.foldlM (visitPayout w client recipient_hash160 withdrawal_id custody_address) payouts = some out := by
  induction l with
  | nil =>
    intro payouts
    exact ⟨payouts, rfl⟩
  | cons t l ih =>
    intro payouts
    obtain ⟨mid, hmid⟩ := visitPayout_served (hraw t List.mem_cons_self) (hvin t List.mem_cons_self) payouts
    rw [List.foldlM_cons, hmid]
    exact ih (fun t' ht' => hraw t' (List.mem_cons_of_mem _ ht')) (fun t' ht' => hvin t' (List.mem_cons_of_mem _ ht')) mid

/-- Every payout that a scan returns is one, whatever the endpoint answers. -/
theorem mem_scanPages {read : Nat → Option String → Option (List AddrTx)} {p : PayoutTx} (n : Nat) :
    ∀ {i : Nat} {last_seen : Option String} {payouts out : List PayoutTx},
    scanPages AddrTx.txid read (visitPayout w client recipient_hash160 withdrawal_id custody_address) n i last_seen
      payouts = some out → p ∈ out →
    p ∈ payouts ∨ ∃ t, IsPayout w client recipient_hash160 withdrawal_id custody_address t p := by
  induction n with
  | zero =>
    intro i last_seen payouts out h hp
    cases h
    exact .inl hp
  | succ n ih =>
    intro i last_seen payouts out h hp
    obtain ⟨page, -, h⟩ := Option.bind_eq_some_iff.1 h
    split at h
    · cases h
      exact .inl hp
    · obtain ⟨mid, hmid, h⟩ := Option.bind_eq_some_iff.1 h
      rcases ih h hp with hp | hp
      · rw [foldlM_visitPayout hmid, List.mem_append] at hp
        rcases hp with hp | hp
        · exact .inl hp
        · obtain ⟨t, -, ht⟩ := List.mem_filterMap.1 hp
          exact .inr ⟨t, payoutOf_eq_some.1 ht⟩
      · exact .inr hp

theorem mem_findPayouts {recipient_address : String} {max_pages : Nat} {payouts : List PayoutTx} {p : PayoutTx}
    (h : findPayouts w client recipient_hash160 withdrawal_id custody_address recipient_address max_pages = some payouts)
    (hp : p ∈ payouts) : ∃ t, IsPayout w client recipient_hash160 withdrawal_id custody_address t p := by
  rcases mem_scanPages _ h hp with hp | hp
  · cases hp
  · exact hp

variable (w client recipient_hash160 withdrawal_id custody_address)

/-- From an endpoint that serves a history, the scan returns the payouts of its first
pages, each once and in order, though the history grows in front meanwhile. -/
theorem payouts_of_history (recipient_address : String) (limit : Nat) (fresh : Nat → List AddrTx) (history : List AddrTx)
    (h : ServesHistory client recipient_address limit fresh history) (max_pages : Nat) :
    findPayouts w client recipient_hash160 withdrawal_id custody_address recipient_address max_pages =
      some ((history.take (max max_pages 1 * limit)).filterMap
        (payoutOf w client recipient_hash160 withdrawal_id custody_address)) ∧
    ∀ t p, payoutOf w client recipient_hash160 withdrawal_id custody_address t = some p ↔
      IsPayout w client recipient_hash160 withdrawal_id custody_address t p := by
  refine ⟨?_, fun t p => payoutOf_eq_some⟩
  have hscan := @scanPages_eq _ _ _ Option _ _ _ _ _ (visitPayout w client recipient_hash160 withdrawal_id custody_address)
    _ _ _ h.limit_pos h.nodup h.fresh_new h.first h.page (max max_pages 1) []
  have hsub : ∀ t ∈ history.take (max max_pages 1 * limit), t ∈ history := fun t => List.mem_of_mem_take
  obtain ⟨out, hout⟩ := foldlM_visitPayout_served (fun t ht => h.bytes t (hsub t ht)) (fun t ht => h.vin t (hsub t ht)) []
  rw [findPayouts, hscan, hout, foldlM_visitPayout hout, List.nil_append]

variable (max_headers : Nat) (sha256d : Bytes → Hash32)

/-- A payout that was found spends from the custody, and the input built for it, in
place of a deposit, pays the recipient that amount under the withdrawal's id; an
honest endpoint leads to such an input, which the guest accepts. The builder asks
anew, and nothing checks the bytes it gets against the txid. -/
theorem found_payout_provable (recipient_address : String) (max_pages : Nat) (payouts : List PayoutTx)
    (hfind : findPayouts w client recipient_hash160 withdrawal_id custody_address recipient_address max_pages = some payouts)
    (p : PayoutTx) (hp : p ∈ payouts) (builder : ProofClient)
    (hsame : builder.txBytes p.txid_display = client.txBytes p.txid_display) (cp : CheckpointParams) :
    (∃ vin, client.txVin p.txid_display = some (some vin) ∧ some custody_address ∈ vin) ∧
    (∀ input, (buildWithdrawalProofInput w max_headers builder p.txid_display recipient_hash160 cp).result = .ok input →
      parseWithdrawalOutputs w input.deposit_tx input.custody_hash160 = some (p.payout_sats, withdrawal_id)) ∧
    ∀ (chain : AuxChain) (N : ServedChain) (dep : UInt64) (depth : Nat) (tree : PerfectTree Hash32 depth) (pos : Nat)
      (txid : Hash32) (tx : Bytes), p.txid_display = hashDisplay txid →
      ServesDeposit w max_headers sha256d chain N builder cp dep tree pos txid tx →
      ∃ input, (∀ profile, Checked.runIn profile
          (buildWithdrawalProofInput w max_headers builder p.txid_display recipient_hash160 cp) = some (.ok input)) ∧
        Provable sha256d input cp txid tx ∧
        parseWithdrawalOutputs w input.deposit_tx input.custody_hash160 = some (p.payout_sats, withdrawal_id) := by
  obtain ⟨t, ht⟩ := mem_findPayouts hfind hp
  obtain ⟨raw, hraw, hparse⟩ := ht.pays
  rw [← ht.txid, ← hsame] at hraw
  have hspends := ht.spends
  rw [← ht.txid] at hspends
  have hbuilt : ∀ input,
      (buildWithdrawalProofInput w max_headers builder p.txid_display recipient_hash160 cp).result = .ok input →
      parseWithdrawalOutputs w input.deposit_tx input.custody_hash160 = some (p.payout_sats, withdrawal_id) := by
    intro input hinput
    obtain ⟨htx, hcustody⟩ := result_build_rest hinput
    rw [hraw] at htx
    cases htx
    rw [hcustody]
    exact hparse
  refine ⟨?_, hbuilt, ?_⟩
  · obtain ⟨vin, hvin, hany⟩ := Option.bind_eq_some_iff.1 hspends
    cases vin with
    | none => simp at hany
    | some vin =>
      refine ⟨vin, hvin, ?_⟩
      simpa using hany
  · intro chain N dep depth tree pos txid tx hdisplay h
    obtain ⟨input, hrun, hprovable, -⟩ := h.builtWithdrawal recipient_hash160
    rw [hdisplay] at hbuilt ⊢
    exact ⟨input, hrun, hprovable, hbuilt input (Checked.runIn_eq_some.1 (hrun .release)).2⟩

end Find

/-! ## A payout on the second page -/

def payoutHistory : List AddrTx := [⟨"a0", ⟨true, some 2⟩⟩, ⟨hashDisplay depositTxid, ⟨true, some 1⟩⟩]

/-- A transaction that comes in after the first request. -/
def incoming (i : Nat) : List AddrTx := if i = 0 then [] else [⟨"b0", ⟨true, some 3⟩⟩]

/-- Pages of one transaction. Only the older one spends from the custody. -/
def payoutClient : PayoutClient where
  toProofClient := { depositClient with txBytes := fun _ => some payoutSample }
  addressTxsChain i _ last_seen := some (pageAfter AddrTx.txid 1 (incoming i ++ payoutHistory) last_seen)
  txVin txid := if txid = "a0" then some none else some (some [none, some "custody"])

theorem payoutHistory_txids : (payoutHistory.map (·.txid)).Nodup ∧ "b0" ∉ payoutHistory.map (·.txid) := by
  decide +kernel

theorem servesHistory_sample : ServesHistory payoutClient "recipient" 1 incoming payoutHistory where
  limit_pos := by decide
  nodup := payoutHistory_txids.1
  first := rfl
  fresh_new i t ht := by
    unfold incoming at ht
    split at ht
    · cases ht
    · rw [List.mem_singleton.1 ht]
      exact payoutHistory_txids.2
  page _ _ := rfl
  bytes _ _ := ⟨_, rfl⟩
  vin t _ := by
    simp only [payoutClient]
    split <;> exact ⟨_, rfl⟩

theorem payoutsOf_sample : (payoutHistory.take 2).filterMap
    (payoutOf 64 payoutClient (ByteArr.fill 20 0x11) (ByteArr.fill 32 0x33) "custody") =
      [⟨hashDisplay depositTxid, 5000, some 1⟩] := by
  decide +kernel

theorem payouts_of_history_sample :
    findPayouts 64 payoutClient (ByteArr.fill 20 0x11) (ByteArr.fill 32 0x33) "custody" "recipient" 2 =
      some [⟨hashDisplay depositTxid, 5000, some 1⟩] := by
  rw [(payouts_of_history 64 payoutClient (ByteArr.fill 20 0x11) (ByteArr.fill 32 0x33) "custody" "recipient" 1 incoming
    payoutHistory servesHistory_sample 2).1]
  exact congrArg some payoutsOf_sample

theorem found_payout_provable_sample :
    ∃ input, (∀ profile, Checked.runIn profile (buildWithdrawalProofInput 64 100
        { depositClient with txBytes := fun _ => some payoutSample } (hashDisplay depositTxid) (ByteArr.fill 20 0x11)
        depositParams) = some (.ok input)) ∧
      Provable sampleSha input depositParams depositTxid payoutSample ∧
      parseWithdrawalOutputs 64 input.deposit_tx input.custody_hash160 = some (5000, ByteArr.fill 32 0x33) :=
  (found_payout_provable 64 payoutClient (ByteArr.fill 20 0x11) (ByteArr.fill 32 0x33) "custody" 100 sampleSha "recipient" 2
    [⟨hashDisplay depositTxid, 5000, some 1⟩] (by decide +kernel) _ List.mem_cons_self
    { depositClient with txBytes := fun _ => some payoutSample } rfl depositParams).2.2 sampleChain sampleServed 1 1
    depositTree 1 depositTxid payoutSample rfl (servesDeposit_sample payoutSample)

end PsobIndexer
