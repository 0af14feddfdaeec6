import PsobIndexer.PathFold
import PsobIndexer.Reorg
/-!
# An honest endpoint's deposits can be proven (`crates/chain-rpc/src/lib.rs`)

An endpoint that serves a valid chain, knows the deposit's block and answers with
the siblings of that block's transaction tree leads `build_proof_input` to an
input that passes what the guest checks: the headers descend from the checkpoint,
the merkle path folds to the root that the deposit's header carries, and the block
is buried as deep as asked.
-/
open Lib

namespace PsobIndexer

/-- The merkle root of a header's transactions. -/
def merkleRootOf (h : BlockHeader) : Hash32 := ByteArr.ofSlice 32 h.raw 36

/-- The witness of a peg-out: the payout in the deposit's place, the recipient in
the custody's. -/
def buildWithdrawalProofInput (w max_headers : Nat) (client : ProofClient) (payout_txid_display : String)
    (recipient_hash160 : ByteArr 20) (cp : CheckpointParams) : Checked ProofInputError ProofInput :=
  buildProofInput w max_headers client payout_txid_display { cp with custody_hash160 := recipient_hash160 }

/-- The header an endpoint serves for a height, with its witness. -/
def ServedChain.header (N : ServedChain) (h : UInt64) : BlockHeader := ⟨(N.base h).val, some (N.aux h)⟩

section Sha
variable (w max_headers : Nat) (sha256d : Bytes → Hash32)

/-- The endpoint serves `N`, which descends from the checkpoint; the transaction
is leaf `pos` of the tree under the header at `dep`; the window of the deposit is
there and can be held. -/
structure ServesDeposit (chain : AuxChain) (N : ServedChain) (client : ProofClient) (cp : CheckpointParams) (dep : UInt64)
    {depth : Nat} (tree : PerfectTree Hash32 depth) (pos : Nat) (txid : Hash32) (tx : Bytes) : Prop where
  serves : Serves w sha256d chain cp.checkpoint_height N client.toElectrsClient
  chain_id : cp.chain_id = chain.chain_id
  pow_limit : chain.pow_limit_bits = CHAIN_POW_LIMIT_BITS
  descends : (N.header (cp.checkpoint_height + 1)).prevHash = cp.checkpoint_hash
  above : cp.checkpoint_height < dep
  near : dep.toNat - cp.checkpoint_height.toNat ≤ 2 ^ 32
  buried : dep.toNat + cp.confirmations ≤ N.tip.toNat + 1
  tip_lt : N.tip < u64Max
  room : dep.toNat + cp.confirmations ≤ cp.checkpoint_height.toNat + 1 + max_headers
  depth_le : depth ≤ w
  leaf : tree.leaves[pos]? = some txid
  root : tree.root (merkleNode sha256d) = merkleRootOf (N.header dep)
  reply : client.merkleProof (hashDisplay txid) =
    some ⟨dep, (tree.siblings (merkleNode sha256d) pos).map hashDisplay, pos⟩
  tx : client.txBytes (hashDisplay txid) = some tx

/-- What the guest requires of an input. -/
structure Provable (input : ProofInput) (cp : CheckpointParams) (txid : Hash32) (tx : Bytes) : Prop where
  chain : verifyPsobChain sha256d input.headers cp.checkpoint_hash cp.chain_id CHAIN_POW_LIMIT_BITS = .ok ()
  buried : input.deposit_header_index.toNat + cp.confirmations = input.headers.length
  included : ∃ header, input.headers[input.deposit_header_index.toNat]? = some header ∧
    foldMerkle sha256d input.merkle_proof = merkleRootOf header
  txid : input.merkle_proof.txid = txid
  tx : input.deposit_tx = tx

variable {w max_headers sha256d}

section Served
variable {chain : AuxChain} {N : ServedChain} {client : ProofClient} {cp : CheckpointParams} {dep : UInt64} {depth : Nat}
  {tree : PerfectTree Hash32 depth} {pos : Nat} {txid : Hash32} {tx : Bytes}

theorem Serves.header {start : UInt64} (hs : Serves w sha256d chain start N client.toElectrsClient) {h : UInt64}
    (hstart : start < h) (htip : h ≤ N.tip) : jkcHeaderWithAuxpow w client h = .ok (N.header h) := by
  have hparse : parseAuxpow w (N.wire h) = .ok (N.base h, N.aux h) := (hs.passes h hstart htip).2.1
  have hlen : ¬ (N.wire h).length < HEADER_LEN := by
    obtain ⟨-, hle, -⟩ := getRange_eq_some.1 (parseAuxpow_ok hparse).1
    exact not_lt.2 hle
  have hwire : client.headerWire h (N.locator h) = some (N.wire h) := by
    unfold ElectrsClient.headerWire
    rw [hs.wires h hstart htip]
    simp only [Option.bind_eq_bind, Option.bind_some, if_neg hlen]
  unfold jkcHeaderWithAuxpow
  simp only [hs.locators h hstart htip, Option.elim_some, bind, Except.bind, pure, Except.pure, hwire, hparse,
    Except.mapError]
  rfl

/-- The heights of the window. -/
def windowOf (cp : CheckpointParams) (dep : UInt64) : List UInt64 :=
  rangeInclusive (cp.checkpoint_height + 1) (endHeight cp dep)

theorem ServesDeposit.sum_lt (h : ServesDeposit w max_headers sha256d chain N client cp dep tree pos txid tx) :
    dep.toNat + cp.confirmations < 2 ^ 64 := by
  have htip := UInt64.lt_iff_toNat_lt.1 h.tip_lt
  have hmax : u64Max.toNat = 2 ^ 64 - 1 := rfl
  have hburied := h.buried
  omega

/-- The window's heights are above the checkpoint and served. -/
theorem ServesDeposit.mem_window (h : ServesDeposit w max_headers sha256d chain N client cp dep tree pos txid tx) :
    ∀ hh ∈ windowOf cp dep, cp.checkpoint_height < hh ∧ hh ≤ N.tip := by
  intro hh hmem
  obtain ⟨hfirst, hlast⟩ := mem_rangeInclusive.1 hmem
  rw [UInt64.le_iff_toNat_le, toNat_checkpoint_succ h.above] at hfirst
  rw [UInt64.le_iff_toNat_le, toNat_endHeight h.sum_lt] at hlast
  have hburied := h.buried
  exact ⟨UInt64.lt_iff_toNat_lt.2 (by omega), UInt64.le_iff_toNat_le.2 (by omega)⟩

/-- All the steps before the path go through. -/
theorem ServesDeposit.reached (h : ServesDeposit w max_headers sha256d chain N client cp dep tree pos txid tx) :
    Reached w max_headers client (hashDisplay txid) cp dep ((windowOf cp dep).map N.header) txid.reverse := by
  have hend := toNat_endHeight h.sum_lt
  have hpos := confirmations_pos cp
  have hburied := h.buried
  have hlt := UInt64.lt_iff_toNat_lt.1 h.above
  refine ⟨⟨N.tip, h.serves.tip, ?_⟩, withCapacity_ok.2 ?_, mapM_eq_ok_iff.2 ?_, hex32_hashDisplay txid⟩
  · rw [UInt64.lt_iff_toNat_lt, hend]
    omega
  · have hroom := h.room
    rw [UInt64.toNat_sub_of_le _ _ (by rw [UInt64.le_iff_toNat_le, hend]; omega), hend]
    exact le_trans (Nat.mod_le _ _) (by omega)
  · rw [List.forall₂_map_right_iff]
    refine List.forall₂_same.2 fun hh hmem => ?_
    obtain ⟨habove, hle⟩ := h.mem_window hh hmem
    exact h.serves.header habove hle

/-- The served window passes the guest's chain check from the checkpoint. -/
theorem ServesDeposit.verifies (h : ServesDeposit w max_headers sha256d chain N client cp dep tree pos txid tx) :
    verifyPsobChain sha256d ((windowOf cp dep).map N.header) cp.checkpoint_hash cp.chain_id CHAIN_POW_LIMIT_BITS = .ok () := by
  have hend := toNat_endHeight h.sum_lt
  have hpos := confirmations_pos cp
  have hlt := UInt64.lt_iff_toNat_lt.1 h.above
  have hhead : (windowOf cp dep).head? = some (cp.checkpoint_height + 1) := by
    apply head?_rangeInclusive
    rw [UInt64.le_iff_toNat_le, toNat_checkpoint_succ h.above, hend]
    omega
  -- the walk of a tick accepts the window, so its blocks are verified and linked
  have hwalk := @walk_served w sha256d chain cp.checkpoint_height N client.toElectrsClient h.serves _ h.mem_window
    (isChain_rangeInclusive _ _) (some cp.checkpoint_hash) fun p hp hh hhh => by
      cases hp
      rw [hhead] at hhh
      cases hhh
      exact prevHash_eq_iff.1 h.descends
  obtain ⟨hver, -, hlinked, -⟩ := @walk_spec w sha256d chain (some cp.checkpoint_hash) ((windowOf cp dep).map N.fetched)
  rw [hwalk] at hver hlinked
  have hheaders : (windowOf cp dep).map N.header = ((windowOf cp dep).map (N.block sha256d chain)).map (·.header) := by
    rw [List.map_map]
    rfl
  obtain ⟨first, rest, hcons⟩ : ∃ first rest, (windowOf cp dep).map (N.block sha256d chain) = first :: rest := by
    cases hwin : windowOf cp dep with
    | nil =>
      rw [hwin] at hhead
      cases hhead
    | cons hh window => exact ⟨_, _, rfl⟩
  rw [hheaders, h.chain_id, ← h.pow_limit, verifyPsobChain_iff]
  rw [hcons] at hver hlinked ⊢
  obtain ⟨-, limit, hlimit, -⟩ := (hver first List.mem_cons_self).headerValid
  refine ⟨List.cons_ne_nil _ _, limit, hlimit, verifyPsobHeaders_of_chain hlinked.isChain ?_ ?_⟩
  · intro b hb
    obtain ⟨hhash, limit', hlimit', hvalid⟩ := (hver b hb).headerValid
    rw [hlimit] at hlimit'
    cases hlimit'
    exact ⟨hhash, hvalid⟩
  · intro b hb
    cases hb
    exact hlinked.1 _ rfl

/-- The path of the reply is built, and folds to the root. -/
theorem ServesDeposit.path (h : ServesDeposit w max_headers sha256d chain N client cp dep tree pos txid tx) :
    ∃ path, (merklePath w pos 0 ((tree.siblings (merkleNode sha256d) pos).map hashDisplay)).result = .ok path ∧
      foldMerkle sha256d ⟨txid, path⟩ = merkleRootOf (N.header dep) := by
  refine ⟨_, result_merklePath.2 ⟨_, spells_hashDisplay _, rfl⟩, ?_⟩
  rw [foldMerkle_eq, List.map_map, ← h.root, ← tree.foldPath_siblings (merkleNode sha256d) h.leaf, foldPath, sidesOf_eq]
  have hsides : ∀ level < (tree.siblings (merkleNode sha256d) pos).length, (!pos.testBit (level % w)) = !pos.testBit level := by
    intro level hlevel
    rw [tree.length_siblings] at hlevel
    rw [Nat.mod_eq_of_lt (lt_of_lt_of_le hlevel h.depth_le)]
  rw [← sidesBy_congr hsides]
  rfl

/-- What an input takes over from its arguments and the last request. -/
theorem result_build_rest {input : ProofInput} {display : String}
    (h : (buildProofInput w max_headers client display cp).result = .ok input) :
    client.txBytes display = some input.deposit_tx ∧ input.custody_hash160 = cp.custody_hash160 := by
  simp only [buildProofInput, Checked.result_bind_eq_ok, Checked.result_ofExcept, elim_throw_eq_ok,
    ite_throw_pure_eq_ok, Checked.result_add, Checked.result_sub, Checked.result_pure, mapError_eq_ok, Except.ok.injEq,
    exists_eq_left'] at h
  obtain ⟨-, -, -, -, -, -, -, -, -, -, -, -, -, -, -, -, tx, htx, rfl⟩ := h
  exact ⟨htx, rfl⟩

theorem ServesDeposit.built (h : ServesDeposit w max_headers sha256d chain N client cp dep tree pos txid tx) :
    ∃ input, (∀ p, Checked.runIn p (buildProofInput w max_headers client (hashDisplay txid) cp) = some (.ok input)) ∧
      Provable sha256d input cp txid tx ∧ input.custody_hash160 = cp.custody_hash160 := by
  obtain ⟨path, hpath, hfold⟩ := h.path
  obtain ⟨input, hinput⟩ := build_returns h.reply h.above h.reached hpath (by rw [h.tx]; rfl)
  obtain ⟨mp, leaf, hmp, -, hreached, hpath', -, htxid, hindex⟩ := result_build hinput
  obtain ⟨htx, hcustody⟩ := result_build_rest hinput
  cases h.reply.symm.trans hmp
  cases (hex32_hashDisplay txid).symm.trans hreached.txid
  have hlog : (buildProofInput w max_headers client (hashDisplay txid) cp).overflows = [] := by
    refine (overflows_build h.reply h.above).2 ⟨h.sum_lt, fun _ _ _ => (overflows_merklePath _ (Nat.zero_le w)).2 ?_⟩
    have hlen := (List.takeWhile_sublist (fun sib => (hex32 sib).isOk)
      (l := (tree.siblings (merkleNode sha256d) pos).map hashDisplay)).length_le
    rw [List.length_map, tree.length_siblings] at hlen
    rw [Nat.zero_add]
    exact hlen.trans h.depth_le
  refine ⟨input, fun p => Checked.runIn_eq_some.2 ⟨fun _ => hlog, hinput⟩, ?_, hcustody⟩
  -- the headers and the path are the served ones
  have hheaders : input.headers = (windowOf cp dep).map N.header :=
    Except.ok.inj (hreached.headers.symm.trans h.reached.headers)
  have hproof : input.merkle_proof = ⟨txid, path⟩ := by
    rw [ByteArr.reverse_reverse] at htxid
    rw [← htxid, ← Except.ok.inj (hpath'.symm.trans hpath)]
  have hwindow := (windowOf_iff h.above h.sum_lt hreached hindex).2 h.near
  have hburied := hwindow.buried
  have hlt := hwindow.index_lt
  refine ⟨by rw [hheaders]; exact h.verifies, by omega, ?_, by rw [hproof], Option.some.inj (htx.symm.trans h.tx)⟩
  have hget := List.getElem?_eq_getElem hlt
  obtain ⟨hh, hheight, hheader⟩ := hwindow.fetched _ _ hget
  have hlen : input.headers.length = dep.toNat + cp.confirmations - 1 - cp.checkpoint_height.toNat := by
    rw [hheaders, List.length_map, windowOf, length_rangeInclusive, toNat_endHeight h.sum_lt, toNat_checkpoint_succ h.above]
    omega
  have hpos := confirmations_pos cp
  have habove := UInt64.lt_iff_toNat_lt.1 h.above
  obtain rfl : hh = dep := UInt64.toNat_inj.1 (by omega)
  rw [h.serves.header h.above (UInt64.le_iff_toNat_le.2 (by have := h.buried; omega))] at hheader
  exact ⟨_, hget, by rw [← Except.ok.inj hheader, hproof, hfold]⟩

/-- The custody is no part of what an endpoint serves. -/
theorem ServesDeposit.forRecipient (h : ServesDeposit w max_headers sha256d chain N client cp dep tree pos txid tx)
    (recipient_hash160 : ByteArr 20) :
    ServesDeposit w max_headers sha256d chain N client { cp with custody_hash160 := recipient_hash160 } dep tree pos txid tx :=
  ⟨h.serves, h.chain_id, h.pow_limit, h.descends, h.above, h.near, h.buried, h.tip_lt, h.room, h.depth_le, h.leaf, h.root,
    h.reply, h.tx⟩

/-- The same for a payout: the recipient takes the place of the custody, which no
step reads. -/
theorem ServesDeposit.builtWithdrawal (h : ServesDeposit w max_headers sha256d chain N client cp dep tree pos txid tx)
    (recipient_hash160 : ByteArr 20) :
    ∃ input, (∀ p, Checked.runIn p (buildWithdrawalProofInput w max_headers client (hashDisplay txid) recipient_hash160 cp) =
        some (.ok input)) ∧
      Provable sha256d input cp txid tx ∧ input.custody_hash160 = recipient_hash160 := by
  obtain ⟨input, hrun, hprovable, hcustody⟩ := (h.forRecipient recipient_hash160).built
  exact ⟨input, hrun, ⟨hprovable.chain, hprovable.buried, hprovable.included, hprovable.txid, hprovable.tx⟩, hcustody⟩

end Served

variable (w max_headers sha256d)

/-- Against an honest endpoint the builder answers, in either build, with an input
the guest accepts, for a deposit and for a payout alike. -/
theorem honest_deposit_provable (chain : AuxChain) (N : ServedChain) (client : ProofClient) (cp : CheckpointParams)
    (dep : UInt64) {depth : Nat} (tree : PerfectTree Hash32 depth) (pos : Nat) (txid : Hash32) (tx : Bytes)
    (h : ServesDeposit w max_headers sha256d chain N client cp dep tree pos txid tx) :
    (∃ input, (∀ p, Checked.runIn p (buildProofInput w max_headers client (hashDisplay txid) cp) = some (.ok input)) ∧
      Provable sha256d input cp txid tx ∧ input.custody_hash160 = cp.custody_hash160) ∧
    ∀ recipient_hash160, ∃ input,
      (∀ p, Checked.runIn p (buildWithdrawalProofInput w max_headers client (hashDisplay txid) recipient_hash160 cp) =
        some (.ok input)) ∧
      Provable sha256d input cp txid tx ∧ input.custody_hash160 = recipient_hash160 :=
  ⟨h.built, h.builtWithdrawal⟩

end Sha

/-! ## A transaction next to the coinbase -/

def depositTxid : Hash32 := ByteArr.fill 32 0x44

/-- The transactions of the first block: the deposit is the second one. -/
def depositTree : PerfectTree Hash32 1 := .node (.leaf (ByteArr.fill 32 0x22)) (.leaf depositTxid)

/-- The served chain of two blocks, with the deposit in the first one. -/
def depositClient : ProofClient where
  toElectrsClient := sampleElectrs
  merkleProof _ := some ⟨1, [hashDisplay (ByteArr.fill 32 0x22)], 1⟩
  txBytes _ := some [1]

def depositParams : CheckpointParams where
  checkpoint_hash := ByteArr.fill 32 0
  checkpoint_height := 0
  checkpoint_chainwork := ByteArr.fill 32 0
  min_confirmations := 2
  custody_hash160 := ByteArr.fill 20 0
  custody_epoch := 0
  chain_id := 63

/-- Another transaction of that id is served alike. -/
theorem servesDeposit_sample (tx : Bytes) : ServesDeposit 64 100 sampleSha sampleChain sampleServed
    { depositClient with txBytes := fun _ => some tx } depositParams 1 depositTree 1 depositTxid tx where
  serves := serves_sample
  chain_id := rfl
  pow_limit := rfl
  descends := by decide +kernel
  above := by decide
  near := by decide
  buried := by decide
  tip_lt := by decide
  room := by decide
  depth_le := by decide
  leaf := rfl
  root := by decide +kernel
  reply := rfl
  tx := rfl

theorem honest_deposit_provable_sample :
    ∃ input, (∀ p, Checked.runIn p (buildProofInput 64 100 depositClient (hashDisplay depositTxid) depositParams) =
      some (.ok input)) ∧ Provable sampleSha input depositParams depositTxid [1] := by
  obtain ⟨⟨input, hrun, hprovable, -⟩, -⟩ := honest_deposit_provable 64 100 sampleSha sampleChain sampleServed depositClient
    depositParams 1 depositTree 1 depositTxid [1] (servesDeposit_sample [1])
  exact ⟨input, hrun, hprovable⟩

end PsobIndexer
