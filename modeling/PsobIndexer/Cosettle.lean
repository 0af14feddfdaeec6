import PsobIndexer.Siblings
import PsobIndexer.Proofs
import PsobIndexer.RateLimit
import PsobIndexer.Announced
/-!
# Co-settlement (`GET /api/v1/cosettle`)

Two blocks are co-settled if their witnesses sit under one Litecoin parent. The
answer also carries a token for the pair. What is proved: on a store that the
ingest loops filled, co-settled legs are committed by one coinbase, and the
token determines the two legs and the parent. Both are up to collisions of the
strings that were hashed.
-/
open Lib

namespace PsobIndexer

open Database

/-! ## Handler -/

structure CoSettleQuery where
  a_chain : UInt32
  a_height : Option UInt64
  b_chain : UInt32
  b_height : Option UInt64

structure CoSettleLeg where
  chain_id : UInt32
  height : UInt64
  block_hash : String
  parent_hash : String
  ltc_height : Option UInt64
  is_auxpow : Bool

structure CoSettleResponse where
  co_settled : Bool
  shared_ltc_parent : Option String
  ltc_height : Option UInt64
  epoch : Option String
  a : CoSettleLeg
  b : CoSettleLeg

/-- The height asked for, else the latest one. -/
def cosettleHeight (db : Database) (chain_id : UInt32) : Option UInt64 → Except ApiError UInt64
  | some h => .ok h
  | none =>
    match db.latestHeight chain_id with
    | some h => .ok h
    | none => .error (.notFound ("no blocks indexed for chain " ++ toString chain_id))

/-- The block at a height that must be stored. -/
def cosettleBlock (db : Database) (chain_id : UInt32) (height : UInt64) : Except ApiError StoredBlock × Database :=
  match db.blockAt chain_id height with
  | (some block, db) => (.ok block, db)
  | (none, db) =>
    (.error (.notFound ("block " ++ toString chain_id ++ "@" ++ toString height ++ " is not indexed")), db)

/-- What the token of a co-settled pair is the hash of. -/
def epochText (a_chain : UInt32) (a_height : UInt64) (b_chain : UInt32) (b_height : UInt64) (p : Hash32) : String :=
  toString a_chain ++ "/" ++ toString a_height ++ "/" ++ toString b_chain ++ "/" ++ toString b_height ++ "/" ++
    hashDisplay p ++ "/" ++ hashDisplay p

section Sha
variable (sha256d : Bytes → Hash32)

/-- One leg of the answer. -/
def cosettleLeg (db : Database) (chain_id : UInt32) (height : UInt64) (block : StoredBlock) (parent_le : Option Hash32) :
    CoSettleLeg × Database :=
  match block.header.aux, parent_le with
  | some _, some p =>
    let (info, db) := db.getParent p
    (⟨chain_id, height, hashDisplay block.hash_le, hashDisplay p, info.bind (·.ltc_height), true⟩, db)
  | _, _ => (⟨chain_id, height, hashDisplay block.hash_le, "", none, false⟩, db)

/-- The shared parent, its LTC height and the token, when both legs have one
parent. -/
def cosettleShared (db : Database) (q : CoSettleQuery) (a_height b_height : UInt64) (pa pb : Option Hash32) :
    (Bool × Option String × Option UInt64 × Option String) × Database :=
  match pa, pb with
  | some p, some p' =>
    if p = p' then
      let (info, db) := db.getParent p
      let token := sha256d (asBytes (epochText q.a_chain a_height q.b_chain b_height p))
      ((true, some (hashDisplay p), info.bind (·.ltc_height), some (hashDisplay token)), db)
    else ((false, none, none, none), db)
  | _, _ => ((false, none, none, none), db)

/-- `GET /api/v1/cosettle`. -/
def cosettleHandler (db : Database) (q : CoSettleQuery) : Except ApiError CoSettleResponse × Database :=
  match cosettleHeight db q.a_chain q.a_height with
  | .error e => (.error e, db)
  | .ok a_height =>
    match cosettleHeight db q.b_chain q.b_height with
    | .error e => (.error e, db)
    | .ok b_height =>
      match cosettleBlock db q.a_chain a_height with
      | (.error e, db) => (.error e, db)
      | (.ok ba, db) =>
        match cosettleBlock db q.b_chain b_height with
        | (.error e, db) => (.error e, db)
        | (.ok bb, db) =>
          let pa := ba.parentHash sha256d
          let pb := bb.parentHash sha256d
          let ((co_settled, shared_ltc_parent, ltc_height, epoch), db) := cosettleShared sha256d db q a_height b_height pa pb
          let (a, db) := cosettleLeg db q.a_chain a_height ba pa
          let (b, db) := cosettleLeg db q.b_chain b_height bb pb
          (.ok ⟨co_settled, shared_ltc_parent, ltc_height, epoch, a, b⟩, db)

variable {sha256d}

/-! ## One coinbase for both legs -/

/-- Two accepted witnesses whose parent headers have one hash have one coinbase
and one chain root, and on one chain they commit one block. -/
theorem commitments_agree {h₁ h₂ : Hash32} {aux₁ aux₂ : AuxPow} {c₁ c₂ : UInt32}
    (hparent : sha256d aux₁.parent_header = sha256d aux₂.parent_header)
    (hv₁ : verifyAuxpowCommitment sha256d h₁ aux₁ c₁ = true)
    (hv₂ : verifyAuxpowCommitment sha256d h₂ aux₂ c₂ = true)
    (hc : ¬ Collision sha256d
      (aux₁.parent_header :: aux₂.parent_header :: (hashedBy sha256d h₁ aux₁ ++ hashedBy sha256d h₂ aux₂)))
    (h64 : aux₁.coinbase_tx.length ≠ 64) (h64' : aux₂.coinbase_tx.length ≠ 64) :
    aux₁.coinbase_tx = aux₂.coinbase_tx ∧
      merkleFoldBranch sha256d h₁ aux₁.chain_merkle_branch aux₁.chain_index =
        merkleFoldBranch sha256d h₂ aux₂.chain_merkle_branch aux₂.chain_index ∧
      (c₁ = c₂ → h₁ = h₂) := by
  have hheader : aux₁.parent_header = aux₂.parent_header := eq_of_no_collision hc (by simp) (by simp) hparent
  obtain ⟨⟨hi₁, -, -, hr₁⟩, hd₁, tail, ht₁, hroot₁, hsize₁, hslot₁⟩ := (verifyAuxpowCommitment_iff sha256d _ _ _).1 hv₁
  obtain ⟨⟨hi₂, -, -, hr₂⟩, hd₂, tail', ht₂, hroot₂, hsize₂, hslot₂⟩ := (verifyAuxpowCommitment_iff sha256d _ _ _).1 hv₂
  have hmerkle : merkleFoldBranch sha256d (sha256d aux₁.coinbase_tx) aux₁.parent_merkle_branch 0 =
      merkleFoldBranch sha256d (sha256d aux₂.coinbase_tx) aux₂.parent_merkle_branch 0 := by
    rw [hi₁] at hr₁
    rw [hi₂] at hr₂
    simp only [AuxPow.parentMerkleRoot, hheader] at hr₁ hr₂
    exact Option.some.inj (hr₁.symm.trans hr₂)
  have hcb : aux₁.coinbase_tx = aux₂.coinbase_tx :=
    coinbase_unique sha256d hc (by simp [hashedBy]) (by simp [hashedBy])
      (fun x hx => by simp [hashedBy, hi₁, hx]) (fun x hx => by simp [hashedBy, hi₂, hx]) hmerkle h64 h64'
  obtain rfl : tail = tail' := ht₁.unique (hcb ▸ ht₂)
  have hdepth : aux₁.chain_merkle_branch.length = aux₂.chain_merkle_branch.length :=
    depth_unique hd₁ hd₂ (hsize₁.symm.trans hsize₂)
  have hfold := ByteArr.reverse_inj (Subtype.ext (hroot₁.symm.trans hroot₂))
  refine ⟨hcb, hfold, fun hchain => ?_⟩
  have hidx : aux₁.chain_index = aux₂.chain_index := by rw [hslot₁, hslot₂, hchain, hdepth]
  rw [hidx] at hfold
  exact (merkleFold_inj sha256d hc _ _ _ _ _ hdepth (fun x hx => by simp [hashedBy, hidx, hx])
    (fun x hx => by simp [hashedBy, hx]) hfold).1

/-! ## The parts of an answer -/

theorem cosettleShared_sameReads (db : Database) (q : CoSettleQuery) (a_height b_height : UInt64) (pa pb : Option Hash32) :
    SameReads db (cosettleShared sha256d db q a_height b_height pa pb).2 := by
  unfold cosettleShared
  split
  · split_ifs
    · exact getParent_sameReads db _
    · exact .refl db
  · exact .refl db

theorem SameReads.shared {db db' : Database} (h : SameReads db db') (q : CoSettleQuery) (a_height b_height : UInt64)
    (pa pb : Option Hash32) :
    (cosettleShared sha256d db' q a_height b_height pa pb).1 = (cosettleShared sha256d db q a_height b_height pa pb).1 := by
  unfold cosettleShared
  split
  · split_ifs
    · simp only [h.parent]
    · rfl
  · rfl

theorem cosettleLeg_sameReads (db : Database) (c : UInt32) (h : UInt64) (b : StoredBlock) (p : Option Hash32) :
    SameReads db (cosettleLeg db c h b p).2 := by
  unfold cosettleLeg
  split
  · exact getParent_sameReads db _
  · exact .refl db

theorem SameReads.leg {db db' : Database} (h : SameReads db db') (c : UInt32) (hh : UInt64) (b : StoredBlock)
    (p : Option Hash32) : (cosettleLeg db' c hh b p).1 = (cosettleLeg db c hh b p).1 := by
  unfold cosettleLeg
  split
  · simp only [h.parent]
  · rfl

theorem cosettleBlock_ok {db db' : Database} {c : UInt32} {h : UInt64} {b : StoredBlock}
    (hb : cosettleBlock db c h = (.ok b, db')) : (db.blockAt c h).1 = some b ∧ SameReads db db' := by
  unfold cosettleBlock at hb
  have hsame := blockAt_sameReads db c h
  split at hb
  · rename_i block db₁ hat
    cases hb
    rw [hat] at hsame ⊢
    exact ⟨rfl, hsame⟩
  · cases hb

/-- An answer, with everything looked up in the store as it was. -/
theorem cosettleHandler_ok {db : Database} {q : CoSettleQuery} {r : CoSettleResponse}
    (hr : (cosettleHandler sha256d db q).1 = .ok r) :
    ∃ a_height b_height ba bb,
      cosettleHeight db q.a_chain q.a_height = .ok a_height ∧ cosettleHeight db q.b_chain q.b_height = .ok b_height ∧
      (db.blockAt q.a_chain a_height).1 = some ba ∧ (db.blockAt q.b_chain b_height).1 = some bb ∧
      (r.co_settled, r.shared_ltc_parent, r.ltc_height, r.epoch) =
        (cosettleShared sha256d db q a_height b_height (ba.parentHash sha256d) (bb.parentHash sha256d)).1 ∧
      r.a = (cosettleLeg db q.a_chain a_height ba (ba.parentHash sha256d)).1 ∧
      r.b = (cosettleLeg db q.b_chain b_height bb (bb.parentHash sha256d)).1 := by
  unfold cosettleHandler at hr
  split at hr
  · cases hr
  · rename_i a_height ha
    split at hr
    · cases hr
    · rename_i b_height hb
      split at hr
      · cases hr
      · rename_i ba db₁ hba
        obtain ⟨hata, hsame₁⟩ := cosettleBlock_ok hba
        split at hr
        · cases hr
        · rename_i bb db₂ hbb
          obtain ⟨hatb, hsame₂⟩ := cosettleBlock_ok hbb
          rw [hsame₁.block] at hatb
          replace hsame₂ := hsame₁.trans hsame₂
          have hsame₃ := hsame₂.trans (@cosettleShared_sameReads sha256d db₂ q a_height b_height
            (ba.parentHash sha256d) (bb.parentHash sha256d))
          have hsame₄ := hsame₃.trans (cosettleLeg_sameReads _ q.a_chain a_height ba (ba.parentHash sha256d))
          cases hr
          exact ⟨a_height, b_height, ba, bb, ha, hb, hata, hatb, hsame₂.shared q a_height b_height _ _,
            hsame₃.leg _ _ _ _, hsame₄.leg _ _ _ _⟩

/-- A leg with a witness shows its parent as the store knows it. -/
theorem cosettleLeg_aux {db : Database} {c : UInt32} {h : UInt64} {b : StoredBlock} {aux : AuxPow}
    (haux : b.header.aux = some aux) :
    (cosettleLeg db c h b (b.parentHash sha256d)).1 =
      ⟨c, h, hashDisplay b.hash_le, hashDisplay (sha256d aux.parent_header),
        (db.getParent (sha256d aux.parent_header)).1.bind (·.ltc_height), true⟩ := by
  have hparent : b.parentHash sha256d = some (sha256d aux.parent_header) := by
    rw [StoredBlock.parentHash, haux, Option.map_some]
  unfold cosettleLeg
  rw [haux, hparent]

/-! ## Co-settled legs -/

variable {w : Nat} (w sha256d)

/-- On a store that ticks and restarts filled, both legs of an answer carry
witnesses that the guest accepts. They are co-settled exactly when their parent
headers have one hash; both legs then show that parent and its LTC height, one
coinbase commits both blocks, and two legs on one chain are one block. -/
theorem cosettled_legs_agree (config : Config) (db₀ : Database) (ops : List IngestOp) (q : CoSettleQuery)
    (r : CoSettleResponse) (hopen : openDb sha256d Redb.empty = .ok db₀) (hops : ∀ op ∈ ops, op.Configured config)
    (hr : (cosettleHandler sha256d (runIngest w sha256d config db₀ ops) q).1 = .ok r) :
    let db := runIngest w sha256d config db₀ ops
    ∃ ba bb aux₁ aux₂,
      cosettleHeight db q.a_chain q.a_height = .ok r.a.height ∧ cosettleHeight db q.b_chain q.b_height = .ok r.b.height ∧
      (db.blockAt q.a_chain r.a.height).1 = some ba ∧ (db.blockAt q.b_chain r.b.height).1 = some bb ∧
      ba.header.aux = some aux₁ ∧ bb.header.aux = some aux₂ ∧
      r.a.block_hash = hashDisplay ba.hash_le ∧ r.b.block_hash = hashDisplay bb.hash_le ∧
      verifyAuxpowCommitment sha256d ba.hash_le aux₁ q.a_chain = true ∧
      verifyAuxpowCommitment sha256d bb.hash_le aux₂ q.b_chain = true ∧
      (r.co_settled = true ↔ sha256d aux₁.parent_header = sha256d aux₂.parent_header) ∧
      (r.co_settled = true →
        r.shared_ltc_parent = some r.a.parent_hash ∧ r.shared_ltc_parent = some r.b.parent_hash ∧
        r.a.ltc_height = r.ltc_height ∧ r.b.ltc_height = r.ltc_height ∧
        (¬ Collision sha256d (aux₁.parent_header :: aux₂.parent_header ::
            (hashedBy sha256d ba.hash_le aux₁ ++ hashedBy sha256d bb.hash_le aux₂)) →
          aux₁.coinbase_tx.length ≠ 64 → aux₂.coinbase_tx.length ≠ 64 →
          aux₁.coinbase_tx = aux₂.coinbase_tx ∧
          merkleFoldBranch sha256d ba.hash_le aux₁.chain_merkle_branch aux₁.chain_index =
            merkleFoldBranch sha256d bb.hash_le aux₂.chain_merkle_branch aux₂.chain_index ∧
          (q.a_chain = q.b_chain → ba.hash_le = bb.hash_le))) := by
  intro db
  have hrows : RowsVerified w sha256d config db := rowsVerified_run hopen hops
  -- a stored block carries a witness that the guest accepts
  have hcommit : ∀ {c h b}, (db.blockAt c h).1 = some b → ∃ aux, b.header.aux = some aux ∧
      verifyAuxpowCommitment sha256d b.hash_le aux c = true := by
    intro c h b hb
    obtain ⟨hk, chain, -, hver⟩ := hrows _ b (holds_of_blockAt hb)
    obtain ⟨hhash, -, -, -, -, -, aux, haux, hv, -⟩ := hver.headerValid
    have hid : c = chain.chain_id := (congrArg BlockKey.chain_id hk).trans hver.1
    refine ⟨aux, haux, ?_⟩
    rw [hhash, hid]
    exact hv
  obtain ⟨a_height, b_height, ba, bb, hha, hhb, hba, hbb, hshared, hlega, hlegb⟩ := cosettleHandler_ok hr
  obtain ⟨aux₁, haux₁, hv₁⟩ := hcommit hba
  obtain ⟨aux₂, haux₂, hv₂⟩ := hcommit hbb
  rw [cosettleLeg_aux haux₁] at hlega
  rw [cosettleLeg_aux haux₂] at hlegb
  simp only [StoredBlock.parentHash, haux₁, haux₂, Option.map_some, cosettleShared] at hshared
  have hheights : r.a.height = a_height ∧ r.b.height = b_height := by rw [hlega, hlegb]; exact ⟨rfl, rfl⟩
  rw [hheights.1, hheights.2]
  refine ⟨ba, bb, aux₁, aux₂, hha, hhb, hba, hbb, haux₁, haux₂, by rw [hlega], by rw [hlegb], hv₁, hv₂, ?_⟩
  by_cases hp : sha256d aux₁.parent_header = sha256d aux₂.parent_header
  · rw [if_pos hp] at hshared
    obtain ⟨hco, hparent, hltc, -⟩ : r.co_settled = true ∧
        r.shared_ltc_parent = some (hashDisplay (sha256d aux₁.parent_header)) ∧
        r.ltc_height = (db.getParent (sha256d aux₁.parent_header)).1.bind (·.ltc_height) ∧ _ := by
      simpa only [Prod.mk.injEq] using hshared
    refine ⟨⟨fun _ => hp, fun _ => hco⟩, fun _ => ⟨?_, ?_, ?_, ?_, ?_⟩⟩
    · rw [hparent, hlega]
    · rw [hparent, hlegb, hp]
    · rw [hltc, hlega]
    · rw [hltc, hlegb, hp]
    · exact commitments_agree hp hv₁ hv₂
  · rw [if_neg hp] at hshared
    have hco : r.co_settled = false := congrArg Prod.fst hshared
    simp [hco, hp]

/-! ## The token -/

theorem length_hexChars (b : Bytes) : (hexChars b).length = 2 * b.length := by
  induction b with
  | nil => rfl
  | cons x xs ih =>
    rw [hexChars, List.length_cons, List.length_cons, ih, List.length_cons]
    omega

/-- Numbers end at a slash, and display hashes have one length. -/
theorem epochText_inj {c₁ c₂ d₁ d₂ : UInt32} {g₁ g₂ h₁ h₂ : UInt64} {p₁ p₂ : Hash32}
    (h : epochText c₁ g₁ d₁ h₁ p₁ = epochText c₂ g₂ d₂ h₂ p₂) : c₁ = c₂ ∧ g₁ = g₂ ∧ d₁ = d₂ ∧ h₁ = h₂ ∧ p₁ = p₂ := by
  have hu32 : ∀ x : UInt32, toString x = toString x.toNat := fun _ => rfl
  have hu64 : ∀ x : UInt64, toString x = toString x.toNat := fun _ => rfl
  have hslash : "/".toList = ['/'] := rfl
  have hl := congrArg String.toList h
  unfold epochText at hl
  simp only [String.toList_append, List.append_assoc, hu32, hu64, hslash, List.singleton_append] at hl
  obtain ⟨hc, hl⟩ := digits_cancel (by decide) (by decide) hl
  obtain ⟨hg, hl⟩ := digits_cancel (by decide) (by decide) (List.cons.inj hl).2
  obtain ⟨hd, hl⟩ := digits_cancel (by decide) (by decide) (List.cons.inj hl).2
  obtain ⟨hh, hl⟩ := digits_cancel (by decide) (by decide) (List.cons.inj hl).2
  have hlen : ∀ p : Hash32, (hashDisplay p).toList.length = 64 := by
    intro p
    rw [hashDisplay, hexEncode, String.toList_ofList, length_hexChars, p.reverse.property]
  obtain ⟨hp, -⟩ := List.append_inj (List.cons.inj hl).2 (by rw [hlen, hlen])
  exact ⟨UInt32.toNat_inj.1 hc, UInt64.toNat_inj.1 hg, UInt32.toNat_inj.1 hd, UInt64.toNat_inj.1 hh,
    hashDisplay_inj.1 (String.toList_injective hp)⟩

variable {sha256d}

theorem cosettleLeg_height (db : Database) (c : UInt32) (h : UInt64) (b : StoredBlock) (p : Option Hash32) :
    (cosettleLeg db c h b p).1.height = h := by
  unfold cosettleLeg
  split <;> rfl

/-- A token comes with a shared parent and is the hash of the pair's text. -/
theorem cosettleHandler_epoch {db : Database} {q : CoSettleQuery} {r : CoSettleResponse} {token : String}
    (hr : (cosettleHandler sha256d db q).1 = .ok r) (ht : r.epoch = some token) :
    ∃ p, r.shared_ltc_parent = some (hashDisplay p) ∧
      token = hashDisplay (sha256d (asBytes (epochText q.a_chain r.a.height q.b_chain r.b.height p))) := by
  obtain ⟨a_height, b_height, ba, bb, -, -, -, -, hshared, hlega, hlegb⟩ := cosettleHandler_ok hr
  have ha : r.a.height = a_height := by rw [hlega, cosettleLeg_height]
  have hb : r.b.height = b_height := by rw [hlegb, cosettleLeg_height]
  unfold cosettleShared at hshared
  split at hshared
  · rename_i p p' hpa hpb
    split_ifs at hshared with hp
    · simp only [Prod.mk.injEq] at hshared
      obtain ⟨-, hparent, -, hepoch⟩ := hshared
      rw [ht, Option.some.injEq] at hepoch
      exact ⟨p, hparent, by rw [ha, hb, hepoch]⟩
    · simp [ht] at hshared
  · simp [ht] at hshared

variable (sha256d)

/-- Two answers, of any two stores, that carry one token are about the same two
legs under the same parent, unless the texts behind the token collide. -/
theorem epoch_token_binds (db₁ db₂ : Database) (q₁ q₂ : CoSettleQuery) (r₁ r₂ : CoSettleResponse) (token : String)
    (h₁ : (cosettleHandler sha256d db₁ q₁).1 = .ok r₁) (h₂ : (cosettleHandler sha256d db₂ q₂).1 = .ok r₂)
    (ht₁ : r₁.epoch = some token) (ht₂ : r₂.epoch = some token) :
    (q₁.a_chain = q₂.a_chain ∧ r₁.a.height = r₂.a.height ∧ q₁.b_chain = q₂.b_chain ∧ r₁.b.height = r₂.b.height ∧
      r₁.shared_ltc_parent = r₂.shared_ltc_parent) ∨
    ∃ p₁ p₂, r₁.shared_ltc_parent = some (hashDisplay p₁) ∧ r₂.shared_ltc_parent = some (hashDisplay p₂) ∧
      Collision sha256d [asBytes (epochText q₁.a_chain r₁.a.height q₁.b_chain r₁.b.height p₁),
        asBytes (epochText q₂.a_chain r₂.a.height q₂.b_chain r₂.b.height p₂)] := by
  obtain ⟨p₁, hp₁, htoken₁⟩ := cosettleHandler_epoch h₁ ht₁
  obtain ⟨p₂, hp₂, htoken₂⟩ := cosettleHandler_epoch h₂ ht₂
  have hhash := hashDisplay_inj.1 (htoken₁.symm.trans htoken₂)
  by_cases htext : asBytes (epochText q₁.a_chain r₁.a.height q₁.b_chain r₁.b.height p₁) =
      asBytes (epochText q₂.a_chain r₂.a.height q₂.b_chain r₂.b.height p₂)
  · obtain ⟨hca, hha, hcb, hhb, hp⟩ := epochText_inj (asBytes_inj.1 htext)
    exact .inl ⟨hca, hha, hcb, hhb, by rw [hp₁, hp₂, hp]⟩
  · exact .inr ⟨p₁, p₂, hp₁, hp₂, _, List.mem_cons_self, _, List.mem_cons_of_mem _ List.mem_cons_self, htext, hhash⟩

end Sha

/-! ## Two chains under one parent, co-settled -/

/-- One tick of each chain. -/
def legsOps : List IngestOp := [.tick (legChain 63) legTick₆₃, .tick (legChain 50) legTick₅₀]

def legsStore : Database := runIngest 64 legsSha legsConfig freshDb legsOps

theorem legsOps_configured : ∀ op ∈ legsOps, op.Configured legsConfig := by
  intro op hop
  rcases List.mem_cons.1 hop with rfl | hop
  · exact List.mem_cons_self
  · rw [List.mem_singleton.1 hop]
    exact List.mem_cons_of_mem _ List.mem_cons_self

/-- The latest blocks of the two chains. -/
def legsQuery : CoSettleQuery := ⟨63, none, 50, some 1⟩

theorem legsStore_cosettled :
    ((cosettleHandler legsSha legsStore legsQuery).1.toOption.map (fun r => (r.co_settled, r.epoch.isSome))) =
      some (true, true) := by
  decide +kernel

theorem exists_legsAnswer : ∃ r token, (cosettleHandler legsSha legsStore legsQuery).1 = .ok r ∧ r.co_settled = true ∧
    r.epoch = some token := by
  have h := legsStore_cosettled
  cases hr : (cosettleHandler legsSha legsStore legsQuery).1 with
  | error e =>
    rw [hr] at h
    cases h
  | ok r =>
    rw [hr] at h
    obtain ⟨hco, htoken⟩ := Prod.mk.inj (Option.some.inj h)
    obtain ⟨token, htoken⟩ := Option.isSome_iff_exists.1 htoken
    exact ⟨r, token, rfl, hco, htoken⟩

theorem cosettled_legs_agree_legs : ∃ r ba bb aux₁ aux₂, (cosettleHandler legsSha legsStore legsQuery).1 = .ok r ∧
    r.co_settled = true ∧ r.shared_ltc_parent = some r.a.parent_hash ∧ r.shared_ltc_parent = some r.b.parent_hash ∧
    verifyAuxpowCommitment legsSha (StoredBlock.hash_le ba) aux₁ 63 = true ∧
    verifyAuxpowCommitment legsSha (StoredBlock.hash_le bb) aux₂ 50 = true ∧
    legsSha aux₁.parent_header = legsSha aux₂.parent_header := by
  obtain ⟨r, -, hr, hco, -⟩ := exists_legsAnswer
  obtain ⟨ba, bb, aux₁, aux₂, -, -, -, -, -, -, -, -, hv₁, hv₂, hiff, hlegs⟩ :=
    cosettled_legs_agree legsSha 64 legsConfig freshDb legsOps legsQuery r rfl legsOps_configured hr
  exact ⟨r, ba, bb, aux₁, aux₂, hr, hco, (hlegs hco).1, (hlegs hco).2.1, hv₁, hv₂, hiff.1 hco⟩

/-- The latest heights and the heights they stand for give one token. -/
theorem epoch_token_binds_legs : ∃ r₁ r₂ token, (cosettleHandler legsSha legsStore legsQuery).1 = .ok r₁ ∧
    (cosettleHandler legsSha legsStore ⟨63, some 1, 50, none⟩).1 = .ok r₂ ∧
    r₁.epoch = some token ∧ r₂.epoch = some token ∧
    ((r₁.a.height = r₂.a.height ∧ r₁.b.height = r₂.b.height) ∨ ∃ p₁ p₂,
      r₁.shared_ltc_parent = some (hashDisplay p₁) ∧ r₂.shared_ltc_parent = some (hashDisplay p₂) ∧ Collision legsSha
        [asBytes (epochText 63 r₁.a.height 50 r₁.b.height p₁), asBytes (epochText 63 r₂.a.height 50 r₂.b.height p₂)]) := by
  obtain ⟨r₁, token, hr₁, -, ht₁⟩ := exists_legsAnswer
  have hsame : (cosettleHandler legsSha legsStore ⟨63, some 1, 50, none⟩).1.toOption.map (·.epoch) =
      (cosettleHandler legsSha legsStore legsQuery).1.toOption.map (·.epoch) := by decide +kernel
  rw [hr₁] at hsame
  cases hr₂ : (cosettleHandler legsSha legsStore ⟨63, some 1, 50, none⟩).1 with
  | error e =>
    rw [hr₂] at hsame
    cases hsame
  | ok r₂ =>
    rw [hr₂] at hsame
    have ht₂ : r₂.epoch = some token := (Option.some.inj hsame).trans ht₁
    refine ⟨r₁, r₂, token, hr₁, rfl, ht₁, ht₂, ?_⟩
    rcases epoch_token_binds legsSha legsStore legsStore legsQuery ⟨63, some 1, 50, none⟩ r₁ r₂ token hr₁ hr₂ ht₁ ht₂ with
      ⟨-, ha, -, hb, -⟩ | ⟨p₁, p₂, hp₁, hp₂, hcol⟩
    · exact .inl ⟨ha, hb⟩
    · exact .inr ⟨p₁, p₂, hp₁, hp₂, hcol⟩

end PsobIndexer
