import PsobIndexer.Chain
import PsobIndexer.Tracking
/-!
# What is stored is a guest witness

The ingestor's gate (`lightVerify` and linkage) accepts no more than the guest's
(`verifyPsobChain`): a verified block satisfies `HeaderValid`, and the blocks of
a track link up.
-/
open Lib

namespace PsobIndexer

section Sha
variable {w : Nat} {sha256d : Bytes → Hash32}

theorem Verified.headerValid {chain : AuxChain} {b : StoredBlock} (h : Verified w sha256d chain b) :
    b.hash_le = sha256d b.header.raw ∧ ∃ limit, expandTarget chain.pow_limit_bits = some limit ∧
      HeaderValid sha256d limit chain.chain_id b.header := by
  obtain ⟨-, wire, base, aux, -, hparse, hheader, hhash, hlight⟩ := h
  obtain ⟨-, hformat, hproof1, hproof2⟩ := (lightVerify_iff sha256d _ _ _ _ _).1 hlight
  obtain ⟨hlen, hid, target, limit, htarget, hlimit, hle⟩ := hformat
  rw [hheader]
  refine ⟨hhash, limit, hlimit, hlen, hid, ⟨target, htarget, hle⟩, aux, rfl, ?_, (parseAuxpow_ok hparse).2⟩
  exact (verifyAuxpowCommitment_iff sha256d _ _ _).2 ⟨hproof1, hproof2⟩

/-- Valid headers that link up pass the guest's loop. -/
theorem verifyPsobHeaders_of_chain {limit : Hash32} {c : UInt32} {blocks : List StoredBlock} {prev : Hash32}
    (hlinked : blocks.IsChain Builds)
    (hvalid : ∀ b ∈ blocks, b.hash_le = sha256d b.header.raw ∧ HeaderValid sha256d limit c b.header)
    (hprev : ∀ b ∈ blocks.head?, b.header.prevHash = prev) :
    verifyPsobHeaders sha256d limit c prev (blocks.map (·.header)) = .ok () := by
  induction blocks generalizing prev with
  | nil => rfl
  | cons b blocks ih =>
    obtain ⟨hb, hblocks⟩ := List.forall_mem_cons.1 hvalid
    rw [List.map_cons, verifyPsobHeaders_cons]
    refine ⟨hprev b rfl, hb.2, ih hlinked.tail hblocks fun b' hb' => ?_⟩
    have hlink : Builds b b' := hlinked.rel_head? hb'
    rw [← hb.1]
    exact hlink

/-- Stored blocks at consecutive heights link up. -/
theorem Tracks.isChain {config : Config} {L : Ledger} {chain : AuxChain} {t : BlockTrack} (h : Tracks config L chain t)
    {first last : UInt64} {blocks : List StoredBlock}
    (hblocks : (rangeInclusive first last).map (fun hh => L.blocks.get? ⟨chain.chain_id, hh⟩) = blocks.map some) :
    blocks.IsChain Builds := by
  have hitem : ∀ i (hi : i < blocks.length), t.item (first.toNat + i) = some blocks[i] := by
    intro i hi
    have hget := congrArg (fun l => l[i]?) hblocks
    simp only [List.getElem?_map, List.getElem?_eq_getElem hi, Option.map_some, Option.map_eq_some_iff] at hget
    obtain ⟨hh, hrange, hget⟩ := hget
    rw [← hget, h.blocks, getElem?_rangeInclusive hrange]
  rw [List.isChain_iff_getElem]
  intro i hi
  exact Track.link_item (hitem i (by omega)) (hitem (i + 1) hi)

variable (w sha256d)

/-- What a run of ticks and restarts keeps. -/
theorem ingest_invariant (config : Config) (db₀ : Database) (ops : List IngestOp)
    (hopen : openDb sha256d Redb.empty = .ok db₀) (hops : ∀ op ∈ ops, op.Committed config) :
    Tracked config (runIngest w sha256d config db₀ ops) ∧
      RowsVerified w sha256d config (runIngest w sha256d config db₀ ops) := by
  have halong : Along (IngestOp.run w sha256d config) (fun _ op => op.Committed config) db₀ ops :=
    along_of_forall hops
  refine Along.invariant (I := fun db => Tracked config db ∧ RowsVerified w sha256d config db)
    (fun db op hi hop => ⟨hi.1.step hop, hi.2.step ?_⟩) halong
    ⟨tracked_fresh hopen, rowsVerified_fresh hopen⟩
  cases op with
  | tick chain t => exact hop.1
  | restart => trivial

/-- Every non-empty range of consecutive heights that a run of ticks and
restarts leaves stored passes the guest's chain check, and every row is what its
payload parses to. -/
theorem ingest_stores_guest_witness (config : Config) (db₀ : Database) (ops : List IngestOp)
    (hopen : openDb sha256d Redb.empty = .ok db₀) (hops : ∀ op ∈ ops, op.Committed config) :
    let db := runIngest w sha256d config db₀ ops
    (∀ chain ∈ config.chains, ∀ (a b : UInt64) (blocks : List StoredBlock) (first : StoredBlock),
      (rangeInclusive a b).map (fun h => db.redb.aux_blocks.get? ⟨chain.chain_id, h⟩) = blocks.map some →
      blocks.head? = some first →
      verifyPsobChain sha256d (blocks.map (·.header)) first.header.prevHash chain.chain_id chain.pow_limit_bits =
        .ok ()) ∧
    ∀ k b, db.redb.aux_blocks.get? k = some b →
      (∃ chain ∈ config.chains, chain.chain_id = k.chain_id) ∧ b.hash_le = sha256d b.header.raw ∧
      ∃ wire base aux, hexDecode b.wire_hex = some wire ∧ parseAuxpow w wire = .ok (base, aux) ∧
        b.header = ⟨base.val, some aux⟩ := by
  intro db
  obtain ⟨htracked, hrows⟩ := ingest_invariant w sha256d config db₀ ops hopen hops
  constructor
  · intro chain hchain a last blocks first hblocks hfirst
    obtain ⟨t, ht⟩ := htracked.tracks chain hchain
    -- the rows at the heights of this chain are verified for this chain
    have hver : ∀ b ∈ blocks, Verified w sha256d chain b := by
      intro b hb
      have hmem : some b ∈ (rangeInclusive a last).map (fun h => db.redb.aux_blocks.get? ⟨chain.chain_id, h⟩) := by
        rw [hblocks]
        exact List.mem_map_of_mem hb
      obtain ⟨hh, -, hget⟩ := List.mem_map.1 hmem
      obtain ⟨hk, chain', hchain', hver⟩ := hrows _ b (.inr hget)
      have hid : chain'.chain_id = chain.chain_id := hver.1.symm.trans (congrArg BlockKey.chain_id hk).symm
      rwa [← Config.eq_of_chain_id hchain' hchain hid]
    obtain ⟨-, limit, hlimit, -⟩ := (hver first (List.mem_of_mem_head? hfirst)).headerValid
    rw [verifyPsobChain_iff]
    refine ⟨?_, limit, hlimit, verifyPsobHeaders_of_chain (ht.isChain hblocks) ?_ ?_⟩
    · intro hnil
      rw [List.map_eq_nil_iff.1 hnil] at hfirst
      cases hfirst
    · intro b hb
      obtain ⟨hhash, limit', hlimit', hvalid⟩ := (hver b hb).headerValid
      rw [hlimit] at hlimit'
      cases hlimit'
      exact ⟨hhash, hvalid⟩
    · intro b hb
      rw [hfirst] at hb
      cases hb
      rfl
  · intro k b hb
    obtain ⟨hk, chain, hchain, hver⟩ := hrows k b (.inr hb)
    have hhash := hver.headerValid.1
    obtain ⟨hid, wire, base, aux, hwire, hparse, hheader, -, -⟩ := hver
    refine ⟨⟨chain, hchain, by rw [hk, hid]⟩, hhash, wire, base, aux, ?_, hparse, hheader⟩
    rw [hwire, hexDecode_hexEncode]

end Sha

/-! ## Two blocks from an endpoint -/

def sampleChain : AuxChain := ⟨63, "chain63", "https://junk-api.s3na.xyz", CHAIN_POW_LIMIT_BITS, some 0⟩

theorem sampleChain_nodup : ([sampleChain].map (·.chain_id)).Nodup := List.nodup_singleton _

theorem sampleBatch_pos : (1 : UInt64) ≤ 64 := by decide

def sampleConfig : Config := ⟨[sampleChain], 64, none, none, sampleChain_nodup, sampleBatch_pos⟩

def sampleBase₁ : ByteArr 80 := ⟨sampleRaw (ByteArr.fill 32 0), by decide⟩

def sampleBase₂ : ByteArr 80 := ⟨sampleRaw sampleId₁, by decide⟩

theorem parse_sample₁ : parseAuxpow 64 (sampleWire (ByteArr.fill 32 0) sampleId₁ sampleTxid₁) =
    .ok (sampleBase₁, sampleAux sampleId₁ sampleTxid₁) := by
  decide +kernel

theorem parse_sample₂ : parseAuxpow 64 (sampleWire sampleId₁ sampleId₂ sampleTxid₂) =
    .ok (sampleBase₂, sampleAux sampleId₂ sampleTxid₂) := by
  decide +kernel

theorem passes_sample₁ (h : UInt64) : Passes 64 sampleSha sampleChain
    (h, hashDisplay sampleId₁, sampleWire (ByteArr.fill 32 0) sampleId₁ sampleTxid₁) sampleBase₁
    (sampleAux sampleId₁ sampleTxid₁) := by
  have hid : sampleSha sampleBase₁.val = sampleId₁ := by decide +kernel
  refine ⟨by simp [hid, eqIgnoreAsciiCase], parse_sample₁, ?_⟩
  rw [lightVerify_iff, ← verifyAuxHeader_valid_iff]
  exact ⟨rfl, by decide +kernel⟩

theorem passes_sample₂ (h : UInt64) : Passes 64 sampleSha sampleChain
    (h, hashDisplay sampleId₂, sampleWire sampleId₁ sampleId₂ sampleTxid₂) sampleBase₂
    (sampleAux sampleId₂ sampleTxid₂) := by
  have hid : sampleSha sampleBase₂.val = sampleId₂ := by decide +kernel
  refine ⟨by simp [hid, eqIgnoreAsciiCase], parse_sample₂, ?_⟩
  rw [lightVerify_iff, ← verifyAuxHeader_valid_iff]
  exact ⟨rfl, by decide +kernel⟩

/-- An endpoint that serves the two sample blocks of chain 63. -/
def sampleElectrs : ElectrsClient where
  tipHeight := some 2
  blockHashAt h := some (hashDisplay (if h = 1 then sampleId₁ else sampleId₂))
  headerBytes h _ := some (if h = 1 then sampleWire (ByteArr.fill 32 0) sampleId₁ sampleTxid₁
    else sampleWire sampleId₁ sampleId₂ sampleTxid₂)

/-- A tick against an endpoint, with no explorer to ask. -/
def sampleTick (electrs : ElectrsClient) : Tick := ⟨electrs, sampleResolver, fun _ _ _ => .transport, fun l => l, .all⟩

/-- The store after one tick of chain 63 and a restart. -/
def sampleStore : Database :=
  runIngest 64 sampleSha sampleConfig freshDb [.tick sampleChain (sampleTick sampleElectrs), .restart]

theorem sampleStore_state :
    sampleStore.ledger.cursorFrom sampleConfig sampleChain = some 2 ∧
      (rangeInclusive 1 2).map (fun h => (sampleStore.redb.aux_blocks.get? ⟨63, h⟩).map
        (fun b => (b.hash_le, b.header.prevHash))) = [some (sampleId₁, ByteArr.fill 32 0), some (sampleId₂, sampleId₁)] := by
  decide +kernel

/-- Both blocks are stored, and their headers pass the guest's check. -/
theorem ingest_stores_guest_witness_samples :
    ∃ blocks : List StoredBlock, blocks.map (·.hash_le) = [sampleId₁, sampleId₂] ∧
      verifyPsobChain sampleSha (blocks.map (·.header)) (ByteArr.fill 32 0) 63 CHAIN_POW_LIMIT_BITS = .ok () := by
  have hstored := sampleStore_state.2
  have hrange : rangeInclusive 1 2 = [1, 2] := by decide
  rw [hrange, List.map_cons, List.map_cons, List.map_nil] at hstored
  obtain ⟨h₁, h₂⟩ := List.cons.inj hstored
  obtain ⟨b₁, hb₁, he₁⟩ := Option.map_eq_some_iff.1 h₁
  obtain ⟨b₂, hb₂, he₂⟩ := Option.map_eq_some_iff.1 (List.cons.inj h₂).1
  obtain ⟨hhash₁, hprev₁⟩ := Prod.mk.inj he₁
  have hops : ∀ op ∈ [IngestOp.tick sampleChain (sampleTick sampleElectrs), .restart], op.Committed sampleConfig := by
    intro op hop
    rcases List.mem_cons.1 hop with rfl | hop
    · exact ⟨List.mem_cons_self, rfl⟩
    · rw [List.mem_singleton.1 hop]
      trivial
  have hguest := (ingest_stores_guest_witness 64 sampleSha sampleConfig freshDb _ rfl hops).1 sampleChain
    List.mem_cons_self 1 2 [b₁, b₂] b₁
  have hstore : runIngest 64 sampleSha sampleConfig freshDb [.tick sampleChain (sampleTick sampleElectrs), .restart] =
      sampleStore := rfl
  have hid : sampleChain.chain_id = 63 := rfl
  rw [hstore, hrange, hid, List.map_cons, List.map_cons, List.map_nil, hb₁, hb₂, hprev₁] at hguest
  exact ⟨[b₁, b₂], by simp [hhash₁, (Prod.mk.inj he₂).1], hguest rfl rfl⟩

end PsobIndexer
