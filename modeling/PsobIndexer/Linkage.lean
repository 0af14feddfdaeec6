import PsobIndexer.Reorg
/-!
# What a broken link removes

The walk stops at a header that does not build on the block below. If that block
is the stored one, the tick removes it and nothing else. If it is a block of the
same window, the rollback comes before the block is stored, and the block stays.
-/
open Lib

namespace PsobIndexer

open Database

section Sha
variable (w : Nat) (sha256d : Bytes → Hash32)

/-- The linkage gate fires at height `h`: the walk accepts everything below it,
and the header for `h` passes the gates before but does not name the hash
recorded for the block below. -/
def BreaksLink (chain : AuxChain) (prev_hash : Option Hash32) (fetched : List Fetched) (h : UInt64) : Prop :=
  ∃ before f after, fetched = before ++ f :: after ∧ f.1 = h ∧
    (walk w sha256d chain prev_hash before).1.length = before.length ∧
    ∃ base aux p, Passes w sha256d chain f base aux ∧ (base.val.drop 4).take 32 ≠ p.val ∧
      (((walk w sha256d chain prev_hash before).1.getLast?.map (·.hash_le)).or prev_hash) = some p

variable {w sha256d}

theorem walk_stops {chain : AuxChain} {prev_hash : Option Hash32} {before after : List Fetched} {f : Fetched}
    (hall : (walk w sha256d chain prev_hash before).1.length = before.length) {base : ByteArr 80} {aux : AuxPow} {p : Hash32}
    (hpass : Passes w sha256d chain f base aux) (hne : (base.val.drop 4).take 32 ≠ p.val)
    (hp : ((walk w sha256d chain prev_hash before).1.getLast?.map (·.hash_le)).or prev_hash = some p) :
    walk w sha256d chain prev_hash (before ++ f :: after) =
      ((walk w sha256d chain prev_hash before).1, some (saturatingSub f.1 1)) := by
  induction before generalizing prev_hash with
  | nil =>
    obtain rfl : prev_hash = some p := hp
    have hjudge : judge w sha256d chain (some p) f = .stale := by
      rw [judge_of_passes hpass, if_pos]
      simpa using hne
    rw [List.nil_append]
    unfold walk
    rw [hjudge]
  | cons g before ih =>
    rw [List.cons_append, walk, walk]
    rw [walk] at hall hp
    cases hj : judge w sha256d chain prev_hash g with
    | halt => simp [hj] at hall
    | stale => simp [hj] at hall
    | accept b =>
      simp only [hj, List.length_cons, Nat.add_right_cancel_iff] at hall hp ⊢
      rw [ih hall]
      rw [← hp]
      rw [List.getLast?_cons]
      cases (walk w sha256d chain (some b.hash_le) before).1.getLast? <;> rfl

theorem walk_stale_head {chain : AuxChain} {prev_hash : Option Hash32} {fetched : List Fetched}
    (hnil : (walk w sha256d chain prev_hash fetched).1 = []) (hstop : (walk w sha256d chain prev_hash fetched).2 ≠ none) :
    ∃ f base aux p, fetched[0]? = some f ∧ Passes w sha256d chain f base aux ∧ prev_hash = some p ∧
      (base.val.drop 4).take 32 ≠ p.val := by
  cases fetched with
  | nil => exact absurd rfl hstop
  | cons f fetched =>
    rw [walk] at hnil hstop
    cases hj : judge w sha256d chain prev_hash f with
    | halt => simp [hj] at hstop
    | stale =>
      obtain ⟨base, aux, p, hpass, hp, hne⟩ := judge_stale hj
      exact ⟨f, base, aux, p, rfl, hpass, hp, hne⟩
    | accept b => simp [hj] at hnil

/-! ## The block below -/

theorem Tick.Fetches.height_at {config : Config} {t : Tick} {cursor : Option UInt64} {cur : UInt64} {fetched : List Fetched}
    (hf : t.Fetches config cursor cur fetched) {i : Nat} {f : Fetched} (hi : fetched[i]? = some f) :
    f.1.toNat = cur.toNat + 1 + i := by
  obtain ⟨-, tip, -, -, hwin, hfetch⟩ := hf
  have hmap : (fetched.map (·.1))[i]? = some f.1 := by
    rw [List.getElem?_map, hi, Option.map_some]
  rw [fetchWindow_heights hfetch] at hmap
  rw [getElem?_rangeInclusive hmap, windowEnd_room hwin]

variable (w sha256d)

/-- A tick in which the linkage gate fires at `h` leaves no block at `h - 1` or
above, and a cursor below it, exactly if `h` is the first height of its window. -/
theorem broken_link_removed_iff (config : Config) (db₀ : Database) (ops : List IngestOp)
    (hopen : openDb sha256d Redb.empty = .ok db₀) (hops : ∀ op ∈ ops, op.Committed config)
    (chain : AuxChain) (hchain : chain ∈ config.chains) (t : Tick) (ht : t.commits = .all)
    (cur : UInt64) (fetched : List Fetched) (h : UInt64) :
    let db := runIngest w sha256d config db₀ ops
    let db' := (ingestChain w sha256d config chain t db).2
    t.Fetches config (db.ledger.cursorFrom config chain) cur fetched →
    BreaksLink w sha256d chain (db.ledger.prevHash chain.chain_id cur) fetched h →
    (((∀ h' b, h.toNat - 1 ≤ h'.toNat → db'.redb.aux_blocks.get? ⟨chain.chain_id, h'⟩ ≠ some b) ∧
        ∃ cursor, db'.ledger.cursorFrom config chain = some cursor ∧ cursor.toNat ≤ h.toNat - 2) ↔
      h.toNat = cur.toNat + 1) := by
  intro db db' hf hbreaks
  obtain ⟨htracked, -⟩ := ingest_invariant w sha256d config db₀ ops hopen hops
  obtain ⟨tr, htr⟩ := htracked.tracks chain hchain
  obtain ⟨hcur, tip, -, -, hwin, hfetch⟩ := id hf
  obtain ⟨before, f, after, rfl, rfl, hall, base, aux, p, hpass, hne, hp⟩ := hbreaks
  have hat := htr.at_cursor cur hcur
  have hheight : f.1.toNat = cur.toNat + 1 + before.length := hf.height_at (by simp)
  obtain ⟨-, below, -, hledger⟩ := @ingestChain_ledger config chain w sha256d t ht db htracked.opened cur _ hf
  obtain ⟨tr', htr', hmove⟩ := @Tracks.tick config _ chain tr w sha256d htr cur tip _ hcur hwin
    (fetchWindow_heights hfetch) below
  rw [← hledger] at htr'
  rw [walk_stops hall hpass hne hp] at hmove
  generalize (walk w sha256d chain (db.ledger.prevHash chain.chain_id cur) before).1 = pending at hall hmove
  cases hmove with
  | pop s hitems =>
    have hfirst : before.length = 0 := hall.symm
    have hcur' := tr.cursor_pop hitems
    refine iff_of_true ⟨fun h' b hle hb => ?_, ?_⟩ (by omega)
    · have hbounds := Track.item_bounds ((htr'.blocks h').symm.trans hb)
      omega
    · obtain ⟨cursor, hcursor⟩ : ∃ cursor, db'.ledger.cursorFrom config chain = some cursor := by
        have hstart := htr.startOf_ne_none hcur
        unfold Ledger.cursorFrom
        cases db'.ledger.cursor chain.chain_id with
        | none => exact Option.ne_none_iff_exists'.1 hstart
        | some c => exact ⟨c, rfl⟩
      have hat' := htr'.at_cursor cursor hcursor
      exact ⟨cursor, hcursor, by omega⟩
  | extend _ _ hnonempty hbs hjoin n =>
    -- the block below is in the same window and is stored after the rollback
    have hpos := List.length_pos_iff.2 hnonempty
    refine iff_of_false ?_ (by omega)
    rintro ⟨-, cursor, hcursor, hle⟩
    have hat' := htr'.at_cursor cursor hcursor
    rw [Track.cursor_trim, Track.cursor_extend] at hat'
    omega

end Sha

theorem broken_link_removed_stale :
    let db' := (ingestChain 64 sampleSha sampleConfig sampleChain (sampleTick sampleElectrs) staleStore).2
    (∀ h' b, 1 ≤ h'.toNat → db'.redb.aux_blocks.get? ⟨63, h'⟩ ≠ some b) ∧
      ∃ cursor, db'.ledger.cursorFrom sampleConfig sampleChain = some cursor ∧ cursor.toNat ≤ 0 := by
  have hops : ∀ op ∈ [IngestOp.tick sampleChain (sampleTick staleElectrs)], op.Committed sampleConfig := by
    intro op hop
    rw [List.mem_singleton.1 hop]
    exact ⟨List.mem_cons_self, rfl⟩
  obtain ⟨hcur, hrow⟩ := staleStore_state
  have hprev : staleStore.ledger.prevHash sampleChain.chain_id 1 = some sampleId₂ := by
    obtain ⟨b, hb, hval⟩ := Option.map_eq_some_iff.1 hrow
    have hid : sampleChain.chain_id = 63 := rfl
    rw [Ledger.prevHash, if_neg (by decide), ledger_blocks, hid, hb, Option.map_some, (Prod.mk.inj hval).1]
  have hwindow : rangeInclusive (saturatingAdd 1 1) (windowEnd sampleConfig 1 sampleServed.tip) = [2] := by decide +kernel
  have hfetch := @Serves.fetches _ _ sampleConfig _ _ _ (sampleTick sampleElectrs) serves_sample _ _ hcur (by decide)
    (by decide +kernel) (by decide +kernel)
  rw [hwindow] at hfetch
  have hbreaks : BreaksLink 64 sampleSha sampleChain (some sampleId₂) [sampleServed.fetched 2] 2 :=
    ⟨[], _, [], rfl, rfl, rfl, sampleBase₂, _, sampleId₂, passes_sample₂ 2, by decide +kernel, rfl⟩
  rw [← hprev] at hbreaks
  have hremoved := broken_link_removed_iff 64 sampleSha sampleConfig freshDb _ rfl hops sampleChain List.mem_cons_self
    (sampleTick sampleElectrs) rfl 1 [sampleServed.fetched 2] 2
  have hstore : runIngest 64 sampleSha sampleConfig freshDb [.tick sampleChain (sampleTick staleElectrs)] = staleStore := rfl
  rw [hstore] at hremoved
  have hid : sampleChain.chain_id = 63 := rfl
  obtain ⟨hgone, cursor, hcursor, hle⟩ := (hremoved hfetch hbreaks).2 rfl
  have hone : (2 : UInt64).toNat - 1 = 1 := rfl
  have hzero : (2 : UInt64).toNat - 2 = 0 := rfl
  rw [hid, hone] at hgone
  rw [hzero] at hle
  exact ⟨hgone, cursor, hcursor, hle⟩

def replayElectrs (tip : UInt64) : ElectrsClient where
  tipHeight := some tip
  blockHashAt _ := some (hashDisplay sampleId₁)
  headerBytes _ _ := some (sampleWire (ByteArr.fill 32 0) sampleId₁ sampleTxid₁)

/-- The header for height 2 does not name the block of height 1, and the tick
that finds this out stores that block and moves the cursor to it. -/
theorem broken_link_stored :
    let fetched := [1, 2].map fun h => (h, hashDisplay sampleId₁, sampleWire (ByteArr.fill 32 0) sampleId₁ sampleTxid₁)
    let db' := (ingestChain 64 sampleSha sampleConfig sampleChain (sampleTick (replayElectrs 2)) freshDb).2
    openDb sampleSha Redb.empty = .ok freshDb ∧
    (sampleTick (replayElectrs 2)).Fetches sampleConfig (freshDb.ledger.cursorFrom sampleConfig sampleChain) 0 fetched ∧
    BreaksLink 64 sampleSha sampleChain (freshDb.ledger.prevHash 63 0) fetched 2 ∧
    (db'.redb.aux_blocks.get? ⟨63, 1⟩).isSome = true ∧
    db'.ledger.cursorFrom sampleConfig sampleChain = some 1 := by
  have hwindow : rangeInclusive (saturatingAdd 0 1) (windowEnd sampleConfig 0 2) = [1, 2] := by decide +kernel
  have hlen : 80 ≤ (sampleWire (ByteArr.fill 32 0) sampleId₁ sampleTxid₁).length := by decide +kernel
  refine ⟨rfl, ⟨by decide +kernel, 2, rfl, by decide, by decide +kernel, ?_⟩, ?_, by decide +kernel⟩
  · rw [hwindow]
    exact @fetchWindow_ok (replayElectrs 2) [1, 2] (fun _ => hashDisplay sampleId₁)
      (fun _ => sampleWire (ByteArr.fill 32 0) sampleId₁ sampleTxid₁) (fun _ _ => rfl) (fun _ _ => rfl) (fun _ _ => hlen)
  · have hwalk : walk 64 sampleSha sampleChain none
        [(1, hashDisplay sampleId₁, sampleWire (ByteArr.fill 32 0) sampleId₁ sampleTxid₁)] =
          ([acceptedBlock sampleSha sampleChain (1, hashDisplay sampleId₁, sampleWire (ByteArr.fill 32 0) sampleId₁ sampleTxid₁)
            sampleBase₁ (sampleAux sampleId₁ sampleTxid₁)], none) := by
      unfold walk
      rw [judge_of_passes (passes_sample₁ 1)]
      rfl
    have hid : sampleSha sampleBase₁.val = sampleId₁ := by decide +kernel
    have hprev : freshDb.ledger.prevHash 63 0 = none := rfl
    rw [hprev]
    refine ⟨[_], _, [], rfl, rfl, ?_, sampleBase₁, _, sampleId₁, passes_sample₁ 2, by decide +kernel, ?_⟩
    · rw [hwalk]
      rfl
    · rw [hwalk, ← hid]
      rfl

section Sha
variable {w : Nat} {sha256d : Bytes → Hash32}

/-! ## Nothing else -/

def Config.unpruned (config : Config) : Config := { config with max_kept_blocks := none }

/-- Without pruning a tick's calls keep every row, but for the row at the cursor
when the walk found it stale at once. -/
theorem Tracks.keeps {config : Config} {L : Ledger} {chain : AuxChain} {tr : BlockTrack} (h : Tracks config L chain tr)
    {t : Tick} {cur : UInt64} {fetched : List Fetched} (hf : t.Fetches config (L.cursorFrom config chain) cur fetched)
    {k : BlockKey} {b : StoredBlock} (hb : L.blocks.get? k = some b) :
    let r := walk w sha256d chain (L.prevHash chain.chain_id cur) fetched
    let L' := (rollbackOps chain.chain_id r.2 ++ storeOps chain.chain_id r.1 none).foldl StoreOp.onLedger L
    L'.blocks.get? k = some b ∨ L'.blocks.get? k = none ∧ k = ⟨chain.chain_id, cur⟩ ∧ r.1 = [] ∧ r.2 ≠ none := by
  intro r L'
  obtain ⟨c, height⟩ := k
  obtain ⟨hcur, tip, -, -, hwin, hfetch⟩ := id hf
  have hat := h.at_cursor cur hcur
  have hheights := @walk_heightsFrom chain w sha256d (L.prevHash chain.chain_id cur) _ _ _ _ (fetchWindow_heights hfetch)
    (windowEnd_room hwin)
  obtain ⟨hver, -, -, hstale⟩ := @walk_spec w sha256d chain (L.prevHash chain.chain_id cur) fetched
  have hown : c = chain.chain_id → height.toNat ≤ cur.toNat := by
    rintro rfl
    rw [h.blocks] at hb
    rw [hat]
    exact (Track.item_bounds hb).2
  have hstore : ∀ L₁ : Ledger, ((storeOps chain.chain_id r.1 none).foldl StoreOp.onLedger L₁).blocks.get?
      ⟨c, height⟩ = L₁.blocks.get? ⟨c, height⟩ := by
    intro L₁
    unfold storeOps
    cases r.1.getLast? with
    | none => rfl
    | some last =>
      refine get?_insertAll_other fun row hrow he => ?_
      obtain ⟨b', hb', rfl⟩ := List.mem_map.1 hrow
      obtain ⟨i, hi⟩ := List.mem_iff_getElem?.1 hb'
      have hnew := hheights i b' hi
      obtain ⟨hc, rfl⟩ := BlockKey.mk.inj he
      have hold := hown (hc.trans (hver b' hb').1)
      omega
  simp only [L', List.foldl_append]
  rw [hstore]
  cases hstop : r.2 with
  | none => exact .inl hb
  | some s =>
    obtain ⟨f, hfget, hs, -⟩ := hstale s hstop
    have hfheight : f.1.toNat = cur.toNat + 1 + r.1.length := hf.height_at hfget
    have hone : (1 : UInt64).toNat = 1 := rfl
    have hsnat : s.toNat = cur.toNat + r.1.length := by
      rw [hs, toNat_saturatingSub]
      omega
    simp only [rollbackOps, Option.toList_some, List.map_cons, List.map_nil, List.foldl_cons, List.foldl_nil,
      StoreOp.onLedger, get?_filter_keepKey]
    by_cases hdrop : c = chain.chain_id ∧ decide (s ≤ height) = true
    · have hle := hown hdrop.1
      have hge := UInt64.le_iff_toNat_le.1 (of_decide_eq_true hdrop.2)
      have hlen : r.1.length = 0 := by omega
      have hkey : height = cur := UInt64.toNat_inj.1 (by omega)
      rw [if_pos hdrop, hdrop.1, hkey]
      exact .inr ⟨rfl, rfl, List.length_eq_zero_iff.1 hlen, Option.some_ne_none s⟩
    · rw [if_neg hdrop]
      exact .inl hb

variable (w sha256d)

/-- A tick without pruning keeps every stored block of every chain, but for the
block at its cursor; and that one goes only if the payload served for the next
height matches its locator, parses, passes the consensus checks and names
another block as its predecessor. -/
theorem history_kept (config : Config) (db₀ : Database) (ops : List IngestOp)
    (hopen : openDb sha256d Redb.empty = .ok db₀) (hops : ∀ op ∈ ops, op.Committed config)
    (chain : AuxChain) (hchain : chain ∈ config.chains) (t : Tick) (ht : t.commits = .all) :
    let db := runIngest w sha256d config db₀ ops
    let db' := (ingestChain w sha256d config.unpruned chain t db).2
    ∀ k b, db.redb.aux_blocks.get? k = some b →
      db'.redb.aux_blocks.get? k = some b ∨
      db'.redb.aux_blocks.get? k = none ∧ k.chain_id = chain.chain_id ∧
        db.ledger.cursorFrom config chain = some k.height ∧
        ∃ h locator wire base aux, h.toNat = k.height.toNat + 1 ∧ t.electrs.blockHashAt h = some locator ∧
          t.electrs.headerBytes h locator = some wire ∧ Passes w sha256d chain (h, locator, wire) base aux ∧
          (base.val.drop 4).take 32 ≠ b.hash_le.val := by
  intro db db' k b hb
  obtain ⟨htracked, -⟩ := ingest_invariant w sha256d config db₀ ops hopen hops
  obtain ⟨tr, htr⟩ := htracked.tracks chain hchain
  -- pruning is not something the track depends on
  have htr' : Tracks config.unpruned db.ledger chain tr :=
    ⟨htr.blocks, htr.at_cursor, htr.started, htr.unset, htr.idle⟩
  rcases idle_or_fetches config.unpruned t (db.ledger.cursorFrom config chain) with
    hidle | ⟨cur, fetched, hf⟩
  · have hsame : db' = registered sha256d chain db := (ingestChain_idle sha256d htracked.opened
      (upsertChain_all sha256d ht htracked.opened chain) hidle).1
    rw [hsame, ← ledger_blocks, (htracked.opened.registered sha256d chain).2]
    exact .inl hb
  obtain ⟨-, below, hnone, hledger⟩ := @ingestChain_ledger config.unpruned chain w sha256d t ht db
    htracked.opened cur _ hf
  rw [hnone rfl] at hledger
  rw [← ledger_blocks, hledger]
  rcases @Tracks.keeps w sha256d _ _ chain tr htr' t cur fetched hf k b hb with hkept | ⟨hgone, rfl, hnil, hstop⟩
  · exact .inl hkept
  obtain ⟨f, base, aux, p, hfget, hpass, hp, hne⟩ := walk_stale_head hnil hstop
  have hprev : (db.ledger.blocks.get? ⟨chain.chain_id, cur⟩).map (·.hash_le) = some p := by
    unfold Ledger.prevHash at hp
    split_ifs at hp
    exact hp
  rw [ledger_blocks, hb, Option.map_some] at hprev
  cases hprev
  obtain ⟨hlocator, hwire⟩ := fetchWindow_replies hf.2.choose_spec.2.2.2 (List.mem_iff_getElem?.2 ⟨0, hfget⟩)
  exact .inr ⟨hgone, rfl, hf.1, f.1, f.2.1, f.2.2, base, aux, hf.height_at hfget, hlocator, hwire, hpass, hne⟩

end Sha

/-- An endpoint whose third block does not build on the second one: the second
sample block goes, the first one stays. -/
theorem history_kept_sample :
    ∃ b, sampleStore.redb.aux_blocks.get? ⟨63, 1⟩ = some b ∧
      (ingestChain 64 sampleSha sampleConfig.unpruned sampleChain
        (sampleTick (replayElectrs 3)) sampleStore).2.redb.aux_blocks.get? ⟨63, 1⟩ = some b := by
  have hops : ∀ op ∈ [IngestOp.tick sampleChain (sampleTick sampleElectrs), .restart], op.Committed sampleConfig := by
    intro op hop
    rcases List.mem_cons.1 hop with rfl | hop
    · exact ⟨List.mem_cons_self, rfl⟩
    · rw [List.mem_singleton.1 hop]
      trivial
  obtain ⟨hcur, hrows⟩ := sampleStore_state
  have hrange : rangeInclusive 1 2 = [1, 2] := by decide
  rw [hrange, List.map_cons] at hrows
  obtain ⟨b, hb, -⟩ := Option.map_eq_some_iff.1 (List.cons.inj hrows).1
  have hkept := history_kept 64 sampleSha sampleConfig freshDb _ rfl hops sampleChain List.mem_cons_self
    (sampleTick (replayElectrs 3)) rfl
  have hstore : runIngest 64 sampleSha sampleConfig freshDb [.tick sampleChain (sampleTick sampleElectrs), .restart] =
      sampleStore := rfl
  rw [hstore] at hkept
  have hkept₁ := hkept ⟨63, 1⟩ b
  refine ⟨b, hb, ?_⟩
  rcases hkept₁ hb with hstays | ⟨-, -, hat, -⟩
  · exact hstays
  · rw [hcur] at hat
    exact absurd (Option.some.inj hat) (by decide)

end PsobIndexer
