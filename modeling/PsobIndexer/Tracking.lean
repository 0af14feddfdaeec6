import PsobIndexer.Lib.Track
import PsobIndexer.Ticks
import PsobIndexer.Rows
/-!
# Each chain is a linked track

The rows of a configured chain are a track of blocks, each building on the one
below, that ends at the chain's cursor. A tick leaves the track, pops its last
block, or extends it and trims it from below (`Tracks.tick`); ticks of other
chains do not touch it.
-/
open Lib

namespace PsobIndexer

open Database

abbrev BlockTrack := Track StoredBlock Builds

/-- The height a tick walks on from: the stored cursor, else the start height. -/
def Ledger.cursorFrom (L : Ledger) (config : Config) (chain : AuxChain) : Option UInt64 :=
  (L.cursor chain.chain_id).or (config.startOf chain)

/-- The rows of the chain are the track `t`. -/
structure Tracks (config : Config) (L : Ledger) (chain : AuxChain) (t : BlockTrack) : Prop where
  blocks : ∀ h : UInt64, L.blocks.get? ⟨chain.chain_id, h⟩ = t.item h.toNat
  at_cursor : ∀ cur, L.cursorFrom config chain = some cur → cur.toNat = t.cursor
  started : ∀ s, config.startOf chain = some s → s.toNat ≤ t.lo
  unset : L.cursor chain.chain_id = none → t.items = []
  idle : config.startOf chain = none → L.cursor chain.chain_id = none

/-- Only the rows and the cursor of the chain matter. -/
theorem Tracks.congr {config : Config} {L L' : Ledger} {chain : AuxChain} {t : BlockTrack} (h : Tracks config L chain t)
    (hblocks : ∀ hh, L'.blocks.get? ⟨chain.chain_id, hh⟩ = L.blocks.get? ⟨chain.chain_id, hh⟩)
    (hcursor : L'.cursor chain.chain_id = L.cursor chain.chain_id) : Tracks config L' chain t where
  blocks hh := (hblocks hh).trans (h.blocks hh)
  at_cursor := by
    unfold Ledger.cursorFrom
    rw [hcursor]
    exact h.at_cursor
  started := h.started
  unset := by
    rw [hcursor]
    exact h.unset
  idle := by
    rw [hcursor]
    exact h.idle

/-! ## The rows of a batch -/

/-- The blocks take the heights after `cur`, in order. -/
def HeightsFrom (cur : Nat) (pending : List StoredBlock) : Prop :=
  ∀ i b, pending[i]? = some b → b.height.toNat = cur + 1 + i

theorem HeightsFrom.getLast {cur : Nat} {pending : List StoredBlock} {last : StoredBlock} (h : HeightsFrom cur pending)
    (hlast : pending.getLast? = some last) : last.height.toNat = cur + pending.length := by
  have hpos : 0 < pending.length := by
    rw [List.length_pos_iff]
    rintro rfl
    cases hlast
  have := h (pending.length - 1) last (by rw [← List.getLast?_eq_getElem?, hlast])
  omega

theorem get?_insertAll_rowsOf {m : KMap BlockKey StoredBlock} {pending : List StoredBlock} {c : UInt32} {cur : Nat}
    (hc : ∀ b ∈ pending, b.chain_id = c) (hh : HeightsFrom cur pending) (h : UInt64) :
    (m.insertAll (rowsOf pending)).get? ⟨c, h⟩ =
      (if cur < h.toNat then pending[h.toNat - cur - 1]? else none).or (m.get? ⟨c, h⟩) := by
  induction pending using List.reverseRecOn with
  | nil => simp [rowsOf, KMap.insertAll]
  | append_singleton pending b ih =>
    have hb : b.height.toNat = cur + 1 + pending.length := hh pending.length b (by simp)
    have hpre : HeightsFrom cur pending := by
      intro i b' hb'
      refine hh i b' ?_
      rw [List.getElem?_append_left (List.getElem?_eq_some_iff.1 hb').1, hb']
    have hstep : m.insertAll (rowsOf (pending ++ [b])) = (m.insertAll (rowsOf pending)).insert ⟨b.chain_id, b.height⟩ b := by
      unfold KMap.insertAll rowsOf
      rw [List.map_append, List.foldl_append]
      rfl
    rw [hstep, KMap.get?_insert, hc b (by simp), ih (fun b' hb' => hc b' (List.mem_append_left _ hb')) hpre]
    by_cases heq : h = b.height
    · subst heq
      rw [if_pos rfl, if_pos (by omega), List.getElem?_append_right (by omega)]
      have hidx : b.height.toNat - cur - 1 - pending.length = 0 := by omega
      simp [hidx]
    · have hne : h.toNat ≠ cur + 1 + pending.length := by
        intro he
        exact heq (UInt64.toNat_inj.1 (he.trans hb.symm))
      have hkey : (⟨c, h⟩ : BlockKey) ≠ ⟨c, b.height⟩ := by
        intro he
        exact heq (congrArg BlockKey.height he)
      rw [if_neg hkey]
      split_ifs with hlt
      · congr 1
        rw [List.getElem?_append]
        split_ifs with hin
        · rfl
        · rw [List.getElem?_eq_none (by omega), List.getElem?_eq_none (by simp; omega)]
      · rfl

theorem get?_insertAll_other {m : KMap BlockKey StoredBlock} {rows : List BlockRow} {k : BlockKey}
    (h : ∀ row ∈ rows, k ≠ row.1) : (m.insertAll rows).get? k = m.get? k := by
  induction rows generalizing m with
  | nil => rfl
  | cons row rows ih =>
    obtain ⟨hrow, hrows⟩ := List.forall_mem_cons.1 h
    refine (ih hrows).trans ?_
    rw [KMap.get?_insert, if_neg hrow]

/-! ## The calls of a tick -/

variable {config : Config} {L : Ledger} {chain : AuxChain} {t : BlockTrack}

/-- A rollback above the cursor finds nothing. -/
theorem Tracks.rollback_above (h : Tracks config L chain t) {s : UInt64} (hs : t.cursor < s.toNat) :
    Tracks config ((StoreOp.rollbackFrom chain.chain_id s).onLedger L) chain t := by
  refine h.congr (fun hh => ?_) ?_
  · simp only [StoreOp.onLedger, get?_filter_keepKey, true_and, decide_eq_true_eq]
    split_ifs with hle
    · rw [h.blocks]
      cases hb : t.item hh.toNat with
      | none => rfl
      | some b =>
        have := (Track.item_bounds hb).2
        rw [UInt64.le_iff_toNat_le] at hle
        omega
    · rfl
  · simp only [StoreOp.onLedger, true_and]
    split_ifs with hany
    · exfalso
      cases hcur : L.cursor chain.chain_id with
      | none => simp [hcur] at hany
      | some cur =>
        have hat := h.at_cursor cur (by unfold Ledger.cursorFrom; rw [hcur]; rfl)
        simp only [hcur, Option.any_some, decide_eq_true_eq, UInt64.le_iff_toNat_le] at hany
        omega
    · rfl

theorem Tracks.cursor_stored (h : Tracks config L chain t) (hne : t.items ≠ []) :
    ∃ cur, L.cursor chain.chain_id = some cur ∧ cur.toNat = t.cursor := by
  cases hcur : L.cursor chain.chain_id with
  | none => exact absurd (h.unset hcur) hne
  | some cur => exact ⟨cur, rfl, h.at_cursor cur (by unfold Ledger.cursorFrom; rw [hcur]; rfl)⟩

/-- A rollback at the cursor pops the last block. -/
theorem Tracks.rollback_cursor (h : Tracks config L chain t) {s : UInt64} (hs : s.toNat = t.cursor) (hne : t.items ≠ []) :
    Tracks config ((StoreOp.rollbackFrom chain.chain_id s).onLedger L) chain t.pop := by
  have hpop := t.cursor_pop hne
  obtain ⟨cur, hcur, hat⟩ := h.cursor_stored hne
  have hcur' : ((StoreOp.rollbackFrom chain.chain_id s).onLedger L).cursor chain.chain_id = some (saturatingSub s 1) := by
    have hle : s ≤ cur := UInt64.le_iff_toNat_le.2 (by omega)
    simp [StoreOp.onLedger, hcur, hle]
  refine ⟨fun hh => ?_, ?_, h.started, ?_, ?_⟩
  · simp only [StoreOp.onLedger, get?_filter_keepKey, true_and, decide_eq_true_eq, Track.item_pop, h.blocks]
    simp only [UInt64.le_iff_toNat_le]
    split_ifs <;> first | rfl | omega
  · intro cur' hfrom
    unfold Ledger.cursorFrom at hfrom
    rw [hcur'] at hfrom
    cases hfrom
    rw [toNat_saturatingSub]
    have : (1 : UInt64).toNat = 1 := rfl
    omega
  · rw [hcur']
    intro hn
    cases hn
  · intro hstart
    have := h.idle hstart
    rw [hcur] at this
    cases this

/-- Storing a linked run above the cursor extends the track. -/
theorem Tracks.store (h : Tracks config L chain t) {pending : List StoredBlock} {last : StoredBlock}
    (hlast : pending.getLast? = some last) (hc : ∀ b ∈ pending, b.chain_id = chain.chain_id)
    (hh : HeightsFrom t.cursor pending) (hstart : config.startOf chain ≠ none) (hbs : pending.IsChain Builds)
    (hjoin : ∀ a ∈ t.items.getLast?, ∀ b ∈ pending.head?, Builds a b) :
    Tracks config ((StoreOp.setCursorHeight chain.chain_id last.height).onLedger
      ((StoreOp.insertBlocks (rowsOf pending)).onLedger L)) chain (t.extend pending hbs hjoin) := by
  have hheight := hh.getLast hlast
  refine ⟨fun hh' => ?_, ?_, h.started, ?_, fun hn => absurd hn hstart⟩
  · simp only [StoreOp.onLedger, get?_insertAll_rowsOf hc hh, Track.item_extend, h.blocks]
    by_cases hle : hh'.toNat ≤ t.cursor
    · rw [if_neg (by omega), if_pos hle, Option.none_or]
    · have hnone : t.item hh'.toNat = none := by
        cases hb : t.item hh'.toNat with
        | none => rfl
        | some b => exact absurd (Track.item_bounds hb).2 hle
      rw [if_pos (by omega), if_neg hle, hnone, Option.or_none]
  · intro cur hfrom
    simp only [Ledger.cursorFrom, StoreOp.onLedger, if_true, Option.some_or, Option.some.injEq] at hfrom
    rw [← hfrom, Track.cursor_extend, hheight]
  · intro hn
    simp [StoreOp.onLedger] at hn

/-- Pruning up to the cursor trims the track. -/
theorem Tracks.prune (h : Tracks config L chain t) (below : UInt64) :
    Tracks config ((StoreOp.pruneBefore chain.chain_id below).onLedger L) chain (t.trim (below.toNat - 1 - t.lo)) := by
  refine ⟨fun hh => ?_, ?_, ?_, ?_, h.idle⟩
  · simp only [StoreOp.onLedger, get?_filter_keepKey, true_and, decide_eq_true_eq, Track.item_trim, h.blocks]
    simp only [UInt64.lt_iff_toNat_lt]
    split_ifs with hlt hin hin
    · omega
    · rfl
    · rfl
    · cases hb : t.item hh.toNat with
      | none => rfl
      | some b =>
        have := Track.item_bounds hb
        omega
  · intro cur hfrom
    rw [Track.cursor_trim]
    exact h.at_cursor cur hfrom
  · intro s hs
    have := h.started s hs
    simp only [Track.trim]
    omega
  · intro hn
    have hnil := h.unset hn
    simp [Track.trim, hnil]

/-! ## The tick -/

/-- A non-empty window starts right above its cursor: the end of the window
wraps before the start saturates. -/
theorem windowEnd_room {cur tip : UInt64} (h : saturatingAdd cur 1 ≤ windowEnd config cur tip) :
    (saturatingAdd cur 1).toNat = cur.toNat + 1 := by
  have hmb := config.max_batch_pos
  have hmb' := config.max_batch.toNat_lt
  have hcur := cur.toNat_lt
  have hone : (1 : UInt64).toNat = 1 := rfl
  have hend : windowEnd config cur tip ≤ cur + config.max_batch := min_le_left _ _
  have hle := UInt64.le_iff_toNat_le.1 (le_trans h hend)
  rw [UInt64.le_iff_toNat_le] at hmb
  rw [toNat_saturatingAdd] at hle ⊢
  rw [UInt64.toNat_add] at hle
  omega

theorem Tracks.prevHash (h : Tracks config L chain t) {cur : UInt64} (hcur : L.cursorFrom config chain = some cur) :
    L.prevHash chain.chain_id cur = t.items.getLast?.map (·.hash_le) := by
  have hat := h.at_cursor cur hcur
  unfold Ledger.prevHash
  split_ifs with hzero
  · have hnil : t.items = [] := by
      subst hzero
      have : t.cursor = 0 := hat.symm
      unfold Track.cursor at this
      exact List.length_eq_zero_iff.1 (by omega)
    simp [hnil]
  · rw [h.blocks, hat, Track.item_cursor]

variable {w : Nat} {sha256d : Bytes → Hash32}

/-- The heights of accepted blocks follow the cursor. -/
theorem walk_heightsFrom {prev_hash : Option Hash32} {fetched : List Fetched} {first last : UInt64} {cur : Nat}
    (hfetched : fetched.map (·.1) = rangeInclusive first last) (hfirst : first.toNat = cur + 1) :
    HeightsFrom cur (walk w sha256d chain prev_hash fetched).1 := by
  intro i b hb
  have hheights := (@walk_spec w sha256d chain prev_hash fetched).2.1
  have hi := (List.getElem?_eq_some_iff.1 hb).1
  have hmap : ((walk w sha256d chain prev_hash fetched).1.map (·.height))[i]? = some b.height := by
    rw [List.getElem?_map, hb, Option.map_some]
  rw [hheights, hfetched, List.getElem?_take_of_lt hi] at hmap
  rw [getElem?_rangeInclusive hmap, hfirst]

/-- What a tick does to the track of its chain. -/
inductive TickMove (t : BlockTrack) : List StoredBlock × Option UInt64 → BlockTrack → Prop where
  | stay : TickMove t ([], none) t
  | pop (s : UInt64) (hne : t.items ≠ []) : TickMove t ([], some s) t.pop
  | extend (pending : List StoredBlock) (stale : Option UInt64) (hne : pending ≠ []) (hbs : pending.IsChain Builds)
      (hjoin : ∀ a ∈ t.items.getLast?, ∀ b ∈ pending.head?, Builds a b) (n : Nat) :
      TickMove t (pending, stale) ((t.extend pending hbs hjoin).trim n)

theorem LinkedFrom.head {prev_hash : Option Hash32} {bs : List StoredBlock} (h : LinkedFrom prev_hash bs) :
    ∀ p ∈ prev_hash, ∀ b ∈ bs.head?, b.header.prevHash = p := by
  intro p hp b hb
  cases bs with
  | nil => cases hb
  | cons b' bs =>
    cases hb
    exact h.1 p hp

/-- Accepted blocks extend the track; a rollback in the same tick finds nothing. -/
theorem Tracks.accept (h : Tracks config L chain t) {pending : List StoredBlock} {stale : Option UInt64}
    {last : StoredBlock} (hlast : pending.getLast? = some last) (hstart : config.startOf chain ≠ none)
    (hc : ∀ b ∈ pending, b.chain_id = chain.chain_id) (hh : HeightsFrom t.cursor pending)
    (hlinked : LinkedFrom (t.items.getLast?.map (·.hash_le)) pending)
    (hat : ∀ s ∈ stale, s.toNat = t.cursor + pending.length) :
    ∃ (hbs : pending.IsChain Builds) (hjoin : ∀ a ∈ t.items.getLast?, ∀ b ∈ pending.head?, Builds a b),
      Tracks config ((StoreOp.setCursorHeight chain.chain_id last.height).onLedger
        ((StoreOp.insertBlocks (rowsOf pending)).onLedger
          ((rollbackOps chain.chain_id stale).foldl StoreOp.onLedger L))) chain (t.extend pending hbs hjoin) := by
  have hpos : 0 < pending.length := by
    rw [List.length_pos_iff]
    rintro rfl
    cases hlast
  have hjoin : ∀ a ∈ t.items.getLast?, ∀ b ∈ pending.head?, Builds a b := by
    intro a ha b hb
    refine hlinked.head a.hash_le ?_ b hb
    rw [Option.mem_def] at ha ⊢
    rw [ha, Option.map_some]
  have hroll : Tracks config ((rollbackOps chain.chain_id stale).foldl StoreOp.onLedger L) chain t := by
    cases stale with
    | none => exact h
    | some s =>
      have hs := hat s rfl
      exact h.rollback_above (by omega)
  exact ⟨hlinked.isChain, hjoin, hroll.store hlast hc hh hstart hlinked.isChain hjoin⟩

theorem Tracks.move (h : Tracks config L chain t) {pending : List StoredBlock} {stale : Option UInt64}
    (hstart : config.startOf chain ≠ none) (hc : ∀ b ∈ pending, b.chain_id = chain.chain_id)
    (hh : HeightsFrom t.cursor pending) (hlinked : LinkedFrom (t.items.getLast?.map (·.hash_le)) pending)
    (hat : ∀ s ∈ stale, s.toNat = t.cursor + pending.length) (hempty : ∀ s ∈ stale, pending = [] → t.items ≠ [])
    (below : Option UInt64) :
    ∃ t', Tracks config ((rollbackOps chain.chain_id stale ++ storeOps chain.chain_id pending below).foldl
      StoreOp.onLedger L) chain t' ∧ TickMove t (pending, stale) t' := by
  rw [List.foldl_append]
  cases hlast : pending.getLast? with
  | none =>
    -- nothing was accepted: the walk halted, or it met the stored block at the cursor
    obtain rfl := List.getLast?_eq_none_iff.1 hlast
    cases stale with
    | none => exact ⟨t, h, .stay⟩
    | some s =>
      have hne := hempty s rfl rfl
      exact ⟨t.pop, h.rollback_cursor (hat s rfl) hne, .pop s hne⟩
  | some last =>
    have hne : pending ≠ [] := by
      rintro rfl
      cases hlast
    obtain ⟨hbs, hjoin, hstore⟩ := h.accept hlast hstart hc hh hlinked hat
    unfold storeOps
    simp only [hlast, List.foldl_cons]
    cases below with
    | none =>
      refine ⟨(t.extend pending hbs hjoin).trim 0, ?_, .extend pending stale hne hbs hjoin 0⟩
      rw [Track.trim_zero]
      exact hstore
    | some below => exact ⟨_, hstore.prune below, .extend pending stale hne hbs hjoin _⟩

theorem Tracks.startOf_ne_none (h : Tracks config L chain t) {cur : UInt64}
    (hcur : L.cursorFrom config chain = some cur) : config.startOf chain ≠ none := by
  intro hn
  unfold Ledger.cursorFrom at hcur
  rw [h.idle hn, hn] at hcur
  cases hcur

/-- What the walk accepts continues the track, and the stale height it may report
is the one below the height where it stopped. -/
theorem Tracks.walked (h : Tracks config L chain t) {cur tip : UInt64} {fetched : List Fetched}
    (hcur : L.cursorFrom config chain = some cur) (hwin : saturatingAdd cur 1 ≤ windowEnd config cur tip)
    (hfetched : fetched.map (·.1) = rangeInclusive (saturatingAdd cur 1) (windowEnd config cur tip)) :
    let r := walk w sha256d chain (L.prevHash chain.chain_id cur) fetched
    (∀ b ∈ r.1, b.chain_id = chain.chain_id) ∧ HeightsFrom t.cursor r.1 ∧
      LinkedFrom (t.items.getLast?.map (·.hash_le)) r.1 ∧ (∀ s ∈ r.2, s.toNat = t.cursor + r.1.length) ∧
      ∀ s ∈ r.2, r.1 = [] → t.items ≠ [] := by
  have hcursor := h.at_cursor cur hcur
  have hfirst := windowEnd_room hwin
  have hone : (1 : UInt64).toNat = 1 := rfl
  rw [h.prevHash hcur]
  have hspec := @walk_spec w sha256d chain (t.items.getLast?.map (·.hash_le)) fetched
  have hheights := @walk_heightsFrom chain w sha256d (t.items.getLast?.map (·.hash_le)) _ _ _ _ hfetched hfirst
  generalize walk w sha256d chain (t.items.getLast?.map (·.hash_le)) fetched = r at hspec hheights ⊢
  obtain ⟨hver, -, hlinked, hstale⟩ := hspec
  rw [hcursor] at hheights
  refine ⟨fun b hb => (hver b hb).1, hheights, hlinked, ?_, ?_⟩
  · intro s hs
    obtain ⟨f, hf, hsf, -⟩ := hstale s hs
    have hmap : (fetched.map (·.1))[r.1.length]? = some f.1 := by
      rw [List.getElem?_map, hf, Option.map_some]
    rw [hfetched] at hmap
    have := getElem?_rangeInclusive hmap
    rw [hsf, toNat_saturatingSub]
    omega
  · intro s hs hnil hitems
    obtain ⟨f, -, -, hprev⟩ := hstale s hs
    exact hprev hnil (by rw [hitems]; rfl)

/-- A tick that fetches its window moves the track of its chain. -/
theorem Tracks.tick (h : Tracks config L chain t) {cur tip : UInt64} {fetched : List Fetched}
    (hcur : L.cursorFrom config chain = some cur) (hwin : saturatingAdd cur 1 ≤ windowEnd config cur tip)
    (hfetched : fetched.map (·.1) = rangeInclusive (saturatingAdd cur 1) (windowEnd config cur tip))
    (below : Option UInt64) :
    let r := walk w sha256d chain (L.prevHash chain.chain_id cur) fetched
    ∃ t', Tracks config ((rollbackOps chain.chain_id r.2 ++ storeOps chain.chain_id r.1 below).foldl StoreOp.onLedger L)
      chain t' ∧ TickMove t r t' := by
  obtain ⟨hc, hheights, hlinked, hat, hempty⟩ := @Tracks.walked config L chain t w sha256d h cur tip fetched hcur hwin hfetched
  exact h.move (h.startOf_ne_none hcur) hc hheights hlinked hat hempty below

/-! ## The whole store -/

/-- The calls that act on the rows and the cursor of one chain only. -/
def StoreOp.Touches (c : UInt32) : StoreOp → Prop
  | insertBlocks rows => ∀ row ∈ rows, row.1.chain_id = c
  | rollbackFrom c' _ => c' = c
  | pruneBefore c' _ => c' = c
  | setCursorHeight c' _ => c' = c
  | _ => True

theorem StoreOp.onLedger_other {op : StoreOp} {c c' : UInt32} (h : op.Touches c) (hne : c' ≠ c) :
    (∀ hh, (op.onLedger L).blocks.get? ⟨c', hh⟩ = L.blocks.get? ⟨c', hh⟩) ∧ (op.onLedger L).cursor c' = L.cursor c' := by
  cases op with
  | insertBlocks rows =>
    refine ⟨fun hh => get?_insertAll_other fun row hrow he => hne ?_, rfl⟩
    rw [← h row hrow, ← he]
  | rollbackFrom c₁ s =>
    obtain rfl : c₁ = c := h
    refine ⟨fun hh => ?_, ?_⟩
    · simp only [StoreOp.onLedger, get?_filter_keepKey, hne, false_and, if_false]
    · simp [StoreOp.onLedger, hne]
  | pruneBefore c₁ below =>
    obtain rfl : c₁ = c := h
    refine ⟨fun hh => ?_, rfl⟩
    simp only [StoreOp.onLedger, get?_filter_keepKey, hne, false_and, if_false]
  | setCursorHeight c₁ hh =>
    obtain rfl : c₁ = c := h
    exact ⟨fun _ => rfl, by simp [StoreOp.onLedger, hne]⟩
  | classifyParent p x => exact ⟨fun _ => rfl, rfl⟩
  | upsertChain c₁ name electrs => exact ⟨fun _ => rfl, rfl⟩
  | reopen => exact ⟨fun _ => rfl, rfl⟩

/-- Calls on one chain leave the tracks of the others. -/
theorem Tracks.frame (h : Tracks config L chain t) {ops : List StoreOp} {c : UInt32} (hops : ∀ op ∈ ops, op.Touches c)
    (hne : chain.chain_id ≠ c) : Tracks config (ops.foldl StoreOp.onLedger L) chain t := by
  induction ops generalizing L with
  | nil => exact h
  | cons op ops ih =>
    obtain ⟨hop, hops⟩ := List.forall_mem_cons.1 hops
    obtain ⟨hb, hcur⟩ := StoreOp.onLedger_other (L := L) hop hne
    exact ih (h.congr hb hcur) hops

/-- What holds of each kind of call holds of the calls of a tick. -/
theorem forall_tickOps {P : StoreOp → Prop} {c : UInt32} {pending : List StoredBlock} {stale below : Option UInt64}
    (hroll : ∀ s, P (.rollbackFrom c s)) (hinsert : P (.insertBlocks (rowsOf pending)))
    (hcursor : ∀ h, P (.setCursorHeight c h)) (hprune : ∀ b ∈ below, P (.pruneBefore c b)) :
    ∀ op ∈ rollbackOps c stale ++ storeOps c pending below, P op := by
  intro op hop
  rcases List.mem_append.1 hop with hop | hop
  · obtain ⟨s, -, rfl⟩ := List.mem_map.1 hop
    exact hroll s
  · unfold storeOps at hop
    split at hop
    · cases hop
    · rcases List.mem_cons.1 hop with rfl | hop
      · exact hinsert
      rcases List.mem_cons.1 hop with rfl | hop
      · exact hcursor _
      · obtain ⟨b, hb, rfl⟩ := List.mem_map.1 hop
        exact hprune b (Option.mem_toList.1 hb)

theorem tickOps_touches {c : UInt32} {pending : List StoredBlock} (hc : ∀ b ∈ pending, b.chain_id = c)
    (stale below : Option UInt64) : ∀ op ∈ rollbackOps c stale ++ storeOps c pending below, op.Touches c := by
  refine forall_tickOps (fun _ => rfl) ?_ (fun _ => rfl) (fun _ _ => rfl)
  intro row hrow
  obtain ⟨b, hb, rfl⟩ := List.mem_map.1 hrow
  exact hc b hb

theorem tickOps_regular {c : UInt32} {pending : List StoredBlock} (hver : ∀ b ∈ pending, Verified w sha256d chain b)
    (stale : Option UInt64) {below : Option UInt64} (hbelow : ∀ b ∈ below, 1 ≤ b) :
    ∀ op ∈ rollbackOps c stale ++ storeOps c pending below, op.Regular := by
  refine forall_tickOps (fun _ => trivial) ?_ (fun _ => trivial) hbelow
  intro row hrow
  obtain ⟨b, hb, rfl⟩ := List.mem_map.1 hrow
  exact (hver b hb).witnessed _

theorem classifyOps_regular (answers : List (Hash32 × Option UInt64)) : ∀ op ∈ classifyOps answers, op.Regular := by
  intro op hop
  obtain ⟨a, -, rfl⟩ := List.mem_map.1 hop
  trivial

theorem foldl_classifyOps (answers : List (Hash32 × Option UInt64)) (L : Ledger) :
    (classifyOps answers).foldl StoreOp.onLedger L = L := by
  induction answers with
  | nil => rfl
  | cons a answers ih => exact ih

/-- The ledger after a tick that fetches its window. -/
theorem ingestChain_ledger {t : Tick} (ht : t.commits = .all) {db : Database} (h : Opened db) {cur : UInt64}
    {fetched : List Fetched} (hf : t.Fetches config (db.ledger.cursorFrom config chain) cur fetched) :
    let r := walk w sha256d chain (db.ledger.prevHash chain.chain_id cur) fetched
    Opened (ingestChain w sha256d config chain t db).2 ∧ ∃ below : Option UInt64,
      (config.max_kept_blocks = none → below = none) ∧
      (ingestChain w sha256d config chain t db).2.ledger =
        (rollbackOps chain.chain_id r.2 ++ storeOps chain.chain_id r.1 below).foldl StoreOp.onLedger db.ledger := by
  intro r
  obtain ⟨hopen, hledger⟩ := h.registered sha256d chain
  obtain ⟨below, hbelow, hkept, heq⟩ := @ingestFetched_all sha256d w config chain t ht _ hopen cur fetched
  rw [hledger] at heq
  have hver := (@walk_spec w sha256d chain (db.ledger.prevHash chain.chain_id cur) fetched).1
  obtain ⟨hopen₁, hledger₁⟩ := hopen.runStore sha256d
    (tickOps_regular (c := chain.chain_id) hver r.2 hbelow)
  rw [ingestChain_fetches sha256d h (upsertChain_all sha256d ht h chain) hf, heq]
  obtain ⟨hopen₂, hledger₂⟩ := hopen₁.runStore sha256d (classifyOps_regular (t.answers _))
  refine ⟨hopen₂, below, hkept, ?_⟩
  rw [hledger₂, foldl_classifyOps, hledger₁, hledger]

/-- An open store in which every configured chain is a track. -/
structure Tracked (config : Config) (db : Database) : Prop where
  opened : Opened db
  tracks : ∀ chain ∈ config.chains, ∃ t, Tracks config db.ledger chain t

/-- The actions of a run: ticks of configured chains whose writes all go
through, and restarts. -/
def IngestOp.Committed (config : Config) : IngestOp → Prop
  | tick chain t => chain ∈ config.chains ∧ t.commits = .all
  | restart => True

theorem Config.eq_of_chain_id {chain chain' : AuxChain} (h : chain ∈ config.chains) (h' : chain' ∈ config.chains)
    (hid : chain.chain_id = chain'.chain_id) : chain = chain' :=
  List.inj_on_of_nodup_map config.unique_chain_ids h h' hid

theorem Tracked.step {db : Database} {op : IngestOp} (h : Tracked config db) (hop : op.Committed config) :
    Tracked config (op.run w sha256d config db) := by
  cases op with
  | tick chain t =>
    obtain ⟨hchain, ht⟩ := hop
    simp only [IngestOp.run]
    rcases idle_or_fetches config t (db.ledger.cursorFrom config chain) with hidle | ⟨cur, fetched, hf⟩
    · rw [(ingestChain_idle sha256d h.opened (upsertChain_all sha256d ht h.opened chain) hidle).1]
      obtain ⟨hopen, hledger⟩ := h.opened.registered sha256d chain
      refine ⟨hopen, ?_⟩
      rw [hledger]
      exact h.tracks
    · obtain ⟨hopen, below, -, hledger⟩ := @ingestChain_ledger config chain w sha256d t ht db h.opened cur fetched hf
      refine ⟨hopen, fun chain' hchain' => ?_⟩
      rw [hledger]
      obtain ⟨tr, htr⟩ := h.tracks chain' hchain'
      obtain ⟨hcur, tip, -, -, hwin, hfetch⟩ := hf
      by_cases hid : chain'.chain_id = chain.chain_id
      · obtain rfl := Config.eq_of_chain_id hchain' hchain hid
        obtain ⟨t', ht', -⟩ := htr.tick hcur hwin (fetchWindow_heights hfetch) below
        exact ⟨t', ht'⟩
      · have hver := (@walk_spec w sha256d chain (db.ledger.prevHash chain.chain_id cur) fetched).1
        exact ⟨tr, htr.frame (tickOps_touches (fun b hb => (hver b hb).1) _ below) hid⟩
  | restart =>
    obtain ⟨hopen, hledger⟩ := @Opened.run sha256d db h.opened .reopen trivial
    refine ⟨hopen, ?_⟩
    simp only [IngestOp.run]
    change ∀ chain ∈ config.chains, ∃ t, Tracks config (StoreOp.reopen.run sha256d db).ledger chain t
    rw [hledger]
    exact h.tracks

theorem cursorOf_fresh {db₀ : Database} (h : openDb sha256d Redb.empty = .ok db₀) (c : UInt32) : db₀.cursorOf c = none := by
  cases h
  have hne : cursorKey c ≠ META_SCHEMA_VERSION := (schema_ne_cursorKey c).symm
  simp [cursorOf, warmUpCache, Redb.empty, KMap.get?_insert, hne]

theorem tracked_fresh {db₀ : Database} (h : openDb sha256d Redb.empty = .ok db₀) : Tracked config db₀ := by
  obtain ⟨-, hsynced, hschema, -⟩ := restartable_fresh h
  have hblocks : db₀.cache_blocks = .empty ∧ db₀.redb.aux_blocks = .empty := by
    cases h
    exact ⟨rfl, rfl⟩
  have hcursor := cursorOf_fresh h
  refine ⟨⟨by rw [hblocks.1, hblocks.2], hsynced, hschema⟩, fun chain _ => ?_⟩
  refine ⟨.start ((config.startOf chain).elim 0 UInt64.toNat), ?_, ?_, ?_, fun _ => rfl, fun _ => hcursor _⟩
  · intro hh
    rw [Track.item_start, Database.ledger, hblocks.2]
    rfl
  · intro cur hcur
    simp only [Ledger.cursorFrom, Database.ledger, hcursor, Option.none_or] at hcur
    rw [hcur]
    rfl
  · intro s hs
    rw [hs]
    exact le_refl _

end PsobIndexer
