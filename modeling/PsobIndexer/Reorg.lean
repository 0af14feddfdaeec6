import PsobIndexer.Lib.Chase
import PsobIndexer.Guest
/-!
# Recovering from a reorg

An endpoint serves one fixed chain. A tick against it pops the last stored block
when that block is not on the served chain, and stores the whole window when it
is: the cursor and the fork height move as `chase` moves them (`Forked.tick`).
-/
open Lib

namespace PsobIndexer

open Database

/-- A chain of blocks up to a tip, as an endpoint serves it. -/
structure ServedChain where
  tip : UInt64
  base : UInt64 → ByteArr 80
  aux : UInt64 → AuxPow
  wire : UInt64 → Bytes
  locator : UInt64 → String

namespace ServedChain

def hash (sha256d : Bytes → Hash32) (N : ServedChain) (h : UInt64) : Hash32 := sha256d (N.base h).val

def fetched (N : ServedChain) (h : UInt64) : Fetched := (h, N.locator h, N.wire h)

def block (sha256d : Bytes → Hash32) (chain : AuxChain) (N : ServedChain) (h : UInt64) : StoredBlock :=
  acceptedBlock sha256d chain (N.fetched h) (N.base h) (N.aux h)

end ServedChain

section Sha
variable (w : Nat) (sha256d : Bytes → Hash32)

/-- The endpoint serves `N`: above the start height the blocks are linked, the
locators are right and the payloads pass the gates. -/
structure Serves (chain : AuxChain) (start : UInt64) (N : ServedChain) (electrs : ElectrsClient) : Prop where
  tip : electrs.tipHeight = some N.tip
  linked : ∀ h, start < h → h < N.tip → (BlockHeader.mk (N.base (h + 1)).val none).prevHash = N.hash sha256d h
  locators : ∀ h, start < h → h ≤ N.tip → electrs.blockHashAt h = some (N.locator h)
  wires : ∀ h, start < h → h ≤ N.tip → electrs.headerBytes h (N.locator h) = some (N.wire h)
  passes : ∀ h, start < h → h ≤ N.tip → Passes w sha256d chain (N.fetched h) (N.base h) (N.aux h)

/-- The fork height: the highest stored height up to the cursor at which the
store agrees with `N`, the height below the lowest stored block if there is no
such height, and the cursor if nothing is stored. -/
def IsFork (L : Ledger) (c : UInt32) (N : ServedChain) (cur fork : UInt64) : Prop :=
  ((∃ b, L.blocks.get? ⟨c, fork⟩ = some b ∧ b.hash_le = N.hash sha256d fork) ∧ fork ≤ cur ∧
    ∀ h b, fork < h → h ≤ cur → L.blocks.get? ⟨c, h⟩ = some b → b.hash_le ≠ N.hash sha256d h) ∨
  ((∀ h b, h ≤ cur → L.blocks.get? ⟨c, h⟩ = some b → b.hash_le ≠ N.hash sha256d h) ∧
    ∃ low b, L.blocks.get? ⟨c, low⟩ = some b ∧ (∀ h b', L.blocks.get? ⟨c, h⟩ = some b' → low ≤ h) ∧
      low.toNat = fork.toNat + 1) ∨
  ((∀ h, L.blocks.get? ⟨c, h⟩ = none) ∧ fork = cur)

variable {w sha256d}

/-! ## The walk over a served window -/

theorem Serves.next {chain : AuxChain} {start : UInt64} {N : ServedChain} {electrs : ElectrsClient}
    (hs : Serves w sha256d chain start N electrs) {h h' : UInt64} (hstart : start < h) (htip : h' ≤ N.tip)
    (hnext : h'.toNat = h.toNat + 1) : ((N.base h').val.drop 4).take 32 = (N.hash sha256d h).val := by
  have hlt : h < h' := UInt64.lt_iff_toNat_lt.2 (by omega)
  have heq : h' = h + 1 := by
    apply UInt64.toNat_inj.1
    have hone : (1 : UInt64).toNat = 1 := rfl
    have := h'.toNat_lt
    rw [UInt64.toNat_add]
    omega
  rw [heq]
  exact prevHash_eq_iff.1 (hs.linked h hstart (lt_of_lt_of_le hlt htip))

/-- A served window that builds on the previous hash is accepted as a whole. -/
theorem walk_served {chain : AuxChain} {start : UInt64} {N : ServedChain} {electrs : ElectrsClient}
    (hs : Serves w sha256d chain start N electrs) {window : List UInt64}
    (hmem : ∀ h ∈ window, start < h ∧ h ≤ N.tip) (hchain : window.IsChain (fun h h' => h'.toNat = h.toNat + 1))
    {prev_hash : Option Hash32} (hprev : ∀ p ∈ prev_hash, ∀ h ∈ window.head?, ((N.base h).val.drop 4).take 32 = p.val) :
    walk w sha256d chain prev_hash (window.map N.fetched) = (window.map (N.block sha256d chain), none) := by
  induction window generalizing prev_hash with
  | nil => rfl
  | cons h window ih =>
    obtain ⟨hh, hwindow⟩ := List.forall_mem_cons.1 hmem
    have hjudge : judge w sha256d chain prev_hash (N.fetched h) = .accept (N.block sha256d chain h) := by
      rw [judge_of_passes (hs.passes h hh.1 hh.2), if_neg]
      · rfl
      · cases prev_hash with
        | none => simp
        | some p => simpa using hprev p rfl h rfl
    have hrest := @ih hwindow hchain.tail (some (N.hash sha256d h)) fun p hp h' hh' => by
      cases hp
      exact hs.next hh.1 (hwindow h' (List.mem_of_mem_head? hh')).2 (hchain.rel_head? hh')
    rw [List.map_cons, walk, hjudge]
    simp only
    have hhash : (N.block sha256d chain h).hash_le = N.hash sha256d h := rfl
    rw [hhash, hrest, List.map_cons]

/-- A served window that does not build on the stored block is stale. -/
theorem walk_stale {chain : AuxChain} {start : UInt64} {N : ServedChain} {electrs : ElectrsClient}
    (hs : Serves w sha256d chain start N electrs) {h : UInt64} {window : List UInt64} (hh : start < h) (htip : h ≤ N.tip)
    {p : Hash32} (hprev : ((N.base h).val.drop 4).take 32 ≠ p.val) :
    walk w sha256d chain (some p) ((h :: window).map N.fetched) = ([], some (saturatingSub h 1)) := by
  have hjudge : judge w sha256d chain (some p) (N.fetched h) = .stale := by
    rw [judge_of_passes (hs.passes h hh htip), if_pos]
    simpa using hprev
  rw [List.map_cons, walk, hjudge]
  rfl

/-! ## One tick -/

/-- The track agrees with `N` up to the fork height and nowhere above it. -/
structure Forked (sha256d : Bytes → Hash32) (N : ServedChain) (t : BlockTrack) (fork : Nat) : Prop where
  lo_le : t.lo ≤ fork
  le_cursor : fork ≤ t.cursor
  agrees : ∀ (h : UInt64) b, t.item h.toNat = some b → (b.hash_le = N.hash sha256d h ↔ h.toNat ≤ fork)

theorem Forked.pop {N : ServedChain} {t : BlockTrack} {fork : Nat} (hf : Forked sha256d N t fork)
    (hlt : fork < t.cursor) (hne : t.items ≠ []) : Forked sha256d N t.pop fork := by
  have hcur := t.cursor_pop hne
  refine ⟨hf.lo_le, by omega, fun h b hb => hf.agrees h b ?_⟩
  rw [Track.item_pop] at hb
  split_ifs at hb
  exact hb

/-- A run of served blocks on top of an agreeing track agrees. -/
theorem Forked.extend {chain : AuxChain} {N : ServedChain} {t : BlockTrack} (hf : Forked sha256d N t t.cursor)
    {first last : UInt64} (hfirst : first.toNat = t.cursor + 1)
    (hbs : ((rangeInclusive first last).map (N.block sha256d chain)).IsChain Builds)
    (hjoin : ∀ a ∈ t.items.getLast?, ∀ b ∈ ((rangeInclusive first last).map (N.block sha256d chain)).head?, Builds a b)
    (n : Nat) : Forked sha256d N ((t.extend _ hbs hjoin).trim n) ((t.extend _ hbs hjoin).trim n).cursor := by
  refine ⟨Nat.le_add_right _ _, le_refl _, fun h b hb => ?_⟩
  refine iff_of_true ?_ (Track.item_bounds hb).2
  rw [Track.item_trim] at hb
  split_ifs at hb
  rw [Track.item_extend] at hb
  split_ifs at hb with hle
  · exact (hf.agrees h b hb).2 hle
  · rw [List.getElem?_map, Option.map_eq_some_iff] at hb
    obtain ⟨h', hget, rfl⟩ := hb
    have heq := getElem?_rangeInclusive hget
    have hsame : h' = h := UInt64.toNat_inj.1 (by omega)
    rw [hsame]
    rfl

theorem toNat_windowEnd (config : Config) (cur tip : UInt64) :
    (windowEnd config cur tip).toNat = min ((cur.toNat + config.max_batch.toNat) % 2 ^ 64) tip.toNat := by
  unfold windowEnd
  rw [min_def, min_def, ← UInt64.toNat_add]
  simp only [UInt64.le_iff_toNat_le]
  split_ifs <;> rfl

/-- When there is nothing to fetch below a tip: at the tip, and when the end of
the window has wrapped. -/
theorem windowEnd_idle {config : Config} {cur tip : UInt64} (hle : cur.toNat ≤ tip.toNat) :
    windowEnd config cur tip < saturatingAdd cur 1 ↔
      cur.toNat = tip.toNat ∨ 2 ^ 64 ≤ cur.toNat + config.max_batch.toNat := by
  have hmb := UInt64.le_iff_toNat_le.1 config.max_batch_pos
  have hmb' := config.max_batch.toNat_lt
  have htip := tip.toNat_lt
  have hone : (1 : UInt64).toNat = 1 := rfl
  rw [UInt64.lt_iff_toNat_lt, toNat_windowEnd, toNat_saturatingAdd]
  omega

section Served
variable {config : Config} {chain : AuxChain} {start : UInt64} {N : ServedChain} {t : Tick}

theorem Serves.window_mem {cur : UInt64} (hge : start ≤ cur) (hwin : saturatingAdd cur 1 ≤ windowEnd config cur N.tip) :
    ∀ h ∈ rangeInclusive (saturatingAdd cur 1) (windowEnd config cur N.tip), start < h ∧ h ≤ N.tip := by
  intro h hh
  have hfirst := windowEnd_room hwin
  obtain ⟨hlow, hhigh⟩ := mem_rangeInclusive.1 hh
  rw [UInt64.le_iff_toNat_le] at hlow hge
  exact ⟨UInt64.lt_iff_toNat_lt.2 (by omega), le_trans hhigh (min_le_right _ _)⟩

/-- Above the start height every window of the served chain is fetched. -/
theorem Serves.fetches (hs : Serves w sha256d chain start N t.electrs) {cur : UInt64} {cursor : Option UInt64}
    (hcur : cursor = some cur) (hge : start ≤ cur) (hle : cur ≤ N.tip)
    (hwin : saturatingAdd cur 1 ≤ windowEnd config cur N.tip) :
    t.Fetches config cursor cur
      ((rangeInclusive (saturatingAdd cur 1) (windowEnd config cur N.tip)).map N.fetched) := by
  have hmem := Serves.window_mem hge hwin
  refine ⟨hcur, N.tip, hs.tip, hle, hwin, ?_⟩
  refine fetchWindow_ok (fun h hh => hs.locators h (hmem h hh).1 (hmem h hh).2)
    (fun h hh => hs.wires h (hmem h hh).1 (hmem h hh).2) fun h hh => ?_
  obtain ⟨-, hparse, -⟩ := hs.passes h (hmem h hh).1 (hmem h hh).2
  obtain ⟨-, hlen, -⟩ := getRange_eq_some.1 (parseAuxpow_ok hparse).1
  exact hlen

/-- A window above a block that is not on the served chain is stale. -/
theorem Forked.walk_past (hs : Serves w sha256d chain start N t.electrs) {tr : BlockTrack} {fork : Nat}
    (hf : Forked sha256d N tr fork) (hpast : fork < tr.cursor) {cur : UInt64} (hat : cur.toNat = tr.cursor)
    (hlo : start.toNat ≤ tr.lo) (hwin : saturatingAdd cur 1 ≤ windowEnd config cur N.tip) :
    walk w sha256d chain (tr.items.getLast?.map (·.hash_le))
        ((rangeInclusive (saturatingAdd cur 1) (windowEnd config cur N.tip)).map N.fetched) =
      ([], some (saturatingSub (saturatingAdd cur 1) 1)) := by
  have hlofork := hf.lo_le
  have hge : start ≤ cur := UInt64.le_iff_toNat_le.2 (by omega)
  have habove : start < cur := UInt64.lt_iff_toNat_lt.2 (by omega)
  obtain ⟨b, hb⟩ := Track.exists_item (lt_of_le_of_lt hf.lo_le hpast) (le_refl _)
  have hstale : b.hash_le ≠ N.hash sha256d cur := by
    rw [← hat] at hb
    rw [Ne, hf.agrees cur b hb]
    omega
  rw [Track.item_cursor] at hb
  obtain ⟨rest, hwindow⟩ : ∃ rest, rangeInclusive (saturatingAdd cur 1) (windowEnd config cur N.tip) =
      saturatingAdd cur 1 :: rest := List.head?_eq_some_iff.1 (head?_rangeInclusive hwin)
  have hfirst := Serves.window_mem hge hwin (saturatingAdd cur 1) (by rw [hwindow]; exact List.mem_cons_self)
  have hnext := hs.next habove hfirst.2 (windowEnd_room hwin)
  rw [hwindow, hb, Option.map_some]
  exact walk_stale hs hfirst.1 hfirst.2 fun hbad => hstale (Subtype.ext (hbad.symm.trans hnext))

/-- A window above a track that agrees is accepted as a whole. -/
theorem Forked.walk_agreeing (hs : Serves w sha256d chain start N t.electrs) {tr : BlockTrack}
    (hf : Forked sha256d N tr tr.cursor) {cur : UInt64} (hat : cur.toNat = tr.cursor)
    (hlo : start.toNat ≤ tr.lo) (hwin : saturatingAdd cur 1 ≤ windowEnd config cur N.tip) :
    walk w sha256d chain (tr.items.getLast?.map (·.hash_le))
        ((rangeInclusive (saturatingAdd cur 1) (windowEnd config cur N.tip)).map N.fetched) =
      ((rangeInclusive (saturatingAdd cur 1) (windowEnd config cur N.tip)).map (N.block sha256d chain), none) := by
  have hlofork := hf.lo_le
  have hmem := Serves.window_mem (UInt64.le_iff_toNat_le.2 (by omega) : start ≤ cur) hwin
  have hhead := head?_rangeInclusive hwin
  refine walk_served hs hmem (isChain_rangeInclusive _ _) fun p hp h hh => ?_
  obtain rfl := Option.some.inj (hhead.symm.trans hh)
  rw [← Track.item_cursor, Option.mem_def, Option.map_eq_some_iff] at hp
  obtain ⟨b, hb, rfl⟩ := hp
  have hbounds := Track.item_bounds hb
  have habove : start < cur := UInt64.lt_iff_toNat_lt.2 (by omega)
  rw [← hat] at hb
  rw [(hf.agrees cur b hb).2 (le_of_eq hat),
    hs.next habove (hmem _ (List.mem_of_mem_head? hhead)).2 (windowEnd_room hwin)]

variable (hs : Serves w sha256d chain start N t.electrs) (ht : t.commits = .all)
  (hstart : config.startOf chain = some start)
include hs ht hstart

/-- A tick that fetches moves the track as the walk over the served window says. -/
theorem Serves.move {db : Database} (hopen : Opened db) {tr : BlockTrack} (htr : Tracks config db.ledger chain tr)
    {cur : UInt64} (hcur : db.ledger.cursorFrom config chain = some cur) (hle : cur ≤ N.tip)
    (hwin : saturatingAdd cur 1 ≤ windowEnd config cur N.tip) :
    let db' := (ingestChain w sha256d config chain t db).2
    ∃ tr', Opened db' ∧ Tracks config db'.ledger chain tr' ∧
      TickMove tr (walk w sha256d chain (tr.items.getLast?.map (·.hash_le))
        ((rangeInclusive (saturatingAdd cur 1) (windowEnd config cur N.tip)).map N.fetched)) tr' := by
  intro db'
  have hge : start ≤ cur := by
    have hlo := htr.started start hstart
    have hat := htr.at_cursor cur hcur
    unfold Track.cursor at hat
    exact UInt64.le_iff_toNat_le.2 (by omega)
  have hfetch := hs.fetches hcur hge hle hwin
  obtain ⟨hopen', below, -, hledger⟩ := @ingestChain_ledger config chain w sha256d t ht db hopen cur _ hfetch
  have hheights := fetchWindow_heights hfetch.2.choose_spec.2.2.2
  rw [Option.some.inj (hfetch.2.choose_spec.1.symm.trans hs.tip)] at hheights
  obtain ⟨tr', htr', hmove⟩ := @Tracks.tick config _ chain tr w sha256d htr cur N.tip _ hcur hwin hheights below
  rw [← hledger] at htr'
  rw [htr.prevHash hcur] at hmove
  exact ⟨tr', hopen', htr', hmove⟩

/-- A tick against the served chain moves cursor and fork as `chase` does. -/
theorem Forked.tick {db : Database} (hopen : Opened db) {tr : BlockTrack} (htr : Tracks config db.ledger chain tr)
    {fork : Nat} (hf : Forked sha256d N tr fork) (htip : tr.cursor ≤ N.tip.toNat) :
    let db' := (ingestChain w sha256d config chain t db).2
    ∃ tr' fork', Opened db' ∧ Tracks config db'.ledger chain tr' ∧ Forked sha256d N tr' fork' ∧
      (tr'.cursor, fork') = chase (2 ^ 64) config.max_batch.toNat N.tip.toNat (tr.cursor, fork) := by
  intro db'
  obtain ⟨cur, hcur⟩ : ∃ cur, db.ledger.cursorFrom config chain = some cur := by
    unfold Ledger.cursorFrom
    rw [hstart]
    cases db.ledger.cursor chain.chain_id <;> simp
  have hat := htr.at_cursor cur hcur
  have hlo := htr.started start hstart
  have hlofork := hf.lo_le
  have hle : cur ≤ N.tip := UInt64.le_iff_toNat_le.2 (hat ▸ htip)
  have hiff := @windowEnd_idle config cur N.tip (hat ▸ htip)
  unfold chase
  simp only
  by_cases hidle : tr.cursor = N.tip.toNat ∨ 2 ^ 64 ≤ tr.cursor + config.max_batch.toNat
  · rw [if_pos hidle]
    have hi : t.Idle config (db.ledger.cursorFrom config chain) :=
      .inr (.inr ⟨N.tip, cur, hs.tip, hcur, .inr (.inl (hiff.2 (by rwa [hat])))⟩)
    have hdb' : db' = registered sha256d chain db := (ingestChain_idle sha256d hopen
      (upsertChain_all sha256d ht hopen chain) hi).1
    obtain ⟨hopen', hledger⟩ := hopen.registered sha256d chain
    rw [hdb']
    exact ⟨tr, fork, hopen', by rw [hledger]; exact htr, hf, rfl⟩
  rw [if_neg hidle]
  have hwin : saturatingAdd cur 1 ≤ windowEnd config cur N.tip := by
    rw [← not_lt, hiff, hat]
    exact hidle
  obtain ⟨tr', hopen', htr', hmove⟩ := hs.move ht hstart hopen htr hcur hle hwin
  by_cases hpast : fork < tr.cursor
  · rw [if_pos hpast]
    rw [hf.walk_past hs hpast hat hlo hwin] at hmove
    have hne : tr.items ≠ [] := by
      intro hnil
      have hcursor : tr.cursor = tr.lo := by rw [Track.cursor, hnil, List.length_nil, Nat.add_zero]
      omega
    have hcur' := tr.cursor_pop hne
    cases hmove with
    | pop s _ => exact ⟨tr.pop, fork, hopen', htr', hf.pop hpast hne, by rw [← hcur']; rfl⟩
    | extend pending stale hnonempty => exact absurd rfl hnonempty
  · rw [if_neg hpast]
    obtain rfl : fork = tr.cursor := le_antisymm hf.le_cursor (not_lt.1 hpast)
    rw [hf.walk_agreeing hs hat hlo hwin] at hmove
    have hfirst := windowEnd_room hwin
    have hend := toNat_windowEnd config cur N.tip
    generalize hr : (rangeInclusive (saturatingAdd cur 1) (windowEnd config cur N.tip)).map (N.block sha256d chain) =
      pending at hmove
    cases hmove with
    | stay =>
      have hfirstmem := List.mem_of_mem_head? (head?_rangeInclusive hwin)
      rw [List.map_eq_nil_iff.1 hr] at hfirstmem
      cases hfirstmem
    | extend _ _ hnonempty hbs hjoin n =>
      subst hr
      have hlen : ((tr.extend _ hbs hjoin).trim n).cursor =
          min (tr.cursor + config.max_batch.toNat) N.tip.toNat := by
        rw [Track.cursor_trim, Track.cursor_extend, List.length_map, length_rangeInclusive, hfirst, hend, hat]
        omega
      refine ⟨_, _, hopen', htr', hf.extend (by rw [hfirst, hat]) hbs hjoin n, ?_⟩
      rw [hlen]

end Served

theorem Forked.run {config : Config} {chain : AuxChain} {start : UInt64} {N : ServedChain} {ts : Nat → Tick}
    (hs : ∀ i, Serves w sha256d chain start N (ts i).electrs) (ht : ∀ i, (ts i).commits = .all)
    (hstart : config.startOf chain = some start) {db : Database} (hopen : Opened db) {tr : BlockTrack}
    (htr : Tracks config db.ledger chain tr) {fork : Nat} (hf : Forked sha256d N tr fork) (htip : tr.cursor ≤ N.tip.toNat)
    (n : Nat) :
    let db' := runIngest w sha256d config db ((List.range n).map fun i => .tick chain (ts i))
    ∃ tr' fork', Opened db' ∧ Tracks config db'.ledger chain tr' ∧ Forked sha256d N tr' fork' ∧
      (tr'.cursor, fork') = (chase (2 ^ 64) config.max_batch.toNat N.tip.toNat)^[n] (tr.cursor, fork) := by
  induction n with
  | zero => exact ⟨tr, fork, hopen, htr, hf, rfl⟩
  | succ n ih =>
    intro db'
    obtain ⟨tr₁, fork₁, hopen₁, htr₁, hf₁, hchase₁⟩ := ih
    have hdb' : db' = (ingestChain w sha256d config chain (ts n)
        (runIngest w sha256d config db ((List.range n).map fun i => .tick chain (ts i)))).2 := by
      simp only [db', runIngest, List.range_succ, List.map_append, List.map_cons, List.map_nil, List.foldl_append,
        List.foldl_cons, List.foldl_nil, IngestOp.run]
    have hle := @chase_le (2 ^ 64) config.max_batch.toNat _ (tr.cursor, fork) htip n
    rw [← hchase₁] at hle
    obtain ⟨tr₂, fork₂, hopen₂, htr₂, hf₂, hchase₂⟩ := Forked.tick (hs n) (ht n) hstart hopen₁ htr₁ hf₁ hle
    rw [hdb']
    refine ⟨tr₂, fork₂, hopen₂, htr₂, hf₂, ?_⟩
    rw [hchase₂, hchase₁, Function.iterate_succ_apply']

/-! ## The fork -/

/-- Below a height at which the store agrees with `N` it agrees with `N`: each
stored block names the one below it. -/
theorem Tracks.agrees_below {config : Config} {chain : AuxChain} {start : UInt64} {N : ServedChain}
    {electrs : ElectrsClient} (hs : Serves w sha256d chain start N electrs) (hstart : config.startOf chain = some start)
    {L : Ledger} {t : BlockTrack} (h : Tracks config L chain t) (htip : t.cursor ≤ N.tip.toNat)
    (hhash : ∀ hh b, L.blocks.get? ⟨chain.chain_id, hh⟩ = some b → b.hash_le = sha256d b.header.raw)
    (hcoll : ∀ hh b, L.blocks.get? ⟨chain.chain_id, hh⟩ = some b → sha256d b.header.raw = N.hash sha256d hh →
      b.header.raw = (N.base hh).val)
    {fork : UInt64} {b : StoredBlock} (hb : t.item fork.toNat = some b) (hbf : b.hash_le = N.hash sha256d fork)
    (n : Nat) {hh : UInt64} (hn : hh.toNat + n = fork.toNat) {b' : StoredBlock} (hb' : t.item hh.toNat = some b') :
    b'.hash_le = N.hash sha256d hh := by
  induction n generalizing hh b' with
  | zero =>
    obtain rfl : hh = fork := UInt64.toNat_inj.1 hn
    rw [hb] at hb'
    cases hb'
    exact hbf
  | succ n ih =>
    have hlo := h.started start hstart
    have hbounds := Track.item_bounds hb'
    have hcur := (Track.item_bounds hb).2
    have hfork := fork.toNat_lt
    obtain ⟨up, hup⟩ : ∃ up : UInt64, up.toNat = hh.toNat + 1 := ⟨UInt64.ofNat (hh.toNat + 1),
      UInt64.toNat_ofNat_of_lt' (by show _ < 2 ^ 64; omega)⟩
    obtain ⟨above, habove⟩ := Track.exists_item (t := t) (h := up.toNat) (by omega) (by omega)
    have hagrees : above.hash_le = N.hash sha256d up := ih (by omega) habove
    have hstored := (h.blocks up).trans habove
    have hraw := hcoll up above hstored ((hhash up above hstored).symm.trans hagrees)
    have hlink : Builds b' above := Track.link_item hb' (hup ▸ habove)
    have hnext := @Serves.next _ _ _ _ _ _ hs hh up (UInt64.lt_iff_toNat_lt.2 (by omega))
      (UInt64.le_iff_toNat_le.2 (by omega)) hup
    have hheader : above.header.prevHash = (BlockHeader.mk (N.base up).val none).prevHash := by
      unfold BlockHeader.prevHash
      rw [hraw]
    exact (hlink.symm.trans hheader).trans (prevHash_eq_iff.2 hnext)

theorem IsFork.forked {config : Config} {chain : AuxChain} {start : UInt64} {N : ServedChain} {electrs : ElectrsClient}
    (hs : Serves w sha256d chain start N electrs) (hstart : config.startOf chain = some start)
    {L : Ledger} {t : BlockTrack} (h : Tracks config L chain t) (htip : t.cursor ≤ N.tip.toNat)
    (hhash : ∀ hh b, L.blocks.get? ⟨chain.chain_id, hh⟩ = some b → b.hash_le = sha256d b.header.raw)
    (hcoll : ∀ hh b, L.blocks.get? ⟨chain.chain_id, hh⟩ = some b → sha256d b.header.raw = N.hash sha256d hh →
      b.header.raw = (N.base hh).val)
    {cur fork : UInt64} (hcur : cur.toNat = t.cursor) (hfork : IsFork sha256d L chain.chain_id N cur fork) :
    Forked sha256d N t fork.toNat := by
  have hbelow : ∀ {hh : UInt64} {b}, t.item hh.toNat = some b → hh ≤ cur := fun hb =>
    UInt64.le_iff_toNat_le.2 (hcur ▸ (Track.item_bounds hb).2)
  rcases hfork with ⟨⟨b, hb, hbf⟩, hle, habove⟩ | ⟨hnone, low, b, hlow, hleast, hnext⟩ | ⟨hempty, rfl⟩
  · rw [h.blocks] at hb
    have hbounds := Track.item_bounds hb
    refine ⟨hbounds.1.le, hbounds.2, fun hh b' hb' => ?_⟩
    rcases le_or_gt hh.toNat fork.toNat with hin | hout
    · refine iff_of_true ?_ hin
      exact h.agrees_below hs hstart htip hhash hcoll hb hbf (fork.toNat - hh.toNat) (by omega) hb'
    · refine iff_of_false (habove hh b' (UInt64.lt_iff_toNat_lt.2 hout) (hbelow hb') ?_) (not_le.2 hout)
      rw [h.blocks, hb']
  · rw [h.blocks] at hlow
    have hbounds := Track.item_bounds hlow
    refine ⟨by omega, by omega, fun hh b' hb' => ?_⟩
    have hstored := (h.blocks hh).trans hb'
    have hge := UInt64.le_iff_toNat_le.1 (hleast hh b' hstored)
    exact iff_of_false (hnone hh b' (hbelow hb') hstored) (by omega)
  · refine ⟨?_, hcur.le, fun hh b' hb' => ?_⟩
    · unfold Track.cursor at hcur
      omega
    · have hstored := (h.blocks hh).trans hb'
      rw [hempty] at hstored
      cases hstored

/-! ## Recovery -/

variable (w sha256d)

/-- From any state a run leaves, with the cursor below the tip of the served
chain, ticks against the endpoint reach its tip in one step for each block to
drop and one for each batch to fetch, exactly if no window of the way ends
beyond the 64-bit heights. -/
theorem ingest_recovers (config : Config) (db₀ : Database) (ops : List IngestOp)
    (hopen : openDb sha256d Redb.empty = .ok db₀) (hops : ∀ op ∈ ops, op.Committed config)
    (chain : AuxChain) (hchain : chain ∈ config.chains) (start : UInt64) (hstart : config.startOf chain = some start)
    (N : ServedChain) (electrs : ElectrsClient) (hs : Serves w sha256d chain start N electrs)
    (ts : Nat → Tick) (hts : ∀ i, (ts i).electrs = electrs ∧ (ts i).commits = .all) (cur fork : UInt64) :
    let db := runIngest w sha256d config db₀ ops
    let after := fun n => runIngest w sha256d config db ((List.range n).map fun i => .tick chain (ts i))
    db.ledger.cursorFrom config chain = some cur → cur < N.tip →
    (∀ h b, db.redb.aux_blocks.get? ⟨chain.chain_id, h⟩ = some b → sha256d b.header.raw = N.hash sha256d h →
      b.header.raw = (N.base h).val) →
    IsFork sha256d db.ledger chain.chain_id N cur fork →
    ((∃ n ≤ (cur.toNat - fork.toNat) + batches config.max_batch.toNat N.tip.toNat fork.toNat,
        (after n).cursorOf chain.chain_id = some N.tip ∧
        ∀ h b, (after n).redb.aux_blocks.get? ⟨chain.chain_id, h⟩ = some b → b.hash_le = N.hash sha256d h) ↔
      cur.toNat + config.max_batch.toNat < 2 ^ 64 ∧
        fork.toNat + batches config.max_batch.toNat N.tip.toNat fork.toNat * config.max_batch.toNat < 2 ^ 64) := by
  intro db after hcur hlt hcoll hfork
  obtain ⟨htracked, hrows⟩ := ingest_invariant w sha256d config db₀ ops hopen hops
  obtain ⟨tr, htr⟩ := htracked.tracks chain hchain
  have hat := htr.at_cursor cur hcur
  have hlt' := UInt64.lt_iff_toNat_lt.1 hlt
  have htip : tr.cursor ≤ N.tip.toNat := by omega
  have hhash : ∀ hh b, db.ledger.blocks.get? ⟨chain.chain_id, hh⟩ = some b → b.hash_le = sha256d b.header.raw := by
    intro hh b hb
    obtain ⟨-, chain', -, hver⟩ := hrows _ b (.inr hb)
    exact hver.headerValid.1
  have hf := hfork.forked hs hstart htr htip hhash hcoll hat
  have hrun := Forked.run (fun i => (hts i).1.symm ▸ hs) (fun i => (hts i).2) hstart htracked.opened htr hf htip
  have hmb := UInt64.le_iff_toNat_le.1 config.max_batch_pos
  have hfork' := hf.le_cursor
  rw [← hat] at hrun hfork'
  constructor
  · rintro ⟨n, -, hcursor, -⟩
    obtain ⟨tr', fork', -, htr', -, hchase⟩ := hrun n
    have hat' : N.tip.toNat = tr'.cursor := htr'.at_cursor N.tip (by
      unfold Ledger.cursorFrom
      rw [show (after n).ledger.cursor chain.chain_id = _ from hcursor, Option.some_or])
    refine chase_room hmb N.tip.toNat_lt.le hlt' hfork' (n := n) ?_
    rw [← hchase, hat']
  · rintro ⟨hroom, hend⟩
    refine ⟨_, le_refl _, ?_⟩
    obtain ⟨tr', fork', -, htr', hf', hchase⟩ :=
      hrun (cur.toNat - fork.toNat + batches config.max_batch.toNat N.tip.toNat fork.toNat)
    rw [chase_reaches hmb N.tip.toNat_lt.le hlt' hfork' hroom hend] at hchase
    obtain ⟨hcur', rfl⟩ := Prod.mk.inj hchase
    constructor
    · -- the start height is below the tip, so it is the stored cursor that got there
      have hbelow : start.toNat < N.tip.toNat := by
        have hlo := htr.started start hstart
        unfold Track.cursor at hat
        omega
      have hfrom := htr'.at_cursor
      unfold Ledger.cursorFrom at hfrom
      cases hcursor : (after (cur.toNat - fork.toNat + batches config.max_batch.toNat N.tip.toNat fork.toNat)).cursorOf
          chain.chain_id with
      | none =>
        have hstarted := hfrom start (by
          rw [show Ledger.cursor _ chain.chain_id = _ from hcursor, hstart, Option.none_or])
        omega
      | some c =>
        have hc := hfrom c (by rw [show Ledger.cursor _ chain.chain_id = _ from hcursor, Option.some_or])
        rw [UInt64.toNat_inj.1 (hc.trans hcur')]
    · intro h b hb
      have hitem := (htr'.blocks h).symm.trans hb
      refine (hf'.agrees h b hitem).2 ?_
      exact hcur' ▸ (Track.item_bounds hitem).2

end Sha

/-! ## A reorg of one block -/

/-- The chain of the two sample blocks. -/
def sampleServed : ServedChain where
  tip := 2
  base h := if h = 1 then sampleBase₁ else sampleBase₂
  aux h := if h = 1 then sampleAux sampleId₁ sampleTxid₁ else sampleAux sampleId₂ sampleTxid₂
  wire h := if h = 1 then sampleWire (ByteArr.fill 32 0) sampleId₁ sampleTxid₁ else sampleWire sampleId₁ sampleId₂ sampleTxid₂
  locator h := hashDisplay (if h = 1 then sampleId₁ else sampleId₂)

theorem serves_sample : Serves 64 sampleSha sampleChain 0 sampleServed sampleElectrs where
  tip := rfl
  linked h hpos hlt := by
    have hone : h = 1 := by
      rw [UInt64.lt_iff_toNat_lt] at hpos hlt
      have h₂ : sampleServed.tip.toNat = 2 := rfl
      have h₀ : (0 : UInt64).toNat = 0 := rfl
      exact UInt64.toNat_inj.1 (by show _ = 1; omega)
    subst hone
    decide +kernel
  locators h _ _ := rfl
  wires h _ _ := rfl
  passes h _ _ := by
    unfold ServedChain.fetched sampleServed
    by_cases hone : h = 1
    · simp only [hone, if_true]
      exact passes_sample₁ 1
    · simp only [hone, if_false]
      exact passes_sample₂ h

/-- A store with one block of chain 63, all of whose rows are at height 1. -/
theorem sample_height_one {config : Config} {db : Database} (h : Tracked config db) (hchain : sampleChain ∈ config.chains)
    (hcur : db.ledger.cursorFrom config sampleChain = some 1) {hh : UInt64} {b : StoredBlock}
    (hb : db.redb.aux_blocks.get? ⟨63, hh⟩ = some b) : hh = 1 := by
  obtain ⟨t, ht⟩ := h.tracks sampleChain hchain
  have hat := ht.at_cursor 1 hcur
  have hitem := (ht.blocks hh).symm.trans hb
  have hbounds := Track.item_bounds hitem
  have hone : (1 : UInt64).toNat = 1 := rfl
  exact UInt64.toNat_inj.1 (by omega)

/-- An endpoint that serves the second sample block first. -/
def staleElectrs : ElectrsClient where
  tipHeight := some 1
  blockHashAt _ := some (hashDisplay sampleId₂)
  headerBytes _ _ := some (sampleWire sampleId₁ sampleId₂ sampleTxid₂)

def staleStore : Database := runIngest 64 sampleSha sampleConfig freshDb [.tick sampleChain (sampleTick staleElectrs)]

theorem staleStore_state :
    staleStore.ledger.cursorFrom sampleConfig sampleChain = some 1 ∧
      (staleStore.redb.aux_blocks.get? ⟨63, 1⟩).map (fun b => (b.hash_le, b.header.raw)) =
        some (sampleId₂, sampleRaw sampleId₁) := by
  decide +kernel

/-- One tick drops the block, the next one fetches both sample blocks. -/
theorem ingest_recovers_stale :
    ∃ n ≤ 2, (runIngest 64 sampleSha sampleConfig staleStore
      ((List.range n).map fun _ => .tick sampleChain (sampleTick sampleElectrs))).cursorOf 63 = some 2 := by
  have hops : ∀ op ∈ [IngestOp.tick sampleChain (sampleTick staleElectrs)], op.Committed sampleConfig := by
    intro op hop
    rw [List.mem_singleton.1 hop]
    exact ⟨List.mem_cons_self, rfl⟩
  have htracked := (ingest_invariant 64 sampleSha sampleConfig freshDb _ rfl hops).1
  have hstore : runIngest 64 sampleSha sampleConfig freshDb [.tick sampleChain (sampleTick staleElectrs)] = staleStore := rfl
  rw [hstore] at htracked
  obtain ⟨hcur, hrow⟩ := staleStore_state
  obtain ⟨b, hb, hval⟩ := Option.map_eq_some_iff.1 hrow
  obtain ⟨hhash, hraw⟩ := Prod.mk.inj hval
  have hne : sampleId₂ ≠ sampleId₁ := by decide +kernel
  have hstale : ∀ h b', staleStore.redb.aux_blocks.get? ⟨63, h⟩ = some b' → h = 1 ∧ b' = b := by
    intro h b' hb'
    obtain rfl := sample_height_one htracked List.mem_cons_self hcur hb'
    exact ⟨rfl, Option.some.inj (hb'.symm.trans hb)⟩
  have hcoll : ∀ h b', staleStore.redb.aux_blocks.get? ⟨63, h⟩ = some b' →
      sampleSha b'.header.raw = sampleServed.hash sampleSha h → b'.header.raw = (sampleServed.base h).val := by
    intro h b' hb' hsame
    obtain ⟨rfl, rfl⟩ := hstale h b' hb'
    rw [hraw] at hsame
    exact absurd hsame (by decide +kernel)
  have hfork : IsFork sampleSha staleStore.ledger 63 sampleServed 1 0 := by
    unfold IsFork
    rw [ledger_blocks]
    refine .inr (.inl ⟨fun h b' _ hb' => ?_, 1, b, hb, fun h b' hb' => ?_, rfl⟩)
    · obtain ⟨rfl, rfl⟩ := hstale h b' hb'
      rw [hhash]
      exact hne
    · rw [(hstale h b' hb').1]
  have htip : (1 : UInt64) < 2 := by decide
  have hrecovers := ingest_recovers 64 sampleSha sampleConfig freshDb _ rfl hops sampleChain List.mem_cons_self 0 rfl
    sampleServed sampleElectrs serves_sample (fun _ => sampleTick sampleElectrs) (fun _ => ⟨rfl, rfl⟩) 1 0
  rw [hstore] at hrecovers
  obtain ⟨n, hn, hcursor, -⟩ := (hrecovers hcur htip hcoll hfork).2 ⟨by decide, by decide⟩
  exact ⟨n, hn, hcursor⟩

/-! ## A batch without a bound -/

/-- The largest batch the setting can name. -/
def unboundedConfig : Config := ⟨[sampleChain], u64Max, none, none, sampleChain_nodup, by decide⟩

def unboundedStore : Database :=
  runIngest 64 sampleSha unboundedConfig freshDb [.tick sampleChain (sampleTick { sampleElectrs with tipHeight := some 1 })]

/-- With it the end of the window wraps at every height above 0: the second
block is never fetched. -/
theorem unbounded_batch_stuck :
    Serves 64 sampleSha sampleChain 0 sampleServed sampleElectrs ∧
    unboundedStore.ledger.cursorFrom unboundedConfig sampleChain = some 1 ∧
    IsFork sampleSha unboundedStore.ledger 63 sampleServed 1 1 ∧
    (∀ h b, unboundedStore.redb.aux_blocks.get? ⟨63, h⟩ = some b →
      sampleSha b.header.raw = sampleServed.hash sampleSha h → b.header.raw = (sampleServed.base h).val) ∧
    ∀ n, (runIngest 64 sampleSha unboundedConfig unboundedStore
      ((List.range n).map fun _ => .tick sampleChain (sampleTick sampleElectrs))).cursorOf 63 ≠ some 2 := by
  have hops : ∀ op ∈ [IngestOp.tick sampleChain (sampleTick { sampleElectrs with tipHeight := some 1 })],
      op.Committed unboundedConfig := by
    intro op hop
    rw [List.mem_singleton.1 hop]
    exact ⟨List.mem_cons_self, rfl⟩
  have htracked : Tracked unboundedConfig unboundedStore :=
    (ingest_invariant 64 sampleSha unboundedConfig freshDb _ rfl hops).1
  have hstate : unboundedStore.ledger.cursorFrom unboundedConfig sampleChain = some 1 ∧
      (unboundedStore.redb.aux_blocks.get? ⟨63, 1⟩).map (fun b => (b.hash_le, b.header.raw)) =
        some (sampleId₁, sampleRaw (ByteArr.fill 32 0)) := by
    decide +kernel
  obtain ⟨hcur, hrow⟩ := hstate
  obtain ⟨b, hb, hval⟩ := Option.map_eq_some_iff.1 hrow
  obtain ⟨hhash, hraw⟩ := Prod.mk.inj hval
  have hone : ∀ h b', unboundedStore.redb.aux_blocks.get? ⟨63, h⟩ = some b' → h = 1 ∧ b' = b := by
    intro h b' hb'
    obtain rfl := sample_height_one htracked List.mem_cons_self hcur hb'
    exact ⟨rfl, Option.some.inj (hb'.symm.trans hb)⟩
  obtain ⟨t, ht⟩ := htracked.tracks sampleChain List.mem_cons_self
  have hat : 1 = t.cursor := ht.at_cursor 1 hcur
  have hid : sampleChain.chain_id = 63 := rfl
  have hblocks := ht.blocks
  rw [ledger_blocks, hid] at hblocks
  have hitem := (hblocks 1).symm.trans hb
  have hagrees : b.hash_le = sampleServed.hash sampleSha 1 := hhash.trans (by decide +kernel)
  have hf : Forked sampleSha sampleServed t 1 := by
    refine ⟨(Track.item_bounds hitem).1.le, hat.le, fun h b' hb' => ?_⟩
    obtain ⟨rfl, rfl⟩ := hone h b' ((hblocks h).trans hb')
    exact iff_of_true hagrees (le_refl _)
  have hfork : IsFork sampleSha unboundedStore.ledger 63 sampleServed 1 1 := by
    unfold IsFork
    rw [ledger_blocks]
    exact .inl ⟨⟨b, hb, hagrees⟩, le_refl _, fun h b' hlt hle => absurd hle (not_le.2 hlt)⟩
  refine ⟨serves_sample, hcur, hfork, ?_, ?_⟩
  · intro h b' hb' _
    obtain ⟨rfl, rfl⟩ := hone h b' hb'
    exact hraw
  · intro n hcursor
    have htip : t.cursor ≤ sampleServed.tip.toNat := by
      rw [← hat]
      exact (by decide : 1 ≤ 2)
    obtain ⟨t', fork', -, ht', -, hchase⟩ := @Forked.run 64 sampleSha unboundedConfig sampleChain 0 sampleServed
      (fun _ => sampleTick sampleElectrs) (fun _ => serves_sample) (fun _ => rfl) rfl unboundedStore htracked.opened t ht 1 hf
      htip n
    have hbatch : unboundedConfig.max_batch.toNat = 2 ^ 64 - 1 := rfl
    rw [chase_stuck (by simp only [← hat, hbatch]; omega)] at hchase
    have hat' := ht'.at_cursor 2 (by
      unfold Ledger.cursorFrom
      rw [show Ledger.cursor _ sampleChain.chain_id = _ from hcursor, Option.some_or])
    rw [(Prod.mk.inj hchase).1, ← hat] at hat'
    cases hat'

end PsobIndexer
