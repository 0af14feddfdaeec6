import PsobIndexer.Ingest
/-!
# Announcing what was ingested (`chain_loop` in `src/ingest.rs`)

After a tick, the loop of a chain gossips the tip of its batch and the sibling
group of every parent the tick put on mainnet. The loops of all chains share the
store and the set of parents that were tried. A tick waits for its endpoint, for the
explorer and for room in the channel of each message, and other ticks go on
meanwhile, on other threads also between two of its uses of what is shared.
`LoopStep` cuts a tick at all of these but the first: until its blocks are inserted
a tick reads what is its chain's own. `tick_alone` puts the pieces together again.
-/
open Lib

namespace PsobIndexer

open Database

/-! ## Announcements -/

/-- A message on `/psob/headers/v1` or `/psob/siblings/v1`. -/
inductive Announcement where
  | header (chain_id : UInt32) (height : UInt64) (block_hash parent_hash : String) (ltc_height : Option UInt64)
      (auxpow_hex : String)
  | sibling (parent_hash : String) (ltc_height : UInt64) (legs : List (UInt32 × UInt64 × String))
  deriving DecidableEq

/-- What the loops of all chains share: the store, the parents already gossiped
on `/psob/siblings/v1`, and what was sent so far. -/
structure Gossip where
  db : Database
  announced : KMap Hash32 Unit
  sent : List Announcement

section Sha
variable (w : Nat) (sha256d : Bytes → Hash32)

/-- The message about the tallest block of a batch. -/
def tipMessage (db : Database) (chain : AuxChain) (blocks : List StoredBlock) : Option Announcement × Database :=
  match blocks.getLast? with
  | none => (none, db)
  | some head =>
    -- stored blocks always carry auxpow
    match head.parentHash sha256d with
    | none => (none, db)
    | some parent =>
      let (info, db) := db.getParent parent
      (some (.header chain.chain_id head.height (hashDisplay head.hash_le) (hashDisplay parent) (info.bind (·.ltc_height))
        head.wire_hex), db)

/-- Gossip the tallest block of the batch. -/
def announceBatchTip (p2p : Bool) (g : Gossip) (chain : AuxChain) (blocks : List StoredBlock) : Gossip :=
  if ¬ p2p then g
  else
    let (msg, db) := tipMessage sha256d g.db chain blocks
    { g with db := db, sent := g.sent ++ msg.toList }

/-- The message about a parent's blocks, if they are of two chains. -/
def groupMessage (db : Database) (parent : Hash32) (ltc_height : UInt64) : Option Announcement :=
  let siblings := db.siblingsForParent parent
  let chains := legsByChain siblings
  if chains.size < 2 then none
  else
    let legs := (siblings.filter (fun s => (chains.get? s.chain_id).any (· = s.height))).map
      (fun s => (s.chain_id, s.height, hashDisplay s.hash_le))
    some (.sibling (hashDisplay parent) ltc_height legs)

/-- Gossip a newly discovered sibling group, once for each parent. -/
def announceSiblingGroup (p2p : Bool) (g : Gossip) (parent : Hash32) : Gossip :=
  if ¬ p2p then g
  else if g.announced.contains parent then g
  else
    let (info, db) := g.db.getParent parent
    let g := { g with db := db, announced := g.announced.insert parent () }
    match info.bind (·.ltc_height) with
    | none => g
    | some ltc_height => { g with sent := g.sent ++ (groupMessage g.db parent ltc_height).toList }

def announceBatch (p2p : Bool) (g : Gossip) (chain : AuxChain) (batch : IngestBatch) : Gossip :=
  batch.new_mainnet_parents.foldl (announceSiblingGroup p2p) (announceBatchTip sha256d p2p g chain batch.blocks)

theorem announceBatch_nil (p2p : Bool) (g : Gossip) (chain : AuxChain) :
    announceBatch sha256d p2p g chain ⟨[], []⟩ = g := by
  unfold announceBatch announceBatchTip tipMessage
  simp

/-- One turn of a chain's loop. -/
def chainTick (p2p : Bool) (config : Config) (chain : AuxChain) (t : Tick) (g : Gossip) : Gossip :=
  match ingestChain w sha256d config chain t g.db with
  | (.error _, db) => { g with db := db }
  | (.ok batch, db) => announceBatch sha256d p2p { g with db := db } chain batch

/-! ## A tick up to its classifications -/

/-- A fetched window up to the writes of its blocks. -/
def storeFetched (config : Config) (chain : AuxChain) (t : Tick) (db : Database) (cursor : UInt64)
    (fetched : List Fetched) : Except IngestError (List StoredBlock) × Database :=
  let (prev_hash, db) := prevHashAt db chain.chain_id cursor
  let (pending, stale) := walk w sha256d chain prev_hash fetched
  match rollbackStale sha256d t.commits db chain.chain_id stale with
  | (.error e, db) => (.error (.db e), db)
  | (.ok (), db) =>
    match storePending sha256d config t.commits db chain.chain_id pending with
    | (.error e, db) => (.error (.db e), db)
    | (.ok (), db) => (.ok pending, db)

/-- A tick up to the writes of its blocks, `none` if it has no window to fetch. -/
def storeChain (config : Config) (chain : AuxChain) (t : Tick) (db : Database) :
    Except IngestError (Option (List StoredBlock)) × Database :=
  match db.upsertChain t.commits.upsert chain.chain_id chain.name chain.electrs with
  | (.error e, db) => (.error (.db e), db)
  | (.ok (), db) =>
    match t.electrs.tipHeight with
    | none => (.error .tipHeight, db)
    | some tip_height =>
      let (cursor, db) := db.cursorHeight chain.chain_id
      match cursor.or (config.startOf chain) with
      | none => (.error (.noStart chain.name chain.chain_id), db)
      | some cursor =>
        if cursor > tip_height then (.ok none, db)
        else
          let start := saturatingAdd cursor 1
          let last := windowEnd config cursor tip_height
          if start > last then (.ok none, db)
          else match fetchWindow t.electrs (rangeInclusive start last) with
            | .error e => (.error e, db)
            | .ok fetched =>
              match storeFetched w sha256d config chain t db cursor fetched with
              | (.error e, db) => (.error e, db)
              | (.ok pending, db) => (.ok (some pending), db)

/-- The rest of a tick. -/
theorem ingestChain_eq (config : Config) (chain : AuxChain) (t : Tick) (db : Database) :
    ingestChain w sha256d config chain t db =
      match storeChain w sha256d config chain t db with
      | (.error e, db) => (.error e, db)
      | (.ok none, db) => (.ok ⟨[], []⟩, db)
      | (.ok (some pending), db) =>
        match classifyPendingParents t.resolver t.net t.commits.classify t.iter db with
        | (.error e, db) => (.error (.db e), db)
        | (.ok new_mainnet, db) => (.ok ⟨pending, new_mainnet⟩, db) := by
  unfold ingestChain storeChain
  cases db.upsertChain t.commits.upsert chain.chain_id chain.name chain.electrs with
  | mk r db =>
    cases r with
    | error e => rfl
    | ok u =>
      cases t.electrs.tipHeight with
      | none => rfl
      | some tip =>
        simp only
        cases (db.cursorHeight chain.chain_id).1.or (config.startOf chain) with
        | none => rfl
        | some cursor =>
          simp only
          split_ifs
          · rfl
          · rfl
          · cases fetchWindow t.electrs (rangeInclusive (saturatingAdd cursor 1) (windowEnd config cursor tip)) with
            | error e => rfl
            | ok fetched =>
              unfold ingestFetched storeFetched
              simp only
              -- a failed write ends both alike
              generalize rollbackStale sha256d t.commits _ chain.chain_id _ = rolled
              obtain ⟨e | u, db⟩ := rolled
              · rfl
              · simp only
                generalize storePending sha256d config t.commits db chain.chain_id _ = stored
                obtain ⟨e | u, db⟩ := stored <;> rfl

/-! ## Ticks that overlap -/

/-- Where the loop of a chain is. -/
inductive TaskPhase where
  | idle
  | stored (blocks : List StoredBlock)
  /-- Waiting for the explorer. -/
  | resolving (blocks : List StoredBlock) (parents : List Hash32)
  /-- Recording what is left of its answers. -/
  | classifying (blocks : List StoredBlock) (answers : List (Hash32 × Option UInt64)) (new_mainnet : List Hash32)
  /-- Waiting for room in the channel, with groups left to announce. -/
  | sending (msg : Announcement) (parents : List Hash32)
  | announcing (parents : List Hash32)
  /-- About to look up a parent that it is the first to try. -/
  | trying (parent : Hash32) (parents : List Hash32)
  /-- About to read the blocks of the parent. -/
  | counting (parent : Hash32) (ltc_height : UInt64) (parents : List Hash32)

structure Loops extends Gossip where
  phase : UInt32 → TaskPhase

def Loops.setPhase (s : Loops) (g : Gossip) (c : UInt32) (p : TaskPhase) : Loops := ⟨g, Function.update s.phase c p⟩

/-- The next piece of a chain's tick, with what it finds outside. -/
structure LoopStep where
  chain : AuxChain
  t : Tick

/-- One piece of a tick: fetch, walk and store; take the unprobed parents; hear the
explorer; record one answer; send a message; try, look up or count one group. -/
def LoopStep.run (p2p : Bool) (config : Config) (s : Loops) (step : LoopStep) : Loops :=
  let c := step.chain.chain_id
  match s.phase c with
  | .idle =>
    match storeChain w sha256d config step.chain step.t s.db with
    | (.ok (some blocks), db) => s.setPhase { s.toGossip with db := db } c (.stored blocks)
    | (_, db) => s.setPhase { s.toGossip with db := db } c .idle
  | .stored blocks => s.setPhase s.toGossip c (.resolving blocks (s.db.unclassifiedParents step.t.iter))
  | .resolving blocks parents =>
    s.setPhase s.toGossip c
      (.classifying blocks (parents.map (fun p => (p, (step.t.resolver.resolve (step.t.net p) p).1))) [])
  | .classifying blocks ((parent, ltc_height) :: answers) new_mainnet =>
    match s.db.classifyParent (step.t.commits.classify parent) parent ltc_height with
    | (.error _, db) => s.setPhase { s.toGossip with db := db } c .idle
    | (.ok (), db) =>
      s.setPhase { s.toGossip with db := db } c
        (.classifying blocks answers (if ltc_height.isSome then new_mainnet ++ [parent] else new_mainnet))
  | .classifying blocks [] new_mainnet =>
    if ¬ p2p then s.setPhase s.toGossip c (.announcing new_mainnet)
    else
      match tipMessage sha256d s.db step.chain blocks with
      | (none, db) => s.setPhase { s.toGossip with db := db } c (.announcing new_mainnet)
      | (some msg, db) => s.setPhase { s.toGossip with db := db } c (.sending msg new_mainnet)
  | .sending msg parents => s.setPhase { s.toGossip with sent := s.sent ++ [msg] } c (.announcing parents)
  | .announcing [] => s.setPhase s.toGossip c .idle
  | .announcing (parent :: parents) =>
    if ¬ p2p ∨ s.announced.contains parent then s.setPhase s.toGossip c (.announcing parents)
    else s.setPhase { s.toGossip with announced := s.announced.insert parent () } c (.trying parent parents)
  | .trying parent parents =>
    let (info, db) := s.db.getParent parent
    match info.bind (·.ltc_height) with
    | none => s.setPhase { s.toGossip with db := db } c (.announcing parents)
    | some ltc_height => s.setPhase { s.toGossip with db := db } c (.counting parent ltc_height parents)
  | .counting parent ltc_height parents =>
    match groupMessage s.db parent ltc_height with
    | none => s.setPhase s.toGossip c (.announcing parents)
    | some msg => s.setPhase s.toGossip c (.sending msg parents)

def runLoops (p2p : Bool) (config : Config) (s : Loops) (steps : List LoopStep) : Loops :=
  steps.foldl (LoopStep.run w sha256d p2p config) s

@[simp] theorem Loops.setPhase_toGossip (s : Loops) (g : Gossip) (c : UInt32) (p : TaskPhase) :
    (s.setPhase g c p).toGossip = g := rfl

@[simp] theorem Loops.setPhase_self (s : Loops) (g : Gossip) (c : UInt32) (p : TaskPhase) :
    (s.setPhase g c p).phase c = p := by
  unfold setPhase
  exact Function.update_self c p s.phase

/-! ## A tick alone -/

/-- Some more pieces of the tick end it and leave `g`. -/
def Ends (p2p : Bool) (config : Config) (step : LoopStep) (s : Loops) (g : Gossip) : Prop :=
  ∃ n, (runLoops w sha256d p2p config s (List.replicate n step)).toGossip = g ∧
    (runLoops w sha256d p2p config s (List.replicate n step)).phase step.chain.chain_id = .idle

variable {w sha256d} {p2p : Bool} {config : Config} {step : LoopStep} {s : Loops}

theorem Ends.next {g : Gossip} (h : Ends w sha256d p2p config step (step.run w sha256d p2p config s) g) :
    Ends w sha256d p2p config step s g := by
  obtain ⟨n, hn⟩ := h
  exact ⟨n + 1, hn⟩

theorem ends_idle (h : s.phase step.chain.chain_id = .idle) : Ends w sha256d p2p config step s s.toGossip := ⟨0, rfl, h⟩

/-- The groups that are left are announced one after another. -/
theorem ends_announcing {parents : List Hash32} (h : s.phase step.chain.chain_id = .announcing parents) :
    Ends w sha256d p2p config step s (parents.foldl (announceSiblingGroup p2p) s.toGossip) := by
  induction parents generalizing s with
  | nil =>
    refine .next ?_
    unfold LoopStep.run
    simp only [h]
    exact ends_idle (s.setPhase_self s.toGossip step.chain.chain_id .idle)
  | cons parent parents ih =>
    rw [List.foldl_cons]
    refine .next ?_
    unfold LoopStep.run announceSiblingGroup
    simp only [h]
    by_cases hskip : ¬ p2p = true ∨ s.announced.contains parent = true
    · rw [if_pos hskip]
      rcases hskip with hp2p | hann
      · rw [if_pos hp2p]
        exact ih (Loops.setPhase_self ..)
      · rw [if_pos hann, ite_self]
        exact ih (Loops.setPhase_self ..)
    · rw [if_neg hskip]
      obtain ⟨hp2p, hann⟩ := not_or.1 hskip
      rw [if_neg hp2p, if_neg hann]
      refine .next ?_
      unfold LoopStep.run
      simp only [Loops.setPhase_self, Loops.setPhase_toGossip]
      cases (s.db.getParent parent).1.bind (·.ltc_height) with
      | none => exact ih (Loops.setPhase_self ..)
      | some ltc_height =>
        refine .next ?_
        unfold LoopStep.run
        simp only [Loops.setPhase_self, Loops.setPhase_toGossip]
        cases groupMessage (s.db.getParent parent).2 parent ltc_height with
        | none =>
          simp only [Option.toList_none, List.append_nil]
          exact ih (Loops.setPhase_self ..)
        | some msg =>
          refine .next ?_
          unfold LoopStep.run
          simp only [Loops.setPhase_self, Loops.setPhase_toGossip]
          exact ih (Loops.setPhase_self ..)

/-- The answers that are left are recorded, and the batch is announced if that
goes through. -/
theorem ends_classifying {blocks : List StoredBlock} {answers : List (Hash32 × Option UInt64)} {new_mainnet : List Hash32}
    (h : s.phase step.chain.chain_id = .classifying blocks answers new_mainnet) :
    Ends w sha256d p2p config step s
      (match classifyLoop step.t.commits.classify s.db answers with
      | (.error _, db) => { s.toGossip with db := db }
      | (.ok more, db) => announceBatch sha256d p2p { s.toGossip with db := db } step.chain ⟨blocks, new_mainnet ++ more⟩) := by
  induction answers generalizing s new_mainnet with
  | nil =>
    refine .next ?_
    unfold LoopStep.run classifyLoop announceBatch announceBatchTip
    simp only [h, List.append_nil]
    by_cases hp2p : ¬ p2p = true
    · rw [if_pos hp2p, if_pos hp2p]
      exact ends_announcing (Loops.setPhase_self ..)
    · rw [if_neg hp2p, if_neg hp2p]
      obtain ⟨_ | msg, db⟩ := tipMessage sha256d s.db step.chain blocks
      · simp only [Option.toList_none, List.append_nil]
        exact ends_announcing (Loops.setPhase_self ..)
      · refine .next ?_
        unfold LoopStep.run
        simp only [Loops.setPhase_self, Loops.setPhase_toGossip]
        exact ends_announcing (Loops.setPhase_self ..)
  | cons answer answers ih =>
    obtain ⟨parent, ltc_height⟩ := answer
    refine .next ?_
    unfold LoopStep.run classifyLoop
    simp only [h]
    cases s.db.classifyParent (step.t.commits.classify parent) parent ltc_height with
    | mk r db =>
      cases r with
      | error e => exact ends_idle (Loops.setPhase_self ..)
      | ok u =>
        have hrest := @ih (s.setPhase { s.toGossip with db := db } step.chain.chain_id
          (.classifying blocks answers (if ltc_height.isSome then new_mainnet ++ [parent] else new_mainnet))) _
          (Loops.setPhase_self ..)
        simp only [Loops.setPhase_toGossip] at hrest ⊢
        cases hloop : classifyLoop step.t.commits.classify db answers with
        | mk r db' =>
          rw [hloop] at hrest
          cases r with
          | error e => exact hrest
          | ok more => cases ltc_height <;> simpa using hrest

variable (w sha256d p2p config)

/-- With nothing in between, the pieces of a tick are one turn of the loop. -/
theorem tick_alone (step : LoopStep) (s : Loops) (hidle : s.phase step.chain.chain_id = .idle) :
    ∃ n, (runLoops w sha256d p2p config s (List.replicate (n + 1) step)).toGossip =
        chainTick w sha256d p2p config step.chain step.t s.toGossip ∧
      (runLoops w sha256d p2p config s (List.replicate (n + 1) step)).phase step.chain.chain_id = .idle := by
  suffices hends : Ends w sha256d p2p config step (step.run w sha256d p2p config s)
      (chainTick w sha256d p2p config step.chain step.t s.toGossip) from hends
  unfold chainTick
  rw [ingestChain_eq]
  unfold LoopStep.run
  simp only [hidle]
  cases storeChain w sha256d config step.chain step.t s.db with
  | mk r db =>
    rcases r with e | _ | blocks
    · exact ends_idle (Loops.setPhase_self ..)
    · simp only [announceBatch_nil]
      exact ends_idle (Loops.setPhase_self ..)
    · -- the unprobed parents are taken, and the explorer answers
      refine .next ?_
      unfold LoopStep.run
      simp only [Loops.setPhase_self, Loops.setPhase_toGossip]
      refine .next ?_
      unfold LoopStep.run
      simp only [Loops.setPhase_self, Loops.setPhase_toGossip]
      have hloop : classifyPendingParents step.t.resolver step.t.net step.t.commits.classify step.t.iter db =
          classifyLoop step.t.commits.classify db ((db.unclassifiedParents step.t.iter).map
            (fun p => (p, (step.t.resolver.resolve (step.t.net p) p).1))) := by
        unfold classifyPendingParents
        simp only
        split_ifs with hnil
        · rw [hnil]
          rfl
        · rfl
      rw [hloop]
      refine Eq.mp (congrArg _ ?_) (ends_classifying (Loops.setPhase_self ..))
      simp only [Loops.setPhase_toGossip, List.nil_append]
      cases classifyLoop step.t.commits.classify db _ with
      | mk r db => cases r <;> rfl

end Sha

end PsobIndexer
