import PsobIndexer.OrderBook
/-!
# The swarm loop (`src/p2p/swarm.rs`, `src/p2p/mod.rs`)

The loop publishes queued messages and handles the events of the network. It keeps
the status that the API shows and stores the intents that come in. A peer may have
several connections: the status forgets it when the first of them closes.
-/
open Lib

namespace PsobIndexer

def TOPIC_HEADERS : String := "/psob/headers/v1"
def TOPIC_SIBLINGS : String := "/psob/siblings/v1"
def TOPIC_INTENTS : String := "/psob/intents/v1"

/-- One message to publish on a gossip topic. -/
structure GossipMessage where
  topic : String
  payload : Bytes

/-- Status of the P2P subsystem for the API. -/
structure P2pStatus where
  peer_id : String
  listen_addrs : List String
  connected_peers_count : Nat
  connected_peers : List String
  subscribed_topics : List String

/-- The status the swarm starts with. -/
def P2pStatus.start (peer_id : String) : P2pStatus where
  peer_id
  listen_addrs := []
  connected_peers_count := 0
  connected_peers := []
  subscribed_topics := [TOPIC_HEADERS, TOPIC_SIBLINGS, TOPIC_INTENTS]

/-- One turn of the loop: a queued message, or an event of the network. A message
comes with what its handling reads of the clock and how the store's commits end. -/
inductive SwarmTurn where
  | publish (msg : GossipMessage)
  | newListenAddr (address : String)
  | mdnsDiscovered (peers : List (String × String))
  | mdnsExpired (peers : List (String × String))
  | message (topic : String) (data : Bytes) (check_now now : UInt64) (prune_commit commit : Bool)
  | connectionEstablished (peer_id : String)
  | connectionClosed (peer_id : String)
  | other

/-- The status, the messages handed to the mesh, its explicit peers, and the store. -/
structure SwarmState where
  status : P2pStatus
  published : List GossipMessage
  explicit_peers : List String
  db : Database

namespace P2pStatus

def listen (st : P2pStatus) (address : String) : P2pStatus :=
  if address ∈ st.listen_addrs then st else { st with listen_addrs := st.listen_addrs ++ [address] }

def connect (st : P2pStatus) (p : String) : P2pStatus :=
  if p ∈ st.connected_peers then st
  else
    { st with
      connected_peers := st.connected_peers ++ [p]
      connected_peers_count := (st.connected_peers ++ [p]).length }

def disconnect (st : P2pStatus) (p : String) : P2pStatus :=
  { st with
    connected_peers := st.connected_peers.filter (· ≠ p)
    connected_peers_count := (st.connected_peers.filter (· ≠ p)).length }

end P2pStatus

section Loop
variable (S : SigScheme) (enforce : Bool) (iter : List (String × String) → List (String × String))
  (from_slice : Bytes → Option SwapIntentMessage)

def swarmTurn (s : SwarmState) : SwarmTurn → SwarmState
  | .publish msg => { s with published := s.published ++ [msg] }
  | .newListenAddr address => { s with status := s.status.listen address }
  | .mdnsDiscovered peers => { s with explicit_peers := s.explicit_peers ++ peers.map Prod.fst }
  | .mdnsExpired _ => s
  | .message topic data check_now now prune_commit commit =>
    -- the other topics are only logged
    if topic = TOPIC_INTENTS then
      { s with db := inboundIntent S enforce iter check_now now prune_commit commit s.db (from_slice data) }
    else s
  | .connectionEstablished peer_id => { s with status := s.status.connect peer_id }
  | .connectionClosed peer_id => { s with status := s.status.disconnect peer_id }
  | .other => s

def runSwarm (s : SwarmState) (turns : List SwarmTurn) : SwarmState := turns.foldl (swarmTurn S enforce iter from_slice) s

/-- What a turn does to the order book. -/
def SwarmTurn.bookStep : SwarmTurn → Option BookStep
  | .message topic data check_now now prune_commit commit =>
    if topic = TOPIC_INTENTS then some (.gossip check_now now prune_commit commit (from_slice data)) else none
  | _ => none

end Loop

def p2pStatusHandler : Option P2pStatus → Except String P2pStatus
  | some status => .ok status
  | none => .error "P2P subsystem is not enabled on this node"

def p2pPeersHandler : Option P2pStatus → Except String (Nat × List String)
  | some status => .ok (status.connected_peers_count, status.connected_peers)
  | none => .error "P2P subsystem is not enabled"

/-! ## Connections -/

/-- Whether a turn opens (`true`) or closes a connection to the peer. -/
def SwarmTurn.connection (p : String) : SwarmTurn → Option Bool
  | .connectionEstablished peer_id => if peer_id = p then some true else none
  | .connectionClosed peer_id => if peer_id = p then some false else none
  | _ => none

/-- The last thing that happened to the peer's connections. -/
def lastConnection (p : String) (turns : List SwarmTurn) : Option Bool := (turns.filterMap (·.connection p)).getLast?

def opened (p : String) (turns : List SwarmTurn) : Nat := (turns.filterMap (·.connection p)).count true

def closed (p : String) (turns : List SwarmTurn) : Nat := (turns.filterMap (·.connection p)).count false

/-- Only open connections close. -/
def SoundNetwork (turns : List SwarmTurn) : Prop := ∀ p n, closed p (turns.take n) ≤ opened p (turns.take n)

/-- The listed peers are the connected ones: those with an open connection. -/
def ShowsConnected (status : P2pStatus) (turns : List SwarmTurn) : Prop :=
  ∀ p, p ∈ status.connected_peers ↔ closed p turns < opened p turns

/-- What the status is after a run of turns. -/
structure StatusTracks (peer_id : String) (status : P2pStatus) (turns : List SwarmTurn) : Prop where
  peer_id : status.peer_id = peer_id
  topics : status.subscribed_topics = [TOPIC_HEADERS, TOPIC_SIBLINGS, TOPIC_INTENTS]
  peers_nodup : status.connected_peers.Nodup
  count : status.connected_peers_count = status.connected_peers.length
  peers : ∀ p, p ∈ status.connected_peers ↔ lastConnection p turns = some true
  addrs_nodup : status.listen_addrs.Nodup
  addrs : ∀ a, a ∈ status.listen_addrs ↔ .newListenAddr a ∈ turns

section Steps
variable {peer_id : String} {status : P2pStatus} {turns : List SwarmTurn}

theorem lastConnection_concat (p : String) (turns : List SwarmTurn) (turn : SwarmTurn) :
    lastConnection p (turns ++ [turn]) = (turn.connection p).or (lastConnection p turns) := by
  unfold lastConnection
  rw [List.filterMap_append, List.getLast?_append]
  cases h : turn.connection p <;> simp [h]

theorem statusTracks_start (peer_id : String) : StatusTracks peer_id (.start peer_id) [] where
  peer_id := rfl
  topics := rfl
  peers_nodup := List.nodup_nil
  count := rfl
  peers p := by simp [P2pStatus.start, lastConnection]
  addrs_nodup := List.nodup_nil
  addrs a := by simp [P2pStatus.start]

/-- A turn that is about no connection and no address leaves the status right. -/
theorem StatusTracks.idle (h : StatusTracks peer_id status turns) (turn : SwarmTurn) (hconn : ∀ p, turn.connection p = none)
    (haddr : ∀ a, turn ≠ .newListenAddr a) : StatusTracks peer_id status (turns ++ [turn]) :=
  ⟨h.peer_id, h.topics, h.peers_nodup, h.count, fun p => by rw [lastConnection_concat, hconn, h.peers, Option.none_or],
    h.addrs_nodup, fun a => by rw [h.addrs, List.mem_append, List.mem_singleton, or_iff_left (haddr a).symm]⟩

theorem StatusTracks.listen (h : StatusTracks peer_id status turns) (a : String) :
    StatusTracks peer_id (status.listen a) (turns ++ [.newListenAddr a]) := by
  have hpeers : ∀ p, p ∈ status.connected_peers ↔ lastConnection p (turns ++ [.newListenAddr a]) = some true := by
    intro p
    rw [lastConnection_concat, h.peers]
    rfl
  have hmem : ∀ b, .newListenAddr b ∈ turns ++ [SwarmTurn.newListenAddr a] ↔ b ∈ status.listen_addrs ∨ b = a := by
    intro b
    rw [List.mem_append, List.mem_singleton, SwarmTurn.newListenAddr.injEq, h.addrs]
  unfold P2pStatus.listen
  split
  · refine ⟨h.peer_id, h.topics, h.peers_nodup, h.count, hpeers, h.addrs_nodup, fun b => ?_⟩
    rw [hmem, or_iff_left_of_imp]
    rintro rfl
    assumption
  · rename_i hnew
    refine ⟨h.peer_id, h.topics, h.peers_nodup, h.count, hpeers, ?_, fun b => by simp [hmem]⟩
    exact List.nodup_append.2 ⟨h.addrs_nodup, List.nodup_singleton a, by simpa using fun b hb (heq : b = a) => hnew (heq ▸ hb)⟩

theorem StatusTracks.connect (h : StatusTracks peer_id status turns) (q : String) :
    StatusTracks peer_id (status.connect q) (turns ++ [.connectionEstablished q]) := by
  have haddrs : ∀ a, a ∈ status.listen_addrs ↔ .newListenAddr a ∈ turns ++ [SwarmTurn.connectionEstablished q] := by
    simp [h.addrs]
  have hlast : ∀ p, lastConnection p (turns ++ [.connectionEstablished q]) = some true ↔
      p ∈ status.connected_peers ∨ p = q := by
    intro p
    rw [lastConnection_concat, SwarmTurn.connection, h.peers]
    by_cases hq : q = p <;> simp [hq, eq_comm]
  unfold P2pStatus.connect
  split
  · refine ⟨h.peer_id, h.topics, h.peers_nodup, h.count, fun p => ?_, h.addrs_nodup, haddrs⟩
    rw [hlast, or_iff_left_of_imp]
    rintro rfl
    assumption
  · rename_i hnew
    refine ⟨h.peer_id, h.topics, ?_, rfl, fun p => by simp [hlast], h.addrs_nodup, haddrs⟩
    exact List.nodup_append.2 ⟨h.peers_nodup, List.nodup_singleton q, by simpa using fun p hp (heq : p = q) => hnew (heq ▸ hp)⟩

theorem StatusTracks.disconnect (h : StatusTracks peer_id status turns) (q : String) :
    StatusTracks peer_id (status.disconnect q) (turns ++ [.connectionClosed q]) := by
  refine ⟨h.peer_id, h.topics, h.peers_nodup.filter _, rfl, fun p => ?_, h.addrs_nodup,
    by simp [h.addrs, P2pStatus.disconnect]⟩
  rw [lastConnection_concat, SwarmTurn.connection, P2pStatus.disconnect]
  by_cases hq : q = p
  · simp [hq]
  · simp [hq, h.peers, Ne.symm hq]

/-- The last of a peer's events tells whether more of its connections opened than
closed, unless a close leaves some open. -/
theorem opened_of_last {p : String} (hnet : SoundNetwork turns) (h : lastConnection p turns = some true) :
    closed p turns < opened p turns := by
  induction turns using List.reverseRecOn with
  | nil => simp [lastConnection] at h
  | append_singleton turns turn ih =>
    have hnet' : SoundNetwork turns := by
      intro q n
      have hn := hnet q (min n turns.length)
      rwa [List.take_append_of_le_length (min_le_right _ _), ← List.take_take, List.take_length] at hn
    have hbefore : closed p turns ≤ opened p turns := by
      have hall := hnet' p turns.length
      rwa [List.take_length] at hall
    rw [lastConnection_concat] at h
    unfold closed opened at hbefore ih ⊢
    rw [List.filterMap_append, List.count_append, List.count_append]
    cases hconn : turn.connection p with
    | none =>
      rw [hconn, Option.none_or] at h
      simpa [hconn] using ih hnet' h
    | some b =>
      rw [hconn, Option.some_or, Option.some.injEq] at h
      subst h
      simp only [List.filterMap_cons, hconn, List.filterMap_nil, List.count_singleton_self]
      have hfalse : List.count false [true] = 0 := rfl
      omega

theorem lastConnection_of_opened {p : String} (h : closed p turns < opened p turns) :
    ∃ b, lastConnection p turns = some b := by
  unfold opened at h
  have hne : turns.filterMap (·.connection p) ≠ [] := by
    intro hnil
    rw [hnil] at h
    simp at h
  exact ⟨_, List.getLast?_eq_some_getLast hne⟩

end Steps

section Run
variable (S : SigScheme) (enforce : Bool) (iter : List (String × String) → List (String × String))
  (from_slice : Bytes → Option SwapIntentMessage)

variable {S enforce iter from_slice} in
theorem StatusTracks.turn {peer_id : String} {s : SwarmState} {turns : List SwarmTurn}
    (h : StatusTracks peer_id s.status turns) (turn : SwarmTurn) :
    StatusTracks peer_id (swarmTurn S enforce iter from_slice s turn).status (turns ++ [turn]) := by
  cases turn with
  | newListenAddr a => exact h.listen a
  | connectionEstablished p => exact h.connect p
  | connectionClosed p => exact h.disconnect p
  | message topic data check_now now prune_commit commit =>
    have hidle := h.idle (.message topic data check_now now prune_commit commit) (fun _ => rfl) (by simp)
    by_cases htopic : topic = TOPIC_INTENTS
    · rwa [swarmTurn, if_pos htopic]
    · rwa [swarmTurn, if_neg htopic]
  | publish _ | mdnsDiscovered _ | mdnsExpired _ | other => exact h.idle _ (fun _ => rfl) (by simp)

variable {S enforce iter from_slice} in
theorem swarmTurn_db (s : SwarmState) (turn : SwarmTurn) : (swarmTurn S enforce iter from_slice s turn).db =
    (turn.bookStep from_slice).elim s.db (BookStep.run S enforce iter s.db) := by
  cases turn with
  | message topic data check_now now prune_commit commit =>
    by_cases htopic : topic = TOPIC_INTENTS
    · simp only [swarmTurn, SwarmTurn.bookStep, if_pos htopic, Option.elim_some]
      rfl
    · simp only [swarmTurn, SwarmTurn.bookStep, if_neg htopic, Option.elim_none]
  | _ => rfl

variable {S enforce iter from_slice} in
theorem runSwarm_db (s : SwarmState) (turns : List SwarmTurn) : (runSwarm S enforce iter from_slice s turns).db =
    runBook S enforce iter s.db (turns.filterMap (·.bookStep from_slice)) := by
  induction turns generalizing s with
  | nil => rfl
  | cons turn turns ih =>
    rw [runSwarm, List.foldl_cons]
    refine (ih _).trans ?_
    rw [swarmTurn_db]
    cases hb : turn.bookStep from_slice with
    | none => rw [List.filterMap_cons_none hb, Option.elim_none]
    | some b =>
      rw [List.filterMap_cons_some hb, Option.elim_some]
      rfl

/-- After any run: the status lists each peer whose last connection event opened one,
once, and both endpoints answer it; it shows the connected peers exactly if no close
has left another connection of its peer open; and the store is what the intents that
came in make of it. -/
theorem swarm_tracks (peer_id : String) (db : Database) (turns : List SwarmTurn) :
    let s := runSwarm S enforce iter from_slice ⟨.start peer_id, [], [], db⟩ turns
    StatusTracks peer_id s.status turns ∧
    p2pStatusHandler (some s.status) = .ok s.status ∧
    p2pPeersHandler (some s.status) = .ok (s.status.connected_peers.length, s.status.connected_peers) ∧
    (SoundNetwork turns →
      (ShowsConnected s.status turns ↔ ∀ p, lastConnection p turns = some false → opened p turns ≤ closed p turns)) ∧
    s.db = runBook S enforce iter db (turns.filterMap (·.bookStep from_slice)) := by
  intro s
  have htracks : StatusTracks peer_id s.status turns := by
    induction turns using List.reverseRecOn with
    | nil => exact statusTracks_start peer_id
    | append_singleton turns turn ih =>
      simp only [s, runSwarm, List.foldl_append]
      exact ih.turn turn
  refine ⟨htracks, rfl, by rw [p2pPeersHandler, htracks.count], fun hnet => ?_, runSwarm_db _ turns⟩
  unfold ShowsConnected
  simp only [htracks.peers]
  refine forall_congr' fun p => ⟨fun hp hlast => ?_, fun hp => ⟨opened_of_last hnet, fun hopen => ?_⟩⟩
  · rw [hlast] at hp
    exact not_lt.1 fun hopen => by cases hp.2 hopen
  · obtain ⟨b, hb⟩ := lastConnection_of_opened hopen
    cases b with
    | true => exact hb
    | false => exact absurd hopen (not_lt.2 (hp hb))

end Run

/-! ## Two connections of one peer -/

/-- The first of them closes. -/
def twoConnections : List SwarmTurn := [.connectionEstablished "a", .connectionEstablished "a", .connectionClosed "a"]

theorem soundNetwork_twoConnections : SoundNetwork twoConnections := by
  intro p n
  by_cases hp : p = "a"
  · subst hp
    rcases n with _ | _ | _ | n <;> simp [twoConnections, closed, opened, SwarmTurn.connection]
  · rcases n with _ | _ | _ | n <;> simp [twoConnections, closed, opened, SwarmTurn.connection, Ne.symm hp]

/-- The peer is connected, and not listed. -/
theorem swarm_tracks_twoConnections : SoundNetwork twoConnections ∧
    ¬ ShowsConnected (runSwarm offerScheme true id (fun _ => none) ⟨.start "me", [], [], freshDb⟩ twoConnections).status
      twoConnections := by
  refine ⟨soundNetwork_twoConnections, fun hshows => ?_⟩
  obtain ⟨-, -, -, hiff, -⟩ := swarm_tracks offerScheme true id (fun _ => none) "me" freshDb twoConnections
  have hclosed := (hiff soundNetwork_twoConnections).1 hshows "a" (by decide)
  exact absurd hclosed (by decide)

end PsobIndexer
