import PsobIndexer.Lib.FixedWindow
import PsobIndexer.Lib.IpAddr
import PsobIndexer.Lib.Run
import PsobIndexer.Lib.Text
/-!
# The security middleware (`src/server.rs`, `src/main.rs`)

Every request passes an optional bearer-token check and an optional rate limit
with a bucket for each client address. The address is the TCP peer's if the
server hands it on; otherwise it is the first hop of `x-forwarded-for`, and a
request without a readable one is not counted. `main` serves the bare router,
which does not hand it on. Times are in nanoseconds.
-/
open Lib

namespace PsobIndexer

/-! ## The middleware -/

/-- The part of `Config` the middleware reads. -/
structure SecurityConfig where
  auth_token : Option String
  rate_limit_per_min : Option UInt32

structure SocketAddr where
  ip : IpAddr
  port : UInt16
  deriving DecidableEq

/-- A request with the extension and the headers the middleware reads. A header
value that is not text counts as absent. -/
structure SecurityRequest where
  connect_info : Option SocketAddr
  authorization : Option String
  x_forwarded_for : Option String

inductive SecurityResponse where
  | unauthorized
  | tooManyRequests
  /-- The request is let through. -/
  | next
  deriving DecidableEq

/-- How many requests were let through since `start`. -/
structure Bucket where
  count : UInt32
  start : Nat
  deriving DecidableEq

abbrev Buckets := AList (fun _ : IpAddr => Bucket)

/-- Constant-time byte comparison. -/
def constantTimeEq (a b : Bytes) : Bool :=
  if a.length ≠ b.length then false
  else (a.zip b).foldl (fun diff p => diff ||| (p.1 ^^^ p.2)) 0 = 0

def asBytes (s : String) : Bytes := s.toUTF8.data.toList

def authorized (config : SecurityConfig) (req : SecurityRequest) : Bool :=
  config.auth_token.all (fun expected =>
    (req.authorization.map (fun v => constantTimeEq (asBytes v) (asBytes ("Bearer " ++ expected)))).getD false)

/-- The peer if the server was started with connect-info, else the first
`x-forwarded-for` hop. -/
def clientIp (req : SecurityRequest) : Option IpAddr :=
  (req.connect_info.map (·.ip)).or
    (req.x_forwarded_for.bind (fun v => parseIpAddr (trim (v.toList.takeWhile (· ≠ ',')))))

/-- The bucket map is dropped when a flood inflated it. -/
def boundGrowth (buckets : Buckets) : Buckets := if 65536 < buckets.entries.length then ∅ else buckets

/-- Count a request of `ip`, if its bucket has room. -/
def countRequest (limit : UInt32) (ip : IpAddr) (now : Nat) (buckets : Buckets) : Bool × Buckets :=
  let buckets := boundGrowth buckets
  let entry := (buckets.lookup ip).getD ⟨0, now⟩
  let entry := if 60 ≤ (now - entry.start) / 10 ^ 9 then ⟨0, now⟩ else entry
  if limit ≤ entry.count then (false, buckets.insert ip entry)
  else (true, buckets.insert ip ⟨entry.count + 1, entry.start⟩)

def securityMiddleware (config : SecurityConfig) (buckets : Buckets) (req : SecurityRequest) (now : Nat) :
    SecurityResponse × Buckets :=
  if ¬ authorized config req then (.unauthorized, buckets)
  else match config.rate_limit_per_min with
  | none => (.next, buckets)
  | some limit =>
    match clientIp req with
    -- not attributable: not counted
    | none => (.next, buckets)
    | some ip =>
      let (ok, buckets) := countRequest limit ip now buckets
      (if ok then .next else .tooManyRequests, buckets)

/-! ## The server -/

/-- A request on the wire: its TCP peer, its headers and when it came. -/
structure Arrival where
  peer : SocketAddr
  authorization : Option String
  x_forwarded_for : Option String
  time : Nat

/-- `axum::serve(listener, router)`: the router is not made into a service with
connect-info, so no request carries its peer. -/
def Arrival.request (a : Arrival) : SecurityRequest := ⟨none, a.authorization, a.x_forwarded_for⟩

def serve (config : SecurityConfig) (buckets : Buckets) (a : Arrival) : SecurityResponse × Buckets :=
  securityMiddleware config buckets a.request a.time

/-- The answers to a sequence of requests. -/
def responses (config : SecurityConfig) : Buckets → List Arrival → List (Arrival × SecurityResponse)
  | _, [] => []
  | buckets, a :: arrivals => (a, (serve config buckets a).1) :: responses config (serve config buckets a).2 arrivals

/-! ## The bound

A client is a TCP peer. Its requests that pass the token check open windows of
60 seconds; whether one opens a window is a matter of when they come. -/

/-- When the requests of a peer came that got past the token check, and whether
they were let through. -/
def eventsOf (peer : IpAddr) (answers : List (Arrival × SecurityResponse)) : List (Nat × Bool) :=
  (answers.filter (fun r => r.1.peer.ip = peer ∧ r.2 ≠ .unauthorized)).map (fun r => (r.1.time, r.2 = .next))

/-- The 60 seconds of a window. -/
def WINDOW : Nat := 60 * 10 ^ 9

/-- No peer gets more than `limit` requests through in a window of its own. -/
def BindsEachClient (limit : UInt32) (answers : List (Arrival × SecurityResponse)) : Prop :=
  ∀ peer, FixedWindow.Bounded WINDOW limit.toNat (eventsOf peer answers)

/-- The request is counted under the address that stands for its peer, and a
dropped map has only buckets whose minute is over. -/
def CountedByPeer (config : SecurityConfig) (key : IpAddr → IpAddr) (buckets : Buckets) (a : Arrival) : Prop :=
  authorized config a.request →
    clientIp a.request = some (key a.peer.ip) ∧
      (65536 < buckets.entries.length → ∀ e ∈ buckets.entries, WINDOW ≤ a.time - e.2.start)

/-! ## The token check -/

theorem fold_xor_eq_zero (l : List (UInt8 × UInt8)) (diff : UInt8) :
    l.foldl (fun diff p => diff ||| (p.1 ^^^ p.2)) diff = 0 ↔ diff = 0 ∧ ∀ p ∈ l, p.1 = p.2 := by
  induction l generalizing diff with
  | nil => simp
  | cons p l ih =>
    rw [List.foldl_cons, ih, UInt8.or_eq_zero_iff, UInt8.xor_eq_zero_iff, List.forall_mem_cons, and_assoc]

/-- The comparison without early exit is equality. -/
theorem constantTimeEq_iff {a b : Bytes} : constantTimeEq a b ↔ a = b := by
  unfold constantTimeEq
  by_cases hlen : a.length = b.length
  · rw [if_neg (not_not.2 hlen), decide_eq_true_eq, fold_xor_eq_zero]
    constructor
    · rintro ⟨-, h⟩
      refine List.ext_getElem hlen fun i ha hb => ?_
      exact h (a[i], b[i]) (List.mem_iff_getElem.2 ⟨i, by rw [List.length_zip]; omega, List.getElem_zip⟩)
    · rintro rfl
      refine ⟨rfl, fun p hp => ?_⟩
      obtain ⟨i, hi, rfl⟩ := List.mem_iff_getElem.1 hp
      rw [List.getElem_zip]
  · rw [if_pos hlen]
    exact ⟨fun h => absurd h Bool.false_ne_true, fun h => absurd (congrArg List.length h) hlen⟩

theorem asBytes_inj {s t : String} : asBytes s = asBytes t ↔ s = t := by
  constructor
  · intro h
    simp only [asBytes, String.toUTF8_eq_toByteArray] at h
    exact String.toByteArray_inj.1 (ByteArray.ext (Array.toList_inj.1 h))
  · exact congrArg asBytes

/-- A request passes the token check if it carries the token, where one is set. -/
theorem authorized_iff {config : SecurityConfig} {req : SecurityRequest} :
    authorized config req ↔
      ∀ expected, config.auth_token = some expected → req.authorization = some ("Bearer " ++ expected) := by
  unfold authorized
  cases config.auth_token with
  | none => simp
  | some expected =>
    simp only [Option.all_some, Option.some.injEq, forall_eq']
    cases req.authorization with
    | none => simp
    | some v => simp [constantTimeEq_iff, asBytes_inj]

/-- A proxy that puts an IPv4 address into the header has the request counted
under that address. -/
theorem clientIp_forwarded (authorization : Option String) (a b c d : UInt8) :
    clientIp ⟨none, authorization, some (String.ofList (ipv4Text a b c d))⟩ = some (.v4 a b c d) := by
  have hcomma : (ipv4Text a b c d).takeWhile (· ≠ ',') = ipv4Text a b c d := by
    refine List.takeWhile_eq_self_iff.2 fun x hx => ?_
    obtain hdigit | rfl := mem_ipv4Text hx
    · rw [decide_eq_true_eq]
      rintro rfl
      exact absurd hdigit (by decide)
    · rfl
  have htrim : trim (ipv4Text a b c d) = ipv4Text a b c d := by
    refine trim_eq_self fun x hx => ?_
    obtain hdigit | rfl := mem_ipv4Text hx
    · exact isWhitespace_of_isDigit hdigit
    · rfl
  simp only [clientIp, Option.map_none, Option.none_or, Option.bind_some, String.toList_ofList, hcomma, htrim,
    parseIpAddr_ipv4Text]

/-! ## A bucket is a window

The bucket of a peer is the window its own requests opened, or it is gone and
that window is over. -/

def Bucket.window (b : Bucket) : FixedWindow.Window := ⟨b.start, b.count.toNat⟩

def Follows (bucket : Option Bucket) (win : Option FixedWindow.Window) (now : Nat) : Prop :=
  bucket.map Bucket.window = win ∨ bucket = none ∧ ∀ w ∈ win, w.start + WINDOW ≤ now

theorem Follows.mono {bucket : Option Bucket} {win : Option FixedWindow.Window} {now t : Nat} (h : Follows bucket win now)
    (ht : now ≤ t) : Follows bucket win t := by
  obtain h | ⟨hnone, hover⟩ := h
  · exact .inl h
  · exact .inr ⟨hnone, fun w hw => (hover w hw).trans ht⟩

/-- Dropping the map leaves no open window behind. -/
theorem Follows.boundGrowth {buckets : Buckets} {ip : IpAddr} {win : Option FixedWindow.Window} {now : Nat}
    (h : Follows (buckets.lookup ip) win now)
    (hover : 65536 < buckets.entries.length → ∀ e ∈ buckets.entries, WINDOW ≤ now - e.2.start) :
    Follows ((PsobIndexer.boundGrowth buckets).lookup ip) win now := by
  unfold PsobIndexer.boundGrowth
  by_cases hlen : 65536 < buckets.entries.length
  · rw [if_pos hlen]
    refine .inr ⟨AList.lookup_empty ip, fun w hw => ?_⟩
    obtain h | ⟨-, hgone⟩ := h
    · rw [← h] at hw
      obtain ⟨b, hb, rfl⟩ := Option.map_eq_some_iff.1 hw
      have := hover hlen ⟨ip, b⟩ (AList.mem_lookup_iff.1 hb)
      have hpos : 0 < WINDOW := by decide
      simp only [Bucket.window] at this ⊢
      omega
    · exact hgone w hw
  · rwa [if_neg hlen]

theorem minute_over_iff {now start : Nat} : 60 ≤ (now - start) / 10 ^ 9 ↔ WINDOW ≤ now - start :=
  Nat.le_div_iff_mul_le (by decide)

/-- The entry of a request is the window it falls in. -/
theorem entry_window {bucket : Option Bucket} {win : Option FixedWindow.Window} {now : Nat} (h : Follows bucket win now) :
    let entry := bucket.getD ⟨0, now⟩
    (if 60 ≤ (now - entry.start) / 10 ^ 9 then (⟨0, now⟩ : Bucket) else entry).window = FixedWindow.roll WINDOW now win := by
  intro entry
  have hfresh : ¬ WINDOW ≤ now - now := by
    rw [Nat.sub_self]
    decide
  simp only [minute_over_iff]
  obtain rfl | ⟨rfl, hover⟩ := h
  · cases bucket with
    | none => exact congrArg Bucket.window (if_neg hfresh)
    | some b =>
      simp only [entry, Option.getD_some, Option.map_some, FixedWindow.roll, Bucket.window]
      split
      · rfl
      · rfl
  · have hentry : (if WINDOW ≤ now - entry.start then (⟨0, now⟩ : Bucket) else entry) = ⟨0, now⟩ := if_neg hfresh
    rw [hentry]
    cases win with
    | none => rfl
    | some w =>
      have := hover w rfl
      rw [FixedWindow.roll, if_pos (by omega)]
      rfl

/-- A counted request does what the limiter of its peer does. -/
theorem countRequest_own (limit : UInt32) {ip : IpAddr} {now : Nat} {buckets : Buckets} {win : Option FixedWindow.Window}
    (h : Follows ((boundGrowth buckets).lookup ip) win now) :
    (countRequest limit ip now buckets).1 = (FixedWindow.accept WINDOW limit.toNat now win).1 ∧
      Follows ((countRequest limit ip now buckets).2.lookup ip) (some (FixedWindow.accept WINDOW limit.toNat now win).2)
        now := by
  have hentry := entry_window h
  simp only at hentry
  simp only [countRequest, FixedWindow.accept, ← hentry]
  generalize (if 60 ≤ (now - (((boundGrowth buckets).lookup ip).getD ⟨0, now⟩).start) / 10 ^ 9 then
    (⟨0, now⟩ : Bucket) else ((boundGrowth buckets).lookup ip).getD ⟨0, now⟩) = entry
  by_cases hfull : limit ≤ entry.count
  · have hnot : ¬ entry.window.count < limit.toNat := not_lt.2 (UInt32.le_iff_toNat_le.1 hfull)
    rw [if_pos hfull, if_neg hnot]
    exact ⟨rfl, .inl (by rw [AList.lookup_insert]; rfl)⟩
  · have hlt : entry.window.count < limit.toNat := UInt32.lt_iff_toNat_lt.1 (UInt32.not_le.1 hfull)
    have hlimit := limit.toNat_lt
    have hnext : (entry.count + 1).toNat = entry.count.toNat + 1 := by
      rw [UInt32.toNat_add, UInt32.toNat_one, Nat.mod_eq_of_lt]
      exact lt_of_le_of_lt (Nat.succ_le_of_lt hlt) hlimit
    rw [if_neg hfull, if_pos hlt]
    refine ⟨rfl, .inl ?_⟩
    rw [AList.lookup_insert, Option.map_some, Bucket.window, hnext]
    rfl

/-- A request counted under another address leaves the bucket alone. -/
theorem countRequest_other {limit : UInt32} {ip ip' : IpAddr} {now : Nat} {buckets : Buckets} (hne : ip' ≠ ip) :
    (countRequest limit ip now buckets).2.lookup ip' = (boundGrowth buckets).lookup ip' := by
  simp only [countRequest]
  generalize (if 60 ≤ (now - (((boundGrowth buckets).lookup ip).getD ⟨0, now⟩).start) / 10 ^ 9 then
    (⟨0, now⟩ : Bucket) else ((boundGrowth buckets).lookup ip).getD ⟨0, now⟩) = entry
  split
  · exact AList.lookup_insert_ne hne
  · exact AList.lookup_insert_ne hne

/-! ## The run -/

/-- When the requests of a peer come that get past the token check. -/
def arrivalsOf (config : SecurityConfig) (peer : IpAddr) (arrivals : List Arrival) : List Nat :=
  (arrivals.filter (fun a => a.peer.ip = peer ∧ authorized config a.request)).map (·.time)

section Run
variable {config : SecurityConfig} {limit : UInt32} {key : IpAddr → IpAddr}

theorem serve_unauthorized {buckets : Buckets} {a : Arrival} (h : ¬ authorized config a.request) :
    serve config buckets a = (.unauthorized, buckets) := if_pos h

theorem serve_counted (hlimit : config.rate_limit_per_min = some limit) (buckets : Buckets) {a : Arrival} {ip : IpAddr}
    (hauth : authorized config a.request) (hip : clientIp a.request = some ip) :
    serve config buckets a =
      (if (countRequest limit ip a.time buckets).1 then .next else .tooManyRequests,
        (countRequest limit ip a.time buckets).2) := by
  rw [serve, securityMiddleware, if_neg (not_not.2 hauth)]
  simp only [hlimit, hip]

theorem serve_ne_unauthorized {buckets : Buckets} {a : Arrival} :
    (serve config buckets a).1 ≠ .unauthorized ↔ authorized config a.request := by
  by_cases hauth : authorized config a.request
  · refine iff_of_true ?_ hauth
    rw [serve, securityMiddleware, if_neg (not_not.2 hauth)]
    split
    · exact SecurityResponse.noConfusion
    · split
      · exact SecurityResponse.noConfusion
      · simp only
        split
        · exact SecurityResponse.noConfusion
        · exact SecurityResponse.noConfusion
  · rw [serve_unauthorized hauth]
    exact iff_of_false (fun h => h rfl) hauth

theorem eventsOf_own {peer : IpAddr} {buckets : Buckets} {a : Arrival} {arrivals : List Arrival} (hpeer : a.peer.ip = peer)
    (hauth : authorized config a.request) :
    eventsOf peer (responses config buckets (a :: arrivals)) =
      (a.time, decide ((serve config buckets a).1 = .next)) ::
        eventsOf peer (responses config (serve config buckets a).2 arrivals) := by
  rw [responses, eventsOf, List.filter_cons_of_pos (by simp [hpeer, serve_ne_unauthorized, hauth]), List.map_cons]
  rfl

theorem eventsOf_other {peer : IpAddr} {buckets : Buckets} {a : Arrival} {arrivals : List Arrival}
    (h : ¬ (a.peer.ip = peer ∧ authorized config a.request)) :
    eventsOf peer (responses config buckets (a :: arrivals)) =
      eventsOf peer (responses config (serve config buckets a).2 arrivals) := by
  rw [responses, eventsOf, List.filter_cons_of_neg]
  · rfl
  · rw [decide_eq_true_eq, serve_ne_unauthorized]
    exact h

theorem arrivalsOf_own {peer : IpAddr} {a : Arrival} (arrivals : List Arrival) (hpeer : a.peer.ip = peer)
    (hauth : authorized config a.request) :
    arrivalsOf config peer (a :: arrivals) = a.time :: arrivalsOf config peer arrivals := by
  rw [arrivalsOf, List.filter_cons_of_pos (by simp [hpeer, hauth]), List.map_cons]
  rfl

theorem arrivalsOf_other {peer : IpAddr} {a : Arrival} (arrivals : List Arrival)
    (h : ¬ (a.peer.ip = peer ∧ authorized config a.request)) :
    arrivalsOf config peer (a :: arrivals) = arrivalsOf config peer arrivals := by
  rw [arrivalsOf, List.filter_cons_of_neg (by rwa [decide_eq_true_eq])]
  rfl

/-- A request of the peer is one step of its limiter. -/
theorem Follows.own (hlimit : config.rate_limit_per_min = some limit) {buckets : Buckets}
    {win : Option FixedWindow.Window} {a : Arrival} (h : Follows (buckets.lookup (key a.peer.ip)) win a.time)
    (ha : CountedByPeer config key buckets a) (hauth : authorized config a.request) :
    decide ((serve config buckets a).1 = .next) = (FixedWindow.accept WINDOW limit.toNat a.time win).1 ∧
      Follows ((serve config buckets a).2.lookup (key a.peer.ip))
        (some (FixedWindow.accept WINDOW limit.toNat a.time win).2) a.time := by
  obtain ⟨hip, hover⟩ := ha hauth
  obtain ⟨hsame, hafter⟩ := countRequest_own limit (h.boundGrowth hover)
  rw [serve_counted hlimit buckets hauth hip]
  refine ⟨?_, hafter⟩
  rw [← hsame]
  cases (countRequest limit (key a.peer.ip) a.time buckets).1 with
  | false => rfl
  | true => rfl

/-- Any other request leaves the peer's bucket alone: it is refused for its token
or counted under another address. -/
theorem Follows.other (hlimit : config.rate_limit_per_min = some limit) (hkey : Function.Injective key) {peer : IpAddr}
    {buckets : Buckets} {win : Option FixedWindow.Window} {a : Arrival}
    (h : Follows (buckets.lookup (key peer)) win a.time) (ha : CountedByPeer config key buckets a)
    (hother : ¬ (a.peer.ip = peer ∧ authorized config a.request)) :
    Follows ((serve config buckets a).2.lookup (key peer)) win a.time := by
  by_cases hauth : authorized config a.request
  · obtain ⟨hip, hover⟩ := ha hauth
    have hne : key peer ≠ key a.peer.ip := fun hsame => hother ⟨(hkey hsame).symm, hauth⟩
    rw [serve_counted hlimit buckets hauth hip, countRequest_other hne]
    exact h.boundGrowth hover
  · rwa [serve_unauthorized hauth]

/-- What a peer sees of the run is its own limiter at work. -/
theorem events_eq_decisions (hlimit : config.rate_limit_per_min = some limit) (hkey : Function.Injective key)
    (peer : IpAddr) {buckets : Buckets} {win : Option FixedWindow.Window} {now : Nat} {arrivals : List Arrival}
    (hfollows : Follows (buckets.lookup (key peer)) win now)
    (hsorted : (arrivals.map (·.time)).Pairwise (· ≤ ·)) (hnow : ∀ a ∈ arrivals, now ≤ a.time)
    (hok : Along (fun buckets a => (serve config buckets a).2) (CountedByPeer config key) buckets arrivals) :
    eventsOf peer (responses config buckets arrivals) =
      FixedWindow.decisions WINDOW limit.toNat win (arrivalsOf config peer arrivals) := by
  induction arrivals generalizing buckets win now with
  | nil => rfl
  | cons a arrivals ih =>
    obtain ⟨ha, hok⟩ := hok
    rw [List.map_cons, List.pairwise_cons] at hsorted
    obtain ⟨hnext, hsorted⟩ := hsorted
    have hnext : ∀ a' ∈ arrivals, a.time ≤ a'.time := fun a' ha' => hnext _ (List.mem_map_of_mem ha')
    have hat := hfollows.mono (hnow a List.mem_cons_self)
    by_cases hown : a.peer.ip = peer ∧ authorized config a.request
    · obtain ⟨rfl, hauth⟩ := hown
      obtain ⟨hdecision, hafter⟩ := hat.own hlimit ha hauth
      rw [eventsOf_own rfl hauth, arrivalsOf_own arrivals rfl hauth, FixedWindow.decisions, hdecision,
        ih hafter hsorted hnext hok]
    · rw [eventsOf_other hown, arrivalsOf_other arrivals hown, ih (hat.other hlimit hkey ha hown) hsorted hnext hok]

/-- If every request that passes the token check is counted under the address
that stands for its peer, and no drop of the map takes an open bucket along, no
peer gets more than the limit through in a window. -/
theorem rate_limit_binds (config : SecurityConfig) (limit : UInt32) (hlimit : config.rate_limit_per_min = some limit)
    (key : IpAddr → IpAddr) (hkey : Function.Injective key) (arrivals : List Arrival)
    (hsorted : (arrivals.map (·.time)).Pairwise (· ≤ ·))
    (hok : Along (fun buckets a => (serve config buckets a).2) (CountedByPeer config key) ∅ arrivals) :
    BindsEachClient limit (responses config ∅ arrivals) := by
  intro peer
  rw [events_eq_decisions hlimit hkey peer (.inl (by rw [AList.lookup_empty, Option.map_none])) hsorted
    (fun _ _ => Nat.zero_le _) hok]
  refine FixedWindow.bounded_decisions (by decide) ?_
  exact List.Pairwise.sublist (List.filter_sublist.map _) hsorted

end Run

/-- One request a minute, and no token. -/
def onePerMinute : SecurityConfig := ⟨none, some 1⟩

/-- A request of the peer 10.0.0.7. -/
def fromPeer (x_forwarded_for : Option String) (time : Nat) : Arrival :=
  ⟨⟨.v4 10 0 0 7, 40000⟩, none, x_forwarded_for, time⟩

theorem rate_limit_binds_forwarded :
    BindsEachClient 1 (responses onePerMinute ∅ [fromPeer (some "10.0.0.7") 0, fromPeer (some "10.0.0.7") (10 ^ 9)]) :=
  rate_limit_binds onePerMinute 1 rfl id Function.injective_id _ (by decide)
    ⟨fun _ => ⟨clientIp_forwarded none 10 0 0 7, fun h => absurd h (by decide)⟩,
      fun _ => ⟨clientIp_forwarded none 10 0 0 7, fun h => absurd h (by decide +kernel)⟩, trivial⟩

/-- Without the header a request is not counted, with another address each time
it is counted elsewhere: both of two requests at once get through. -/
theorem rate_limit_evaded :
    ¬ BindsEachClient 1 (responses onePerMinute ∅ [fromPeer none 0, fromPeer none 0]) ∧
      ¬ BindsEachClient 1 (responses onePerMinute ∅ [fromPeer (some "10.1.1.1") 0, fromPeer (some "10.1.1.2") 0]) := by
  refine ⟨fun h => ?_, fun h => ?_⟩
  · exact absurd (h (.v4 10 0 0 7) 0 (by decide +kernel)) (by decide +kernel)
  · exact absurd (h (.v4 10 0 0 7) 0 (by decide +kernel)) (by decide +kernel)

end PsobIndexer
