import PsobIndexer.Lib.Backoff
import PsobIndexer.Lib.Shift
import PsobIndexer.Pacing
import PsobIndexer.Resolve
import PsobIndexer.Settings
/-!
# Retries (`crates/chain-rpc/src/lib.rs`, `src/ingest.rs`)

A request waits for its turn and is repeated while it fails for the moment, and the
loop of a chain goes on after a failed tick. Both sleep for a random part of a delay
that doubles up to a cap. Durations are in nanoseconds.
-/
open Lib

namespace PsobIndexer

/-! ## Delays -/

/-- `Duration::MAX`. -/
def DURATION_MAX : Nat := (2 ^ 64 - 1) * 1000000000 + 999999999

def fromMillis (ms : Nat) : Nat := ms * 1000000

def asMillis (d : Nat) : Nat := d / 1000000

/-- A random part of a delay, in whole milliseconds, or a fixed pause in place of no
delay. `fastrand n` draws from below `n`. There is none if the end of the range
does not fit. -/
def jittered (fastrand : Nat → Nat) (pause_ms capped : Nat) : Option Nat :=
  if capped = 0 then some (fromMillis pause_ms)
  else
    let n := asMillis capped % 2 ^ 64
    if n + 1 = 2 ^ 64 then none else some (fromMillis (fastrand (n + 1)))

/-- What `d` may be where `capped` is the delay. -/
def IsPause (pause_ms capped d : Nat) : Prop := if capped = 0 then d = fromMillis pause_ms else d ≤ capped

section Delays
variable {fastrand : Nat → Nat} {pause_ms capped d : Nat}

theorem jittered_spec (hrand : ∀ n, 0 < n → fastrand n < n) (h : jittered fastrand pause_ms capped = some d) :
    IsPause pause_ms capped d := by
  unfold IsPause
  unfold jittered at h
  split at h
  · rw [if_pos ‹_›]
    exact (Option.some.inj h).symm
  · rw [if_neg ‹_›]
    simp only [Option.ite_none_left_eq_some, Option.some.injEq] at h
    obtain ⟨-, rfl⟩ := h
    have hdraw := Nat.le_of_lt_succ (hrand (asMillis capped % 2 ^ 64 + 1) (Nat.succ_pos _))
    have hmod : asMillis capped % 2 ^ 64 ≤ asMillis capped := Nat.mod_le _ _
    exact (Nat.mul_le_mul_right 1000000 (hdraw.trans hmod)).trans (Nat.div_mul_le_self capped 1000000)

theorem jittered_isSome (hcapped : asMillis capped < 2 ^ 64 - 1) : (jittered fastrand pause_ms capped).isSome := by
  unfold jittered
  split
  · rfl
  · rw [Nat.mod_eq_of_lt (by omega), if_neg (by omega)]
    rfl

theorem IsPause.le (h : IsPause pause_ms capped d) {cap : Nat} (hcap : capped ≤ cap) :
    d ≤ max cap (fromMillis pause_ms) := by
  unfold IsPause at h
  split at h
  · rw [h]
    exact le_max_right _ _
  · exact (h.trans hcap).trans (le_max_left _ _)

end Delays

/-! ## Requests -/

structure HttpPolicy where
  max_retries : UInt32
  base_backoff : Nat
  max_backoff : Nat
  min_request_interval : Nat

def HttpPolicy.default : HttpPolicy where
  max_retries := 4
  base_backoff := fromMillis 500
  max_backoff := fromMillis 30000
  min_request_interval := 0

/-- What a send comes to: a response, with the body if it can be read, or an error,
with what it was about. -/
inductive HttpReply where
  | response (status : Nat) (body : Option String)
  | error (connect timeout request : Bool)

inductive GetError where
  | transport
  | status (status : Nat)
  | body
  deriving DecidableEq

/-- A failure worth a retry: 429, any 5xx, and what does not depend on the answer. -/
def HttpReply.transient : HttpReply → Bool
  | .response status _ => status == 429 || isServerError status
  | .error connect timeout request => connect || timeout || request

/-- The delay before the retry of an attempt. -/
def HttpPolicy.delay (policy : HttpPolicy) (attempt : Nat) : Nat :=
  cappedDelay DURATION_MAX policy.base_backoff policy.max_backoff 10 attempt

def backoff (policy : HttpPolicy) (fastrand : Nat → Nat) (attempt : Nat) : Option Nat :=
  jittered fastrand 50 (policy.delay attempt)

/-- What comes of a request: the client's slot, the sleep before the first attempt,
and the last attempt's outcome with the sleeps before the retries. -/
structure Sent (α : Type) where
  last_request : Option Nat
  wait : Nat
  outcome : α
  sleeps : List Nat

section Get
variable (policy : HttpPolicy) (fastrand : Nat → Nat → Nat) (send : Nat → HttpReply) (last_request : Option Nat) (now : Nat)

/-- A request that comes at `now`. -/
def getRaw : Option (Sent HttpReply) := do
  let (slot, wait) := pace policy.min_request_interval last_request now
  let (reply, sleeps) ←
    attempts HttpReply.transient send (fun attempt => backoff policy (fastrand attempt) attempt) policy.max_retries.toNat 0
  return ⟨slot, wait, reply, sleeps⟩

/-- What a caller makes of the last reply. -/
def readReply {α : Type} (read : String → Option α) : HttpReply → Except GetError α
  | .error _ _ _ => .error .transport
  | .response status body =>
    if !isSuccess status then .error (.status status)
    else (body.bind read).elim (.error .body) .ok

/-- A request whose body is read by `read`. -/
def getBody {α : Type} (read : String → Option α) : Option (Sent (Except GetError α)) :=
  (getRaw policy fastrand send last_request now).map fun r => { r with outcome := readReply read r.outcome }

def getText : Option (Sent (Except GetError String)) := getBody policy fastrand send last_request now some

/-- `from_slice` reads a value from a body. -/
def getJson {α : Type} (from_slice : String → Option α) : Option (Sent (Except GetError α)) :=
  getBody policy fastrand send last_request now from_slice

/-- A reply that a caller gets `v` from. -/
def HttpReply.Gives {α : Type} (read : String → Option α) (v : α) : HttpReply → Prop
  | .error _ _ _ => False
  | .response status body => isSuccess status = true ∧ body.bind read = some v

variable {policy fastrand send}

theorem readReply_eq_ok {α : Type} {read : String → Option α} {reply : HttpReply} {v : α} :
    readReply read reply = .ok v ↔ reply.Gives read v := by
  rcases reply with ⟨status, body⟩ | _
  · unfold readReply HttpReply.Gives
    cases hok : isSuccess status with
    | false => simp [hok]
    | true => cases hbody : body.bind read <;> simp [hok, hbody]
  · simp [readReply, HttpReply.Gives]

/-- A success is not worth a retry. -/
theorem HttpReply.Gives.not_transient {α : Type} {read : String → Option α} {reply : HttpReply} {v : α}
    (h : reply.Gives read v) : reply.transient = false := by
  rcases reply with ⟨status, body⟩ | _
  · obtain ⟨hok, -⟩ := h
    simp only [isSuccess, Bool.and_eq_true, decide_eq_true_eq] at hok
    simp only [HttpReply.transient, isServerError, Bool.or_eq_false_iff, beq_eq_false_iff_ne, Bool.and_eq_false_iff,
      decide_eq_false_iff_not]
    omega
  · exact h.elim

theorem backoff_isSome (hcap : asMillis policy.max_backoff < 2 ^ 64 - 1) (fastrand : Nat → Nat) (attempt : Nat) :
    (backoff policy fastrand attempt).isSome := by
  apply jittered_isSome
  exact lt_of_le_of_lt (Nat.div_le_div_right (cappedDelay_le _ _ _ _ _)) hcap

/-- The turn of a request: its slot, and a first attempt a gap after the last request. -/
theorem pace_spec (interval : Nat) (last_request : Option Nat) (now : Nat) :
    (pace interval last_request now).1 = (if interval = 0 then last_request else some now) ∧
      (∀ last, last_request = some last → 0 < interval → last + interval ≤ now + (pace interval last_request now).2) ∧
      ((∀ last, last_request = some last → last ≤ now) → (pace interval last_request now).2 ≤ interval) := by
  unfold pace
  cases last_request with
  | none => split_ifs <;> simp
  | some last =>
    simp only [Option.map_some, Option.getD_some, Option.some.injEq, forall_eq']
    split_ifs with hzero hwait <;> simp only [true_and] <;> omega

variable (policy fastrand send)

/-- The turn, attempts, pauses and outcome of a request. -/
theorem get_retries {α : Type} (read : String → Option α) (hcap : asMillis policy.max_backoff < 2 ^ 64 - 1)
    (hrand : ∀ attempt n, 0 < n → fastrand attempt n < n) :
    ∃ slot wait result sleeps, getBody policy fastrand send last_request now read = some ⟨slot, wait, result, sleeps⟩ ∧
      slot = (if policy.min_request_interval = 0 then last_request else some now) ∧
      (∀ last, last_request = some last → 0 < policy.min_request_interval →
        last + policy.min_request_interval ≤ now + wait) ∧
      ((∀ last, last_request = some last → last ≤ now) → wait ≤ policy.min_request_interval) ∧
      sleeps.length ≤ policy.max_retries.toNat ∧ (∀ j < sleeps.length, (send j).transient = true) ∧
      (sleeps.length = policy.max_retries.toNat ∨ (send sleeps.length).transient = false) ∧
      (∀ j d, sleeps[j]? = some d → IsPause 50 (policy.delay j) d) ∧
      sleeps.sum ≤ sleeps.length * max policy.max_backoff (fromMillis 50) ∧
      ∀ v, result = .ok v ↔ ∃ k ≤ policy.max_retries.toNat, (∀ j < k, (send j).transient = true) ∧ (send k).Gives read v := by
  obtain ⟨reply, sleeps, hraw⟩ := @attempts_isSome _ HttpReply.transient send
    (fun attempt => backoff policy (fastrand attempt) attempt) policy.max_retries.toNat 0 fun j _ _ => backoff_isSome hcap _ _
  have hspec := attempts_spec _ hraw
  have hlast : reply = send sleeps.length := by simpa using hspec.last
  have hbefore : ∀ j < sleeps.length, (send j).transient = true := by
    intro j hj
    simpa using (hspec.before j hj).1
  have hpause : ∀ j d, sleeps[j]? = some d → IsPause 50 (policy.delay j) d := by
    intro j d hd
    obtain ⟨hj, -⟩ := List.getElem?_eq_some_iff.1 hd
    have hdraw := (hspec.before j hj).2
    rw [hd, Nat.zero_add] at hdraw
    exact jittered_spec (hrand j) hdraw
  obtain ⟨hslot, hgap, hwait⟩ := pace_spec policy.min_request_interval last_request now
  refine ⟨_, _, readReply read reply, sleeps, ?_, hslot, hgap, hwait, hspec.bound, hbefore, ?_, hpause, ?_, ?_⟩
  · rw [getBody, getRaw, hraw]
    rfl
  · rw [← hlast]
    exact hspec.settled
  · refine List.sum_le_card_nsmul sleeps _ fun d hd => ?_
    obtain ⟨j, hj⟩ := List.mem_iff_getElem?.1 hd
    exact (hpause j d hj).le (cappedDelay_le _ _ _ _ _)
  · intro v
    rw [readReply_eq_ok, hlast]
    constructor
    · intro hgives
      exact ⟨sleeps.length, hspec.bound, hbefore, hgives⟩
    · rintro ⟨k, hk, hk', hgives⟩
      -- a success ends the attempts
      have hlen := hspec.eq_first hk (by simpa using hk') (.inl (by simpa using hgives.not_transient))
      rw [hlen]
      exact hgives

/-- Two attempts that are turned away, then an answer. -/
def busyTwice (attempt : Nat) : HttpReply := if attempt < 2 then .response 429 none else .response 200 (some "7")

/-- A second apart from the last request. -/
def politePolicy : HttpPolicy := { HttpPolicy.default with min_request_interval := fromMillis 1000 }

theorem get_retries_busy :
    (∃ slot wait result sleeps, getText politePolicy (fun _ n => n - 1) busyTwice (some 0) 5 = some ⟨slot, wait, result, sleeps⟩ ∧
      0 + fromMillis 1000 ≤ 5 + wait ∧
      (result = .ok "7" ↔ ∃ k ≤ 4, (∀ j < k, (busyTwice j).transient = true) ∧ (busyTwice k).Gives some "7")) ∧
    ∃ slot wait result sleeps,
      getJson politePolicy (fun _ n => n - 1) busyTwice none 5 String.toNat? = some ⟨slot, wait, result, sleeps⟩ ∧
      slot = some 5 ∧
      (result = .ok 7 ↔ ∃ k ≤ 4, (∀ j < k, (busyTwice j).transient = true) ∧ (busyTwice k).Gives String.toNat? 7) := by
  have hrand : ∀ attempt n, 0 < n → (fun _ n => n - 1 : Nat → Nat → Nat) attempt n < n := fun _ n hn => Nat.sub_lt hn Nat.one_pos
  constructor
  · obtain ⟨slot, wait, result, sleeps, hget, -, hgap, -, -, -, -, -, -, hok⟩ :=
      get_retries politePolicy (fun _ n => n - 1) busyTwice (some 0) 5 some (by decide) hrand
    exact ⟨slot, wait, result, sleeps, hget, hgap 0 rfl (by decide), hok "7"⟩
  · obtain ⟨slot, wait, result, sleeps, hget, hslot, -, -, -, -, -, -, -, hok⟩ :=
      get_retries politePolicy (fun _ n => n - 1) busyTwice none 5 String.toNat? (by decide) hrand
    exact ⟨slot, wait, result, sleeps, hget, hslot, hok 7⟩

end Get

/-! ## The loop of a chain -/

/-- The failures in a row and the chain's counters. -/
structure ChainTask where
  consecutive_failures : UInt32
  ingest_ticks : Nat
  ingest_errors : Nat
  ingest_blocks : Nat

def ChainTask.start : ChainTask := ⟨0, 0, 0, 0⟩

/-- The delay after so many failures in a row. -/
def RetryConfig.delay (retry : RetryConfig) (failures : UInt32) : Nat :=
  cappedDelay DURATION_MAX (fromMillis retry.base_backoff.toNat) (fromMillis retry.max_backoff.toNat) 12 failures.toNat

def backoffDelay (retry : RetryConfig) (fastrand : Nat → Nat) (failures : UInt32) : Option Nat :=
  jittered fastrand 250 (retry.delay failures)

section ChainLoop
variable (profile : Profile) (config : NodeConfig) (fastrand : Nat → Nat → Nat)

/-- One turn: what the tick leaves behind and how long the task sleeps. -/
def chainTurn (fastrand : Nat → Nat) (task : ChainTask) : Except IngestError IngestBatch → Option (ChainTask × Nat)
  | .ok batch =>
    some ({ task with
      consecutive_failures := 0
      ingest_ticks := task.ingest_ticks + 1
      ingest_blocks := task.ingest_blocks + batch.blocks.length }, config.poll_interval.toNat * 1000000000)
  | .error _ =>
    -- `consecutive_failures += 1` panics where overflow is checked, and wraps elsewhere
    if profile = .debug ∧ task.consecutive_failures.toNat + 1 = 2 ^ 32 then none
    else do
      let failures := task.consecutive_failures + 1
      let delay ← backoffDelay config.retry fastrand failures
      return ({ task with
        consecutive_failures := failures
        ingest_ticks := task.ingest_ticks + 1
        ingest_errors := task.ingest_errors + 1 }, delay)

/-- The turns of a loop, with its sleeps. -/
def chainTurns (outcomes : List (Except IngestError IngestBatch)) : Option (ChainTask × List Nat) :=
  outcomes.foldlM (fun (task, sleeps) outcome => do
    let (task, sleep) ← chainTurn profile config (fastrand sleeps.length) task outcome
    return (task, sleeps ++ [sleep])) (.start, [])

/-- The failures at the end of a run. -/
def failuresInRow (outcomes : List (Except IngestError IngestBatch)) : Nat :=
  (outcomes.reverse.takeWhile fun outcome => !outcome.isOk).length

/-- How long a task may sleep after the last of its ticks. -/
def SleepsFor (outcomes : List (Except IngestError IngestBatch)) (outcome : Except IngestError IngestBatch) (sleep : Nat) :
    Prop :=
  if outcome.isOk then sleep = config.poll_interval.toNat * 1000000000
  else IsPause 250 (config.retry.delay (UInt32.ofNat (failuresInRow (outcomes ++ [outcome])))) sleep

/-- What the ticks of a run come to. -/
structure Turned (outcomes : List (Except IngestError IngestBatch)) (task : ChainTask) (sleeps : List Nat) : Prop where
  failures : task.consecutive_failures = UInt32.ofNat (failuresInRow outcomes)
  ticks : task.ingest_ticks = outcomes.length
  errors : task.ingest_errors = outcomes.countP fun outcome => !outcome.isOk
  blocks : task.ingest_blocks = (outcomes.map fun outcome => (outcome.toOption.elim [] (·.blocks)).length).sum
  length : sleeps.length = outcomes.length
  sleeps : ∀ i outcome, outcomes[i]? = some outcome →
    ∃ sleep, sleeps[i]? = some sleep ∧ SleepsFor config (outcomes.take i) outcome sleep

variable {profile config fastrand}

theorem failuresInRow_ok (outcomes : List (Except IngestError IngestBatch)) (batch : IngestBatch) :
    failuresInRow (outcomes ++ [.ok batch]) = 0 := by
  simp [failuresInRow, Except.isOk, Except.toBool]

theorem failuresInRow_error (outcomes : List (Except IngestError IngestBatch)) (e : IngestError) :
    failuresInRow (outcomes ++ [.error e]) = failuresInRow outcomes + 1 := by
  simp [failuresInRow, Except.isOk, Except.toBool]

/-- A turn carries the account of the run on. -/
theorem Turned.turn {outcomes : List (Except IngestError IngestBatch)} {task task' : ChainTask} {sleeps : List Nat}
    {outcome : Except IngestError IngestBatch} {sleep : Nat} {rand : Nat → Nat} (hrand : ∀ n, 0 < n → rand n < n)
    (h : Turned config outcomes task sleeps) (hturn : chainTurn profile config rand task outcome = some (task', sleep)) :
    Turned config (outcomes ++ [outcome]) task' (sleeps ++ [sleep]) := by
  have hsleeps : SleepsFor config outcomes outcome sleep → ∀ i o, (outcomes ++ [outcome])[i]? = some o →
      ∃ d, (sleeps ++ [sleep])[i]? = some d ∧ SleepsFor config ((outcomes ++ [outcome]).take i) o d := by
    intro hlast i o ho
    rcases Nat.lt_trichotomy i outcomes.length with hi | rfl | hi
    · rw [List.getElem?_append_left hi] at ho
      rw [List.getElem?_append_left (h.length ▸ hi), List.take_append_of_le_length hi.le]
      exact h.sleeps i o ho
    · rw [List.getElem?_concat_length] at ho
      cases ho
      rw [← h.length, List.getElem?_concat_length, h.length, List.take_left]
      exact ⟨sleep, rfl, hlast⟩
    · rw [List.getElem?_eq_none (by simpa using hi)] at ho
      cases ho
  cases outcome with
  | ok batch =>
    cases hturn
    refine ⟨by rw [failuresInRow_ok]; rfl, by simp [h.ticks], ?_, ?_, by simp [h.length], hsleeps ?_⟩
    · simp [h.errors, Except.isOk, Except.toBool]
    · simp [h.blocks, Except.toOption]
    · simp [SleepsFor, Except.isOk, Except.toBool]
  | error e =>
    unfold chainTurn at hturn
    rw [Option.ite_none_left_eq_some] at hturn
    obtain ⟨-, hturn⟩ := hturn
    obtain ⟨delay, hdelay, hturn⟩ := Option.bind_eq_some_iff.1 hturn
    cases hturn
    have hfailures : task.consecutive_failures + 1 = UInt32.ofNat (failuresInRow (outcomes ++ [.error e])) := by
      rw [failuresInRow_error, UInt32.ofNat_add, h.failures]
      rfl
    refine ⟨hfailures, by simp [h.ticks], ?_, ?_, by simp [h.length], hsleeps ?_⟩
    · simp [h.errors, Except.isOk, Except.toBool]
    · simp [h.blocks, Except.toOption]
    · simp only [SleepsFor, Except.isOk, Except.toBool, Bool.false_eq_true, if_false]
      rw [← hfailures]
      exact jittered_spec hrand hdelay

theorem turned_start : Turned config [] .start [] :=
  ⟨rfl, rfl, rfl, rfl, rfl, fun i outcome h => by simp at h⟩

theorem backoffDelay_isSome {retry : RetryConfig} (hcap : retry.max_backoff.toNat < 2 ^ 64 - 1) (rand : Nat → Nat)
    (failures : UInt32) : (backoffDelay retry rand failures).isSome := by
  apply jittered_isSome
  refine lt_of_le_of_lt (Nat.div_le_div_right (cappedDelay_le _ _ _ _ _)) ?_
  rw [fromMillis, Nat.mul_div_cancel _ (by decide)]
  exact hcap

variable (profile config fastrand)

/-- However its ticks end, the loop of a chain goes on, counts them, and sleeps the
poll interval after a success and up to a doubling, capped delay after each failure
of a row; in a debug build while rows of failures stay below `2 ^ 32`. -/
theorem chain_loop_paced (hcap : config.retry.max_backoff.toNat < 2 ^ 64 - 1)
    (hrand : ∀ turn n, 0 < n → fastrand turn n < n) (outcomes : List (Except IngestError IngestBatch))
    (hrow : profile = .debug → ∀ i, failuresInRow (outcomes.take i) < 2 ^ 32) :
    ∃ task sleeps, chainTurns profile config fastrand outcomes = some (task, sleeps) ∧ Turned config outcomes task sleeps := by
  induction outcomes using List.reverseRecOn with
  | nil => exact ⟨_, _, rfl, turned_start⟩
  | append_singleton outcomes outcome ih =>
    have hbefore : profile = .debug → ∀ i, failuresInRow (outcomes.take i) < 2 ^ 32 := by
      intro hdebug i
      have h := hrow hdebug (min i outcomes.length)
      rwa [List.take_append_of_le_length (Nat.min_le_right _ _), ← List.take_eq_take_min] at h
    obtain ⟨task, sleeps, hrun, hturned⟩ := ih hbefore
    obtain ⟨task', sleep, hturn⟩ : ∃ task' sleep,
        chainTurn profile config (fastrand sleeps.length) task outcome = some (task', sleep) := by
      cases outcome with
      | ok batch => exact ⟨_, _, rfl⟩
      | error e =>
        obtain ⟨delay, hdelay⟩ := Option.isSome_iff_exists.1
          (backoffDelay_isSome hcap (fastrand sleeps.length) (task.consecutive_failures + 1))
        have hfits : ¬ (profile = .debug ∧ task.consecutive_failures.toNat + 1 = 2 ^ 32) := by
          rintro ⟨hdebug, hmax⟩
          have hlast := hrow hdebug (outcomes.length + 1)
          rw [List.take_of_length_le (by simp), failuresInRow_error] at hlast
          have hlt : failuresInRow outcomes < 2 ^ 32 := Nat.lt_of_succ_lt hlast
          rw [hturned.failures, UInt32.toNat_ofNat_of_lt' hlt] at hmax
          omega
        exact ⟨_, _, by rw [chainTurn, if_neg hfits]; simp only [hdelay]; rfl⟩
    refine ⟨task', sleeps ++ [sleep], ?_, hturned.turn (hrand _) hturn⟩
    unfold chainTurns at hrun ⊢
    rw [List.foldlM_append, hrun]
    simp [hturn]

/-- The defaults, with no chain. -/
def defaultConfig : NodeConfig := assemble 64 (fun _ => none) none [] [] "litecoin"

theorem chain_loop_paced_default : ∃ task sleeps,
    chainTurns .debug defaultConfig (fun _ n => n - 1) [.error .tipHeight, .error .tipHeight, .ok ⟨[], []⟩] =
        some (task, sleeps) ∧
      task.ingest_errors = 2 ∧ SleepsFor defaultConfig [.error .tipHeight] (.error .tipHeight) (sleeps.getD 1 0) := by
  have hrow : ∀ i, failuresInRow ([.error .tipHeight, .error .tipHeight, .ok ⟨[], []⟩].take i) < 2 ^ 32 := by
    intro i
    refine lt_of_le_of_lt (List.takeWhile_sublist _).length_le ?_
    rw [List.length_reverse]
    exact lt_of_le_of_lt (List.length_take_le' i _) (by decide)
  obtain ⟨task, sleeps, hrun, h⟩ := chain_loop_paced .debug defaultConfig (fun _ n => n - 1) (by decide +kernel)
    (fun _ n hn => Nat.sub_lt hn Nat.one_pos) [.error .tipHeight, .error .tipHeight, .ok ⟨[], []⟩] fun _ => hrow
  obtain ⟨sleep, hsleep, hpause⟩ := h.sleeps 1 _ rfl
  exact ⟨task, sleeps, hrun, h.errors, by rw [List.getD_eq_getElem?_getD, hsleep]; exact hpause⟩

end ChainLoop

end PsobIndexer
