import Mathlib
/-!
# Request pacing (`crates/chain-rpc/src/lib.rs`)

All clones of an Electrs client share one slot that holds the time of the last
request. A call reads the slot, overwrites it with the present time and sleeps
until the minimum gap after the time it read. The slot keeps when the call came,
not when its request goes out, so calls that wait at once do not see each other.
-/

namespace PsobIndexer

/-- `get_raw` up to its first attempt: the new slot, and how long the call sleeps.
The clock is read again for the deadline of an empty slot; it has passed by `now`. -/
def pace (min_request_interval : Nat) (last_request : Option Nat) (now : Nat) : Option Nat × Nat :=
  if min_request_interval = 0 then (last_request, 0)
  else
    let deadline := (last_request.map (· + min_request_interval)).getD now
    (some now, if now < deadline then deadline - now else 0)

/-- The times at which the calls' first attempts start, in order of arrival. -/
def starts (min_request_interval : Nat) : Option Nat → List Nat → List Nat
  | _, [] => []
  | last_request, now :: arrivals =>
    let (slot, wait) := pace min_request_interval last_request now
    (now + wait) :: starts min_request_interval slot arrivals

/-- Each start is the minimum gap or more after the one before it. -/
def Spaced (min_request_interval : Nat) (times : List Nat) : Prop :=
  times.IsChain (fun s s' => s + min_request_interval ≤ s')

instance (min_request_interval : Nat) (times : List Nat) : Decidable (Spaced min_request_interval times) :=
  inferInstanceAs (Decidable (times.IsChain _))

/-- No call that has to wait is followed by another before its own request is a
gap old: of three calls in a row, the second comes a gap after the first, or the
third comes two gaps after it. -/
def NoBurst (min_request_interval : Nat) : List Nat → Prop
  | a :: b :: c :: arrivals =>
    (a + min_request_interval ≤ b ∨ a + 2 * min_request_interval ≤ c) ∧ NoBurst min_request_interval (b :: c :: arrivals)
  | _ => True

section Pacing
variable {interval : Nat}

theorem starts_fresh (hpos : 0 < interval) (now : Nat) (arrivals : List Nat) :
    starts interval none (now :: arrivals) = now :: starts interval (some now) arrivals := by
  have hne : interval ≠ 0 := by omega
  simp [starts, pace, hne]

/-- A call starts when it comes, or a gap after the last call came. -/
theorem starts_after (hpos : 0 < interval) (last now : Nat) (arrivals : List Nat) :
    starts interval (some last) (now :: arrivals) = max now (last + interval) :: starts interval (some now) arrivals := by
  have hne : interval ≠ 0 := by omega
  have hstart : now + (if now < last + interval then last + interval - now else 0) = max now (last + interval) := by
    split <;> omega
  simp only [starts, pace, hne, if_false, Option.map_some, Option.getD_some, hstart]

/-- From the second call on: the gap before each further start is a matter of the
two arrivals before it. -/
theorem spaced_after_iff (hpos : 0 < interval) (a b : Nat) (arrivals : List Nat) :
    Spaced interval (starts interval (some a) (b :: arrivals)) ↔ NoBurst interval (a :: b :: arrivals) := by
  induction arrivals generalizing a b with
  | nil =>
    rw [starts_after hpos]
    simp [starts, Spaced, NoBurst]
  | cons c arrivals ih =>
    have hgap : max b (a + interval) + interval ≤ max c (b + interval) ↔ a + interval ≤ b ∨ a + 2 * interval ≤ c := by
      omega
    have hrest := ih b c
    rw [starts_after hpos] at hrest
    rw [starts_after hpos, starts_after hpos, Spaced, List.isChain_cons_cons, hgap, NoBurst]
    exact and_congr_right fun _ => hrest

/-- First attempts are a gap apart exactly when the calls bring no burst of three. -/
theorem requests_spaced_iff (hpos : 0 < interval) (arrivals : List Nat) :
    Spaced interval (starts interval none arrivals) ↔ NoBurst interval arrivals := by
  match arrivals with
  | [] => simp [starts, Spaced, NoBurst]
  | [a] =>
    rw [starts_fresh hpos]
    simp [starts, Spaced, NoBurst]
  | a :: b :: arrivals =>
    rw [starts_fresh hpos, ← spaced_after_iff hpos, starts_after hpos, Spaced, List.isChain_cons_cons]
    exact and_iff_right (le_max_right b (a + interval))

end Pacing

theorem requests_spaced_pairs : Spaced 100 (starts 100 none [0, 30, 230, 240]) :=
  (requests_spaced_iff (by decide) [0, 30, 230, 240]).2 (by simp [NoBurst])

/-- Three calls at once: the second and the third go out together. -/
theorem burst_not_spaced : starts 100 none [0, 0, 0] = [0, 100, 100] ∧ ¬ Spaced 100 (starts 100 none [0, 0, 0]) := by
  decide

end PsobIndexer
