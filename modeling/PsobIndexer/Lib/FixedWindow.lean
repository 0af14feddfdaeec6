import Mathlib
/-!
# Fixed-window rate limits

A window opens with an arrival that finds none open, stays open for `width`, and
lets through the first `limit` arrivals in it. Which arrivals open a window is
decided by the arrival times alone, so a sequence of decisions can be judged
without the limiter that made it.
-/

namespace Lib.FixedWindow

/-- When a window opened, and how many it has let through. -/
structure Window where
  start : Nat
  count : Nat
  deriving DecidableEq

section Limiter
variable (width limit : Nat)

/-- The window of an arrival. -/
def roll (now : Nat) : Option Window → Window
  | none => ⟨now, 0⟩
  | some win => if width ≤ now - win.start then ⟨now, 0⟩ else win

def accept (now : Nat) (win : Option Window) : Bool × Window :=
  let win := roll width now win
  if win.count < limit then (true, ⟨win.start, win.count + 1⟩) else (false, win)

/-- The arrivals with what the limiter makes of them. -/
def decisions : Option Window → List Nat → List (Nat × Bool)
  | _, [] => []
  | win, now :: arrivals =>
    (now, (accept width limit now win).1) :: decisions (some (accept width limit now win).2) arrivals

/-- The arrivals that open a window; `start` is when the last one before them did. -/
def openings : Option Nat → List Nat → List Nat
  | _, [] => []
  | start, now :: arrivals =>
    if start.all (fun s => width ≤ now - s) then now :: openings (some now) arrivals else openings start arrivals

/-- How many were let through in the window that opened at `start`. -/
def admitted (events : List (Nat × Bool)) (start : Nat) : Nat :=
  events.countP (fun e => e.2 && start ≤ e.1 && e.1 < start + width)

/-- No window lets more than `limit` through. -/
def Bounded (events : List (Nat × Bool)) : Prop :=
  ∀ start ∈ openings width none (events.map (·.1)), admitted width events start ≤ limit

end Limiter

variable {width limit : Nat}

theorem decisions_times (win : Option Window) (arrivals : List Nat) :
    (decisions width limit win arrivals).map (·.1) = arrivals := by
  induction arrivals generalizing win with
  | nil => rfl
  | cons now arrivals ih => rw [decisions, List.map_cons, ih]

/-! ## One arrival -/

theorem accept_start (now : Nat) (win : Option Window) :
    (accept width limit now win).2.start = (roll width now win).start := by
  unfold accept
  simp only
  split
  · rfl
  · rfl

/-- What is let through is counted. -/
theorem accept_count (now : Nat) (win : Option Window) :
    (accept width limit now win).2.count =
      (roll width now win).count + if (accept width limit now win).1 then 1 else 0 := by
  unfold accept
  simp only
  split
  · rfl
  · rfl

theorem accept_count_le {now : Nat} {win : Option Window} (h : (roll width now win).count ≤ limit) :
    (accept width limit now win).2.count ≤ limit := by
  unfold accept
  simp only
  split
  · assumption
  · exact h

/-- An arrival lies in its window. -/
theorem lt_roll (hwidth : 0 < width) (now : Nat) (win : Option Window) : now < (roll width now win).start + width := by
  cases win with
  | none => exact Nat.lt_add_of_pos_right hwidth
  | some w =>
    rw [roll]
    split
    · exact Nat.lt_add_of_pos_right hwidth
    · omega

/-! ## The windows of a sequence -/

/-- A later window opens when the one before it is over. -/
theorem le_of_mem_openings (hwidth : 0 < width) {s start : Nat} {arrivals : List Nat}
    (h : start ∈ openings width (some s) arrivals) : s + width ≤ start := by
  induction arrivals generalizing s with
  | nil => cases h
  | cons now arrivals ih =>
    simp only [openings, Option.all_some, decide_eq_true_eq] at h
    split at h
    · obtain rfl | h := List.mem_cons.1 h
      · omega
      · have := ih h
        omega
    · exact ih h

theorem admitted_cons_le (width : Nat) (e : Nat × Bool) (events : List (Nat × Bool)) (start : Nat) :
    admitted width (e :: events) start ≤ admitted width events start + if e.2 then 1 else 0 := by
  rw [admitted, admitted, List.countP_cons]
  refine Nat.add_le_add_left ?_ _
  cases e.2 with
  | false => simp
  | true =>
    rw [if_pos rfl]
    split
    · exact le_refl 1
    · exact Nat.zero_le 1

theorem admitted_cons_of_lt {e : Nat × Bool} (events : List (Nat × Bool)) {start : Nat} (h : e.1 < start) :
    admitted width (e :: events) start = admitted width events start := by
  rw [admitted, admitted, List.countP_cons_of_neg]
  simp only [Bool.and_eq_true, decide_eq_true_eq]
  omega

/-- Nothing is let through in a window that is over. -/
theorem admitted_eq_zero {events : List (Nat × Bool)} {start : Nat} (h : ∀ t ∈ events.map (·.1), start + width ≤ t) :
    admitted width events start = 0 := by
  refine List.countP_eq_zero.2 fun e he hin => ?_
  have := h e.1 (List.mem_map_of_mem he)
  simp only [Bool.and_eq_true, decide_eq_true_eq] at hin
  omega

/-- The open window has room for all it will still let through, and so has each
one that opens later. -/
theorem bounded_from (hwidth : 0 < width) {win : Option Window} {arrivals : List Nat}
    (hsorted : arrivals.Pairwise (· ≤ ·)) (hcount : ∀ w ∈ win, w.count ≤ limit) :
    (∀ w ∈ win, admitted width (decisions width limit win arrivals) w.start + w.count ≤ limit) ∧
      ∀ start ∈ openings width (win.map (·.start)) arrivals,
        admitted width (decisions width limit win arrivals) start ≤ limit := by
  induction arrivals generalizing win with
  | nil => exact ⟨fun w hw => by simpa [decisions, admitted] using hcount w hw, fun start h => by cases h⟩
  | cons now arrivals ih =>
    obtain ⟨hnow, hsorted⟩ := List.pairwise_cons.1 hsorted
    have hroll : (roll width now win).count ≤ limit := by
      cases win with
      | none => exact Nat.zero_le _
      | some w =>
        rw [roll]
        split
        · exact Nat.zero_le _
        · exact hcount w rfl
    obtain ⟨hopen, hlater⟩ := @ih (some (accept width limit now win).2) hsorted
      (fun w hw => by
        cases hw
        exact accept_count_le hroll)
    have hopen := hopen _ rfl
    rw [accept_start, accept_count] at hopen
    rw [Option.map_some, accept_start] at hlater
    rw [decisions]
    -- The window of this arrival, and the ones after it.
    have hthis : admitted width ((now, (accept width limit now win).1) ::
        decisions width limit (some (accept width limit now win).2) arrivals) (roll width now win).start +
        (roll width now win).count ≤ limit := by
      have hcons := admitted_cons_le width (now, (accept width limit now win).1)
        (decisions width limit (some (accept width limit now win).2) arrivals) (roll width now win).start
      simp only at hcons
      omega
    have hnext : ∀ start ∈ openings width (some (roll width now win).start) arrivals,
        admitted width ((now, (accept width limit now win).1) ::
          decisions width limit (some (accept width limit now win).2) arrivals) start ≤ limit := by
      intro start hstart
      have hlt := lt_roll hwidth now win
      have hge := le_of_mem_openings hwidth hstart
      rw [admitted_cons_of_lt _ (by simp only; omega)]
      exact hlater start hstart
    cases win with
    | none =>
      refine ⟨by rintro w ⟨⟩, fun start hstart => ?_⟩
      obtain rfl | hstart := List.mem_cons.1 hstart
      · exact hthis
      · exact hnext start hstart
    | some w =>
      by_cases hover : width ≤ now - w.start
      · have hrolled : roll width now (some w) = ⟨now, 0⟩ := if_pos hover
        rw [hrolled] at hthis hnext
        refine ⟨fun w' hw' => ?_, fun start hstart => ?_⟩
        · cases hw'
          rw [admitted_eq_zero, Nat.zero_add]
          · exact hcount w rfl
          · rw [List.map_cons, decisions_times]
            intro t ht
            obtain ht | ht := List.mem_cons.1 ht
            · have ht : t = now := ht
              omega
            · have := hnow t ht
              omega
        · simp only [openings, Option.map_some, Option.all_some, decide_eq_true_eq, hover, if_true] at hstart
          obtain rfl | hstart := List.mem_cons.1 hstart
          · exact hthis
          · exact hnext start hstart
      · have hrolled : roll width now (some w) = w := if_neg hover
        rw [hrolled] at hthis hnext
        refine ⟨fun w' hw' => ?_, fun start hstart => ?_⟩
        · cases hw'
          exact hthis
        · simp only [openings, Option.map_some, Option.all_some, decide_eq_true_eq, hover, if_false] at hstart
          exact hnext start hstart

/-- A limiter that starts without a window is bounded. -/
theorem bounded_decisions (hwidth : 0 < width) {arrivals : List Nat} (hsorted : arrivals.Pairwise (· ≤ ·)) :
    Bounded width limit (decisions width limit none arrivals) := by
  intro start hstart
  rw [decisions_times] at hstart
  exact (bounded_from hwidth hsorted (by rintro w ⟨⟩)).2 start hstart

end Lib.FixedWindow
