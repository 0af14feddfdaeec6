import Mathlib
/-!
# Retries with a capped backoff

An attempt that fails for the moment is repeated a bounded number of times, after
a pause. The pauses are random parts of delays that double up to a cap.
-/

namespace Lib

/-! ## Delays -/

/-- `base` doubled `attempt` times, `steps` times at most, up to `limit` and `cap`. -/
def cappedDelay (limit base cap steps attempt : Nat) : Nat := min (min (base * 2 ^ min attempt steps) limit) cap

theorem cappedDelay_le (limit base cap steps attempt : Nat) : cappedDelay limit base cap steps attempt ≤ cap :=
  min_le_right _ _

/-! ## Attempts -/

section Attempts
variable {α : Type} (transient : α → Bool) (send : Nat → α) (pause : Nat → Option Nat)

/-- Attempts from number `i` on, with `left` retries left: the last outcome and the
pauses before the retries. -/
def attempts : Nat → Nat → Option (α × List Nat)
  | 0, i => some (send i, [])
  | left + 1, i =>
    if transient (send i) then do
      let p ← pause i
      let r ← attempts left (i + 1)
      return (r.1, p :: r.2)
    else some (send i, [])

/-- What such attempts come to: all but the last failed for the moment and were
followed by their pause, and the last did not or was the last one allowed. -/
structure Attempts (left i : Nat) (r : α) (pauses : List Nat) : Prop where
  bound : pauses.length ≤ left
  last : r = send (i + pauses.length)
  before : ∀ j < pauses.length, transient (send (i + j)) = true ∧ pause (i + j) = pauses[j]?
  settled : pauses.length = left ∨ transient r = false

variable {transient send pause}

theorem attempts_spec (left : Nat) : ∀ {i : Nat} {r : α} {pauses : List Nat},
    attempts transient send pause left i = some (r, pauses) → Attempts transient send pause left i r pauses := by
  induction left with
  | zero =>
    intro i r pauses h
    cases h
    exact ⟨le_rfl, rfl, fun j hj => absurd hj (Nat.not_lt_zero j), .inl rfl⟩
  | succ left ih =>
    intro i r pauses h
    unfold attempts at h
    split at h
    · rename_i htransient
      obtain ⟨p, hp, h⟩ := Option.bind_eq_some_iff.1 h
      obtain ⟨⟨r', pauses'⟩, hr', h⟩ := Option.bind_eq_some_iff.1 h
      cases h
      have hrest := ih hr'
      refine ⟨Nat.succ_le_succ hrest.bound, ?_, ?_, ?_⟩
      · rw [hrest.last, List.length_cons, Nat.add_right_comm, Nat.add_assoc]
      · intro j hj
        rcases j with _ | j
        · exact ⟨htransient, by simpa using hp⟩
        · have hbefore := hrest.before j (Nat.lt_of_succ_lt_succ hj)
          rw [Nat.add_right_comm, Nat.add_assoc] at hbefore
          simpa using hbefore
      · rcases hrest.settled with hleft | hdone
        · exact .inl (congrArg (· + 1) hleft)
        · exact .inr hdone
    · rename_i htransient
      cases h
      exact ⟨Nat.zero_le _, rfl, fun j hj => absurd hj (Nat.not_lt_zero j), .inr (by simpa using htransient)⟩

theorem attempts_isSome (left : Nat) : ∀ {i : Nat}, (∀ j, i ≤ j → j < i + left → (pause j).isSome) →
    ∃ r pauses, attempts transient send pause left i = some (r, pauses) := by
  induction left with
  | zero =>
    intro i _
    exact ⟨_, _, rfl⟩
  | succ left ih =>
    intro i hpause
    unfold attempts
    split
    · obtain ⟨p, hp⟩ := Option.isSome_iff_exists.1 (hpause i le_rfl (by omega))
      obtain ⟨r, pauses, hr⟩ := ih (i := i + 1) fun j hij hj => hpause j (by omega) (by omega)
      exact ⟨r, p :: pauses, by simp [hp, hr]⟩
    · exact ⟨_, _, rfl⟩

/-- The last outcome is the first one that is not transient, if the attempts allowed
reach one. -/
theorem Attempts.eq_first {left i : Nat} {r : α} {pauses : List Nat} (h : Attempts transient send pause left i r pauses)
    {k : Nat} (hk : k ≤ left) (hbefore : ∀ j < k, transient (send (i + j)) = true)
    (hdone : transient (send (i + k)) = false ∨ k = left) : pauses.length = k := by
  rcases Nat.lt_trichotomy pauses.length k with hlt | heq | hgt
  · rcases h.settled with hleft | hr
    · omega
    · rw [h.last, hbefore _ hlt] at hr
      cases hr
  · exact heq
  · rcases hdone with hk' | hk'
    · rw [(h.before k hgt).1] at hk'
      cases hk'
    · exact absurd h.bound (by omega)

end Attempts

end Lib
