import Mathlib
/-!
# Catching up with a target

A position follows a track towards a target. While it is past the fork it goes
back one place at a time; at the fork it goes forward by whole batches, taking
the fork with it. A step is skipped when position plus batch reaches a bound.
-/

namespace Lib

section Chase
variable (bound batch target : Nat)

/-- One step of the position `p.1` with its fork `p.2`. -/
def chase (p : Nat × Nat) : Nat × Nat :=
  if p.1 = target ∨ bound ≤ p.1 + batch then p
  else if p.2 < p.1 then (p.1 - 1, p.2)
  else (min (p.1 + batch) target, min (p.1 + batch) target)

/-- The number of batches from the fork to the target. -/
def batches (fork : Nat) : Nat := (target - fork + (batch - 1)) / batch

variable {bound batch target}

theorem batches_spec (hbatch : 1 ≤ batch) {fork : Nat} (hfork : fork < target) :
    1 ≤ batches batch target fork ∧ fork + (batches batch target fork - 1) * batch < target ∧
      target ≤ fork + batches batch target fork * batch := by
  have hdiv := Nat.div_add_mod (target - fork + (batch - 1)) batch
  have hmod := Nat.mod_lt (target - fork + (batch - 1)) hbatch
  have hpos : 1 ≤ batches batch target fork := by
    unfold batches
    rw [Nat.le_div_iff_mul_le hbatch]
    omega
  have hk : (batches batch target fork - 1) * batch = batches batch target fork * batch - batch := by
    rw [Nat.sub_mul, Nat.one_mul]
  have hle : batch ≤ batches batch target fork * batch := Nat.le_mul_of_pos_left _ hpos
  have hcomm : batches batch target fork * batch = batch * ((target - fork + (batch - 1)) / batch) := Nat.mul_comm _ _
  refine ⟨hpos, ?_, ?_⟩ <;> omega

/-- The target is never passed. -/
theorem chase_le {p : Nat × Nat} (h : p.1 ≤ target) (n : Nat) : ((chase bound batch target)^[n] p).1 ≤ target := by
  induction n with
  | zero => exact h
  | succ n ih =>
    rw [Function.iterate_succ_apply']
    unfold chase
    split_ifs
    · exact ih
    · exact le_trans (Nat.sub_le _ _) ih
    · exact min_le_right _ _

/-- A skipped step is skipped forever. -/
theorem chase_stuck {p : Nat × Nat} (h : bound ≤ p.1 + batch) (n : Nat) : (chase bound batch target)^[n] p = p := by
  have hone : chase bound batch target p = p := by
    unfold chase
    rw [if_pos (.inr h)]
  exact Function.iterate_fixed hone n

theorem chase_back {cur fork : Nat} (hcur : cur < target) (hroom : cur + batch < bound) {n : Nat} (hn : n ≤ cur - fork) :
    (chase bound batch target)^[n] (cur, fork) = (cur - n, fork) := by
  induction n with
  | zero => rfl
  | succ n ih =>
    rw [Function.iterate_succ_apply', ih (by omega)]
    have hgo : ¬ (cur - n = target ∨ bound ≤ cur - n + batch) := by omega
    have hpast : fork < cur - n := by omega
    unfold chase
    simp only [hgo, if_false, hpast, if_true, Prod.mk.injEq, and_true]
    omega

theorem chase_forward {fork : Nat} (htarget : target ≤ bound) {n : Nat} (hn : fork + n * batch < target) :
    (chase bound batch target)^[n] (fork, fork) = (fork + n * batch, fork + n * batch) := by
  induction n with
  | zero => simp
  | succ n ih =>
    rw [Nat.succ_mul] at hn
    rw [Function.iterate_succ_apply', ih (by omega)]
    have hgo : ¬ (fork + n * batch = target ∨ bound ≤ fork + n * batch + batch) := by omega
    have hmin : min (fork + n * batch + batch) target = fork + (n + 1) * batch := by
      rw [Nat.succ_mul]
      omega
    unfold chase
    simp only [hgo, if_false, lt_irrefl, hmin]

variable (hbatch : 1 ≤ batch) (htarget : target ≤ bound) {cur fork : Nat} (hcur : cur < target) (hfork : fork ≤ cur)

include hbatch htarget hcur hfork

/-- Where the position is before the last batch. -/
theorem chase_last (hroom : cur + batch < bound) :
    (chase bound batch target)^[cur - fork + (batches batch target fork - 1)] (cur, fork) =
      (fork + (batches batch target fork - 1) * batch, fork + (batches batch target fork - 1) * batch) := by
  obtain ⟨-, hlast, -⟩ := batches_spec hbatch (lt_of_le_of_lt hfork hcur)
  have hback := chase_back hcur hroom (le_refl (cur - fork))
  have hzero : cur - (cur - fork) = fork := by omega
  rw [Nat.add_comm, Function.iterate_add_apply, hback, hzero, chase_forward htarget hlast]

/-- The target is reached after the steps back and one step for each batch. -/
theorem chase_reaches (hroom : cur + batch < bound) (hend : fork + batches batch target fork * batch < bound) :
    (chase bound batch target)^[cur - fork + batches batch target fork] (cur, fork) = (target, target) := by
  obtain ⟨hpos, hlast, hcover⟩ := batches_spec hbatch (lt_of_le_of_lt hfork hcur)
  have hsteps : cur - fork + batches batch target fork = (cur - fork + (batches batch target fork - 1)) + 1 := by omega
  have hsub : (batches batch target fork - 1) * batch + batch = batches batch target fork * batch := by
    rw [← Nat.succ_mul]
    congr 1
    omega
  rw [hsteps, Function.iterate_succ_apply', chase_last hbatch htarget hcur hfork hroom]
  have hgo : ¬ (fork + (batches batch target fork - 1) * batch = target ∨
      bound ≤ fork + (batches batch target fork - 1) * batch + batch) := by omega
  have hmin : min (fork + (batches batch target fork - 1) * batch + batch) target = target := by omega
  unfold chase
  simp only [hgo, if_false, lt_irrefl, hmin]

/-- The target is reached at all only if no step is skipped on the way. -/
theorem chase_room {n : Nat} (hn : ((chase bound batch target)^[n] (cur, fork)).1 = target) :
    cur + batch < bound ∧ fork + batches batch target fork * batch < bound := by
  obtain ⟨hpos, hlast, -⟩ := batches_spec hbatch (lt_of_le_of_lt hfork hcur)
  have hroom : cur + batch < bound := by
    by_contra hstuck
    rw [chase_stuck (by simp only; omega)] at hn
    exact absurd hn (ne_of_lt hcur)
  refine ⟨hroom, ?_⟩
  by_contra hstuck
  have hsub : (batches batch target fork - 1) * batch + batch = batches batch target fork * batch := by
    rw [← Nat.succ_mul]
    congr 1
    omega
  rcases Nat.lt_or_ge n (cur - fork) with hback | hforward
  · rw [chase_back hcur hroom hback.le] at hn
    simp only at hn
    omega
  rcases Nat.lt_or_ge (n - (cur - fork)) (batches batch target fork) with hearly | hlate
  · -- a batch before the last one ends below the target
    have hzero : cur - (cur - fork) = fork := by omega
    have hle : (n - (cur - fork)) * batch ≤ (batches batch target fork - 1) * batch := Nat.mul_le_mul_right _ (by omega)
    have hsplit : n = n - (cur - fork) + (cur - fork) := by omega
    rw [hsplit, Function.iterate_add_apply, chase_back hcur hroom (le_refl _), hzero,
      chase_forward htarget (by omega)] at hn
    simp only at hn
    omega
  · have hsplit : n = (n - (cur - fork + (batches batch target fork - 1))) +
        (cur - fork + (batches batch target fork - 1)) := by omega
    rw [hsplit, Function.iterate_add_apply, chase_last hbatch htarget hcur hfork hroom,
      chase_stuck (by simp only; omega)] at hn
    simp only at hn
    omega

end Chase

end Lib
