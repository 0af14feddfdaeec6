import Mathlib.Data.List.Basic
/-!
# Unwinding

An observer who owns some of the actions of a run sees what a run of these alone
would show: when the relation `R` between states is kept by an owned action taken
on both sides and by a foreign one taken on the right side only, the run of all
actions stays related to the run of the owned ones. What owned actions answer is
then the same in both runs.
-/

namespace Lib

variable {σ α β : Type}

/-- Foreign actions do not leave the relation, owned ones keep it together. -/
structure Unwinds (step : σ → α → σ) (owned : α → Bool) (R : σ → σ → Prop) : Prop where
  both : ∀ {s s' : σ} {a : α}, owned a = true → R s s' → R (step s a) (step s' a)
  alone : ∀ {s s' : σ} {a : α}, owned a = false → R s s' → R s (step s' a)

/-- The answers of the owned actions along a run. -/
def ownedAnswers (step : σ → α → σ) (answer : σ → α → β) (owned : α → Bool) : σ → List α → List β
  | _, [] => []
  | s, a :: as =>
    if owned a then answer s a :: ownedAnswers step answer owned (step s a) as
    else ownedAnswers step answer owned (step s a) as

variable {step : σ → α → σ} {owned : α → Bool} {R : σ → σ → Prop}

theorem Unwinds.run (h : Unwinds step owned R) {s s' : σ} (hs : R s s') (as : List α) :
    R ((as.filter owned).foldl step s) (as.foldl step s') := by
  induction as generalizing s s' with
  | nil => exact hs
  | cons a as ih =>
    rw [List.foldl_cons]
    cases ha : owned a with
    | true =>
      rw [List.filter_cons_of_pos ha, List.foldl_cons]
      exact ih (h.both ha hs)
    | false =>
      rw [List.filter_cons_of_neg (by simp [ha])]
      exact ih (h.alone ha hs)

theorem Unwinds.ownedAnswers_eq (h : Unwinds step owned R) {answer : σ → α → β}
    (hanswer : ∀ {s s' : σ} {a : α}, owned a = true → R s s' → answer s' a = answer s a) {s s' : σ} (hs : R s s')
    (as : List α) : ownedAnswers step answer owned s' as = ownedAnswers step answer owned s (as.filter owned) := by
  induction as generalizing s s' with
  | nil => rfl
  | cons a as ih =>
    cases ha : owned a with
    | true =>
      rw [List.filter_cons_of_pos ha, ownedAnswers, ownedAnswers, if_pos ha, if_pos ha, hanswer ha hs]
      exact congrArg _ (ih (h.both ha hs))
    | false =>
      rw [List.filter_cons_of_neg (by simp [ha]), ownedAnswers, if_neg (by simp [ha])]
      exact ih (h.alone ha hs)

/-- Two systems that stay related at every action answer alike. -/
theorem ownedAnswers_congr {τ : Type} {step' : τ → α → τ} {answer : σ → α → β} {answer' : τ → α → β} {R : σ → τ → Prop}
    (hstep : ∀ s t a, R s t → R (step s a) (step' t a)) (hanswer : ∀ s t a, R s t → answer' t a = answer s a)
    {s : σ} {t : τ} (hs : R s t) (as : List α) :
    ownedAnswers step' answer' owned t as = ownedAnswers step answer owned s as := by
  induction as generalizing s t with
  | nil => rfl
  | cons a as ih => rw [ownedAnswers, ownedAnswers, hanswer s t a hs, ih (hstep s t a hs)]

end Lib
