import Mathlib
/-!
# Runs

A run applies a list of actions one after another. `Along` says that each
action meets a condition in the state it is applied to; an invariant that such
actions keep holds at the end of the run.
-/

namespace Lib

variable {σ α : Type}

/-- Each action of the run meets `ok` in its state. -/
def Along (step : σ → α → σ) (ok : σ → α → Prop) : σ → List α → Prop
  | _, [] => True
  | s, a :: as => ok s a ∧ Along step ok (step s a) as

variable {step : σ → α → σ} {ok : σ → α → Prop}

instance Along.decidable [∀ s a, Decidable (ok s a)] : ∀ s as, Decidable (Along step ok s as)
  | _, [] => .isTrue trivial
  | s, a :: as =>
    have := Along.decidable (step s a) as
    inferInstanceAs (Decidable (ok s a ∧ Along step ok (step s a) as))

theorem Along.invariant {I : σ → Prop} (hstep : ∀ s a, I s → ok s a → I (step s a)) {s : σ} {as : List α}
    (h : Along step ok s as) (hi : I s) : I (as.foldl step s) := by
  induction as generalizing s with
  | nil => exact hi
  | cons a as ih => exact ih h.2 (hstep s a hi h.1)

theorem Along.mono {ok' : σ → α → Prop} (hmono : ∀ s a, ok s a → ok' s a) {s : σ} {as : List α}
    (h : Along step ok s as) : Along step ok' s as := by
  induction as generalizing s with
  | nil => trivial
  | cons a as ih => exact ⟨hmono s a h.1, ih h.2⟩

theorem along_of_forall {ok : α → Prop} {s : σ} {as : List α} (h : ∀ a ∈ as, ok a) : Along step (fun _ => ok) s as := by
  induction as generalizing s with
  | nil => trivial
  | cons a as ih =>
    obtain ⟨ha, has⟩ := List.forall_mem_cons.1 h
    exact ⟨ha, ih has⟩

theorem along_append {s : σ} {as bs : List α} :
    Along step ok s (as ++ bs) ↔ Along step ok s as ∧ Along step ok (as.foldl step s) bs := by
  induction as generalizing s with
  | nil => simp [Along]
  | cons a as ih => simp only [List.cons_append, Along, ih, List.foldl_cons, and_assoc]

end Lib
