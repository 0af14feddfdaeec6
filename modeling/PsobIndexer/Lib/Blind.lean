import Mathlib.Data.List.Basic
/-!
# Computations blind to a part of the state

`put` sets one part of a state. A computation is blind to that part when it neither
reads nor writes it: with the part replaced it answers the same and leaves the
replacement in place. States that differ in the part only then stay such states.
-/

namespace Lib

variable {π σ β : Type}

def Blind (put : π → σ → σ) (f : σ → β × σ) : Prop := ∀ p s, f (put p s) = ((f s).1, put p (f s).2)

/-- `s'` is `s`, but for the part. -/
def SameBut (put : π → σ → σ) (s s' : σ) : Prop := ∃ p, s' = put p s

variable {put : π → σ → σ}

theorem Blind.pure (b : β) : Blind put fun s => (b, s) := fun _ _ => rfl

theorem Blind.sameBut {f : σ → β × σ} (hf : Blind put f) {s s' : σ} (h : SameBut put s s') :
    (f s').1 = (f s).1 ∧ SameBut put (f s).2 (f s').2 := by
  obtain ⟨p, rfl⟩ := h
  rw [hf p s]
  exact ⟨rfl, p, rfl⟩

/-- What a blind computation leaves of the part is what there was. -/
theorem Blind.keeps {f : σ → β × σ} (hf : Blind put f) {get : σ → π} (hput : ∀ p s, get (put p s) = p)
    (hget : ∀ s, put (get s) s = s) (s : σ) : get (f s).2 = get s := by
  have h := hf (get s) s
  rw [hget] at h
  exact (congrArg (fun r => get r.2) h).trans (hput _ _)

theorem SameBut.refl {get : σ → π} (hget : ∀ s, put (get s) s = s) (s : σ) : SameBut put s s := ⟨get s, (hget s).symm⟩

/-- A change of the part only, on one side. -/
theorem SameBut.trans (hput : ∀ p q s, put p (put q s) = put p s) {s s' s'' : σ} (h : SameBut put s s')
    (h' : SameBut put s' s'') : SameBut put s s'' := by
  obtain ⟨p, rfl⟩ := h
  obtain ⟨q, rfl⟩ := h'
  exact ⟨q, hput q p s⟩

end Lib
