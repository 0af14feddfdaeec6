import Mathlib
/-!
# Fallible computations

Lemmas that peel an `Except` do-block apart: a failed step ends the block, and
a block that succeeds has succeeded at every step.
-/

namespace Lib

variable {ε α β : Type}

@[simp] theorem throw_bind (e : ε) (f : α → Except ε β) : (throw e >>= f) = (throw e : Except ε β) := rfl

@[simp] theorem map_throw (e : ε) (f : α → β) : f <$> (throw e : Except ε α) = throw e := rfl

@[simp] theorem throw_ne_ok (e : ε) (a : α) : (throw e : Except ε α) = .ok a ↔ False := by
  constructor
  · intro h
    cases h
  · exact False.elim

@[simp] theorem pure_eq_ok_iff (a b : α) : (pure a : Except ε α) = .ok b ↔ a = b := by
  constructor
  · intro h
    cases h
    rfl
  · intro h
    rw [h]
    rfl

theorem except_bind_eq_ok {x : Except ε α} {f : α → Except ε β} {b : β} :
    (x >>= f) = .ok b ↔ ∃ a, x = .ok a ∧ f a = .ok b := by
  cases x with
  | error e =>
    constructor
    · intro h
      cases h
    · rintro ⟨a, h, -⟩
      cases h
  | ok a =>
    constructor
    · intro h
      exact ⟨a, rfl, h⟩
    · rintro ⟨a', h, hf⟩
      cases h
      exact hf

/-- A guard at the head of a block. -/
theorem ite_throw_eq_ok {c : Prop} [Decidable c] {e : ε} {x : Except ε α} {a : α} :
    (if c then throw e else x) = .ok a ↔ ¬ c ∧ x = .ok a := by
  by_cases hc : c
  · simp [hc]
  · simp [hc]

/-- `ok_or`. -/
theorem elim_throw_eq_ok {e : ε} {o : Option α} {a : α} :
    (o.elim (throw e) pure : Except ε α) = .ok a ↔ o = some a := by
  cases o with
  | none => simp
  | some b => simp

/-- `ensure!`. -/
theorem ite_throw_pure_eq_ok {c : Prop} [Decidable c] {e : ε} {u : Unit} :
    ((if c then throw e else pure ()) : Except ε Unit) = .ok u ↔ ¬ c := by
  by_cases hc : c
  · simp [hc]
  · simp [hc]

theorem mapError_eq_ok {ε' : Type} {f : ε → ε'} {x : Except ε α} {a : α} : x.mapError f = .ok a ↔ x = .ok a := by
  cases x with
  | error e => simp [Except.mapError]
  | ok b => simp [Except.mapError]

theorem isOk_iff {x : Except ε α} : x.isOk ↔ ∃ a, x = .ok a := by
  cases x with
  | error e => simp [Except.isOk, Except.toBool]
  | ok a => simp [Except.isOk, Except.toBool]

theorem mapM_ok_length {f : α → Except ε β} {l : List α} {r : List β} (h : l.mapM f = .ok r) : r.length = l.length := by
  induction l generalizing r with
  | nil =>
    cases h
    rfl
  | cons a l ih =>
    rw [List.mapM_cons] at h
    obtain ⟨b, -, h⟩ := except_bind_eq_ok.1 h
    obtain ⟨bs, hbs, h⟩ := except_bind_eq_ok.1 h
    cases h
    rw [List.length_cons, List.length_cons, ih hbs]

theorem mapM_ok_getElem? {f : α → Except ε β} {l : List α} {r : List β} (h : l.mapM f = .ok r) {i : Nat} {a : α} {b : β}
    (ha : l[i]? = some a) (hb : r[i]? = some b) : f a = .ok b := by
  induction l generalizing r i with
  | nil => cases ha
  | cons x l ih =>
    rw [List.mapM_cons] at h
    obtain ⟨y, hy, h⟩ := except_bind_eq_ok.1 h
    obtain ⟨ys, hys, h⟩ := except_bind_eq_ok.1 h
    cases h
    cases i with
    | zero =>
      cases ha
      cases hb
      exact hy
    | succ i => exact ih hys ha hb

theorem mapM_ok_of_forall {f : α → Except ε β} {g : α → β} {l : List α} (h : ∀ a ∈ l, f a = .ok (g a)) :
    l.mapM f = .ok (l.map g) := by
  induction l with
  | nil => rfl
  | cons a l ih =>
    obtain ⟨ha, hl⟩ := List.forall_mem_cons.1 h
    rw [List.mapM_cons, ha, ih hl]
    rfl

theorem mapM_eq_ok_iff {f : α → Except ε β} {l : List α} {r : List β} :
    l.mapM f = .ok r ↔ List.Forall₂ (fun a b => f a = .ok b) l r := by
  induction l generalizing r with
  | nil =>
    rw [List.mapM_nil, pure_eq_ok_iff, List.forall₂_nil_left_iff]
    exact eq_comm
  | cons a l ih =>
    simp only [List.mapM_cons, except_bind_eq_ok, pure_eq_ok_iff, List.forall₂_cons_left_iff, ih]
    constructor
    · rintro ⟨b, hb, bs, hbs, rfl⟩
      exact ⟨b, bs, hb, hbs, rfl⟩
    · rintro ⟨b, bs, hb, hbs, rfl⟩
      exact ⟨b, hb, bs, hbs, rfl⟩

theorem exists_forall₂ {R : α → β → Prop} {l : List α} (h : ∀ a ∈ l, ∃ b, R a b) :
    ∃ r, List.Forall₂ R l r := by
  induction l with
  | nil => exact ⟨[], .nil⟩
  | cons a l ih =>
    obtain ⟨⟨b, hb⟩, hl⟩ := List.forall_mem_cons.1 h
    obtain ⟨r, hr⟩ := ih hl
    exact ⟨b :: r, .cons hb hr⟩

end Lib
