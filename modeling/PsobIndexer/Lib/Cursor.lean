import PsobIndexer.Lib.Bytes
/-!
# Cursor readers over a buffer

A cursor reader consumes a fixed buffer from a position and returns a value
and the next position, or fails. `Span b p q s` says the buffer holds exactly
`s` between two positions. A reader is exact for a grammar (`Reads`) when it
succeeds on precisely the spans the grammar spells; readers built with `bind`
and with a counted loop (`times`) inherit exactness from their parts.
-/

namespace Lib

/-! ## Spans -/

/-- From `p` up to `q`, `b` holds exactly `s`. -/
def Span (b : Bytes) (p q : Nat) (s : Bytes) : Prop :=
  q ≤ b.length ∧ q = p + s.length ∧ b.drop p = s ++ b.drop q

theorem Span.le {b s : Bytes} {p q : Nat} (h : Span b p q s) : p ≤ q ∧ q ≤ b.length := by
  obtain ⟨hq, he, -⟩ := h
  omega

theorem Span.nil {b : Bytes} {p : Nat} (h : p ≤ b.length) : Span b p p [] := ⟨h, by simp, by simp⟩

theorem span_nil_iff {b : Bytes} {p q : Nat} (h : p ≤ b.length) : Span b p q [] ↔ q = p := by
  constructor
  · rintro ⟨-, he, -⟩
    simpa using he
  · rintro rfl
    exact .nil h

theorem Span.append {b s t : Bytes} {p q r : Nat} (h : Span b p q s) (h' : Span b q r t) :
    Span b p r (s ++ t) := by
  obtain ⟨-, he, hd⟩ := h
  obtain ⟨hr, he', hd'⟩ := h'
  refine ⟨hr, ?_, ?_⟩
  · rw [List.length_append]
    omega
  · rw [hd, hd', List.append_assoc]

theorem Span.split {b s t : Bytes} {p r : Nat} (h : Span b p r (s ++ t)) :
    Span b p (p + s.length) s ∧ Span b (p + s.length) r t := by
  obtain ⟨hr, he, hd⟩ := h
  rw [List.length_append] at he
  have hmid : b.drop (p + s.length) = t ++ b.drop r := by
    rw [← List.drop_drop, hd, List.append_assoc, List.drop_left]
  refine ⟨⟨by omega, rfl, ?_⟩, ⟨hr, by omega, hmid⟩⟩
  rw [hmid, ← List.append_assoc, hd]

/-- A span of a concatenation is a span of each part, met at one position. -/
theorem span_append_iff {b s t : Bytes} {p r : Nat} :
    Span b p r (s ++ t) ↔ ∃ q, Span b p q s ∧ Span b q r t :=
  ⟨fun h => ⟨_, h.split⟩, fun ⟨_, h, h'⟩ => h.append h'⟩

theorem span_iff_getRange {b s : Bytes} {p q : Nat} : getRange b p q = some s ↔ Span b p q s := by
  rw [getRange_eq_some]
  constructor
  · rintro ⟨hpq, hq, rfl⟩
    refine ⟨hq, ?_, ?_⟩
    · rw [List.length_take, List.length_drop]
      omega
    · have hd : b.drop q = (b.drop p).drop (q - p) := by
        rw [List.drop_drop, Nat.add_sub_cancel' hpq]
      rw [hd, List.take_append_drop]
  · rintro ⟨hq, he, hd⟩
    refine ⟨by omega, hq, ?_⟩
    rw [hd, List.take_left' (by omega)]

theorem Span.whole (b : Bytes) : Span b 0 b.length b := ⟨le_refl _, by simp, by simp⟩

theorem Span.unique {b s t : Bytes} {p q : Nat} (h : Span b p q s) (h' : Span b p q t) : s = t := by
  rw [← span_iff_getRange] at h h'
  exact Option.some.inj (h ▸ h')

theorem span_whole_iff {b s : Bytes} : Span b 0 b.length s ↔ s = b :=
  ⟨fun h => h.unique (.whole b), fun h => h ▸ .whole b⟩

/-- A span that starts a buffer is a first part of it. -/
theorem span_zero_iff {b s : Bytes} {q : Nat} : Span b 0 q s ↔ q = s.length ∧ b = s ++ b.drop q := by
  constructor
  · rintro ⟨-, he, hd⟩
    exact ⟨by omega, by simpa using hd⟩
  · rintro ⟨rfl, hd⟩
    refine ⟨?_, by omega, by simpa using hd⟩
    rw [hd, List.length_append]
    omega

theorem Span.length_le {b s : Bytes} {p q : Nat} (h : Span b p q s) : s.length ≤ b.length := by
  obtain ⟨hq, he, -⟩ := h
  omega

theorem Span.eq_add {b s : Bytes} {p q : Nat} (h : Span b p q s) : q = p + s.length := h.2.1

theorem span_mid (a s t : Bytes) : Span (a ++ s ++ t) a.length (a.length + s.length) s := by
  refine ⟨by simp only [List.length_append]; omega, rfl, ?_⟩
  rw [← List.length_append, List.drop_left, List.append_assoc, List.drop_left]

theorem Span.eq_append {b s : Bytes} {p q : Nat} (h : Span b p q s) : b = b.take p ++ s ++ b.drop q := by
  rw [List.append_assoc, ← h.2.2, List.take_append_drop]

theorem span_singleton_iff {b : Bytes} {p : Nat} {x : UInt8} : b[p]? = some x ↔ Span b p (p + 1) [x] := by
  constructor
  · intro h
    obtain ⟨hp, hx⟩ := List.getElem?_eq_some_iff.1 h
    refine ⟨hp, rfl, ?_⟩
    rw [List.drop_eq_getElem_cons hp, hx]
    rfl
  · rintro ⟨hp, -, hd⟩
    rw [← List.head?_drop, hd]
    rfl

/-- Any stretch inside the buffer is a span of something. -/
theorem exists_span {b : Bytes} {p : Nat} (n : Nat) (h : p + n ≤ b.length) : ∃ s, Span b p (p + n) s ∧ s.length = n := by
  refine ⟨(b.drop p).take n, ⟨h, ?_, ?_⟩, ?_⟩
  · rw [List.length_take, List.length_drop]
    omega
  · rw [← List.drop_drop, List.take_append_drop]
  · rw [List.length_take, List.length_drop]
    omega

/-! ## Sequences of spellings -/

/-- `s` spells the elements of a list, one after another. -/
def Spelled {α : Type} (R : α → Bytes → Prop) : List α → Bytes → Prop
  | [], s => s = []
  | a :: as, s => ∃ s₁ s₂, R a s₁ ∧ Spelled R as s₂ ∧ s = s₁ ++ s₂

theorem Spelled.mono {α : Type} {R R' : α → Bytes → Prop} {as : List α} {s : Bytes} (h : Spelled R as s)
    (hR : ∀ a s', s'.length ≤ s.length → R a s' → R' a s') : Spelled R' as s := by
  induction as generalizing s with
  | nil => exact h
  | cons a as ih =>
    obtain ⟨s₁, s₂, h₁, h₂, rfl⟩ := h
    rw [List.length_append] at hR
    exact ⟨s₁, s₂, hR a s₁ (by omega) h₁, ih h₂ fun a' s' hle => hR a' s' (by omega), rfl⟩

theorem Spelled.length_le {α : Type} {R : α → Bytes → Prop} {as : List α} {s : Bytes} (h : Spelled R as s)
    (hR : ∀ a s', R a s' → 1 ≤ s'.length) : as.length ≤ s.length := by
  induction as generalizing s with
  | nil => exact Nat.zero_le _
  | cons a as ih =>
    obtain ⟨s₁, s₂, h₁, h₂, rfl⟩ := h
    have := hR a s₁ h₁
    have := ih h₂
    simp only [List.length_cons, List.length_append]
    omega

/-- When the elements are images under `f`, their sources are spelled too. -/
theorem spelled_map {α β : Type} {R : α → Bytes → Prop} {f : α → β} {bs : List β} {s : Bytes} :
    Spelled (fun b s => ∃ a, b = f a ∧ R a s) bs s ↔ ∃ as, bs = as.map f ∧ Spelled R as s := by
  induction bs generalizing s with
  | nil =>
    constructor
    · intro h
      exact ⟨[], rfl, h⟩
    · rintro ⟨as, hmap, h⟩
      obtain rfl := List.map_eq_nil_iff.1 hmap.symm
      exact h
  | cons b bs ih =>
    constructor
    · rintro ⟨s₁, s₂, ⟨a, rfl, h₁⟩, h₂, rfl⟩
      obtain ⟨as, rfl, hs⟩ := ih.1 h₂
      exact ⟨a :: as, rfl, s₁, s₂, h₁, hs, rfl⟩
    · rintro ⟨as, hmap, h⟩
      obtain ⟨a, as, rfl, rfl, rfl⟩ := List.map_eq_cons_iff.1 hmap.symm
      obtain ⟨s₁, s₂, h₁, h₂, rfl⟩ := h
      exact ⟨s₁, s₂, ⟨a, rfl, h₁⟩, ih.2 ⟨as, rfl, h₂⟩, rfl⟩

/-- A list spelled by a function is the concatenation of the pieces. -/
theorem Spelled.flatMap {α : Type} {R : α → Bytes → Prop} (f : α → Bytes) {as : List α}
    (h : ∀ a ∈ as, R a (f a)) : Spelled R as (as.flatMap f) := by
  induction as with
  | nil => rfl
  | cons a as ih =>
    refine ⟨f a, as.flatMap f, h a List.mem_cons_self, ih fun a' ha => h a' (List.mem_cons_of_mem _ ha), ?_⟩
    rw [List.flatMap_cons]

/-! ## Unambiguous spellings -/

/-- What is spelled from a position on fixes the value and where it ends. -/
def Unambiguous {α : Type} (R : α → Bytes → Prop) : Prop :=
  ∀ {b : Bytes} {p q q' : Nat} {a a' : α} {s s' : Bytes}, R a s → Span b p q s → R a' s' → Span b p q' s' →
    a = a' ∧ q = q'

theorem unambiguous_fixed {α : Type} {f : α → Bytes} {n : Nat} (hf : Function.Injective f)
    (hn : ∀ a, (f a).length = n) : Unambiguous (fun a s => s = f a) := by
  intro b p q q' a a' s s' h hspan h' hspan'
  subst h h'
  obtain rfl : q = q' := by rw [hspan.eq_add, hspan'.eq_add, hn, hn]
  exact ⟨hf (hspan.unique hspan'), rfl⟩

theorem Unambiguous.spelled {α : Type} {R : α → Bytes → Prop} (hR : Unambiguous R) {b : Bytes} {p q q' : Nat}
    {as as' : List α} {s s' : Bytes} (hlen : as.length = as'.length) (h : Spelled R as s) (hspan : Span b p q s)
    (h' : Spelled R as' s') (hspan' : Span b p q' s') : as = as' ∧ q = q' := by
  induction as generalizing as' p s s' with
  | nil =>
    obtain rfl := List.length_eq_zero_iff.1 hlen.symm
    subst h h'
    exact ⟨rfl, by rw [hspan.eq_add, hspan'.eq_add]⟩
  | cons a as ih =>
    obtain ⟨a', as', rfl⟩ := List.exists_cons_of_length_eq_add_one hlen.symm
    obtain ⟨s₁, s₂, h₁, h₂, rfl⟩ := h
    obtain ⟨s₁', s₂', h₁', h₂', rfl⟩ := h'
    obtain ⟨r, hspan₁, hspan₂⟩ := span_append_iff.1 hspan
    obtain ⟨r', hspan₁', hspan₂'⟩ := span_append_iff.1 hspan'
    obtain ⟨rfl, rfl⟩ := hR h₁ hspan₁ h₁' hspan₁'
    obtain ⟨rfl, rfl⟩ := ih (by simpa using hlen) h₂ hspan₂ h₂' hspan₂'
    exact ⟨rfl, rfl⟩

/-! ## Readers -/

/-- A reader over a fixed buffer: the state is the cursor position. -/
abbrev Cursor (E : Type) := StateT Nat (Except E)

namespace Cursor

variable {E α β : Type}

theorem bind_eq_ok {x : Cursor E α} {f : α → Cursor E β} {p q : Nat} {c : β} :
    (x >>= f) p = .ok (c, q) ↔ ∃ a r, x p = .ok (a, r) ∧ f a r = .ok (c, q) := by
  show (Except.bind (x p) fun y => f y.1 y.2) = .ok (c, q) ↔ _
  cases h : x p with
  | error e => simp [Except.bind]
  | ok y => simp [Except.bind, Prod.ext_iff]

theorem pure_eq_ok {a c : α} {p q : Nat} : (pure a : Cursor E α) p = .ok (c, q) ↔ c = a ∧ q = p := by
  show (Except.ok (a, p) : Except E (α × Nat)) = .ok (c, q) ↔ _
  simp [eq_comm]

theorem throw_eq_ok {e : E} {c : α} {p q : Nat} : ¬ (throw e : Cursor E α) p = .ok (c, q) := by
  intro h
  cases h

/-- `for _ in 0..n { out.push(x()?) }`. -/
def times (x : Cursor E α) : Nat → Cursor E (List α)
  | 0 => pure []
  | n + 1 => do
    let a ← x
    let as ← times x n
    return a :: as

/-- `x` succeeds on exactly the spans `R` allows, with the value they spell. -/
def Reads (b : Bytes) (x : Cursor E α) (R : α → Bytes → Prop) : Prop :=
  ∀ p a q, p ≤ b.length → (x p = .ok (a, q) ↔ ∃ s, R a s ∧ Span b p q s)

theorem Reads.pure (b : Bytes) (a : α) : Reads b (Pure.pure a : Cursor E α) (fun c s => c = a ∧ s = []) := by
  intro p c q hp
  rw [pure_eq_ok]
  constructor
  · rintro ⟨rfl, rfl⟩
    exact ⟨[], ⟨rfl, rfl⟩, .nil hp⟩
  · rintro ⟨s, ⟨rfl, rfl⟩, hspan⟩
    exact ⟨rfl, (span_nil_iff hp).1 hspan⟩

theorem Reads.throw (b : Bytes) (e : E) : Reads b (MonadExcept.throw e : Cursor E α) (fun _ _ => False) := by
  intro p c q hp
  constructor
  · intro h
    exact absurd h throw_eq_ok
  · rintro ⟨s, hs, -⟩
    exact hs.elim

/-- One reader after another reads one spelling after another. -/
theorem Reads.bind {b : Bytes} {x : Cursor E α} {f : α → Cursor E β} {R : α → Bytes → Prop}
    {S : α → β → Bytes → Prop} (hx : Reads b x R) (hf : ∀ a, Reads b (f a) (S a)) :
    Reads b (x >>= f) (fun c s => ∃ a s₁ s₂, R a s₁ ∧ S a c s₂ ∧ s = s₁ ++ s₂) := by
  intro p c q hp
  rw [bind_eq_ok]
  constructor
  · rintro ⟨a, r, hxa, hfa⟩
    obtain ⟨s₁, h₁, hspan₁⟩ := (hx p a r hp).1 hxa
    obtain ⟨s₂, h₂, hspan₂⟩ := (hf a r c q hspan₁.le.2).1 hfa
    exact ⟨s₁ ++ s₂, ⟨a, s₁, s₂, h₁, h₂, rfl⟩, hspan₁.append hspan₂⟩
  · rintro ⟨s, ⟨a, s₁, s₂, h₁, h₂, rfl⟩, hspan⟩
    obtain ⟨r, hspan₁, hspan₂⟩ := span_append_iff.1 hspan
    exact ⟨a, r, (hx p a r hp).2 ⟨s₁, h₁, hspan₁⟩, (hf a r c q hspan₁.le.2).2 ⟨s₂, h₂, hspan₂⟩⟩

theorem Reads.ite {b : Bytes} {x y : Cursor E α} {R S : α → Bytes → Prop} (c : Prop) [Decidable c]
    (hx : Reads b x R) (hy : Reads b y S) : Reads b (if c then x else y) (fun a s => if c then R a s else S a s) := by
  split
  · exact hx
  · exact hy

/-- A check that fails with `e`, before anything is read. -/
theorem Reads.guard {b : Bytes} {x : Cursor E α} {R : α → Bytes → Prop} (c : Prop) [Decidable c] (e : E)
    (k : Unit → Cursor E α) (hx : Reads b x R) :
    Reads b (if c then (MonadExcept.throw e : Cursor E Unit) >>= k else x) (fun a s => ¬ c ∧ R a s) := by
  intro p a q hp
  split
  · rename_i hc
    constructor
    · intro h
      obtain ⟨u, r, ht, -⟩ := bind_eq_ok.1 h
      exact absurd ht throw_eq_ok
    · rintro ⟨s, ⟨hn, -⟩, -⟩
      exact absurd hc hn
  · rename_i hc
    rw [hx p a q hp]
    simp only [hc, not_false_eq_true, true_and]

/-- Reading a value and returning a function of it. -/
theorem Reads.map {b : Bytes} {x : Cursor E α} {R : α → Bytes → Prop} (hx : Reads b x R) (f : α → β) :
    Reads b (x >>= fun a => Pure.pure (f a)) (fun c s => ∃ a, c = f a ∧ R a s) := by
  intro p c q hp
  rw [(hx.bind fun a => Reads.pure b (f a)) p c q hp]
  constructor
  · rintro ⟨s, ⟨a, s₁, s₂, h₁, ⟨rfl, rfl⟩, rfl⟩, hspan⟩
    exact ⟨s₁, ⟨a, rfl, h₁⟩, by rwa [List.append_nil] at hspan⟩
  · rintro ⟨s, ⟨a, rfl, h₁⟩, hspan⟩
    exact ⟨s, ⟨a, s, [], h₁, ⟨rfl, rfl⟩, (List.append_nil s).symm⟩, hspan⟩

theorem Reads.times {b : Bytes} {x : Cursor E α} {R : α → Bytes → Prop} (h : Reads b x R) (n : Nat) :
    Reads b (times x n) (fun as s => as.length = n ∧ Spelled R as s) := by
  induction n with
  | zero =>
    intro p as q hp
    simp only [Cursor.times, pure_eq_ok, List.length_eq_zero_iff]
    constructor
    · rintro ⟨rfl, rfl⟩
      exact ⟨[], ⟨rfl, rfl⟩, .nil hp⟩
    · rintro ⟨s, ⟨rfl, hs⟩, hspan⟩
      subst hs
      exact ⟨rfl, (span_nil_iff hp).1 hspan⟩
  | succ n ih =>
    intro p as q hp
    simp only [Cursor.times, bind_eq_ok, pure_eq_ok]
    constructor
    · rintro ⟨a, r, hx, as', r', hrest, rfl, rfl⟩
      obtain ⟨s, hs, hspan⟩ := (h p a r hp).1 hx
      obtain ⟨s', ⟨hlen, hs'⟩, hspan'⟩ := (ih r as' q hspan.le.2).1 hrest
      exact ⟨s ++ s', ⟨by rw [List.length_cons, hlen], s, s', hs, hs', rfl⟩, hspan.append hspan'⟩
    · rintro ⟨s, ⟨hlen, hs⟩, hspan⟩
      obtain ⟨a, as, rfl⟩ := List.exists_cons_of_length_eq_add_one hlen
      obtain ⟨s₁, s₂, h₁, h₂, rfl⟩ := hs
      obtain ⟨r, hspan₁, hspan₂⟩ := span_append_iff.1 hspan
      refine ⟨a, r, (h p a r hp).2 ⟨s₁, h₁, hspan₁⟩, as, q, ?_, rfl, rfl⟩
      exact (ih r as q hspan₁.le.2).2 ⟨s₂, ⟨by simpa using hlen, h₂⟩, hspan₂⟩

theorem Reads.congr {b : Bytes} {x : Cursor E α} {R R' : α → Bytes → Prop} (h : Reads b x R)
    (hR : ∀ a s, s.length ≤ b.length → (R a s ↔ R' a s)) : Reads b x R' := by
  intro p a q hp
  rw [h p a q hp]
  constructor
  · rintro ⟨s, hs, hspan⟩
    exact ⟨s, (hR a s hspan.length_le).1 hs, hspan⟩
  · rintro ⟨s, hs, hspan⟩
    exact ⟨s, (hR a s hspan.length_le).2 hs, hspan⟩

end Cursor

end Lib
