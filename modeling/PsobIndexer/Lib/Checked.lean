import PsobIndexer.Lib.Shift
import PsobIndexer.Lib.Fallible
/-!
# Arithmetic that may overflow

A build with overflow checks panics where `u64` arithmetic wraps or a shift
amount reaches the width; one without goes on with the wrapped value. A
`Checked` computation may end with an error and logs every overflow it runs
into, so one definition tells what either build does.
-/

namespace Lib

/-- A step that a build with overflow checks panics at. -/
inductive Overflow where
  | add (a b : UInt64)
  | sub (a b : UInt64)
  | shr (amount : Nat)
  deriving DecidableEq

/-- A fallible computation that logs its overflows, in order. -/
abbrev Checked (ε : Type) := ExceptT ε (Writer (List Overflow))

namespace Checked
variable {ε α β : Type}

/-- How the computation ends when it wraps. -/
def result (x : Checked ε α) : Except ε α := (ExceptT.run x).run.1

def overflows (x : Checked ε α) : List Overflow := (ExceptT.run x).run.2

/-! ## Steps -/

/-- A step that ends like this, with these overflows. -/
def logged (x : Except ε α) (log : List Overflow) : Checked ε α := ExceptT.mk (WriterT.mk (x, log))

/-- A step without arithmetic. -/
def ofExcept (x : Except ε α) : Checked ε α := logged x []

/-- `a + b`. -/
def add (a b : UInt64) : Checked ε UInt64 := logged (.ok (a + b)) (if a.toNat + b.toNat < 2 ^ 64 then [] else [.add a b])

/-- `a - b`. -/
def sub (a b : UInt64) : Checked ε UInt64 := logged (.ok (a - b)) (if b ≤ a then [] else [.sub a b])

/-- Bit `level` of a `w`-bit word, read as `(x >> level) & 1`: a shift by `w` or
more is one by the amount modulo `w`. -/
def bitAt (w x level : Nat) : Checked ε Bool :=
  logged (.ok (x.testBit (level % w))) (if level < w then [] else [.shr level])

/-! ## What a block does -/

@[simp] theorem result_pure (a : α) : result (pure a : Checked ε α) = .ok a := rfl

@[simp] theorem overflows_pure (a : α) : overflows (pure a : Checked ε α) = [] := rfl

@[simp] theorem result_logged (x : Except ε α) (log : List Overflow) : result (logged x log) = x := rfl

@[simp] theorem overflows_logged (x : Except ε α) (log : List Overflow) : overflows (logged x log) = log := rfl

@[simp] theorem result_ofExcept (x : Except ε α) : result (ofExcept x) = x := rfl

@[simp] theorem overflows_ofExcept (x : Except ε α) : overflows (ofExcept x) = [] := rfl

/-- Nothing else is known of a step. -/
theorem eq_logged (x : Checked ε α) : x = logged (result x) (overflows x) := rfl

theorem result_bind (x : Checked ε α) (f : α → Checked ε β) :
    result (x >>= f) = result x >>= fun a => result (f a) := by
  rw [eq_logged x]
  cases result x with
  | error e => rfl
  | ok a => rfl

theorem result_bind_eq_ok {x : Checked ε α} {f : α → Checked ε β} {b : β} :
    result (x >>= f) = .ok b ↔ ∃ a, result x = .ok a ∧ result (f a) = .ok b := by
  rw [result_bind, except_bind_eq_ok]

theorem overflows_error_bind (e : ε) (log : List Overflow) (f : α → Checked ε β) :
    overflows (logged (.error e) log >>= f) = log := List.append_nil log

theorem overflows_ok_bind (a : α) (log : List Overflow) (f : α → Checked ε β) :
    overflows (logged (.ok a) log >>= f) = log ++ overflows (f a) := rfl

/-- A block overflows nowhere if none of the steps it gets to does. -/
theorem overflows_bind_eq_nil {x : Checked ε α} {f : α → Checked ε β} :
    overflows (x >>= f) = [] ↔ overflows x = [] ∧ ∀ a, result x = .ok a → overflows (f a) = [] := by
  rw [eq_logged x]
  generalize overflows x = log
  cases result x with
  | error e =>
    rw [overflows_error_bind, overflows_logged]
    refine ⟨fun h => ⟨h, fun a ha => ?_⟩, And.left⟩
    cases ha
  | ok a =>
    rw [overflows_ok_bind, overflows_logged, List.append_eq_nil_iff, result_logged]
    refine and_congr_right fun _ => ⟨fun h b hb => ?_, fun h => h a rfl⟩
    cases hb
    exact h

theorem overflows_add {a b : UInt64} : overflows (add a b : Checked ε UInt64) = [] ↔ a.toNat + b.toNat < 2 ^ 64 := by
  rw [add, overflows_logged]
  split
  · rename_i h
    exact ⟨fun _ => h, fun _ => rfl⟩
  · rename_i h
    exact ⟨fun hlog => absurd hlog (List.cons_ne_nil _ _), fun h' => absurd h' h⟩

theorem overflows_sub {a b : UInt64} : overflows (sub a b : Checked ε UInt64) = [] ↔ b ≤ a := by
  rw [sub, overflows_logged]
  split
  · rename_i h
    exact ⟨fun _ => h, fun _ => rfl⟩
  · rename_i h
    exact ⟨fun hlog => absurd hlog (List.cons_ne_nil _ _), fun h' => absurd h' h⟩

theorem overflows_bitAt {w x level : Nat} : overflows (bitAt w x level : Checked ε Bool) = [] ↔ level < w := by
  rw [bitAt, overflows_logged]
  split
  · rename_i h
    exact ⟨fun _ => h, fun _ => rfl⟩
  · rename_i h
    exact ⟨fun hlog => absurd hlog (List.cons_ne_nil _ _), fun h' => absurd h' h⟩

@[simp] theorem result_add (a b : UInt64) : result (add a b : Checked ε UInt64) = .ok (a + b) := rfl

@[simp] theorem result_sub (a b : UInt64) : result (sub a b : Checked ε UInt64) = .ok (a - b) := rfl

@[simp] theorem result_bitAt (w x level : Nat) :
    result (bitAt w x level : Checked ε Bool) = .ok (x.testBit (level % w)) := rfl

/-! ## Builds -/

/-- What a build returns; `none` is a panic. -/
def runIn (p : Profile) (x : Checked ε α) : Option (Except ε α) :=
  match p with
  | .debug => if overflows x = [] then some (result x) else none
  | .release => some (result x)

theorem runIn_eq_some {p : Profile} {x : Checked ε α} {r : Except ε α} :
    runIn p x = some r ↔ (p = .debug → overflows x = []) ∧ result x = r := by
  cases p with
  | debug =>
    by_cases h : overflows x = []
    · simp [runIn, h]
    · simp [runIn, h]
  | release => simp [runIn]

theorem runIn_debug_eq_none {x : Checked ε α} : runIn .debug x = none ↔ overflows x ≠ [] := by
  by_cases h : overflows x = []
  · simp [runIn, h]
  · simp [runIn, h]

end Checked

end Lib
