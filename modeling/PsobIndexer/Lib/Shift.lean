import Mathlib
/-!
# Shifts that may overflow

`1u32 << d` overflows when `d` is 32 or more: a build with overflow checks
panics, one without shifts by the low five bits of `d`. A `Shifting`
computation logs the amount of every shift it evaluates, so one definition
tells what either build does.
-/

namespace Lib

/-- With and without overflow checks. -/
inductive Profile where
  | debug
  | release
  deriving DecidableEq

/-- A computation that logs the amounts it shifts by, in order. -/
abbrev Shifting := Writer (List Nat)

namespace Shifting
variable {α β : Type}

/-- What the computation gives when every amount is cut to five bits. -/
def value (x : Shifting α) : α := x.run.1

def shifts (x : Shifting α) : List Nat := x.run.2

@[simp] theorem value_pure (a : α) : value (pure a) = a := rfl

@[simp] theorem shifts_pure (a : α) : shifts (pure a : Shifting α) = [] := rfl

@[simp] theorem value_bind (x : Shifting α) (f : α → Shifting β) : value (x >>= f) = value (f (value x)) := rfl

@[simp] theorem shifts_bind (x : Shifting α) (f : α → Shifting β) :
    shifts (x >>= f) = shifts x ++ shifts (f (value x)) := rfl

/-- `1u32 << d`. -/
def oneShl (d : Nat) : Shifting UInt32 := do
  tell [d]
  return 1 <<< UInt32.ofNat d

@[simp] theorem value_oneShl (d : Nat) : value (oneShl d) = 1 <<< UInt32.ofNat d := rfl

@[simp] theorem shifts_oneShl (d : Nat) : shifts (oneShl d) = [d] := rfl

/-- No shift overflows. -/
def InRange (x : Shifting α) : Prop := ∀ d ∈ shifts x, d < 32

instance (x : Shifting α) : Decidable (InRange x) := inferInstanceAs (Decidable (∀ d ∈ shifts x, d < 32))

/-- What a build returns; `none` is a panic. -/
def runIn (p : Profile) (x : Shifting α) : Option α :=
  match p with
  | .debug => if InRange x then some (value x) else none
  | .release => some (value x)

theorem runIn_eq_some {p : Profile} {x : Shifting α} {a : α} :
    runIn p x = some a ↔ (p = .debug → InRange x) ∧ value x = a := by
  cases p with
  | debug =>
    by_cases h : InRange x
    · simp [runIn, h]
    · simp [runIn, h]
  | release => simp [runIn]

theorem inRange_pure (a : α) : InRange (pure a : Shifting α) := by simp [InRange]

theorem inRange_bind {x : Shifting α} {f : α → Shifting β} :
    InRange (x >>= f) ↔ InRange x ∧ InRange (f (value x)) := by
  simp only [InRange, shifts_bind, List.forall_mem_append]

theorem inRange_oneShl {d : Nat} : InRange (oneShl d) ↔ d < 32 := by simp [InRange]

end Shifting

/-- A shift in range is a power of two. -/
theorem toNat_one_shl {d : Nat} (h : d < 32) : ((1 : UInt32) <<< UInt32.ofNat d).toNat = 2 ^ d := by
  have hd : d < 2 ^ 32 := by omega
  have hpow : 2 ^ d < 2 ^ 32 := Nat.pow_lt_pow_right (by decide) h
  rw [UInt32.toNat_shiftLeft, UInt32.toNat_ofNat_of_lt' hd, Nat.mod_eq_of_lt h, UInt32.toNat_one, Nat.one_shiftLeft,
    Nat.mod_eq_of_lt hpow]

end Lib
