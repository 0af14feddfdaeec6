import Mathlib
/-!
# Machine words and text

Pointer-width arithmetic with the width as a parameter, saturating `u64`
arithmetic, inclusive `u64` ranges, decimal text and the few string operations
the code uses.
-/

namespace Lib

/-! ## Pointer-sized integers -/

/-- `n as usize`, where `usize` has `w` bits. -/
def asUsize (w n : Nat) : Nat := n % 2 ^ w

/-- `a.checked_add(b)`, where `usize` has `w` bits. -/
def checkedAdd (w a b : Nat) : Option Nat := if a + b < 2 ^ w then some (a + b) else none

theorem checkedAdd_eq_some {w a b c : Nat} : checkedAdd w a b = some c ↔ a + b < 2 ^ w ∧ c = a + b := by
  unfold checkedAdd
  split <;> simp_all [eq_comm]

/-! ## The order of fixed-width integers -/

instance linearOrderUInt32 : LinearOrder UInt32 where
  le_refl := UInt32.le_refl
  le_trans _ _ _ := UInt32.le_trans
  le_antisymm _ _ := UInt32.le_antisymm
  le_total := UInt32.le_total
  lt_iff_le_not_ge a b := by
    simp only [UInt32.lt_iff_toNat_lt, UInt32.le_iff_toNat_le]
    omega
  toDecidableLE := inferInstance
  min_def _ _ := rfl
  max_def _ _ := rfl

instance linearOrderUInt64 : LinearOrder UInt64 where
  le_refl := UInt64.le_refl
  le_trans _ _ _ := UInt64.le_trans
  le_antisymm _ _ := UInt64.le_antisymm
  le_total := UInt64.le_total
  lt_iff_le_not_ge a b := by
    simp only [UInt64.lt_iff_toNat_lt, UInt64.le_iff_toNat_le]
    omega
  toDecidableLE := inferInstance
  min_def _ _ := rfl
  max_def _ _ := rfl

/-! ## Saturating and inclusive `u64` -/

def u64Max : UInt64 := 0xffffffffffffffff

/-- `a.saturating_add(b)`. -/
def saturatingAdd (a b : UInt64) : UInt64 := if a.toNat + b.toNat < 2 ^ 64 then a + b else u64Max

/-- `a.saturating_sub(b)`. -/
def saturatingSub (a b : UInt64) : UInt64 := if b ≤ a then a - b else 0

theorem toNat_saturatingAdd (a b : UInt64) : (saturatingAdd a b).toNat = min (a.toNat + b.toNat) (2 ^ 64 - 1) := by
  unfold saturatingAdd
  split
  · rename_i h
    rw [UInt64.toNat_add, Nat.mod_eq_of_lt h]
    omega
  · have : u64Max.toNat = 2 ^ 64 - 1 := rfl
    omega

theorem toNat_saturatingSub (a b : UInt64) : (saturatingSub a b).toNat = a.toNat - b.toNat := by
  unfold saturatingSub
  split
  · rename_i h
    rw [UInt64.toNat_sub_of_le _ _ h]
  · rename_i h
    rw [UInt64.not_le, UInt64.lt_iff_toNat_lt] at h
    have : (0 : UInt64).toNat = 0 := rfl
    omega

/-- A range that ends at `below - 1` holds what is less than `below`, except for 0. -/
theorem le_saturatingSub_one {below : UInt64} (hbelow : 1 ≤ below) (h : UInt64) :
    h ≤ saturatingSub below 1 ↔ h < below := by
  have hone : (1 : UInt64).toNat = 1 := rfl
  rw [UInt64.le_iff_toNat_le] at hbelow
  rw [UInt64.le_iff_toNat_le, UInt64.lt_iff_toNat_lt, toNat_saturatingSub]
  omega

theorem eq_zero_of_not_one_le {h : UInt64} (hh : ¬ 1 ≤ h) : h = 0 := by
  have hone : (1 : UInt64).toNat = 1 := rfl
  have hzero : (0 : UInt64).toNat = 0 := rfl
  rw [UInt64.le_iff_toNat_le] at hh
  exact UInt64.toNat_inj.1 (by omega)

/-- `(a..=b)`. -/
def rangeInclusive (a b : UInt64) : List UInt64 :=
  (List.range (b.toNat + 1 - a.toNat)).map (fun i => UInt64.ofNat (a.toNat + i))

theorem mem_rangeInclusive {a b h : UInt64} : h ∈ rangeInclusive a b ↔ a ≤ h ∧ h ≤ b := by
  have hb := b.toNat_lt
  simp only [rangeInclusive, List.mem_map, List.mem_range, UInt64.le_iff_toNat_le]
  constructor
  · rintro ⟨i, hi, rfl⟩
    rw [UInt64.toNat_ofNat_of_lt' (by show _ < 2 ^ 64; omega)]
    omega
  · intro hab
    refine ⟨h.toNat - a.toNat, by omega, ?_⟩
    rw [Nat.add_sub_cancel' hab.1, UInt64.ofNat_toNat]

theorem getElem?_rangeInclusive {a b h : UInt64} {i : Nat} (hi : (rangeInclusive a b)[i]? = some h) :
    h.toNat = a.toNat + i := by
  have hb := b.toNat_lt
  obtain ⟨hlt, rfl⟩ := List.getElem?_eq_some_iff.1 hi
  simp only [rangeInclusive, List.length_map, List.length_range] at hlt
  simp only [rangeInclusive, List.getElem_map, List.getElem_range]
  exact UInt64.toNat_ofNat_of_lt' (by show _ < 2 ^ 64; omega)

theorem length_rangeInclusive (a b : UInt64) : (rangeInclusive a b).length = b.toNat + 1 - a.toNat := by
  simp [rangeInclusive]

theorem head?_rangeInclusive {a b : UInt64} (h : a ≤ b) : (rangeInclusive a b).head? = some a := by
  rw [UInt64.le_iff_toNat_le] at h
  have hlen : 0 < (rangeInclusive a b).length := by
    rw [length_rangeInclusive]
    omega
  rw [List.head?_eq_getElem?, List.getElem?_eq_getElem hlen]
  congr 1
  exact UInt64.toNat_inj.1 (getElem?_rangeInclusive (List.getElem?_eq_getElem hlen))

/-- Neighbours of a range differ by one. -/
theorem isChain_rangeInclusive (a b : UInt64) : (rangeInclusive a b).IsChain (fun h h' => h'.toNat = h.toNat + 1) := by
  rw [List.isChain_iff_getElem]
  intro i hi
  have hlow := getElem?_rangeInclusive (List.getElem?_eq_getElem (Nat.lt_of_succ_lt hi))
  have hhigh := getElem?_rangeInclusive (List.getElem?_eq_getElem hi)
  omega

theorem increasing_rangeInclusive (a b : UInt64) : (rangeInclusive a b).Pairwise (· < ·) := by
  refine List.isChain_iff_pairwise.1 ((isChain_rangeInclusive a b).imp fun h h' hnext => ?_)
  rw [UInt64.lt_iff_toNat_lt]
  omega

/-! ## Decimal text -/

/-- `s.parse()` into an unsigned integer below `bound`: an optional `+`, then
at least one decimal digit and nothing else. -/
def parseDec (bound : Nat) (s : String) : Option Nat :=
  let digits := match s.toList with
    | '+' :: rest => rest
    | cs => cs
  if digits ≠ [] ∧ digits.all Char.isDigit then
    let n := Nat.ofDigitChars 10 digits 0
    if n < bound then some n else none
  else none

theorem toDigits_head_ne_plus (n : Nat) (rest : List Char) : Nat.toDigits 10 n ≠ '+' :: rest := by
  intro h
  have hd : Char.isDigit '+' := Nat.isDigit_of_mem_toDigits (by decide) (by decide) (h ▸ List.mem_cons_self)
  exact absurd hd (by decide)

theorem parseDec_repr {bound n : Nat} (h : n < bound) : parseDec bound (toString n) = some n := by
  have hlist : (toString n).toList = Nat.toDigits 10 n := by
    rw [Nat.toString_eq_repr, Nat.toList_repr]
  have hdigits : (Nat.toDigits 10 n).all Char.isDigit = true :=
    List.all_eq_true.2 fun c hc => Nat.isDigit_of_mem_toDigits (by decide) (by decide) hc
  have hmatch : (match Nat.toDigits 10 n with | '+' :: rest => rest | cs => cs) = Nat.toDigits 10 n := by
    split
    · rename_i rest heq
      exact absurd heq (toDigits_head_ne_plus n rest)
    · rfl
  simp only [parseDec, hlist, hmatch, hdigits, Nat.toDigits_ne_nil, ne_eq, not_false_eq_true, and_self, if_true,
    Nat.ofDigitChars_ten_toDigits, h]

theorem repr_injective {m n : Nat} (h : toString m = toString n) : m = n := by
  have hm := @parseDec_repr (max m n + 1) m (by omega)
  have hn := @parseDec_repr (max m n + 1) n (by omega)
  rw [h, hn] at hm
  exact (Option.some.inj hm).symm

/-! ## Strings -/

/-- `s.strip_prefix(p)`. -/
def stripPrefix (p s : String) : Option String :=
  if p.toList.isPrefixOf s.toList then some (String.ofList (s.toList.drop p.length)) else none

/-- `a.eq_ignore_ascii_case(b)`. -/
def eqIgnoreAsciiCase (a b : String) : Bool := a.toList.map Char.toLower = b.toList.map Char.toLower

/-- `s.split_once(c).unwrap_or((s, ""))`. -/
def splitOnce (c : Char) (s : String) : String × String :=
  (String.ofList (s.toList.takeWhile (· ≠ c)), String.ofList (s.toList.dropWhile (· ≠ c)).tail)

end Lib
