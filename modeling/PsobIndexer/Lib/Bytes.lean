import Mathlib
/-!
# Byte strings

Byte strings are lists of `UInt8`. A fixed-size array `[u8; n]` is a byte
string that carries its length, little-endian numbers are read and written
byte by byte, and a buffer is sliced by position (`b.get(i..j)`).
-/

namespace Lib

abbrev Bytes := List UInt8

/-- `[u8; n]`: exactly `n` bytes. -/
abbrev ByteArr (n : Nat) := { b : Bytes // b.length = n }

namespace ByteArr

/-- `[x; n]`. -/
def fill (n : Nat) (x : UInt8) : ByteArr n := ⟨List.replicate n x, List.length_replicate⟩

/-- `a[i] = x`. -/
def set {n : Nat} (a : ByteArr n) (i : Nat) (x : UInt8) : ByteArr n :=
  ⟨a.val.set i x, by rw [List.length_set, a.property]⟩

/-- The array in reverse order, as `a.reverse()` leaves it. -/
def reverse {n : Nat} (a : ByteArr n) : ByteArr n :=
  ⟨a.val.reverse, by rw [List.length_reverse, a.property]⟩

/-- A scan from the last byte to the first with a carry, as a `rev()` loop does it. -/
def scanRev {n : Nat} {σ : Type} (step : σ → UInt8 → UInt8 × σ) (init : σ) (a : ByteArr n) : ByteArr n × σ :=
  let r := a.val.foldr (fun x acc => let y := step acc.2 x; (y.1 :: acc.1, y.2)) ([], init)
  (⟨r.1, by
    have h : ∀ l : Bytes,
        (l.foldr (fun x acc => let y := step acc.2 x; (y.1 :: acc.1, y.2)) (([], init) : Bytes × σ)).1.length = l.length := by
      intro l
      induction l with
      | nil => rfl
      | cons x l ih => simpa using ih
    rw [h, a.property]⟩, r.2)

theorem reverse_inj {n : Nat} {a b : ByteArr n} (h : a.reverse = b.reverse) : a = b := by
  have hv : a.val.reverse = b.val.reverse := congrArg Subtype.val h
  exact Subtype.ext (List.reverse_injective hv)

theorem reverse_reverse {n : Nat} (a : ByteArr n) : a.reverse.reverse = a := Subtype.ext (List.reverse_reverse a.val)

/-- The `n` bytes of `b` from `o` on, zero-filled where `b` is too short. -/
def ofSlice (n : Nat) (b : Bytes) (o : Nat) : ByteArr n :=
  ⟨(b.drop o ++ List.replicate n 0).take n, by simp⟩

theorem ofSlice_val {n o : Nat} {b : Bytes} (h : o + n ≤ b.length) :
    (ofSlice n b o).val = (b.drop o).take n := by
  simp only [ofSlice]
  rw [List.take_append_of_le_length (by rw [List.length_drop]; omega)]

theorem ofSlice_self {n : Nat} (a : ByteArr n) : ofSlice n a.val 0 = a := by
  apply Subtype.ext
  rw [ofSlice_val (by rw [a.property]; omega), List.drop_zero, List.take_of_length_le (le_of_eq a.property)]

end ByteArr

/-! ## Little-endian numbers -/

/-- The number `b` spells, least significant byte first. -/
def leNat : Bytes → Nat
  | [] => 0
  | x :: xs => x.toNat + 256 * leNat xs

/-- The low `8 * n` bits of `v`, least significant byte first. -/
def leBytes : Nat → Nat → Bytes
  | 0, _ => []
  | n + 1, v => UInt8.ofNat v :: leBytes n (v / 256)

@[simp] theorem length_leBytes (n v : Nat) : (leBytes n v).length = n := by
  induction n generalizing v with
  | zero => rfl
  | succ n ih => simp [leBytes, ih]

theorem leNat_lt (b : Bytes) : leNat b < 256 ^ b.length := by
  induction b with
  | nil => simp [leNat]
  | cons x xs ih =>
    have hx := x.toNat_lt
    simp only [leNat, List.length_cons, pow_succ]
    omega

theorem leNat_leBytes {n v : Nat} (h : v < 256 ^ n) : leNat (leBytes n v) = v := by
  induction n generalizing v with
  | zero =>
    rw [pow_zero] at h
    simp only [leBytes, leNat]
    omega
  | succ n ih =>
    have hdiv : v / 256 < 256 ^ n := by
      rw [Nat.div_lt_iff_lt_mul (by decide)]
      rwa [pow_succ] at h
    simp only [leBytes, leNat, ih hdiv, UInt8.toNat_ofNat']
    omega

theorem leBytes_leNat (b : Bytes) : leBytes b.length (leNat b) = b := by
  induction b with
  | nil => rfl
  | cons x xs ih =>
    have hx := x.toNat_lt
    have hhead : UInt8.ofNat (x.toNat + 256 * leNat xs) = x := by
      apply UInt8.toNat_inj.mp
      rw [UInt8.toNat_ofNat']
      omega
    have htail : (x.toNat + 256 * leNat xs) / 256 = leNat xs := by omega
    simp only [leNat, List.length_cons, leBytes, hhead, htail, ih]

/-- `u32::from_le_bytes` of the four bytes of `b` at `o`. -/
def leU32At (b : Bytes) (o : Nat) : UInt32 := UInt32.ofNat (leNat ((b.drop o).take 4))

/-- `u32::to_le_bytes`. -/
def leU32 (x : UInt32) : Bytes := leBytes 4 x.toNat

@[simp] theorem length_leU32 (x : UInt32) : (leU32 x).length = 4 := length_leBytes 4 _

theorem leU32_roundtrip (x : UInt32) : UInt32.ofNat (leNat (leU32 x)) = x := by
  have hx : x.toNat < 256 ^ 4 := x.toNat_lt
  rw [leU32, leNat_leBytes hx, UInt32.ofNat_toNat]

theorem leU32_injective : Function.Injective leU32 := by
  intro x y h
  rw [← leU32_roundtrip x, ← leU32_roundtrip y, h]

theorem exists_leU32 {b : Bytes} (h : b.length = 4) : ∃ x : UInt32, b = leU32 x := by
  refine ⟨UInt32.ofNat (leNat b), ?_⟩
  have hlt := leNat_lt b
  rw [h] at hlt
  rw [leU32, UInt32.toNat_ofNat_of_lt' hlt, ← h, leBytes_leNat]

/-- `u64::to_le_bytes`. -/
def leU64 (x : UInt64) : Bytes := leBytes 8 x.toNat

@[simp] theorem length_leU64 (x : UInt64) : (leU64 x).length = 8 := length_leBytes 8 _

theorem leU64_roundtrip (x : UInt64) : UInt64.ofNat (leNat (leU64 x)) = x := by
  have hx : x.toNat < 256 ^ 8 := x.toNat_lt
  rw [leU64, leNat_leBytes hx, UInt64.ofNat_toNat]

theorem leU64_injective : Function.Injective leU64 := by
  intro x y h
  rw [← leU64_roundtrip x, ← leU64_roundtrip y, h]

theorem exists_leU64 {b : Bytes} (h : b.length = 8) : ∃ x : UInt64, b = leU64 x := by
  refine ⟨UInt64.ofNat (leNat b), ?_⟩
  have hlt := leNat_lt b
  rw [h] at hlt
  rw [leU64, UInt64.toNat_ofNat_of_lt' hlt, ← h, leBytes_leNat]

/-! ## Slicing -/

/-- `b.get(i..j)`. -/
def getRange (b : Bytes) (i j : Nat) : Option Bytes :=
  if i ≤ j ∧ j ≤ b.length then some ((b.drop i).take (j - i)) else none

theorem getRange_eq_some {b s : Bytes} {i j : Nat} :
    getRange b i j = some s ↔ i ≤ j ∧ j ≤ b.length ∧ s = (b.drop i).take (j - i) := by
  unfold getRange
  split
  · simp_all [eq_comm]
  · simp_all

/-- `hay.windows(n)`. -/
def windows (hay : Bytes) (n : Nat) : List Bytes :=
  (List.range (hay.length + 1 - n)).map (fun i => (hay.drop i).take n)

/-! ## Hexadecimal text -/

def hexDigit (n : Nat) : Char := if n < 10 then Char.ofNat (48 + n) else Char.ofNat (87 + n)

/-- The value of a hexadecimal digit in either case. -/
def hexVal (c : Char) : Option Nat :=
  if '0' ≤ c ∧ c ≤ '9' then some (c.toNat - 48)
  else if 'a' ≤ c ∧ c ≤ 'f' then some (c.toNat - 87)
  else if 'A' ≤ c ∧ c ≤ 'F' then some (c.toNat - 55)
  else none

def hexChars : Bytes → List Char
  | [] => []
  | x :: xs => hexDigit (x.toNat / 16) :: hexDigit (x.toNat % 16) :: hexChars xs

/-- `hex::encode`: two lowercase digits a byte. -/
def hexEncode (b : Bytes) : String := String.ofList (hexChars b)

def unhexChars : List Char → Option Bytes
  | [] => some []
  | [_] => none
  | c :: d :: cs => do
    let hi ← hexVal c
    let lo ← hexVal d
    let rest ← unhexChars cs
    return UInt8.ofNat (16 * hi + lo) :: rest

/-- `hex::decode(..).ok()`. -/
def hexDecode (s : String) : Option Bytes := unhexChars s.toList

theorem hexVal_hexDigit : ∀ n < 16, hexVal (hexDigit n) = some n := by decide

theorem unhexChars_hexChars (b : Bytes) : unhexChars (hexChars b) = some b := by
  induction b with
  | nil => rfl
  | cons x xs ih =>
    have hx := x.toNat_lt
    have hhi := hexVal_hexDigit (x.toNat / 16) (by omega)
    have hlo := hexVal_hexDigit (x.toNat % 16) (by omega)
    have hval : UInt8.ofNat (16 * (x.toNat / 16) + x.toNat % 16) = x := by
      rw [Nat.div_add_mod, UInt8.ofNat_toNat]
    simp only [hexChars, unhexChars, hhi, hlo, ih, Option.bind_eq_bind, Option.bind_some, hval]
    rfl

theorem hexDecode_hexEncode (b : Bytes) : hexDecode (hexEncode b) = some b := by
  rw [hexDecode, hexEncode, String.toList_ofList, unhexChars_hexChars]

end Lib
