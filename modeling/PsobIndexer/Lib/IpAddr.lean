import PsobIndexer.Lib.Bytes
/-!
# IP addresses

`s.parse::<IpAddr>()`: four decimal numbers with points, or groups of up to four
hexadecimal digits with colons, of which `::` may leave out a run and the last
two may be written as an IPv4 address. A reader returns what is left of the
text. An IPv4 address reads back from its own text.
-/

namespace Lib

inductive IpAddr where
  | v4 (a b c d : UInt8)
  | v6 (groups : Fin 8 → UInt16)
  deriving DecidableEq

/-! ## Readers -/

def decVal (c : Char) : Option Nat := if c.isDigit then some (c.toNat - 48) else none

/-- A number of at least one and at most `max_digits` digits, below `bound`. -/
def readNumber (digit : Char → Option Nat) (radix max_digits bound : Nat) (allow_zeros : Bool) (s : List Char) :
    Option (Nat × List Char) :=
  let digits := s.takeWhile (fun c => (digit c).isSome)
  let n := (digits.filterMap digit).foldl (fun n d => radix * n + d) 0
  if digits = [] ∨ max_digits < digits.length then none
  else if ¬ allow_zeros ∧ digits.head? = some '0' ∧ 1 < digits.length then none
  else if n < bound then some (n, s.dropWhile (fun c => (digit c).isSome))
  else none

def readOctet (s : List Char) : Option (UInt8 × List Char) :=
  (readNumber decVal 10 3 256 false s).map (fun r => (UInt8.ofNat r.1, r.2))

def readGroup (s : List Char) : Option (UInt16 × List Char) :=
  (readNumber hexVal 16 4 65536 true s).map (fun r => (UInt16.ofNat r.1, r.2))

def readGivenChar (c : Char) : List Char → Option (List Char)
  | [] => none
  | x :: s => if x = c then some s else none

/-- A separator stands before every part but the first. -/
def readSeparator (sep : Char) (index : Nat) (s : List Char) : Option (List Char) :=
  if index = 0 then some s else readGivenChar sep s

def readIpv4Addr (s : List Char) : Option ((UInt8 × UInt8 × UInt8 × UInt8) × List Char) := do
  let (a, s) ← readOctet s
  let s ← readGivenChar '.' s
  let (b, s) ← readOctet s
  let s ← readGivenChar '.' s
  let (c, s) ← readOctet s
  let s ← readGivenChar '.' s
  let (d, s) ← readOctet s
  return ((a, b, c, d), s)

/-- Up to `limit` groups, of which the last two may be an IPv4 address; whether
they are, and the rest. -/
def readGroups : Nat → Nat → List Char → List UInt16 × Bool × List Char
  | 0, _, s => ([], false, s)
  | limit + 1, i, s =>
    match if limit = 0 then none else (readSeparator ':' i s).bind readIpv4Addr with
    | some ((a, b, c, d), s) =>
      ([UInt16.ofNat (256 * a.toNat + b.toNat), UInt16.ofNat (256 * c.toNat + d.toNat)], true, s)
    | none =>
      match (readSeparator ':' i s).bind readGroup with
      | none => ([], false, s)
      | some (g, s) =>
        let (gs, ipv4, s) := readGroups limit (i + 1) s
        (g :: gs, ipv4, s)

/-- The head, zeros, and the tail. -/
def fillGroups (head tail : List UInt16) (i : Fin 8) : UInt16 :=
  (head ++ List.replicate (8 - head.length - tail.length) 0 ++ tail).getD i 0

def readIpv6Addr (s : List Char) : Option ((Fin 8 → UInt16) × List Char) :=
  let (head, ipv4, s) := readGroups 8 0 s
  if head.length = 8 then some (fillGroups head [], s)
  -- no IPv4 part before `::`
  else if ipv4 then none
  else do
    let s ← readGivenChar ':' s
    let s ← readGivenChar ':' s
    let (tail, _, s) := readGroups (8 - (head.length + 1)) 0 s
    return (fillGroups head tail, s)

/-- `s.parse::<IpAddr>().ok()`. -/
def parseIpAddr (s : List Char) : Option IpAddr :=
  match readIpv4Addr s with
  | some ((a, b, c, d), rest) => if rest = [] then some (.v4 a b c d) else none
  | none =>
    match readIpv6Addr s with
    | some (groups, rest) => if rest = [] then some (.v6 groups) else none
    | none => none

/-! ## Round trip -/

/-- `a.b.c.d`. -/
def ipv4Text (a b c d : UInt8) : List Char :=
  (toString a.toNat).toList ++ '.' :: ((toString b.toNat).toList ++ '.' :: ((toString c.toNat).toList ++
    '.' :: (toString d.toNat).toList))

theorem mem_ipv4Text {a b c d : UInt8} {x : Char} (h : x ∈ ipv4Text a b c d) : x.isDigit ∨ x = '.' := by
  have hdigit : ∀ n : Nat, x ∈ (toString n).toList → x.isDigit := by
    intro n hx
    rw [Nat.toString_eq_repr, Nat.toList_repr] at hx
    exact Nat.isDigit_of_mem_toDigits (by decide) (by decide) hx
  simp only [ipv4Text, List.mem_append, List.mem_cons] at h
  rcases h with h | h | h | h | h | h | h
  · exact .inl (hdigit _ h)
  · exact .inr h
  · exact .inl (hdigit _ h)
  · exact .inr h
  · exact .inl (hdigit _ h)
  · exact .inr h
  · exact .inl (hdigit _ h)

/-- What a reader of an octet finds in the text of `n`. -/
theorem decimal_octet : ∀ n < 256,
    let digits := Nat.toDigits 10 n
    digits.all (fun c => (decVal c).isSome) = true ∧ ¬ (digits = [] ∨ 3 < digits.length) ∧
      ¬ (digits.head? = some '0' ∧ 1 < digits.length) ∧
      (digits.filterMap decVal).foldl (fun n d => 10 * n + d) 0 = n := by
  decide +kernel

theorem readOctet_toString (n : UInt8) (rest : List Char) (hrest : ∀ c ∈ rest.head?, decVal c = none) :
    readOctet ((toString n.toNat).toList ++ rest) = some (n, rest) := by
  have htext : (toString n.toNat).toList = Nat.toDigits 10 n.toNat := by
    rw [Nat.toString_eq_repr, Nat.toList_repr]
  obtain ⟨hall, hlen, hzero, hvalue⟩ := decimal_octet n.toNat n.toNat_lt
  rw [← htext] at hall hlen hzero hvalue
  have hdigits := List.all_eq_true.1 hall
  have htake : ((toString n.toNat).toList ++ rest).takeWhile (fun c => (decVal c).isSome) = (toString n.toNat).toList := by
    rw [List.takeWhile_append_of_pos hdigits]
    cases rest with
    | nil => simp
    | cons c rest => simp [hrest c rfl]
  have hdrop : ((toString n.toNat).toList ++ rest).dropWhile (fun c => (decVal c).isSome) = rest := by
    rw [List.dropWhile_append_of_pos hdigits]
    cases rest with
    | nil => rfl
    | cons c rest => simp [hrest c rfl]
  have hnumber : readNumber decVal 10 3 256 false ((toString n.toNat).toList ++ rest) = some (n.toNat, rest) := by
    unfold readNumber
    rw [htake, hdrop]
    simp only [hvalue]
    rw [if_neg hlen, if_neg (by rintro ⟨-, h⟩; exact hzero h), if_pos n.toNat_lt]
  rw [readOctet, hnumber, Option.map_some, UInt8.ofNat_toNat]

/-- An IPv4 address reads back from its text. -/
theorem parseIpAddr_ipv4Text (a b c d : UInt8) : parseIpAddr (ipv4Text a b c d) = some (.v4 a b c d) := by
  have hdot : ∀ (rest : List Char), ∀ c ∈ ('.' :: rest).head?, decVal c = none := by
    rintro rest c hc
    cases hc
    rfl
  have hread : readIpv4Addr (ipv4Text a b c d) = some ((a, b, c, d), []) := by
    have hlast := readOctet_toString d [] (fun c hc => by cases hc)
    rw [List.append_nil] at hlast
    simp only [readIpv4Addr, ipv4Text, readOctet_toString _ _ (hdot _), hlast, readGivenChar, if_true, Option.bind_eq_bind,
      Option.bind_some]
    rfl
  rw [parseIpAddr, hread]
  rfl

example : parseIpAddr "::ffff:10.0.0.1".toList = some (.v6 (fillGroups [] [0xffff, 0x0a00, 0x0001])) := by decide +kernel

end Lib
