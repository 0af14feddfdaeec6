import PsobIndexer.Lib.Bytes
import PsobIndexer.Lib.Word
/-!
# Text

The string operations of a line-oriented parser, on lists of characters: Unicode
trimming, numbers in two bases and splitting into at most `n` pieces. What the two
number parsers accept is said in terms of digits (`IsSigned`, `IsPrefixed`).
-/

namespace Lib

/-- `c.is_whitespace()`: the Unicode property `White_Space`. -/
def isWhitespace (c : Char) : Bool :=
  let n := c.toNat
  (9 ≤ n && n ≤ 13) || n = 0x20 || n = 0x85 || n = 0xa0 || n = 0x1680 || (0x2000 ≤ n && n ≤ 0x200a) || n = 0x2028 ||
    n = 0x2029 || n = 0x202f || n = 0x205f || n = 0x3000

/-- `s.trim()`. -/
def trim (s : List Char) : List Char := ((s.dropWhile isWhitespace).reverse.dropWhile isWhitespace).reverse

theorem trim_eq_self {s : List Char} (h : ∀ c ∈ s, isWhitespace c = false) : trim s = s := by
  have hnone : ∀ t : List Char, (∀ c ∈ t, isWhitespace c = false) → t.dropWhile isWhitespace = t := by
    intro t ht
    cases t with
    | nil => rfl
    | cons c t => exact List.dropWhile_cons_of_neg (by rw [ht c List.mem_cons_self]; exact Bool.false_ne_true)
  rw [trim, hnone s h, hnone s.reverse fun c hc => h c (List.mem_reverse.1 hc), List.reverse_reverse]

theorem mem_of_mem_trim {s : List Char} {c : Char} (h : c ∈ trim s) : c ∈ s := by
  rw [trim, List.mem_reverse] at h
  exact List.dropWhile_subset _ (List.mem_reverse.1 (List.dropWhile_subset _ h))

theorem trim_dropWhile (s : List Char) : trim (s.dropWhile isWhitespace) = trim s := by
  rw [trim, List.dropWhile_idempotent]
  rfl

/-- Text that a character other than a space follows is trimmed at its start only. -/
theorem trim_append {s t : List Char} {d : Char} (hs : trim s ≠ []) (hd : isWhitespace d = false) :
    trim (s ++ (t ++ [d])) = s.dropWhile isWhitespace ++ (t ++ [d]) := by
  have hnil : s.dropWhile isWhitespace ≠ [] := by
    intro hnil
    rw [trim, hnil] at hs
    exact hs rfl
  obtain ⟨x, hx, hspace⟩ : ∃ x ∈ s, ¬ isWhitespace x = true := by
    simpa [List.dropWhile_eq_nil_iff] using hnil
  have hdrop : (s ++ (t ++ [d])).dropWhile isWhitespace = s.dropWhile isWhitespace ++ (t ++ [d]) := by
    rw [List.dropWhile_append, if_neg]
    simpa using hnil
  rw [trim, hdrop, ← List.append_assoc, List.reverse_append, List.reverse_singleton, List.singleton_append,
    List.dropWhile_cons_of_neg (by simp [hd]), List.reverse_cons, List.reverse_reverse]

theorem trim_trim (s : List Char) : trim (trim s) = trim s := by
  have hdef : ∀ t : List Char, trim t = (t.dropWhile isWhitespace).rdropWhile isWhitespace := fun _ => rfl
  have hstart : (trim s).dropWhile isWhitespace = trim s := by
    rw [List.dropWhile_eq_self_iff]
    intro hlen
    have hpre : trim s <+: s.dropWhile isWhitespace := List.rdropWhile_prefix _ _
    have hget := hpre.getElem hlen
    have hlen' : 0 < (s.dropWhile isWhitespace).length := lt_of_lt_of_le hlen hpre.length_le
    rw [hget]
    exact List.dropWhile_get_zero_not _ _ hlen'
  rw [hdef (trim s), hstart, hdef s, List.rdropWhile_idempotent]

theorem isWhitespace_of_isDigit {c : Char} (h : c.isDigit) : isWhitespace c = false := by
  simp only [Char.isDigit, Bool.and_eq_true, decide_eq_true_eq, ge_iff_le, UInt32.le_iff_toNat_le] at h
  have hlow : 48 ≤ c.toNat := h.1
  have hhigh : c.toNat ≤ 57 := h.2
  simp only [isWhitespace, Bool.or_eq_false_iff, Bool.and_eq_false_iff, decide_eq_false_iff_not]
  omega

/-- `s.trim_start_matches("0x")`. -/
def trimStart0x : List Char → List Char
  | '0' :: 'x' :: rest => trimStart0x rest
  | s => s

/-! ## Numbers -/

/-- `from_str_radix(s, 16)` into an unsigned integer below `bound`: an optional
`+`, then at least one hexadecimal digit and nothing else. -/
def parseHex (bound : Nat) (s : List Char) : Option Nat :=
  let digits := if s.head? = some '+' then s.tail else s
  if digits = [] then none
  else do
    let values ← digits.mapM hexVal
    let n := values.foldl (fun n d => 16 * n + d) 0
    if n < bound then some n else none

/-! ## What a number looks like -/

/-- A digit of the base, in either case, and its value. -/
def IsDigit (b : Nat) (c : Char) (d : Nat) : Prop := d < b ∧ (c = Nat.digitChar d ∨ c = (Nat.digitChar d).toUpper)

/-- Digits, the highest first, that write the number. -/
def IsNumeral (b : Nat) (s : List Char) (n : Nat) : Prop :=
  s ≠ [] ∧ ∃ ds, List.Forall₂ (IsDigit b) s ds ∧ n = Nat.ofDigits b ds.reverse

/-- A numeral with or without a plus sign. -/
def IsSigned (b : Nat) (s : List Char) (n : Nat) : Prop :=
  IsNumeral b s n ∨ ∃ digits, s = '+' :: digits ∧ IsNumeral b digits n

theorem isDigit_ten {c : Char} {d : Nat} : IsDigit 10 c d ↔ c.isDigit = true ∧ c.toNat - 48 = d := by
  constructor
  · have hall : ∀ d < 10, (Nat.digitChar d).isDigit = true ∧ (Nat.digitChar d).toNat - 48 = d ∧
        (Nat.digitChar d).toUpper = Nat.digitChar d := by decide
    rintro ⟨hd, hc⟩
    obtain ⟨hdigit, hval, hupper⟩ := hall d hd
    rw [hupper, or_self] at hc
    rw [hc]
    exact ⟨hdigit, hval⟩
  · have hall : ∀ n < 58, 48 ≤ n → IsDigit 10 (Char.ofNat n) (n - 48) := by
      unfold IsDigit
      decide
    rintro ⟨hc, rfl⟩
    obtain ⟨hlo, hhi⟩ := Char.isDigit_iff_toNat.1 hc
    have h := hall c.toNat (Nat.lt_succ_of_le hhi) hlo
    rwa [Char.ofNat_toNat] at h

theorem isDigit_sixteen {c : Char} {d : Nat} : IsDigit 16 c d ↔ hexVal c = some d := by
  constructor
  · have hall : ∀ d < 16, hexVal (Nat.digitChar d) = some d ∧ hexVal (Nat.digitChar d).toUpper = some d := by decide
    rintro ⟨hd, rfl | rfl⟩
    · exact (hall d hd).1
    · exact (hall d hd).2
  · have hall : ∀ n < 103, (48 ≤ n ∧ n ≤ 57 → IsDigit 16 (Char.ofNat n) (n - 48)) ∧
        (97 ≤ n ∧ n ≤ 102 → IsDigit 16 (Char.ofNat n) (n - 87)) ∧ (65 ≤ n ∧ n ≤ 70 → IsDigit 16 (Char.ofNat n) (n - 55)) := by
      unfold IsDigit
      decide
    intro hc
    unfold hexVal at hc
    split_ifs at hc with hdec hlower hupper
    · cases hc
      obtain ⟨hlo, hhi⟩ : 48 ≤ c.toNat ∧ c.toNat ≤ 57 := hdec
      have h := (hall c.toNat (by omega)).1 ⟨hlo, hhi⟩
      rwa [Char.ofNat_toNat] at h
    · cases hc
      obtain ⟨hlo, hhi⟩ : 97 ≤ c.toNat ∧ c.toNat ≤ 102 := hlower
      have h := (hall c.toNat (by omega)).2.1 ⟨hlo, hhi⟩
      rwa [Char.ofNat_toNat] at h
    · cases hc
      obtain ⟨hlo, hhi⟩ : 65 ≤ c.toNat ∧ c.toNat ≤ 70 := hupper
      have h := (hall c.toNat (by omega)).2.2 ⟨hlo, hhi⟩
      rwa [Char.ofNat_toNat] at h

/-- Reading digits from the left gives the number they write. -/
theorem foldl_eq_ofDigits (b : Nat) (ds : List Nat) : ds.foldl (fun n d => b * n + d) 0 = Nat.ofDigits b ds.reverse := by
  rw [Nat.ofDigits_eq_foldr, List.foldr_reverse]
  congr 1
  funext n d
  rw [Nat.cast_id, Nat.add_comm]

theorem isDigit_plus {b d : Nat} (hb : b ≤ 16) : ¬ IsDigit b '+' d := by
  have hall : ∀ d < 16, ¬ ('+' = Nat.digitChar d ∨ '+' = (Nat.digitChar d).toUpper) := by decide
  rintro ⟨hd, hc⟩
  exact hall d (by omega) hc

theorem isNumeral_plus {b n : Nat} (hb : b ≤ 16) {s : List Char} : ¬ IsNumeral b ('+' :: s) n := by
  rintro ⟨-, ds, hds, -⟩
  cases hds with
  | cons hc _ => exact isDigit_plus hb hc

theorem isNumeral_ten {s : List Char} {n : Nat} :
    IsNumeral 10 s n ↔ (s ≠ [] ∧ s.all Char.isDigit = true) ∧ n = Nat.ofDigitChars 10 s 0 := by
  have hread : ∀ ds, List.Forall₂ (IsDigit 10) s ds ↔ (∀ c ∈ s, c.isDigit = true) ∧ s.map (fun c => c.toNat - 48) = ds := by
    intro ds
    have hdigit : IsDigit 10 = fun c d => c.isDigit = true ∧ c.toNat - 48 = d := by
      funext c d
      exact propext isDigit_ten
    rw [hdigit, List.forall₂_and_left, ← List.forall₂_eq_eq_eq, List.forall₂_map_left_iff]
  unfold IsNumeral
  simp only [hread, and_assoc, exists_and_left, exists_eq_left', List.all_eq_true, ← foldl_eq_ofDigits, List.foldl_map]
  rfl

theorem isNumeral_sixteen {s : List Char} {n : Nat} :
    IsNumeral 16 s n ↔ s ≠ [] ∧ ∃ values, s.mapM hexVal = some values ∧ n = values.foldl (fun n d => 16 * n + d) 0 := by
  have hread : ∀ ds, List.Forall₂ (IsDigit 16) s ds ↔ s.mapM hexVal = some ds := by
    intro ds
    induction s generalizing ds with
    | nil => simp [eq_comm]
    | cons c s ih =>
      rw [List.forall₂_cons_left_iff, List.mapM_cons]
      simp only [isDigit_sixteen, ih, Option.bind_eq_bind, Option.bind_eq_some_iff, Option.pure_def, Option.some.injEq]
      constructor
      · rintro ⟨d, ds', hd, hds, rfl⟩
        exact ⟨d, hd, ds', hds, rfl⟩
      · rintro ⟨d, hd, ds', hds, rfl⟩
        exact ⟨d, ds', hd, hds, rfl⟩
  unfold IsNumeral
  simp only [hread, foldl_eq_ofDigits]

/-- Without its plus sign a signed numeral is a numeral. -/
theorem isSigned_iff {b n : Nat} (hb : b ≤ 16) {s : List Char} :
    IsSigned b s n ↔ IsNumeral b (if s.head? = some '+' then s.tail else s) n := by
  unfold IsSigned
  cases s with
  | nil => simp
  | cons c s =>
    by_cases hc : c = '+'
    · subst hc
      simp [isNumeral_plus hb]
    · simp [hc]

theorem parseDec_eq_some {bound n : Nat} {s : String} : parseDec bound s = some n ↔ IsSigned 10 s.toList n ∧ n < bound := by
  have hdigits : ∀ digits : List Char, (if digits ≠ [] ∧ digits.all Char.isDigit then
        if Nat.ofDigitChars 10 digits 0 < bound then some (Nat.ofDigitChars 10 digits 0) else none
      else none) = some n ↔ IsNumeral 10 digits n ∧ n < bound := by
    intro digits
    rw [isNumeral_ten]
    split_ifs with hok hlt
    · rw [Option.some.injEq]
      exact ⟨fun h => ⟨⟨hok, h.symm⟩, h ▸ hlt⟩, fun h => h.1.2.symm⟩
    · exact ⟨nofun, fun h => absurd (h.1.2 ▸ h.2) hlt⟩
    · exact ⟨nofun, fun h => absurd h.1.1 hok⟩
  rw [isSigned_iff (by decide), ← hdigits]
  unfold parseDec
  simp only
  cases hs : s.toList with
  | nil => rfl
  | cons c rest =>
    by_cases hc : c = '+'
    · subst hc
      rfl
    · simp [hc]

/-- A decimal text has one value. -/
theorem IsSigned.unique {s : List Char} {m n : Nat} (hm : IsSigned 10 s m) (hn : IsSigned 10 s n) : m = n := by
  have hparse : ∀ k, IsSigned 10 s k → k < max m n + 1 → parseDec (max m n + 1) (String.ofList s) = some k :=
    fun k hk hlt => parseDec_eq_some.2 ⟨by rwa [String.toList_ofList], hlt⟩
  exact Option.some.inj ((hparse m hm (by omega)).symm.trans (hparse n hn (by omega)))

theorem parseHex_eq_some {bound n : Nat} {s : List Char} : parseHex bound s = some n ↔ IsSigned 16 s n ∧ n < bound := by
  rw [isSigned_iff (by decide), isNumeral_sixteen]
  unfold parseHex
  generalize (if s.head? = some '+' then s.tail else s) = digits
  simp only
  by_cases hnil : digits = []
  · simp [hnil]
  · rw [if_neg hnil]
    simp only [hnil, not_false_eq_true, ne_eq, true_and, Option.bind_eq_bind, Option.bind_eq_some_iff]
    constructor
    · rintro ⟨values, hvalues, hn⟩
      split_ifs at hn with hlt
      cases hn
      exact ⟨⟨values, hvalues, rfl⟩, hlt⟩
    · rintro ⟨⟨values, hvalues, rfl⟩, hlt⟩
      exact ⟨values, hvalues, if_pos hlt⟩

theorem IsNumeral.mem {b n : Nat} {s : List Char} (h : IsNumeral b s n) {c : Char} (hc : c ∈ s) : ∃ d, IsDigit b c d := by
  obtain ⟨-, ds, hds, -⟩ := h
  induction hds with
  | nil => cases hc
  | cons hd _ ih =>
    rcases List.mem_cons.1 hc with rfl | hc
    · exact ⟨_, hd⟩
    · exact ih hc

theorem IsNumeral.plus_notMem {b n : Nat} (hb : b ≤ 16) {s : List Char} (h : IsNumeral b s n) : '+' ∉ s := by
  intro hc
  obtain ⟨d, hd⟩ := h.mem hc
  exact isDigit_plus hb hd

theorem IsSigned.numeral {b n : Nat} {s : List Char} (h : IsSigned b s n) (hplus : '+' ∉ s) : IsNumeral b s n := by
  rcases h with h | ⟨digits, rfl, -⟩
  · exact h
  · exact absurd List.mem_cons_self hplus

theorem IsNumeral.x_notMem {n : Nat} {s : List Char} (h : IsNumeral 16 s n) : 'x' ∉ s := by
  intro hc
  obtain ⟨d, hd⟩ := h.mem hc
  rw [isDigit_sixteen] at hd
  cases hd

/-- A signed hexadecimal number after any number of prefixes `0x`. -/
inductive IsPrefixed (n : Nat) : List Char → Prop where
  | bare {s : List Char} : IsSigned 16 s n → IsPrefixed n s
  | prefixed {s : List Char} : IsPrefixed n s → IsPrefixed n ('0' :: 'x' :: s)

theorem parseHex_trimStart0x {bound n : Nat} {s : List Char} :
    parseHex bound (trimStart0x s) = some n ↔ IsPrefixed n s ∧ n < bound := by
  constructor
  · intro h
    induction s using trimStart0x.induct with
    | case1 rest ih =>
      obtain ⟨hrest, hlt⟩ := ih h
      exact ⟨hrest.prefixed, hlt⟩
    | case2 s hs =>
      have hself : trimStart0x s = s := by
        unfold trimStart0x
        split
        · exact absurd rfl (hs _)
        · rfl
      rw [hself] at h
      obtain ⟨hsigned, hlt⟩ := parseHex_eq_some.1 h
      exact ⟨.bare hsigned, hlt⟩
  · rintro ⟨h, hlt⟩
    induction h with
    | prefixed _ ih => exact ih
    | @bare s hs =>
      have hself : trimStart0x s = s := by
        unfold trimStart0x
        split
        · -- `x` is no digit
          rcases hs with hs | ⟨digits, heq, -⟩
          · exact absurd (by simp) hs.x_notMem
          · cases heq
        · rfl
      rw [hself]
      exact parseHex_eq_some.2 ⟨hs, hlt⟩

/-! ## Splitting -/

/-- `s.splitn(n, c)`: the last piece keeps the separators that are left. -/
def splitn (c : Char) : Nat → List Char → List (List Char)
  | 0, _ => []
  | 1, s => [s]
  | n + 2, s => if c ∈ s then s.takeWhile (· ≠ c) :: splitn c (n + 1) (s.dropWhile (· ≠ c)).tail else [s]

theorem splitOn_of_mem {c : Char} {s : List Char} (h : c ∈ s) :
    s.splitOn c = s.takeWhile (· ≠ c) :: (s.dropWhile (· ≠ c)).tail.splitOn c := by
  have hne : s.dropWhile (· ≠ c) ≠ [] := by
    intro hnil
    have := List.dropWhile_eq_nil_iff.1 hnil c h
    simp at this
  obtain ⟨x, rest, hdrop⟩ := List.exists_cons_of_ne_nil hne
  have hx : x = c := by
    have hhead := List.head_dropWhile_not (· ≠ c) hne
    simp only [hdrop, List.head_cons] at hhead
    simpa using hhead
  subst hx
  have hnot : x ∉ s.takeWhile (· ≠ x) := by
    intro hmem
    have := List.mem_takeWhile_imp hmem
    simp at this
  conv_lhs => rw [← List.takeWhile_append_dropWhile (p := (· ≠ x)) (l := s), hdrop]
  rw [List.splitOn_append_cons_self_of_not_mem hnot, hdrop, List.tail_cons]

/-- The first `n` pieces are those of a full split, and the piece after them
holds the rest of it. -/
theorem splitn_spec (c : Char) (n : Nat) (s : List Char) :
    (splitn c (n + 1) s).take n = (s.splitOn c).take n ∧
      ((splitn c (n + 1) s).drop n = [] ∧ (s.splitOn c).drop n = [] ∨
        ∃ rest, (splitn c (n + 1) s).drop n = [rest] ∧ (s.splitOn c).drop n = rest.splitOn c) := by
  induction n generalizing s with
  | zero => exact ⟨rfl, .inr ⟨s, rfl, rfl⟩⟩
  | succ n ih =>
    by_cases h : c ∈ s
    · obtain ⟨htake, hdrop⟩ := ih (s.dropWhile (· ≠ c)).tail
      rw [splitn, if_pos h, splitOn_of_mem h, List.take_succ_cons, List.take_succ_cons, htake, List.drop_succ_cons,
        List.drop_succ_cons]
      exact ⟨rfl, hdrop⟩
    · rw [splitn, if_neg h, List.splitOn_eq_singleton h]
      exact ⟨rfl, .inl ⟨by simp, by simp⟩⟩

theorem splitOn_eq_singleton_iff {c : Char} {s t : List Char} : s.splitOn c = [t] ↔ c ∉ s ∧ s = t := by
  constructor
  · intro h
    have hcat : [c].intercalate (s.splitOn c) = s := List.intercalate_splitOn c
    rw [h, List.intercalate_singleton] at hcat
    refine ⟨fun hc => ?_, hcat.symm⟩
    rw [splitOn_of_mem hc] at h
    exact List.splitOn_ne_nil c _ (List.cons.inj h).2
  · rintro ⟨hc, rfl⟩
    exact List.splitOn_eq_singleton hc

theorem not_mem_of_mem_splitOn {c : Char} {s p : List Char} (h : p ∈ s.splitOn c) : c ∉ p := by
  induction s generalizing p with
  | nil =>
    rw [List.splitOn_nil, List.mem_singleton] at h
    simp [h]
  | cons x s ih =>
    rw [List.splitOn_cons_eq_if_modifyHead] at h
    obtain ⟨q, qs, hqs⟩ := List.exists_cons_of_ne_nil (List.splitOn_ne_nil c s)
    rw [hqs] at ih
    split_ifs at h with hx
    · rcases List.mem_cons.1 h with rfl | h
      · simp
      · exact ih (hqs ▸ h)
    · rw [hqs, List.modifyHead_cons] at h
      rcases List.mem_cons.1 h with rfl | h
      · have hq := ih List.mem_cons_self
        simp only [List.mem_cons, not_or]
        exact ⟨fun he => hx (by simp [he]), hq⟩
      · exact ih (List.mem_cons_of_mem _ h)

end Lib
