import PsobIndexer.Lib.Cursor
/-!
# CompactSize integers

The variable-width integer of the Bitcoin wire format, as a relation between a
number and the byte strings that spell it: every number has a shortest spelling
and may have longer ones. Byte strings and lists are prefixed with it.
-/

namespace Lib

/-- `s` is one of the four CompactSize spellings of `n`. -/
inductive IsCompactSize (n : Nat) : Bytes → Prop
  | one (h : n < 0xfd) : IsCompactSize n [UInt8.ofNat n]
  | two (h : n < 2 ^ 16) : IsCompactSize n (0xfd :: leBytes 2 n)
  | four (h : n < 2 ^ 32) : IsCompactSize n (0xfe :: leBytes 4 n)
  | eight (h : n < 2 ^ 64) : IsCompactSize n (0xff :: leBytes 8 n)

theorem IsCompactSize.lt {n : Nat} {s : Bytes} (h : IsCompactSize n s) : n < 2 ^ 64 := by
  cases h <;> omega

theorem leBytes_leNat_of_length {b : Bytes} {n : Nat} (h : b.length = n) : leBytes n (leNat b) = b := by
  rw [← h, leBytes_leNat]

theorem leNat_lt_of_length {b : Bytes} {n : Nat} (h : b.length = n) : leNat b < 256 ^ n := by
  rw [← h]
  exact leNat_lt b

theorem IsCompactSize.of_two {b : Bytes} (h : b.length = 2) : IsCompactSize (leNat b) (0xfd :: b) := by
  have hc := @IsCompactSize.two (leNat b) (leNat_lt_of_length h)
  rwa [leBytes_leNat_of_length h] at hc

theorem IsCompactSize.of_four {b : Bytes} (h : b.length = 4) : IsCompactSize (leNat b) (0xfe :: b) := by
  have hc := @IsCompactSize.four (leNat b) (leNat_lt_of_length h)
  rwa [leBytes_leNat_of_length h] at hc

theorem IsCompactSize.of_eight {b : Bytes} (h : b.length = 8) : IsCompactSize (leNat b) (0xff :: b) := by
  have hc := @IsCompactSize.eight (leNat b) (leNat_lt_of_length h)
  rwa [leBytes_leNat_of_length h] at hc

theorem IsCompactSize.of_one {x : UInt8} (h : x ≠ 0xfd ∧ x ≠ 0xfe ∧ x ≠ 0xff) : IsCompactSize x.toNat [x] := by
  have hx : x.toNat < 0xfd := by
    have hlt := x.toNat_lt
    have h1 : x.toNat ≠ 0xfd := fun he => h.1 (UInt8.toNat_inj.1 he)
    have h2 : x.toNat ≠ 0xfe := fun he => h.2.1 (UInt8.toNat_inj.1 he)
    have h3 : x.toNat ≠ 0xff := fun he => h.2.2 (UInt8.toNat_inj.1 he)
    omega
  have hc := IsCompactSize.one hx
  rwa [UInt8.ofNat_toNat] at hc

/-- What follows a CompactSize's first byte `n`, and the value the two spell. -/
def SizeTail (n : Bytes) (v : Nat) (s : Bytes) : Prop :=
  v = leNat (if n = [0xff] ∨ n = [0xfe] ∨ n = [0xfd] then s else n) ∧
    s.length = if n = [0xff] then 8 else if n = [0xfe] then 4 else if n = [0xfd] then 2 else 0

theorem isCompactSize_iff_tail {v : Nat} {s : Bytes} :
    IsCompactSize v s ↔ ∃ n s', n.length = 1 ∧ SizeTail n v s' ∧ s = n ++ s' := by
  constructor
  · intro h
    cases h with
    | one h =>
      have hval : (UInt8.ofNat v).toNat = v := by
        rw [UInt8.toNat_ofNat']
        omega
      have hne : ∀ x : UInt8, 0xfd ≤ x.toNat → [UInt8.ofNat v] ≠ [x] := by
        intro x hx he
        rw [← (List.cons.inj he).1, hval] at hx
        omega
      have h1 := hne 0xff (by decide)
      have h2 := hne 0xfe (by decide)
      have h3 := hne 0xfd (by decide)
      refine ⟨[UInt8.ofNat v], [], rfl, ⟨?_, ?_⟩, rfl⟩
      · rw [if_neg (by simp only [h1, h2, h3, or_self, not_false_eq_true])]
        simp only [leNat, hval]
        omega
      · rw [if_neg h1, if_neg h2, if_neg h3]
        rfl
    | two h => exact ⟨[0xfd], leBytes 2 v, rfl, ⟨(leNat_leBytes h).symm, rfl⟩, rfl⟩
    | four h => exact ⟨[0xfe], leBytes 4 v, rfl, ⟨(leNat_leBytes h).symm, rfl⟩, rfl⟩
    | eight h => exact ⟨[0xff], leBytes 8 v, rfl, ⟨(leNat_leBytes h).symm, rfl⟩, rfl⟩
  · rintro ⟨n, s', hn, ⟨rfl, hs'⟩, rfl⟩
    obtain ⟨x, rfl⟩ := List.length_eq_one_iff.1 hn
    simp only [List.cons.injEq, and_true] at hs' ⊢
    split_ifs at hs' with h1 h2 h3
    · subst h1
      exact .of_eight hs'
    · subst h2
      exact .of_four hs'
    · subst h3
      exact .of_two hs'
    · obtain rfl := List.length_eq_zero_iff.1 hs'
      rw [if_neg (by simp only [h1, h2, h3, or_self, not_false_eq_true])]
      exact .of_one ⟨h3, h2, h1⟩

theorem isCompactSize_unambiguous : Unambiguous IsCompactSize := by
  intro b p q q' v v' s s' h hspan h' hspan'
  obtain ⟨n, t, hn, ⟨rfl, ht⟩, rfl⟩ := isCompactSize_iff_tail.1 h
  obtain ⟨n', t', hn', ⟨rfl, ht'⟩, rfl⟩ := isCompactSize_iff_tail.1 h'
  obtain ⟨r, hn₁, ht₁⟩ := span_append_iff.1 hspan
  obtain ⟨r', hn₂, ht₂⟩ := span_append_iff.1 hspan'
  obtain rfl : r = r' := by rw [hn₁.eq_add, hn₂.eq_add, hn, hn']
  obtain rfl : n = n' := hn₁.unique hn₂
  obtain rfl : q = q' := by rw [ht₁.eq_add, ht₂.eq_add, ht, ht']
  obtain rfl : t = t' := ht₁.unique ht₂
  exact ⟨rfl, rfl⟩

/-- A byte string behind its CompactSize length. `len` says how the prefix's
value gives the length: it is the length itself, or its low bits. -/
def VarBytes (len : Nat → Nat → Prop) (body s : Bytes) : Prop :=
  ∃ n c, IsCompactSize n c ∧ len n body.length ∧ s = c ++ body

theorem VarBytes.mono {len len' : Nat → Nat → Prop} {body s : Bytes} (h : VarBytes len body s)
    (hlen : ∀ n m, n < 2 ^ 64 → m ≤ s.length → len n m → len' n m) : VarBytes len' body s := by
  obtain ⟨n, c, hc, hn, rfl⟩ := h
  exact ⟨n, c, hc, hlen n body.length hc.lt (by rw [List.length_append]; omega) hn, rfl⟩

theorem varBytes_unambiguous {len : Nat → Nat → Prop} (hlen : ∀ n m m', len n m → len n m' → m = m') :
    Unambiguous (VarBytes len) := by
  intro b p q q' body body' s s' h hspan h' hspan'
  obtain ⟨n, c, hc, hn, rfl⟩ := h
  obtain ⟨n', c', hc', hn', rfl⟩ := h'
  obtain ⟨r, hc₁, hb₁⟩ := span_append_iff.1 hspan
  obtain ⟨r', hc₂, hb₂⟩ := span_append_iff.1 hspan'
  obtain ⟨rfl, rfl⟩ := isCompactSize_unambiguous hc hc₁ hc' hc₂
  obtain rfl : q = q' := by rw [hb₁.eq_add, hb₂.eq_add, hlen n _ _ hn hn']
  exact ⟨hb₁.unique hb₂, rfl⟩

/-- A list behind the CompactSize of its length. -/
def Counted {α : Type} (R : α → Bytes → Prop) (as : List α) (s : Bytes) : Prop :=
  ∃ c s', IsCompactSize as.length c ∧ Spelled R as s' ∧ s = c ++ s'

theorem Counted.mono {α : Type} {R R' : α → Bytes → Prop} {as : List α} {s : Bytes} (h : Counted R as s)
    (hR : ∀ a s', s'.length ≤ s.length → R a s' → R' a s') : Counted R' as s := by
  obtain ⟨c, s', hc, hs', rfl⟩ := h
  rw [List.length_append] at hR
  exact ⟨c, s', hc, hs'.mono fun a t hle => hR a t (by omega), rfl⟩

theorem counted_unambiguous {α : Type} {R : α → Bytes → Prop} (hR : Unambiguous R) : Unambiguous (Counted R) := by
  intro b p q q' as as' s s' h hspan h' hspan'
  obtain ⟨c, t, hc, ht, rfl⟩ := h
  obtain ⟨c', t', hc', ht', rfl⟩ := h'
  obtain ⟨r, hc₁, ht₁⟩ := span_append_iff.1 hspan
  obtain ⟨r', hc₂, ht₂⟩ := span_append_iff.1 hspan'
  obtain ⟨hlen, rfl⟩ := isCompactSize_unambiguous hc hc₁ hc' hc₂
  exact hR.spelled hlen ht ht₁ ht' ht₂

end Lib
