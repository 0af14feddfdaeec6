import PsobIndexer.CauxpowExact
import PsobIndexer.TxExact
/-!
# The CompactSize codecs

`write_varint` and two readers: `Cursor::varint` in the payload parser and
`read_varint` in the transaction walks. Both readers succeed on exactly the
CompactSize spellings of a number, and the writer emits the shortest of them.
-/
open Lib

namespace PsobIndexer

/-- No spelling is shorter than the one written. -/
theorem length_writeVarint_le {n : Nat} {c : Bytes} (h : IsCompactSize n c) : (writeVarint n).length ≤ c.length := by
  unfold writeVarint
  cases h with
  | one h => rw [if_pos h]
  | two h =>
    rw [if_pos (show n ≤ 0xffff by omega)]
    split_ifs <;> simp
  | four h =>
    rw [if_pos (show n ≤ 0xffffffff by omega)]
    split_ifs <;> simp
  | eight h => split_ifs <;> simp

section Codecs
variable {w : Nat} {b : Bytes}

theorem varint_iff (hlen : b.length < 2 ^ w) {p n q : Nat} (hp : p ≤ b.length) :
    varint w b p = .ok (n, q) ↔ ∃ c, IsCompactSize n c ∧ Span b p q c :=
  varint_reads hlen p n q hp

/-- The two readers agree at every position of every buffer. -/
theorem varint_eq_readVarint (hlen : b.length < 2 ^ w) {p : Nat} (hp : p ≤ b.length) :
    (varint w b p).toOption = readVarint b p := by
  have hiff : ∀ n q, varint w b p = .ok (n, q) ↔ readVarint b p = some (n, q) := by
    intro n q
    rw [varint_iff hlen hp, readVarint_iff]
  cases hv : varint w b p with
  | ok r => exact ((hiff r.1 r.2).1 hv).symm
  | error e =>
    cases hr : readVarint b p with
    | none => rfl
    | some r =>
      rw [(hiff r.1 r.2).2 hr] at hv
      cases hv

/-- Reading stops where what was written ends. -/
theorem writeVarint_span (n : UInt64) (s : Bytes) :
    IsCompactSize n.toNat (writeVarint n.toNat) ∧
      Span (writeVarint n.toNat ++ s) 0 (writeVarint n.toNat).length (writeVarint n.toNat) := by
  refine ⟨isCompactSize_writeVarint n.toNat_lt, ?_⟩
  rw [span_zero_iff, List.drop_left]
  exact ⟨rfl, rfl⟩

/-- What is written is read back by both readers, which stop at what follows it;
nothing shorter is read as the same number; and the readers agree everywhere. -/
theorem compactSize_codecs_agree (w : Nat) :
    (∀ (n : UInt64) (s : Bytes), (writeVarint n.toNat ++ s).length < 2 ^ w →
      varint w (writeVarint n.toNat ++ s) 0 = .ok (n.toNat, (writeVarint n.toNat).length) ∧
        readVarint (writeVarint n.toNat ++ s) 0 = some (n.toNat, (writeVarint n.toNat).length) ∧
        (writeVarint n.toNat ++ s).drop (writeVarint n.toNat).length = s) ∧
      (∀ (n : UInt64) (b : Bytes) (p q : Nat), b.length < 2 ^ w → p ≤ b.length →
        varint w b p = .ok (n.toNat, q) ∨ readVarint b p = some (n.toNat, q) → p + (writeVarint n.toNat).length ≤ q) ∧
      (∀ (b : Bytes) (p : Nat), b.length < 2 ^ w → p ≤ b.length → (varint w b p).toOption = readVarint b p) := by
  refine ⟨?_, ?_, ?_⟩
  · intro n s hlen
    obtain ⟨hc, hspan⟩ := writeVarint_span n s
    exact ⟨(varint_iff hlen (Nat.zero_le _)).2 ⟨_, hc, hspan⟩, readVarint_iff.2 ⟨_, hc, hspan⟩, List.drop_left⟩
  · intro n b p q hlen hp hread
    obtain ⟨c, hc, hspan⟩ : ∃ c, IsCompactSize n.toNat c ∧ Span b p q c := by
      rcases hread with hv | hr
      · exact (varint_iff hlen hp).1 hv
      · exact readVarint_iff.1 hr
    rw [hspan.eq_add]
    exact Nat.add_le_add_left (length_writeVarint_le hc) p
  · intro b p hlen hp
    exact varint_eq_readVarint hlen hp

end Codecs

theorem compactSize_codecs_agree_sample :
    varint 64 (writeVarint 300 ++ [7]) 0 = .ok (300, 3) ∧ readVarint (writeVarint 300 ++ [7]) 0 = some (300, 3) := by
  obtain ⟨hcursor, hread, -⟩ := (compactSize_codecs_agree 64).1 300 [7] (by decide)
  exact ⟨hcursor, hread⟩

end PsobIndexer
