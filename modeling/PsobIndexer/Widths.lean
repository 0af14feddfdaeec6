import PsobIndexer.TxExact
import PsobIndexer.CauxpowExact
/-!
# Pointer widths

The parsers run with a 64-bit `usize` in the indexer and with a 32-bit one in
the zkVM guest and in wasm. A length prefix of `2^32` or more is cut there, so
a buffer may spell one thing on one side and nothing on the other. A spelling
under a fixed width is unambiguous, which gives the exact condition under which
the two widths agree.
-/
open Lib

namespace PsobIndexer

/-! ## Spellings are unambiguous -/

section Unambiguous
variable {len : Nat → Nat → Prop}

theorem hash_unambiguous {n : Nat} : Unambiguous (fun (h : ByteArr n) s => s = h.val) :=
  unambiguous_fixed Subtype.val_injective fun h => h.property

theorem u32_unambiguous : Unambiguous (fun x s => s = leU32 x) := unambiguous_fixed leU32_injective length_leU32

theorem u64_unambiguous : Unambiguous (fun x s => s = leU64 x) := unambiguous_fixed leU64_injective length_leU64

theorem txIn_unambiguous (hlen : ∀ n m m', len n m → len n m' → m = m') : Unambiguous (TxIn.Wire len) := by
  intro b p q q' i i' s s' h hspan h' hspan'
  obtain ⟨txid, vout, body, seq⟩ := i
  obtain ⟨txid', vout', body', seq'⟩ := i'
  obtain ⟨script, hs, rfl⟩ := h
  obtain ⟨script', hs', rfl⟩ := h'
  obtain ⟨r₃, hspan, h₄⟩ := span_append_iff.1 hspan
  obtain ⟨r₃', hspan', h₄'⟩ := span_append_iff.1 hspan'
  obtain ⟨r₂, hspan, h₃⟩ := span_append_iff.1 hspan
  obtain ⟨r₂', hspan', h₃'⟩ := span_append_iff.1 hspan'
  obtain ⟨r₁, h₁, h₂⟩ := span_append_iff.1 hspan
  obtain ⟨r₁', h₁', h₂'⟩ := span_append_iff.1 hspan'
  obtain ⟨rfl, rfl⟩ := hash_unambiguous rfl h₁ rfl h₁'
  obtain ⟨rfl, rfl⟩ := u32_unambiguous rfl h₂ rfl h₂'
  obtain ⟨rfl, rfl⟩ := varBytes_unambiguous hlen hs h₃ hs' h₃'
  obtain ⟨rfl, rfl⟩ := u32_unambiguous rfl h₄ rfl h₄'
  exact ⟨rfl, rfl⟩

theorem txOut_unambiguous (hlen : ∀ n m m', len n m → len n m' → m = m') : Unambiguous (TxOut.Wire len) := by
  intro b p q q' o o' s s' h hspan h' hspan'
  obtain ⟨value, body⟩ := o
  obtain ⟨value', body'⟩ := o'
  obtain ⟨script, hs, rfl⟩ := h
  obtain ⟨script', hs', rfl⟩ := h'
  obtain ⟨r, h₁, h₂⟩ := span_append_iff.1 hspan
  obtain ⟨r', h₁', h₂'⟩ := span_append_iff.1 hspan'
  obtain ⟨rfl, rfl⟩ := u64_unambiguous rfl h₁ rfl h₁'
  obtain ⟨rfl, rfl⟩ := varBytes_unambiguous hlen hs h₂ hs' h₂'
  exact ⟨rfl, rfl⟩

theorem tx_unambiguous (hlen : ∀ n m m', len n m → len n m' → m = m') : Unambiguous (Tx.Wire len) := by
  intro b p q q' t t' s s' h hspan h' hspan'
  obtain ⟨version, ins, outs, locktime⟩ := t
  obtain ⟨version', ins', outs', locktime'⟩ := t'
  obtain ⟨si, so, hi, ho, rfl⟩ := h
  obtain ⟨si', so', hi', ho', rfl⟩ := h'
  obtain ⟨r₃, hspan, h₄⟩ := span_append_iff.1 hspan
  obtain ⟨r₃', hspan', h₄'⟩ := span_append_iff.1 hspan'
  obtain ⟨r₂, hspan, h₃⟩ := span_append_iff.1 hspan
  obtain ⟨r₂', hspan', h₃'⟩ := span_append_iff.1 hspan'
  obtain ⟨r₁, h₁, h₂⟩ := span_append_iff.1 hspan
  obtain ⟨r₁', h₁', h₂'⟩ := span_append_iff.1 hspan'
  obtain ⟨rfl, rfl⟩ := u32_unambiguous rfl h₁ rfl h₁'
  obtain ⟨rfl, rfl⟩ := counted_unambiguous (txIn_unambiguous hlen) hi h₂ hi' h₂'
  obtain ⟨rfl, rfl⟩ := counted_unambiguous (txOut_unambiguous hlen) ho h₃ ho' h₃'
  obtain ⟨rfl, rfl⟩ := u32_unambiguous rfl h₄ rfl h₄'
  exact ⟨rfl, rfl⟩

theorem txSegwit_unambiguous (hlen : ∀ n m m', len n m → len n m' → m = m') :
    Unambiguous (fun t s => ∃ witness, Tx.SegwitWire len t witness s) := by
  intro b p q q' t t' s s' h hspan h' hspan'
  obtain ⟨version, ins, outs, locktime⟩ := t
  obtain ⟨version', ins', outs', locktime'⟩ := t'
  obtain ⟨witness, marker, si, so, wit, hm, hi, ho, hl, hw, rfl⟩ := h
  obtain ⟨witness', marker', si', so', wit', hm', hi', ho', hl', hw', rfl⟩ := h'
  obtain ⟨r₅, hspan, h₆⟩ := span_append_iff.1 hspan
  obtain ⟨r₅', hspan', h₆'⟩ := span_append_iff.1 hspan'
  obtain ⟨r₄, hspan, h₅⟩ := span_append_iff.1 hspan
  obtain ⟨r₄', hspan', h₅'⟩ := span_append_iff.1 hspan'
  obtain ⟨r₃, hspan, h₄⟩ := span_append_iff.1 hspan
  obtain ⟨r₃', hspan', h₄'⟩ := span_append_iff.1 hspan'
  obtain ⟨r₂, hspan, h₃⟩ := span_append_iff.1 hspan
  obtain ⟨r₂', hspan', h₃'⟩ := span_append_iff.1 hspan'
  obtain ⟨r₁, h₁, hspan⟩ := span_append_iff.1 hspan
  obtain ⟨r₁', h₁', hspan'⟩ := span_append_iff.1 hspan'
  obtain ⟨r₀, h₀, hflag⟩ := span_append_iff.1 hspan
  obtain ⟨r₀', h₀', hflag'⟩ := span_append_iff.1 hspan'
  obtain ⟨rfl, rfl⟩ := u32_unambiguous rfl h₁ rfl h₁'
  obtain ⟨-, rfl⟩ := isCompactSize_unambiguous hm h₀ hm' h₀'
  obtain rfl : r₂ = r₂' := hflag.eq_add.trans hflag'.eq_add.symm
  obtain ⟨rfl, rfl⟩ := counted_unambiguous (txIn_unambiguous hlen) hi h₃ hi' h₃'
  obtain ⟨rfl, rfl⟩ := counted_unambiguous (txOut_unambiguous hlen) ho h₄ ho' h₄'
  obtain ⟨-, rfl⟩ := Unambiguous.spelled (counted_unambiguous (varBytes_unambiguous hlen)) (hl.trans hl'.symm) hw h₅ hw' h₅'
  obtain ⟨rfl, rfl⟩ := u32_unambiguous rfl h₆ rfl h₆'
  exact ⟨rfl, rfl⟩

/-- A count of inputs and a zero marker cannot be confused. -/
theorem not_legacy_and_segwit {b s s' : Bytes} {p q q' : Nat} {t t' : Tx} (hne : t.ins ≠ []) (h : t.Wire len s)
    (hspan : Span b p q s) (h' : ∃ witness, Tx.SegwitWire len t' witness s') (hspan' : Span b p q' s') : False := by
  obtain ⟨_, so, ⟨c, si, hc, -, rfl⟩, -, rfl⟩ := h
  obtain ⟨witness, marker, si', so', wit', hm, -, -, -, -, rfl⟩ := h'
  simp only [List.append_assoc] at hspan hspan'
  obtain ⟨r₁, h₁, hspan⟩ := span_append_iff.1 hspan
  obtain ⟨r₁', h₁', hspan'⟩ := span_append_iff.1 hspan'
  obtain ⟨r₂, h₂, -⟩ := span_append_iff.1 hspan
  obtain ⟨r₂', h₂', -⟩ := span_append_iff.1 hspan'
  obtain ⟨-, rfl⟩ := u32_unambiguous rfl h₁ rfl h₁'
  obtain ⟨hzero, -⟩ := isCompactSize_unambiguous hc h₂ hm h₂'
  exact hne (List.length_eq_zero_iff.1 hzero)

theorem coinbase_unambiguous (hlen : ∀ n m m', len n m → len n m' → m = m') : Unambiguous (Tx.CoinbaseWire len) := by
  intro b p q q' t t' s s' h hspan h' hspan'
  obtain ⟨hne, h | h⟩ := h
  · obtain ⟨-, h' | h'⟩ := h'
    · exact tx_unambiguous hlen h hspan h' hspan'
    · exact (not_legacy_and_segwit hne h hspan h' hspan').elim
  · obtain ⟨hne', h' | h'⟩ := h'
    · exact (not_legacy_and_segwit hne' h' hspan' h hspan).elim
    · exact txSegwit_unambiguous hlen h hspan h' hspan'

theorem branch_unambiguous (hlen : ∀ n m m', len n m → len n m' → m = m') : Unambiguous (BranchWire len) := by
  intro b p q q' hs hs' s s' h hspan h' hspan'
  obtain ⟨n, c, t, hc, hn, -, ht, rfl⟩ := h
  obtain ⟨n', c', t', hc', hn', -, ht', rfl⟩ := h'
  obtain ⟨r, h₁, h₂⟩ := span_append_iff.1 hspan
  obtain ⟨r', h₁', h₂'⟩ := span_append_iff.1 hspan'
  obtain ⟨rfl, rfl⟩ := isCompactSize_unambiguous hc h₁ hc' h₁'
  exact hash_unambiguous.spelled (hlen n _ _ hn hn') ht h₂ ht' h₂'

theorem cauxpow_unambiguous (hlen : ∀ n m m', len n m → len n m' → m = m') : Unambiguous (CAuxPow.Wire len) := by
  intro b p q q' a a' s s' h hspan h' hspan'
  obtain ⟨t, hb, parent, pi, chain, ci, ph⟩ := a
  obtain ⟨t', hb', parent', pi', chain', ci', ph'⟩ := a'
  obtain ⟨cb, sp, sc, ht, hp, hc, rfl⟩ := h
  obtain ⟨cb', sp', sc', ht', hp', hc', rfl⟩ := h'
  obtain ⟨r₆, hspan, h₇⟩ := span_append_iff.1 hspan
  obtain ⟨r₆', hspan', h₇'⟩ := span_append_iff.1 hspan'
  obtain ⟨r₅, hspan, h₆⟩ := span_append_iff.1 hspan
  obtain ⟨r₅', hspan', h₆'⟩ := span_append_iff.1 hspan'
  obtain ⟨r₄, hspan, h₅⟩ := span_append_iff.1 hspan
  obtain ⟨r₄', hspan', h₅'⟩ := span_append_iff.1 hspan'
  obtain ⟨r₃, hspan, h₄⟩ := span_append_iff.1 hspan
  obtain ⟨r₃', hspan', h₄'⟩ := span_append_iff.1 hspan'
  obtain ⟨r₂, hspan, h₃⟩ := span_append_iff.1 hspan
  obtain ⟨r₂', hspan', h₃'⟩ := span_append_iff.1 hspan'
  obtain ⟨r₁, h₁, h₂⟩ := span_append_iff.1 hspan
  obtain ⟨r₁', h₁', h₂'⟩ := span_append_iff.1 hspan'
  obtain ⟨rfl, rfl⟩ := coinbase_unambiguous hlen ht h₁ ht' h₁'
  obtain ⟨rfl, rfl⟩ := hash_unambiguous rfl h₂ rfl h₂'
  obtain ⟨rfl, rfl⟩ := branch_unambiguous hlen hp h₃ hp' h₃'
  obtain ⟨rfl, rfl⟩ := u32_unambiguous rfl h₄ rfl h₄'
  obtain ⟨rfl, rfl⟩ := branch_unambiguous hlen hc h₅ hc' h₅'
  obtain ⟨rfl, rfl⟩ := u32_unambiguous rfl h₆ rfl h₆'
  obtain ⟨rfl, rfl⟩ := hash_unambiguous rfl h₇ rfl h₇'
  exact ⟨rfl, rfl⟩

end Unambiguous

theorem usizeLen_functional (w n m m' : Nat) (h : usizeLen w n m) (h' : usizeLen w n m') : m = m' := h.symm.trans h'

/-! ## Agreement -/

/-- A length prefix that fits in 32 bits, read as it is written. -/
def shortLen (n m : Nat) : Prop := n < 2 ^ 32 ∧ n = m

/-- Two readings of one input agree when one extends the other and nothing more
is accepted by the larger one. -/
theorem readings_agree_iff {T X : Type} {f g : Option X} {W W' : T → Prop} {D : T → X → Prop}
    (hf : ∀ x, f = some x ↔ ∃ t, W t ∧ D t x) (hg : ∀ x, g = some x ↔ ∃ t, W' t ∧ D t x)
    (hsub : ∀ t, W' t → W t) (huniq : ∀ t t', W t → W t' → t = t') :
    f = g ↔ ∀ t x, W t → D t x → W' t := by
  constructor
  · intro he t x hw hd
    have hfx := (hf x).2 ⟨t, hw, hd⟩
    obtain ⟨t', hw', -⟩ := (hg x).1 (he ▸ hfx)
    exact huniq t' t (hsub t' hw') hw ▸ hw'
  · intro h
    apply Option.ext
    intro x
    rw [hf, hg]
    constructor
    · rintro ⟨t, hw, hd⟩
      exact ⟨t, h t x hw hd, hd⟩
    · rintro ⟨t, hw, hd⟩
      exact ⟨t, hsub t hw, hd⟩

theorem shortLen_iff_eq {n m k : Nat} (hk : k < 2 ^ 31) (hm : m ≤ k) : shortLen n m ↔ n = m := by
  unfold shortLen
  omega

theorem usizeLen_of_short {n m : Nat} (h : shortLen n m) : usizeLen 32 n m := by
  rw [usizeLen, asUsize, Nat.mod_eq_of_lt h.1, h.2]

theorem tx_wire_short {t : Tx} {s : Bytes} (hlen : s.length < 2 ^ 31) :
    t.Wire shortLen s ↔ t.Wire (usizeLen 64) s := by
  rw [tx_wire_usize64]
  constructor
  · exact fun h => h.mono fun n m _ hm => (shortLen_iff_eq hlen hm).1
  · exact fun h => h.mono fun n m _ hm => (shortLen_iff_eq hlen hm).2

theorem cauxpow_wire_short {a : CAuxPow} {s : Bytes} (hlen : s.length < 2 ^ 31) :
    a.Wire shortLen s ↔ a.Wire (usizeLen 64) s := by
  rw [cauxpow_wire_usize64]
  constructor
  · exact fun h => h.mono fun n m _ hm => (shortLen_iff_eq hlen hm).1
  · exact fun h => h.mono fun n m _ hm => (shortLen_iff_eq hlen hm).2

/-- A whole buffer spells at most one transaction. -/
theorem tx_wire_unique {s : Bytes} {t t' : Tx} (h : t.Wire (usizeLen 32) s) (h' : t'.Wire (usizeLen 32) s) : t = t' :=
  (tx_unambiguous (usizeLen_functional 32) h (.whole s) h' (.whole s)).1

theorem parseDepositOutputs_widths {tx : Bytes} (hlen : tx.length < 2 ^ 31) (custody : ByteArr 20) :
    parseDepositOutputs 32 tx custody = parseDepositOutputs 64 tx custody ↔
      ∀ (t : Tx) (x : UInt64 × ByteArr 20), t.Wire (usizeLen 32) tx → DepositOf custody t x.1 x.2 → t.Wire shortLen tx :=
  readings_agree_iff (fun x => parseDepositOutputs_iff (by omega) custody x.1 x.2)
    (fun x => by simp only [tx_wire_short hlen]; exact parseDepositOutputs_iff (by omega) custody x.1 x.2)
    (fun _ h => h.mono fun _ _ _ _ => usizeLen_of_short) (fun _ _ => tx_wire_unique)

theorem parseWithdrawalOutputs_widths {tx : Bytes} (hlen : tx.length < 2 ^ 31) (recipient : ByteArr 20) :
    parseWithdrawalOutputs 32 tx recipient = parseWithdrawalOutputs 64 tx recipient ↔
      ∀ (t : Tx) (x : UInt64 × Hash32), t.Wire (usizeLen 32) tx → PayoutOf recipient t x.1 x.2 → t.Wire shortLen tx :=
  readings_agree_iff (fun x => parseWithdrawalOutputs_iff (by omega) recipient x.1 x.2)
    (fun x => by simp only [tx_wire_short hlen]; exact parseWithdrawalOutputs_iff (by omega) recipient x.1 x.2)
    (fun _ h => h.mono fun _ _ _ _ => usizeLen_of_short) (fun _ _ => tx_wire_unique)

/-- A payload cut into its header, its witness and the bytes after it. -/
structure Payload where
  base : ByteArr 80
  witness : CAuxPow
  bytes : Bytes
  trailing : Bytes

/-- The parts of `p` make up `full`, with the witness read under `len`. -/
def Payload.Wire (len : Nat → Nat → Prop) (p : Payload) (full : Bytes) : Prop :=
  p.witness.Wire len p.bytes ∧ full = p.base.val ++ p.bytes ++ p.trailing

theorem payload_unique {full : Bytes} {p p' : Payload} (h : p.Wire (usizeLen 32) full)
    (h' : p'.Wire (usizeLen 32) full) : p = p' := by
  obtain ⟨base, a, s, trailing⟩ := p
  obtain ⟨base', a', s', trailing'⟩ := p'
  obtain ⟨hw, rfl⟩ := h
  obtain ⟨hw', he⟩ := h'
  simp only at hw hw' he
  obtain ⟨hbase, hrest⟩ := List.append_inj (by simpa only [List.append_assoc] using he)
    (base.property.trans base'.property.symm)
  have hspan := span_mid base.val s trailing
  have hspan' := span_mid base'.val s' trailing'
  rw [← he, base'.property] at hspan'
  rw [base.property] at hspan
  obtain ⟨rfl, hq⟩ := cauxpow_unambiguous (usizeLen_functional 32) hw hspan hw' hspan'
  obtain ⟨rfl, rfl⟩ := List.append_inj hrest (by omega)
  obtain rfl := Subtype.ext hbase
  rfl

theorem parseAuxpow_toOption_iff {w : Nat} {full : Bytes} (hlen : full.length < 2 ^ w) (x : ByteArr 80 × AuxPow) :
    (parseAuxpow w full).toOption = some x ↔
      ∃ p : Payload, p.Wire (usizeLen w) full ∧ x = (p.base, p.witness.toAuxPow) := by
  obtain ⟨base, aux⟩ := x
  have hok : (parseAuxpow w full).toOption = some (base, aux) ↔ parseAuxpow w full = .ok (base, aux) := by
    cases parseAuxpow w full <;> simp [Except.toOption]
  rw [hok, parseAuxpow_iff hlen]
  constructor
  · rintro ⟨a, s, trailing, hw, he, rfl⟩
    exact ⟨⟨base, a, s, trailing⟩, ⟨hw, he⟩, rfl⟩
  · rintro ⟨⟨base', a, s, trailing⟩, ⟨hw, he⟩, hx⟩
    cases hx
    exact ⟨a, s, trailing, hw, he, rfl⟩

theorem parseAuxpow_widths {full : Bytes} (hlen : full.length < 2 ^ 31) :
    (parseAuxpow 32 full).toOption = (parseAuxpow 64 full).toOption ↔
      ∀ p : Payload, p.Wire (usizeLen 32) full → p.Wire shortLen full := by
  have hshort : ∀ p : Payload, p.Wire shortLen full ↔ p.Wire (usizeLen 64) full := by
    intro p
    refine and_congr_left fun he => cauxpow_wire_short ?_
    rw [he] at hlen
    simp only [List.length_append] at hlen
    omega
  have h := @readings_agree_iff Payload (ByteArr 80 × AuxPow) _ _ (fun p => p.Wire (usizeLen 32) full)
    (fun p => p.Wire shortLen full) (fun p x => x = (p.base, p.witness.toAuxPow))
    (parseAuxpow_toOption_iff (by omega))
    (fun x => by simp only [hshort]; exact parseAuxpow_toOption_iff (by omega) x)
    (fun p hp => ⟨hp.1.mono fun _ _ _ _ => usizeLen_of_short, hp.2⟩) (fun _ _ => payload_unique)
  rw [h]
  exact ⟨fun h p hp => h p _ hp rfl, fun h p _ hp _ => h p hp⟩

/-- On buffers below `2^31` bytes, a 32-bit and a 64-bit build agree exactly when
nothing is accepted with a length prefix of `2^32` or more: every reading of the
buffer modulo `2^32` that the parser accepts has only short prefixes. -/
theorem parsers_agree_iff (b : Bytes) (hlen : b.length < 2 ^ 31) (custody recipient : ByteArr 20) :
    ((parseAuxpow 32 b).toOption = (parseAuxpow 64 b).toOption ↔
      ∀ p : Payload, p.Wire (usizeLen 32) b → p.Wire shortLen b) ∧
    (parseDepositOutputs 32 b custody = parseDepositOutputs 64 b custody ↔
      ∀ (t : Tx) (x : UInt64 × ByteArr 20), t.Wire (usizeLen 32) b → DepositOf custody t x.1 x.2 →
        t.Wire shortLen b) ∧
    (parseWithdrawalOutputs 32 b recipient = parseWithdrawalOutputs 64 b recipient ↔
      ∀ (t : Tx) (x : UInt64 × Hash32), t.Wire (usizeLen 32) b → PayoutOf recipient t x.1 x.2 →
        t.Wire shortLen b) :=
  ⟨parseAuxpow_widths hlen, parseDepositOutputs_widths hlen custody, parseWithdrawalOutputs_widths hlen recipient⟩

theorem parsers_agree_iff_sample :
    parseDepositOutputs 32 depositSample (ByteArr.fill 20 0x11) = parseDepositOutputs 64 depositSample (ByteArr.fill 20 0x11) ∧
      ∀ (t : Tx) (x : UInt64 × ByteArr 20), t.Wire (usizeLen 32) depositSample →
        DepositOf (ByteArr.fill 20 0x11) t x.1 x.2 → t.Wire shortLen depositSample := by
  have hagree : parseDepositOutputs 32 depositSample (ByteArr.fill 20 0x11) =
      parseDepositOutputs 64 depositSample (ByteArr.fill 20 0x11) := by
    decide +kernel
  have hiff := parsers_agree_iff depositSample (by decide +kernel) (ByteArr.fill 20 0x11) (ByteArr.fill 20 0x11)
  exact ⟨hagree, hiff.2.1.1 hagree⟩

/-- `depositSample` with the empty scriptSig's length written as `2^32`. -/
def wideSample : Bytes :=
  leU32 1 ++ [1] ++ List.replicate 32 0xaa ++ leU32 0 ++ (0xff :: leBytes 8 (2 ^ 32)) ++ leU32 0xffffffff ++ [2] ++
    leU64 5000 ++ [25] ++ p2pkhScript (ByteArr.fill 20 0x11) ++ leU64 0 ++ [22, 0x6a, 0x14] ++ List.replicate 20 0x22 ++
    leU32 0

/-- The guest accepts this deposit and the indexer does not. -/
theorem parseDepositOutputs_widths_differ :
    wideSample.length < 2 ^ 31 ∧
      parseDepositOutputs 32 wideSample (ByteArr.fill 20 0x11) = some (5000, ByteArr.fill 20 0x22) ∧
      parseDepositOutputs 64 wideSample (ByteArr.fill 20 0x11) = none := by
  decide +kernel

end PsobIndexer
