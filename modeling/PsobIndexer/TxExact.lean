import PsobIndexer.Wire
import PsobIndexer.TxParse
/-!
# The deposit and payout parsers are exact

Each reader is specified by the spans it accepts: it succeeds where the buffer
holds a spelling of what it reads, and nowhere else. The two parsers walk the
same inputs and outputs, so they share these specifications and differ only in
what they accumulate. The buffer is a slice, so its length fits in a `usize`.
-/
open Lib

namespace PsobIndexer

/-! ## CompactSizes -/

/-- A marker and the little-endian number after it. -/
theorem span_marked {tx : Bytes} {p q n v : Nat} {x : UInt8} (hv : v < 256 ^ n)
    (h : Span tx p q (x :: leBytes n v)) :
    tx[p]? = some x ∧ q = p + 1 + n ∧ ∃ b, getRange tx (p + 1) (p + 1 + n) = some b ∧ leNat b = v := by
  obtain ⟨r, hx, hb⟩ := @span_append_iff tx [x] (leBytes n v) p q |>.1 h
  obtain rfl := hx.eq_add
  have hq := hb.eq_add
  rw [length_leBytes] at hq
  subst hq
  exact ⟨span_singleton_iff.2 hx, rfl, leBytes n v, span_iff_getRange.2 hb, leNat_leBytes hv⟩

theorem readVarint_iff {tx : Bytes} {p n q : Nat} :
    readVarint tx p = some (n, q) ↔ ∃ c, IsCompactSize n c ∧ Span tx p q c := by
  constructor
  · intro h
    unfold readVarint at h
    cases hx : tx[p]? with
    | none => simp [hx] at h
    | some x =>
      have hspan := span_singleton_iff.1 hx
      simp only [hx] at h
      split_ifs at h with h1 h2 h3
      · obtain ⟨b, hb, he⟩ := Option.map_eq_some_iff.1 h
        cases he
        have hb := span_iff_getRange.1 hb
        exact ⟨_, .of_two (by have := hb.eq_add; omega), h1 ▸ hspan.append hb⟩
      · obtain ⟨b, hb, he⟩ := Option.map_eq_some_iff.1 h
        cases he
        have hb := span_iff_getRange.1 hb
        exact ⟨_, .of_four (by have := hb.eq_add; omega), h2 ▸ hspan.append hb⟩
      · obtain ⟨b, hb, he⟩ := Option.map_eq_some_iff.1 h
        cases he
        have hb := span_iff_getRange.1 hb
        exact ⟨_, .of_eight (by have := hb.eq_add; omega), h3 ▸ hspan.append hb⟩
      · cases h
        exact ⟨_, .of_one ⟨h1, h2, h3⟩, hspan⟩
  · rintro ⟨c, hc, hspan⟩
    cases hc with
    | one hn =>
      obtain rfl := hspan.eq_add
      have hx := span_singleton_iff.2 hspan
      have hval : (UInt8.ofNat n).toNat = n := by
        rw [UInt8.toNat_ofNat']
        omega
      have hne : ∀ x : UInt8, 0xfd ≤ x.toNat → UInt8.ofNat n ≠ x := by
        intro x hx he
        rw [← he, hval] at hx
        omega
      simp only [readVarint, hx, hval]
      rw [if_neg (hne 0xfd (by decide)), if_neg (hne 0xfe (by decide)), if_neg (hne 0xff (by decide))]
      rfl
    | two hn =>
      obtain ⟨hx, rfl, b, hb, rfl⟩ := span_marked (show n < 256 ^ 2 from hn) hspan
      simp only [readVarint, hx, if_true, hb, Option.map_some]
    | four hn =>
      obtain ⟨hx, rfl, b, hb, rfl⟩ := span_marked (show n < 256 ^ 4 from hn) hspan
      simp only [readVarint, hx, if_true, hb, Option.map_some]
      rfl
    | eight hn =>
      obtain ⟨hx, rfl, b, hb, rfl⟩ := span_marked (show n < 256 ^ 8 from hn) hspan
      simp only [readVarint, hx, if_true, hb, Option.map_some]
      rfl

/-! ## Inputs and outputs -/

section Readers
variable {w : Nat} {tx : Bytes}

theorem skipInput_eq_some (hlen : tx.length < 2 ^ w) {p q : Nat} :
    skipInput w tx p = some q ↔ p + 36 ≤ tx.length ∧ ∃ n np, readVarint tx (p + 36) = some (n, np) ∧
      q = np + asUsize w n + 4 ∧ q ≤ tx.length := by
  simp only [skipInput, gt_iff_lt, Option.pure_def, Option.bind_eq_bind, Option.bind_none, Option.bind_eq_some_iff,
    checkedAdd_eq_some, Option.ite_none_left_eq_some, not_lt, Option.some.injEq, exists_eq_right_right, ↓existsAndEq,
    and_true, Prod.exists]
  constructor
  · rintro ⟨-, hp, n, np, hn, -, ⟨-, he⟩, hq⟩
    exact ⟨hp, n, np, hn, he, hq⟩
  · rintro ⟨hp, n, np, hn, he, hq⟩
    exact ⟨by omega, hp, n, np, hn, by omega, ⟨by omega, he⟩, hq⟩

theorem skipInput_iff (hlen : tx.length < 2 ^ w) {p q : Nat} :
    skipInput w tx p = some q ↔ ∃ (i : TxIn) (s : Bytes), i.Wire (usizeLen w) s ∧ Span tx p q s := by
  rw [skipInput_eq_some hlen]
  constructor
  · rintro ⟨hp, n, np, hn, rfl, hq⟩
    obtain ⟨c, hc, hspanc⟩ := readVarint_iff.1 hn
    obtain ⟨txid, hs₁, hl₁⟩ := exists_span 32 (show p + 32 ≤ tx.length by omega)
    obtain ⟨vout, hs₂, hl₂⟩ := exists_span 4 (show p + 32 + 4 ≤ tx.length by omega)
    obtain ⟨body, hs₃, hl₃⟩ := exists_span (asUsize w n) (show np + asUsize w n ≤ tx.length by omega)
    obtain ⟨seq, hs₄, hl₄⟩ := exists_span 4 hq
    obtain ⟨vout, rfl⟩ := exists_leU32 hl₂
    obtain ⟨seq, rfl⟩ := exists_leU32 hl₄
    exact ⟨⟨⟨txid, hl₁⟩, vout, body, seq⟩, _, ⟨c ++ body, ⟨n, c, hc, hl₃.symm, rfl⟩, rfl⟩,
      ((hs₁.append hs₂).append (hspanc.append hs₃)).append hs₄⟩
  · rintro ⟨i, s, ⟨_, ⟨n, c, hc, hn, rfl⟩, rfl⟩, hspan⟩
    obtain ⟨r₃, hspan, hs₄⟩ := span_append_iff.1 hspan
    obtain ⟨r₁, hs₁, hscript⟩ := span_append_iff.1 hspan
    obtain ⟨r₂, hsc, hsb⟩ := span_append_iff.1 hscript
    have h₁ := hs₁.eq_add
    have h₂ := hsb.eq_add
    have h₃ := hs₄.eq_add
    rw [List.length_append, i.txid.property, length_leU32] at h₁
    rw [length_leU32] at h₃
    obtain rfl : r₁ = p + 36 := by omega
    refine ⟨hs₁.le.2, n, r₂, readVarint_iff.2 ⟨c, hc, hsc⟩, ?_, hs₄.le.2⟩
    rw [hn]
    omega

theorem readOutput_iff (hlen : tx.length < 2 ^ w) {p q : Nat} {value : UInt64} {script : Bytes} :
    readOutput w tx p = some ((value, script), q) ↔
      ∃ s, (TxOut.mk value script).Wire (usizeLen w) s ∧ Span tx p q s := by
  simp only [readOutput, Option.pure_def, Option.bind_eq_bind, Option.bind_eq_some_iff, checkedAdd_eq_some,
    Option.some.injEq, Prod.mk.injEq, ↓existsAndEq, and_true, Prod.exists]
  constructor
  · rintro ⟨b, hb, n, np, hn, -, hbody, rfl, rfl⟩
    have hs₁ := span_iff_getRange.1 hb
    have hs₃ := span_iff_getRange.1 hbody
    obtain ⟨c, hc, hs₂⟩ := readVarint_iff.1 hn
    obtain ⟨x, rfl⟩ := exists_leU64 (show b.length = 8 by have := hs₁.eq_add; omega)
    have hl : asUsize w n = script.length := by have := hs₃.eq_add; omega
    rw [leU64_roundtrip]
    exact ⟨_, ⟨c ++ script, ⟨n, c, hc, hl, rfl⟩, rfl⟩, hs₁.append (hs₂.append hs₃)⟩
  · rintro ⟨s, ⟨_, ⟨n, c, hc, hn, rfl⟩, rfl⟩, hspan⟩
    obtain ⟨r₁, hs₁, hspan⟩ := span_append_iff.1 hspan
    obtain ⟨r₂, hs₂, hs₃⟩ := span_append_iff.1 hspan
    have h₁ := hs₁.eq_add
    have h₃ := hs₃.eq_add
    have hle := hs₃.le.2
    rw [length_leU64] at h₁
    subst h₁
    simp only [usizeLen] at hn
    rw [← hn] at h₃
    subst h₃
    exact ⟨_, span_iff_getRange.2 hs₁, n, r₂, readVarint_iff.2 ⟨c, hc, hs₂⟩, by omega, span_iff_getRange.2 hs₃,
      leU64_roundtrip value, rfl⟩

theorem walkOutputs_iff {σ : Type} (hlen : tx.length < 2 ^ w) (step : σ → UInt64 × Bytes → Option σ) {n p q : Nat}
    {acc acc' : σ} (hp : p ≤ tx.length) :
    walkOutputs w tx step n p acc = some (acc', q) ↔
      ∃ (outs : List TxOut) (s : Bytes), outs.length = n ∧ Spelled (TxOut.Wire (usizeLen w)) outs s ∧ Span tx p q s ∧
        outs.foldlM (fun acc o => step acc (o.value, o.script)) acc = some acc' := by
  induction n generalizing p acc with
  | zero =>
    constructor
    · intro h
      cases h
      exact ⟨[], [], rfl, rfl, .nil hp, rfl⟩
    · rintro ⟨outs, s, hn, hs, hspan, hfold⟩
      obtain rfl := List.length_eq_zero_iff.1 hn
      subst hs
      cases hfold
      rw [(span_nil_iff hp).1 hspan]
      rfl
  | succ n ih =>
    simp only [walkOutputs, Option.bind_eq_bind, Option.bind_eq_some_iff, Prod.exists]
    constructor
    · rintro ⟨value, script, r, hread, acc₁, hstep, hrest⟩
      obtain ⟨s₁, hw, hspan₁⟩ := (readOutput_iff hlen).1 hread
      obtain ⟨outs, s₂, hn, hs, hspan₂, hfold⟩ := (ih hspan₁.le.2).1 hrest
      refine ⟨⟨value, script⟩ :: outs, s₁ ++ s₂, by rw [List.length_cons, hn], ⟨s₁, s₂, hw, hs, rfl⟩,
        hspan₁.append hspan₂, ?_⟩
      rw [List.foldlM_cons, hstep]
      exact hfold
    · rintro ⟨outs, s, hn, hs, hspan, hfold⟩
      obtain ⟨out, outs, rfl⟩ := List.exists_cons_of_length_eq_add_one hn
      obtain ⟨s₁, s₂, hw, hs, rfl⟩ := hs
      obtain ⟨r, hspan₁, hspan₂⟩ := span_append_iff.1 hspan
      rw [List.foldlM_cons] at hfold
      obtain ⟨acc₁, hstep, hfold⟩ := Option.bind_eq_some_iff.1 hfold
      refine ⟨out.value, out.script, r, (readOutput_iff hlen).2 ⟨s₁, hw, hspan₁⟩, acc₁, hstep, ?_⟩
      exact (ih hspan₁.le.2).2 ⟨outs, s₂, by simpa using hn, hs, hspan₂, hfold⟩

theorem skipInputs_iff (hlen : tx.length < 2 ^ w) {n p q : Nat} (hp : p ≤ tx.length) :
    skipInputs w tx n p = some q ↔
      ∃ (ins : List TxIn) (s : Bytes), ins.length = n ∧ Spelled (TxIn.Wire (usizeLen w)) ins s ∧ Span tx p q s := by
  induction n generalizing p with
  | zero =>
    constructor
    · intro h
      cases h
      exact ⟨[], [], rfl, rfl, .nil hp⟩
    · rintro ⟨ins, s, hn, hs, hspan⟩
      obtain rfl := List.length_eq_zero_iff.1 hn
      subst hs
      rw [(span_nil_iff hp).1 hspan]
      rfl
  | succ n ih =>
    simp only [skipInputs, Option.bind_eq_bind, Option.bind_eq_some_iff]
    constructor
    · rintro ⟨r, hread, hrest⟩
      obtain ⟨i, s₁, hw, hspan₁⟩ := (skipInput_iff hlen).1 hread
      obtain ⟨ins, s₂, hn, hs, hspan₂⟩ := (ih hspan₁.le.2).1 hrest
      exact ⟨i :: ins, s₁ ++ s₂, by rw [List.length_cons, hn], ⟨s₁, s₂, hw, hs, rfl⟩, hspan₁.append hspan₂⟩
    · rintro ⟨ins, s, hn, hs, hspan⟩
      obtain ⟨i, ins, rfl⟩ := List.exists_cons_of_length_eq_add_one hn
      obtain ⟨s₁, s₂, hw, hs, rfl⟩ := hs
      obtain ⟨r, hspan₁, hspan₂⟩ := span_append_iff.1 hspan
      refine ⟨r, (skipInput_iff hlen).2 ⟨i, s₁, hw, hspan₁⟩, ?_⟩
      exact (ih hspan₁.le.2).2 ⟨ins, s₂, by simpa using hn, hs, hspan₂⟩

/-- The null prevout, which only a coinbase spends. -/
def TxIn.NullPrevout (i : TxIn) : Prop := i.txid = ByteArr.fill 32 0 ∧ i.vout = 0xffffffff

instance (i : TxIn) : Decidable i.NullPrevout := inferInstanceAs (Decidable (_ ∧ _))

theorem all_zero_iff (h : Hash32) : (h.val.all (· == 0)) = true ↔ h = ByteArr.fill 32 0 := by
  rw [Subtype.ext_iff, ByteArr.fill, List.eq_replicate_iff]
  simp [h.property]

/-- The prevout the deposit parser reads is the one the input spells. -/
theorem prevout_read {len : Nat → Nat → Prop} {i : TxIn} {s : Bytes} {p r : Nat} (hw : i.Wire len s)
    (hspan : Span tx p r s) :
    getRange tx p (p + 32) = some i.txid.val ∧ getRange tx (p + 32) (p + 36) = some (leU32 i.vout) := by
  obtain ⟨_, -, rfl⟩ := hw
  obtain ⟨r₁, hspan, -⟩ := span_append_iff.1 hspan
  obtain ⟨r₂, hspan, -⟩ := span_append_iff.1 hspan
  obtain ⟨r₃, hs₁, hs₂⟩ := span_append_iff.1 hspan
  have h₁ := hs₁.eq_add
  have h₂ := hs₂.eq_add
  rw [i.txid.property] at h₁
  rw [length_leU32] at h₂
  subst h₁ h₂
  exact ⟨span_iff_getRange.2 hs₁, span_iff_getRange.2 hs₂⟩

theorem nullPrevout_read (i : TxIn) :
    (decide (leNat (leU32 i.vout) = 0xffffffff) && i.txid.val.all (· == 0)) = decide i.NullPrevout := by
  have hvout : leNat (leU32 i.vout) = i.vout.toNat := leNat_leBytes i.vout.toNat_lt
  have hmax : i.vout.toNat = 0xffffffff ↔ i.vout = 0xffffffff := by
    rw [← UInt32.toNat_inj]
    rfl
  rw [Bool.eq_iff_iff, Bool.and_eq_true, decide_eq_true_eq, decide_eq_true_eq, all_zero_iff, hvout, hmax,
    TxIn.NullPrevout, and_comm]

theorem depositInputs_tail (n i p : Nat) (coinbase_prevout : Bool) :
    depositInputs w tx n (i + 1) p coinbase_prevout = (skipInputs w tx n p).map (·, coinbase_prevout) := by
  induction n generalizing i p with
  | zero => rfl
  | succ n ih =>
    simp only [depositInputs, skipInputs, Nat.add_one_ne_zero, if_false, Option.bind_eq_bind, Option.bind_some]
    cases skipInput w tx p with
    | none => rfl
    | some p' => exact ih (i + 1) p'

theorem depositInputs_iff (hlen : tx.length < 2 ^ w) {n p q : Nat} {coinbase_prevout : Bool} (hn : n ≠ 0) :
    depositInputs w tx n 0 p false = some (q, coinbase_prevout) ↔
      ∃ (ins : List TxIn) (s : Bytes), ins.length = n ∧ Spelled (TxIn.Wire (usizeLen w)) ins s ∧ Span tx p q s ∧
        coinbase_prevout = decide (∃ i ∈ ins.head?, i.NullPrevout) := by
  obtain ⟨n, rfl⟩ := Nat.exists_eq_succ_of_ne_zero hn
  simp only [depositInputs, if_true, Option.bind_eq_bind, depositInputs_tail]
  constructor
  · intro h
    simp only [Option.bind_eq_some_iff, Option.map_eq_some_iff] at h
    obtain ⟨txid, htxid, vout, hvout, flag, hflag, r, hskip, q', hrest, he⟩ := h
    cases he
    obtain ⟨i, s₁, hw, hspan₁⟩ := (skipInput_iff hlen).1 hskip
    obtain ⟨ins, s₂, rfl, hs, hspan₂⟩ := (skipInputs_iff hlen hspan₁.le.2).1 hrest
    obtain ⟨ht, hv⟩ := prevout_read hw hspan₁
    obtain rfl := Option.some.inj (htxid.symm.trans ht)
    obtain rfl := Option.some.inj (hvout.symm.trans hv)
    rw [nullPrevout_read, Option.some.injEq] at hflag
    refine ⟨i :: ins, s₁ ++ s₂, rfl, ⟨s₁, s₂, hw, hs, rfl⟩, hspan₁.append hspan₂, ?_⟩
    simp [← hflag]
  · rintro ⟨ins, s, hn, hs, hspan, rfl⟩
    obtain ⟨i, ins, rfl⟩ := List.exists_cons_of_length_eq_add_one hn
    obtain ⟨s₁, s₂, hw, hs, rfl⟩ := hs
    obtain ⟨r, hspan₁, hspan₂⟩ := span_append_iff.1 hspan
    obtain ⟨ht, hv⟩ := prevout_read hw hspan₁
    have hskip : skipInput w tx p = some r := (skipInput_iff hlen).2 ⟨i, s₁, hw, hspan₁⟩
    have hrest : skipInputs w tx n r = some q :=
      (skipInputs_iff hlen hspan₁.le.2).2 ⟨ins, s₂, by simpa using hn, hs, hspan₂⟩
    simp only [ht, hv, Option.bind_some, nullPrevout_read, hskip, hrest, Option.map_some]
    simp

end Readers

/-! ## Scripts -/

/-- The 25-byte pay-to-pubkey-hash script of `hash160`. -/
def p2pkhScript (hash160 : ByteArr 20) : Bytes := [0x76, 0xa9, 0x14] ++ hash160.val ++ [0x88, 0xac]

theorem isP2pkh_iff (hash160 : ByteArr 20) (script : Bytes) :
    isP2pkh hash160 script = true ↔ script = p2pkhScript hash160 := by
  constructor
  · intro h
    simp only [isP2pkh, Bool.and_eq_true, decide_eq_true_eq] at h
    obtain ⟨⟨⟨⟨⟨⟨hlen, h0⟩, h1⟩, h2⟩, h23⟩, h24⟩, hbody⟩ := h
    rcases script with _ | ⟨a, _ | ⟨b, _ | ⟨c, rest⟩⟩⟩
    · cases h0
    · cases h1
    · cases h2
    · obtain ⟨x, y, hxy⟩ : ∃ x y, rest.drop 20 = [x, y] := List.length_eq_two.1 (by simp at hlen ⊢; omega)
      simp only [List.getElem?_cons_succ, List.getElem?_cons_zero, Option.some.injEq] at h0 h1 h2 h23 h24
      have hx : (rest.drop 20)[0]? = some 0x88 := by rwa [List.getElem?_drop]
      have hy : (rest.drop 20)[1]? = some 0xac := by rwa [List.getElem?_drop]
      rw [hxy] at hx hy
      simp only [List.getElem?_cons_succ, List.getElem?_cons_zero, Option.some.injEq] at hx hy
      have hrest : rest = hash160.val ++ [0x88, 0xac] := by
        rw [← List.take_append_drop 20 rest, hxy, hx, hy]
        exact congrArg (· ++ _) hbody
      rw [h0, h1, h2, hrest]
      rfl
  · intro h
    subst h
    have hlen := hash160.property
    simp [isP2pkh, p2pkhScript, hlen]

/-- The two `OP_RETURN` forms that bind an EVM recipient. -/
def BindsRecipient (script : Bytes) (recipient : ByteArr 20) : Prop :=
  script = [0x6a, 0x14] ++ recipient.val ∨ script = [0x6a, 0x16, 0x6a, 0x14] ++ recipient.val

/-- The `OP_RETURN` that binds a withdrawal id. -/
def BindsWithdrawal (script : Bytes) (withdrawal_id : Hash32) : Prop := script = [0x6a, 0x20] ++ withdrawal_id.val

/-- A script with fixed opcodes `ops` in front and `n` bytes of payload. -/
theorem payload_iff {n : Nat} (ops : Bytes) {script : Bytes} {a : ByteArr n} :
    (script.length = ops.length + n ∧ (∀ i < ops.length, script[i]? = ops[i]?) ∧
      ByteArr.ofSlice n script ops.length = a) ↔ script = ops ++ a.val := by
  constructor
  · rintro ⟨hlen, hops, ha⟩
    have htake : script.take ops.length = ops := by
      apply List.ext_getElem?
      intro i
      rw [List.getElem?_take]
      split
      · rename_i hi
        exact hops i hi
      · rename_i hi
        exact (List.getElem?_eq_none (by omega)).symm
    have hdrop : script.drop ops.length = a.val := by
      rw [← ha, ByteArr.ofSlice_val (by omega), List.take_of_length_le (by rw [List.length_drop]; omega)]
    rw [← hdrop]
    exact (List.take_append_drop ops.length script).symm.trans (congrArg (· ++ _) htake)
  · intro h
    subst h
    have hlen := a.property
    refine ⟨by rw [List.length_append, hlen], fun i hi => List.getElem?_append_left hi, Subtype.ext ?_⟩
    rw [ByteArr.ofSlice_val (by rw [List.length_append, hlen]), List.drop_left, List.take_of_length_le (le_of_eq hlen)]

theorem opReturnWithdrawalId_iff (script : Bytes) (withdrawal_id : Hash32) :
    opReturnWithdrawalId script = some withdrawal_id ↔ BindsWithdrawal script withdrawal_id := by
  rw [BindsWithdrawal, ← payload_iff, opReturnWithdrawalId]
  simp only [List.length_cons, List.length_nil, Nat.forall_lt_succ_right, Nat.not_lt_zero, false_implies, implies_true,
    true_and, List.getElem?_cons_zero, List.getElem?_cons_succ, Option.ite_none_right_eq_some, Option.some.injEq,
    and_assoc]

theorem opReturnRecipient_iff (script : Bytes) (recipient : ByteArr 20) :
    opReturnRecipient script = some recipient ↔ BindsRecipient script recipient := by
  rw [BindsRecipient, ← payload_iff, ← payload_iff, opReturnRecipient]
  simp only [List.length_cons, List.length_nil, Nat.forall_lt_succ_right, Nat.not_lt_zero, false_implies, implies_true,
    true_and, List.getElem?_cons_zero, List.getElem?_cons_succ]
  constructor
  · intro h
    split_ifs at h with h1 h2
    · exact .inl ⟨h1.1, h1.2, Option.some.inj h⟩
    · obtain ⟨hlen, h0, h1, h2, h3⟩ := h2
      exact .inr ⟨hlen, ⟨⟨⟨h0, h1⟩, h2⟩, h3⟩, Option.some.inj h⟩
  · rintro (⟨hlen, hops, rfl⟩ | ⟨hlen, ⟨⟨⟨h0, h1⟩, h2⟩, h3⟩, rfl⟩)
    · rw [if_pos ⟨hlen, hops⟩]
    · rw [if_neg (by omega), if_pos ⟨hlen, h0, h1, h2, h3⟩]

/-! ## Accumulators -/

/-- `b` is what the first element related to anything is related to. -/
def First {α β : Type} (R : α → β → Prop) (l : List α) (b : β) : Prop :=
  ∃ before a after, l = before ++ a :: after ∧ R a b ∧ ∀ a' ∈ before, ∀ b', ¬ R a' b'

theorem findSome?_iff_first {α β : Type} {f : α → Option β} {R : α → β → Prop} (hf : ∀ a b, f a = some b ↔ R a b)
    {l : List α} {b : β} : l.findSome? f = some b ↔ First R l b := by
  rw [List.findSome?_eq_some_iff]
  simp only [First, ← hf]
  constructor
  · rintro ⟨before, a, after, rfl, ha, hnone⟩
    refine ⟨before, a, after, rfl, ha, fun a' ha' b' hb' => ?_⟩
    rw [hnone a' ha'] at hb'
    cases hb'
  · rintro ⟨before, a, after, rfl, ha, hnone⟩
    exact ⟨before, a, after, rfl, ha, fun a' ha' => Option.eq_none_iff_forall_ne_some.2 (hnone a' ha')⟩

theorem findSome?_cons_or {α β : Type} (f : α → Option β) (a : α) (l : List α) :
    (a :: l).findSome? f = (f a).or (l.findSome? f) := by
  rw [List.findSome?_cons]
  cases f a <;> rfl

/-- The sum of what the outputs pay to `hash160`. -/
def paidTo (hash160 : ByteArr 20) (outs : List TxOut) : Nat :=
  ((outs.filter (fun o => o.script = p2pkhScript hash160)).map (fun o => o.value.toNat)).sum

theorem not_bindsRecipient_p2pkh (hash160 recipient : ByteArr 20) : ¬ BindsRecipient (p2pkhScript hash160) recipient := by
  rintro (h | h)
  · cases h
  · cases h

theorem not_bindsWithdrawal_p2pkh (hash160 : ByteArr 20) (withdrawal_id : Hash32) :
    ¬ BindsWithdrawal (p2pkhScript hash160) withdrawal_id := by
  intro h
  cases h

theorem opReturnRecipient_p2pkh (hash160 : ByteArr 20) : opReturnRecipient (p2pkhScript hash160) = none :=
  Option.eq_none_iff_forall_ne_some.2 fun r h => not_bindsRecipient_p2pkh hash160 r ((opReturnRecipient_iff _ r).1 h)

theorem opReturnWithdrawalId_p2pkh (hash160 : ByteArr 20) : opReturnWithdrawalId (p2pkhScript hash160) = none :=
  Option.eq_none_iff_forall_ne_some.2 fun r h =>
    not_bindsWithdrawal_p2pkh hash160 r ((opReturnWithdrawalId_iff _ r).1 h)

theorem depositOutput_custody {custody : ByteArr 20} {script : Bytes} (h : script = p2pkhScript custody)
    (acc : UInt64 × Option (ByteArr 20)) (value : UInt64) :
    depositOutput custody acc (value, script) =
      if acc.1.toNat + value.toNat < 2 ^ 64 then some (acc.1 + value, acc.2) else none := by
  rw [depositOutput, if_pos ((isP2pkh_iff custody script).2 h)]

theorem depositOutput_other {custody : ByteArr 20} {script : Bytes} (h : script ≠ p2pkhScript custody)
    (acc : UInt64 × Option (ByteArr 20)) (value : UInt64) :
    depositOutput custody acc (value, script) = some (acc.1, acc.2.or (opReturnRecipient script)) := by
  rw [depositOutput, if_neg fun hp => h ((isP2pkh_iff custody script).1 hp)]

/-- The deposit loop sums without overflow and keeps the first recipient. -/
theorem depositFold_iff (custody : ByteArr 20) (outs : List TxOut) (acc acc' : UInt64 × Option (ByteArr 20)) :
    outs.foldlM (fun acc o => depositOutput custody acc (o.value, o.script)) acc = some acc' ↔
      acc'.1.toNat = acc.1.toNat + paidTo custody outs ∧
        acc'.2 = acc.2.or (outs.findSome? (fun o => opReturnRecipient o.script)) := by
  induction outs generalizing acc with
  | nil =>
    show some acc = some acc' ↔ _
    simp [paidTo, Prod.ext_iff, ← UInt64.toNat_inj, eq_comm]
  | cons o outs ih =>
    rw [List.foldlM_cons, findSome?_cons_or]
    by_cases hp : o.script = p2pkhScript custody
    · have hrec : opReturnRecipient o.script = none := hp ▸ opReturnRecipient_p2pkh custody
      have hpaid : paidTo custody (o :: outs) = o.value.toNat + paidTo custody outs := by simp [paidTo, hp]
      rw [hpaid, hrec, Option.none_or, depositOutput_custody hp]
      split
      · rename_i hfit
        rw [Option.bind_eq_bind, Option.bind_some, ih, UInt64.toNat_add, Nat.mod_eq_of_lt hfit, Nat.add_assoc]
      · rename_i hover
        have hlt := acc'.1.toNat_lt
        rw [Option.bind_eq_bind, Option.bind_none]
        constructor
        · intro h
          cases h
        · intro h
          omega
    · have hpaid : paidTo custody (o :: outs) = paidTo custody outs := by simp [paidTo, hp]
      rw [hpaid, depositOutput_other hp, Option.bind_eq_bind, Option.bind_some, ih, Option.or_assoc]

theorem withdrawalOutput_eq (recipient : ByteArr 20) (acc : Option UInt64 × Option Hash32) (value : UInt64)
    (script : Bytes) :
    withdrawalOutput recipient acc (value, script) =
      some (acc.1.or (if script = p2pkhScript recipient then some value else none),
        acc.2.or (opReturnWithdrawalId script)) := by
  by_cases hp : script = p2pkhScript recipient
  · subst hp
    have hid := opReturnWithdrawalId_p2pkh recipient
    cases hacc : acc.1 <;> simp [withdrawalOutput, hacc, (isP2pkh_iff recipient _).2 rfl, hid]
  · have hp' : isP2pkh recipient script = false := by
      rw [Bool.eq_false_iff, ne_eq, isP2pkh_iff]
      exact hp
    cases hacc : acc.1 <;> simp [withdrawalOutput, hacc, hp', hp]

/-- The payout loop keeps the first payment and the first binding. -/
theorem withdrawalFold_eq (recipient : ByteArr 20) (outs : List TxOut) (acc : Option UInt64 × Option Hash32) :
    outs.foldlM (fun acc o => withdrawalOutput recipient acc (o.value, o.script)) acc =
      some (acc.1.or (outs.findSome? (fun o => if o.script = p2pkhScript recipient then some o.value else none)),
        acc.2.or (outs.findSome? (fun o => opReturnWithdrawalId o.script))) := by
  induction outs generalizing acc with
  | nil => simp
  | cons o outs ih =>
    rw [List.foldlM_cons, withdrawalOutput_eq, Option.bind_eq_bind, Option.bind_some, ih]
    simp only [findSome?_cons_or, Option.or_assoc]

/-! ## The parsers -/

/-- Reading a count and that many inputs or outputs is reading a counted list. -/
theorem counted_span {α : Type} {R : α → Bytes → Prop} {tx : Bytes} {as : List α} {p q : Nat} :
    (∃ s, Counted R as s ∧ Span tx p q s) ↔
      ∃ np, readVarint tx p = some (as.length, np) ∧ ∃ s, Spelled R as s ∧ Span tx np q s := by
  simp only [readVarint_iff]
  constructor
  · rintro ⟨_, ⟨c, s, hc, hs, rfl⟩, hspan⟩
    obtain ⟨np, hspan₁, hspan₂⟩ := span_append_iff.1 hspan
    exact ⟨np, ⟨c, hc, hspan₁⟩, s, hs, hspan₂⟩
  · rintro ⟨np, ⟨c, hc, hspan₁⟩, s, hs, hspan₂⟩
    exact ⟨c ++ s, ⟨c, s, hc, hs, rfl⟩, hspan₁.append hspan₂⟩

/-- A buffer spells a transaction when its inputs start at 4, its outputs follow,
and four bytes are left. -/
theorem tx_wire_iff {len : Nat → Nat → Prop} {tx : Bytes} {ins : List TxIn} {outs : List TxOut} :
    (∃ version locktime, (Tx.mk version ins outs locktime).Wire len tx) ↔
      4 ≤ tx.length ∧ ∃ q r, (∃ s, Counted (TxIn.Wire len) ins s ∧ Span tx 4 q s) ∧
        (∃ s, Counted (TxOut.Wire len) outs s ∧ Span tx q r s) ∧ r + 4 = tx.length := by
  constructor
  · rintro ⟨version, locktime, is, os, hi, ho, htx⟩
    have hspan := span_whole_iff.2 htx.symm
    obtain ⟨r, hspan, hl⟩ := span_append_iff.1 hspan
    obtain ⟨q, hspan, hos⟩ := span_append_iff.1 hspan
    obtain ⟨p, hv, his⟩ := span_append_iff.1 hspan
    have hp := hv.eq_add
    have hr := hl.eq_add
    rw [length_leU32] at hp hr
    obtain rfl : p = 4 := by omega
    exact ⟨hv.le.2, q, r, ⟨is, hi, his⟩, ⟨os, ho, hos⟩, hr.symm⟩
  · rintro ⟨h4, q, r, ⟨is, hi, his⟩, ⟨os, ho, hos⟩, hr⟩
    obtain ⟨v, hv, hvl⟩ := exists_span 4 (show 0 + 4 ≤ tx.length from h4)
    obtain ⟨l, hl, hll⟩ := exists_span 4 (le_of_eq hr)
    obtain ⟨version, rfl⟩ := exists_leU32 hvl
    obtain ⟨locktime, rfl⟩ := exists_leU32 hll
    refine ⟨version, locktime, is, os, hi, ho, ?_⟩
    exact (span_whole_iff.1 (hr ▸ ((hv.append his).append hos).append hl)).symm

/-- What makes a transaction a deposit of `a` for `r`: it is not a coinbase, the
outputs to custody sum to a non-zero `a`, and `r` is the first bound recipient. -/
def DepositOf (custody : ByteArr 20) (t : Tx) (a : UInt64) (r : ByteArr 20) : Prop :=
  t.ins ≠ [] ∧ t.outs ≠ [] ∧ ¬ (t.ins.length = 1 ∧ ∃ i ∈ t.ins.head?, i.NullPrevout) ∧
    a.toNat = paidTo custody t.outs ∧ 0 < a.toNat ∧ First (fun o r => BindsRecipient o.script r) t.outs r

/-- What makes a transaction a payout of `a` for `wid`: `a` is the first value
paid to the recipient and `wid` the first bound withdrawal id. -/
def PayoutOf (recipient : ByteArr 20) (t : Tx) (a : UInt64) (wid : Hash32) : Prop :=
  t.ins ≠ [] ∧ t.outs ≠ [] ∧ First (fun o a => o.script = p2pkhScript recipient ∧ o.value = a) t.outs a ∧
    First (fun o wid => BindsWithdrawal o.script wid) t.outs wid

section Parsers
variable {w : Nat} {tx : Bytes}

theorem parseDepositOutputs_iff (hlen : tx.length < 2 ^ w) (custody : ByteArr 20) (a : UInt64) (r : ByteArr 20) :
    parseDepositOutputs w tx custody = some (a, r) ↔ ∃ t : Tx, t.Wire (usizeLen w) tx ∧ DepositOf custody t a r := by
  have hfold : ∀ outs : List TxOut,
      outs.foldlM (fun acc o => depositOutput custody acc (o.value, o.script)) (0, none) = some (a, some r) ↔
        a.toNat = paidTo custody outs ∧ First (fun o r => BindsRecipient o.script r) outs r := by
    intro outs
    rw [depositFold_iff, ← findSome?_iff_first fun (o : TxOut) r => opReturnRecipient_iff o.script r, Option.none_or,
      @eq_comm _ (some r)]
    simp
  have hpos : a ≠ 0 ↔ 0 < a.toNat := by
    rw [ne_eq, ← UInt64.toNat_inj, Nat.pos_iff_ne_zero]
    rfl
  simp only [parseDepositOutputs, gt_iff_lt, ne_eq, Option.pure_def, Option.bind_eq_bind, Option.bind_none, ite_not,
    Option.ite_none_left_eq_some, not_lt, Option.bind_eq_some_iff, checkedAdd_eq_some, Option.ite_none_right_eq_some,
    Option.some.injEq, Prod.mk.injEq, exists_eq_right_right, ↓existsAndEq, and_true, Prod.exists, true_and]
  constructor
  · rintro ⟨h4, n, p, hn, hn0, q, flag, hins, hcb, m, p', hm, hm0, r', hwalk, -, hr, ha⟩
    obtain ⟨ins, si, rfl, hsi, hspan₁, rfl⟩ := (depositInputs_iff hlen hn0).1 hins
    have hp' := (readVarint_iff.1 hm).elim fun _ h => h.2.le.2
    obtain ⟨outs, so, rfl, hso, hspan₂, hacc⟩ := (walkOutputs_iff hlen _ hp').1 hwalk
    obtain ⟨hsum, hfirst⟩ := (hfold outs).1 hacc
    obtain ⟨version, locktime, hwire⟩ := tx_wire_iff.2
      ⟨h4, q, r', counted_span.2 ⟨p, hn, si, hsi, hspan₁⟩, counted_span.2 ⟨p', hm, so, hso, hspan₂⟩, hr⟩
    refine ⟨⟨version, ins, outs, locktime⟩, hwire, ?_, ?_, ?_, hsum, hpos.1 ha, hfirst⟩
    · exact fun h => hn0 (List.length_eq_zero_iff.2 h)
    · exact fun h => hm0 (List.length_eq_zero_iff.2 h)
    · simpa using hcb
  · rintro ⟨⟨version, ins, outs, locktime⟩, hwire, hins0, houts0, hcb, hsum, ha, hfirst⟩
    obtain ⟨h4, q, r', hci, hco, hr⟩ := tx_wire_iff.1 ⟨version, locktime, hwire⟩
    obtain ⟨p, hn, si, hsi, hspan₁⟩ := counted_span.1 hci
    obtain ⟨p', hm, so, hso, hspan₂⟩ := counted_span.1 hco
    have hn0 : ins.length ≠ 0 := fun h => hins0 (List.length_eq_zero_iff.1 h)
    refine ⟨h4, ins.length, p, hn, hn0, q, _,
      (depositInputs_iff hlen hn0).2 ⟨ins, si, rfl, hsi, hspan₁, rfl⟩, ?_, outs.length, p', hm,
      fun h => houts0 (List.length_eq_zero_iff.1 h), r', ?_, by omega, hr, hpos.2 ha⟩
    · simpa using hcb
    · exact (walkOutputs_iff hlen _ (hspan₂.le.1.trans hspan₂.le.2)).2 ⟨outs, so, rfl, hso, hspan₂, (hfold outs).2 ⟨hsum, hfirst⟩⟩

theorem parseWithdrawalOutputs_iff (hlen : tx.length < 2 ^ w) (recipient : ByteArr 20) (a : UInt64) (wid : Hash32) :
    parseWithdrawalOutputs w tx recipient = some (a, wid) ↔
      ∃ t : Tx, t.Wire (usizeLen w) tx ∧ PayoutOf recipient t a wid := by
  have hpaid : ∀ (o : TxOut) (a : UInt64), (if o.script = p2pkhScript recipient then some o.value else none) = some a ↔
      o.script = p2pkhScript recipient ∧ o.value = a := by
    intro o a
    rw [Option.ite_none_right_eq_some, Option.some.injEq]
  have hfold : ∀ outs : List TxOut,
      outs.foldlM (fun acc o => withdrawalOutput recipient acc (o.value, o.script)) (none, none) =
          some (some a, some wid) ↔
        First (fun o a => o.script = p2pkhScript recipient ∧ o.value = a) outs a ∧
          First (fun o wid => BindsWithdrawal o.script wid) outs wid := by
    intro outs
    rw [withdrawalFold_eq, Option.some.injEq, Prod.mk.injEq, Option.none_or, Option.none_or, findSome?_iff_first hpaid,
      findSome?_iff_first fun (o : TxOut) wid => opReturnWithdrawalId_iff o.script wid]
  simp only [parseWithdrawalOutputs, gt_iff_lt, ne_eq, Option.pure_def, Option.bind_eq_bind, Option.bind_none, ite_not,
    Option.ite_none_left_eq_some, not_lt, Option.bind_eq_some_iff, checkedAdd_eq_some, Option.ite_none_right_eq_some,
    Option.some.injEq, Prod.mk.injEq, exists_eq_right_right, ↓existsAndEq, and_true, Prod.exists]
  constructor
  · rintro ⟨h4, n, p, hn, hn0, q, hins, m, p', hm, hm0, r', hwalk, -, hr⟩
    have hp := (readVarint_iff.1 hn).elim fun _ h => h.2.le.2
    have hp' := (readVarint_iff.1 hm).elim fun _ h => h.2.le.2
    obtain ⟨ins, si, rfl, hsi, hspan₁⟩ := (skipInputs_iff hlen hp).1 hins
    obtain ⟨outs, so, rfl, hso, hspan₂, hacc⟩ := (walkOutputs_iff hlen _ hp').1 hwalk
    obtain ⟨version, locktime, hwire⟩ := tx_wire_iff.2
      ⟨h4, q, r', counted_span.2 ⟨p, hn, si, hsi, hspan₁⟩, counted_span.2 ⟨p', hm, so, hso, hspan₂⟩, hr⟩
    refine ⟨⟨version, ins, outs, locktime⟩, hwire, ?_, ?_, (hfold outs).1 hacc⟩
    · exact fun h => hn0 (List.length_eq_zero_iff.2 h)
    · exact fun h => hm0 (List.length_eq_zero_iff.2 h)
  · rintro ⟨⟨version, ins, outs, locktime⟩, hwire, hins0, houts0, hfirst⟩
    obtain ⟨h4, q, r', hci, hco, hr⟩ := tx_wire_iff.1 ⟨version, locktime, hwire⟩
    obtain ⟨p, hn, si, hsi, hspan₁⟩ := counted_span.1 hci
    obtain ⟨p', hm, so, hso, hspan₂⟩ := counted_span.1 hco
    refine ⟨h4, ins.length, p, hn, fun h => hins0 (List.length_eq_zero_iff.1 h), q, ?_, outs.length, p', hm,
      fun h => houts0 (List.length_eq_zero_iff.1 h), r', ?_, by omega, hr⟩
    · exact (skipInputs_iff hlen (hspan₁.le.1.trans hspan₁.le.2)).2 ⟨ins, si, rfl, hsi, hspan₁⟩
    · exact (walkOutputs_iff hlen _ (hspan₂.le.1.trans hspan₂.le.2)).2
        ⟨outs, so, rfl, hso, hspan₂, (hfold outs).2 hfirst⟩

end Parsers

/-- A 64-bit `usize` reads a length prefix as it is written. -/
theorem tx_wire_usize64 {t : Tx} {tx : Bytes} : t.Wire (usizeLen 64) tx ↔ t.Wire (· = ·) tx := by
  constructor
  · intro h
    refine h.mono fun n m hn _ hnm => ?_
    rwa [usizeLen, asUsize, Nat.mod_eq_of_lt hn] at hnm
  · intro h
    refine h.mono fun n m hn _ hnm => ?_
    rwa [usizeLen, asUsize, Nat.mod_eq_of_lt hn]

/-- The deposit parser returns `(a, r)` exactly on the serializations of the
transactions that deposit `a` for `r`. -/
theorem parseDepositOutputs_exact (tx : Bytes) (hlen : tx.length < 2 ^ 64) (custody : ByteArr 20) (a : UInt64)
    (r : ByteArr 20) :
    parseDepositOutputs 64 tx custody = some (a, r) ↔
      ∃ t : Tx, t.Wire (· = ·) tx ∧ t.ins ≠ [] ∧ t.outs ≠ [] ∧
        ¬ (t.ins.length = 1 ∧ ∃ i ∈ t.ins.head?, i.NullPrevout) ∧
        a.toNat = ((t.outs.filter (fun o => o.script = p2pkhScript custody)).map (fun o => o.value.toNat)).sum ∧
        0 < a.toNat ∧ First (fun o r => BindsRecipient o.script r) t.outs r := by
  rw [parseDepositOutputs_iff hlen]
  simp only [tx_wire_usize64, DepositOf, paidTo]

/-- A transaction with one input that pays 5000 to `0x11..` and binds `0x22..`. -/
def depositSample : Bytes :=
  leU32 1 ++ [1] ++ List.replicate 32 0xaa ++ leU32 0 ++ [0] ++ leU32 0xffffffff ++ [2] ++ leU64 5000 ++ [25] ++
    p2pkhScript (ByteArr.fill 20 0x11) ++ leU64 0 ++ [22, 0x6a, 0x14] ++ List.replicate 20 0x22 ++ leU32 0

theorem parseDepositOutputs_exact_sample :
    ∃ t : Tx, t.Wire (· = ·) depositSample ∧ DepositOf (ByteArr.fill 20 0x11) t 5000 (ByteArr.fill 20 0x22) :=
  (parseDepositOutputs_exact depositSample (by decide +kernel) (ByteArr.fill 20 0x11) 5000 (ByteArr.fill 20 0x22)).1
    (by decide +kernel)

/-- The payout parser returns `(a, wid)` exactly on the serializations of the
transactions that pay `a` to the recipient and bind `wid`. -/
theorem parseWithdrawalOutputs_exact (tx : Bytes) (hlen : tx.length < 2 ^ 64) (recipient : ByteArr 20) (a : UInt64)
    (wid : Hash32) :
    parseWithdrawalOutputs 64 tx recipient = some (a, wid) ↔
      ∃ t : Tx, t.Wire (· = ·) tx ∧ t.ins ≠ [] ∧ t.outs ≠ [] ∧
        First (fun o a => o.script = p2pkhScript recipient ∧ o.value = a) t.outs a ∧
        First (fun o wid => BindsWithdrawal o.script wid) t.outs wid := by
  rw [parseWithdrawalOutputs_iff hlen]
  simp only [tx_wire_usize64, PayoutOf]

/-- A transaction with one input that pays 5000 to `0x11..` and binds the id `0x33..`. -/
def payoutSample : Bytes :=
  leU32 1 ++ [1] ++ List.replicate 32 0xaa ++ leU32 0 ++ [0] ++ leU32 0xffffffff ++ [2] ++ leU64 5000 ++ [25] ++
    p2pkhScript (ByteArr.fill 20 0x11) ++ leU64 0 ++ [34, 0x6a, 0x20] ++ List.replicate 32 0x33 ++ leU32 0

theorem parseWithdrawalOutputs_exact_sample :
    ∃ t : Tx, t.Wire (· = ·) payoutSample ∧ PayoutOf (ByteArr.fill 20 0x11) t 5000 (ByteArr.fill 32 0x33) :=
  (parseWithdrawalOutputs_exact payoutSample (by decide +kernel) (ByteArr.fill 20 0x11) 5000 (ByteArr.fill 32 0x33)).1
    (by decide +kernel)

end PsobIndexer
