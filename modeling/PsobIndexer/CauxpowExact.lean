import PsobIndexer.Wire
import PsobIndexer.Cauxpow
/-!
# The CAuxPow parser is exact

Each cursor reader succeeds on exactly the spellings of what it reads, and the
coinbase walk returns the canonical legacy serialization of the transaction it
walked, whichever widths and whichever of the two serializations the wire uses.
-/
open Lib

namespace PsobIndexer

/-! ## Canonical serializations -/

theorem isCompactSize_writeVarint {n : Nat} (h : n < 2 ^ 64) : IsCompactSize n (writeVarint n) := by
  unfold writeVarint
  split_ifs with h1 h2 h3
  · exact .one h1
  · exact .two (by omega)
  · exact .four (by omega)
  · exact .eight h

def varBytes (body : Bytes) : Bytes := writeVarint body.length ++ body

def TxIn.legacyBytes (i : TxIn) : Bytes :=
  i.txid.val ++ leU32 i.vout ++ varBytes i.script_sig ++ leU32 i.sequence

def TxOut.legacyBytes (o : TxOut) : Bytes := leU64 o.value ++ varBytes o.script

/-- The canonical legacy (no-witness) serialization. -/
def Tx.legacyBytes (t : Tx) : Bytes :=
  leU32 t.version ++ writeVarint t.ins.length ++ t.ins.flatMap TxIn.legacyBytes ++ writeVarint t.outs.length ++
    t.outs.flatMap TxOut.legacyBytes ++ leU32 t.locktime

/-- The witness the verifiers see. -/
def CAuxPow.toAuxPow (a : CAuxPow) : AuxPow where
  coinbase_tx := a.coinbase.legacyBytes
  parent_merkle_branch := a.parent_merkle_branch
  parent_index := a.parent_index
  chain_merkle_branch := a.chain_merkle_branch
  chain_index := a.chain_index
  parent_header := a.parent_header.val

/-! ## Primitive readers -/

section Readers
variable {w : Nat} {b : Bytes}

theorem take_reads (hlen : b.length < 2 ^ w) (n : Nat) :
    Cursor.Reads b (take w b n) (fun a s => s = a ∧ a.length = n) := by
  intro p a q hp
  unfold take checkedAdd
  constructor
  · intro h
    split_ifs at h with h1
    dsimp only at h
    split_ifs at h with h2
    cases h
    obtain ⟨s, hspan, hs⟩ := exists_span n (not_lt.1 h2)
    have he : (b.drop p).take n = s := by
      have := (getRange_eq_some.1 (span_iff_getRange.2 hspan)).2.2
      rwa [Nat.add_sub_cancel_left, eq_comm] at this
    exact ⟨s, ⟨he.symm, he ▸ hs⟩, hspan⟩
  · rintro ⟨s, ⟨rfl, hs⟩, hspan⟩
    have hle := hspan.le.2
    have hq := hspan.eq_add
    have he := (getRange_eq_some.1 (span_iff_getRange.2 hspan)).2.2
    rw [hs] at hq
    subst hq
    rw [Nat.add_sub_cancel_left] at he
    rw [if_pos (by omega)]
    dsimp only
    rw [if_neg (by omega), ← he]

theorem takeOr_reads (hlen : b.length < 2 ^ w) (e : AuxPowParseError) (n : Nat) :
    Cursor.Reads b (takeOr w b e n) (fun a s => s = a ∧ a.length = n) := by
  intro p a q hp
  rw [← take_reads hlen n p a q hp, takeOr]
  cases take w b n p <;> simp

theorem u32Le_reads (hlen : b.length < 2 ^ w) : Cursor.Reads b (u32Le w b) (fun x s => s = leU32 x) := by
  refine ((take_reads hlen 4).map _).congr fun x s _ => ?_
  constructor
  · rintro ⟨a, rfl, rfl, ha⟩
    obtain ⟨x, rfl⟩ := exists_leU32 ha
    rw [leU32_roundtrip]
  · rintro rfl
    exact ⟨leU32 x, (leU32_roundtrip x).symm, rfl, length_leU32 x⟩

theorem hash32_reads (hlen : b.length < 2 ^ w) : Cursor.Reads b (hash32 w b) (fun h s => s = h.val) := by
  refine ((take_reads hlen 32).map _).congr fun h s _ => ?_
  constructor
  · rintro ⟨a, rfl, rfl, ha⟩
    exact (congrArg Subtype.val (ByteArr.ofSlice_self ⟨s, ha⟩)).symm
  · rintro rfl
    exact ⟨h.val, (ByteArr.ofSlice_self h).symm, rfl, h.property⟩

/-- What `read_varint` reads after the first byte. -/
theorem sizeTail_reads (hlen : b.length < 2 ^ w) (n : Bytes) :
    Cursor.Reads b (match n with
      | [0xff] => do return leNat (← take w b 8)
      | [0xfe] => do return leNat (← take w b 4)
      | [0xfd] => do return leNat (← take w b 2)
      | v => return leNat v : WireCursor Nat) (SizeTail n) := by
  have hmarked : ∀ k v s, (∃ a, v = leNat a ∧ s = a ∧ a.length = k) ↔ v = leNat s ∧ s.length = k := by
    intro k v s
    constructor
    · rintro ⟨a, rfl, rfl, ha⟩
      exact ⟨rfl, ha⟩
    · rintro ⟨rfl, hs⟩
      exact ⟨s, rfl, rfl, hs⟩
  split
  · exact ((take_reads hlen 8).map leNat).congr fun v s _ => hmarked 8 v s
  · exact ((take_reads hlen 4).map leNat).congr fun v s _ => hmarked 4 v s
  · exact ((take_reads hlen 2).map leNat).congr fun v s _ => hmarked 2 v s
  · rename_i h1 h2 h3
    refine (Cursor.Reads.pure b (leNat n)).congr fun v s _ => ?_
    have hnot : ¬ (n = [0xff] ∨ n = [0xfe] ∨ n = [0xfd]) := by
      rintro (h | h | h)
      · exact h1 h
      · exact h2 h
      · exact h3 h
    rw [SizeTail, if_neg hnot, if_neg h1, if_neg h2, if_neg h3, List.length_eq_zero_iff]

theorem varint_reads (hlen : b.length < 2 ^ w) : Cursor.Reads b (varint w b) IsCompactSize := by
  refine ((take_reads hlen 1).bind (sizeTail_reads hlen)).congr fun v s _ => ?_
  rw [isCompactSize_iff_tail]
  constructor
  · rintro ⟨n, _, s', ⟨rfl, hn⟩, ht, rfl⟩
    exact ⟨_, s', hn, ht, rfl⟩
  · rintro ⟨n, s', hn, ht, rfl⟩
    exact ⟨n, n, s', ⟨rfl, hn⟩, ht, rfl⟩

/-! ## The coinbase -/

theorem takeScript_reads (hlen : b.length < 2 ^ w) (msg : String) :
    Cursor.Reads b (takeScript w b msg)
      (fun out s => ∃ body, out = varBytes body ∧ VarBytes (usizeLen w) body s) := by
  refine ((varint_reads hlen).bind fun n =>
    (takeOr_reads hlen (.badCoinbase msg) (asUsize w n)).map fun script =>
      writeVarint (asUsize w n) ++ script).congr fun out s _ => ?_
  constructor
  · rintro ⟨n, c, s', hc, ⟨body, rfl, rfl, hbody⟩, rfl⟩
    exact ⟨s', by rw [varBytes, hbody], n, c, hc, hbody.symm, rfl⟩
  · rintro ⟨body, rfl, n, c, hc, hn, rfl⟩
    exact ⟨n, c, body, hc, ⟨body, by rw [varBytes, ← hn], rfl, hn.symm⟩, rfl⟩

theorem takeInput_reads (hlen : b.length < 2 ^ w) :
    Cursor.Reads b (takeInput w b) (fun out s => ∃ i : TxIn, out = i.legacyBytes ∧ i.Wire (usizeLen w) s) := by
  refine ((take_reads hlen 36).bind fun prevout => (takeScript_reads hlen "scriptSig overruns").bind fun script =>
    (take_reads hlen 4).map fun sequence => prevout ++ script ++ sequence).congr fun out s _ => ?_
  constructor
  · rintro ⟨_, prevout, _, ⟨rfl, hp⟩, ⟨_, script, _, ⟨body, rfl, hbody⟩, ⟨_, rfl, rfl, hseq⟩, rfl⟩, rfl⟩
    obtain ⟨vout, hvout⟩ := exists_leU32 (show (prevout.drop 32).length = 4 by rw [List.length_drop]; omega)
    obtain ⟨sequence, rfl⟩ := exists_leU32 hseq
    have hprevout : prevout = prevout.take 32 ++ leU32 vout := by rw [← hvout, List.take_append_drop]
    refine ⟨⟨⟨prevout.take 32, by rw [List.length_take]; omega⟩, vout, body, sequence⟩, ?_, script, hbody, ?_⟩
    · simp only [TxIn.legacyBytes, ← hprevout]
    · simp only [← hprevout, List.append_assoc]
  · rintro ⟨i, rfl, script, hscript, rfl⟩
    refine ⟨i.txid.val ++ leU32 i.vout, _, _, ⟨rfl, ?_⟩, ⟨_, script, _, ⟨_, rfl, hscript⟩,
      ⟨leU32 i.sequence, ?_, rfl, length_leU32 _⟩, rfl⟩, ?_⟩
    · rw [List.length_append, i.txid.property, length_leU32]
    · rw [TxIn.legacyBytes]
    · simp only [List.append_assoc]

theorem takeOutput_reads (hlen : b.length < 2 ^ w) :
    Cursor.Reads b (takeOutput w b) (fun out s => ∃ o : TxOut, out = o.legacyBytes ∧ o.Wire (usizeLen w) s) := by
  refine ((take_reads hlen 8).bind fun value =>
    (takeScript_reads hlen "scriptPubKey overruns").map fun script => value ++ script).congr fun out s _ => ?_
  constructor
  · rintro ⟨_, value, script, ⟨rfl, hv⟩, ⟨_, rfl, body, rfl, hbody⟩, rfl⟩
    obtain ⟨value, rfl⟩ := exists_leU64 hv
    exact ⟨⟨value, body⟩, rfl, script, hbody, rfl⟩
  · rintro ⟨o, rfl, script, hscript, rfl⟩
    exact ⟨leU64 o.value, _, script, ⟨rfl, length_leU64 _⟩, ⟨_, rfl, o.script, rfl, hscript⟩, rfl⟩

theorem takeWitnessItem_reads (hlen : b.length < 2 ^ w) :
    Cursor.Reads b (takeWitnessItem w b) (VarBytes (usizeLen w)) := by
  refine ((varint_reads hlen).bind fun n => take_reads hlen (asUsize w n)).congr fun item s _ => ?_
  constructor
  · rintro ⟨n, c, _, hc, ⟨rfl, hn⟩, rfl⟩
    exact ⟨n, c, hc, hn.symm, rfl⟩
  · rintro ⟨n, c, hc, hn, rfl⟩
    exact ⟨n, c, item, hc, ⟨rfl, hn.symm⟩, rfl⟩

theorem takeWitnessStack_reads (hlen : b.length < 2 ^ w) :
    Cursor.Reads b (takeWitnessStack w b) (Counted (VarBytes (usizeLen w))) := by
  refine ((varint_reads hlen).bind fun n => (takeWitnessItem_reads hlen).times n).congr fun stack s _ => ?_
  constructor
  · rintro ⟨n, c, s', hc, ⟨rfl, hs⟩, rfl⟩
    exact ⟨c, s', hc, hs, rfl⟩
  · rintro ⟨c, s', hc, hs, rfl⟩
    exact ⟨_, c, s', hc, ⟨rfl, hs⟩, rfl⟩

/-- Behind a zero count come the flag and the real count. -/
theorem takeInputCount_reads (hlen : b.length < 2 ^ w) :
    Cursor.Reads b (takeInputCount w b) (fun out s => out.1 ≠ 0 ∧
      if out.2 then ∃ marker c, IsCompactSize 0 marker ∧ IsCompactSize out.1 c ∧ s = (marker ++ [1]) ++ c
      else IsCompactSize out.1 s) := by
  refine ((varint_reads hlen).bind fun nin => Cursor.Reads.ite (nin = 0)
    ((take_reads hlen 1).bind fun flag => Cursor.Reads.guard (flag ≠ [1]) _ _
      ((varint_reads hlen).bind fun nin => Cursor.Reads.guard (nin = 0) _ _ (Cursor.Reads.pure b (nin, true))))
    (Cursor.Reads.pure b (nin, false))).congr fun out s _ => ?_
  obtain ⟨nin, segwit⟩ := out
  constructor
  · rintro ⟨n, c, s', hc, hrest, rfl⟩
    split at hrest
    · rename_i hn
      subst hn
      obtain ⟨_, flag, _, ⟨rfl, -⟩, ⟨hflag, m, c', _, hc', ⟨hm, he, rfl⟩, rfl⟩, rfl⟩ := hrest
      cases he
      rw [not_not] at hflag
      subst hflag
      refine ⟨hm, ?_⟩
      rw [if_pos rfl]
      exact ⟨c, c', hc, hc', by simp⟩
    · rename_i hn
      obtain ⟨he, rfl⟩ := hrest
      cases he
      refine ⟨hn, ?_⟩
      rw [List.append_nil]
      exact hc
  · rintro ⟨hn, hs⟩
    cases segwit with
    | false => exact ⟨nin, s, [], hs, by rw [if_neg hn]; exact ⟨rfl, rfl⟩, by simp⟩
    | true =>
      obtain ⟨marker, c, hm, hc, rfl⟩ := hs
      refine ⟨0, marker, [1] ++ c, hm, ?_, by simp⟩
      rw [if_pos rfl]
      exact ⟨[1], [1], c, ⟨rfl, rfl⟩, ⟨fun h => h rfl, nin, c, [], hc, ⟨hn, rfl, rfl⟩, by simp⟩, rfl⟩

/-- The coinbase walk accepts both serializations and returns the canonical legacy one. -/
theorem takeTx_reads (hlen : b.length < 2 ^ w) :
    Cursor.Reads b (takeTx w b)
      (fun out s => ∃ t : Tx, out = t.legacyBytes ∧ t.CoinbaseWire (usizeLen w) s) := by
  refine ((take_reads hlen 4).bind fun version => (takeInputCount_reads hlen).bind fun count =>
    ((takeInput_reads hlen).times count.1).bind fun inputs => (varint_reads hlen).bind fun nout =>
    ((takeOutput_reads hlen).times nout).bind fun outputs => Cursor.Reads.ite (count.2 = true)
      (((takeWitnessStack_reads hlen).times count.1).bind fun _ => (take_reads hlen 4).map fun locktime =>
        version ++ writeVarint count.1 ++ inputs.flatten ++ writeVarint nout ++ outputs.flatten ++ locktime)
      ((take_reads hlen 4).map fun locktime =>
        version ++ writeVarint count.1 ++ inputs.flatten ++ writeVarint nout ++ outputs.flatten ++ locktime)).congr
    fun out s _ => ?_
  simp only [spelled_map]
  constructor
  · rintro ⟨_, version, _, ⟨rfl, hv⟩, ⟨⟨nin, segwit⟩, cs, _, ⟨hnin, hcount⟩, ⟨_, is, _, ⟨hil, ins, rfl, hi⟩,
      ⟨nout, co, _, hco, ⟨_, os, _, ⟨hol, outs, rfl, ho⟩, hrest, rfl⟩, rfl⟩, rfl⟩, rfl⟩, rfl⟩
    obtain ⟨version, rfl⟩ := exists_leU32 hv
    rw [List.length_map] at hil hol
    subst hil hol
    have hne : ins ≠ [] := fun h => hnin (List.length_eq_zero_iff.2 h)
    cases segwit with
    | false =>
      obtain ⟨_, rfl, rfl, hl⟩ := hrest
      obtain ⟨locktime, rfl⟩ := exists_leU32 hl
      refine ⟨⟨version, ins, outs, locktime⟩, ?_, hne, .inl ⟨cs ++ is, co ++ os, ⟨cs, is, hcount, hi, rfl⟩,
        ⟨co, os, hco, ho, rfl⟩, ?_⟩⟩
      · simp only [Tx.legacyBytes, List.flatMap_def]
      · simp only [List.append_assoc]
    | true =>
      obtain ⟨marker, c, hm, hc, rfl⟩ := hcount
      obtain ⟨witness, wit, _, ⟨hwl, hwit⟩, ⟨_, rfl, rfl, hl⟩, rfl⟩ := hrest
      obtain ⟨locktime, rfl⟩ := exists_leU32 hl
      refine ⟨⟨version, ins, outs, locktime⟩, ?_, hne, .inr ⟨witness, marker, c ++ is, co ++ os, wit, hm,
        ⟨c, is, hc, hi, rfl⟩, ⟨co, os, hco, ho, rfl⟩, hwl, hwit, ?_⟩⟩
      · simp only [Tx.legacyBytes, List.flatMap_def]
      · simp only [List.append_assoc]
  · rintro ⟨t, rfl, hne, hw⟩
    have hn : t.ins.length ≠ 0 := fun h => hne (List.length_eq_zero_iff.1 h)
    have hlegacy : t.legacyBytes = leU32 t.version ++ writeVarint t.ins.length ++
        (t.ins.map TxIn.legacyBytes).flatten ++ writeVarint t.outs.length ++
        (t.outs.map TxOut.legacyBytes).flatten ++ leU32 t.locktime := by
      simp only [Tx.legacyBytes, List.flatMap_def]
    rcases hw with ⟨_, _, ⟨c, is, hc, hi, rfl⟩, ⟨co, os, hco, ho, rfl⟩, rfl⟩ |
      ⟨witness, marker, _, _, wit, hm, ⟨c, is, hc, hi, rfl⟩, ⟨co, os, hco, ho, rfl⟩, hwl, hwit, rfl⟩
    · exact ⟨leU32 t.version, _, _, ⟨rfl, length_leU32 _⟩, ⟨(t.ins.length, false), c, _, ⟨hn, hc⟩, ⟨_, is, _,
        ⟨List.length_map _, t.ins, rfl, hi⟩, ⟨t.outs.length, co, _, hco, ⟨_, os, _, ⟨List.length_map _, t.outs, rfl, ho⟩,
        ⟨leU32 t.locktime, hlegacy, rfl, length_leU32 _⟩, rfl⟩, rfl⟩, rfl⟩, rfl⟩, by simp only [List.append_assoc]⟩
    · exact ⟨leU32 t.version, _, _, ⟨rfl, length_leU32 _⟩, ⟨(t.ins.length, true), _, _,
        ⟨hn, marker, c, hm, hc, rfl⟩, ⟨_, is, _, ⟨List.length_map _, t.ins, rfl, hi⟩, ⟨t.outs.length, co, _, hco, ⟨_, os, _,
        ⟨List.length_map _, t.outs, rfl, ho⟩, ⟨witness, wit, _, ⟨hwl, hwit⟩, ⟨leU32 t.locktime, hlegacy, rfl,
        length_leU32 _⟩, rfl⟩, rfl⟩, rfl⟩, rfl⟩, rfl⟩, by simp only [List.append_assoc]⟩

/-! ## The witness -/

theorem branch_reads (hlen : b.length < 2 ^ w) : Cursor.Reads b (branch w b) (BranchWire (usizeLen w)) := by
  refine ((varint_reads hlen).bind fun n => Cursor.Reads.guard (asUsize w n > 2 ^ 20) _ _
    ((hash32_reads hlen).times (asUsize w n))).congr fun hs s _ => ?_
  constructor
  · rintro ⟨n, c, s', hc, ⟨hmax, hn, hs⟩, rfl⟩
    exact ⟨n, c, s', hc, hn.symm, by omega, hs, rfl⟩
  · rintro ⟨n, c, s', hc, hn, hmax, hs, rfl⟩
    simp only [usizeLen] at hn
    exact ⟨n, c, s', hc, ⟨by omega, hn.symm, hs⟩, rfl⟩

theorem takeAuxPow_reads (hlen : b.length < 2 ^ w) :
    Cursor.Reads b (takeAuxPow w b)
      (fun aux s => ∃ a : CAuxPow, aux = a.toAuxPow ∧ a.Wire (usizeLen w) s) := by
  refine ((takeTx_reads hlen).bind fun coinbase_tx => (hash32_reads hlen).bind fun _ =>
    (branch_reads hlen).bind fun parent_merkle_branch => (u32Le_reads hlen).bind fun parent_index =>
    (branch_reads hlen).bind fun chain_merkle_branch => (u32Le_reads hlen).bind fun chain_index =>
    (takeOr_reads hlen .missingParentHeader HEADER_LEN).map fun parent_header =>
      AuxPow.mk coinbase_tx parent_merkle_branch parent_index chain_merkle_branch chain_index parent_header).congr
    fun aux s _ => ?_
  constructor
  · rintro ⟨_, cb, _, ⟨t, rfl, ht⟩, ⟨hash_block, _, _, rfl, ⟨parent, sp, _, hp, ⟨pi, _, _, rfl, ⟨chain, sc, _, hc,
      ⟨ci, _, _, rfl, ⟨_, rfl, rfl, hph⟩, rfl⟩, rfl⟩, rfl⟩, rfl⟩, rfl⟩, rfl⟩
    exact ⟨⟨t, hash_block, parent, pi, chain, ci, ⟨_, hph⟩⟩, rfl, cb, sp, sc, ht, hp, hc, by
      simp only [List.append_assoc]⟩
  · rintro ⟨a, rfl, cb, sp, sc, ht, hp, hc, rfl⟩
    exact ⟨_, cb, _, ⟨a.coinbase, rfl, ht⟩, ⟨a.hash_block, _, _, rfl, ⟨_, sp, _, hp, ⟨a.parent_index, _, _, rfl,
      ⟨_, sc, _, hc, ⟨a.chain_index, _, _, rfl, ⟨a.parent_header.val, rfl, rfl, a.parent_header.property⟩, rfl⟩, rfl⟩,
      rfl⟩, rfl⟩, rfl⟩, by simp only [List.append_assoc]⟩

/-- The parser accepts a payload when a header and a witness start it; what
follows the witness is not looked at. -/
theorem parseAuxpow_iff {full : Bytes} (hlen : full.length < 2 ^ w) (base : ByteArr 80) (aux : AuxPow) :
    parseAuxpow w full = .ok (base, aux) ↔
      ∃ (a : CAuxPow) (s trailing : Bytes), a.Wire (usizeLen w) s ∧ full = base.val ++ s ++ trailing ∧
        aux = a.toAuxPow := by
  unfold parseAuxpow
  constructor
  · intro h
    split_ifs at h with h1 h2
    cases htake : takeAuxPow w full HEADER_LEN with
    | error e =>
      rw [htake] at h
      cases h
    | ok r =>
      rw [htake] at h
      cases h
      obtain ⟨aux, q⟩ := r
      obtain ⟨s, ⟨a, rfl, hw⟩, hspan⟩ := (takeAuxPow_reads hlen HEADER_LEN aux q (not_lt.1 h1)).1 htake
      refine ⟨a, s, full.drop q, hw, ?_, rfl⟩
      have h80 : 80 ≤ full.length := not_lt.1 h1
      rw [ByteArr.ofSlice_val (by omega), List.drop_zero]
      exact hspan.eq_append
  · rintro ⟨a, s, trailing, hw, rfl, rfl⟩
    have hs : 0 < s.length := by
      obtain ⟨_, _, _, -, -, -, rfl⟩ := hw
      simp only [List.length_append, a.parent_header.property]
      omega
    have hbase := base.property
    have hspan := span_mid base.val s trailing
    rw [hbase] at hspan
    have htake := (takeAuxPow_reads hlen HEADER_LEN a.toAuxPow _ (by
      simp only [List.length_append, HEADER_LEN]; omega)).2 ⟨s, ⟨a, rfl, hw⟩, hspan⟩
    have hlong : (base.val ++ s ++ trailing).length > 80 := by
      simp only [List.length_append]
      omega
    have hofSlice : (ByteArr.ofSlice 80 (base.val ++ s ++ trailing) 0 : ByteArr 80) = base := by
      apply Subtype.ext
      rw [ByteArr.ofSlice_val (by omega), List.drop_zero, List.append_assoc]
      exact List.take_left' hbase
    rw [if_neg (show ¬ _ < HEADER_LEN from not_lt.2 hlong.le), if_neg (show ¬ _ = HEADER_LEN from ne_of_gt hlong), htake,
      hofSlice]
    rfl

end Readers

/-! ## What a payload holds -/

theorem cauxpow_wire_usize64 {a : CAuxPow} {s : Bytes} : a.Wire (usizeLen 64) s ↔ a.Wire (· = ·) s := by
  constructor
  · intro h
    refine h.mono fun n m hn _ hnm => ?_
    rwa [usizeLen, asUsize, Nat.mod_eq_of_lt hn] at hnm
  · intro h
    refine h.mono fun n m hn _ hnm => ?_
    rwa [usizeLen, asUsize, Nat.mod_eq_of_lt hn]

/-- An accepted payload is the base header, one serialized CAuxPow and any bytes
after it, and every such payload is accepted. -/
theorem parseAuxpow_layout (full : Bytes) (hlen : full.length < 2 ^ 64) (base : ByteArr 80) (aux : AuxPow) :
    parseAuxpow 64 full = .ok (base, aux) ↔
      ∃ (a : CAuxPow) (s trailing : Bytes), a.Wire (· = ·) s ∧ full = base.val ++ s ++ trailing ∧
        aux = a.toAuxPow := by
  rw [parseAuxpow_iff hlen]
  simp only [cauxpow_wire_usize64]

/-- A payload of zeros around a coinbase with one input and no outputs. -/
def wireSample : Bytes :=
  List.replicate 80 0 ++ (leU32 1 ++ [1] ++ List.replicate 32 0 ++ leU32 0xffffffff ++ [0] ++ leU32 0 ++ [0] ++ leU32 0) ++
    List.replicate 32 0 ++ [0] ++ leU32 0 ++ [0] ++ leU32 0 ++ List.replicate 80 0

theorem parseAuxpow_layout_sample :
    ∃ (base : ByteArr 80) (a : CAuxPow) (s trailing : Bytes), a.Wire (· = ·) s ∧
      wireSample ++ [7] = base.val ++ s ++ trailing := by
  have hok : ∃ r, parseAuxpow 64 (wireSample ++ [7]) = .ok r := by
    cases h : parseAuxpow 64 (wireSample ++ [7]) with
    | ok r => exact ⟨r, rfl⟩
    | error e =>
      have hdecide : (parseAuxpow 64 (wireSample ++ [7])).isOk = true := by decide +kernel
      rw [h] at hdecide
      cases hdecide
  obtain ⟨⟨base, aux⟩, hr⟩ := hok
  obtain ⟨a, s, trailing, hw, he, -⟩ := (parseAuxpow_layout _ (by decide +kernel) base aux).1 hr
  exact ⟨base, a, s, trailing, hw, he⟩

/-- A byte after the parent header goes unnoticed: the payload is accepted, and
no header and CAuxPow spell all of it. -/
theorem parseAuxpow_accepts_trailing :
    (parseAuxpow 64 (wireSample ++ [7])).isOk = true ∧
      ¬ ∃ (base : ByteArr 80) (a : CAuxPow) (s : Bytes), a.Wire (· = ·) s ∧ wireSample ++ [7] = base.val ++ s := by
  refine ⟨by decide +kernel, ?_⟩
  rintro ⟨base, a, s, hw, he⟩
  have hspan := span_mid base.val s []
  rw [List.append_nil, ← he, base.property] at hspan
  have htake := (@takeAuxPow_reads 64 (wireSample ++ [7]) (by decide +kernel) 80 a.toAuxPow (80 + s.length)
    (by decide +kernel)).2 ⟨s, ⟨a, rfl, cauxpow_wire_usize64.2 hw⟩, hspan⟩
  -- the walk stops one byte early, so the spans disagree about where the witness ends
  have hstop : (takeAuxPow 64 (wireSample ++ [7]) 80).map Prod.snd = .ok 253 := by decide +kernel
  have htotal : (wireSample ++ [7]).length = 254 := by decide +kernel
  rw [htake] at hstop
  rw [he, List.length_append, base.property] at htotal
  have : 80 + s.length = 253 := Except.ok.inj hstop
  omega

/-! ## Decoding undoes encoding -/

theorem writeVarint_length_pos (n : Nat) : 1 ≤ (writeVarint n).length := by
  unfold writeVarint
  split_ifs <;> simp

theorem varBytes_wire {body : Bytes} (h : (varBytes body).length < 2 ^ 64) :
    VarBytes (· = ·) body (varBytes body) := by
  rw [varBytes, List.length_append] at h
  exact ⟨body.length, _, isCompactSize_writeVarint (by omega), rfl, rfl⟩

/-- A counted list in its canonical form, each element in its own. -/
def countedBytes {α : Type} (f : α → Bytes) (as : List α) : Bytes := writeVarint as.length ++ as.flatMap f

theorem length_le_flatMap {α : Type} {f : α → Bytes} {as : List α} {a : α} (h : a ∈ as) :
    (f a).length ≤ (as.flatMap f).length := by
  rw [List.flatMap_def]
  exact (List.sublist_flatten_of_mem (List.mem_map_of_mem h)).length_le

theorem counted_wire {α : Type} {R : α → Bytes → Prop} {f : α → Bytes} {as : List α}
    (hR : ∀ a, (f a).length < 2 ^ 64 → R a (f a)) (hpos : ∀ a, 1 ≤ (f a).length)
    (h : (countedBytes f as).length < 2 ^ 64) : Counted R as (countedBytes f as) := by
  rw [countedBytes, List.length_append] at h
  have hspell : Spelled R as (as.flatMap f) := Spelled.flatMap f fun a ha => by
    have := @length_le_flatMap α f as a ha
    exact hR a (by omega)
  have hlen : as.length ≤ (as.flatMap f).length :=
    (Spelled.flatMap (R := fun a s => s = f a) f fun a _ => rfl).length_le fun a s hs => hs ▸ hpos a
  exact ⟨_, _, isCompactSize_writeVarint (by omega), hspell, rfl⟩

theorem TxIn.legacyBytes_wire {i : TxIn} (h : i.legacyBytes.length < 2 ^ 64) : i.Wire (· = ·) i.legacyBytes := by
  refine ⟨varBytes i.script_sig, varBytes_wire ?_, rfl⟩
  simp only [legacyBytes, List.length_append] at h
  omega

theorem TxOut.legacyBytes_wire {o : TxOut} (h : o.legacyBytes.length < 2 ^ 64) : o.Wire (· = ·) o.legacyBytes := by
  refine ⟨varBytes o.script, varBytes_wire ?_, rfl⟩
  simp only [legacyBytes, List.length_append] at h
  omega

/-- The inputs and outputs, as both serializations write them. -/
def Tx.bodyBytes (t : Tx) : Bytes := countedBytes TxIn.legacyBytes t.ins ++ countedBytes TxOut.legacyBytes t.outs

/-- The canonical SegWit serialization with one witness stack per input. -/
def Tx.segwitBytes (t : Tx) (witness : List (List Bytes)) : Bytes :=
  leU32 t.version ++ [0, 1] ++ t.bodyBytes ++ witness.flatMap (countedBytes varBytes) ++ leU32 t.locktime

/-- The payload with canonical CompactSizes, in legacy form or with a witness. -/
def encodeWire (base : ByteArr 80) (a : CAuxPow) (witness : Option (List (List Bytes))) (trailing : Bytes) : Bytes :=
  base.val ++ (witness.elim a.coinbase.legacyBytes a.coinbase.segwitBytes) ++ a.hash_block.val ++
    countedBytes Subtype.val a.parent_merkle_branch ++ leU32 a.parent_index ++
    countedBytes Subtype.val a.chain_merkle_branch ++ leU32 a.chain_index ++ a.parent_header.val ++ trailing

theorem Tx.legacyBytes_eq (t : Tx) : t.legacyBytes = leU32 t.version ++ t.bodyBytes ++ leU32 t.locktime := by
  simp only [legacyBytes, bodyBytes, countedBytes, List.append_assoc]

theorem Tx.bodyBytes_wire {t : Tx} (h : t.bodyBytes.length < 2 ^ 64) :
    Counted (TxIn.Wire (· = ·)) t.ins (countedBytes TxIn.legacyBytes t.ins) ∧
      Counted (TxOut.Wire (· = ·)) t.outs (countedBytes TxOut.legacyBytes t.outs) := by
  rw [bodyBytes, List.length_append] at h
  refine ⟨counted_wire (fun i => TxIn.legacyBytes_wire) ?_ (by omega),
    counted_wire (fun o => TxOut.legacyBytes_wire) ?_ (by omega)⟩
  · intro i
    simp only [TxIn.legacyBytes, List.length_append, length_leU32]
    omega
  · intro o
    simp only [TxOut.legacyBytes, List.length_append, length_leU64]
    omega

theorem Tx.segwitBytes_wire {t : Tx} {witness : List (List Bytes)} (hwit : witness.length = t.ins.length)
    (h : (t.segwitBytes witness).length < 2 ^ 64) : t.SegwitWire (· = ·) witness (t.segwitBytes witness) := by
  simp only [segwitBytes, List.length_append] at h
  obtain ⟨hi, ho⟩ := @Tx.bodyBytes_wire t (by omega)
  refine ⟨[0], _, _, witness.flatMap (countedBytes varBytes), .one (by decide), hi, ho, hwit, ?_, ?_⟩
  · refine Spelled.flatMap _ fun items hitems => ?_
    have := length_le_flatMap (f := countedBytes varBytes) hitems
    refine counted_wire (fun item => varBytes_wire) (fun item => ?_) (by omega)
    rw [varBytes, List.length_append]
    have := writeVarint_length_pos item.length
    omega
  · simp only [segwitBytes, bodyBytes, List.append_assoc]
    rfl

theorem branch_wire {branch : List Hash32} (hmax : branch.length ≤ 2 ^ 20) :
    BranchWire (· = ·) branch (countedBytes Subtype.val branch) :=
  ⟨branch.length, _, _, isCompactSize_writeVarint (by omega), rfl, hmax, Spelled.flatMap _ fun h _ => rfl, rfl⟩

/-- Parsing a canonical payload gives back what was encoded, with the coinbase in
legacy form whether or not a witness was written, and ignores what follows. -/
theorem parseAuxpow_encodeWire (base : ByteArr 80) (a : CAuxPow) (witness : Option (List (List Bytes)))
    (trailing : Bytes) (hins : a.coinbase.ins ≠ []) (hwit : ∀ ws ∈ witness, ws.length = a.coinbase.ins.length)
    (hp : a.parent_merkle_branch.length ≤ 2 ^ 20) (hc : a.chain_merkle_branch.length ≤ 2 ^ 20)
    (hlen : (encodeWire base a witness trailing).length < 2 ^ 64) :
    parseAuxpow 64 (encodeWire base a witness trailing) =
      .ok (base, { coinbase_tx := a.coinbase.legacyBytes, parent_merkle_branch := a.parent_merkle_branch
                   parent_index := a.parent_index, chain_merkle_branch := a.chain_merkle_branch
                   chain_index := a.chain_index, parent_header := a.parent_header.val }) := by
  refine (parseAuxpow_layout _ hlen base _).2 ⟨a, _, trailing, ⟨witness.elim a.coinbase.legacyBytes a.coinbase.segwitBytes,
    countedBytes Subtype.val a.parent_merkle_branch, countedBytes Subtype.val a.chain_merkle_branch, ⟨hins, ?_⟩,
    branch_wire hp, branch_wire hc, rfl⟩, ?_, rfl⟩
  · simp only [encodeWire, List.length_append] at hlen
    cases witness with
    | none =>
      simp only [Option.elim, Tx.legacyBytes_eq, List.length_append] at hlen
      obtain ⟨hi, ho⟩ := @Tx.bodyBytes_wire a.coinbase (by omega)
      refine .inl ⟨_, _, hi, ho, ?_⟩
      simp only [Option.elim, Tx.legacyBytes_eq, Tx.bodyBytes, List.append_assoc]
    | some ws =>
      refine .inr ⟨ws, Tx.segwitBytes_wire (hwit ws rfl) ?_⟩
      simp only [Option.elim] at hlen
      omega
  · simp only [encodeWire, List.append_assoc]

/-- A witness with one input, one output and one hash in the parent branch. -/
def encodeSample : CAuxPow where
  coinbase := ⟨1, [⟨ByteArr.fill 32 0, 0xffffffff, AUXPOW_MAGIC, 0⟩], [⟨50, [0x51]⟩], 0⟩
  hash_block := ByteArr.fill 32 0
  parent_merkle_branch := [ByteArr.fill 32 1]
  parent_index := 0
  chain_merkle_branch := []
  chain_index := 0
  parent_header := ByteArr.fill 80 2

theorem parseAuxpow_encodeWire_sample :
    parseAuxpow 64 (encodeWire (ByteArr.fill 80 9) encodeSample (some [[[1, 2], [3]]]) [7]) =
      .ok (ByteArr.fill 80 9, encodeSample.toAuxPow) := by
  refine parseAuxpow_encodeWire _ encodeSample _ _ (List.cons_ne_nil _ _) ?_ (by decide) (by decide) (by decide +kernel)
  intro ws hws
  cases hws
  rfl

end PsobIndexer
