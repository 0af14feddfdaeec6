import PsobIndexer.Lib.CompactSize
import PsobIndexer.Lib.Word
import PsobIndexer.Common
/-!
# Transactions and CAuxPow payloads on the wire

What the parsers are meant to read, as relations between data and the byte
strings that spell it. `len` relates a length prefix to the length it stands
for: equality is the wire format itself, and a `w`-bit `usize` reads a prefix
modulo `2^w`. Counts of inputs, outputs and witness items are never cut.
-/
open Lib

namespace PsobIndexer

/-! ## Data -/

structure TxIn where
  txid : Hash32
  vout : UInt32
  script_sig : Bytes
  sequence : UInt32

structure TxOut where
  value : UInt64
  script : Bytes

structure Tx where
  version : UInt32
  ins : List TxIn
  outs : List TxOut
  locktime : UInt32

/-- What follows the aux header in a payload. -/
structure CAuxPow where
  coinbase : Tx
  hash_block : Hash32
  parent_merkle_branch : List Hash32
  parent_index : UInt32
  chain_merkle_branch : List Hash32
  chain_index : UInt32
  parent_header : ByteArr 80

/-! ## Spelling -/

/-- How a `w`-bit `usize` reads a length prefix. -/
abbrev usizeLen (w n m : Nat) : Prop := asUsize w n = m

section Len
variable (len : Nat → Nat → Prop)

def TxIn.Wire (i : TxIn) (s : Bytes) : Prop :=
  ∃ script, VarBytes len i.script_sig script ∧ s = i.txid.val ++ leU32 i.vout ++ script ++ leU32 i.sequence

def TxOut.Wire (o : TxOut) (s : Bytes) : Prop :=
  ∃ script, VarBytes len o.script script ∧ s = leU64 o.value ++ script

/-- `s` is the legacy serialization of `t`, with each CompactSize in any width. -/
def Tx.Wire (t : Tx) (s : Bytes) : Prop :=
  ∃ ins outs, Counted (TxIn.Wire len) t.ins ins ∧ Counted (TxOut.Wire len) t.outs outs ∧
    s = leU32 t.version ++ ins ++ outs ++ leU32 t.locktime

/-- The SegWit serialization: a zero marker and the flag before the inputs, and a
witness stack for each input before the locktime. -/
def Tx.SegwitWire (t : Tx) (witness : List (List Bytes)) (s : Bytes) : Prop :=
  ∃ marker ins outs wit, IsCompactSize 0 marker ∧ Counted (TxIn.Wire len) t.ins ins ∧
    Counted (TxOut.Wire len) t.outs outs ∧ witness.length = t.ins.length ∧
    Spelled (Counted (VarBytes len)) witness wit ∧
    s = leU32 t.version ++ (marker ++ [1]) ++ ins ++ outs ++ wit ++ leU32 t.locktime

/-- A coinbase has an input, and is spelled in either serialization. -/
def Tx.CoinbaseWire (t : Tx) (s : Bytes) : Prop :=
  t.ins ≠ [] ∧ (t.Wire len s ∨ ∃ witness, t.SegwitWire len witness s)

/-- A merkle branch of at most `2^20` hashes behind its count. -/
def BranchWire (branch : List Hash32) (s : Bytes) : Prop :=
  ∃ n c hs, IsCompactSize n c ∧ len n branch.length ∧ branch.length ≤ 2 ^ 20 ∧
    Spelled (fun h s => s = h.val) branch hs ∧ s = c ++ hs

def CAuxPow.Wire (a : CAuxPow) (s : Bytes) : Prop :=
  ∃ coinbase parent chain, a.coinbase.CoinbaseWire len coinbase ∧ BranchWire len a.parent_merkle_branch parent ∧
    BranchWire len a.chain_merkle_branch chain ∧
    s = coinbase ++ a.hash_block.val ++ parent ++ leU32 a.parent_index ++ chain ++ leU32 a.chain_index ++
      a.parent_header.val

end Len

section Mono
variable {len len' : Nat → Nat → Prop}

theorem TxIn.Wire.mono {i : TxIn} {s : Bytes} (h : i.Wire len s)
    (hlen : ∀ n m, n < 2 ^ 64 → m ≤ s.length → len n m → len' n m) : i.Wire len' s := by
  obtain ⟨script, hs, rfl⟩ := h
  refine ⟨script, hs.mono fun n m hn hm => hlen n m hn ?_, rfl⟩
  simp only [List.length_append]
  omega

theorem TxOut.Wire.mono {o : TxOut} {s : Bytes} (h : o.Wire len s)
    (hlen : ∀ n m, n < 2 ^ 64 → m ≤ s.length → len n m → len' n m) : o.Wire len' s := by
  obtain ⟨script, hs, rfl⟩ := h
  refine ⟨script, hs.mono fun n m hn hm => hlen n m hn ?_, rfl⟩
  simp only [List.length_append]
  omega

/-- A spelling under one reading of the lengths is one under a laxer reading. -/
theorem Tx.Wire.mono {t : Tx} {s : Bytes} (h : t.Wire len s)
    (hlen : ∀ n m, n < 2 ^ 64 → m ≤ s.length → len n m → len' n m) : t.Wire len' s := by
  obtain ⟨ins, outs, hi, ho, rfl⟩ := h
  simp only [List.length_append] at hlen
  refine ⟨ins, outs, hi.mono fun i s' hs' h => h.mono fun n m hn hm => hlen n m hn (by omega),
    ho.mono fun o s' hs' h => h.mono fun n m hn hm => hlen n m hn (by omega), rfl⟩

theorem Tx.SegwitWire.mono {t : Tx} {witness : List (List Bytes)} {s : Bytes} (h : t.SegwitWire len witness s)
    (hlen : ∀ n m, n < 2 ^ 64 → m ≤ s.length → len n m → len' n m) : t.SegwitWire len' witness s := by
  obtain ⟨marker, ins, outs, wit, hm, hi, ho, hn, hs, rfl⟩ := h
  simp only [List.length_append] at hlen
  refine ⟨marker, ins, outs, wit, hm, hi.mono fun i s' hs' h => h.mono fun n m hn hm => hlen n m hn (by omega),
    ho.mono fun o s' hs' h => h.mono fun n m hn hm => hlen n m hn (by omega), hn,
    hs.mono fun st s' hs' h => h.mono fun it s'' hs'' h => h.mono fun n m hn hm => hlen n m hn (by omega), rfl⟩

theorem BranchWire.mono {branch : List Hash32} {s : Bytes} (h : BranchWire len branch s)
    (hlen : ∀ n m, n < 2 ^ 64 → m ≤ s.length → len n m → len' n m) : BranchWire len' branch s := by
  obtain ⟨n, c, hs, hc, hn, hmax, hspell, rfl⟩ := h
  refine ⟨n, c, hs, hc, hlen n _ hc.lt ?_ hn, hmax, hspell, rfl⟩
  rw [List.length_append]
  exact le_add_left (hspell.length_le fun h s hs => by rw [hs, h.property]; decide)

theorem CAuxPow.Wire.mono {a : CAuxPow} {s : Bytes} (h : a.Wire len s)
    (hlen : ∀ n m, n < 2 ^ 64 → m ≤ s.length → len n m → len' n m) : a.Wire len' s := by
  obtain ⟨coinbase, parent, chain, ⟨hne, hcb⟩, hp, hc, rfl⟩ := h
  simp only [List.length_append] at hlen
  refine ⟨coinbase, parent, chain, ⟨hne, ?_⟩, hp.mono fun n m hn hm => hlen n m hn (by omega),
    hc.mono fun n m hn hm => hlen n m hn (by omega), rfl⟩
  rcases hcb with h | ⟨witness, h⟩
  · exact .inl (h.mono fun n m hn hm => hlen n m hn (by omega))
  · exact .inr ⟨witness, h.mono fun n m hn hm => hlen n m hn (by omega)⟩

end Mono

end PsobIndexer
