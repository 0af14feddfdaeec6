import PsobIndexer.Lib.Cursor
import PsobIndexer.Lib.Word
import PsobIndexer.Common
/-!
# CAuxPow wire parsing (`crates/common/src/cauxpow.rs`)

The payload is the 80-byte aux header followed by the CAuxPow witness. The
parser walks it with a cursor and re-serializes the coinbase without its
SegWit witness. `w` is the pointer width, as in `TxParse`.
-/
open Lib

namespace PsobIndexer

def HEADER_LEN : Nat := 80

inductive AuxPowParseError where
  | truncatedHeader (len : Nat)
  | truncated (msg : String)
  | badCoinbase (msg : String)
  | missingParentHeader
  | noAuxPow
  | badBranch (msg : String)
  deriving DecidableEq

abbrev WireCursor := Cursor AuxPowParseError

/-- Encode `n` as a canonical CompactSize. -/
def writeVarint (n : Nat) : Bytes :=
  if n < 0xfd then [UInt8.ofNat n]
  else if n ≤ 0xffff then 0xfd :: leBytes 2 n
  else if n ≤ 0xffffffff then 0xfe :: leBytes 4 n
  else 0xff :: leBytes 8 n

section Cursor
variable (w : Nat) (b : Bytes)

def take (n : Nat) : WireCursor Bytes := fun p =>
  match checkedAdd w p n with
  | none => .error (.truncated ("offset overflow at " ++ toString p ++ "+" ++ toString n))
  | some e =>
    if e > b.length then
      .error (.truncated (toString p ++ ".." ++ toString e ++ " of " ++ toString b.length))
    else .ok ((b.drop p).take n, e)

/-- `take`, with its error replaced by `e`. -/
def takeOr (e : AuxPowParseError) (n : Nat) : WireCursor Bytes := fun p =>
  match take w b n p with
  | .ok r => .ok r
  | .error _ => .error e

def u32Le : WireCursor UInt32 := do
  let s ← take w b 4
  return UInt32.ofNat (leNat s)

def hash32 : WireCursor Hash32 := do
  let s ← take w b 32
  return ByteArr.ofSlice 32 s 0

def varint : WireCursor Nat := do
  let n ← take w b 1
  match n with
  | [0xff] => return leNat (← take w b 8)
  | [0xfe] => return leNat (← take w b 4)
  | [0xfd] => return leNat (← take w b 2)
  | v => return leNat v

/-- A CompactSize-prefixed script, re-emitted with a canonical prefix. -/
def takeScript (msg : String) : WireCursor Bytes := do
  let sl := asUsize w (← varint w b)
  let script ← takeOr w b (.badCoinbase msg) sl
  return writeVarint sl ++ script

/-- One input, as it goes into the legacy serialization. -/
def takeInput : WireCursor Bytes := do
  let prevout ← take w b 36
  let script ← takeScript w b "scriptSig overruns"
  let sequence ← take w b 4
  return prevout ++ script ++ sequence

/-- One output, as it goes into the legacy serialization. -/
def takeOutput : WireCursor Bytes := do
  let value ← take w b 8
  let script ← takeScript w b "scriptPubKey overruns"
  return value ++ script

/-- One witness item, consumed and dropped. -/
def takeWitnessItem : WireCursor Bytes := do
  let sl := asUsize w (← varint w b)
  take w b sl

/-- One input's witness stack, consumed and dropped. -/
def takeWitnessStack : WireCursor (List Bytes) := do
  let nitems ← varint w b
  Cursor.times (takeWitnessItem w b) nitems

/-- The number of inputs, and whether a SegWit marker and flag came before it. -/
def takeInputCount : WireCursor (Nat × Bool) := do
  let nin ← varint w b
  if nin = 0 then
    let flag ← take w b 1
    if flag ≠ [0x01] then throw (.badCoinbase "zero inputs (segwit marker without flag 0x01)")
    let nin ← varint w b
    if nin = 0 then throw (.badCoinbase "zero inputs")
    return (nin, true)
  return (nin, false)

/-- Walk a transaction and return its legacy (no-witness) serialization. -/
def takeTx : WireCursor Bytes := do
  let version ← take w b 4
  let (nin, segwit) ← takeInputCount w b
  let inputs ← Cursor.times (takeInput w b) nin
  let nout ← varint w b
  let outputs ← Cursor.times (takeOutput w b) nout
  if segwit then
    let _witness ← Cursor.times (takeWitnessStack w b) nin
  let locktime ← take w b 4
  return version ++ writeVarint nin ++ inputs.flatten ++ writeVarint nout ++ outputs.flatten ++ locktime

def branch : WireCursor (List Hash32) := do
  let n := asUsize w (← varint w b)
  if n > 2 ^ 20 then
    throw (.badBranch ("branch length " ++ toString n ++ " exceeds maximum (" ++ toString (2 ^ 20 : Nat) ++
      "), likely malformed"))
  Cursor.times (hash32 w b) n

/-- The CAuxPow witness after the header. -/
def takeAuxPow : WireCursor AuxPow := do
  let coinbase_tx ← takeTx w b
  let _hash_block ← hash32 w b
  let parent_merkle_branch ← branch w b
  let parent_index ← u32Le w b
  let chain_merkle_branch ← branch w b
  let chain_index ← u32Le w b
  let parent_header ← takeOr w b .missingParentHeader HEADER_LEN
  return { coinbase_tx, parent_merkle_branch, parent_index, chain_merkle_branch, chain_index, parent_header }

end Cursor

/-- Split a wire payload into the 80-byte base header and the parsed witness. -/
def parseAuxpow (w : Nat) (full : Bytes) : Except AuxPowParseError (ByteArr 80 × AuxPow) :=
  if full.length < HEADER_LEN then .error (.truncatedHeader full.length)
  else if full.length = HEADER_LEN then .error .noAuxPow
  else (takeAuxPow w full HEADER_LEN).map (fun r => (ByteArr.ofSlice 80 full 0, r.1))

end PsobIndexer
