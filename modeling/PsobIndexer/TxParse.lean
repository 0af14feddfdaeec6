import PsobIndexer.Lib.Word
import PsobIndexer.Common
/-!
# Deposit and payout parsing (`crates/common/src/lib.rs`)

Two hand-written walks over a legacy transaction. `w` is the pointer width:
`as usize` truncates to `w` bits and `checked_add` overflows there. Plain
additions to a position stay in range, because the position is at most the
buffer's length.
-/
open Lib

namespace PsobIndexer

/-- Read a CompactSize at `p`: its value and the next position. -/
def readVarint (tx : Bytes) (p : Nat) : Option (Nat × Nat) :=
  match tx[p]? with
  | none => none
  | some n =>
    if n = 0xfd then (getRange tx (p + 1) (p + 3)).map (fun b => (leNat b, p + 3))
    else if n = 0xfe then (getRange tx (p + 1) (p + 5)).map (fun b => (leNat b, p + 5))
    else if n = 0xff then (getRange tx (p + 1) (p + 9)).map (fun b => (leNat b, p + 9))
    else some (n.toNat, p + 1)

/-! ## Inputs and outputs -/

def skipInput (w : Nat) (tx : Bytes) (p : Nat) : Option Nat := do
  let p ← checkedAdd w p 36
  if p > tx.length then none
  let (slen, np) ← readVarint tx p
  let p ← checkedAdd w np (asUsize w slen)
  let p ← checkedAdd w p 4
  if p > tx.length then none
  return p

def readOutput (w : Nat) (tx : Bytes) (p : Nat) : Option ((UInt64 × Bytes) × Nat) := do
  let value ← getRange tx p (p + 8)
  let p := p + 8
  let (slen, np) ← readVarint tx p
  let p := np
  let e ← checkedAdd w p (asUsize w slen)
  let script ← getRange tx p e
  return ((UInt64.ofNat (leNat value), script), e)

def isP2pkh (hash160 : ByteArr 20) (script : Bytes) : Bool :=
  script.length = 25 && script[0]? = some 0x76 && script[1]? = some 0xa9 && script[2]? = some 0x14 &&
    script[23]? = some 0x88 && script[24]? = some 0xac && (script.drop 3).take 20 = hash160.val

/-- The loop over the outputs, with the parser's own accumulator. -/
def walkOutputs {σ : Type} (w : Nat) (tx : Bytes) (step : σ → UInt64 × Bytes → Option σ) :
    Nat → Nat → σ → Option (σ × Nat)
  | 0, p, acc => some (acc, p)
  | n + 1, p, acc => do
    let (out, p) ← readOutput w tx p
    let acc ← step acc out
    walkOutputs w tx step n p acc

/-! ## Deposits -/

/-- The input loop of a deposit. The first prevout is also read, to recognise a
coinbase. -/
def depositInputs (w : Nat) (tx : Bytes) : Nat → Nat → Nat → Bool → Option (Nat × Bool)
  | 0, _, p, coinbase_prevout => some (p, coinbase_prevout)
  | n + 1, i, p, coinbase_prevout => do
    let coinbase_prevout ←
      if i = 0 then do
        let txid ← getRange tx p (p + 32)
        let vout ← getRange tx (p + 32) (p + 36)
        some (decide (leNat vout = 0xffffffff) && txid.all (· == 0))
      else some coinbase_prevout
    let p ← skipInput w tx p
    depositInputs w tx n (i + 1) p coinbase_prevout

/-- The EVM recipient an `OP_RETURN` output binds, in either of its two forms. -/
def opReturnRecipient (script : Bytes) : Option (ByteArr 20) :=
  if script.length = 22 ∧ script[0]? = some 0x6a ∧ script[1]? = some 0x14 then some (ByteArr.ofSlice 20 script 2)
  else if script.length = 24 ∧ script[0]? = some 0x6a ∧ script[1]? = some 0x16 ∧ script[2]? = some 0x6a ∧
      script[3]? = some 0x14 then some (ByteArr.ofSlice 20 script 4)
  else none

/-- One output of a deposit: custody payments are summed, the first recipient is kept. -/
def depositOutput (custody_hash160 : ByteArr 20) (acc : UInt64 × Option (ByteArr 20)) (out : UInt64 × Bytes) :
    Option (UInt64 × Option (ByteArr 20)) :=
  if isP2pkh custody_hash160 out.2 then
    if acc.1.toNat + out.1.toNat < 2 ^ 64 then some (acc.1 + out.1, acc.2) else none
  else some (acc.1, acc.2.or (opReturnRecipient out.2))

/-- The amount a legacy transaction pays to custody, and its bound recipient. -/
def parseDepositOutputs (w : Nat) (tx : Bytes) (custody_hash160 : ByteArr 20) : Option (UInt64 × ByteArr 20) := do
  let p := 4
  if p > tx.length then none
  let (vin_count, np) ← readVarint tx p
  let p := np
  if vin_count = 0 then none
  let (p, coinbase_prevout) ← depositInputs w tx vin_count 0 p false
  if vin_count = 1 ∧ coinbase_prevout then none
  let (vout_count, np) ← readVarint tx p
  let p := np
  if vout_count = 0 then none
  let ((custody_sats, recipient), p) ← walkOutputs w tx (depositOutput custody_hash160) vout_count p (0, none)
  let p ← checkedAdd w p 4
  if p ≠ tx.length then none
  if custody_sats = 0 then none
  let recipient ← recipient
  return (custody_sats, recipient)

/-! ## Payouts -/

def skipInputs (w : Nat) (tx : Bytes) : Nat → Nat → Option Nat
  | 0, p => some p
  | n + 1, p => do
    let p ← skipInput w tx p
    skipInputs w tx n p

def opReturnWithdrawalId (script : Bytes) : Option Hash32 :=
  if script.length = 34 ∧ script[0]? = some 0x6a ∧ script[1]? = some 0x20 then some (ByteArr.ofSlice 32 script 2)
  else none

/-- One output of a payout: the first payment and the first binding are kept. -/
def withdrawalOutput (recipient_hash160 : ByteArr 20) (acc : Option UInt64 × Option Hash32) (out : UInt64 × Bytes) :
    Option (Option UInt64 × Option Hash32) :=
  if acc.1.isNone ∧ isP2pkh recipient_hash160 out.2 then some (some out.1, acc.2)
  else some (acc.1, acc.2.or (opReturnWithdrawalId out.2))

def parseWithdrawalOutputs (w : Nat) (tx : Bytes) (recipient_hash160 : ByteArr 20) : Option (UInt64 × Hash32) := do
  let p := 4
  if p > tx.length then none
  let (vin_count, np) ← readVarint tx p
  let p := np
  if vin_count = 0 then none
  let p ← skipInputs w tx vin_count p
  let (vout_count, np) ← readVarint tx p
  let p := np
  if vout_count = 0 then none
  let ((payout, withdrawal_id), p) ← walkOutputs w tx (withdrawalOutput recipient_hash160) vout_count p (none, none)
  let p ← checkedAdd w p 4
  if p ≠ tx.length then none
  let payout ← payout
  let withdrawal_id ← withdrawal_id
  return (payout, withdrawal_id)

end PsobIndexer
