import PsobIndexer.Lib.Bytes
/-!
# The consensus core (`crates/common/src/lib.rs`)

The AuxPoW commitment check, compact targets and the header-chain check the
ZK guest runs. `sha256d` is a parameter: nothing here looks inside it. A Rust
array index that the code guards with a length check is a total read here
(`leU32At`, `ByteArr.ofSlice`), zero-filled where the guard has failed.
-/
open Lib

namespace PsobIndexer

/-- `[u8; 32]`. -/
abbrev Hash32 := ByteArr 32

def LTC_CHAIN_ID : UInt32 := 8192

def CHAIN_POW_LIMIT_BITS : UInt32 := 0x1e0fffff

def AUXPOW_MAGIC : Bytes := [0xfa, 0xbe, 0x6d, 0x6d]

/-! ## The AuxPoW witness -/

/-- The witness attaching an aux block to its scrypt-mined parent block. -/
structure AuxPow where
  coinbase_tx : Bytes
  parent_merkle_branch : List Hash32
  parent_index : UInt32
  chain_merkle_branch : List Hash32
  chain_index : UInt32
  parent_header : Bytes
  deriving DecidableEq

/-- An 80-byte header in wire form, with its AuxPoW witness if it has one. -/
structure BlockHeader where
  raw : Bytes
  aux : Option AuxPow
  deriving DecidableEq

namespace AuxPow

/-- Merkle root of the parent header (offset 36..68), if the header is long enough. -/
def parentMerkleRoot (a : AuxPow) : Option Hash32 :=
  if a.parent_header.length < 80 then none else some (ByteArr.ofSlice 32 a.parent_header 36)

/-- `nVersion >> 16` of the parent header, if there are four bytes to read. -/
def parentChainId (a : AuxPow) : Option UInt32 :=
  (getRange a.parent_header 0 4).map (fun v => UInt32.ofNat (leNat v) >>> 16)

end AuxPow

namespace BlockHeader

def version (h : BlockHeader) : UInt32 := leU32At h.raw 0

def chainId (h : BlockHeader) : UInt32 := h.version >>> 16

def bits (h : BlockHeader) : UInt32 := leU32At h.raw 72

def prevHash (h : BlockHeader) : Hash32 := ByteArr.ofSlice 32 h.raw 4

end BlockHeader

/-! ## Merkle folds and the merged-mining commitment -/

/-- The 64 bytes hashed at one level: the low bit of `idx` picks the side. -/
def foldBuf (acc sib : Hash32) (idx : UInt32) : Bytes :=
  if idx &&& 1 = 0 then acc.val ++ sib.val else sib.val ++ acc.val

/-- The aux-chain slot pinned by `(nonce, chain_id, height)`. -/
def getExpectedIndex (nonce chain_id height : UInt32) : UInt32 :=
  let rand := nonce * 1103515245 + 12345
  let rand := rand + chain_id
  let rand := rand * 1103515245 + 12345
  rand % (1 <<< height)

def findSubslice (hay needle : Bytes) : Option Nat :=
  (windows hay needle.length).findIdx? (· == needle)

section Sha
variable (sha256d : Bytes → Hash32)

/-- Fold `leaf` up a merkle branch, double-SHA256 at each level. -/
def merkleFoldBranch (leaf : Hash32) : List Hash32 → UInt32 → Hash32
  | [], _ => leaf
  | sib :: branch, idx => merkleFoldBranch (sha256d (foldBuf leaf sib idx)) branch (idx >>> 1)

/-- The merged-mining commitment of `aux_block_hash` in the parent coinbase, and
the coinbase's inclusion in an LTC parent block. -/
def verifyAuxpowCommitment (aux_block_hash : Hash32) (aux : AuxPow) (chain_id : UInt32) : Bool :=
  -- 1. the coinbase is the generation tx of a Litecoin parent, never of our own chain
  if aux.parent_index ≠ 0 then false
  else match aux.parentChainId with
  | none => false
  | some pid =>
    if ¬ (pid ≠ chain_id ∧ pid = LTC_CHAIN_ID) then false
    else match aux.parentMerkleRoot with
    | none => false
    | some parent_root =>
      let cb_txid := sha256d aux.coinbase_tx
      if merkleFoldBranch sha256d cb_txid aux.parent_merkle_branch aux.parent_index ≠ parent_root then false
      else
        -- 2. the aux block is committed in the coinbase, right after the only magic
        let height := aux.chain_merkle_branch.length
        if height > 30 then false
        else
          let chain_root := merkleFoldBranch sha256d aux_block_hash aux.chain_merkle_branch aux.chain_index
          let needle := chain_root.reverse
          let cb := aux.coinbase_tx
          match findSubslice cb AUXPOW_MAGIC with
          | none => false
          | some magic_at =>
            if (findSubslice (cb.drop (magic_at + 1)) AUXPOW_MAGIC).isSome then false
            else
              let root_pos := magic_at + AUXPOW_MAGIC.length
              match getRange cb root_pos (root_pos + 40) with
              | none => false
              | some tail =>
                if tail.take 32 ≠ needle.val then false
                else
                  -- 3. anti-grind: the size is 2^height and the nonce pins the slot
                  let n_size := leU32At tail 32
                  if n_size ≠ 1 <<< UInt32.ofNat height then false
                  else
                    let n_nonce := leU32At tail 36
                    aux.chain_index = getExpectedIndex n_nonce chain_id (UInt32.ofNat height)

end Sha

/-! ## 256-bit big-endian work -/

/-- `acc += addend`, wrapping. -/
def u256AddBe (acc addend : Hash32) : Hash32 :=
  -- the scan walks both numbers from their last byte
  (acc.scanRev (fun (st : Nat × Bytes) x =>
    let s := x.toNat + (st.2.headD 0).toNat + st.1
    (UInt8.ofNat (s % 256), (s / 256, st.2.tail))) (0, addend.val.reverse)).1

/-- `value + 1`, and whether it carried out of the top bit. -/
def u256AddOne (value : Hash32) : Hash32 × Bool :=
  value.scanRev (fun carry b => if carry then (b + 1, b = 0xff) else (b, false)) true

/-- Shift left by one bit. -/
def u256Shl1 (v : Hash32) : Hash32 := (v.scanRev (fun carry b => ((b <<< 1) ||| carry, b >>> 7)) (0 : UInt8)).1

/-- `a >= b`, most significant byte first. -/
def geBE : Bytes → Bytes → Bool
  | a :: as, b :: bs => if a ≠ b then a > b else geBE as bs
  | _, _ => true

def u256Ge (a b : Hash32) : Bool := geBE a.val b.val

/-- `a - b`, where the caller guarantees `a >= b`. -/
def u256Sub (a b : Hash32) : Hash32 :=
  -- the scan walks both numbers from their last byte
  (a.scanRev (fun (acc : Int × Bytes) x =>
    let diff := (x.toNat : Int) - ((acc.2.headD 0).toNat : Int) - acc.1
    if diff < 0 then (UInt8.ofNat (diff + 256).toNat, (1, acc.2.tail)) else (UInt8.ofNat diff.toNat, (0, acc.2.tail)))
    ((0 : Int), b.val.reverse)).1

/-- One turn of the long division: bit `i` of `num`, from the top. -/
def u256DivStep (num den : Hash32) (qr : Hash32 × Hash32) (i : Nat) : Hash32 × Hash32 :=
  let (q, r) := qr
  let r := u256Shl1 r
  let byte := i / 8
  let bit := UInt8.ofNat (7 - i % 8)
  let r := if (num.val.getD byte 0 >>> bit) &&& 1 = 1 then r.set 31 (r.val.getD 31 0 ||| 1) else r
  if u256Ge r den then (q.set byte (q.val.getD byte 0 ||| (1 <<< bit)), u256Sub r den) else (q, r)

/-- Quotient and remainder, one bit at a time. -/
def u256Divmod (num den : Hash32) : Hash32 × Hash32 :=
  (List.range 256).foldl (u256DivStep num den) (ByteArr.fill 32 0, ByteArr.fill 32 0)

/-- The work of a block, `floor(2^256 / (target + 1))`. -/
def blockWork (target_be : Hash32) : Hash32 :=
  let (denom, denom_overflow) := u256AddOne target_be
  if denom_overflow then (ByteArr.fill 32 0).set 31 1
  else
    let num := (target_be.scanRev (fun _ b => (~~~ b, ())) ()).1
    let (q, _r) := u256Divmod num denom
    (u256AddOne q).1

/-! ## Compact targets -/

/-- Expand compact `nBits` to a 256-bit big-endian target; `none` for a
negative, zero or overflowing encoding. -/
def expandTarget (bits : UInt32) : Option Hash32 :=
  let size := (bits >>> 24).toNat
  let word := bits &&& 0x007fffff
  if word = 0 then none
  else if bits &&& 0x00800000 ≠ 0 then none
  else if size > 34 ∨ (word > 0xff ∧ size > 33) ∨ (word > 0xffff ∧ size > 32) then none
  else if size ≤ 3 then
    let w := word >>> UInt32.ofNat (8 * (3 - size))
    some ((((ByteArr.fill 32 0).set 29 (w >>> 16).toUInt8).set 30 (w >>> 8).toUInt8).set 31 w.toUInt8)
  else
    let lsb := 34 - size
    let t0 := (ByteArr.fill 32 0).set lsb word.toUInt8
    let t1 := if lsb ≥ 1 then t0.set (lsb - 1) (word >>> 8).toUInt8 else t0
    some (if lsb ≥ 2 then t1.set (lsb - 2) (word >>> 16).toUInt8 else t1)

/-- Byte-wise comparison, most significant byte first. -/
def leqBE : Bytes → Bytes → Bool
  | a :: as, b :: bs => if a ≠ b then a < b else leqBE as bs
  | _, _ => true

/-- `a <= b` for big-endian 256-bit numbers. -/
def targetLeq (a b : Hash32) : Bool := leqBE a.val b.val

/-! ## The header chain -/

section Sha
variable (sha256d : Bytes → Hash32)

/-- One header of `verifyPsobChain`'s loop: the hash it hands to the next one. -/
def verifyPsobHeader (pow_limit : Hash32) (chain_id : UInt32) (prev_expected : Hash32) (header : BlockHeader) :
    Except String Hash32 := do
  if header.raw.length ≠ 80 then throw "block header must be 80 bytes"
  if header.chainId ≠ chain_id then throw "header chain id mismatch"
  if header.prevHash ≠ prev_expected then throw "broken header chain link"
  let target ← (expandTarget header.bits).elim (throw "invalid nBits encoding") pure
  if ¬ targetLeq target pow_limit then throw "target easier than powLimit"
  let id := sha256d header.raw
  let aux ← header.aux.elim (throw "auxpow witness required for PoW") pure
  if ¬ verifyAuxpowCommitment sha256d id aux chain_id then throw "auxpow commitment invalid"
  if aux.parent_header.length ≠ 80 then throw "parent header must be 80 bytes"
  return id

/-- The loop over the headers, with the running expected hash. -/
def verifyPsobHeaders (pow_limit : Hash32) (chain_id : UInt32) : Hash32 → List BlockHeader → Except String Unit
  | _, [] => .ok ()
  | prev_expected, header :: headers => do
    let id ← verifyPsobHeader sha256d pow_limit chain_id prev_expected header
    verifyPsobHeaders pow_limit chain_id id headers

/-- The PSob chain witness check the guest runs, without scrypt. -/
def verifyPsobChain (headers : List BlockHeader) (checkpoint_hash : Hash32) (chain_id pow_limit_bits : UInt32) :
    Except String Unit := do
  if headers = [] then throw "empty header chain"
  let pow_limit ← (expandTarget pow_limit_bits).elim (throw "invalid pow_limit_bits encoding") pure
  verifyPsobHeaders sha256d pow_limit chain_id checkpoint_hash headers

end Sha

end PsobIndexer
