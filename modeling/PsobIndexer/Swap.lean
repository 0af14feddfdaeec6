import PsobIndexer.Lib.Word
import PsobIndexer.Lib.Fallible
import PsobIndexer.Common
/-!
# Swap intents (`src/swap.rs`, `src/p2p/mod.rs`)

The order-book message, the envelope check and the canonical text a maker
signs. ECDSA and the digest are parameters, and so are the clock and the
`PSOB_REQUIRE_SIGNATURES` switch. The canonical text is proved injective: each
field ends where its delimiter says, so no field can slide into the next one.
-/
open Lib

namespace PsobIndexer

/-- A message of the `psob-swap/1` order book. -/
structure SwapIntentMessage where
  protocol : String
  version : UInt32
  intent_id : String
  maker_pubkey : String
  from_chain : UInt32
  to_chain : UInt32
  from_amount : UInt64
  to_amount : UInt64
  maker_receive_address : String
  timestamp : UInt64
  expiry : UInt64
  settlement : String
  adaptor_point : String
  maker_npub : String
  maker_refund_address : String
  signature : String
  deriving DecidableEq

/-! ## The signed text -/

def escChar (c : Char) : List Char := if c = '\\' then ['\\', '\\'] else if c = '"' then ['\\', '"'] else [c]

def esc (s : String) : String := String.ofList (s.toList.flatMap escChar)

/-- The text a maker signs: fixed key order, no whitespace, no `signature`. -/
def canonicalIntentJson (i : SwapIntentMessage) : String :=
  "\x7b\"protocol\":\"" ++ esc i.protocol ++ "\",\"version\":" ++ toString i.version ++ ",\"intent_id\":\"" ++
    esc i.intent_id ++ "\",\"maker_pubkey\":\"" ++ esc i.maker_pubkey ++ "\",\"from_chain\":" ++ toString i.from_chain ++
    ",\"to_chain\":" ++ toString i.to_chain ++ ",\"from_amount\":" ++ toString i.from_amount ++ ",\"to_amount\":" ++
    toString i.to_amount ++ ",\"maker_receive_address\":\"" ++ esc i.maker_receive_address ++ "\",\"adaptor_point\":\"" ++
    esc i.adaptor_point ++ "\",\"maker_npub\":\"" ++ esc i.maker_npub ++ "\",\"maker_refund_address\":\"" ++
    esc i.maker_refund_address ++ "\",\"timestamp\":" ++ toString i.timestamp ++ ",\"expiry\":" ++ toString i.expiry ++
    ",\"settlement\":\"" ++ esc i.settlement ++ "\"\x7d"

theorem escChar_cancel {c d : Char} {r r' : List Char} (h : escChar c ++ r = escChar d ++ r') : c = d ∧ r = r' := by
  unfold escChar at h
  grind

theorem escChar_ne_quote (c : Char) (r r' : List Char) : escChar c ++ r ≠ '"' :: r' := by
  unfold escChar
  split_ifs <;> simp_all

/-- An escaped string ends at its first bare quote. -/
theorem esc_cancel {a b r r' : List Char} (h : a.flatMap escChar ++ '"' :: r = b.flatMap escChar ++ '"' :: r') :
    a = b ∧ r = r' := by
  induction a generalizing b with
  | nil =>
    cases b with
    | nil => exact ⟨rfl, (List.cons.inj h).2⟩
    | cons d b =>
      rw [List.flatMap_cons, List.append_assoc] at h
      exact absurd h.symm (escChar_ne_quote d _ _)
  | cons c a ih =>
    cases b with
    | nil =>
      rw [List.flatMap_cons, List.append_assoc] at h
      exact absurd h (escChar_ne_quote c _ _)
    | cons d b =>
      simp only [List.flatMap_cons, List.append_assoc] at h
      obtain ⟨rfl, hrest⟩ := escChar_cancel h
      obtain ⟨rfl, hr⟩ := ih hrest
      exact ⟨rfl, hr⟩

/-- A decimal ends at the first character that is not a digit. -/
theorem digits_cancel {m n : Nat} {x y : Char} {r r' : List Char} (hx : x.isDigit = false) (hy : y.isDigit = false)
    (h : (toString m).toList ++ x :: r = (toString n).toList ++ y :: r') : m = n ∧ x :: r = y :: r' := by
  have htake : ∀ (k : Nat) (z : Char) (t : List Char), z.isDigit = false →
      ((toString k).toList ++ z :: t).takeWhile Char.isDigit = (toString k).toList := by
    intro k z t hz
    have hdigits : ∀ c ∈ (toString k).toList, c.isDigit = true := by
      intro c hc
      rw [Nat.toString_eq_repr, Nat.toList_repr] at hc
      exact Nat.isDigit_of_mem_toDigits (by decide) (by decide) hc
    rw [List.takeWhile_append_of_pos hdigits, List.takeWhile_cons_of_neg (by simp [hz]), List.append_nil]
  have hlist : (toString m).toList = (toString n).toList := by
    rw [← htake m x r hx, h, htake n y r' hy]
  obtain rfl := repr_injective (String.toList_injective hlist)
  exact ⟨rfl, List.append_cancel_left h⟩

/-- A string field and the text after it, which starts with a quote. -/
theorem esc_field {a b : String} {lit r r' : List Char} (hlit : lit.head? = some '"')
    (h : (esc a).toList ++ (lit ++ r) = (esc b).toList ++ (lit ++ r')) : a = b ∧ r = r' := by
  obtain ⟨t, rfl⟩ := List.head?_eq_some_iff.1 hlit
  simp only [esc, String.toList_ofList, List.cons_append] at h
  obtain ⟨hab, hr⟩ := esc_cancel h
  exact ⟨String.toList_injective hab, List.append_cancel_left hr⟩

/-- A number field and the text after it, which starts with a comma. -/
theorem digits_field {m n : Nat} {lit r r' : List Char} (hlit : lit.head? = some ',')
    (h : (toString m).toList ++ (lit ++ r) = (toString n).toList ++ (lit ++ r')) : m = n ∧ r = r' := by
  obtain ⟨t, rfl⟩ := List.head?_eq_some_iff.1 hlit
  obtain ⟨hmn, hr⟩ := @digits_cancel m n ',' ',' (t ++ r) (t ++ r') (by decide) (by decide) h
  exact ⟨hmn, List.append_cancel_left (List.cons.inj hr).2⟩

/-- Two intents with one signed text agree on every signed field. -/
theorem canonicalIntentJson_binds (i j : SwapIntentMessage) (h : canonicalIntentJson i = canonicalIntentJson j) :
    i.protocol = j.protocol ∧ i.version = j.version ∧ i.intent_id = j.intent_id ∧ i.maker_pubkey = j.maker_pubkey ∧
      i.from_chain = j.from_chain ∧ i.to_chain = j.to_chain ∧ i.from_amount = j.from_amount ∧
      i.to_amount = j.to_amount ∧ i.maker_receive_address = j.maker_receive_address ∧
      i.adaptor_point = j.adaptor_point ∧ i.maker_npub = j.maker_npub ∧
      i.maker_refund_address = j.maker_refund_address ∧ i.timestamp = j.timestamp ∧ i.expiry = j.expiry ∧
      i.settlement = j.settlement := by
  have hu32 : ∀ x : UInt32, toString x = toString x.toNat := fun _ => rfl
  have hu64 : ∀ x : UInt64, toString x = toString x.toNat := fun _ => rfl
  have hl := congrArg String.toList h
  unfold canonicalIntentJson at hl
  simp only [String.toList_append, List.append_assoc, hu32, hu64, -String.reduceToList, -String.reduceAppend] at hl
  -- peel the fields from the front, each up to its delimiter
  have hl := List.append_cancel_left hl
  obtain ⟨h1, hl⟩ := esc_field (by rfl) hl
  obtain ⟨h2, hl⟩ := digits_field (by rfl) hl
  obtain ⟨h3, hl⟩ := esc_field (by rfl) hl
  obtain ⟨h4, hl⟩ := esc_field (by rfl) hl
  obtain ⟨h5, hl⟩ := digits_field (by rfl) hl
  obtain ⟨h6, hl⟩ := digits_field (by rfl) hl
  obtain ⟨h7, hl⟩ := digits_field (by rfl) hl
  obtain ⟨h8, hl⟩ := digits_field (by rfl) hl
  obtain ⟨h9, hl⟩ := esc_field (by rfl) hl
  obtain ⟨h10, hl⟩ := esc_field (by rfl) hl
  obtain ⟨h11, hl⟩ := esc_field (by rfl) hl
  obtain ⟨h12, hl⟩ := esc_field (by rfl) hl
  obtain ⟨h13, hl⟩ := digits_field (by rfl) hl
  obtain ⟨h14, hl⟩ := digits_field (by rfl) hl
  obtain ⟨h15, -⟩ := @esc_field _ _ "\"\x7d".toList [] [] (by rfl) (by simpa only [List.append_nil] using hl)
  exact ⟨h1, UInt32.toNat_inj.1 h2, h3, h4, UInt32.toNat_inj.1 h5, UInt32.toNat_inj.1 h6, UInt64.toNat_inj.1 h7,
    UInt64.toNat_inj.1 h8, h9, h10, h11, h12, UInt64.toNat_inj.1 h13, UInt64.toNat_inj.1 h14, h15⟩

/-- The intent of the source's signing contract, with any signature. -/
def intentSample (signature : String) : SwapIntentMessage where
  protocol := "psob-swap"
  version := 1
  intent_id := "test-intent-1"
  maker_pubkey := "02abcdef"
  from_chain := 8211
  to_chain := 63
  from_amount := 1000000
  to_amount := 2000000
  maker_receive_address := "LUCKYRECEIVEADDRESS"
  timestamp := 1700000000
  expiry := 1700086400
  settlement := "adaptor-v1"
  adaptor_point := ""
  maker_npub := ""
  maker_refund_address := "MAKERREFUNDADDRESS"
  signature := signature

theorem canonicalIntentJson_binds_sample :
    canonicalIntentJson (intentSample "00") = canonicalIntentJson (intentSample "11") ∧
      (intentSample "00").maker_pubkey = (intentSample "11").maker_pubkey :=
  ⟨rfl, (canonicalIntentJson_binds (intentSample "00") (intentSample "11") rfl).2.2.2.1⟩

example : canonicalIntentJson (intentSample "") =
    "\x7b\"protocol\":\"psob-swap\",\"version\":1,\"intent_id\":\"test-intent-1\",\"maker_pubkey\":\"02abcdef\",\"from_chain\":8211,\"to_chain\":63,\"from_amount\":1000000,\"to_amount\":2000000,\"maker_receive_address\":\"LUCKYRECEIVEADDRESS\",\"adaptor_point\":\"\",\"maker_npub\":\"\",\"maker_refund_address\":\"MAKERREFUNDADDRESS\",\"timestamp\":1700000000,\"expiry\":1700086400,\"settlement\":\"adaptor-v1\"\x7d" := by
  decide +kernel

/-! ## The envelope check -/

/-- Why an intent is refused; each constructor is one `bail!` of the source. -/
inductive IntentError where
  | unsupportedProtocol (protocol : String)
  | unsupportedVersion (version : UInt32)
  | unsupportedSettlement (settlement : String)
  | sameChain
  | unknownFromChain (chain : UInt32)
  | unknownToChain (chain : UInt32)
  | zeroAmount
  | timestampInFuture
  | alreadyExpired
  | windowTooLong
  | invalidReceiveAddress
  | pubkeyNotHex
  | pubkeyLength
  | adaptorPointNotHex
  | adaptorPointLength
  | signatureNotHex
  | signatureLength
  | invalidPubkey (len : Nat)
  | invalidSignature
  | verificationFailed
  deriving DecidableEq

def SUPPORTED_PROTOCOLS : List String := ["psob-swap"]

def SUPPORTED_VERSIONS : List UInt32 := [1]

def SUPPORTED_SETTLEMENTS : List String := ["adaptor-v1"]

/-- What the code uses of SHA-256 and secp256k1. -/
structure SigScheme where
  PublicKey : Type
  Signature : Type
  sha256 : Bytes → Hash32
  pkFromSlice : Bytes → Option PublicKey
  sigFromCompact : Bytes → Option Signature
  verifyEcdsa : Hash32 → Signature → PublicKey → Bool

/-- The maker's signature over the digest of the canonical text. -/
def verifyIntentSignatureInner (S : SigScheme) (intent : SwapIntentMessage) : Except IntentError Unit := do
  let canonical := canonicalIntentJson intent
  let digest := S.sha256 canonical.toUTF8.toList
  let pk_bytes ← (hexDecode intent.maker_pubkey).elim (throw .pubkeyNotHex) pure
  let pk ← (S.pkFromSlice pk_bytes).elim (throw (.invalidPubkey pk_bytes.length)) pure
  let sig_bytes ← (hexDecode intent.signature).elim (throw .signatureNotHex) pure
  let sig ← (S.sigFromCompact sig_bytes).elim (throw .invalidSignature) pure
  if ¬ S.verifyEcdsa digest sig pk then throw .verificationFailed

/-- The signature check behind its switch, which is on by default. -/
def verifyIntentSignature (S : SigScheme) (enforce : Bool) (intent : SwapIntentMessage) : Except IntentError Unit :=
  if enforce then verifyIntentSignatureInner S intent else .ok ()

/-- The `psob-swap/1` envelope rules, at clock `now`. -/
def validateSwapIntent (S : SigScheme) (enforce : Bool) (known_chains : List UInt32) (now : UInt64)
    (intent : SwapIntentMessage) : Except IntentError Unit := do
  if intent.protocol ∉ SUPPORTED_PROTOCOLS then throw (.unsupportedProtocol intent.protocol)
  if intent.version = 0 ∨ intent.version ∉ SUPPORTED_VERSIONS then throw (.unsupportedVersion intent.version)
  if intent.settlement ∉ SUPPORTED_SETTLEMENTS then throw (.unsupportedSettlement intent.settlement)
  if intent.from_chain = intent.to_chain then throw .sameChain
  if intent.from_chain ∉ known_chains then throw (.unknownFromChain intent.from_chain)
  if intent.to_chain ∉ known_chains then throw (.unknownToChain intent.to_chain)
  if intent.from_amount = 0 ∨ intent.to_amount = 0 then throw .zeroAmount
  if intent.timestamp > now + 300 then throw .timestampInFuture
  if intent.expiry ≤ now then throw .alreadyExpired
  if saturatingSub intent.expiry intent.timestamp > 60 * 60 * 24 * 30 then throw .windowTooLong
  if intent.maker_receive_address.isEmpty ∨ intent.maker_receive_address.utf8ByteSize > 120 then
    throw .invalidReceiveAddress
  let pk ← (hexDecode intent.maker_pubkey).elim (throw .pubkeyNotHex) pure
  if pk.length ≠ 33 then throw .pubkeyLength
  if ¬ intent.adaptor_point.isEmpty then
    let ap ← (hexDecode intent.adaptor_point).elim (throw .adaptorPointNotHex) pure
    if ap.length ≠ 33 then throw .adaptorPointLength
  let sig ← (hexDecode intent.signature).elim (throw .signatureNotHex) pure
  if sig.length ≠ 64 then throw .signatureLength
  verifyIntentSignature S enforce intent

end PsobIndexer
