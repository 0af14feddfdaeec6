import PsobIndexer.Report
import PsobIndexer.Widths
/-!
# The wasm verifier (`crates/psob-wasm/src/lib.rs`)

`verifyToJson` takes a payload to the JSON object a browser reads. It calls the
guest's commitment check and derives the header, parent and slot fields again
by hand. Every `1u32 << depth` it reaches is logged, its own and its callees'.
-/
open Lib

namespace PsobIndexer

/-- The fields of the JSON object. -/
structure VerdictJson where
  valid : Bool
  chain_id : UInt32
  block_hash : String
  parent_hash : String
  parent_chain_id : Option UInt32
  header_format : Bool
  proof1 : Bool
  proof2 : Bool
  anti_grind_ok : Option Bool
  n_size : UInt32
  nonce : UInt32
  chain_index : UInt32
  chain_branch_depth : Nat
  deriving DecidableEq

/-! ## The shared checks, with their shifts -/

/-- `getExpectedIndex`. -/
def getExpectedIndexShifting (nonce chain_id height : UInt32) : Shifting UInt32 := do
  let rand := nonce * 1103515245 + 12345
  let rand := rand + chain_id
  let rand := rand * 1103515245 + 12345
  let size ← Shifting.oneShl height.toNat
  return rand % size

section Sha
variable (sha256d : Bytes → Hash32)

/-- `verifyAuxpowCommitment`. -/
def verifyAuxpowCommitmentShifting (aux_block_hash : Hash32) (aux : AuxPow) (chain_id : UInt32) : Shifting Bool :=
  if aux.parent_index ≠ 0 then pure false
  else match aux.parentChainId with
  | none => pure false
  | some pid =>
    if ¬ (pid ≠ chain_id ∧ pid = LTC_CHAIN_ID) then pure false
    else match aux.parentMerkleRoot with
    | none => pure false
    | some parent_root =>
      let cb_txid := sha256d aux.coinbase_tx
      if merkleFoldBranch sha256d cb_txid aux.parent_merkle_branch aux.parent_index ≠ parent_root then pure false
      else
        let height := aux.chain_merkle_branch.length
        if height > 30 then pure false
        else
          let chain_root := merkleFoldBranch sha256d aux_block_hash aux.chain_merkle_branch aux.chain_index
          let needle := chain_root.reverse
          let cb := aux.coinbase_tx
          match findSubslice cb AUXPOW_MAGIC with
          | none => pure false
          | some magic_at =>
            if (findSubslice (cb.drop (magic_at + 1)) AUXPOW_MAGIC).isSome then pure false
            else
              let root_pos := magic_at + AUXPOW_MAGIC.length
              match getRange cb root_pos (root_pos + 40) with
              | none => pure false
              | some tail =>
                if tail.take 32 ≠ needle.val then pure false
                else do
                  let n_size := leU32At tail 32
                  let size ← Shifting.oneShl height
                  if n_size ≠ size then pure false
                  else do
                    let n_nonce := leU32At tail 36
                    let expected ← getExpectedIndexShifting n_nonce chain_id (UInt32.ofNat height)
                    pure (decide (aux.chain_index = expected))

/-! ## The module's own code -/

/-- The size, the nonce and the slot check read from the coinbase's tail. -/
def antiGrindDetails (aux : AuxPow) (chain_id : UInt32) : Shifting (UInt32 × UInt32 × Option Bool) :=
  match findSubslice aux.coinbase_tx AUXPOW_MAGIC with
  | none => pure (0, 0, none)
  | some pos =>
    let tail_pos := pos + AUXPOW_MAGIC.length
    match getRange aux.coinbase_tx tail_pos (tail_pos + 40) with
    | none => pure (0, 0, none)
    | some tail => do
      let n_size := leU32At tail 32
      let nonce := leU32At tail 36
      let depth := UInt32.ofNat aux.chain_merkle_branch.length
      let rand := nonce * 1103515245 + 12345
      let rand := rand + chain_id
      let rand := rand * 1103515245 + 12345
      let slots ← Shifting.oneShl depth.toNat
      let expected := rand % slots
      let size ← Shifting.oneShl depth.toNat
      return (n_size, nonce, some (decide (n_size = size) && decide (aux.chain_index = expected)))

/-- Whether the header's target decodes and is within the limit. -/
def canTakeHeaders (bits : UInt32) : Bool :=
  (expandTarget bits).isSome &&
    ((expandTarget CHAIN_POW_LIMIT_BITS).map
      (fun pl => (expandTarget bits).elim false (fun target => targetLeq target pl))).getD false

def verifyToJson (w : Nat) (wire : Bytes) (chain_id : UInt32) : Shifting (Option VerdictJson) :=
  match parseAuxpow w wire with
  | .error _ => pure none
  | .ok (base, aux) => do
    let id := sha256d base.val
    let parent_id := sha256d aux.parent_header
    let bits := leU32At base.val 72
    let verdict ← verifyAuxpowCommitmentShifting sha256d id aux chain_id
    let (n_size, nonce, index_ok) ← antiGrindDetails aux chain_id
    return some
      { valid := verdict
        chain_id := chain_id
        block_hash := hashDisplay id
        parent_hash := hashDisplay parent_id
        parent_chain_id := aux.parentChainId
        header_format := canTakeHeaders bits
        proof1 := decide (aux.parent_index = 0) && aux.parentChainId.any (fun p => p ≠ chain_id)
        proof2 := verdict
        anti_grind_ok := index_ok
        n_size := n_size
        nonce := nonce
        chain_index := aux.chain_index
        chain_branch_depth := aux.chain_merkle_branch.length }

end Sha

/-! ## Which shifts are reached -/

open Shifting

theorem value_getExpectedIndexShifting (nonce chain_id height : UInt32) :
    value (getExpectedIndexShifting nonce chain_id height) = getExpectedIndex nonce chain_id height := by
  simp only [getExpectedIndexShifting, value_bind, value_oneShl, value_pure, getExpectedIndex, UInt32.ofNat_toNat]

theorem shifts_getExpectedIndexShifting (nonce chain_id height : UInt32) :
    shifts (getExpectedIndexShifting nonce chain_id height) = [height.toNat] := rfl

section Sha
variable (sha256d : Bytes → Hash32)

/-- An early exit of the logged check is one of the plain check. -/
theorem value_exit {c : Prop} [Decidable c] {x : Shifting Bool} {b : Bool} (h : value x = b) :
    value (if c then pure false else x) = if c then false else b := by
  rw [← h]
  split
  · rfl
  · rfl

/-- The logged check decides what the plain one does. -/
theorem value_verifyAuxpowCommitmentShifting (aux_block_hash : Hash32) (aux : AuxPow) (chain_id : UInt32) :
    value (verifyAuxpowCommitmentShifting sha256d aux_block_hash aux chain_id) =
      verifyAuxpowCommitment sha256d aux_block_hash aux chain_id := by
  unfold verifyAuxpowCommitmentShifting verifyAuxpowCommitment
  refine value_exit ?_
  cases aux.parentChainId with
  | none => rfl
  | some pid =>
    refine value_exit ?_
    cases aux.parentMerkleRoot with
    | none => rfl
    | some parent_root =>
      refine value_exit (value_exit ?_)
      dsimp only
      cases findSubslice aux.coinbase_tx AUXPOW_MAGIC with
      | none => rfl
      | some magic_at =>
        refine value_exit ?_
        cases getRange aux.coinbase_tx (magic_at + AUXPOW_MAGIC.length) (magic_at + AUXPOW_MAGIC.length + 40) with
        | none => rfl
        | some tail =>
          refine value_exit ?_
          rw [value_bind, value_oneShl]
          refine value_exit ?_
          rw [value_bind, value_getExpectedIndexShifting, value_pure]

/-- Its depth guard stands before both of its shifts. -/
theorem inRange_verifyAuxpowCommitmentShifting (aux_block_hash : Hash32) (aux : AuxPow) (chain_id : UInt32) :
    InRange (verifyAuxpowCommitmentShifting sha256d aux_block_hash aux chain_id) := by
  by_cases hdepth : aux.chain_merkle_branch.length > 30
  · unfold verifyAuxpowCommitmentShifting
    simp only [hdepth, if_true]
    repeat' split
    all_goals exact inRange_pure _
  · have hlt : aux.chain_merkle_branch.length < 32 := by omega
    have hnat : (UInt32.ofNat aux.chain_merkle_branch.length).toNat < 32 := by
      rw [UInt32.toNat_ofNat']
      omega
    unfold verifyAuxpowCommitmentShifting
    simp only [hdepth, if_false]
    repeat' split
    -- past the early exits, the two shifts are by the depth
    all_goals try exact inRange_pure _
    refine inRange_bind.2 ⟨inRange_oneShl.2 hlt, ?_⟩
    split
    · exact inRange_pure _
    · refine inRange_bind.2 ⟨?_, inRange_pure _⟩
      intro d hd
      rw [shifts_getExpectedIndexShifting, List.mem_singleton] at hd
      rwa [hd]

end Sha

/-- The forty bytes after the first magic. -/
def firstTail (cb : Bytes) : Option Bytes :=
  (findSubslice cb AUXPOW_MAGIC).bind fun pos =>
    getRange cb (pos + AUXPOW_MAGIC.length) (pos + AUXPOW_MAGIC.length + 40)

theorem antiGrindDetails_of_none {aux : AuxPow} (chain_id : UInt32) (h : firstTail aux.coinbase_tx = none) :
    antiGrindDetails aux chain_id = pure (0, 0, none) := by
  unfold antiGrindDetails
  unfold firstTail at h
  cases hpos : findSubslice aux.coinbase_tx AUXPOW_MAGIC with
  | none => rfl
  | some pos =>
    rw [hpos, Option.bind_some] at h
    simp only [h]

theorem antiGrindDetails_of_some {aux : AuxPow} (chain_id : UInt32) {tail : Bytes}
    (h : firstTail aux.coinbase_tx = some tail) :
    let depth := UInt32.ofNat aux.chain_merkle_branch.length
    shifts (antiGrindDetails aux chain_id) = [depth.toNat, depth.toNat] ∧
      value (antiGrindDetails aux chain_id) = (leU32At tail 32, leU32At tail 36,
        some (decide (leU32At tail 32 = 1 <<< depth) &&
          decide (aux.chain_index = getExpectedIndex (leU32At tail 36) chain_id depth))) := by
  unfold antiGrindDetails
  unfold firstTail at h
  cases hpos : findSubslice aux.coinbase_tx AUXPOW_MAGIC with
  | none =>
    rw [hpos] at h
    cases h
  | some pos =>
    rw [hpos, Option.bind_some] at h
    simp only [h, shifts_bind, shifts_oneShl, shifts_pure, value_bind, value_oneShl, value_pure, UInt32.ofNat_toNat,
      getExpectedIndex]
    exact ⟨rfl, rfl⟩

/-! ## The parser's bound on branches -/

theorem length_times {E α : Type} {x : Cursor E α} {n p q : Nat} {as : List α}
    (h : Cursor.times x n p = .ok (as, q)) : as.length = n := by
  induction n generalizing p q as with
  | zero => rw [(Cursor.pure_eq_ok.1 h).1, List.length_nil]
  | succ n ih =>
    obtain ⟨a, r, -, h⟩ := Cursor.bind_eq_ok.1 h
    obtain ⟨as', r', has, h⟩ := Cursor.bind_eq_ok.1 h
    rw [(Cursor.pure_eq_ok.1 h).1, List.length_cons, ih has]

theorem branch_length_le {w : Nat} {b : Bytes} {p q : Nat} {hashes : List Hash32}
    (h : branch w b p = .ok (hashes, q)) : hashes.length ≤ 2 ^ 20 := by
  obtain ⟨n, r, -, h⟩ := Cursor.bind_eq_ok.1 h
  dsimp only at h
  split at h
  · obtain ⟨_, _, hthrow, -⟩ := Cursor.bind_eq_ok.1 h
    exact absurd hthrow Cursor.throw_eq_ok
  · rename_i hmax
    rw [length_times h]
    omega

/-- A parsed chain branch has at most `2^20` hashes, so its length fits in a `u32`. -/
theorem parseAuxpow_depth {w : Nat} {wire : Bytes} {base : ByteArr 80} {aux : AuxPow}
    (h : parseAuxpow w wire = .ok (base, aux)) : aux.chain_merkle_branch.length ≤ 2 ^ 20 := by
  unfold parseAuxpow at h
  split at h
  · cases h
  · split at h
    · cases h
    · cases htake : takeAuxPow w wire HEADER_LEN with
      | error e =>
        rw [htake] at h
        cases h
      | ok r =>
        rw [htake] at h
        cases h
        obtain ⟨_, _, -, htake⟩ := Cursor.bind_eq_ok.1 htake
        obtain ⟨_, _, -, htake⟩ := Cursor.bind_eq_ok.1 htake
        obtain ⟨_, _, -, htake⟩ := Cursor.bind_eq_ok.1 htake
        obtain ⟨_, _, -, htake⟩ := Cursor.bind_eq_ok.1 htake
        obtain ⟨_, _, hbranch, htake⟩ := Cursor.bind_eq_ok.1 htake
        obtain ⟨_, _, -, htake⟩ := Cursor.bind_eq_ok.1 htake
        obtain ⟨_, _, -, htake⟩ := Cursor.bind_eq_ok.1 htake
        obtain ⟨haux, -⟩ := Cursor.pure_eq_ok.1 htake
        rw [haux]
        exact branch_length_le hbranch

theorem parseAuxpow_depth_toNat {w : Nat} {wire : Bytes} {base : ByteArr 80} {aux : AuxPow}
    (h : parseAuxpow w wire = .ok (base, aux)) :
    (UInt32.ofNat aux.chain_merkle_branch.length).toNat = aux.chain_merkle_branch.length := by
  have hle := parseAuxpow_depth h
  rw [UInt32.toNat_ofNat']
  omega

/-! ## The whole call -/

section Sha
variable (sha256d : Bytes → Hash32)

/-- Past the parse, the shifts in question are those of the slot check. -/
theorem inRange_verifyToJson (w : Nat) (wire : Bytes) (chain_id : UInt32) :
    InRange (verifyToJson sha256d w wire chain_id) ↔ ∀ base aux, parseAuxpow w wire = .ok (base, aux) →
      aux.chain_merkle_branch.length < 32 ∨ firstTail aux.coinbase_tx = none := by
  unfold verifyToJson
  cases hparse : parseAuxpow w wire with
  | error e => simp [inRange_pure]
  | ok r =>
    obtain ⟨base, aux⟩ := r
    simp only [inRange_bind, inRange_pure, inRange_verifyAuxpowCommitmentShifting, true_and, and_true, Except.ok.injEq,
      Prod.mk.injEq, and_imp]
    cases htail : firstTail aux.coinbase_tx with
    | none =>
      rw [antiGrindDetails_of_none chain_id htail]
      simp [inRange_pure, htail]
    | some tail =>
      simp only [InRange, (antiGrindDetails_of_some chain_id htail).1, parseAuxpow_depth_toNat hparse]
      simp [htail]

/-- The object returned for a payload that parses. -/
theorem value_verifyToJson {w : Nat} {wire : Bytes} {base : ByteArr 80} {aux : AuxPow} (chain_id : UInt32)
    (h : parseAuxpow w wire = .ok (base, aux)) :
    ∃ json, value (verifyToJson sha256d w wire chain_id) = some json ∧
      json.valid = verifyAuxpowCommitment sha256d (sha256d base.val) aux chain_id ∧
      (json.proof1 = true ↔ aux.parent_index = 0 ∧ ∃ pid, aux.parentChainId = some pid ∧ pid ≠ chain_id) ∧
      json.chain_index = aux.chain_index ∧ json.chain_branch_depth = aux.chain_merkle_branch.length ∧
      (json.n_size, json.nonce, json.anti_grind_ok) = value (antiGrindDetails aux chain_id) := by
  unfold verifyToJson
  simp only [h, value_bind, value_pure]
  refine ⟨_, rfl, value_verifyAuxpowCommitmentShifting sha256d _ aux chain_id, ?_, rfl, rfl, rfl⟩
  simp [Option.any_eq_true]

theorem value_verifyToJson_error {w : Nat} {wire : Bytes} {e : AuxPowParseError} (chain_id : UInt32)
    (h : parseAuxpow w wire = .error e) : value (verifyToJson sha256d w wire chain_id) = none := by
  unfold verifyToJson
  simp only [h, value_pure]

end Sha

/-! ## The slot over the integers -/

/-- `get_expected_index` without wrapping anywhere. -/
def expectedIndexInt (nonce chain_id depth : Nat) : Nat :=
  (((nonce * 1103515245 + 12345) + chain_id) * 1103515245 + 12345) % 2 ^ depth

theorem toNat_getExpectedIndex (nonce chain_id : UInt32) {depth : Nat} (h : depth < 32) :
    (getExpectedIndex nonce chain_id (UInt32.ofNat depth)).toNat =
      expectedIndexInt nonce.toNat chain_id.toNat depth := by
  have hdvd : 2 ^ depth ∣ 2 ^ 32 := Nat.pow_dvd_pow 2 (by omega)
  -- each wrap-around is modulo a multiple of the number of slots
  have hwrap : ∀ x, x % 2 ^ 32 ≡ x [MOD 2 ^ depth] := fun x => Nat.mod_mod_of_dvd x hdvd
  have hfirst : ∀ x, (x * 1103515245 % 2 ^ 32 + 12345) % 2 ^ 32 ≡ x * 1103515245 + 12345 [MOD 2 ^ depth] :=
    fun x => (hwrap _).trans ((hwrap _).add_right _)
  simp only [getExpectedIndex, UInt32.toNat_mod, toNat_one_shl h, UInt32.toNat_add, UInt32.toNat_mul, expectedIndexInt]
  refine (hfirst _).trans ((Nat.ModEq.mul_right _ ?_).add_right _)
  exact (hwrap _).trans ((hfirst _).add_right _)

section Sha
variable (sha256d : Bytes → Hash32)

/-- The call panics in no build and wraps no shift, and its slot check is the one
over the integers. -/
structure SlotCheckExact (w : Nat) (wire : Bytes) (chain_id : UInt32) : Prop where
  in_range : ∀ d ∈ shifts (verifyToJson sha256d w wire chain_id), d < 32
  returns : ∀ p, runIn p (verifyToJson sha256d w wire chain_id) = some (value (verifyToJson sha256d w wire chain_id))
  slot : ∀ base aux json ok, parseAuxpow w wire = .ok (base, aux) →
    value (verifyToJson sha256d w wire chain_id) = some json → json.anti_grind_ok = some ok →
    ∃ tail, firstTail aux.coinbase_tx = some tail ∧
      (ok = true ↔ (leU32At tail 32).toNat = 2 ^ aux.chain_merkle_branch.length ∧
        aux.chain_index.toNat =
          expectedIndexInt (leU32At tail 36).toNat chain_id.toNat aux.chain_merkle_branch.length)

/-- The third copy of the slot check has no depth guard: it is exact unless a
branch of 32 hashes or more comes with a readable tail. -/
theorem slot_check_exact_iff (w : Nat) (wire : Bytes) (chain_id : UInt32) :
    SlotCheckExact sha256d w wire chain_id ↔ ∀ base aux, parseAuxpow w wire = .ok (base, aux) →
      aux.chain_merkle_branch.length < 32 ∨ firstTail aux.coinbase_tx = none := by
  constructor
  · intro h
    exact (inRange_verifyToJson sha256d w wire chain_id).1 h.in_range
  · intro h
    have hrange := (inRange_verifyToJson sha256d w wire chain_id).2 h
    refine ⟨hrange, fun p => runIn_eq_some.2 ⟨fun _ => hrange, rfl⟩, ?_⟩
    intro base aux json ok hparse hjson hok
    obtain ⟨json', hjson', -, -, -, -, hslot⟩ := value_verifyToJson sha256d chain_id hparse
    rw [hjson] at hjson'
    cases hjson'
    cases htail : firstTail aux.coinbase_tx with
    | none =>
      rw [antiGrindDetails_of_none chain_id htail, value_pure, hok] at hslot
      have hnone : some ok = none := congrArg (fun d => d.2.2) hslot
      cases hnone
    | some tail =>
      have hlt : aux.chain_merkle_branch.length < 32 := by
        rcases h base aux hparse with hlt | hnone
        · exact hlt
        · rw [hnone] at htail
          cases htail
      rw [(antiGrindDetails_of_some chain_id htail).2, hok] at hslot
      refine ⟨tail, rfl, ?_⟩
      rw [Option.some.inj (congrArg (fun d => d.2.2) hslot), Bool.and_eq_true, decide_eq_true_eq, decide_eq_true_eq,
        ← UInt32.toNat_inj, toNat_one_shl hlt, ← UInt32.toNat_inj, toNat_getExpectedIndex _ _ hlt]

end Sha

/-- The first sample block under a chain branch of 32 zero hashes. -/
def deepWire : Bytes :=
  sampleRaw (ByteArr.fill 32 0) ++ sampleCoinbase sampleId₁ ++ List.replicate 32 0 ++ [0] ++ leU32 0 ++
    ([32] ++ List.replicate (32 * 32) 0) ++ leU32 0 ++ sampleParent sampleTxid₁

/-- It is parsed, and both shifts are by 32: a debug build panics, and a release
build finds the size 1 to be `2^32`. -/
theorem deep_branch_overflows :
    ¬ SlotCheckExact sampleSha 64 deepWire 63 ∧
      shifts (verifyToJson sampleSha 64 deepWire 63) = [32, 32] ∧
      runIn .debug (verifyToJson sampleSha 64 deepWire 63) = none ∧
      (value (verifyToJson sampleSha 64 deepWire 63)).map (fun json => (json.n_size, json.anti_grind_ok)) =
        some (1, some true) := by
  have hrun : shifts (verifyToJson sampleSha 64 deepWire 63) = [32, 32] ∧
      (value (verifyToJson sampleSha 64 deepWire 63)).map (fun json => (json.n_size, json.anti_grind_ok)) =
        some (1, some true) := by decide +kernel
  have hover : ¬ InRange (verifyToJson sampleSha 64 deepWire 63) := by
    rw [InRange, hrun.1]
    decide
  exact ⟨fun h => hover h.in_range, hrun.1, by rw [runIn, if_neg hover], hrun.2⟩

/-! ## The verdict -/

section Sha
variable (sha256d : Bytes → Hash32)

/-- The browser is told what the indexer would answer: nothing exactly when the
payload does not parse, else its verdict and its proof 1. -/
structure SameVerdict (w : Nat) (result : Option VerdictJson) (wire : Bytes) (chain_id : UInt32) : Prop where
  parses : result = none ↔ ∃ e, verifyAuxpowWire sha256d w wire chain_id CHAIN_POW_LIMIT_BITS = .error e
  verdict : ∀ json report, result = some json →
    verifyAuxpowWire sha256d w wire chain_id CHAIN_POW_LIMIT_BITS = .ok report → json.valid = report.valid
  proof1 : ∀ json base aux, result = some json → parseAuxpow w wire = .ok (base, aux) →
    (json.proof1 = true ↔ (verifyProof1 sha256d aux chain_id).ok = true)

/-- What the module leaves unchecked holds of the payload. -/
structure UncheckedHolds (p : Profile) (base : ByteArr 80) (aux : AuxPow) (chain_id : UInt32) : Prop where
  shallow : p = .debug → aux.chain_merkle_branch.length < 32 ∨ firstTail aux.coinbase_tx = none
  format : verifyAuxpowCommitment sha256d (sha256d base.val) aux chain_id = true →
    HeaderFormat base.val chain_id CHAIN_POW_LIMIT_BITS
  anchored : ∀ pid, aux.parent_index = 0 → aux.parentChainId = some pid → pid ≠ chain_id →
    pid = LTC_CHAIN_ID ∧ aux.parentMerkleRoot =
      some (merkleFoldBranch sha256d (sha256d aux.coinbase_tx) aux.parent_merkle_branch aux.parent_index)

theorem verifyAuxpowWire_error_iff (w : Nat) (wire : Bytes) (chain_id pow_limit_bits : UInt32) :
    (∃ e, verifyAuxpowWire sha256d w wire chain_id pow_limit_bits = .error e) ↔ ∃ e, parseAuxpow w wire = .error e := by
  unfold verifyAuxpowWire
  cases hparse : parseAuxpow w wire with
  | error e => exact ⟨fun _ => ⟨e, rfl⟩, fun _ => ⟨e, rfl⟩⟩
  | ok r =>
    constructor
    · rintro ⟨e, he⟩
      cases he
    · rintro ⟨e, he⟩
      cases he

/-- Built for one pointer width, the two agree exactly when nothing unchecked
goes wrong. -/
theorem sameVerdict_iff (p : Profile) (w : Nat) (wire : Bytes) (chain_id : UInt32) :
    (∃ result, runIn p (verifyToJson sha256d w wire chain_id) = some result ∧ SameVerdict sha256d w result wire chain_id) ↔
      ∀ base aux, parseAuxpow w wire = .ok (base, aux) → UncheckedHolds sha256d p base aux chain_id := by
  constructor
  · rintro ⟨result, hrun, hsame⟩ base aux hparse
    obtain ⟨hrange, hvalue⟩ := runIn_eq_some.1 hrun
    obtain ⟨json, hjson, hvalid, hproof1, -⟩ := value_verifyToJson sha256d chain_id hparse
    rw [hvalue] at hjson
    have hwire : verifyAuxpowWire sha256d w wire chain_id CHAIN_POW_LIMIT_BITS =
        .ok (verifyAuxHeader sha256d base.val aux chain_id CHAIN_POW_LIMIT_BITS) := by
      rw [verifyAuxpowWire, hparse]
      rfl
    refine ⟨fun hp => (inRange_verifyToJson sha256d w wire chain_id).1 (hrange hp) base aux hparse, ?_, ?_⟩
    · intro hcommit
      rw [← hvalid, hsame.verdict json _ hjson hwire, verifyAuxHeader_valid_iff] at hcommit
      exact hcommit.1
    · intro pid hindex hpid hne
      have h1 := (hsame.proof1 json base aux hjson hparse).1 (hproof1.2 ⟨hindex, pid, hpid, hne⟩)
      obtain ⟨-, hltc, -, hroot⟩ := (verifyProof1_iff sha256d aux chain_id).1 h1
      rw [hpid] at hltc
      exact ⟨Option.some.inj hltc, hroot⟩
  · intro h
    have hrange : p = .debug → InRange (verifyToJson sha256d w wire chain_id) := fun hp =>
      (inRange_verifyToJson sha256d w wire chain_id).2 fun base aux hparse => (h base aux hparse).shallow hp
    refine ⟨_, runIn_eq_some.2 ⟨hrange, rfl⟩, ?_⟩
    cases hparse : parseAuxpow w wire with
    | error e =>
      rw [value_verifyToJson_error sha256d chain_id hparse]
      constructor
      · rw [verifyAuxpowWire_error_iff]
        exact ⟨fun _ => ⟨e, hparse⟩, fun _ => rfl⟩
      · intro json report hjson
        cases hjson
      · intro json base aux hjson
        cases hjson
    | ok r =>
      obtain ⟨base, aux⟩ := r
      obtain ⟨json, hjson, hvalid, hproof1, -⟩ := value_verifyToJson sha256d chain_id hparse
      obtain ⟨-, hformat, hanchored⟩ := h base aux hparse
      rw [hjson]
      constructor
      · rw [verifyAuxpowWire_error_iff, hparse]
        constructor
        · intro he
          cases he
        · rintro ⟨e, he⟩
          cases he
      · intro json' report hjson' hreport
        cases hjson'
        rw [verifyAuxpowWire, hparse] at hreport
        cases hreport
        rw [Bool.eq_iff_iff, hvalid, verifyAuxHeader_valid_iff, ← verifyAuxpowCommitment_iff]
        exact ⟨fun hcommit => ⟨hformat hcommit, hcommit⟩, fun hcommit => hcommit.2⟩
      · intro json' base' aux' hjson' hparse'
        cases hjson'
        rw [hparse] at hparse'
        cases hparse'
        rw [hproof1, verifyProof1_iff]
        constructor
        · rintro ⟨hindex, pid, hpid, hne⟩
          obtain ⟨rfl, hroot⟩ := hanchored pid hindex hpid hne
          exact ⟨hindex, hpid, hne, hroot⟩
        · rintro ⟨hindex, hpid, hne, -⟩
          exact ⟨hindex, LTC_CHAIN_ID, hpid, hne⟩

/-- The parser's errors do not show in the result. -/
theorem verifyToJson_congr {w w' : Nat} {wire : Bytes} (chain_id : UInt32)
    (h : (parseAuxpow w wire).toOption = (parseAuxpow w' wire).toOption) :
    verifyToJson sha256d w wire chain_id = verifyToJson sha256d w' wire chain_id := by
  unfold verifyToJson
  cases hp : parseAuxpow w wire with
  | error e =>
    cases hp' : parseAuxpow w' wire with
    | error e' => rfl
    | ok r =>
      rw [hp, hp'] at h
      cases h
  | ok r =>
    cases hp' : parseAuxpow w' wire with
    | error e =>
      rw [hp, hp'] at h
      cases h
    | ok r' =>
      rw [hp, hp'] at h
      cases h
      rfl

/-- What a 64-bit build reads, a 32-bit one reads too. -/
theorem parseAuxpow_narrow {wire : Bytes} (hlen : wire.length < 2 ^ 31) {r : ByteArr 80 × AuxPow}
    (h : parseAuxpow 64 wire = .ok r) : (parseAuxpow 32 wire).toOption = some r := by
  have hsome : (parseAuxpow 64 wire).toOption = some r := by rw [h, Except.toOption]
  obtain ⟨q, ⟨hw, he⟩, hr⟩ := (parseAuxpow_toOption_iff (by omega) r).1 hsome
  have hbytes : q.bytes.length < 2 ^ 31 := by
    rw [he] at hlen
    simp only [List.length_append] at hlen
    omega
  have hshort := (cauxpow_wire_short hbytes).2 hw
  exact (parseAuxpow_toOption_iff (by omega) r).2 ⟨q, ⟨hshort.mono fun _ _ _ _ => usizeLen_of_short, he⟩, hr⟩

/-- The module tells the browser what the indexer's report says exactly when what it
does not check itself holds: the header's format, the parent being a Litecoin block
that folds, and in a debug build the depth. Compiled to wasm32, against a 64-bit
indexer, the payload's length prefixes must also be short. -/
theorem wasm_parity_iff (p : Profile) (wire : Bytes) (chain_id : UInt32) :
    (∀ w, (∃ result, runIn p (verifyToJson sha256d w wire chain_id) = some result ∧
        SameVerdict sha256d w result wire chain_id) ↔
      ∀ base aux, parseAuxpow w wire = .ok (base, aux) → UncheckedHolds sha256d p base aux chain_id) ∧
    (wire.length < 2 ^ 31 →
      ((∃ result, runIn p (verifyToJson sha256d 32 wire chain_id) = some result ∧
          SameVerdict sha256d 64 result wire chain_id) ↔
        (∀ q : Payload, q.Wire (usizeLen 32) wire → q.Wire shortLen wire) ∧
          ∀ base aux, parseAuxpow 64 wire = .ok (base, aux) → UncheckedHolds sha256d p base aux chain_id)) := by
  refine ⟨fun w => sameVerdict_iff sha256d p w wire chain_id, fun hlen => ?_⟩
  rw [← parseAuxpow_widths hlen, ← sameVerdict_iff]
  constructor
  · rintro ⟨result, hrun, hsame⟩
    have hwidths : (parseAuxpow 32 wire).toOption = (parseAuxpow 64 wire).toOption := by
      cases h64 : parseAuxpow 64 wire with
      | ok r => rw [parseAuxpow_narrow hlen h64, Except.toOption]
      | error e =>
        have hnone := hsame.parses.2 ((verifyAuxpowWire_error_iff sha256d 64 wire chain_id _).2 ⟨e, h64⟩)
        cases h32 : parseAuxpow 32 wire with
        | error e' => rfl
        | ok r =>
          obtain ⟨json, hjson, -⟩ := value_verifyToJson sha256d chain_id h32
          rw [(runIn_eq_some.1 hrun).2, hnone] at hjson
          cases hjson
    rw [verifyToJson_congr sha256d chain_id hwidths] at hrun
    exact ⟨hwidths, result, hrun, hsame⟩
  · rintro ⟨hwidths, h⟩
    rwa [verifyToJson_congr sha256d chain_id hwidths]

end Sha

/-- The wasm module and the indexer accept the first sample block alike. -/
theorem wasm_parity_sample :
    ∃ result, runIn .debug (verifyToJson sampleSha 32 (sampleWire (ByteArr.fill 32 0) sampleId₁ sampleTxid₁) 63) =
        some result ∧
      SameVerdict sampleSha 64 result (sampleWire (ByteArr.fill 32 0) sampleId₁ sampleTxid₁) 63 := by
  refine ((wasm_parity_iff sampleSha .debug (sampleWire (ByteArr.fill 32 0) sampleId₁ sampleTxid₁) 63).2
    (by decide +kernel)).2 ⟨(parseAuxpow_widths (by decide +kernel)).1 (by decide +kernel), ?_⟩
  intro base aux hparse
  rw [parse_sample₁] at hparse
  cases hparse
  refine ⟨fun _ => .inl (by decide), fun _ => format_sample₁, ?_⟩
  intro pid _ hpid _
  have hltc : (sampleAux sampleId₁ sampleTxid₁).parentChainId = some LTC_CHAIN_ID := by decide +kernel
  rw [hltc] at hpid
  exact ⟨(Option.some.inj hpid).symm, by decide +kernel⟩

/-- Asked about chain 50, the module calls a block of chain 63 valid. -/
theorem wasm_accepts_other_chain :
    (value (verifyToJson sampleSha 64 (sampleWire (ByteArr.fill 32 0) sampleId₁ sampleTxid₁) 50)).map (·.valid) =
        some true ∧
      (verifyAuxHeader sampleSha sampleBase₁.val (sampleAux sampleId₁ sampleTxid₁) 50 CHAIN_POW_LIMIT_BITS).valid = false ∧
      ¬ ∃ result,
        runIn .release (verifyToJson sampleSha 64 (sampleWire (ByteArr.fill 32 0) sampleId₁ sampleTxid₁) 50) = some result ∧
        SameVerdict sampleSha 64 result (sampleWire (ByteArr.fill 32 0) sampleId₁ sampleTxid₁) 50 := by
  have hjson : (value (verifyToJson sampleSha 64 (sampleWire (ByteArr.fill 32 0) sampleId₁ sampleTxid₁) 50)).map
      (·.valid) = some true := by decide +kernel
  have hreport : (verifyAuxHeader sampleSha sampleBase₁.val (sampleAux sampleId₁ sampleTxid₁) 50
      CHAIN_POW_LIMIT_BITS).valid = false := by decide +kernel
  refine ⟨hjson, hreport, ?_⟩
  rintro ⟨result, hrun, hsame⟩
  rw [(runIn_eq_some.1 hrun).2] at hjson
  obtain ⟨json, rfl, hvalid⟩ := Option.map_eq_some_iff.1 hjson
  have hwire : verifyAuxpowWire sampleSha 64 (sampleWire (ByteArr.fill 32 0) sampleId₁ sampleTxid₁) 50
      CHAIN_POW_LIMIT_BITS =
        .ok (verifyAuxHeader sampleSha sampleBase₁.val (sampleAux sampleId₁ sampleTxid₁) 50 CHAIN_POW_LIMIT_BITS) := by
    rw [verifyAuxpowWire, parse_sample₁]
    rfl
  rw [hsame.verdict json _ rfl hwire, hreport] at hvalid
  cases hvalid

end PsobIndexer
