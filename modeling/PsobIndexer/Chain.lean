import PsobIndexer.Lib.Fallible
import PsobIndexer.Agreement
/-!
# Header chains compose

`verifyPsobChain` is a loop with a running expected hash. `HeaderAccepted` says
what one turn of the loop requires, and `verifyPsobHeaders_append` splits the
loop at any point, so a prover may extend a checkpoint window by window.
-/
open Lib

namespace PsobIndexer

section Sha
variable (sha256d : Bytes → Hash32)

/-! ## One header -/

/-- What the guest requires of a header by itself: its size, its chain, a target
within the limit, and a committed witness with an 80-byte parent. -/
def HeaderValid (pow_limit : Hash32) (chain_id : UInt32) (header : BlockHeader) : Prop :=
  header.raw.length = 80 ∧ header.chainId = chain_id ∧
    (∃ target, expandTarget header.bits = some target ∧ targetLeq target pow_limit = true) ∧
    ∃ aux, header.aux = some aux ∧ verifyAuxpowCommitment sha256d (sha256d header.raw) aux chain_id = true ∧
      aux.parent_header.length = 80

theorem verifyPsobHeader_iff (pow_limit : Hash32) (chain_id : UInt32) (prev id : Hash32) (header : BlockHeader) :
    verifyPsobHeader sha256d pow_limit chain_id prev header = .ok id ↔
      id = sha256d header.raw ∧ header.prevHash = prev ∧ HeaderValid sha256d pow_limit chain_id header := by
  unfold verifyPsobHeader HeaderValid
  by_cases hlen : header.raw.length = 80
  · by_cases hchain : header.chainId = chain_id
    · by_cases hprev : header.prevHash = prev
      · cases htarget : expandTarget header.bits with
        | none => simp [hlen, hchain, hprev]
        | some target =>
          by_cases hle : targetLeq target pow_limit = true
          · cases haux : header.aux with
            | none => simp [hlen, hchain, hprev, hle]
            | some aux =>
              by_cases hv : verifyAuxpowCommitment sha256d (sha256d header.raw) aux chain_id = true
              · by_cases hp : aux.parent_header.length = 80
                · simpa [hlen, hchain, hprev, hle, hv, hp] using eq_comm
                · simp [hlen, hchain, hprev, hle, hv, hp]
              · simp [hlen, hchain, hprev, hle, hv]
          · simp [hlen, hchain, hprev, hle]
      · simp [hlen, hchain, hprev]
    · simp [hlen, hchain]
  · simp [hlen]

/-! ## The loop -/

/-- The hash the loop expects next, after `headers`. -/
def lastHash (checkpoint : Hash32) (headers : List BlockHeader) : Hash32 :=
  headers.foldl (fun _ header => sha256d header.raw) checkpoint

theorem lastHash_getLast (checkpoint : Hash32) {headers : List BlockHeader} (h : headers ≠ []) :
    lastHash sha256d checkpoint headers = sha256d (headers.getLast h).raw := by
  induction headers generalizing checkpoint with
  | nil => exact absurd rfl h
  | cons header headers ih =>
    cases headers with
    | nil => rfl
    | cons header' headers =>
      rw [List.getLast_cons (List.cons_ne_nil _ _)]
      exact ih (sha256d header.raw) (List.cons_ne_nil _ _)

theorem verifyPsobHeaders_cons (pow_limit : Hash32) (chain_id : UInt32) (prev : Hash32) (header : BlockHeader)
    (headers : List BlockHeader) :
    verifyPsobHeaders sha256d pow_limit chain_id prev (header :: headers) = .ok () ↔
      header.prevHash = prev ∧ HeaderValid sha256d pow_limit chain_id header ∧
        verifyPsobHeaders sha256d pow_limit chain_id (sha256d header.raw) headers = .ok () := by
  simp only [verifyPsobHeaders, except_bind_eq_ok, verifyPsobHeader_iff]
  constructor
  · rintro ⟨id, ⟨rfl, hprev, hvalid⟩, hrest⟩
    exact ⟨hprev, hvalid, hrest⟩
  · rintro ⟨hprev, hvalid, hrest⟩
    exact ⟨_, ⟨rfl, hprev, hvalid⟩, hrest⟩

theorem verifyPsobHeaders_append (pow_limit : Hash32) (chain_id : UInt32) (prev : Hash32)
    (hs₁ hs₂ : List BlockHeader) :
    verifyPsobHeaders sha256d pow_limit chain_id prev (hs₁ ++ hs₂) = .ok () ↔
      verifyPsobHeaders sha256d pow_limit chain_id prev hs₁ = .ok () ∧
        verifyPsobHeaders sha256d pow_limit chain_id (lastHash sha256d prev hs₁) hs₂ = .ok () := by
  induction hs₁ generalizing prev with
  | nil => simp [verifyPsobHeaders, lastHash]
  | cons header hs₁ ih =>
    rw [List.cons_append, verifyPsobHeaders_cons, verifyPsobHeaders_cons, ih]
    simp only [lastHash, List.foldl_cons, and_assoc]

theorem verifyPsobHeaders_valid {pow_limit : Hash32} {chain_id : UInt32} {prev : Hash32} {headers : List BlockHeader}
    (h : verifyPsobHeaders sha256d pow_limit chain_id prev headers = .ok ()) :
    ∀ header ∈ headers, HeaderValid sha256d pow_limit chain_id header := by
  induction headers generalizing prev with
  | nil =>
    intro header hmem
    cases hmem
  | cons first headers ih =>
    obtain ⟨-, hvalid, hrest⟩ := (verifyPsobHeaders_cons sha256d _ _ _ _ _).1 h
    intro header hmem
    rcases List.mem_cons.1 hmem with rfl | hmem
    · exact hvalid
    · exact ih hrest header hmem

/-! ## The chain check -/

theorem verifyPsobChain_iff (headers : List BlockHeader) (checkpoint : Hash32) (chain_id pow_limit_bits : UInt32) :
    verifyPsobChain sha256d headers checkpoint chain_id pow_limit_bits = .ok () ↔
      headers ≠ [] ∧ ∃ pow_limit, expandTarget pow_limit_bits = some pow_limit ∧
        verifyPsobHeaders sha256d pow_limit chain_id checkpoint headers = .ok () := by
  unfold verifyPsobChain
  by_cases hnil : headers = []
  · simp [hnil]
  · cases hlimit : expandTarget pow_limit_bits with
    | none => simp [hnil]
    | some pow_limit => simp [hnil]

/-- A window splits into two windows, the second one checkpointed at the last
hash of the first; and every header of an accepted window is valid by itself. -/
theorem verifyPsobChain_append (checkpoint : Hash32) (chain_id pow_limit_bits : UInt32) (hs₁ hs₂ : List BlockHeader)
    (h₁ : hs₁ ≠ []) (h₂ : hs₂ ≠ []) :
    (verifyPsobChain sha256d (hs₁ ++ hs₂) checkpoint chain_id pow_limit_bits = .ok () ↔
      verifyPsobChain sha256d hs₁ checkpoint chain_id pow_limit_bits = .ok () ∧
        verifyPsobChain sha256d hs₂ (sha256d (hs₁.getLast h₁).raw) chain_id pow_limit_bits = .ok ()) ∧
    ∀ headers, verifyPsobChain sha256d headers checkpoint chain_id pow_limit_bits = .ok () →
      ∃ pow_limit, expandTarget pow_limit_bits = some pow_limit ∧ ∀ header ∈ headers,
        header.raw.length = 80 ∧ header.chainId = chain_id ∧
        (∃ target, expandTarget header.bits = some target ∧ targetLeq target pow_limit = true) ∧
        ∃ aux, header.aux = some aux ∧ aux.parent_header.length = 80 ∧
          verifyAuxpowCommitment sha256d (sha256d header.raw) aux chain_id = true := by
  constructor
  · simp only [verifyPsobChain_iff, ← lastHash_getLast sha256d checkpoint h₁]
    constructor
    · rintro ⟨-, limit, hlimit, h⟩
      obtain ⟨hl, hr⟩ := (verifyPsobHeaders_append sha256d _ _ _ _ _).1 h
      exact ⟨⟨h₁, limit, hlimit, hl⟩, h₂, limit, hlimit, hr⟩
    · rintro ⟨⟨-, limit, hlimit, hl⟩, -, limit', hlimit', hr⟩
      obtain rfl : limit = limit' := Option.some.inj (hlimit.symm.trans hlimit')
      refine ⟨fun hnil => h₁ (List.append_eq_nil_iff.1 hnil).1, limit, hlimit, ?_⟩
      exact (verifyPsobHeaders_append sha256d _ _ _ _ _).2 ⟨hl, hr⟩
  · intro headers h
    obtain ⟨-, limit, hlimit, h⟩ := (verifyPsobChain_iff sha256d _ _ _ _).1 h
    refine ⟨limit, hlimit, fun header hmem => ?_⟩
    obtain ⟨hlen, hchain, htarget, aux, haux, hv, hp⟩ := verifyPsobHeaders_valid sha256d h header hmem
    exact ⟨hlen, hchain, htarget, aux, haux, hp, hv⟩

end Sha

/-! ## Two blocks of one chain -/

/-- A digest given as hex text. -/
def digest (s : String) : Hash32 := ByteArr.ofSlice 32 ((hexDecode s).getD []) 0

/-- A header of chain 63 on top of `prev`, at the easiest target. -/
def sampleRaw (prev : Hash32) : Bytes :=
  leU32 (63 * 65536 + 1) ++ prev.val ++ List.replicate 36 0 ++ leU32 CHAIN_POW_LIMIT_BITS ++ List.replicate 4 0

/-- A coinbase whose only input commits the block `id`, alone in its tree. -/
def sampleCoinbase (id : Hash32) : Bytes :=
  leU32 1 ++ [1] ++ List.replicate 32 0 ++ List.replicate 4 0xff ++ [44] ++ AUXPOW_MAGIC ++ id.reverse.val ++ leU32 1 ++
    leU32 0 ++ List.replicate 4 0xff ++ [0] ++ leU32 0

/-- A parent block that holds one transaction. -/
def sampleParent (txid : Hash32) : Bytes :=
  leU32 0x20000000 ++ List.replicate 32 0 ++ txid.val ++ List.replicate 12 0

def sampleId₁ : Hash32 := digest "4c57448d67ac7ddb0aaf0b36fb6abfff55ff5851e553c7b9d7a60d5b8d29cb3d"

def sampleId₂ : Hash32 := digest "c70657c42650b74036d8d6a2ac35170dda2df245939c3768eef6a7b448e7cc7d"

def sampleTxid₁ : Hash32 := digest "0fecb401d13bfbd415dd6436793565bbf6e4b9836f586ef7bb74040b9e7d04f7"

def sampleTxid₂ : Hash32 := digest "cfe8c95a70c56d3f2aad85f81064a740cca27bdd212cdd857a3c17d9ebbc1b18"

def sampleParentId₁ : Hash32 := digest "6cf3bf1a2edcdb945d745282d41f76fb00bc56a2e5eafb1e351af7c2c7fea9fa"

def sampleParentId₂ : Hash32 := digest "fddd5ed2412881d6e5798b507a9ce95843ee76011d338ef49a7edb40de5aaf47"

/-- Double-SHA256 on the strings two sample blocks hash, zero elsewhere. -/
def sampleSha (b : Bytes) : Hash32 :=
  if b = sampleRaw (ByteArr.fill 32 0) then sampleId₁
  else if b = sampleRaw sampleId₁ then sampleId₂
  else if b = sampleCoinbase sampleId₁ then sampleTxid₁
  else if b = sampleCoinbase sampleId₂ then sampleTxid₂
  else if b = sampleParent sampleTxid₁ then sampleParentId₁
  else if b = sampleParent sampleTxid₂ then sampleParentId₂
  else ByteArr.fill 32 0

def sampleAux (id txid : Hash32) : AuxPow where
  coinbase_tx := sampleCoinbase id
  parent_merkle_branch := []
  parent_index := 0
  chain_merkle_branch := []
  chain_index := 0
  parent_header := sampleParent txid

def sampleHeader₁ : BlockHeader := ⟨sampleRaw (ByteArr.fill 32 0), some (sampleAux sampleId₁ sampleTxid₁)⟩

def sampleHeader₂ : BlockHeader := ⟨sampleRaw sampleId₁, some (sampleAux sampleId₂ sampleTxid₂)⟩

theorem verifyPsobChain_append_samples :
    verifyPsobChain sampleSha ([sampleHeader₁] ++ [sampleHeader₂]) (ByteArr.fill 32 0) 63 CHAIN_POW_LIMIT_BITS =
      .ok () := by
  refine (verifyPsobChain_append sampleSha (ByteArr.fill 32 0) 63 CHAIN_POW_LIMIT_BITS [sampleHeader₁] [sampleHeader₂]
    (by decide) (by decide)).1.2 ⟨?_, ?_⟩
  · decide +kernel
  · decide +kernel

end PsobIndexer
