import PsobIndexer.Lib.Fallible
import PsobIndexer.Ingest
import PsobIndexer.Agreement
/-!
# What the walk accepts

`Passes` collects the gates that look at one payload only. A payload that passes
is accepted or found stale by its `prev_hash` alone (`judge_of_passes`), and any
other halts the walk. The accepted blocks are verified, take consecutive heights
from the bottom of the window, and are linked to each other.
-/
open Lib

namespace PsobIndexer

section Sha
variable (w : Nat) (sha256d : Bytes → Hash32)

/-! ## Parsed payloads -/

theorem takeOr_length {w : Nat} {b s : Bytes} {e : AuxPowParseError} {n p q : Nat} (h : takeOr w b e n p = .ok (s, q)) :
    s.length = n := by
  unfold takeOr take at h
  cases hadd : checkedAdd w p n with
  | none => simp [hadd] at h
  | some last =>
    obtain ⟨-, rfl⟩ := checkedAdd_eq_some.1 hadd
    simp only [hadd] at h
    split_ifs at h with hlen
    cases h
    rw [List.length_take, List.length_drop]
    omega

/-- The parser returns the first 80 bytes and an 80-byte parent header. -/
theorem parseAuxpow_ok {w : Nat} {full : Bytes} {base : ByteArr 80} {aux : AuxPow}
    (h : parseAuxpow w full = .ok (base, aux)) : getRange full 0 80 = some base.val ∧ aux.parent_header.length = 80 := by
  unfold parseAuxpow HEADER_LEN at h
  split_ifs at h with hshort heq
  cases hr : takeAuxPow w full 80 with
  | error e =>
    rw [hr] at h
    cases h
  | ok r =>
    rw [hr] at h
    have hpair : (ByteArr.ofSlice 80 full 0, r.1) = (base, aux) := Except.ok.inj h
    obtain ⟨rfl, rfl⟩ := Prod.mk.inj hpair
    constructor
    · rw [getRange_eq_some, ByteArr.ofSlice_val (by omega)]
      exact ⟨Nat.zero_le _, by omega, rfl⟩
    · obtain ⟨aux, q⟩ := r
      simp only [takeAuxPow, Cursor.bind_eq_ok, Cursor.pure_eq_ok] at hr
      obtain ⟨_, _, -, _, _, -, _, _, -, _, _, -, _, _, -, _, _, -, header, p, htake, rfl, -⟩ := hr
      exact takeOr_length htake

/-- A block as the ingestor stores it: its payload parses to its header, its
hash is the header's, and it passes the consensus checks of its chain. -/
def Verified (chain : AuxChain) (b : StoredBlock) : Prop :=
  b.chain_id = chain.chain_id ∧ ∃ wire base aux, b.wire_hex = hexEncode wire ∧ parseAuxpow w wire = .ok (base, aux) ∧
    b.header = ⟨base.val, some aux⟩ ∧ b.hash_le = sha256d base.val ∧
    lightVerify sha256d base.val aux chain.chain_id chain.pow_limit_bits = .ok (sha256d base.val)

/-! ## One height -/

/-- The payload matches its locator, parses, and passes the consensus checks. -/
def Passes (chain : AuxChain) (fetched : Fetched) (base : ByteArr 80) (aux : AuxPow) : Prop :=
  eqIgnoreAsciiCase (hashDisplay (sha256d base.val)) fetched.2.1 = true ∧
    parseAuxpow w fetched.2.2 = .ok (base, aux) ∧
    lightVerify sha256d base.val aux chain.chain_id chain.pow_limit_bits = .ok (sha256d base.val)

/-- The block stored for a payload. -/
def acceptedBlock (chain : AuxChain) (fetched : Fetched) (base : ByteArr 80) (aux : AuxPow) : StoredBlock where
  hash_le := sha256d base.val
  chain_id := chain.chain_id
  height := fetched.1
  header := ⟨base.val, some aux⟩
  wire_hex := hexEncode fetched.2.2

variable {w sha256d}

theorem judge_of_passes {chain : AuxChain} {prev_hash : Option Hash32} {fetched : Fetched} {base : ByteArr 80}
    {aux : AuxPow} (h : Passes w sha256d chain fetched base aux) :
    judge w sha256d chain prev_hash fetched =
      if prev_hash.any (fun p => (base.val.drop 4).take 32 ≠ p.val) then .stale
      else .accept (acceptedBlock sha256d chain fetched base aux) := by
  obtain ⟨hloc, hparse, hlight⟩ := h
  obtain ⟨height, expected, wire⟩ := fetched
  have hwire : AuxBlock.fromWire w wire = .ok ⟨wire, base, aux⟩ := by
    unfold AuxBlock.fromWire
    rw [hparse]
    rfl
  unfold judge
  simp only [(parseAuxpow_ok hparse).1, hloc, hwire, hlight, not_true, if_false]
  rfl

theorem judge_of_not_passes {chain : AuxChain} {prev_hash : Option Hash32} {fetched : Fetched}
    (h : ∀ base aux, ¬ Passes w sha256d chain fetched base aux) : judge w sha256d chain prev_hash fetched = .halt := by
  obtain ⟨height, expected, wire⟩ := fetched
  unfold judge
  simp only
  cases hbase : getRange wire 0 80 with
  | none => rfl
  | some base80 =>
    by_cases hloc : eqIgnoreAsciiCase (hashDisplay (sha256d base80)) expected = true
    · simp only [hloc, not_true, if_false]
      cases hparse : parseAuxpow w wire with
      | error e => simp [AuxBlock.fromWire, hparse, bind, Except.bind]
      | ok r =>
        obtain ⟨base, aux⟩ := r
        have hwire : AuxBlock.fromWire w wire = .ok ⟨wire, base, aux⟩ := by
          unfold AuxBlock.fromWire
          rw [hparse]
          rfl
        have heq : base80 = base.val := Option.some.inj (hbase.symm.trans (parseAuxpow_ok hparse).1)
        subst heq
        simp only [hwire]
        cases hlight : lightVerify sha256d base.val aux chain.chain_id chain.pow_limit_bits with
        | error e => rfl
        | ok id =>
          have hid := ((lightVerify_iff sha256d _ _ _ _ _).1 hlight).1
          rw [hid] at hlight
          exact absurd ⟨hloc, hparse, hlight⟩ (h base aux)
    · simp [hloc]

/-- The linkage gate compares the whole `prev_hash` field. -/
theorem prevHash_eq_iff {base : ByteArr 80} {aux : Option AuxPow} {p : Hash32} :
    (BlockHeader.mk base.val aux).prevHash = p ↔ (base.val.drop 4).take 32 = p.val := by
  have hlen : 4 + 32 ≤ base.val.length := by
    rw [base.property]
    decide
  unfold BlockHeader.prevHash
  rw [Subtype.ext_iff, ByteArr.ofSlice_val hlen]

theorem judge_accept {chain : AuxChain} {prev_hash : Option Hash32} {fetched : Fetched} {b : StoredBlock}
    (h : judge w sha256d chain prev_hash fetched = .accept b) :
    Verified w sha256d chain b ∧ b.height = fetched.1 ∧ ∀ p ∈ prev_hash, b.header.prevHash = p := by
  by_cases hp : ∃ base aux, Passes w sha256d chain fetched base aux
  · obtain ⟨base, aux, hpass⟩ := hp
    rw [judge_of_passes hpass] at h
    split_ifs at h with hprev
    cases h
    refine ⟨⟨rfl, fetched.2.2, base, aux, rfl, hpass.2.1, rfl, rfl, hpass.2.2⟩, rfl, fun p hmem => ?_⟩
    rw [Option.mem_def] at hmem
    rw [hmem] at hprev
    exact prevHash_eq_iff.2 (by simpa using hprev)
  · rw [judge_of_not_passes fun base aux hpass => hp ⟨base, aux, hpass⟩] at h
    cases h

theorem judge_stale {chain : AuxChain} {prev_hash : Option Hash32} {fetched : Fetched}
    (h : judge w sha256d chain prev_hash fetched = .stale) :
    ∃ base aux p, Passes w sha256d chain fetched base aux ∧ prev_hash = some p ∧ (base.val.drop 4).take 32 ≠ p.val := by
  by_cases hp : ∃ base aux, Passes w sha256d chain fetched base aux
  · obtain ⟨base, aux, hpass⟩ := hp
    rw [judge_of_passes hpass] at h
    split_ifs at h with hprev
    obtain ⟨p, rfl, hne⟩ := (Option.any_eq_true _ _).1 hprev
    exact ⟨base, aux, p, hpass, rfl, by simpa using hne⟩
  · rw [judge_of_not_passes fun base aux hpass => hp ⟨base, aux, hpass⟩] at h
    cases h

/-! ## The whole window -/

/-- Each block builds on the one before it, the first one on `prev_hash`. -/
def LinkedFrom : Option Hash32 → List StoredBlock → Prop
  | _, [] => True
  | prev_hash, b :: bs => (∀ p ∈ prev_hash, b.header.prevHash = p) ∧ LinkedFrom (some b.hash_le) bs

/-- `b'` builds on `b`. -/
def Builds (b b' : StoredBlock) : Prop := b'.header.prevHash = b.hash_le

theorem LinkedFrom.isChain {prev_hash : Option Hash32} {bs : List StoredBlock} (h : LinkedFrom prev_hash bs) :
    bs.IsChain Builds := by
  induction bs generalizing prev_hash with
  | nil => exact .nil
  | cons b bs ih =>
    refine (ih h.2).cons fun b' hb' => ?_
    cases bs with
    | nil => cases hb'
    | cons b₁ bs =>
      cases hb'
      exact h.2.1 _ rfl

/-- What a walk returns: verified blocks at the lowest heights of the window,
linked upwards, and at most one stale height, the one below where it stopped. -/
theorem walk_spec (chain : AuxChain) (prev_hash : Option Hash32) (window : List Fetched) :
    let r := walk w sha256d chain prev_hash window
    (∀ b ∈ r.1, Verified w sha256d chain b) ∧
    r.1.map (·.height) = (window.map (·.1)).take r.1.length ∧
    LinkedFrom prev_hash r.1 ∧
    ∀ s ∈ r.2, ∃ fetched, window[r.1.length]? = some fetched ∧ s = saturatingSub fetched.1 1 ∧
      (r.1 = [] → prev_hash ≠ none) := by
  induction window generalizing prev_hash with
  | nil => simp [walk, LinkedFrom]
  | cons fetched window ih =>
    rw [walk]
    cases hj : judge w sha256d chain prev_hash fetched with
    | halt => simp [LinkedFrom]
    | stale =>
      have hprev : prev_hash ≠ none := by
        rintro rfl
        by_cases hp : ∃ base aux, Passes w sha256d chain fetched base aux
        · obtain ⟨base, aux, hpass⟩ := hp
          rw [judge_of_passes hpass] at hj
          simp at hj
        · rw [judge_of_not_passes fun base aux hpass => hp ⟨base, aux, hpass⟩] at hj
          cases hj
      simp [LinkedFrom, hprev]
    | accept b =>
      obtain ⟨hb, hh, hlink⟩ := judge_accept hj
      obtain ⟨hver, hheights, hlinked, hstale⟩ := ih (some b.hash_le)
      refine ⟨?_, ?_, ⟨hlink, hlinked⟩, ?_⟩
      · exact List.forall_mem_cons.2 ⟨hb, hver⟩
      · simp only [List.map_cons, List.length_cons, List.take_succ_cons, hh, hheights]
      · intro s hs
        obtain ⟨f, hf, hsf, -⟩ := hstale s hs
        exact ⟨f, hf, hsf, fun hnil => absurd hnil (List.cons_ne_nil _ _)⟩

end Sha

end PsobIndexer
