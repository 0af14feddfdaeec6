import PsobIndexer.Ingest
import PsobIndexer.Lib.Text
/-!
# Chain specs (`src/config.rs`)

`PSOB_CHAINS` is a comma-separated list of
`NAME|CHAIN_ID|ELECTRS_URL|POWLIMIT_BITS_HEX[|START_HEIGHT]`. The first four
fields of an entry and the uniqueness of the ids are checked with an error of
their own. The fifth field is not: what does not parse becomes no start height. And
the checks let through a plus sign before a number and the prefix `0x` more than once.
-/
open Lib

namespace PsobIndexer

/-! ## The parser -/

/-- Why `PSOB_CHAINS` is refused, with the text of the entry. -/
inductive ChainSpecError where
  | missingName (spec : List Char)
  | missingChainId (spec : List Char)
  | badChainId (spec : List Char)
  | missingElectrsUrl (spec : List Char)
  | missingPowLimit (spec : List Char)
  | badPowLimit (spec : List Char)
  | duplicateChainId (id : UInt32)
  deriving DecidableEq

def parseU32 (s : List Char) : Option UInt32 := (parseDec (2 ^ 32) (String.ofList s)).map UInt32.ofNat

def parseU64 (s : List Char) : Option UInt64 := (parseDec (2 ^ 64) (String.ofList s)).map UInt64.ofNat

def parsePowLimit (s : List Char) : Option UInt32 := (parseHex (2 ^ 32) (trimStart0x s)).map UInt32.ofNat

/-- Display-only ticker; an empty name is derived from the id. -/
def normalizeChainName (name : List Char) (chain_id : UInt32) : String :=
  let n := trim name
  if n = [] then "chain" ++ toString chain_id else String.ofList n

/-- One entry. -/
def parseChainSpec (spec : List Char) : Except ChainSpecError AuxChain := do
  let parts := splitn '|' 5 spec
  let name ← (parts[0]?.filter (· ≠ [])).elim (throw (.missingName spec)) pure
  let chain_id_raw ← parts[1]?.elim (throw (.missingChainId spec)) pure
  let chain_id ← (parseU32 chain_id_raw).elim (throw (.badChainId spec)) pure
  let electrs ← (parts[2]?.filter (· ≠ [])).elim (throw (.missingElectrsUrl spec)) pure
  let pow_limit_raw ← (parts[3]?.filter (· ≠ [])).elim (throw (.missingPowLimit spec)) pure
  let pow_limit_bits ← (parsePowLimit pow_limit_raw).elim (throw (.badPowLimit spec)) pure
  -- `and_then(|s| s.parse().ok())`: a bad number is no number.
  let start_height := parts[4]?.bind parseU64
  return {
    chain_id
    name := normalizeChainName name chain_id
    electrs := trimEndSlashes (String.ofList electrs)
    pow_limit_bits
    start_height }

/-- Two chains of one id would write to the same table. -/
def checkUniqueChainIds (seen : List UInt32) : List AuxChain → Except ChainSpecError Unit
  | [] => pure ()
  | c :: chains =>
    if c.chain_id ∈ seen then throw (.duplicateChainId c.chain_id) else checkUniqueChainIds (c.chain_id :: seen) chains

/-- The entries: comma-separated, trimmed, the empty ones skipped. -/
def chainSpecs (raw : String) : List (List Char) := ((raw.toList.splitOn ',').map trim).filter (· ≠ [])

def parseChainSpecs (raw : String) : Except ChainSpecError (List AuxChain) := do
  let chains ← (chainSpecs raw).mapM parseChainSpec
  checkUniqueChainIds [] chains
  return chains

/-! ## What an entry says

The fields of an entry are what all its `|` separate, in any number. -/

def fieldsOf (spec : List Char) : List (List Char) := spec.splitOn '|'

/-- A hexadecimal number with at most one prefix. -/
def IsHexNumeral (f : List Char) (n : Nat) : Prop :=
  IsNumeral 16 f n ∨ ∃ digits, f = '0' :: 'x' :: digits ∧ IsNumeral 16 digits n

/-- Four or five fields that spell this chain, its start height included. -/
structure Describes (fields : List (List Char)) (chain : AuxChain) : Prop where
  name : ∃ f, fields[0]? = some f ∧ f ≠ [] ∧ chain.name = normalizeChainName f chain.chain_id
  chain_id : ∃ f, fields[1]? = some f ∧ IsNumeral 10 f chain.chain_id.toNat
  electrs : ∃ f, fields[2]? = some f ∧ f ≠ [] ∧ chain.electrs = trimEndSlashes (String.ofList f)
  pow_limit : ∃ f, fields[3]? = some f ∧ IsHexNumeral f chain.pow_limit_bits.toNat
  four_or_five : fields.length = 4 ∨ fields.length = 5
  absent : fields[4]? = none → chain.start_height = none
  present : ∀ f, fields[4]? = some f → ∃ h : UInt64, IsNumeral 10 f h.toNat ∧ chain.start_height = some h

/-- A list of chains is accepted only if every entry spells its chain and no id
comes twice. -/
def FailsLoudly (raw : String) : Prop :=
  ∀ chains, parseChainSpecs raw = .ok chains →
    List.Forall₂ (fun spec chain => Describes (fieldsOf spec) chain) (chainSpecs raw) chains ∧
      (chains.map (·.chain_id)).Nodup

/-! ## The parser step by step -/

/-- The parser reads the first four fields as this chain. -/
structure HeadDescribes (fields : List (List Char)) (chain : AuxChain) : Prop where
  name : ∃ f, fields[0]? = some f ∧ f ≠ [] ∧ chain.name = normalizeChainName f chain.chain_id
  chain_id : fields[1]?.bind parseU32 = some chain.chain_id
  electrs : ∃ f, fields[2]? = some f ∧ f ≠ [] ∧ chain.electrs = trimEndSlashes (String.ofList f)
  pow_limit : fields[3]?.bind parsePowLimit = some chain.pow_limit_bits

theorem parseU32_eq_some {s : List Char} {n : UInt32} : parseU32 s = some n ↔ IsSigned 10 s n.toNat := by
  unfold parseU32
  rw [Option.map_eq_some_iff]
  simp only [parseDec_eq_some, String.toList_ofList]
  constructor
  · rintro ⟨m, ⟨hm, hlt⟩, rfl⟩
    rwa [UInt32.toNat_ofNat_of_lt' hlt]
  · exact fun h => ⟨n.toNat, ⟨h, n.toNat_lt⟩, UInt32.ofNat_toNat⟩

theorem parseU64_eq_some {s : List Char} {n : UInt64} : parseU64 s = some n ↔ IsSigned 10 s n.toNat := by
  unfold parseU64
  rw [Option.map_eq_some_iff]
  simp only [parseDec_eq_some, String.toList_ofList]
  constructor
  · rintro ⟨m, ⟨hm, hlt⟩, rfl⟩
    rwa [UInt64.toNat_ofNat_of_lt' hlt]
  · exact fun h => ⟨n.toNat, ⟨h, n.toNat_lt⟩, UInt64.ofNat_toNat⟩

theorem parsePowLimit_eq_some {s : List Char} {n : UInt32} : parsePowLimit s = some n ↔ IsPrefixed n.toNat s := by
  unfold parsePowLimit
  rw [Option.map_eq_some_iff]
  simp only [parseHex_trimStart0x]
  constructor
  · rintro ⟨m, ⟨hm, hlt⟩, rfl⟩
    rwa [UInt32.toNat_ofNat_of_lt' hlt]
  · exact fun h => ⟨n.toNat, ⟨h, n.toNat_lt⟩, UInt32.ofNat_toNat⟩

theorem checkUniqueChainIds_ok {seen : List UInt32} {chains : List AuxChain} :
    checkUniqueChainIds seen chains = .ok () ↔
      (chains.map (·.chain_id)).Nodup ∧ ∀ c ∈ chains, c.chain_id ∉ seen := by
  induction chains generalizing seen with
  | nil => simp [checkUniqueChainIds]
  | cons c chains ih =>
    rw [checkUniqueChainIds, ite_throw_eq_ok, ih, List.map_cons, List.nodup_cons, List.forall_mem_cons]
    simp only [List.mem_cons, not_or, List.mem_map, not_exists, not_and]
    constructor
    · rintro ⟨hc, hnodup, hrest⟩
      exact ⟨⟨fun d hd => (hrest d hd).1, hnodup⟩, hc, fun d hd => (hrest d hd).2⟩
    · rintro ⟨⟨hne, hnodup⟩, hc, hrest⟩
      exact ⟨hc, hnodup, fun d hd => ⟨hne d hd, hrest d hd⟩⟩

/-- The text after the fourth separator. -/
def startText (spec : List Char) : Option (List Char) := (splitn '|' 5 spec)[4]?

theorem fieldsOf_take (spec : List Char) {i : Nat} (hi : i < 4) : (splitn '|' 5 spec)[i]? = (fieldsOf spec)[i]? := by
  have htake := congrArg (·[i]?) (splitn_spec '|' 4 spec).1
  simpa [fieldsOf, List.getElem?_take, hi] using htake

theorem parseChainSpec_ok {spec : List Char} {chain : AuxChain} :
    parseChainSpec spec = .ok chain ↔
      HeadDescribes (fieldsOf spec) chain ∧ chain.start_height = (startText spec).bind parseU64 := by
  simp only [parseChainSpec, except_bind_eq_ok, elim_throw_eq_ok, fieldsOf_take spec (show 0 < 4 by decide),
    fieldsOf_take spec (show 1 < 4 by decide), fieldsOf_take spec (show 2 < 4 by decide),
    fieldsOf_take spec (show 3 < 4 by decide), pure_eq_ok_iff]
  constructor
  · rintro ⟨name, hname, idRaw, hidRaw, id, hid, electrs, helectrs, powRaw, hpowRaw, pow, hpow, rfl⟩
    obtain ⟨hname, hne⟩ := Option.filter_eq_some_iff.1 hname
    obtain ⟨helectrs, hne'⟩ := Option.filter_eq_some_iff.1 helectrs
    obtain ⟨hpowRaw, -⟩ := Option.filter_eq_some_iff.1 hpowRaw
    refine ⟨⟨⟨name, hname, by simpa using hne, rfl⟩, ?_, ⟨electrs, helectrs, by simpa using hne', rfl⟩, ?_⟩, rfl⟩
    · rw [hidRaw, Option.bind_some, hid]
    · rw [hpowRaw, Option.bind_some, hpow]
  · rintro ⟨⟨⟨name, hname, hne, hnorm⟩, hid, ⟨electrs, helectrs, hne', htrim⟩, hpow⟩, hstart⟩
    obtain ⟨idRaw, hidRaw, hid⟩ := Option.bind_eq_some_iff.1 hid
    obtain ⟨powRaw, hpowRaw, hpow⟩ := Option.bind_eq_some_iff.1 hpow
    have hpowNe : powRaw ≠ [] := by
      rintro rfl
      cases hpow
    refine ⟨name, Option.filter_eq_some_iff.2 ⟨hname, by simpa using hne⟩, idRaw, hidRaw, chain.chain_id, hid, electrs,
      Option.filter_eq_some_iff.2 ⟨helectrs, by simpa using hne'⟩, powRaw,
      Option.filter_eq_some_iff.2 ⟨hpowRaw, by simpa using hpowNe⟩, chain.pow_limit_bits, hpow, ?_⟩
    rw [← hnorm, ← htrim]
    exact congrArg (AuxChain.mk _ _ _ _) hstart.symm

/-- The fifth field is the text after the fourth separator, unless that text
has separators of its own. -/
theorem startText_spec (spec : List Char) :
    (startText spec = none ∧ (fieldsOf spec).drop 4 = []) ∨
      ∃ text, startText spec = some text ∧ (fieldsOf spec).drop 4 = text.splitOn '|' := by
  have hget : startText spec = ((splitn '|' 5 spec).drop 4)[0]? := by
    rw [List.getElem?_drop]
    rfl
  obtain ⟨hnil, hfields⟩ | ⟨text, htext, hfields⟩ := (splitn_spec '|' 4 spec).2
  · exact .inl ⟨by rw [hget, hnil]; rfl, hfields⟩
  · exact .inr ⟨text, by rw [hget, htext]; rfl, hfields⟩

theorem fifth_of_drop {fields : List (List Char)} {text : List Char} (h : fields.drop 4 = [text]) :
    fields[4]? = some text := by
  have hget := congrArg (·[0]?) h
  simpa [List.getElem?_drop] using hget

/-! ## When malformed entries fail -/

/-- What the checks of the first four fields ask for. -/
structure HeadReads (fields : List (List Char)) : Prop where
  name : ∃ f, fields[0]? = some f ∧ f ≠ []
  chain_id : ∃ f n, fields[1]? = some f ∧ IsSigned 10 f n ∧ n < 2 ^ 32
  electrs : ∃ f, fields[2]? = some f ∧ f ≠ []
  pow_limit : ∃ f n, fields[3]? = some f ∧ IsPrefixed n f ∧ n < 2 ^ 32

/-- The entry has this id. -/
def SpecId (spec : List Char) (n : Nat) : Prop := ∃ f, (fieldsOf spec)[1]? = some f ∧ IsSigned 10 f n

/-- What the checks with an error of their own ask for. -/
def PassesChecks (raw : String) : Prop :=
  (∀ spec ∈ chainSpecs raw, HeadReads (fieldsOf spec)) ∧
    (chainSpecs raw).Pairwise (fun spec spec' => ∀ n, SpecId spec n → ¬ SpecId spec' n)

/-- No sign and at most one prefix in the numbers that are checked, and in the fifth
place nothing or a decimal `u64`. -/
structure Unadorned (fields : List (List Char)) : Prop where
  chain_id : ∀ f, fields[1]? = some f → '+' ∉ f
  pow_limit : ∀ f, fields[3]? = some f → '+' ∉ f ∧ ¬ ['0', 'x', '0', 'x'] <+: f
  start : fields.drop 4 = [] ∨ ∃ f n, fields.drop 4 = [f] ∧ IsNumeral 10 f n ∧ n < 2 ^ 64

theorem HeadDescribes.reads {fields : List (List Char)} {chain : AuxChain} (h : HeadDescribes fields chain) :
    HeadReads fields := by
  obtain ⟨name, hname, hne, -⟩ := h.name
  obtain ⟨id, hid, hn⟩ := Option.bind_eq_some_iff.1 h.chain_id
  obtain ⟨electrs, helectrs, hne', -⟩ := h.electrs
  obtain ⟨pow, hpow, hlimit⟩ := Option.bind_eq_some_iff.1 h.pow_limit
  exact ⟨⟨name, hname, hne⟩, ⟨id, _, hid, parseU32_eq_some.1 hn, chain.chain_id.toNat_lt⟩, ⟨electrs, helectrs, hne'⟩,
    ⟨pow, _, hpow, parsePowLimit_eq_some.1 hlimit, chain.pow_limit_bits.toNat_lt⟩⟩

/-- A well-formed head is a chain, whatever its start height. -/
theorem HeadReads.describes {fields : List (List Char)} (h : HeadReads fields) (start : Option UInt64) :
    ∃ chain, HeadDescribes fields chain ∧ chain.start_height = start := by
  obtain ⟨name, hname, hne⟩ := h.name
  obtain ⟨id, n, hid, hn, hlt⟩ := h.chain_id
  obtain ⟨electrs, helectrs, hne'⟩ := h.electrs
  obtain ⟨pow, limit, hpow, hlimit, hlt'⟩ := h.pow_limit
  have hn : parseU32 id = some (UInt32.ofNat n) := parseU32_eq_some.2 (by rwa [UInt32.toNat_ofNat_of_lt' hlt])
  have hlimit : parsePowLimit pow = some (UInt32.ofNat limit) :=
    parsePowLimit_eq_some.2 (by rwa [UInt32.toNat_ofNat_of_lt' hlt'])
  refine ⟨⟨UInt32.ofNat n, normalizeChainName name (UInt32.ofNat n), trimEndSlashes (String.ofList electrs),
    UInt32.ofNat limit, start⟩, ⟨⟨name, hname, hne, rfl⟩, ?_, ⟨electrs, helectrs, hne', rfl⟩, ?_⟩, rfl⟩
  · rw [hid, Option.bind_some, hn]
  · rw [hpow, Option.bind_some, hlimit]

theorem parseChainSpecs_ok {raw : String} {chains : List AuxChain} :
    parseChainSpecs raw = .ok chains ↔
      List.Forall₂ (fun spec chain => parseChainSpec spec = .ok chain) (chainSpecs raw) chains ∧
        (chains.map (·.chain_id)).Nodup := by
  simp only [parseChainSpecs, except_bind_eq_ok, pure_eq_ok_iff, mapM_eq_ok_iff]
  constructor
  · rintro ⟨cs, hcs, ⟨⟩, hunique, rfl⟩
    exact ⟨hcs, (checkUniqueChainIds_ok.1 hunique).1⟩
  · rintro ⟨hcs, hnodup⟩
    exact ⟨chains, hcs, (), checkUniqueChainIds_ok.2 ⟨hnodup, fun _ _ => List.not_mem_nil⟩, rfl⟩

example : parseChainSpecs "JKC|8224|https://junk|0x1e0fffff|1095300, DINGO|50|https://dingo/|1E0FFFFF" =
    .ok [⟨8224, "JKC", "https://junk", 0x1e0fffff, some 1095300⟩,
      ⟨50, "DINGO", "https://dingo", 0x1e0fffff, none⟩] := by decide +kernel

/-- The id a chain was read with is the only one of its entry. -/
theorem HeadDescribes.specId {spec : List Char} {chain : AuxChain} (h : HeadDescribes (fieldsOf spec) chain) {n : Nat} :
    SpecId spec n ↔ n = chain.chain_id.toNat := by
  obtain ⟨id, hid, hn⟩ := Option.bind_eq_some_iff.1 h.chain_id
  have hread := parseU32_eq_some.1 hn
  constructor
  · rintro ⟨f, hf, hsigned⟩
    rw [hid] at hf
    cases hf
    exact hsigned.unique hread
  · rintro rfl
    exact ⟨id, hid, hread⟩

/-- Entries have different ids when their chains do. -/
theorem pairwise_ids {specs : List (List Char)} {chains : List AuxChain}
    (h : List.Forall₂ (fun spec chain => HeadDescribes (fieldsOf spec) chain) specs chains) :
    specs.Pairwise (fun spec spec' => ∀ n, SpecId spec n → ¬ SpecId spec' n) ↔ (chains.map (·.chain_id)).Nodup := by
  induction h with
  | nil => simp
  | @cons spec chain specs chains hhead hrest ih =>
    rw [List.pairwise_cons, List.map_cons, List.nodup_cons, ih]
    refine and_congr_left' ?_
    simp only [hhead.specId, forall_eq]
    clear ih
    induction hrest with
    | nil => simp
    | cons hnext _ ih =>
      rw [List.forall_mem_cons, ih, List.map_cons, List.mem_cons, not_or, hnext.specId, UInt32.toNat_inj]

/-- The checks are the only way to an error. -/
theorem passesChecks_iff (raw : String) : PassesChecks raw ↔ ∃ chains, parseChainSpecs raw = .ok chains := by
  constructor
  · rintro ⟨hreads, hids⟩
    have hex : ∀ spec ∈ chainSpecs raw, ∃ chain, parseChainSpec spec = .ok chain := by
      intro spec hspec
      obtain ⟨chain, hdesc, hstart⟩ := (hreads spec hspec).describes ((startText spec).bind parseU64)
      exact ⟨chain, parseChainSpec_ok.2 ⟨hdesc, hstart⟩⟩
    obtain ⟨chains, hchains⟩ := exists_forall₂ hex
    have hdesc := hchains.imp (fun _ _ h => (parseChainSpec_ok.1 h).1)
    exact ⟨chains, parseChainSpecs_ok.2 ⟨hchains, (pairwise_ids hdesc).1 hids⟩⟩
  · rintro ⟨chains, hok⟩
    obtain ⟨hchains, hnodup⟩ := parseChainSpecs_ok.1 hok
    have hdesc := hchains.imp (fun _ _ h => (parseChainSpec_ok.1 h).1)
    exact ⟨((List.forall₂_and_left _ _).1 (hdesc.imp fun _ _ h => ⟨h.reads, h⟩)).1, (pairwise_ids hdesc).2 hnodup⟩

theorem IsHexNumeral.unadorned {f : List Char} {n : Nat} (h : IsHexNumeral f n) :
    '+' ∉ f ∧ ¬ ['0', 'x', '0', 'x'] <+: f := by
  rcases h with hf | ⟨digits, rfl, hdigits⟩
  · refine ⟨hf.plus_notMem (by decide), fun hpre => hf.x_notMem (hpre.subset ?_)⟩
    decide
  · refine ⟨?_, fun hpre => hdigits.x_notMem ?_⟩
    · simpa using hdigits.plus_notMem (by decide)
    · obtain ⟨rest, hrest⟩ := hpre
      cases hrest
      simp

theorem isHexNumeral_of_prefixed {f : List Char} {n : Nat} (h : IsPrefixed n f) (hplus : '+' ∉ f)
    (hpre : ¬ ['0', 'x', '0', 'x'] <+: f) : IsHexNumeral f n := by
  cases h with
  | bare hf => exact .inl (hf.numeral hplus)
  | @prefixed s hs =>
    cases hs with
    | bare hs => exact .inr ⟨s, rfl, hs.numeral (fun h => hplus (by simp [h]))⟩
    | prefixed => exact absurd ⟨_, rfl⟩ hpre

theorem Describes.unadorned {fields : List (List Char)} {chain : AuxChain} (h : Describes fields chain) :
    Unadorned fields := by
  refine ⟨fun f hf => ?_, fun f hf => ?_, ?_⟩
  · obtain ⟨f', hf', hnum⟩ := h.chain_id
    rw [hf] at hf'
    cases hf'
    exact hnum.plus_notMem (by decide)
  · obtain ⟨f', hf', hnum⟩ := h.pow_limit
    rw [hf] at hf'
    cases hf'
    exact hnum.unadorned
  · rcases h.four_or_five with hlen | hlen
    · exact .inl (List.drop_eq_nil_iff.2 (by omega))
    · have hone : (fields.drop 4).length = 1 := by
        rw [List.length_drop]
        omega
      obtain ⟨f, hf⟩ := List.length_eq_one_iff.1 hone
      obtain ⟨start, hnum, -⟩ := h.present f (fifth_of_drop hf)
      exact .inr ⟨f, _, hf, hnum, start.toNat_lt⟩

/-- The start height that is read is the one in the fifth field. -/
theorem Unadorned.startText {spec : List Char} (h : Unadorned (fieldsOf spec)) :
    PsobIndexer.startText spec = (fieldsOf spec)[4]? := by
  obtain ⟨hnone, hdrop⟩ | ⟨text, htext, hdrop⟩ := startText_spec spec
  · rw [hnone, List.getElem?_eq_none (List.drop_eq_nil_iff.1 hdrop)]
  · rcases h.start with hnil | ⟨f, -, hf, -⟩
    · rw [hnil] at hdrop
      exact absurd hdrop.symm (List.splitOn_ne_nil '|' text)
    · rw [hf] at hdrop
      obtain ⟨-, rfl⟩ := splitOn_eq_singleton_iff.1 hdrop.symm
      rw [htext, fifth_of_drop hf]

/-- Without ornaments an entry spells the chain it is read as. -/
theorem describes_of_unadorned {spec : List Char} {chain : AuxChain} (h : parseChainSpec spec = .ok chain)
    (hplain : Unadorned (fieldsOf spec)) : Describes (fieldsOf spec) chain := by
  obtain ⟨hhead, hstart⟩ := parseChainSpec_ok.1 h
  rw [hplain.startText] at hstart
  obtain ⟨id, hid, hn⟩ := Option.bind_eq_some_iff.1 hhead.chain_id
  obtain ⟨pow, hpow, hlimit⟩ := Option.bind_eq_some_iff.1 hhead.pow_limit
  obtain ⟨hplus, hprefix⟩ := hplain.pow_limit pow hpow
  have hfour : 3 < (fieldsOf spec).length := (List.getElem?_eq_some_iff.1 hpow).1
  refine ⟨hhead.name, ⟨id, hid, (parseU32_eq_some.1 hn).numeral (hplain.chain_id id hid)⟩, hhead.electrs,
    ⟨pow, hpow, isHexNumeral_of_prefixed (parsePowLimit_eq_some.1 hlimit) hplus hprefix⟩, ?_, fun hnone => ?_, fun f hf => ?_⟩
  · rcases hplain.start with hnil | ⟨f, -, hf, -⟩
    · have := List.drop_eq_nil_iff.1 hnil
      omega
    · have := congrArg List.length hf
      rw [List.length_drop, List.length_singleton] at this
      omega
  · rw [hstart, hnone]
    rfl
  · rcases hplain.start with hnil | ⟨f', n, hf', hnum, hlt⟩
    · rw [List.getElem?_eq_none (List.drop_eq_nil_iff.1 hnil)] at hf
      cases hf
    · rw [fifth_of_drop hf'] at hf
      cases hf
      have hn : (UInt64.ofNat n).toNat = n := UInt64.toNat_ofNat_of_lt' hlt
      refine ⟨UInt64.ofNat n, by rwa [hn], ?_⟩
      rw [hstart, fifth_of_drop hf', Option.bind_some, parseU64_eq_some, hn]
      exact .inl hnum

/-- Malformed entries fail loudly if and only if the checks refuse the list or
no entry has an ornament or a start height that is no number. -/
theorem failsLoudly_iff (raw : String) :
    FailsLoudly raw ↔ (PassesChecks raw → ∀ spec ∈ chainSpecs raw, Unadorned (fieldsOf spec)) := by
  constructor
  · intro hloud hchecked
    obtain ⟨chains, hok⟩ := (passesChecks_iff raw).1 hchecked
    have hdesc := (hloud chains hok).1
    exact ((List.forall₂_and_left _ _).1 (hdesc.imp fun _ _ h => ⟨h.unadorned, h⟩)).1
  · intro hplain chains hok
    obtain ⟨hchains, hnodup⟩ := parseChainSpecs_ok.1 hok
    have hall := hplain ((passesChecks_iff raw).2 ⟨chains, hok⟩)
    exact ⟨((List.forall₂_and_left _ _).2 ⟨hall, hchains⟩).imp fun _ _ h => describes_of_unadorned h.2 h.1, hnodup⟩

/-- A start height that is no number is dropped without a word, and a second prefix
and a sign are read over. -/
theorem bad_start_height_accepted :
    ¬ FailsLoudly "JKC|8224|u|0x1e0fffff|abc" ∧ ¬ FailsLoudly "JKC|8224|u|0x0x+1e0fffff" := by
  have hparse : parseChainSpecs "JKC|8224|u|0x1e0fffff|abc" = .ok [⟨8224, "JKC", "u", 0x1e0fffff, none⟩] ∧
      parseChainSpecs "JKC|8224|u|0x0x+1e0fffff" = .ok [⟨8224, "JKC", "u", 0x1e0fffff, none⟩] := by
    decide +kernel
  have hspecs : chainSpecs "JKC|8224|u|0x1e0fffff|abc" = ["JKC|8224|u|0x1e0fffff|abc".toList] ∧
      chainSpecs "JKC|8224|u|0x0x+1e0fffff" = ["JKC|8224|u|0x0x+1e0fffff".toList] := by
    decide +kernel
  have hfields : (fieldsOf "JKC|8224|u|0x1e0fffff|abc".toList)[4]? = some "abc".toList ∧
      (fieldsOf "JKC|8224|u|0x0x+1e0fffff".toList)[3]? = some "0x0x+1e0fffff".toList := by
    decide +kernel
  refine ⟨fun h => ?_, fun h => ?_⟩
  · obtain ⟨hdesc, -⟩ := h _ hparse.1
    rw [hspecs.1, List.forall₂_cons] at hdesc
    obtain ⟨start, -, hstart⟩ := hdesc.1.present _ hfields.1
    cases hstart
  · obtain ⟨hdesc, -⟩ := h _ hparse.2
    rw [hspecs.2, List.forall₂_cons] at hdesc
    exact absurd (by decide) (hdesc.1.unadorned.pow_limit _ hfields.2).1

end PsobIndexer
