import PsobIndexer.ChainSpecs
/-!
# Loading the configuration (`src/config.rs`)

`Config::load` takes every value from the environment, else from the file, else
a default. The chains, the registry chains and the parent slug are checked; a
number that does not parse counts as unset. `env` is the environment after `.env`,
without unset variables, and `file` what the file parses to; `w` is the pointer
width. Durations are kept as the numbers they are built from.
-/
open Lib

namespace PsobIndexer

/-! ## The file -/

structure ChainEntry where
  name : String
  chain_id : UInt32
  electrs_url : String
  /-- Hex, with or without `0x`. -/
  pow_limit_bits : String
  start_height : Option UInt64

structure KnownChainEntry where
  name : String
  chain_id : UInt32
  electrs_url : String

structure ResolverFile where
  base : Option String
  api_key : Option String
  parent_chain : Option String
  fallback_base : Option String

structure RetryFile where
  max_retries : Option UInt32
  base_backoff_ms : Option UInt64
  max_backoff_ms : Option UInt64
  min_request_interval_ms : Option UInt64

structure HttpFile where
  timeout_secs : Option UInt64
  concurrency : Option Nat

structure P2pFile where
  port : Option UInt16
  bind : Option String
  bootstrap_nodes : Option String
  disable_mdns : Option Bool

/-- The TOML file; all its fields are optional. -/
structure ConfigFile where
  chains : List ChainEntry
  known_chains : List KnownChainEntry
  db_path : Option String
  resolver : ResolverFile
  max_batch : Option UInt64
  start_height : Option UInt64
  poll_interval_secs : Option UInt64
  max_kept_blocks : Option UInt64
  retry : RetryFile
  http : HttpFile
  cors_origins : Option String
  bind_addr : Option String
  auth_token : Option String
  rate_limit_per_min : Option UInt32
  p2p : P2pFile

/-! ## The configuration -/

/-- A chain of the registry that is not ingested. -/
structure KnownChain where
  chain_id : UInt32
  name : String
  electrs : String
  deriving DecidableEq

structure ResolverConfig where
  base : String
  api_key : String
  chain_slug : String
  fallback_base : Option String

/-- The three intervals in milliseconds. -/
structure RetryConfig where
  max_retries : UInt32
  base_backoff : UInt64
  max_backoff : UInt64
  min_request_interval : UInt64

/-- The timeout in seconds. -/
structure HttpConfig where
  timeout : UInt64
  concurrency : Nat

structure P2pConfig where
  p2p_port : UInt16
  p2p_bind_addr : String
  bootstrap_nodes : List String
  enable_mdns : Bool

/-- All of the source's `Config`; the ingestor's part of it is `Config`. The
poll interval is in seconds. -/
structure NodeConfig where
  chains : List AuxChain
  known_chains : List KnownChain
  db_path : String
  resolver : ResolverConfig
  max_batch : UInt64
  start_height : Option UInt64
  poll_interval : UInt64
  max_kept_blocks : Option UInt64
  retry : RetryConfig
  http : HttpConfig
  cors_origins : List String
  bind_addr : String
  p2p : P2pConfig
  auth_token : Option String
  rate_limit_per_min : Option UInt32

inductive KnownSpecError where
  | missingName (spec : List Char)
  | missingChainId (spec : List Char)
  | badChainId (spec : List Char)
  | missingElectrsUrl (spec : List Char)
  deriving DecidableEq

inductive ConfigError where
  /-- The file cannot be read or parsed. -/
  | file
  /-- `PSOB_CHAINS is not set and no config file provides [chains]`. -/
  | noChains
  | chainSpec (e : ChainSpecError)
  /-- `config file: chain {name} has bad pow_limit_bits {bits}`. -/
  | badPowLimit (name bits : String)
  /-- `PSOB_CHAINS is empty — nothing to ingest`. -/
  | emptyChains
  | knownSpec (e : KnownSpecError)
  | duplicateKnownId (id : UInt32)
  | unknownParentChain (slug : String)
  deriving DecidableEq

/-! ## The environment -/

/-- The value if it is set and not empty. -/
def envVar (env : String → Option String) (key : String) : Option String := (env key).filter (· ≠ "")

/-- The first that is set. -/
def envFirst (env : String → Option String) (names : List String) : Option String := names.findSome? (envVar env)

/-- A number; what does not parse counts as unset. -/
def envNum (env : String → Option String) (bound : Nat) (key : String) : Option Nat :=
  (envVar env key).bind (parseDec bound)

def envU64 (env : String → Option String) (key : String) : Option UInt64 := (envNum env (2 ^ 64) key).map UInt64.ofNat

def envU32 (env : String → Option String) (key : String) : Option UInt32 := (envNum env (2 ^ 32) key).map UInt32.ofNat

def envU16 (env : String → Option String) (key : String) : Option UInt16 := (envNum env (2 ^ 16) key).map UInt16.ofNat

/-- The trimmed pieces between commas that are not empty. -/
def commaList (raw : String) : List String := (chainSpecs raw).map String.ofList

/-! ## The parts -/

def KNOWN_PARENT_CHAINS : List String := ["litecoin", "bitcoin"]

/-- Trimmed and in lower case, a known slug. Only letters of ASCII lower to the
letters of a known slug. -/
def normalizeParentChain (slug : String) : Except ConfigError String :=
  let norm := String.ofList ((trim slug.toList).map Char.toLower)
  if norm ∈ KNOWN_PARENT_CHAINS then pure norm else throw (.unknownParentChain slug)

/-- One entry of `PSOB_KNOWN_CHAINS`. -/
def parseKnownChainSpec (spec : List Char) : Except KnownSpecError KnownChain := do
  let parts := splitn '|' 3 spec
  let name ← (parts[0]?.filter (· ≠ [])).elim (throw (.missingName spec)) pure
  let chain_id_raw ← parts[1]?.elim (throw (.missingChainId spec)) pure
  let chain_id ← (parseU32 chain_id_raw).elim (throw (.badChainId spec)) pure
  let electrs ← (parts[2]?.filter (· ≠ [])).elim (throw (.missingElectrsUrl spec)) pure
  return ⟨chain_id, normalizeChainName name chain_id, trimEndSlashes (String.ofList electrs)⟩

def parseKnownChainSpecs (raw : String) : Except KnownSpecError (List KnownChain) :=
  (chainSpecs raw).mapM parseKnownChainSpec

def parseFileKnownChains (entries : List KnownChainEntry) : List KnownChain :=
  entries.map (fun e => ⟨e.chain_id, normalizeChainName e.name.toList e.chain_id, trimEndSlashes e.electrs_url⟩)

def parseFileChain (e : ChainEntry) : Except ConfigError AuxChain := do
  let pow_limit_bits ← (parsePowLimit e.pow_limit_bits.toList).elim (throw (.badPowLimit e.name e.pow_limit_bits)) pure
  return {
    chain_id := e.chain_id
    name := normalizeChainName e.name.toList e.chain_id
    electrs := trimEndSlashes e.electrs_url
    pow_limit_bits
    start_height := e.start_height }

def parseFileChains (entries : List ChainEntry) : Except ConfigError (List AuxChain) := do
  let chains ← entries.mapM parseFileChain
  (checkUniqueChainIds [] chains).mapError .chainSpec
  return chains

/-- A registry chain must not shadow another chain. -/
def checkKnownChainIds (seen : List UInt32) : List KnownChain → Except ConfigError Unit
  | [] => pure ()
  | k :: known =>
    if k.chain_id ∈ seen then throw (.duplicateKnownId k.chain_id) else checkKnownChainIds (k.chain_id :: seen) known

def P2pConfig.fromParts (port : Option UInt16) (bind bootstrap_nodes disable_mdns : Option String) : P2pConfig where
  p2p_port := port.getD 9000
  p2p_bind_addr := bind.getD "0.0.0.0"
  bootstrap_nodes := commaList (bootstrap_nodes.getD "")
  enable_mdns := disable_mdns.isNone

/-- The chains to ingest: of the environment, else of the file. -/
def loadChains (env : String → Option String) (file : Option ConfigFile) : Except ConfigError (List AuxChain) :=
  match envVar env "PSOB_CHAINS", file with
  | some raw, _ => (parseChainSpecs raw).mapError .chainSpec
  | none, some f => parseFileChains f.chains
  | none, none => throw .noChains

def loadKnownChains (env : String → Option String) (file : Option ConfigFile) : Except ConfigError (List KnownChain) :=
  match envVar env "PSOB_KNOWN_CHAINS" with
  | some raw => (parseKnownChainSpecs raw).mapError .knownSpec
  | none => pure ((file.map (fun f => parseFileKnownChains f.known_chains)).getD [])

/-- The values that cannot fail, around the checked ones. -/
def assemble (w : Nat) (env : String → Option String) (file : Option ConfigFile) (chains : List AuxChain)
    (known_chains : List KnownChain) (chain_slug : String) : NodeConfig :=
  let base_backoff := ((envU64 env "PSOB_RETRY_BASE_MS").or (file.bind (·.retry.base_backoff_ms))).getD 500
  let max_backoff := ((envU64 env "PSOB_RETRY_MAX_MS").or (file.bind (·.retry.max_backoff_ms))).getD 30000
  {
    chains
    known_chains
    db_path := ((envVar env "PSOB_DB_PATH").or (file.bind (·.db_path))).getD "psob-indexer.redb"
    resolver := {
      base := ((envFirst env ["PSOB_PARENT_ELECTRS", "PSOB_CCNODES_BASE"]).or (file.bind (·.resolver.base))).getD
        "https://litecoinspace.org/api"
      api_key := ((envFirst env ["PSOB_PARENT_API_KEY", "CCNODES_API_KEY"]).or (file.bind (·.resolver.api_key))).getD ""
      chain_slug
      fallback_base := ((envFirst env ["PSOB_PARENT_ELECTRS_FALLBACK", "PSOB_CCNODES_FALLBACK_BASE"]).or
        (file.bind (·.resolver.fallback_base))).filter (· ≠ "") }
    max_batch := max (((envU64 env "PSOB_MAX_BATCH").or (file.bind (·.max_batch))).getD 64) 1
    start_height := (envU64 env "PSOB_START_HEIGHT").or (file.bind (·.start_height))
    poll_interval := max (((envU64 env "PSOB_POLL_INTERVAL_SECS").or (file.bind (·.poll_interval_secs))).getD 30) 1
    max_kept_blocks := ((envU64 env "PSOB_MAX_KEPT_BLOCKS").or (file.bind (·.max_kept_blocks))).filter (· > 0)
    retry := {
      max_retries := ((envU32 env "PSOB_MAX_RETRIES").or (file.bind (·.retry.max_retries))).getD 5
      base_backoff
      max_backoff := max max_backoff base_backoff
      min_request_interval := ((envU64 env "PSOB_RATE_LIMIT_MS").or (file.bind (·.retry.min_request_interval_ms))).getD 0 }
    http := {
      timeout := ((envU64 env "PSOB_HTTP_TIMEOUT_SECS").or (file.bind (·.http.timeout_secs))).getD 30
      concurrency := max (((envNum env (2 ^ w) "PSOB_HTTP_CONCURRENCY").or (file.bind (·.http.concurrency))).getD 8) 1 }
    cors_origins := commaList (((envVar env "PSOB_CORS_ORIGINS").or (file.bind (·.cors_origins))).getD "*")
    bind_addr := ((envVar env "PSOB_BIND_ADDR").or (file.bind (·.bind_addr))).getD
      ("0.0.0.0:" ++ (envVar env "PSOB_PORT").getD "8080")
    p2p := P2pConfig.fromParts ((envU16 env "PSOB_P2P_PORT").or (file.bind (·.p2p.port)))
      ((envVar env "PSOB_P2P_BIND").or (file.bind (·.p2p.bind)))
      ((envVar env "PSOB_BOOTSTRAP_NODES").or (file.bind (·.p2p.bootstrap_nodes)))
      ((envVar env "PSOB_DISABLE_MDNS").or ((file.bind (·.p2p.disable_mdns)).map toString))
    auth_token := ((envVar env "PSOB_AUTH_TOKEN").or (file.bind (·.auth_token))).filter (· ≠ "")
    rate_limit_per_min := ((envU32 env "PSOB_RATE_LIMIT_PER_MIN").or (file.bind (·.rate_limit_per_min))).filter (· > 0) }

/-- `Config::load`. -/
def loadConfig (w : Nat) (env : String → Option String) (file : Except ConfigError (Option ConfigFile)) :
    Except ConfigError NodeConfig := do
  let file ← file
  let chains ← loadChains env file
  if chains = [] then throw .emptyChains
  else
    let known_chains ← loadKnownChains env file
    checkKnownChainIds (chains.map (·.chain_id)) known_chains
    let parent_chain ← normalizeParentChain
      (((envVar env "PSOB_PARENT_CHAIN").or (file.bind (·.resolver.parent_chain))).getD "litecoin")
    return assemble w env file chains known_chains parent_chain

/-! ## What a loaded configuration is like -/

/-- A piece of a comma list. -/
def ListItem (item : String) : Prop := item ≠ "" ∧ ',' ∉ item.toList ∧ trim item.toList = item.toList

/-- What the rest of the program may rely on. -/
structure NodeConfig.Valid (c : NodeConfig) : Prop where
  chains : c.chains ≠ []
  unique : (c.chains.map (·.chain_id) ++ c.known_chains.map (·.chain_id)).Nodup
  named : (∀ chain ∈ c.chains, chain.name ≠ "") ∧ ∀ chain ∈ c.known_chains, chain.name ≠ ""
  urls : (∀ chain ∈ c.chains, trimEndSlashes chain.electrs = chain.electrs) ∧
    ∀ chain ∈ c.known_chains, trimEndSlashes chain.electrs = chain.electrs
  slug : c.resolver.chain_slug ∈ KNOWN_PARENT_CHAINS
  fallback : ∀ base ∈ c.resolver.fallback_base, base ≠ ""
  batch : 1 ≤ c.max_batch
  poll : 1 ≤ c.poll_interval
  kept : ∀ n ∈ c.max_kept_blocks, 0 < n
  backoff : c.retry.base_backoff ≤ c.retry.max_backoff
  concurrency : 1 ≤ c.http.concurrency
  origins : ∀ origin ∈ c.cors_origins, ListItem origin
  bootstrap : ∀ node ∈ c.p2p.bootstrap_nodes, ListItem node
  token : ∀ token ∈ c.auth_token, token ≠ ""
  rate_limit : ∀ n ∈ c.rate_limit_per_min, 0 < n

theorem listItem_commaList (raw : String) : ∀ item ∈ commaList raw, ListItem item := by
  intro item hitem
  obtain ⟨spec, hspec, rfl⟩ := List.mem_map.1 hitem
  obtain ⟨hmem, hne⟩ := List.mem_filter.1 hspec
  obtain ⟨piece, hpiece, rfl⟩ := List.mem_map.1 hmem
  refine ⟨?_, ?_, ?_⟩
  · intro hempty
    have hnil := congrArg String.toList hempty
    rw [String.toList_ofList] at hnil
    simp only [ne_eq, decide_not, Bool.not_eq_true', decide_eq_false_iff_not] at hne
    exact hne hnil
  · rw [String.toList_ofList]
    exact fun hcomma => not_mem_of_mem_splitOn hpiece (mem_of_mem_trim hcomma)
  · rw [String.toList_ofList]
    exact trim_trim piece

theorem trimEndSlashes_idem (s : String) : trimEndSlashes (trimEndSlashes s) = trimEndSlashes s := by
  unfold trimEndSlashes
  rw [String.toList_ofList, List.reverse_reverse, List.dropWhile_idempotent]

theorem normalizeChainName_ne (name : List Char) (chain_id : UInt32) : normalizeChainName name chain_id ≠ "" := by
  intro h
  have hnil := congrArg String.toList h
  unfold normalizeChainName at hnil
  simp only at hnil
  split_ifs at hnil with htrim
  · rw [String.toList_append] at hnil
    exact absurd (List.append_eq_nil_iff.1 hnil).1 (by decide)
  · rw [String.toList_ofList] at hnil
    exact htrim hnil

theorem checkKnownChainIds_ok {seen : List UInt32} {known : List KnownChain} :
    checkKnownChainIds seen known = .ok () ↔ (known.map (·.chain_id)).Nodup ∧ ∀ k ∈ known, k.chain_id ∉ seen := by
  induction known generalizing seen with
  | nil => simp [checkKnownChainIds]
  | cons k known ih =>
    rw [checkKnownChainIds, ite_throw_eq_ok, ih, List.map_cons, List.nodup_cons, List.forall_mem_cons]
    simp only [List.mem_cons, not_or, List.mem_map, not_exists, not_and]
    constructor
    · rintro ⟨hk, hnodup, hrest⟩
      exact ⟨⟨fun d hd => (hrest d hd).1, hnodup⟩, hk, fun d hd => (hrest d hd).2⟩
    · rintro ⟨⟨hne, hnodup⟩, hk, hrest⟩
      exact ⟨hk, hnodup, fun d hd => ⟨hne d hd, hrest d hd⟩⟩

/-- The steps that can fail, and the values around what they read. -/
theorem loadConfig_ok {w : Nat} {env : String → Option String} {file : Except ConfigError (Option ConfigFile)}
    {c : NodeConfig} :
    loadConfig w env file = .ok c ↔ ∃ f chains known slug, file = .ok f ∧ loadChains env f = .ok chains ∧ chains ≠ [] ∧
      loadKnownChains env f = .ok known ∧ checkKnownChainIds (chains.map (·.chain_id)) known = .ok () ∧
      normalizeParentChain (((envVar env "PSOB_PARENT_CHAIN").or (f.bind (·.resolver.parent_chain))).getD "litecoin") =
        .ok slug ∧
      c = assemble w env f chains known slug := by
  simp only [loadConfig, except_bind_eq_ok, ite_throw_eq_ok, pure_eq_ok_iff]
  constructor
  · rintro ⟨f, hf, chains, hchains, hne, known, hknown, ⟨⟩, hcheck, slug, hslug, rfl⟩
    exact ⟨f, chains, known, slug, hf, hchains, hne, hknown, hcheck, hslug, rfl⟩
  · rintro ⟨f, chains, known, slug, hf, hchains, hne, hknown, hcheck, hslug, rfl⟩
    exact ⟨f, hf, chains, hchains, hne, known, hknown, (), hcheck, slug, hslug, rfl⟩

/-- Where the chains come from, names and urls are normalized and the ids checked. -/
theorem loadChains_ok {env : String → Option String} {file : Option ConfigFile} {chains : List AuxChain}
    (h : loadChains env file = .ok chains) : (chains.map (·.chain_id)).Nodup ∧
      ∀ chain ∈ chains, chain.name ≠ "" ∧ trimEndSlashes chain.electrs = chain.electrs := by
  unfold loadChains at h
  split at h
  · obtain ⟨hspecs, hnodup⟩ := parseChainSpecs_ok.1 (mapError_eq_ok.1 h)
    refine ⟨hnodup, ((List.forall₂_and_left _ _).1 (hspecs.flip.imp fun chain spec hspec => ⟨?_, hspec⟩)).1⟩
    obtain ⟨⟨⟨name, -, -, hname⟩, -, ⟨electrs, -, -, helectrs⟩, -⟩, -⟩ := parseChainSpec_ok.1 hspec
    exact ⟨hname ▸ normalizeChainName_ne name _, by rw [helectrs, trimEndSlashes_idem]⟩
  · obtain ⟨cs, hentries, ⟨⟩, hunique, hcs⟩ : ∃ cs, _ ∧ ∃ _ : Unit, _ ∧ cs = chains := by
      simpa only [parseFileChains, except_bind_eq_ok, mapM_eq_ok_iff, mapError_eq_ok, pure_eq_ok_iff] using h
    subst hcs
    refine ⟨(checkUniqueChainIds_ok.1 hunique).1,
      ((List.forall₂_and_left _ _).1 (hentries.flip.imp fun chain e he => ⟨?_, he⟩)).1⟩
    obtain ⟨pow, -, rfl⟩ : ∃ pow, _ ∧ _ = chain := by
      simpa only [parseFileChain, except_bind_eq_ok, elim_throw_eq_ok, pure_eq_ok_iff] using he
    exact ⟨normalizeChainName_ne _ _, trimEndSlashes_idem _⟩
  · cases h

theorem loadKnownChains_ok {env : String → Option String} {file : Option ConfigFile} {known : List KnownChain}
    (h : loadKnownChains env file = .ok known) :
    ∀ chain ∈ known, chain.name ≠ "" ∧ trimEndSlashes chain.electrs = chain.electrs := by
  unfold loadKnownChains at h
  split at h
  · have hspecs := mapM_eq_ok_iff.1 (mapError_eq_ok.1 h)
    refine ((List.forall₂_and_left _ _).1 (hspecs.flip.imp fun chain spec hspec => ⟨?_, hspec⟩)).1
    obtain ⟨name, -, -, -, id, -, electrs, -, rfl⟩ : ∃ name, _ ∧ ∃ raw, _ ∧ ∃ id, _ ∧ ∃ electrs, _ ∧ _ = chain := by
      simpa only [parseKnownChainSpec, except_bind_eq_ok, elim_throw_eq_ok, pure_eq_ok_iff] using hspec
    exact ⟨normalizeChainName_ne _ _, trimEndSlashes_idem _⟩
  · rw [pure_eq_ok_iff] at h
    subst h
    cases file with
    | none => exact fun chain hchain => by simp at hchain
    | some f =>
      intro chain hchain
      obtain ⟨e, -, rfl⟩ := List.mem_map.1 hchain
      exact ⟨normalizeChainName_ne _ _, trimEndSlashes_idem _⟩

theorem normalizeParentChain_ok {slug norm : String} (h : normalizeParentChain slug = .ok norm) :
    norm ∈ KNOWN_PARENT_CHAINS := by
  unfold normalizeParentChain at h
  simp only at h
  split_ifs at h with hmem
  cases h
  exact hmem

/-- A configuration that loads is valid, whatever the environment and the file
say, and is one the ingestor can run with. -/
theorem loaded_config_valid (w : Nat) (env : String → Option String) (file : Except ConfigError (Option ConfigFile))
    (c : NodeConfig) (h : loadConfig w env file = .ok c) :
    c.Valid ∧ ∃ config : Config, config.chains = c.chains ∧ config.max_batch = c.max_batch ∧
      config.start_height = c.start_height ∧ config.max_kept_blocks = c.max_kept_blocks := by
  obtain ⟨f, chains, known, slug, -, hchains, hne, hknown, hcheck, hslug, rfl⟩ := loadConfig_ok.1 h
  obtain ⟨hnodup, hnorm⟩ := loadChains_ok hchains
  have hnorm' := loadKnownChains_ok hknown
  obtain ⟨hnodup', hdisjoint⟩ := checkKnownChainIds_ok.1 hcheck
  have hpos : ∀ o : Option UInt64, ∀ n ∈ o.filter (· > 0), 0 < n := by
    intro o n hn
    simpa using (Option.filter_eq_some_iff.1 hn).2
  have hpos' : ∀ o : Option UInt32, ∀ n ∈ o.filter (· > 0), 0 < n := by
    intro o n hn
    simpa using (Option.filter_eq_some_iff.1 hn).2
  have hset : ∀ o : Option String, ∀ s ∈ o.filter (· ≠ ""), s ≠ "" := by
    intro o s hs
    simpa using (Option.filter_eq_some_iff.1 hs).2
  refine ⟨?_, ⟨chains, (assemble w env f chains known slug).max_batch, (assemble w env f chains known slug).start_height,
    (assemble w env f chains known slug).max_kept_blocks, hnodup, le_max_right _ _⟩, rfl, rfl, rfl, rfl⟩
  constructor
  · exact hne
  · refine List.nodup_append.2 ⟨hnodup, hnodup', fun id hid id' hid' heq => ?_⟩
    obtain ⟨k, hk, rfl⟩ := List.mem_map.1 hid'
    exact hdisjoint k hk (heq ▸ hid)
  · exact ⟨fun chain hchain => (hnorm chain hchain).1, fun chain hchain => (hnorm' chain hchain).1⟩
  · exact ⟨fun chain hchain => (hnorm chain hchain).2, fun chain hchain => (hnorm' chain hchain).2⟩
  · exact normalizeParentChain_ok hslug
  · exact hset _
  · exact le_max_right _ _
  · exact le_max_right _ _
  · exact hpos _
  · exact le_max_right _ _
  · exact le_max_right _ _
  · exact listItem_commaList _
  · exact listItem_commaList _
  · exact hset _
  · exact hpos' _

/-! ## The chain table in the environment

`[chains]` and `PSOB_CHAINS` describe chains in the same way. -/

/-- The entry as `PSOB_CHAINS` spells it. -/
def ChainEntry.spell (e : ChainEntry) : List (List Char) :=
  [e.name.toList, (toString e.chain_id).toList, e.electrs_url.toList, e.pow_limit_bits.toList] ++
    (e.start_height.map (fun h => (toString h).toList)).toList

def spellChains (entries : List ChainEntry) : String :=
  String.ofList ([','].intercalate (entries.map (fun e => ['|'].intercalate e.spell)))

/-- Neither a space nor a separator. -/
def Plain (c : Char) : Prop := isWhitespace c = false ∧ c ≠ ',' ∧ c ≠ '|'

/-- An entry that can be spelled: a name and a URL, both without separators, and
bits, readable or not, without spaces either. -/
structure ChainEntry.Spellable (e : ChainEntry) : Prop where
  name : trim e.name.toList ≠ []
  url : e.electrs_url ≠ ""
  plain : ∀ c ∈ e.name.toList ++ e.electrs_url.toList, c ≠ ',' ∧ c ≠ '|'
  bits : ∀ c ∈ e.pow_limit_bits.toList, Plain c

theorem plain_of_isDigit {c : Char} (h : c.isDigit) : Plain c := by
  refine ⟨isWhitespace_of_isDigit h, ?_, ?_⟩ <;> rintro rfl <;> exact absurd h (by decide)

theorem plain_toString (n : Nat) : ∀ c ∈ (toString n).toList, Plain c := by
  intro c hc
  rw [Nat.toString_eq_repr, Nat.toList_repr] at hc
  exact plain_of_isDigit (Nat.isDigit_of_mem_toDigits (by decide) (by decide) hc)

theorem toString_ne_nil (n : Nat) : (toString n).toList ≠ [] := by
  rw [Nat.toString_eq_repr, Nat.toList_repr]
  exact Nat.toDigits_ne_nil

theorem mem_intercalate {c x : Char} {ls : List (List Char)} (h : c ∈ [x].intercalate ls) : c = x ∨ ∃ l ∈ ls, c ∈ l := by
  match ls with
  | [] => simp at h
  | [l] => exact .inr ⟨l, List.mem_singleton_self l, by simpa using h⟩
  | l :: l' :: ls =>
    rw [List.intercalate_cons_cons, List.append_assoc, List.mem_append] at h
    rcases h with h | h
    · exact .inr ⟨l, List.mem_cons_self, h⟩
    · rcases List.mem_append.1 h with h | h
      · exact .inl (List.mem_singleton.1 h)
      · rcases mem_intercalate h with h | ⟨m, hm, h⟩
        · exact .inl h
        · exact .inr ⟨m, List.mem_cons_of_mem _ hm, h⟩

namespace ChainEntry

/-- The fields after the name. -/
def rest (e : ChainEntry) : List (List Char) := e.spell.tail

theorem Spellable.plain_rest {e : ChainEntry} (h : e.Spellable) : ∀ f ∈ e.rest, ',' ∉ f ∧ '|' ∉ f := by
  have hplain : ∀ f : List Char, (∀ c ∈ f, Plain c) → ',' ∉ f ∧ '|' ∉ f := fun f hf =>
    ⟨fun hc => (hf _ hc).2.1 rfl, fun hc => (hf _ hc).2.2 rfl⟩
  intro f hf
  simp only [rest, spell, List.cons_append, List.tail_cons, List.mem_cons, List.nil_append, Option.mem_toList,
    Option.map_eq_some_iff] at hf
  rcases hf with rfl | rfl | rfl | ⟨height, -, rfl⟩
  · exact hplain _ (plain_toString e.chain_id.toNat)
  · exact ⟨fun hc => (h.plain _ (List.mem_append_right _ hc)).1 rfl, fun hc => (h.plain _ (List.mem_append_right _ hc)).2 rfl⟩
  · exact hplain _ h.bits
  · exact hplain _ (plain_toString height.toNat)

/-- A spelled entry ends in a character that is no space. -/
theorem Spellable.ends {e : ChainEntry} (h : e.Spellable) :
    ∃ t d, ['|'].intercalate e.spell = e.name.toList ++ (t ++ [d]) ∧ isWhitespace d = false := by
  have hends : ∀ u v : List Char, v ≠ [] → (∀ c ∈ v, isWhitespace c = false) →
      ∃ t d, u ++ v = t ++ [d] ∧ isWhitespace d = false := by
    intro u v hv hblank
    exact ⟨u ++ v.dropLast, v.getLast hv, by rw [List.append_assoc, List.dropLast_append_getLast],
      hblank _ (List.getLast_mem hv)⟩
  unfold spell
  cases e.start_height with
  | none =>
    -- without bits the entry ends in a bar
    obtain ⟨t, d, htd, hd⟩ := hends ('|' :: ((toString e.chain_id).toList ++ '|' :: e.electrs_url.toList))
      ('|' :: e.pow_limit_bits.toList) (List.cons_ne_nil _ _)
      (List.forall_mem_cons.2 ⟨by decide, fun c hc => (h.bits c hc).1⟩)
    refine ⟨t, d, ?_, hd⟩
    rw [← htd]
    simp [List.intercalate, List.intersperse]
  | some height =>
    obtain ⟨t, d, htd, hd⟩ := hends
      ('|' :: ((toString e.chain_id).toList ++ '|' :: (e.electrs_url.toList ++ '|' :: (e.pow_limit_bits.toList ++ ['|']))))
      (toString height).toList (toString_ne_nil height.toNat) (fun c hc => (plain_toString height.toNat c hc).1)
    refine ⟨t, d, ?_, hd⟩
    rw [← htd]
    simp [List.intercalate, List.intersperse]

/-- The fields of a spelled entry, once it is trimmed: only the name can lose spaces. -/
theorem Spellable.fields {e : ChainEntry} (h : e.Spellable) :
    fieldsOf (trim (['|'].intercalate e.spell)) = e.name.toList.dropWhile isWhitespace :: e.rest ∧
      ',' ∉ ['|'].intercalate e.spell ∧ trim (['|'].intercalate e.spell) ≠ [] := by
  obtain ⟨f, fs, hrest⟩ : ∃ f fs, e.rest = f :: fs := ⟨_, _, rfl⟩
  have hsplit : ∀ name : List Char, ['|'].intercalate (name :: e.rest) = name ++ ('|' :: ['|'].intercalate e.rest) := by
    intro name
    rw [hrest, List.intercalate_cons_cons, List.append_assoc]
    rfl
  obtain ⟨t, d, hends, hd⟩ := h.ends
  have hspell : ['|'].intercalate e.spell = e.name.toList ++ ('|' :: ['|'].intercalate e.rest) := hsplit _
  have htail : t ++ [d] = '|' :: ['|'].intercalate e.rest := List.append_cancel_left (hends.symm.trans hspell)
  have htrim : trim (['|'].intercalate e.spell) =
      ['|'].intercalate (e.name.toList.dropWhile isWhitespace :: e.rest) := by
    rw [hends, trim_append h.name hd, htail, hsplit]
  refine ⟨?_, ?_, ?_⟩
  · rw [htrim]
    refine List.splitOn_intercalate '|' (fun l hl => ?_) (List.cons_ne_nil _ _)
    rcases List.mem_cons.1 hl with rfl | hl
    · exact fun hc => (h.plain _ (List.mem_append_left _ (List.dropWhile_subset _ hc))).2 rfl
    · exact (h.plain_rest l hl).2
  · intro hc
    rcases mem_intercalate hc with hc | ⟨l, hl, hc⟩
    · exact absurd hc (by decide)
    · rcases List.mem_cons.1 hl with rfl | hl
      · exact (h.plain _ (List.mem_append_left _ hc)).1 rfl
      · exact (h.plain_rest l hl).1 hc
  · rw [htrim, hsplit]
    exact List.append_ne_nil_of_right_ne_nil _ (List.cons_ne_nil _ _)

theorem Spellable.parse_iff {e : ChainEntry} (h : e.Spellable) (chain : AuxChain) :
    parseChainSpec (trim (['|'].intercalate e.spell)) = .ok chain ↔ parseFileChain e = .ok chain := by
  obtain ⟨hfields, -, -⟩ := h.fields
  have hname : e.name.toList.dropWhile isWhitespace ≠ [] := by
    intro hnil
    apply h.name
    rw [trim, hnil]
    rfl
  have hid : parseU32 (toString e.chain_id).toList = some e.chain_id := by
    have hparse : parseDec (2 ^ 32) (toString e.chain_id.toNat) = some e.chain_id.toNat := parseDec_repr e.chain_id.toNat_lt
    have hstring : String.ofList (toString e.chain_id).toList = toString e.chain_id.toNat := String.ofList_toList
    rw [parseU32, hstring, hparse, Option.map_some, UInt32.ofNat_toNat]
  have hstart : (startText (trim (['|'].intercalate e.spell))).bind parseU64 = e.start_height := by
    have hdrop : (e.name.toList.dropWhile isWhitespace :: e.rest).drop 4 =
        (e.start_height.map (fun h => (toString h).toList)).toList := rfl
    obtain ⟨htext, hnil⟩ | ⟨text, htext, hsplit⟩ := startText_spec (trim (['|'].intercalate e.spell))
    · rw [hfields, hdrop] at hnil
      cases hs : e.start_height with
      | none =>
        rw [htext]
        rfl
      | some height => simp [hs] at hnil
    · rw [hfields, hdrop] at hsplit
      cases hs : e.start_height with
      | none =>
        rw [hs] at hsplit
        exact absurd hsplit.symm (List.splitOn_ne_nil _ _)
      | some height =>
        rw [hs] at hsplit
        obtain ⟨-, rfl⟩ := splitOn_eq_singleton_iff.1 hsplit.symm
        have hparse : parseDec (2 ^ 64) (toString height.toNat) = some height.toNat := parseDec_repr height.toNat_lt
        have hstring : String.ofList (toString height).toList = toString height.toNat := String.ofList_toList
        rw [htext, Option.bind_some, parseU64, hstring, hparse, Option.map_some, UInt64.ofNat_toNat]
  have hnorm : ∀ id, normalizeChainName (e.name.toList.dropWhile isWhitespace) id = normalizeChainName e.name.toList id := by
    intro id
    rw [normalizeChainName, normalizeChainName, trim_dropWhile]
  rw [parseChainSpec_ok, hfields, hstart]
  simp only [parseFileChain, except_bind_eq_ok, elim_throw_eq_ok, pure_eq_ok_iff]
  constructor
  · obtain ⟨id, name, electrs, pow, start⟩ := chain
    rintro ⟨⟨⟨f, hf, -, hn⟩, hid', ⟨g, hg, -, hu⟩, hpow⟩, hs⟩
    cases hf
    cases hg
    cases hid.symm.trans hid'
    refine ⟨pow, hpow, ?_⟩
    simp only [hnorm, String.ofList_toList] at hn hu hs
    rw [hn, hu, hs]
  · rintro ⟨pow, hpow, rfl⟩
    refine ⟨⟨⟨_, rfl, hname, (hnorm _).symm⟩, hid, ⟨_, rfl, ?_, by rw [String.ofList_toList]⟩, hpow⟩, rfl⟩
    intro hnil
    exact h.url (String.toList_eq_nil_iff.1 hnil)

end ChainEntry

theorem chainSpecs_spellChains {entries : List ChainEntry} (h : ∀ e ∈ entries, e.Spellable) :
    chainSpecs (spellChains entries) = entries.map (fun e => trim (['|'].intercalate e.spell)) := by
  unfold chainSpecs spellChains
  rw [String.toList_ofList]
  rcases eq_or_ne entries [] with rfl | hne
  · rfl
  · rw [List.splitOn_intercalate ',' (fun l hl => ?_) (by simpa using hne), List.map_map, List.filter_eq_self.2]
    · rfl
    · intro spec hspec
      obtain ⟨e, he, rfl⟩ := List.mem_map.1 hspec
      simpa using (h e he).fields.2.2
    · obtain ⟨e, he, rfl⟩ := List.mem_map.1 hl
      exact (h e he).fields.2.1

/-- A table of the file and its spelling give the same chains. -/
theorem parse_spellChains {entries : List ChainEntry} (h : ∀ e ∈ entries, e.Spellable) (chains : List AuxChain) :
    parseChainSpecs (spellChains entries) = .ok chains ↔ parseFileChains entries = .ok chains := by
  have hiff : ∀ (es : List ChainEntry) (cs : List AuxChain), (∀ e ∈ es, e.Spellable) →
      (List.Forall₂ (fun spec chain => parseChainSpec spec = .ok chain)
          (es.map (fun e => trim (['|'].intercalate e.spell))) cs ↔
        List.Forall₂ (fun e chain => parseFileChain e = .ok chain) es cs) := by
    intro es
    induction es with
    | nil => simp
    | cons e es ih =>
      intro cs hes
      obtain ⟨he, hes⟩ := List.forall_mem_cons.1 hes
      simp only [List.map_cons, List.forall₂_cons_left_iff, he.parse_iff, ih _ hes]
  rw [parseChainSpecs_ok, chainSpecs_spellChains h, hiff entries chains h]
  simp only [parseFileChains, except_bind_eq_ok, mapM_eq_ok_iff, mapError_eq_ok, pure_eq_ok_iff]
  constructor
  · rintro ⟨hentries, hnodup⟩
    exact ⟨chains, hentries, (), checkUniqueChainIds_ok.2 ⟨hnodup, fun _ _ => List.not_mem_nil⟩, rfl⟩
  · rintro ⟨cs, hentries, ⟨⟩, hunique, rfl⟩
    exact ⟨hentries, (checkUniqueChainIds_ok.1 hunique).1⟩

/-- The environment with one more variable. -/
def setVar (env : String → Option String) (key value : String) (k : String) : Option String :=
  if k = key then some value else env k

theorem envVar_setVar_of_ne {env : String → Option String} {key k : String} (value : String) (h : k ≠ key) :
    envVar (setVar env key value) k = envVar env k := by
  rw [envVar, setVar, if_neg h, envVar]

/-- A table that moves from the file to `PSOB_CHAINS` loads as before, whatever
is left in the file. -/
theorem chain_table_movable (w : Nat) (env : String → Option String) (f : ConfigFile) (others : List ChainEntry)
    (c : NodeConfig) (hspell : ∀ e ∈ f.chains, e.Spellable) (hne : f.chains ≠ [])
    (hunset : envVar env "PSOB_CHAINS" = none) :
    loadConfig w (setVar env "PSOB_CHAINS" (spellChains f.chains)) (.ok (some { f with chains := others })) = .ok c ↔
      loadConfig w env (.ok (some f)) = .ok c := by
  have hset : envVar (setVar env "PSOB_CHAINS" (spellChains f.chains)) "PSOB_CHAINS" = some (spellChains f.chains) := by
    rw [envVar, setVar, if_pos rfl, Option.filter_some, if_pos]
    simp only [ne_eq, decide_not, Bool.not_eq_true', decide_eq_false_iff_not]
    intro hempty
    have hspecs := chainSpecs_spellChains hspell
    rw [hempty] at hspecs
    exact hne (List.map_eq_nil_iff.1 (hspecs.symm.trans (by decide)))
  have hchains : ∀ chains, loadChains (setVar env "PSOB_CHAINS" (spellChains f.chains)) (some { f with chains := others }) =
      .ok chains ↔ loadChains env (some f) = .ok chains := by
    intro chains
    unfold loadChains
    simp only [hset, hunset, mapError_eq_ok]
    exact parse_spellChains hspell chains
  -- no other value is read from `PSOB_CHAINS` or from the table
  have hother : ∀ k, k ≠ "PSOB_CHAINS" → envVar (setVar env "PSOB_CHAINS" (spellChains f.chains)) k = envVar env k :=
    fun k hk => envVar_setVar_of_ne _ hk
  have hassemble : ∀ chains known slug, assemble w (setVar env "PSOB_CHAINS" (spellChains f.chains))
      (some { f with chains := others }) chains known slug = assemble w env (some f) chains known slug := by
    intro chains known slug
    simp [assemble, envU64, envU32, envU16, envNum, envFirst, List.findSome?, hother]
  have hknown : loadKnownChains (setVar env "PSOB_CHAINS" (spellChains f.chains)) (some { f with chains := others }) =
      loadKnownChains env (some f) := by
    unfold loadKnownChains
    rw [hother _ (by decide)]
    rfl
  have hparent := hother "PSOB_PARENT_CHAIN" (by decide)
  constructor
  · intro hload
    obtain ⟨_, chains, known, slug, ⟨⟩, hc, hcne, hk, hcheck, hslug, rfl⟩ := loadConfig_ok.1 hload
    rw [hparent] at hslug
    exact loadConfig_ok.2 ⟨_, chains, known, slug, rfl, (hchains chains).1 hc, hcne, hknown ▸ hk, hcheck, hslug,
      hassemble _ _ _⟩
  · intro hload
    obtain ⟨_, chains, known, slug, ⟨⟩, hc, hcne, hk, hcheck, hslug, rfl⟩ := loadConfig_ok.1 hload
    refine loadConfig_ok.2 ⟨_, chains, known, slug, rfl, (hchains chains).2 hc, hcne, hknown ▸ hk, hcheck, ?_,
      (hassemble _ _ _).symm⟩
    rw [hparent]
    exact hslug

/-! ## One chain in the file -/

/-- A name with a space in front, and a URL with a slash at its end. -/
def sampleEntry : ChainEntry := ⟨" JKC", 8224, "https://junk-api.s3na.xyz/", "0x1e0fffff", some 1095300⟩

def sampleFile : ConfigFile where
  chains := [sampleEntry]
  known_chains := [⟨"LTC", 8192, "https://ltc-api.s3na.xyz"⟩]
  db_path := none
  resolver := ⟨none, none, some " Litecoin ", none⟩
  max_batch := some 0
  start_height := none
  poll_interval_secs := none
  max_kept_blocks := some 0
  retry := ⟨none, some 900, some 800, none⟩
  http := ⟨none, none⟩
  cors_origins := some "https://a, https://b,"
  bind_addr := none
  auth_token := some ""
  rate_limit_per_min := none
  p2p := ⟨none, none, none, none⟩

/-- A poll interval that is no number. -/
def sampleEnv (key : String) : Option String := if key = "PSOB_POLL_INTERVAL_SECS" then some "soon" else none

theorem exists_sampleConfig : ∃ c, loadConfig 64 sampleEnv (.ok (some sampleFile)) = .ok c := by
  have hok : (loadConfig 64 sampleEnv (.ok (some sampleFile))).isOk = true := by decide +kernel
  exact isOk_iff.1 hok

theorem loaded_config_valid_sample : ∃ c, loadConfig 64 sampleEnv (.ok (some sampleFile)) = .ok c ∧ c.Valid := by
  obtain ⟨c, hc⟩ := exists_sampleConfig
  exact ⟨c, hc, (loaded_config_valid 64 sampleEnv (.ok (some sampleFile)) c hc).1⟩

theorem spellable_sample : ∀ e ∈ sampleFile.chains, e.Spellable := by
  intro e he
  obtain rfl : e = sampleEntry := List.mem_singleton.1 he
  refine ⟨by decide +kernel, by decide +kernel, fun c hc => ?_, fun c hc => ?_⟩
  · have hall : (sampleEntry.name.toList ++ sampleEntry.electrs_url.toList).all (fun c => c ≠ ',' && c ≠ '|') = true := by
      decide +kernel
    simpa using List.all_eq_true.1 hall c hc
  · have hall : sampleEntry.pow_limit_bits.toList.all (fun c => !isWhitespace c && c ≠ ',' && c ≠ '|') = true := by
      decide +kernel
    simpa [Plain, and_assoc] using List.all_eq_true.1 hall c hc

theorem chain_table_movable_sample : ∃ c,
    loadConfig 64 (setVar sampleEnv "PSOB_CHAINS" (spellChains [sampleEntry])) (.ok (some { sampleFile with chains := [] })) =
      .ok c := by
  obtain ⟨c, hc⟩ := exists_sampleConfig
  exact ⟨c, (chain_table_movable 64 sampleEnv sampleFile [] c spellable_sample (by simp [sampleFile]) rfl).2 hc⟩

end PsobIndexer
