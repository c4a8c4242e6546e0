import Chainweave.Lib.Hex
import Chainweave.Core.Redact

/-!
# The configuration

`crates/chainweave-core/src/config.rs`: `AppConfig::validate`, which every command calls
first. Each check names its field.

* `Valid`: what the checks ask for.
* `validate_ok_iff`: a configuration passes exactly if it is that.
-/
namespace Chainweave.Config

/-! ## The data -/

/-- mirrors crates/chainweave-core/src/config.rs:26-30 -/
structure RpcConfig where
  primaryUrl : Url
  verifierUrl : Option Url
  deriving DecidableEq, Repr

/-- mirrors crates/chainweave-core/src/config.rs:32-38 -/
structure IndexerConfig where
  headerCacheSize : Nat
  maxReorgDepth : Nat
  safeDepth : Option Nat
  finalizedDepth : Option Nat
  deriving DecidableEq, Repr

/-- mirrors crates/chainweave-core/src/config.rs:46-51 -/
structure AbiContractConfig where
  address : String
  standard : String
  decoderVersion : Option String
  deriving DecidableEq, Repr

/-- mirrors crates/chainweave-core/src/config.rs:40-44 -/
structure AbiConfig where
  enabled : Bool
  contracts : List AbiContractConfig
  deriving DecidableEq, Repr

/-- mirrors crates/chainweave-core/src/config.rs:53-61 -/
structure KafkaConfig where
  brokers : List String
  outboxTopic : String
  consumerGroup : String
  queueBufferingMaxMessages : Nat
  deliveryTimeoutMs : Nat
  dispatcherPollMs : Nat
  deriving DecidableEq, Repr

/-- mirrors crates/chainweave-core/src/config.rs:68-72 -/
structure ChainIdentity where
  chainId : Nat
  genesisHash : String
  deriving DecidableEq, Repr

/-- mirrors crates/chainweave-core/src/config.rs:13-24 -/
structure AppConfig where
  rpc : RpcConfig
  indexer : IndexerConfig
  abi : AbiConfig
  kafka : KafkaConfig
  databaseUrl : Option String
  /-- the original setting, at the top level -/
  kafkaBrokers : Option (List String)
  expectedChain : Option ChainIdentity
  deriving DecidableEq, Repr

/-- mirrors crates/chainweave-core/src/config.rs:74-79 -/
inductive ValidationProfile where
  | head
  | kafka
  | workers
  deriving DecidableEq, Repr

/-- mirrors crates/chainweave-core/src/config.rs:87-93 -/
inductive ConfigError where
  | invalid (message : String)
  deriving DecidableEq, Repr

/-! ## Texts -/

/-- `char::is_whitespace`: the Unicode property `White_Space`. -/
def isWhitespace (c : Char) : Bool :=
  let n := c.toNat
  (9 ≤ n ∧ n ≤ 13) ∨ n = 0x20 ∨ n = 0x85 ∨ n = 0xA0 ∨ n = 0x1680 ∨ (0x2000 ≤ n ∧ n ≤ 0x200A) ∨
    n = 0x2028 ∨ n = 0x2029 ∨ n = 0x202F ∨ n = 0x205F ∨ n = 0x3000

/-- `str::trim`. -/
def trim (text : String) : List Char :=
  ((text.toList.dropWhile isWhitespace).reverse.dropWhile isWhitespace).reverse

/-- mirrors crates/chainweave-core/src/config.rs:379-383, crates/chainweave-sink/src/abi.rs:379-381 -/
def normalizedStandard (value : String) : List Char :=
  ((trim value).map Char.toLower).map fun c => if c = ' ' ∨ c = '-' then '_' else c

/-! ## The checks -/

/-- `if condition { return Err(invalid(message)) }`. -/
def rejectIf (condition : Bool) (message : String) : Except ConfigError Unit :=
  if condition then .error (.invalid message) else .ok ()

/-- `if condition { check?; }`. -/
def checkIf (condition : Bool) (check : Except ConfigError Unit) : Except ConfigError Unit :=
  if condition then check else .ok ()

/-- mirrors crates/chainweave-core/src/config.rs:296-304 -/
def validateRpcUrl (name : String) (url : Url) : Except ConfigError Unit := do
  rejectIf (url.scheme ∉ ["http", "https", "ws", "wss"]) (name ++ " must use http, https, ws, or wss")
  rejectIf url.host.isNone (name ++ " must include a host")

/-- A text of `digits` hexadecimal digits, behind an optional `0x`: what a hash and an address are
asked to be. A text with another character is refused whatever its length in bytes is. -/
def isFixedHex (digits : Nat) (value : String) : Bool :=
  let bytes := Hex.strip0x value.toList
  bytes.length = digits ∧ Hex.IsHex bytes

/-- mirrors crates/chainweave-core/src/config.rs:322-330 -/
def validateHash (value : String) : Except ConfigError Unit :=
  rejectIf (!isFixedHex 64 value) "expected_chain.genesis_hash must be a 32-byte hex value"

/-- mirrors crates/chainweave-core/src/config.rs:370-376 -/
def validateAddress (value : String) : Except ConfigError Unit :=
  rejectIf (!isFixedHex 40 value) "abi.contracts.address must be a 20-byte hex value"

/-- `matches!` of a text with some literals. -/
def OneOf (text : List Char) (spellings : List String) : Prop := text ∈ spellings.map String.toList

instance (text : List Char) (spellings : List String) : Decidable (OneOf text spellings) :=
  inferInstanceAs (Decidable (text ∈ spellings.map String.toList))

/-- mirrors crates/chainweave-core/src/config.rs:378-391 -/
def validateAbiStandard (value : String) : Except ConfigError Unit :=
  rejectIf (¬ OneOf (normalizedStandard value) ["erc20", "erc_20", "erc721", "erc_721", "uniswap_v3",
    "uniswap_v3_pool", "uniswapv3pool"])
    "abi.contracts.standard must be erc20, erc721, or uniswap_v3_pool"

/-- mirrors crates/chainweave-core/src/config.rs:332-343 -/
def validateAbiConfig (config : AbiConfig) : Except ConfigError Unit :=
  config.contracts.forM fun contract => do
    validateAddress contract.address
    validateAbiStandard contract.standard
    rejectIf (contract.decoderVersion.any fun version => (trim version).isEmpty)
      "abi.contracts.decoder_version must not be empty"

/-- The setting at the top level goes first.
mirrors crates/chainweave-core/src/config.rs:206-212 -/
def AppConfig.brokers (config : AppConfig) : List String :=
  (config.kafkaBrokers.filter (!·.isEmpty)).getD config.kafka.brokers

/-- mirrors crates/chainweave-core/src/config.rs:345-368 -/
def validateKafkaConfig (config : AppConfig) : Except ConfigError Unit := do
  rejectIf (config.brokers.any fun broker => (trim broker).isEmpty)
    "kafka brokers must not contain empty entries"
  rejectIf (trim config.kafka.outboxTopic).isEmpty "kafka.outbox_topic must not be empty"
  rejectIf (trim config.kafka.consumerGroup).isEmpty "kafka.consumer_group must not be empty"
  rejectIf (config.kafka.queueBufferingMaxMessages = 0)
    "kafka.queue_buffering_max_messages must be nonzero"
  rejectIf (config.kafka.deliveryTimeoutMs = 0) "kafka.delivery_timeout_ms must be nonzero"
  rejectIf (config.kafka.dispatcherPollMs = 0) "kafka.dispatcher_poll_ms must be nonzero"

section
variable (crate : UrlCrate) (parse : String → Option Url)

/-- mirrors crates/chainweave-core/src/config.rs:317-320 -/
def usesLocalSocket (url : Url) : Bool :=
  (crate.queryPairs url).any fun (key, value) => key = "host" ∧ ['/'] <+: value.toList

/-- mirrors crates/chainweave-core/src/config.rs:306-315 -/
def validateDatabaseUrl (value : String) : Except ConfigError Unit :=
  match parse value with
  | none => .error (.invalid "database_url must be a valid URL")
  | some url => do
    rejectIf (url.scheme ∉ ["postgres", "postgresql"]) "database_url must use postgres or postgresql"
    rejectIf ((url.password.getD "").isEmpty && !usesLocalSocket crate url)
      "database_url must include a password"

/-- mirrors crates/chainweave-core/src/config.rs:175-183 -/
def validateDepths (config : IndexerConfig) : Except ConfigError Unit :=
  match config.safeDepth, config.finalizedDepth with
  | some safe, some finalized =>
    rejectIf (safe > finalized) "indexer.safe_depth must not exceed indexer.finalized_depth"
  | _, _ => .ok ()

/-- mirrors crates/chainweave-core/src/config.rs:186-193 -/
def requireDatabaseUrl (config : AppConfig) : Except ConfigError Unit :=
  match config.databaseUrl.filter fun value => !(trim value).isEmpty with
  | none => .error (.invalid "database_url is required before starting workers")
  | some databaseUrl => validateDatabaseUrl crate parse databaseUrl

/-- mirrors crates/chainweave-core/src/config.rs:147-204 -/
def AppConfig.validate (config : AppConfig) (profile : ValidationProfile) : Except ConfigError Unit := do
  validateRpcUrl "rpc.primary_url" config.rpc.primaryUrl
  config.rpc.verifierUrl.toList.forM (validateRpcUrl "rpc.verifier_url")
  rejectIf (config.indexer.headerCacheSize = 0) "indexer.header_cache_size must be nonzero"
  rejectIf (config.indexer.maxReorgDepth = 0) "indexer.max_reorg_depth must be nonzero"
  rejectIf (config.indexer.maxReorgDepth < config.indexer.headerCacheSize)
    "indexer.max_reorg_depth must be at least indexer.header_cache_size"
  validateDepths config.indexer
  config.expectedChain.toList.forM fun identity => do
    rejectIf (identity.chainId = 0) "expected_chain.chain_id must be nonzero"
    validateHash identity.genesisHash
  validateAbiConfig config.abi
  checkIf (profile = .workers) (requireDatabaseUrl crate parse config)
  checkIf (profile = .kafka ∨ profile = .workers) (validateKafkaConfig config)

end

/-! ## What passes -/

theorem rejectIf_ok {condition : Bool} {message : String} :
    rejectIf condition message = .ok () ↔ condition = false := by
  cases condition <;> simp [rejectIf]

/-- One check after another. -/
theorem both_ok {ε : Type} {x y : Except ε Unit} :
    (x >>= fun _ => y) = .ok () ↔ x = .ok () ∧ y = .ok () := by
  cases x with
  | error => simp [Bind.bind, Except.bind]
  | ok => simp [Bind.bind, Except.bind]

/-- A check of each. -/
theorem forM_ok {ε α : Type} {check : α → Except ε Unit} {items : List α} :
    items.forM check = .ok () ↔ ∀ item ∈ items, check item = .ok () := by
  induction items with
  | nil => simp [pure, Except.pure]
  | cons item items ih =>
    rw [List.forall_mem_cons, ← ih]
    exact both_ok

theorem checkIf_ok {condition : Bool} {check : Except ConfigError Unit} :
    checkIf condition check = .ok () ↔ (condition = true → check = .ok ()) := by
  cases condition <;> simp [checkIf]

/-- The settings for a profile. -/
structure AppConfig.Valid (crate : UrlCrate) (parse : String → Option Url) (config : AppConfig)
    (profile : ValidationProfile) : Prop where
  primary : validateRpcUrl "rpc.primary_url" config.rpc.primaryUrl = .ok ()
  verifier : ∀ url ∈ config.rpc.verifierUrl, validateRpcUrl "rpc.verifier_url" url = .ok ()
  indexer : 0 < config.indexer.headerCacheSize ∧
    config.indexer.headerCacheSize ≤ config.indexer.maxReorgDepth
  depths : ∀ safe ∈ config.indexer.safeDepth, ∀ finalized ∈ config.indexer.finalizedDepth,
    safe ≤ finalized
  identity : ∀ identity ∈ config.expectedChain,
    identity.chainId ≠ 0 ∧ isFixedHex 64 identity.genesisHash = true
  contracts : ∀ contract ∈ config.abi.contracts, isFixedHex 40 contract.address = true ∧
    validateAbiStandard contract.standard = .ok () ∧
    ∀ version ∈ contract.decoderVersion, trim version ≠ []
  database : profile = .workers → ∃ databaseUrl ∈ config.databaseUrl, trim databaseUrl ≠ [] ∧
    validateDatabaseUrl crate parse databaseUrl = .ok ()
  kafka : profile = .kafka ∨ profile = .workers →
    (∀ broker ∈ config.brokers, trim broker ≠ []) ∧ trim config.kafka.outboxTopic ≠ [] ∧
    trim config.kafka.consumerGroup ≠ [] ∧ config.kafka.queueBufferingMaxMessages ≠ 0 ∧
    config.kafka.deliveryTimeoutMs ≠ 0 ∧ config.kafka.dispatcherPollMs ≠ 0

section
variable {crate : UrlCrate} {parse : String → Option Url} {config : AppConfig}
  {profile : ValidationProfile}

theorem validateDepths_ok {indexer : IndexerConfig} :
    validateDepths indexer = .ok () ↔
      ∀ safe ∈ indexer.safeDepth, ∀ finalized ∈ indexer.finalizedDepth, safe ≤ finalized := by
  unfold validateDepths
  cases hsafe : indexer.safeDepth with
  | none => simp
  | some safe =>
    cases hfinalized : indexer.finalizedDepth with
    | none => simp
    | some finalized => simp [rejectIf_ok]

theorem validateAbiConfig_ok {abi : AbiConfig} :
    validateAbiConfig abi = .ok () ↔ ∀ contract ∈ abi.contracts,
      isFixedHex 40 contract.address = true ∧ validateAbiStandard contract.standard = .ok () ∧
      ∀ version ∈ contract.decoderVersion, trim version ≠ [] := by
  unfold validateAbiConfig
  rw [forM_ok]
  refine forall₂_congr fun contract _ => ?_
  rw [both_ok, both_ok, rejectIf_ok, validateAddress, rejectIf_ok]
  cases contract.decoderVersion <;> simp

theorem validateKafkaConfig_ok :
    validateKafkaConfig config = .ok () ↔
      (∀ broker ∈ config.brokers, trim broker ≠ []) ∧ trim config.kafka.outboxTopic ≠ [] ∧
      trim config.kafka.consumerGroup ≠ [] ∧ config.kafka.queueBufferingMaxMessages ≠ 0 ∧
      config.kafka.deliveryTimeoutMs ≠ 0 ∧ config.kafka.dispatcherPollMs ≠ 0 := by
  unfold validateKafkaConfig
  simp only [both_ok, rejectIf_ok]
  simp

theorem requireDatabaseUrl_ok :
    requireDatabaseUrl crate parse config = .ok () ↔ ∃ databaseUrl ∈ config.databaseUrl,
      trim databaseUrl ≠ [] ∧ validateDatabaseUrl crate parse databaseUrl = .ok () := by
  unfold requireDatabaseUrl
  cases config.databaseUrl with
  | none => simp
  | some databaseUrl =>
    by_cases hempty : trim databaseUrl = []
    · simp [Option.filter, hempty]
    · simp [Option.filter, hempty]

/-- **What passes.** -/
theorem validate_ok_iff :
    config.validate crate parse profile = .ok () ↔ config.Valid crate parse profile := by
  unfold AppConfig.validate
  simp only [both_ok, forM_ok, rejectIf_ok, checkIf_ok, validateDepths_ok, validateAbiConfig_ok,
    validateKafkaConfig_ok, requireDatabaseUrl_ok, validateHash, Option.mem_toList,
    decide_eq_true_eq, decide_eq_false_iff_not, Bool.not_eq_false']
  constructor
  · rintro ⟨hprimary, hverifier, hcache, -, hdepth, hdepths, hidentity, hcontracts, hdatabase, hkafka⟩
    exact ⟨hprimary, hverifier, ⟨Nat.pos_of_ne_zero hcache, Nat.le_of_not_lt hdepth⟩, hdepths, hidentity,
      hcontracts, hdatabase, hkafka⟩
  · rintro ⟨hprimary, hverifier, ⟨hcache, hdepth⟩, hdepths, hidentity, hcontracts, hdatabase, hkafka⟩
    exact ⟨hprimary, hverifier, Nat.ne_of_gt hcache, by omega, by omega, hdepths, hidentity, hcontracts,
      hdatabase, hkafka⟩

end

end Chainweave.Config
