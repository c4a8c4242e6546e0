import Chainweave.Lib.Run
import Chainweave.Rpc.Head
import Chainweave.Sink.Consumer
import Chainweave.Sink.Registry

/-!
# Starting up

`crates/chainweave-cli/src/main.rs` and `live_runtime.rs`: what a command does between
`AppConfig::validate` and its first batch. Much of the configuration is checked a second
time there, and the identity of the chain is checked three times: against the
configuration, against the verifier, and against the database.

* `validated_starts`: after `validate`, no later check of the configuration fails, but for
  a repeated contract and missing brokers.
* `World`: any number of processes that start, write batches and stop over one database.
* `one_genesis`: whoever writes batches of a chain reads a node with its recorded genesis.
-/
namespace Chainweave.Start

open Chainweave.Chain Chainweave.Config Chainweave.Rpc Chainweave.Postgres

/-! ## The checks of the configuration -/

/-- mirrors crates/chainweave-sink/src/kafka.rs:20-27 -/
structure KafkaDispatcherConfig where
  brokers : List String
  topic : String
  queueBufferingMaxMessages : Nat
  deliveryTimeout : Nat
  pollInterval : Nat
  deriving DecidableEq, Repr

/-- mirrors crates/chainweave-cli/src/main.rs:694-706 -/
def kafkaDispatcherConfig (config : AppConfig) : Except String KafkaDispatcherConfig :=
  let brokers := config.brokers
  if brokers.isEmpty then .error "kafka.brokers is required before running the Kafka dispatcher"
  else .ok {
    brokers
    topic := config.kafka.outboxTopic
    queueBufferingMaxMessages := config.kafka.queueBufferingMaxMessages
    deliveryTimeout := config.kafka.deliveryTimeoutMs
    pollInterval := config.kafka.dispatcherPollMs }

/-- What `KafkaOutboxDispatcher::connect` asks of its configuration. -/
inductive KafkaConfigError where
  | missingBrokers
  | missingTopic
  deriving DecidableEq, Repr

/-- mirrors crates/chainweave-sink/src/kafka.rs:145-155 -/
def checkDispatcherConfig (config : KafkaDispatcherConfig) : Except KafkaConfigError Unit :=
  if config.brokers.isEmpty || config.brokers.any fun broker => (trim broker).isEmpty then
    .error .missingBrokers
  else if (trim config.topic).isEmpty then .error .missingTopic
  else .ok ()

/-- mirrors crates/chainweave-cli/src/main.rs:204-220 -/
def abiRegistryFromConfig (alloy : AlloyCrate) (config : AppConfig) :
    Except String (Option AbiRegistry) :=
  if !config.abi.enabled || config.abi.contracts.isEmpty then .ok none
  else
    match AbiRegistry.fromConfigEntries alloy config.abi.contracts with
    | .ok registry => .ok (some registry)
    | .error error => .error error.message

/-- What the checks of an identity return.
mirrors crates/chainweave-rpc/src/client.rs:113-118 -/
inductive IdentityError where
  | chainIdMismatch (expected actual : Nat)
  | genesisMismatch (expected actual : BlockHash)
  | invalidGenesis (message : String)
  deriving DecidableEq, Repr

/-- mirrors crates/chainweave-rpc/src/client.rs:407-431 -/
def verifyIdentity (alloy : AlloyCrate) (head : ChainHead) (expected : ChainIdentity) :
    Except IdentityError Unit :=
  if head.chainId ≠ expected.chainId then .error (.chainIdMismatch expected.chainId head.chainId)
  else
    match alloy.parseHash expected.genesisHash with
    | .error error => .error (.invalidGenesis error)
    | .ok expectedHash =>
      if head.genesisHash ≠ expectedHash then
        .error (.genesisMismatch expectedHash head.genesisHash)
      else .ok ()

section
variable {crate : UrlCrate} {parse : String → Option Url} {config : AppConfig}
  {profile : ValidationProfile} {alloy : AlloyCrate}

theorem abiRegistry_cases (hvalid : config.Valid crate parse profile) (h : alloy.Documented) :
    (config.abi.enabled = false ∨ config.abi.contracts = []) ∧
      abiRegistryFromConfig alloy config = .ok none ∨
    (∃ registry, abiRegistryFromConfig alloy config = .ok (some registry) ∧
      (∀ contract ∈ config.abi.contracts, DecodedBy alloy registry contract) ∧
      (config.abi.contracts.map (addressOf ·.address)).Nodup) ∨
    ∃ before contract after, config.abi.contracts = before ++ contract :: after ∧
      (before.map (addressOf ·.address)).Nodup ∧
      addressOf contract.address ∈ before.map (addressOf ·.address) ∧
      abiRegistryFromConfig alloy config =
        .error ("duplicate ABI registry address " ++ hexAddress (addressOf contract.address)) := by
  by_cases hnone : config.abi.enabled = false ∨ config.abi.contracts = []
  · refine .inl ⟨hnone, ?_⟩
    cases hnone with
    | inl hdisabled => simp [abiRegistryFromConfig, hdisabled]
    | inr hempty => simp [abiRegistryFromConfig, hempty]
  · have hread : abiRegistryFromConfig alloy config =
        match AbiRegistry.fromConfigEntries alloy config.abi.contracts with
        | .ok registry => .ok (some registry)
        | .error error => .error error.message := by
      rw [not_or, Bool.not_eq_false] at hnone
      simp [abiRegistryFromConfig, hnone.1, hnone.2]
    rw [hread]
    right
    obtain ⟨⟨registry, hregistry, hdecoded, -⟩, hnodup⟩ |
      ⟨before, contract, after, hsplit, hfirst, hrepeated, herror⟩ :=
        fromConfigEntries_cases h fun contract hcontract =>
          ⟨(hvalid.contracts contract hcontract).1, (hvalid.contracts contract hcontract).2.1⟩
    · exact .inl ⟨registry, by rw [hregistry], hdecoded, hnodup⟩
    · exact .inr ⟨before, contract, after, hsplit, hfirst, hrepeated, by rw [herror]; rfl⟩

/-- The expected genesis hash parses. -/
theorem verifyIdentity_iff (hvalid : config.Valid crate parse profile) (h : alloy.Documented)
    {expected : ChainIdentity} (hexpected : config.expectedChain = some expected) :
    ∃ genesis, alloy.parseHash expected.genesisHash = .ok genesis ∧ ∀ head,
      verifyIdentity alloy head expected =
        if head.chainId ≠ expected.chainId then .error (.chainIdMismatch expected.chainId head.chainId)
        else if head.genesisHash ≠ genesis then .error (.genesisMismatch genesis head.genesisHash)
        else .ok () := by
  have hparse := h.parseHash _ (hvalid.identity expected hexpected).2
  refine ⟨_, hparse, fun head => ?_⟩
  rw [verifyIdentity, hparse]

/-- A dispatcher has its settings as soon as there are brokers. -/
theorem kafkaDispatcherConfig_cases (hvalid : config.Valid crate parse profile)
    (hprofile : profile = .kafka ∨ profile = .workers) :
    (config.brokers = [] ∧ kafkaDispatcherConfig config =
      .error "kafka.brokers is required before running the Kafka dispatcher") ∨
    (config.brokers ≠ [] ∧ ∃ dispatcher, kafkaDispatcherConfig config = .ok dispatcher ∧
      checkDispatcherConfig dispatcher = .ok ()) := by
  obtain ⟨hbrokers, htopic, -⟩ := hvalid.kafka hprofile
  by_cases hempty : config.brokers = []
  · exact .inl ⟨hempty, by simp [kafkaDispatcherConfig, hempty]⟩
  · refine .inr ⟨hempty, _, by simp [kafkaDispatcherConfig, hempty]; rfl, ?_⟩
    simp [checkDispatcherConfig, hempty, htopic]
    exact hbrokers

/-- **A configuration that passed starts.** After `validate`: the ABI registry is built, with the
decoder of each contract, unless two contracts have one address in whatever spelling, and then the
error names the first that repeats an earlier one; the expected genesis hash parses, so that a head
is refused for a wrong chain id or genesis only; for workers the database URL is there; and for them
and the dispatcher the settings of a dispatcher are complete unless there are no brokers. -/
theorem validated_starts (hvalidate : config.validate crate parse profile = .ok ())
    (h : alloy.Documented) :
    ((config.abi.enabled = false ∨ config.abi.contracts = []) ∧
        abiRegistryFromConfig alloy config = .ok none ∨
      (∃ registry, abiRegistryFromConfig alloy config = .ok (some registry) ∧
        (∀ contract ∈ config.abi.contracts, DecodedBy alloy registry contract) ∧
        (config.abi.contracts.map (spelling ·.address)).Nodup) ∨
      ∃ before contract after, config.abi.contracts = before ++ contract :: after ∧
        (before.map (spelling ·.address)).Nodup ∧
        (∃ earlier ∈ before, spelling earlier.address = spelling contract.address) ∧
        abiRegistryFromConfig alloy config =
          .error ("duplicate ABI registry address " ++ hexAddress (addressOf contract.address))) ∧
    (∀ expected ∈ config.expectedChain, ∃ genesis, alloy.parseHash expected.genesisHash = .ok genesis ∧
      ∀ head, verifyIdentity alloy head expected =
        if head.chainId ≠ expected.chainId then .error (.chainIdMismatch expected.chainId head.chainId)
        else if head.genesisHash ≠ genesis then .error (.genesisMismatch genesis head.genesisHash)
        else .ok ()) ∧
    (profile = .workers → config.databaseUrl.isSome = true) ∧
    (profile = .kafka ∨ profile = .workers →
      (config.brokers = [] ∧ kafkaDispatcherConfig config =
        .error "kafka.brokers is required before running the Kafka dispatcher") ∨
      (config.brokers ≠ [] ∧ ∃ dispatcher, kafkaDispatcherConfig config = .ok dispatcher ∧
        checkDispatcherConfig dispatcher = .ok ())) := by
  have hvalid := validate_ok_iff.1 hvalidate
  have haddress : ∀ contract ∈ config.abi.contracts, isFixedHex 40 contract.address = true :=
    fun contract hcontract => (hvalid.contracts contract hcontract).1
  refine ⟨?_, fun expected hexpected => verifyIdentity_iff hvalid h hexpected, fun hprofile => ?_,
    kafkaDispatcherConfig_cases hvalid⟩
  · obtain hnone | ⟨registry, hregistry, hdecoded, hnodup⟩ |
      ⟨before, contract, after, hsplit, hfirst, hrepeated, herror⟩ := abiRegistry_cases hvalid h
    · exact .inl hnone
    · exact .inr (.inl ⟨registry, hregistry, hdecoded, (nodup_addressOf haddress).1 hnodup⟩)
    · obtain ⟨earlier, hearlier, heq⟩ := List.mem_map.1 hrepeated
      rw [hsplit] at haddress
      have hspelling := (addressOf_eq_iff (haddress earlier (List.mem_append_left _ hearlier))
        (haddress contract (by simp))).1 heq
      have hfirst := (nodup_addressOf fun contract hcontract =>
        haddress contract (List.mem_append_left _ hcontract)).1 hfirst
      exact .inr (.inr ⟨before, contract, after, hsplit, hfirst, ⟨earlier, hearlier, hspelling⟩, herror⟩)
  · obtain ⟨databaseUrl, hdatabase, -⟩ := hvalid.database hprofile
    rw [hdatabase]
    rfl

end

/-- The bundled events and the hashes of their signatures. -/
def bundledEvents : List (String × BlockHash) :=
  AbiStandard.erc20.eventSignatures.zip
      [0xddf252ad1be2c89b69c2b068fc378daa952ba7f163c4a11628f55a4df523b3ef,
        0x8c5be1e5ebec7d5bd14f71427d1e84f3dd0314c0f7b2291e5b200ac8c7c3b925] ++
    AbiStandard.erc721.eventSignatures.zip
      [0xddf252ad1be2c89b69c2b068fc378daa952ba7f163c4a11628f55a4df523b3ef,
        0x8c5be1e5ebec7d5bd14f71427d1e84f3dd0314c0f7b2291e5b200ac8c7c3b925] ++
    AbiStandard.uniswapV3Pool.eventSignatures.zip
      [0xc42079f94a6350d7e6235f29174924f928cc2ac818eb64fed8004e115fbcca67,
        0x7a53080ba414158be7ec69b987b5fb7d07dee101fe85488f0853ae16239d0bde,
        0x0c396cd989a39f4459b5fa1aed6a9a8dcdbc45908acfd67e028cd568da98982c]

/-- A crate that reads the texts as documented, and knows the bundled events only. -/
def readingCrate : AlloyCrate where
  parseEvent definition :=
    (bundledEvents.lookup definition).elim (.error "unknown event") fun selector =>
      .ok ⟨selector, fun _ _ => none⟩
  parseAddress text :=
    if isFixedHex 40 text then .ok (addressOf text) else .error "invalid string length"
  parseHash text :=
    if isFixedHex 64 text then .ok (BitVec.ofNat 256 (Hex.value (Hex.strip0x text.toList)))
    else .error "invalid string length"

theorem readingCrate_documented : readingCrate.Documented where
  parseEvent standard definition hdefinition := by
    have hknown : ∀ text ∈ standard.eventSignatures, (bundledEvents.lookup text).isSome = true := by
      cases standard with
      | erc20 => decide +kernel
      | erc721 => decide +kernel
      | uniswapV3Pool => decide +kernel
    obtain ⟨selector, hselector⟩ := Option.isSome_iff_exists.1 (hknown definition hdefinition)
    exact ⟨⟨selector, fun _ _ => none⟩, by simp [readingCrate, hselector]⟩
  parseAddress _ h := if_pos h
  parseHash _ h := if_pos h

def plainUrls : UrlCrate where
  parsePairs _ := []
  extendPairs _ := ""
  extendSegments _ segments := segments
  toString url := url.scheme

def databaseUrl : Url where
  scheme := "postgres"
  username := "indexer"
  password := some "secret"
  host := some "db"
  port := none
  path := .segments ["chainweave"]
  query := none
  fragment := none

/-- Two contracts, each in two spellings. -/
def twiceConfig : AppConfig where
  rpc := ⟨{ databaseUrl with scheme := "https", password := none }, none⟩
  indexer := ⟨256, 2048, none, none⟩
  abi := ⟨true, [⟨"0x" ++ String.ofList (List.replicate 40 'A'), "ERC-20", none⟩,
    ⟨String.ofList (List.replicate 40 'a'), " erc721", some "v2"⟩,
    ⟨"0x" ++ String.ofList (List.replicate 40 'b'), "uniswap_v3", none⟩,
    ⟨String.ofList (List.replicate 40 'B'), "erc20", none⟩]⟩
  kafka := ⟨[], "chainweave.outbox", "chainweave-demo-consumer", 10000, 30000, 1000⟩
  databaseUrl := some "postgres://indexer:secret@db/chainweave"
  kafkaBrokers := none
  expectedChain := some ⟨1, String.ofList (List.replicate 64 '7')⟩

theorem twiceConfig_valid :
    twiceConfig.Valid plainUrls (fun _ => some databaseUrl) .workers where
  primary := by decide
  verifier := by decide
  indexer := by decide
  depths := by decide
  identity := by decide +kernel
  contracts := by decide +kernel
  database _ := ⟨_, rfl, by decide +kernel, by decide +kernel⟩
  kafka _ := by decide +kernel

/-- `validated_starts` for two contracts that are there twice: the error names the first, for its second
spelling is the first that repeats one. -/
theorem validated_starts_twice :
    twiceConfig.validate plainUrls (fun _ => some databaseUrl) .workers = .ok () ∧
      twiceConfig.databaseUrl.isSome = true ∧
      abiRegistryFromConfig readingCrate twiceConfig =
        .error ("duplicate ABI registry address " ++
          hexAddress 0xaaaaaaaaaaaaaaaaaaaaaaaaaaaaaaaaaaaaaaaa) := by
  have hvalidate := validate_ok_iff.2 twiceConfig_valid
  obtain ⟨habi, -, hdatabase, -⟩ := validated_starts hvalidate readingCrate_documented
  refine ⟨hvalidate, hdatabase rfl, ?_⟩
  have haddress : addressOf (String.ofList (List.replicate 40 'a')) =
      0xaaaaaaaaaaaaaaaaaaaaaaaaaaaaaaaaaaaaaaaa := by decide +kernel
  have hspelling : spelling ("0x" ++ String.ofList (List.replicate 40 'A')) =
      spelling (String.ofList (List.replicate 40 'a')) := by decide +kernel
  obtain ⟨hnone, -⟩ | ⟨registry, -, -, hnodup⟩ |
    ⟨before, contract, after, hsplit, hfirst, hrepeated, herror⟩ := habi
  · simp [twiceConfig] at hnone
  · exact absurd hnodup (by decide +kernel)
  · cases before with
    | nil =>
      obtain ⟨earlier, hearlier, -⟩ := hrepeated
      cases hearlier
    | cons a before =>
      injection hsplit with ha hsplit
      cases before with
      | nil =>
        injection hsplit with hcontract _
        rw [herror, ← hcontract, haddress]
      | cons b before =>
        -- The first two contracts have one address.
        injection hsplit with hb _
        rw [← ha, ← hb] at hfirst
        exact absurd (List.mem_cons.2 (.inl hspelling)) (List.nodup_cons.1 hfirst).1

/-! ## The identity of a chain -/

/-- mirrors crates/chainweave-cli/src/live_runtime.rs:1062-1080 -/
def verifyVerifierChainIdentity (primary verifier : ChainHead) : Except IdentityError Unit :=
  if verifier.chainId ≠ primary.chainId then
    .error (.chainIdMismatch primary.chainId verifier.chainId)
  else if Kafka.hashText verifier.genesisHash ≠ Kafka.hashText primary.genesisHash then
    .error (.invalidGenesis ("verifier genesis hash " ++ Kafka.hashText verifier.genesisHash ++
      " does not match primary " ++ Kafka.hashText primary.genesisHash))
  else .ok ()

/-- What a start found: in the configuration, and at its nodes. A backfill has no verifier. -/
structure Setup where
  expected : Option ChainIdentity
  primary : ChainHead
  verifier : Option ChainHead
  deriving DecidableEq, Repr

inductive StartError where
  | identity (error : IdentityError)
  | emptyChainId
  | chainIdentityMismatch (chainId : Nat)
  /-- the unique index over `genesis_hash` -/
  | duplicateGenesis
  deriving DecidableEq, Repr

/-- The checks before the database.
mirrors crates/chainweave-cli/src/main.rs:345-357, live_runtime.rs:577-633 -/
def Setup.identify (alloy : AlloyCrate) (setup : Setup) : Except StartError Unit := do
  (setup.expected.toList.forM (verifyIdentity alloy setup.primary)).mapError .identity
  (setup.verifier.toList.forM (verifyVerifierChainIdentity setup.primary)).mapError .identity
  if setup.primary.chainId = 0 then .error .emptyChainId else .ok ()

/-- The table `chain_identity`: chain id and genesis hash. -/
abbrev Identities := List (Nat × BlockHash)

/-- One statement: an insert, or an update that changes nothing, or no row.
mirrors crates/chainweave-sink/src/postgres.rs:358-389 -/
def ensureChainIdentity (identities : Identities) (chainId : Nat) (genesisHash : BlockHash) :
    Except StartError Identities :=
  match identities.lookup chainId with
  | some recorded =>
    if recorded = genesisHash then .ok identities else .error (.chainIdentityMismatch chainId)
  | none =>
    if genesisHash ∈ identities.map (·.2) then .error .duplicateGenesis
    else .ok (identities ++ [(chainId, genesisHash)])

inductive Process where
  | stopped (error : Option StartError)
  | starting (setup : Setup)
  | identified (setup : Setup)
  | running (setup : Setup)
  deriving DecidableEq, Repr

structure World (n : Nat) where
  identities : Identities
  processes : Fin n → Process
  /-- who wrote each batch -/
  batches : List Setup

inductive Action (n : Nat) where
  | start (d : Fin n) (setup : Setup)
  | identify (d : Fin n)
  | ensure (d : Fin n)
  | applyBatch (d : Fin n)
  /-- at any point -/
  | stop (d : Fin n)

namespace World
variable {n : Nat}

def init : World n where
  identities := []
  processes _ := .stopped none
  batches := []

def goto (w : World n) (d : Fin n) (process : Process) : World n :=
  { w with processes := Function.update w.processes d process }

/-- One step of a process; none if it is not there. -/
def step (alloy : AlloyCrate) (w : World n) : Action n → Option (World n)
  | .start d setup =>
    match w.processes d with
    | .stopped _ => some (w.goto d (.starting setup))
    | _ => none
  | .identify d =>
    match w.processes d with
    | .starting setup =>
      match setup.identify alloy with
      | .ok _ => some (w.goto d (.identified setup))
      | .error error => some (w.goto d (.stopped (some error)))
    | _ => none
  | .ensure d =>
    match w.processes d with
    | .identified setup =>
      match ensureChainIdentity w.identities setup.primary.chainId setup.primary.genesisHash with
      | .ok identities => some ({ w with identities }.goto d (.running setup))
      | .error error => some (w.goto d (.stopped (some error)))
    | _ => none
  | .applyBatch d =>
    match w.processes d with
    | .running setup => some { w with batches := w.batches ++ [setup] }
    | _ => none
  | .stop d => some (w.goto d (.stopped none))

def run (alloy : AlloyCrate) (w : World n) (actions : List (Action n)) : Option (World n) :=
  actions.foldlM (step alloy) w

end World

/-! ### The checks agree -/

/-- One chain: what is expected, what the primary says, and what the verifier says. -/
structure Setup.Agreed (alloy : AlloyCrate) (setup : Setup) : Prop where
  expected : ∀ expected ∈ setup.expected, expected.chainId = setup.primary.chainId ∧
    alloy.parseHash expected.genesisHash = .ok setup.primary.genesisHash
  verifier : ∀ verifier ∈ setup.verifier, verifier.chainId = setup.primary.chainId ∧
    verifier.genesisHash = setup.primary.genesisHash
  chainId : setup.primary.chainId ≠ 0

section
variable {alloy : AlloyCrate} {setup : Setup}

theorem verifyIdentity_ok {head : ChainHead} {expected : ChainIdentity} :
    verifyIdentity alloy head expected = .ok () ↔ expected.chainId = head.chainId ∧
      alloy.parseHash expected.genesisHash = .ok head.genesisHash := by
  unfold verifyIdentity
  by_cases hchain : head.chainId = expected.chainId
  · rw [if_neg (not_not_intro hchain)]
    cases alloy.parseHash expected.genesisHash with
    | error => simp
    | ok genesis => simp [hchain, eq_comm]
  · rw [if_pos hchain]
    simp [Ne.symm hchain]

theorem verifyVerifierChainIdentity_ok {primary verifier : ChainHead} :
    verifyVerifierChainIdentity primary verifier = .ok () ↔ verifier.chainId = primary.chainId ∧
      verifier.genesisHash = primary.genesisHash := by
  unfold verifyVerifierChainIdentity
  by_cases hchain : verifier.chainId = primary.chainId
  · by_cases hgenesis : verifier.genesisHash = primary.genesisHash
    · simp [hchain, hgenesis]
    · have htext := mt (fun h => Kafka.hashText_injective h) hgenesis
      simp [hchain, hgenesis, htext]
  · simp [hchain]

theorem mapError_ok {ε ε' : Type} {f : ε → ε'} {x : Except ε Unit} :
    x.mapError f = .ok () ↔ x = .ok () := by
  cases x <;> simp [Except.mapError]

theorem identify_ok : setup.identify alloy = .ok () ↔ setup.Agreed alloy := by
  unfold Setup.identify
  simp only [both_ok, mapError_ok, forM_ok, Option.mem_toList, verifyIdentity_ok,
    verifyVerifierChainIdentity_ok]
  constructor
  · rintro ⟨hexpected, hverifier, hchain⟩
    refine ⟨hexpected, hverifier, fun hzero => ?_⟩
    rw [if_pos hzero] at hchain
    cases hchain
  · rintro ⟨hexpected, hverifier, hchain⟩
    exact ⟨hexpected, hverifier, if_neg hchain⟩

/-! ### The table -/

/-- One row a chain, and one a genesis block. -/
structure Distinct (identities : Identities) : Prop where
  ids : (identities.map (·.1)).Nodup
  geneses : (identities.map (·.2)).Nodup

theorem Distinct.iff {identities : Identities} (h : Distinct identities) {a b : Nat × BlockHash}
    (ha : a ∈ identities) (hb : b ∈ identities) : a.1 = b.1 ↔ a.2 = b.2 :=
  ⟨fun heq => congrArg Prod.snd (List.inj_on_of_nodup_map h.ids ha hb heq),
    fun heq => congrArg Prod.fst (List.inj_on_of_nodup_map h.geneses ha hb heq)⟩

/-- A chain and its genesis block are recorded together, or not at all. -/
def Agrees (identities : Identities) (chainId : Nat) (genesisHash : BlockHash) : Prop :=
  ∀ row ∈ identities, row.1 = chainId ↔ row.2 = genesisHash

theorem mem_of_lookup {identities : Identities} {chainId : Nat} {recorded : BlockHash}
    (h : identities.lookup chainId = some recorded) : (chainId, recorded) ∈ identities := by
  obtain ⟨before, after, rfl, -⟩ := List.lookup_eq_some_iff.1 h
  simp

theorem ensureChainIdentity_ok {identities rows : Identities} {chainId : Nat} {genesisHash : BlockHash}
    (h : Distinct identities)
    (hok : ensureChainIdentity identities chainId genesisHash = .ok rows) :
    Distinct rows ∧ identities <+: rows ∧ (chainId, genesisHash) ∈ rows := by
  unfold ensureChainIdentity at hok
  split at hok
  · rename_i recorded hlookup
    split at hok
    · rename_i heq
      cases hok
      subst heq
      exact ⟨h, List.prefix_rfl, mem_of_lookup hlookup⟩
    · cases hok
  · rename_i hlookup
    split at hok
    · cases hok
    · rename_i hgenesis
      cases hok
      have hchain : chainId ∉ identities.map (·.1) := by
        intro hmem
        obtain ⟨row, hrow, heq⟩ := List.mem_map.1 hmem
        have := List.lookup_eq_none_iff.1 hlookup row hrow
        simp [heq] at this
      refine ⟨⟨?_, ?_⟩, List.prefix_append _ _, by simp⟩
      · rw [List.map_append, List.map_singleton, ← List.concat_eq_append]
        exact h.ids.concat hchain
      · rw [List.map_append, List.map_singleton, ← List.concat_eq_append]
        exact h.geneses.concat hgenesis

/-- Who is refused contradicts the table. -/
theorem ensureChainIdentity_iff {identities : Identities} {chainId : Nat} {genesisHash : BlockHash}
    (h : Distinct identities) :
    (∃ rows, ensureChainIdentity identities chainId genesisHash = .ok rows) ↔
      Agrees identities chainId genesisHash := by
  constructor
  · rintro ⟨rows, hok⟩ row hrow
    obtain ⟨hrows, hgrown, hmem⟩ := ensureChainIdentity_ok h hok
    exact hrows.iff (hgrown.subset hrow) hmem
  · intro hagrees
    unfold ensureChainIdentity
    split
    · rename_i recorded hlookup
      exact ⟨identities, if_pos ((hagrees _ (mem_of_lookup hlookup)).1 rfl)⟩
    · rename_i hlookup
      refine ⟨_, if_neg fun hgenesis => ?_⟩
      obtain ⟨row, hrow, heq⟩ := List.mem_map.1 hgenesis
      have := List.lookup_eq_none_iff.1 hlookup row hrow
      simp [(hagrees row hrow).2 heq] at this

/-! ### Every run -/

/-- The node of the setup is one of the recorded chain. -/
structure Recorded (alloy : AlloyCrate) (identities : Identities) (setup : Setup) : Prop where
  agreed : setup.Agreed alloy
  row : (setup.primary.chainId, setup.primary.genesisHash) ∈ identities

theorem Recorded.mono {identities rows : Identities} (h : Recorded alloy identities setup)
    (hgrown : identities <+: rows) : Recorded alloy rows setup :=
  ⟨h.agreed, hgrown.subset h.row⟩

/-- **The invariant.** -/
structure World.Sound (alloy : AlloyCrate) {n : Nat} (w : World n) : Prop where
  distinct : Distinct w.identities
  identified : ∀ d setup, w.processes d = .identified setup → setup.Agreed alloy
  running : ∀ d setup, w.processes d = .running setup → Recorded alloy w.identities setup
  batches : ∀ setup ∈ w.batches, Recorded alloy w.identities setup

variable {n : Nat} {w w' : World n} {d : Fin n}

theorem World.sound_init : (World.init : World n).Sound alloy :=
  ⟨⟨.nil, .nil⟩, fun _ _ h => (by cases h), fun _ _ h => (by cases h), by simp [World.init]⟩

/-- A process goes on; rows are only added. -/
theorem World.Sound.goto (h : w.Sound alloy) {identities : Identities} {process : Process}
    (hdistinct : Distinct identities) (hgrown : w.identities <+: identities)
    (hidentified : ∀ setup, process = .identified setup → setup.Agreed alloy)
    (hrunning : ∀ setup, process = .running setup → Recorded alloy identities setup) :
    ({ w with identities }.goto d process).Sound alloy := by
  refine ⟨hdistinct, fun d' setup hd' => ?_, fun d' setup hd' => ?_,
    fun setup hsetup => (h.batches setup hsetup).mono hgrown⟩
  · by_cases hd : d' = d
    · subst hd
      exact hidentified setup ((Function.update_self _ _ _).symm.trans hd')
    · exact h.identified d' setup ((Function.update_of_ne hd _ _).symm.trans hd')
  · by_cases hd : d' = d
    · subst hd
      exact hrunning setup ((Function.update_self _ _ _).symm.trans hd')
    · exact (h.running d' setup ((Function.update_of_ne hd _ _).symm.trans hd')).mono hgrown

/-- Every step keeps the invariant, and the rows. -/
theorem World.step_keeps (h : w.Sound alloy) {action : Action n}
    (hs : w.step alloy action = some w') : w'.Sound alloy ∧ w.identities <+: w'.identities := by
  cases action with
  | start d setup =>
    simp only [World.step] at hs
    split at hs
    · cases hs
      exact ⟨h.goto h.distinct List.prefix_rfl (fun _ h => (by cases h)) (fun _ h => (by cases h)),
        List.prefix_rfl⟩
    · cases hs
  | identify d =>
    simp only [World.step] at hs
    split at hs
    · split at hs
      · rename_i hidentify
        cases hs
        refine ⟨h.goto h.distinct List.prefix_rfl (fun _ heq => ?_) (fun _ h => (by cases h)),
          List.prefix_rfl⟩
        cases heq
        exact identify_ok.1 hidentify
      · cases hs
        exact ⟨h.goto h.distinct List.prefix_rfl (fun _ h => (by cases h)) (fun _ h => (by cases h)),
          List.prefix_rfl⟩
    · cases hs
  | ensure d =>
    simp only [World.step] at hs
    split at hs
    · rename_i setup hprocess
      split at hs
      · rename_i hensure
        cases hs
        obtain ⟨hdistinct, hgrown, hrow⟩ := ensureChainIdentity_ok h.distinct hensure
        refine ⟨h.goto hdistinct hgrown (fun _ h => (by cases h)) (fun _ heq => ?_), hgrown⟩
        cases heq
        exact ⟨h.identified d setup hprocess, hrow⟩
      · cases hs
        exact ⟨h.goto h.distinct List.prefix_rfl (fun _ h => (by cases h)) (fun _ h => (by cases h)),
          List.prefix_rfl⟩
    · cases hs
  | applyBatch d =>
    simp only [World.step] at hs
    split at hs
    · rename_i setup hprocess
      cases hs
      refine ⟨⟨h.distinct, h.identified, h.running, fun other hother => ?_⟩, List.prefix_rfl⟩
      cases List.mem_append.1 hother with
      | inl hmem => exact h.batches other hmem
      | inr hmem =>
        rw [List.mem_singleton.1 hmem]
        exact h.running d setup hprocess
    · cases hs
  | stop d =>
    cases hs
    exact ⟨h.goto h.distinct List.prefix_rfl (fun _ h => (by cases h)) (fun _ h => (by cases h)),
      List.prefix_rfl⟩

theorem World.run_keeps (h : w.Sound alloy) {actions : List (Action n)}
    (hrun : w.run alloy actions = some w') : w'.Sound alloy ∧ w.identities <+: w'.identities :=
  Run.keeps (P := fun v => v.Sound alloy ∧ w.identities <+: v.identities)
    (fun _ _ _ ⟨hsound, hgrown⟩ hs =>
      ⟨(World.step_keeps hsound hs).1, hgrown.trans (World.step_keeps hsound hs).2⟩)
    ⟨h, List.prefix_rfl⟩ hrun

/-- **One genesis block a chain.** However starts, batches and stops of any processes interleave:
whoever wrote a batch reads a node of the genesis block that is recorded for its chain id, which the
verifier has too and the configuration asks for; the batches of one chain id are those of one genesis
block and the other way round; no recorded row ever changes; and the database lets a process that
comes through the first checks start exactly if no row contradicts it. -/
theorem one_genesis (alloy : AlloyCrate) {n : Nat} (actions : List (Action n)) {w : World n}
    (hrun : World.init.run alloy actions = some w) :
    (∀ setup ∈ w.batches, setup.Agreed alloy ∧
      (setup.primary.chainId, setup.primary.genesisHash) ∈ w.identities) ∧
    (∀ a ∈ w.batches, ∀ b ∈ w.batches,
      a.primary.chainId = b.primary.chainId ↔ a.primary.genesisHash = b.primary.genesisHash) ∧
    (∀ more w', w.run alloy more = some w' → w.identities <+: w'.identities) ∧
    ∀ d setup, w.processes d = .identified setup →
      ((∃ w', w.step alloy (.ensure d) = some w' ∧ w'.processes d = .running setup) ↔
        ∀ row ∈ w.identities, row.1 = setup.primary.chainId ↔ row.2 = setup.primary.genesisHash) := by
  have h := (World.run_keeps World.sound_init hrun).1
  refine ⟨fun setup hsetup => ⟨(h.batches setup hsetup).agreed, (h.batches setup hsetup).row⟩,
    fun a ha b hb => h.distinct.iff (h.batches a ha).row (h.batches b hb).row,
    fun more w' hmore => (World.run_keeps h hmore).2, fun d setup hprocess => ?_⟩
  refine Iff.trans ?_ (ensureChainIdentity_iff h.distinct)
  simp only [World.step, hprocess]
  cases ensureChainIdentity w.identities setup.primary.chainId setup.primary.genesisHash with
  | ok rows => simp [World.goto]
  | error error => simp [World.goto]

end

/-- A node of chain `chainId`. -/
def setupOf (chainId : Nat) (genesisHash : BlockHash) : Setup where
  expected := none
  primary := ⟨chainId, 9, 5, genesisHash⟩
  verifier := some ⟨chainId, 8, 4, genesisHash⟩

/-- `one_genesis` where a second process comes with another genesis block. -/
theorem one_genesis_refused : ∃ w, (World.init : World 2).run readingCrate
      [.start 0 (setupOf 1 7), .identify 0, .start 1 (setupOf 1 8), .identify 1, .ensure 0, .ensure 1,
        .applyBatch 0] = some w ∧
    w.identities = [(1, 7)] ∧ w.processes 1 = .stopped (some (.chainIdentityMismatch 1)) ∧
    ∀ setup ∈ w.batches, (setup.primary.chainId, setup.primary.genesisHash) ∈ w.identities := by
  have hseen : ((World.init : World 2).run readingCrate
      [.start 0 (setupOf 1 7), .identify 0, .start 1 (setupOf 1 8), .identify 1, .ensure 0, .ensure 1,
        .applyBatch 0]).map (fun w => (w.identities, w.processes 1)) =
      some ([(1, 7)], .stopped (some (.chainIdentityMismatch 1))) := by decide +kernel
  obtain ⟨w, hrun, hw⟩ := Option.map_eq_some_iff.1 hseen
  obtain ⟨hidentities, hprocess⟩ := Prod.mk.inj hw
  exact ⟨w, hrun, hidentities, hprocess,
    fun setup hsetup => ((one_genesis readingCrate _ hrun).1 setup hsetup).2⟩

end Chainweave.Start
