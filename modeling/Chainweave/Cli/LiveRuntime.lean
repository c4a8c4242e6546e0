import Chainweave.Core.Live
import Chainweave.Sink.Postgres

/-!
# The live runtime's source and sink

`crates/chainweave-cli/src/live_runtime.rs`: the tracker's peers in production.

* `BlockSource`: a source of `IndexedBlock`s, each with its own header, as
  `BlockingTrackerSource` is. What the RPC answers is a parameter.
* `BlockingPostgresLiveSink`: the writer behind the sink's methods. A failed read
  is read as `None`; one block is committed through a coordinator of its own.

A shutdown that interrupts a commit is a fault of that commit.
-/
namespace Chainweave.Runtime

open Stateful Chainweave.Chain Chainweave.Backfill Chainweave.Postgres Chainweave.Live

/-! ## The source -/

/-- A source of indexed blocks: `block_header` is the block's own. -/
structure BlockSource (σ ε : Type) extends LiveSource σ ε IndexedBlock where
  blockHeader_eq : blockHeader = IndexedBlock.header

/-- `to_ascii_lowercase().contains(..)` is on characters here.
mirrors crates/chainweave-cli/src/live_runtime.rs:883-889 -/
def sourceErrorRequestsRereconcile (message : String) : Bool :=
  let lower := message.toList.map Char.toLower
  let contains (text : String) : Bool := text.toList <:+: lower
  let hashAnchoredBlockNotFound := contains "eth_getlogs" &&
    (contains "blockhash" || contains "block hash") && contains "block not found"
  hashAnchoredBlockNotFound || contains "rpc log block hash does not match"

/-- The calls of `RpcReconciliationSource` that the tracker's source makes. -/
structure RpcCalls (σ : Type) where
  currentHead : Prog σ String BlockHeader
  blockByNumber : Nat → Prog σ String IndexedBlock
  blockByHash : BlockHash → Prog σ String IndexedBlock
  headerByNumber : Nat → Prog σ String BlockHeader
  headerByHash : BlockHash → Prog σ String (Option BlockHeader)
  verifyRecent : Nat → BlockHash → Prog σ String VerifierStatus

/-- mirrors crates/chainweave-cli/src/live_runtime.rs:318-400 -/
def blockingTrackerSource {σ : Type} (rpc : RpcCalls σ) : BlockSource σ String where
  currentHead := rpc.currentHead
  blockByNumber := rpc.blockByNumber
  blockByHash := rpc.blockByHash
  headerByNumber height := some <$> rpc.headerByNumber height
  headerByHash := rpc.headerByHash
  blockHeader := IndexedBlock.header
  blockLogsMatchHeader _ := true
  sourceErrorKind error :=
    if sourceErrorRequestsRereconcile error then .reconcile else .transient
  verifyRecent := rpc.verifyRecent
  message error := error
  blockHeader_eq := rfl

/-! ## Errors -/

/-- mirrors crates/chainweave-core/src/chain.rs:107-145 -/
def chainErrorMessage : ChainError → String
  | .emptyHeaderCache => "header cache size must be nonzero"
  | .emptyMaxReorgDepth => "max reorg depth must be nonzero"
  | .newHeadBehindTip n t => s!"new head is behind the current tip: new={n}, tip={t}"
  | .invalidExtensionHeight n t =>
    s!"new head references current tip but has invalid height: new={n}, tip={t}"
  | .missingParent hash => "missing parent header for hash " ++ debugHash hash
  | .invalidParentLink c p expected actual =>
    s!"invalid parent link: child height {c} parent height {p}; child parent hash " ++
      debugHash expected ++ ", parent hash " ++ debugHash actual
  | .maxDepthExceeded m => s!"could not prove common ancestor within max depth {m}"
  | .finalizedBoundary a f =>
    s!"reorg would cross finalized boundary: ancestor height {a}, finalized height {f}"
  | .emptyCanonicalChain => "canonical chain is empty"
  | .brokenCanonicalChain h => s!"canonical chain has a broken link at height {h}"
  | .resolver error => "ancestry resolver failed: " ++ error.message

/-- mirrors crates/chainweave-cli/src/live_runtime.rs:1587-1593 -/
inductive LiveTask where
  | healthServer | wakeups | poll | tracker
  deriving DecidableEq, Repr

/-- `{0:?}`. -/
def LiveTask.name : LiveTask → String
  | .healthServer => "HealthServer"
  | .wakeups => "Wakeups"
  | .poll => "Poll"
  | .tracker => "Tracker"

/-- mirrors crates/chainweave-cli/src/live_runtime.rs:1542-1562 -/
inductive LiveTaskError where
  | chain (error : ChainError)
  | rpcTransient (message : String)
  | webSocketTransient (message : String)
  | databaseTransient (message : String)
  | taskPanicked (task : LiveTask)
  | taskCancelled (task : LiveTask)
  | taskExitedEarly (task : LiveTask)
  | taskFailed (task : LiveTask) (message : String)
  | supervisorCancelled
  deriving DecidableEq, Repr

/-- mirrors crates/chainweave-cli/src/live_runtime.rs:1542-1562 -/
def LiveTaskError.message : LiveTaskError → String
  | .chain error => "live runtime correctness error: " ++ chainErrorMessage error
  | .rpcTransient message => "live runtime transient RPC error: " ++ message
  | .webSocketTransient message => "live runtime transient WebSocket error: " ++ message
  | .databaseTransient message => "live runtime transient database error: " ++ message
  | .taskPanicked task => "live runtime task " ++ task.name ++ " panicked"
  | .taskCancelled task => "live runtime task " ++ task.name ++ " was cancelled"
  | .taskExitedEarly task => "live runtime task " ++ task.name ++ " exited before shutdown"
  | .taskFailed task message => "live runtime task " ++ task.name ++ " failed: " ++ message
  | .supervisorCancelled => "live runtime supervisor task was cancelled"

/-- The errors of the live runtime. Where only its text is read, an error of another crate is that
text.
mirrors crates/chainweave-cli/src/live_runtime.rs:31-57 -/
inductive LiveRuntimeError where
  | config (error : String)
  | rpcEndpoint (endpoint source : String)
  | rpc (source : String)
  | sink (error : PostgresStateError)
  | migration (message : String)
  | observability (error : String)
  | backfill (error : BackfillError)
  | missingCheckpointHeader (height : Nat)
  | budget (message : String)
  | reconnectPolicy (message : String)
  | reconnectOrder (message : String)
  | task (error : LiveTaskError)
  deriving DecidableEq, Repr

/-- mirrors crates/chainweave-cli/src/live_runtime.rs:31-57 -/
def LiveRuntimeError.message : LiveRuntimeError → String
  | .config error => "configuration validation failed: " ++ error
  | .rpcEndpoint endpoint source => "RPC endpoint " ++ endpoint ++ " failed: " ++ source
  | .rpc source => source
  | .sink error => error.message
  | .migration message => "database migration failed: " ++ message
  | .observability error => "observability server failed: " ++ error
  | .backfill error => error.message
  | .missingCheckpointHeader height => s!"checkpoint height {height} has no canonical header"
  | .budget message => "invalid live RPC budget: " ++ message
  | .reconnectPolicy message => "invalid reconnect policy: " ++ message
  | .reconnectOrder message => "invalid reconnect order: " ++ message
  | .task error => error.message

/-! ## The store -/

namespace PostgresLiveStore

/-- mirrors crates/chainweave-cli/src/live_runtime.rs:1175-1186 -/
def checkpointHeader : Prog Server LiveRuntimeError (Option BlockHeader) := do
  match ← mapError .sink Server.checkpoint with
  | none => pure none
  | some checkpoint =>
    match ← mapError .sink (Server.canonicalHeaderAtHeight checkpoint.lastHeight) with
    | some header => pure (some header)
    | none => throw (.missingCheckpointHeader checkpoint.lastHeight)

/-- mirrors crates/chainweave-cli/src/live_runtime.rs:1193-1201 -/
def canonicalHeaderAtHeight (height : Nat) : Prog Server LiveRuntimeError (Option BlockHeader) :=
  mapError .sink (Server.canonicalHeaderAtHeight height)

/-- mirrors crates/chainweave-cli/src/live_runtime.rs:1208-1216 -/
def canonicalHeaderByHash (hash : BlockHash) :
    Prog Server LiveRuntimeError (Option BlockHeader) :=
  mapError .sink (Server.canonicalHeaderByHash hash)

/-- The range and the coordinator of one block. -/
def oneBlock (parentAnchor : Option BlockHeader) (block : IndexedBlock) : Except BackfillError
    (FetchedRange IndexedBlock × OrderedCommitCoordinator IndexedBlock) := do
  let fetched ← oneBlockRange block.header.height block.header block
  let coordinator ← OrderedCommitCoordinator.new block.header.height block.header.height parentAnchor
  return (fetched, coordinator)

/-- mirrors crates/chainweave-cli/src/live_runtime.rs:1224-1239 -/
def commitOneBlock (parentAnchor : Option BlockHeader) (block : IndexedBlock) :
    Prog Server LiveRuntimeError Unit := do
  let (fetched, coordinator) ← lift ((oneBlock parentAnchor block).mapError .backfill)
  let _ ← mapError .backfill (withLocal (PostgresBackfillCommitter.new parentAnchor)
    (withLocal coordinator
      (OrderedCommitCoordinator.push PostgresBackfillCommitter.commitRange fetched)))

end PostgresLiveStore

/-! ## The sink -/

/-- mirrors crates/chainweave-cli/src/live_runtime.rs:403-408; the store is the server. -/
structure BlockingPostgresLiveSink where
  server : Server
  parentAnchor : Option BlockHeader

namespace BlockingPostgresLiveSink

/-- `self.handle.block_on(..).ok().flatten()`. -/
def readOrNone (read : Prog Server LiveRuntimeError (Option BlockHeader))
    (sink : BlockingPostgresLiveSink) : Option BlockHeader × BlockingPostgresLiveSink :=
  let (outcome, server) := exec read sink.server
  (outcome.toOption.join, { sink with server })

/-- Run a program of the store. -/
def onServer {ε α : Type} (x : Prog Server ε α) : Prog BlockingPostgresLiveSink ε α :=
  zoom server (fun server sink => { sink with server }) x

/-- mirrors crates/chainweave-cli/src/live_runtime.rs:475-480 -/
def checkpoint : BlockingPostgresLiveSink → Option BlockHeader × BlockingPostgresLiveSink :=
  readOrNone PostgresLiveStore.checkpointHeader

/-- mirrors crates/chainweave-cli/src/live_runtime.rs:457-471 -/
def commitRange : CommitRange BlockingPostgresLiveSink IndexedBlock := fun fetched => do
  match fetched.headers.getLast?, fetched.logs.head? with
  | none, _ => throw "cannot commit empty live range"
  | _, none => throw "missing live block payload"
  | some header, some block =>
    let sink ← get
    mapError LiveRuntimeError.message
      (onServer (PostgresLiveStore.commitOneBlock sink.parentAnchor block))
    modify fun sink => { sink with parentAnchor := some header }

/-- mirrors crates/chainweave-cli/src/live_runtime.rs:496-508 -/
def commitBatch (batch : ChainBatch) (applyBlocks : List IndexedBlock) :
    Prog BlockingPostgresLiveSink String Unit := do
  let durable ← mapError PostgresStateError.message
    (lift (DurableChainBatch.fromChainBatch batch applyBlocks))
  let _ ← mapError PostgresStateError.message (onServer (Server.applyBatch durable))
  modify fun sink =>
    let (header, sink) := sink.checkpoint
    { sink with parentAnchor := header }

/-- mirrors crates/chainweave-cli/src/live_runtime.rs:454-509 -/
def liveSink : LiveSink BlockingPostgresLiveSink IndexedBlock where
  checkpoint := checkpoint
  canonicalHeaderAtHeight height := readOrNone (PostgresLiveStore.canonicalHeaderAtHeight height)
  canonicalHeaderByHash hash := readOrNone (PostgresLiveStore.canonicalHeaderByHash hash)
  commitRange := commitRange
  commitBatch := commitBatch

end BlockingPostgresLiveSink

end Chainweave.Runtime
