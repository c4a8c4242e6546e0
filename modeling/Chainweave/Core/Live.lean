import Chainweave.Core.Backfill

/-!
# The live tracker

`crates/chainweave-core/src/live.rs`: one run of `LiveTracker` reads the source's
head and brings the sink to it, block by block or by one batch of `ChainState`.

* `LiveSource` is a record of programs over the source's own state, so an answer
  may depend on everything asked before; `LiveSink` is one over the sink's state.
* `is_cancelled` is a function of how often it was asked.
* `Peers`: what a run is given. `Locals`: its `budget` and `report`.
* The ghost `trace` notes the heads a run acts on and the batches it hands over, the ghost
  `spendings` the requests it issues, whether its budget counts them or not.

Left out: `poll_interval` and `retry_policy`, which this file does not read.
-/
namespace Chainweave.Live

open Stateful Chainweave.Chain Chainweave.Backfill

/-- A `Duration`, in nanoseconds. -/
abbrev Duration := Nat

/-- `Duration::as_secs`. -/
def Duration.asSecs (d : Duration) : Nat := d / 10 ^ 9

/-- mirrors crates/chainweave-core/src/live.rs:11-20 -/
structure LiveConfig where
  maxReorgDepth : Nat
  liveBudgetCostUnitsPerMinute : Nat
  explicitStart : Option Nat
  finalizedHeight : Option Nat
  budgetWindow : Duration
  deriving DecidableEq, Repr

/-- mirrors crates/chainweave-core/src/live.rs:22-27 -/
inductive LiveReadiness where
  | ready | degraded | unavailable
  deriving DecidableEq, Repr

/-- mirrors crates/chainweave-core/src/live.rs:29-35 -/
inductive LiveHaltReason where
  | maxReorgDepth | missingExplicitStart | finalizedBoundary | correctness
  deriving DecidableEq, Repr

/-- mirrors crates/chainweave-core/src/live.rs:37-52 -/
structure LiveReport where
  finalCheckpoint : Option BlockHeader
  readiness : LiveReadiness := .ready
  readinessTransitions : List LiveReadiness := []
  rollbackOrder : List Nat := []
  applyOrder : List Nat := []
  committedBeforeFault : List Nat := []
  panics : Nat := 0
  partialCommitsBeforeRecovery : Nat := 0
  continuedAfterBudgetExhaustion : Bool := false
  manualClockAdvances : List Nat := []
  verifierDisagreements : Nat := 0
  shutdownCompleted : Bool := false
  halted : Option LiveHaltReason := none
  deriving DecidableEq, Repr

namespace LiveReport

/-- mirrors crates/chainweave-core/src/live.rs:55-73 -/
def new (finalCheckpoint : Option BlockHeader) : LiveReport := { finalCheckpoint }

/-- `LiveReport::halted`.
mirrors crates/chainweave-core/src/live.rs:74-81 -/
def halt (finalCheckpoint : Option BlockHeader) (reason : LiveHaltReason) : LiveReport :=
  { new finalCheckpoint with readiness := .unavailable, halted := some reason }

/-- mirrors crates/chainweave-core/src/live.rs:83-88 -/
def transition (report : LiveReport) (readiness : LiveReadiness) : LiveReport :=
  if report.readiness = readiness then report
  else { report with
    readiness
    readinessTransitions := report.readinessTransitions ++ [readiness] }

end LiveReport

/-- mirrors crates/chainweave-core/src/live.rs:91-96 -/
inductive LiveHeadEvent where
  | wake (header : BlockHeader)
  | disconnect
  | reconnect
  deriving DecidableEq, Repr

/-- mirrors crates/chainweave-core/src/live.rs:98-103 -/
inductive VerifierStatus where
  | Match | Disagree | Unavailable
  deriving DecidableEq, Repr

/-- mirrors crates/chainweave-core/src/live.rs:105-109 -/
inductive LiveSourceErrorKind where
  | transient | reconcile
  deriving DecidableEq, Repr

/-- mirrors crates/chainweave-core/src/live.rs:111-135; `message` is the error's `Display`. -/
structure LiveSource (σ ε β : Type) where
  currentHead : Prog σ ε BlockHeader
  blockByNumber : Nat → Prog σ ε β
  blockByHash : BlockHash → Prog σ ε β
  headerByNumber : Nat → Prog σ ε (Option BlockHeader)
  headerByHash : BlockHash → Prog σ ε (Option BlockHeader)
  blockHeader : β → BlockHeader
  blockLogsMatchHeader : β → Bool
  sourceErrorKind : ε → LiveSourceErrorKind
  verifyRecent : Nat → BlockHash → Prog σ ε VerifierStatus
  message : ε → String

/-- The reads do not fail. A commit fails with the message of the sink's error.
mirrors crates/chainweave-core/src/live.rs:137-142 -/
structure LiveSink (κ β : Type) where
  checkpoint : κ → Option BlockHeader × κ
  canonicalHeaderAtHeight : Nat → κ → Option BlockHeader × κ
  canonicalHeaderByHash : BlockHash → κ → Option BlockHeader × κ
  commitRange : CommitRange κ β
  commitBatch : ChainBatch → List β → Prog κ String Unit

/-- mirrors crates/chainweave-core/src/live.rs:144-158 -/
inductive LiveError where
  | source (message : String)
  | sink (message : String)
  | cancelled
  | reconcile (message : String)
  | chain (error : ChainError)
  | backfill (error : BackfillError)
  deriving DecidableEq, Repr

/-! ## The budget window -/

/-- mirrors crates/chainweave-core/src/live.rs:591-596 -/
structure WindowBudget where
  budget : RpcBudget
  window : Duration
  exhaustedOnce : Bool

namespace WindowBudget

/-- mirrors crates/chainweave-core/src/live.rs:599-606 -/
def new (config : LiveConfig) : Except LiveError WindowBudget := do
  let budget ← (RpcBudget.new u64Max config.liveBudgetCostUnitsPerMinute).mapError .backfill
  return { budget, window := config.budgetWindow, exhaustedOnce := false }

/-- What a run notes when its window is used up. -/
def noteExhausted (self : WindowBudget) (report : LiveReport) : LiveReport :=
  let report := { report with continuedAfterBudgetExhaustion := true }
  let report := (report.transition .degraded).transition .unavailable
  { report with
    manualClockAdvances := report.manualClockAdvances ++ [max self.window.asSecs 1] }

/-- mirrors crates/chainweave-core/src/live.rs:608-622 -/
def record (self : WindowBudget) (method : RpcMethod) (report : LiveReport) :
    Except LiveError (WindowBudget × LiveReport) :=
  if self.exhaustedOnce then .ok (self, report)
  else
    match self.budget.record method method.defaultCost with
    | .ok budget => .ok ({ self with budget }, report)
    | .error _ => do
      let fresh ← (RpcBudget.new u64Max u64Max).mapError .backfill
      let budget ← (fresh.record method method.defaultCost).mapError .backfill
      return ({ self with budget, exhaustedOnce := true }, self.noteExhausted report)

end WindowBudget

/-! ## The state of a run -/

/-- ghost: what a run did that its result depends on, with the sink it met -/
inductive LiveStep (κ : Type) where
  /-- the header the source has at the height of a head below the checkpoint -/
  | remote (head : BlockHeader) (sink : κ) (answer : Option BlockHeader)
  /-- the head read again by `reconcile_current_head` -/
  | reread (head : BlockHeader) (sink : κ)
  /-- the batch of a head, handed to the sink -/
  | batch (head : BlockHeader) (sink : κ) (batch : ChainBatch)

structure Peers (σ κ : Type) where
  source : σ
  sink : κ
  /-- how often `is_cancelled` was asked -/
  polls : Nat := 0
  /-- ghost: the steps so far -/
  trace : List (LiveStep κ) := []

/-- ghost: the calls of the source that no budget records -/
inductive Unrecorded where
  /-- of the ancestor search -/
  | headerByHash
  | verifyRecent
  /-- for a block; that for its logs is recorded once the block is there -/
  | failedBlock (error : LiveError)
  deriving DecidableEq, Repr

/-- ghost: what counts in a window -/
inductive Spending where
  /-- handed to `WindowBudget::record` -/
  | request (method : RpcMethod)
  | unrecorded (call : Unrecorded)
  /-- an entry of `manual_clock_advances` -/
  | rollover
  deriving DecidableEq, Repr

structure Locals where
  budget : WindowBudget
  report : LiveReport
  /-- ghost: the requests so far, and the rollovers recorded between them -/
  spendings : List Spending := []

/-- A method of the tracker. -/
abbrev Track (σ κ α : Type) := Prog (Locals × Peers σ κ) LiveError α

section
variable {σ κ ε α : Type}

/-- Run a program over the peers. -/
def onPeers (x : Prog (Peers σ κ) ε α) : Prog (Locals × Peers σ κ) ε α :=
  zoom Prod.snd (fun p s => (s.1, p)) x

/-- Call the source. -/
def onSource (x : Prog σ ε α) : Prog (Peers σ κ) ε α :=
  zoom Peers.source (fun a p => { p with source := a }) x

/-- Call the sink. -/
def onSink (x : Prog κ ε α) : Prog (Peers σ κ) ε α :=
  zoom Peers.sink (fun k p => { p with sink := k }) x

/-- A read of the sink. -/
def readSink (read : κ → α × κ) : Prog (Peers σ κ) ε α :=
  ExceptT.mk fun p => (.ok (read p.sink).1, { p with sink := (read p.sink).2 })

/-- ghost: note a step -/
def note (step : κ → LiveStep κ) : Prog (Peers σ κ) ε PUnit :=
  modify fun p => { p with trace := p.trace ++ [step p.sink] }

/-- mirrors crates/chainweave-core/src/live.rs:552-557 -/
def ensureNotCancelled (isCancelled : Nat → Bool) : Prog (Peers σ κ) LiveError Unit := do
  let p ← get
  modify fun p => { p with polls := p.polls + 1 }
  if isCancelled p.polls then throw .cancelled
  else pure ()

def modifyReport (f : LiveReport → LiveReport) : Track σ κ PUnit :=
  modify fun s => ({ s.1 with report := f s.1.report }, s.2)

/-- ghost: a call that no budget records -/
def issue (call : Unrecorded) : Prog (Locals × Peers σ κ) ε PUnit :=
  modify fun s => ({ s.1 with spendings := s.1.spendings ++ [.unrecorded call] }, s.2)

/-- ghost: a request, after the rollovers that `record` noted for it -/
def spend (before after : LiveReport) (method : RpcMethod) : List Spending :=
  List.replicate (after.manualClockAdvances.length - before.manualClockAdvances.length) .rollover ++
    [.request method]

/-- `budget.record(method, report)?`. -/
def record (method : RpcMethod) : Track σ κ PUnit := do
  let s ← get
  let (budget, report) ← lift (s.1.budget.record method s.1.report)
  modify fun s =>
    ({ budget, report, spendings := s.1.spendings ++ spend s.1.report report method }, s.2)

end

section
variable {σ κ ε β : Type} (config : LiveConfig) (source : LiveSource σ ε β) (sink : LiveSink κ β)
  (isCancelled : Nat → Bool)

/-- mirrors crates/chainweave-core/src/live.rs:533-543 -/
def sourceError (error : ε) : LiveError :=
  match source.sourceErrorKind error with
  | .transient => .source (source.message error)
  | .reconcile => .reconcile (source.message error)

/-- `.map_err(|error| LiveError::Source(error.to_string()))?`. -/
def callSource {α : Type} (x : Prog σ ε α) : Track σ κ α :=
  onPeers (mapError (fun error => .source (source.message error)) (onSource x))

/-- ghost: a request for a block that fails may have got as far as the logs -/
def noteFailed {α : Type} (x : Track σ κ α) : Track σ κ α := do
  match ← (attempt x : Track σ κ (Except LiveError α)) with
  | .ok block => pure block
  | .error error =>
    issue (.failedBlock error)
    throw error

/-- A request for a block, with `.map_err(Self::source_error::<S>)?`. -/
def fetch {α : Type} (x : Prog σ ε α) : Track σ κ α :=
  noteFailed (onPeers (mapError (sourceError source) (onSource x)))

/-- The text of a mismatch that a second fetch did not mend. -/
def logMismatch (height : Nat) : LiveError :=
  .source s!"block/log hash mismatch persisted at height {height}"

/-- mirrors crates/chainweave-core/src/live.rs:472-501 -/
def validateOrRefetchNumber (height : Nat) (block : β) : Track σ κ (BlockHeader × β) := do
  if source.blockLogsMatchHeader block then pure (source.blockHeader block, block)
  else
    modifyReport (·.transition .degraded)
    record .getBlockByNumber
    let block ← fetch source (source.blockByNumber height)
    record .getLogs
    if source.blockLogsMatchHeader block then pure (source.blockHeader block, block)
    else throw (logMismatch height)

/-- mirrors crates/chainweave-core/src/live.rs:503-531 -/
def validateOrRefetchHash (expected : BlockHeader) (block : β) : Track σ κ β := do
  if source.blockHeader block = expected ∧ source.blockLogsMatchHeader block then pure block
  else
    modifyReport (·.transition .degraded)
    record .getBlockByHash
    let block ← fetch source (source.blockByHash expected.hash)
    record .getLogs
    if source.blockHeader block = expected ∧ source.blockLogsMatchHeader block then pure block
    else throw (logMismatch expected.height)

/-- The push of one range, beside the tracker's coordinator. -/
def pushRange (coordinator : OrderedCommitCoordinator β) (fetched : FetchedRange β) :
    Track σ κ (CommitProgress × OrderedCommitCoordinator β) :=
  onPeers (mapError .backfill (onSink
    (withLocal coordinator (OrderedCommitCoordinator.push sink.commitRange fetched))))

/-- The range of one block. -/
def oneBlockRange (height : Nat) (header : BlockHeader) (block : β) :
    Except BackfillError (FetchedRange β) := do
  let range ← BackfillRange.new height height
  FetchedRange.new range [header] [block]

/-- Returns the coordinator, which the source changes in place.
mirrors crates/chainweave-core/src/live.rs:352-384 -/
def fetchAndPushHeight (coordinator : OrderedCommitCoordinator β) (height : Nat) :
    Track σ κ (OrderedCommitCoordinator β) := do
  record .getBlockByNumber
  let block ← fetch source (source.blockByNumber height)
  record .getLogs
  let (header, block) ← validateOrRefetchNumber source height block
  let fetched ← lift ((oneBlockRange height header block).mapError .backfill)
  let (progress, coordinator) ← pushRange sink coordinator fetched
  if 0 < progress.committedBlocks then
    modifyReport fun report => { report with applyOrder := report.applyOrder ++ [height] }
    pure coordinator
  else pure coordinator

/-- mirrors crates/chainweave-core/src/live.rs:559-589 -/
def liveResolver : AncestryResolver (Locals × Peers σ κ) where
  headerByHash hash := do
    issue .headerByHash
    onPeers (mapError (fun error => ⟨source.message error⟩) (onSource (source.headerByHash hash)))
  canonicalHeaderByHash hash := onPeers (readSink (sink.canonicalHeaderByHash hash))
  canonicalHeaderAtHeight height := onPeers (readSink (sink.canonicalHeaderAtHeight height))

/-- The blocks of the apply events.
mirrors crates/chainweave-core/src/live.rs:447-464 -/
def fetchApplyBlocks : List ChainEvent → Track σ κ (List β)
  | [] => pure []
  | .rollback header :: events => do
    onPeers (ensureNotCancelled isCancelled)
    modifyReport fun report =>
      { report with rollbackOrder := report.rollbackOrder ++ [header.height] }
    fetchApplyBlocks events
  | .apply header :: events => do
    onPeers (ensureNotCancelled isCancelled)
    modifyReport fun report => { report with applyOrder := report.applyOrder ++ [header.height] }
    record .getBlockByHash
    let block ← fetch source (source.blockByHash header.hash)
    record .getLogs
    let block ← validateOrRefetchHash source header block
    let blocks ← fetchApplyBlocks events
    pure (block :: blocks)

/-- `*report = LiveReport::halted(sink.checkpoint(), reason)`. -/
def haltRun (reason : LiveHaltReason) : Track σ κ Unit := do
  let checkpoint ← onPeers (readSink sink.checkpoint)
  modifyReport fun _ => LiveReport.halt checkpoint reason

/-- The state of `apply_chain_state` before it applies the head. -/
def checkpointState (checkpoint : BlockHeader) : Except LiveError ChainState := do
  let state ← (ChainState.fromTip checkpoint 256 config.maxReorgDepth).mapError .chain
  return state.setFinalizedHeight config.finalizedHeight

/-- What `apply_chain_state` does with a batch.
mirrors crates/chainweave-core/src/live.rs:447-469 -/
def commitChainBatch (head : BlockHeader) (batch : ChainBatch) : Track σ κ Unit := do
  let applyBlocks ← fetchApplyBlocks source isCancelled batch.events
  onPeers (note (.batch head · batch))
  onPeers (mapError .sink (onSink (sink.commitBatch batch applyBlocks)))

/-- mirrors crates/chainweave-core/src/live.rs:408-470 -/
def applyChainState (head : BlockHeader) : Track σ κ Unit := do
  match ← onPeers (readSink sink.checkpoint) with
  | none => pure ()
  | some checkpoint =>
    let state ← lift (checkpointState config checkpoint)
    let outcome ← attempt (withLocal state (ChainState.apply (liveResolver source sink) head))
    match outcome with
    | .ok (batch, _) => commitChainBatch source sink isCancelled head batch
    | .error (.maxDepthExceeded _) => haltRun sink .maxReorgDepth
    | .error (.finalizedBoundary _ _) => haltRun sink .finalizedBoundary
    | .error error => throw (.chain error)

/-- mirrors crates/chainweave-core/src/live.rs:386-406 -/
def reconcileCurrentHead : Track σ κ Unit := do
  onPeers (ensureNotCancelled isCancelled)
  modifyReport (·.transition .degraded)
  record .getBlockByNumber
  let head ← callSource source source.currentHead
  onPeers (note (.reread head))
  applyChainState config source sink isCancelled head

/-- The loop of `catch_up_from_start`. -/
def startLoop : List Nat → OrderedCommitCoordinator β → Track σ κ Unit
  | [], _ => pure ()
  | height :: heights, coordinator => do
    onPeers (ensureNotCancelled isCancelled)
    let coordinator ← fetchAndPushHeight source sink coordinator height
    startLoop heights coordinator

/-- `from..=to`. -/
def heightsTo (fromHeight toHeight : Nat) : List Nat :=
  List.range' fromHeight (toHeight + 1 - fromHeight)

/-- mirrors crates/chainweave-core/src/live.rs:289-311 -/
def catchUpFromStart (head : BlockHeader) : Track σ κ Unit := do
  let start := config.explicitStart.getD 0
  let coordinator ← lift ((OrderedCommitCoordinator.new start head.height none).mapError .backfill)
  startLoop source sink isCancelled (heightsTo start head.height) coordinator

/-- The errors on which catch-up goes on to `reconcile_current_head`. -/
def LiveError.needsReconcile : LiveError → Bool
  | .backfill (.fetchedSuffixInvalidated _ _ _) => true
  | .reconcile _ => true
  | _ => false

/-- The loop of `catch_up_from_checkpoint`. -/
def checkpointLoop : List Nat → OrderedCommitCoordinator β → Track σ κ Unit
  | [], _ => pure ()
  | height :: heights, coordinator => do
    onPeers (ensureNotCancelled isCancelled)
    match ← attempt (fetchAndPushHeight source sink coordinator height) with
    | .ok coordinator => checkpointLoop heights coordinator
    | .error error =>
      if error.needsReconcile then
        modifyReport fun report => { report with applyOrder := [] }
        reconcileCurrentHead config source sink isCancelled
      else throw error

/-- mirrors crates/chainweave-core/src/live.rs:313-350 -/
def catchUpFromCheckpoint (checkpoint head : BlockHeader) : Track σ κ Unit := do
  let start := checkpoint.height + 1
  let coordinator ← lift
    ((OrderedCommitCoordinator.new start head.height (some checkpoint)).mapError .backfill)
  checkpointLoop config source sink isCancelled (heightsTo start head.height) coordinator

/-- mirrors crates/chainweave-core/src/live.rs:546-550 -/
def markReadyIfHealthy (report : LiveReport) : LiveReport :=
  if report.halted = none ∧ report.verifierDisagreements = 0 then report.transition .ready
  else report

/-- `report.final_checkpoint = sink.checkpoint(); mark_ready_if_healthy(&mut report)`. -/
def finish : Track σ κ Unit := do
  let checkpoint ← onPeers (readSink sink.checkpoint)
  modifyReport fun report => markReadyIfHealthy { report with finalCheckpoint := checkpoint }

/-- The report after the verifier's answer. -/
def noteVerifier (status : VerifierStatus) (report : LiveReport) : LiveReport :=
  if status = .Disagree then
    { report with verifierDisagreements := report.verifierDisagreements + 1 }.transition .degraded
  else report

/-- `if let (Some(remote), Some(local)) = .. && remote.hash == local.hash`. -/
def sameHash (remote localRow : Option BlockHeader) : Bool :=
  match remote, localRow with
  | some remote, some localRow => remote.hash = localRow.hash
  | _, _ => false

/-- A head below the checkpoint.
mirrors crates/chainweave-core/src/live.rs:240-257 -/
def lowerHead (checkpoint head : BlockHeader) : Track σ κ Unit := do
  record .getBlockByNumber
  let remoteAtHead ← callSource source (source.headerByNumber head.height)
  let localAtHead ← onPeers (readSink (sink.canonicalHeaderAtHeight head.height))
  onPeers (note (.remote head · remoteAtHead))
  if sameHash remoteAtHead localAtHead then
    modifyReport fun report =>
      { report with finalCheckpoint := some checkpoint }.transition .degraded
  else
    applyChainState config source sink isCancelled head
    finish sink

/-- mirrors crates/chainweave-core/src/live.rs:209-287 -/
def trackHead : Track σ κ Unit := do
  record .getBlockByNumber
  let head ← callSource source source.currentHead
  issue .verifyRecent
  let status ← callSource source (source.verifyRecent head.height head.hash)
  modifyReport (noteVerifier status)
  match ← onPeers (readSink sink.checkpoint) with
  | none =>
    if config.explicitStart.isNone then
      modifyReport fun _ => LiveReport.halt (some head) .missingExplicitStart
    else
      catchUpFromStart config source sink isCancelled head
      finish sink
  | some checkpoint =>
    if head.height < checkpoint.height then
      lowerHead config source sink isCancelled checkpoint head
    else if head.height = checkpoint.height then
      if head.hash ≠ checkpoint.hash then
        applyChainState config source sink isCancelled head
        finish sink
      else finish sink
    else
      catchUpFromCheckpoint config source sink isCancelled checkpoint head
      finish sink

/-- The report after one head event. -/
def observeEvent (report : LiveReport) : LiveHeadEvent → LiveReport
  | .disconnect => report.transition .unavailable
  | .reconnect => report
  | .wake _ => report

/-- mirrors crates/chainweave-core/src/live.rs:186-287 -/
def runWithCancellation (events : List LiveHeadEvent) : Prog (Peers σ κ) LiveError LiveReport := do
  let checkpoint ← readSink sink.checkpoint
  let report := events.foldl observeEvent (LiveReport.new checkpoint)
  ensureNotCancelled isCancelled
  let budget ← lift (WindowBudget.new config)
  let (_, locals) ← withLocal { budget, report } (trackHead config source sink isCancelled)
  pure locals.report

/-- mirrors crates/chainweave-core/src/live.rs:171-184 -/
def run (events : List LiveHeadEvent) : Prog (Peers σ κ) LiveError LiveReport :=
  runWithCancellation config source sink (fun _ => false) events

end

end Chainweave.Live
