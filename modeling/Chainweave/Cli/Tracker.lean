import Chainweave.Cli.Reconnect
import Chainweave.Sink.Observability

/-!
# The tracker task

`crates/chainweave-cli/src/live_runtime.rs`: one reconciliation, what is published
after it, and the loop of `tracker_task`.

* `rpcCalls`: `RpcReconciliationSource`, a primary RPC and a verifier; what they
  answer is a parameter, and so is the moment of a shutdown.
* `Reconciler`: what `reconcile_and_publish` calls; `reconciler` is the one of
  production.
* `trackerTask`: the task over the turns of its `select!`. The ghost `outcomes` notes
  how each reconciliation ended.

Left out: a panic of the blocking task, the constant retry policy, and the tracing.
-/
namespace Chainweave.Runtime

open Stateful Chainweave.Chain Chainweave.Backfill Chainweave.Postgres Chainweave.Live
  Chainweave.Observability

/-! ## The source -/

/-- The calls of an RPC endpoint, over the state of its client and its budget.
mirrors crates/chainweave-cli/src/live_runtime.rs:92-244 -/
structure RpcLiveSource (σ : Type) where
  pollHead : Prog σ LiveRuntimeError BlockHeader
  blockByNumber : Nat → Prog σ LiveRuntimeError IndexedBlock
  blockByHash : BlockHash → Prog σ LiveRuntimeError IndexedBlock
  headerByNumber : Nat → Prog σ LiveRuntimeError BlockHeader
  headerByHash : BlockHash → Prog σ LiveRuntimeError (Option BlockHeader)

/-- ghost: a head of the primary, and what the verifier answered about the heights it was asked for -/
structure Sighting where
  head : BlockHeader
  answers : List (Nat × Except LiveRuntimeError BlockHeader) := []

/-- ghost: an answer about the last head -/
def noteAnswer (height : Nat) (answer : Except LiveRuntimeError BlockHeader) :
    List Sighting → List Sighting
  | [] => []
  | last :: earlier => { last with answers := last.answers ++ [(height, answer)] } :: earlier

/-- mirrors crates/chainweave-cli/src/live_runtime.rs:246-252 -/
structure RpcReconciliationSource (π ν : Type) where
  primary : π
  verifier : Option ν
  verifierDisagreements : Nat
  lastHead : Option BlockHeader
  /-- ghost: the heads so far, the last one first -/
  sightings : List Sighting := []

/-- mirrors crates/chainweave-cli/src/live_runtime.rs:294-298 -/
structure BlockingTrackerSource (π ν : Type) where
  source : RpcReconciliationSource π ν
  /-- how often a call was waited for -/
  waits : Nat

/-- mirrors crates/chainweave-cli/src/live_runtime.rs:59-67 -/
structure LiveCommandOptions where
  startBlock : Option Nat
  budgetWindow : Duration
  budgetCostUnitsPerWindow : Nat

/-- The arguments of `tracker_task` that it does not change. -/
structure TrackerArgs (π ν : Type) where
  primary : RpcLiveSource π
  verifier : RpcLiveSource ν
  options : LiveCommandOptions
  maxReorgDepth : Nat
  /-- whether a shutdown overtakes the call waited for -/
  overtaken : Nat → Bool
  /-- what `shutdown.is_cancelled()` answers -/
  isCancelled : Nat → Bool

section
variable {π ν : Type} (args : TrackerArgs π ν)

/-- A call that a shutdown overtakes leaves the source as it was.
mirrors crates/chainweave-cli/src/live_runtime.rs:433-452 -/
def blockOnWithShutdown {α : Type}
    (x : Prog (RpcReconciliationSource π ν) LiveRuntimeError α) :
    Prog (BlockingTrackerSource π ν) String α := do
  let s ← get
  modify fun s => { s with waits := s.waits + 1 }
  if args.overtaken s.waits then throw (LiveRuntimeError.task (.taskCancelled .tracker)).message
  else
    mapError LiveRuntimeError.message
      (zoom BlockingTrackerSource.source (fun source s => { s with source }) x)

/-- Call the primary. -/
def onPrimary {α : Type} (x : Prog π LiveRuntimeError α) :
    Prog (RpcReconciliationSource π ν) LiveRuntimeError α :=
  zoom RpcReconciliationSource.primary (fun primary s => { s with primary }) x

/-- The verifier's header, if there is a verifier. -/
def verifierHeader (height : Nat) :
    Prog (RpcReconciliationSource π ν) LiveRuntimeError (Option BlockHeader) :=
  ExceptT.mk fun s =>
    match s.verifier with
    | none => (.ok none, s)
    | some verifier =>
      let (answer, verifier) := exec (args.verifier.headerByNumber height) verifier
      (answer.map some, { s with
        verifier := some verifier
        sightings := noteAnswer height answer s.sightings })

/-- `self.verifier_disagreements.saturating_add(1)`. -/
def RpcReconciliationSource.disagree (s : RpcReconciliationSource π ν) :
    RpcReconciliationSource π ν :=
  { s with verifierDisagreements := satAdd s.verifierDisagreements 1 }

/-- mirrors crates/chainweave-cli/src/live_runtime.rs:272-286 -/
def verifyHead (primary : BlockHeader) :
    Prog (RpcReconciliationSource π ν) LiveRuntimeError Unit := do
  match ← attempt (verifierHeader args primary.height) with
  | .ok none => pure ()
  | .ok (some header) =>
    if header.hash ≠ primary.hash then modify RpcReconciliationSource.disagree
    else pure ()
  | .error _ => modify RpcReconciliationSource.disagree

/-- mirrors crates/chainweave-cli/src/live_runtime.rs:322-330 -/
def currentHead : Prog (BlockingTrackerSource π ν) String BlockHeader := do
  let header ← blockOnWithShutdown args (onPrimary args.primary.pollHead)
  modify fun s => { s with source := { s.source with
    lastHead := some header
    sightings := { head := header } :: s.source.sightings } }
  blockOnWithShutdown args (verifyHead args header)
  pure header

/-- mirrors crates/chainweave-cli/src/live_runtime.rs:381-400 -/
def verifyRecent (height : Nat) (hash : BlockHash) :
    Prog (BlockingTrackerSource π ν) String VerifierStatus := do
  let s ← get
  if s.source.verifier.isNone then pure .Unavailable
  else
    match ← attempt (blockOnWithShutdown args (verifierHeader args height)) with
    | .ok (some header) =>
      if header.hash = hash then pure .Match
      else
        modify fun s => { s with source := s.source.disagree }
        pure .Disagree
    | _ => pure .Unavailable

/-- mirrors crates/chainweave-cli/src/live_runtime.rs:318-400 -/
def rpcCalls : RpcCalls (BlockingTrackerSource π ν) where
  currentHead := currentHead args
  blockByNumber height := blockOnWithShutdown args (onPrimary (args.primary.blockByNumber height))
  blockByHash hash := blockOnWithShutdown args (onPrimary (args.primary.blockByHash hash))
  headerByNumber height := blockOnWithShutdown args (onPrimary (args.primary.headerByNumber height))
  headerByHash hash := blockOnWithShutdown args (onPrimary (args.primary.headerByHash hash))
  verifyRecent := verifyRecent args

/-! ## One reconciliation -/

/-- The database and the source, and how often the shutdown was looked at. -/
structure Runner (π ν : Type) where
  server : Server
  source : RpcReconciliationSource π ν
  waits : Nat := 0
  polls : Nat := 0

/-- The tracker's configuration in `reconcile_once`. -/
def liveConfig : LiveConfig where
  maxReorgDepth := args.maxReorgDepth
  liveBudgetCostUnitsPerMinute := args.options.budgetCostUnitsPerWindow
  explicitStart := args.options.startBlock
  finalizedHeight := none
  budgetWindow := args.options.budgetWindow

/-- The peers of a run. -/
def Runner.peers (s : Runner π ν) (checkpoint : Option BlockHeader) :
    Peers (BlockingTrackerSource π ν) BlockingPostgresLiveSink where
  source := { source := s.source, waits := s.waits }
  sink := { server := s.server, parentAnchor := checkpoint }
  polls := s.polls

/-- What is left of the peers after a run. -/
def Runner.ofPeers (p : Peers (BlockingTrackerSource π ν) BlockingPostgresLiveSink) : Runner π ν where
  server := p.sink.server
  source := p.source.source
  waits := p.source.waits
  polls := p.polls

/-- Run a program of the writer. -/
def onWriter {ε α : Type} (x : Prog Server ε α) : Prog (Runner π ν) ε α :=
  zoom Runner.server (fun server s => { s with server }) x

/-- The run of the tracker. -/
def trackerRun :
    Prog (Peers (BlockingTrackerSource π ν) BlockingPostgresLiveSink) LiveError LiveReport :=
  runWithCancellation (liveConfig args) (blockingTrackerSource (rpcCalls args)).toLiveSource
    BlockingPostgresLiveSink.liveSink args.isCancelled []

/-- mirrors crates/chainweave-cli/src/live_runtime.rs:960-1015 -/
def reconcileOnce : Prog (Runner π ν) LiveRuntimeError LiveReport := do
  let checkpoint ← onWriter PostgresLiveStore.checkpointHeader
  zoom (Runner.peers · checkpoint) (fun p _ => .ofPeers p)
    (mapError liveTrackerErrorToRuntime (trackerRun args))

end

/-! ## Publishing -/

/-- What `reconcile_and_publish` calls, over the state `W` of the database and the source. -/
structure Reconciler (W : Type) where
  reconcileOnce : Prog W LiveRuntimeError LiveReport
  /-- `writer.checkpoint()` -/
  checkpoint : Prog W LiveRuntimeError (Option Checkpoint)
  lastHead : W → Option BlockHeader
  verifierDisagreements : W → Nat

def reconciler {π ν : Type} (args : TrackerArgs π ν) : Reconciler (Runner π ν) where
  reconcileOnce := reconcileOnce args
  checkpoint := onWriter (mapError .sink Server.checkpoint)
  lastHead s := s.source.lastHead
  verifierDisagreements s := s.source.verifierDisagreements

/-- mirrors crates/chainweave-cli/src/live_runtime.rs:708-712 -/
structure StatusContext where
  primaryRpcUrl : String
  verifierRpcUrl : Option String

/-- What `tracker_task` changes. -/
structure TrackerState (W : Type) where
  world : W
  reconnect : ReconnectLoop
  health : HealthState
  /-- ghost: how each reconciliation ended -/
  outcomes : List (Except LiveTaskError Unit) := []

/-- What a turn of the task reads from outside: `Instant::now()` and `wakeup_rx.len()`. -/
structure Tick where
  now : Instant
  wakeupDepth : Nat

/-- mirrors crates/chainweave-cli/src/live_runtime.rs:941-948 -/
def correctnessStopReason : LiveHaltReason → String
  | .maxReorgDepth => "unresolved_ancestry"
  | .finalizedBoundary => "finalized_boundary_violation"
  | .missingExplicitStart | .correctness => "correctness_stop"

/-- mirrors crates/chainweave-cli/src/live_runtime.rs:1082-1097 -/
def readinessFromReconnect (reconnect : ReconnectLoop)
    (verifierDisagreements unreconciledGapCount : Nat) : Bool × String :=
  let reconnectReady := reconnect.readiness = .ready
  let ready := reconnectReady ∧ verifierDisagreements = 0 ∧ unreconciledGapCount = 0
  (ready, if ready then "ready" else if reconnectReady then "degraded" else "unavailable")

section
variable {W : Type} (R : Reconciler W) (context : StatusContext)

/-- Run a program over the world. -/
def onWorld {ε α : Type} (x : Prog W ε α) : Prog (TrackerState W) ε α :=
  zoom TrackerState.world (fun world s => { s with world }) x

def modifyReconnect {ε : Type} (f : ReconnectLoop → ReconnectLoop) :
    Prog (TrackerState W) ε PUnit :=
  modify fun s => { s with reconnect := f s.reconnect }

/-- A method of the loop that may refuse. -/
def tryReconnect (f : ReconnectLoop → Except LiveRuntimeError ReconnectLoop) :
    Prog (TrackerState W) LiveRuntimeError PUnit := do
  let s ← get
  let reconnect ← lift (f s.reconnect)
  modifyReconnect fun _ => reconnect

def modifyHealth {ε : Type} (f : HealthState → HealthState) : Prog (TrackerState W) ε PUnit :=
  modify fun s => { s with health := f s.health }

/-- mirrors crates/chainweave-cli/src/live_runtime.rs:1017-1053 -/
def publishStatus (tick : Tick) (unreconciledGapCount : Nat) :
    Prog (TrackerState W) LiveRuntimeError Unit := do
  let checkpoint ← onWorld R.checkpoint
  let s ← get
  let currentLagBlocks := (do
    let head ← R.lastHead s.world
    let checkpoint ← checkpoint
    return head.height - checkpoint.lastHeight).getD 0
  let verifierDisagreements := R.verifierDisagreements s.world
  let (ready, readiness) :=
    readinessFromReconnect s.reconnect verifierDisagreements unreconciledGapCount
  modifyHealth (·.updateLiveStatus {
    healthy := !s.reconnect.halted
    ready
    readiness
    primaryRpcUrl := some context.primaryRpcUrl
    verifierRpcUrl := context.verifierRpcUrl
    currentLagBlocks
    reconnectCount := s.reconnect.attempt
    wakeupDepth := tick.wakeupDepth
    unreconciledGapCount
    verifierDisagreementCount := verifierDisagreements })

/-- The gap between the head read last and the checkpoint of the report. -/
def gapCount (report : LiveReport) (lastHead : Option BlockHeader) : Nat :=
  (do
    let checkpoint ← report.finalCheckpoint
    let head ← lastHead
    return head.height - checkpoint.height).getD 0

/-- mirrors crates/chainweave-cli/src/live_runtime.rs:906-912 -/
def noteFailure (error : LiveRuntimeError) : Prog (TrackerState W) LiveRuntimeError PUnit :=
  if liveRuntimeErrorIsRpcDegradation error then do
    modifyReconnect (·.recordAvailabilityFailure.2)
    modifyHealth (·.markDegraded "rpc")
    throw error
  else throw error

/-- mirrors crates/chainweave-cli/src/live_runtime.rs:914-922 -/
def stopForCorrectness (reason : LiveHaltReason) : Prog (TrackerState W) LiveRuntimeError PUnit := do
  modifyReconnect (·.recordCorrectnessError.2)
  modifyHealth (·.markCorrectnessStop (correctnessStopReason reason))
  throw (.task (.taskFailed .tracker ("correctness-stop: " ++ correctnessStopReason reason)))

/-- Every caller passes `None` for `unreconciled_gap_count`.
mirrors crates/chainweave-cli/src/live_runtime.rs:891-939 -/
def reconcileAndPublish (tick : Tick) : Prog (TrackerState W) LiveRuntimeError Unit := do
  modifyReconnect (·.recordSubscribedForWakeups)
  match ← attempt (onWorld R.reconcileOnce) with
  | .error error => noteFailure error
  | .ok report =>
    match report.halted with
    | some reason => stopForCorrectness reason
    | none =>
      tryReconnect (·.recordReconciledToHead)
      tryReconnect (·.recordReadyAfterReconnectAt tick.now)
      let s ← get
      publishStatus R context tick (gapCount report (R.lastHead s.world))

/-! ## The task -/

/-- What the `select!` of `tracker_task` takes. -/
inductive Selected where
  | shutdown | wakeup | closed
  deriving DecidableEq, Repr

structure Turn where
  selected : Selected
  tick : Tick

/-- Whether the task has returned, or waits at its `select!`. -/
inductive TaskStatus where
  | waiting | returned
  deriving DecidableEq, Repr

/-- `reconcile_and_publish(..).await.map_err(live_runtime_error_to_task)?`. -/
def reconcile (tick : Tick) : Prog (TrackerState W) LiveTaskError Unit := do
  let outcome ← attempt (mapError liveRuntimeErrorToTask (reconcileAndPublish R context tick))
  modify fun s => { s with outcomes := s.outcomes ++ [outcome] }
  lift outcome

/-- mirrors crates/chainweave-cli/src/live_runtime.rs:815-852 -/
def trackerLoop : List Turn → Prog (TrackerState W) LiveTaskError TaskStatus
  | [] => pure .waiting
  | turn :: turns =>
    match turn.selected with
    | .shutdown => do
      modifyReconnect (·.recordDisconnectAt turn.tick.now)
      mapError liveRuntimeErrorToTask (publishStatus R context turn.tick 0)
      pure .returned
    | .closed => pure .returned
    | .wakeup => do
      reconcile R context turn.tick
      trackerLoop turns

/-- mirrors crates/chainweave-cli/src/live_runtime.rs:789-853 -/
def trackerTask (start : Tick) (turns : List Turn) : Prog (TrackerState W) LiveTaskError TaskStatus := do
  reconcile R context start
  trackerLoop R context turns

end

/-! ## How a reconciliation ends -/

section
variable {W : Type} {R : Reconciler W} {context : StatusContext} {tick : Tick} {s : TrackerState W} {w : W}

/-- The status that `publish_status` writes. -/
theorem exec_publishStatus_ok {gap : Nat} {checkpoint : Option Checkpoint}
    (h : exec R.checkpoint s.world = (.ok checkpoint, w)) :
    ∃ health, exec (publishStatus R context tick gap) s = (.ok (), { s with world := w, health }) ∧
      health.inner.ready =
        (readinessFromReconnect s.reconnect (R.verifierDisagreements w) gap).1 := by
  unfold publishStatus onWorld
  rw [exec_bind, exec_zoom, h]
  exact ⟨_, rfl, rfl⟩

theorem exec_publishStatus_error {gap : Nat} {e : LiveRuntimeError}
    (h : exec R.checkpoint s.world = (.error e, w)) :
    exec (publishStatus R context tick gap) s = (.error e, { s with world := w }) := by
  unfold publishStatus onWorld
  rw [exec_bind, exec_zoom, h]

theorem exec_noteFailure (error : LiveRuntimeError) :
    ∃ s', exec (noteFailure error) s = (.error error, s') := by
  unfold noteFailure
  split
  · exact ⟨_, rfl⟩
  · exact ⟨_, rfl⟩

theorem reconcileAndPublish_error {e : LiveRuntimeError}
    (h : exec R.reconcileOnce s.world = (.error e, w)) :
    ∃ s', exec (reconcileAndPublish R context tick) s = (.error e, s') := by
  unfold reconcileAndPublish modifyReconnect onWorld
  rw [exec_bind, exec_modify]
  dsimp only
  rw [exec_bind, exec_attempt, exec_zoom, h]
  exact exec_noteFailure e

theorem reconcileAndPublish_halted {report : LiveReport} {reason : LiveHaltReason}
    (h : exec R.reconcileOnce s.world = (.ok report, w)) (hhalted : report.halted = some reason) :
    ∃ s', exec (reconcileAndPublish R context tick) s =
      (.error (.task (.taskFailed .tracker ("correctness-stop: " ++ correctnessStopReason reason))), s') := by
  unfold reconcileAndPublish modifyReconnect onWorld
  rw [exec_bind, exec_modify]
  dsimp only
  rw [exec_bind, exec_attempt, exec_zoom, h]
  dsimp only
  rw [hhalted]
  exact ⟨_, rfl⟩

/-- Without a halt the loop is ready, and the status is published. -/
theorem reconcileAndPublish_publishes {report : LiveReport}
    (h : exec R.reconcileOnce s.world = (.ok report, w)) (hhalted : report.halted = none) :
    ∃ ready : ReconnectLoop, ready.halted = s.reconnect.halted ∧
      (ready.readiness = .ready ↔ s.reconnect.halted = false) ∧
      exec (reconcileAndPublish R context tick) s =
        exec (publishStatus R context tick (gapCount report (R.lastHead w)))
          { s with world := w, reconnect := ready } := by
  obtain ⟨reconciled, ready, hreconciled, hready, hsame, hiff⟩ :=
    s.reconnect.ready_after_reconciled tick.now
  refine ⟨ready, hsame, hiff, ?_⟩
  unfold reconcileAndPublish tryReconnect modifyReconnect onWorld
  rw [exec_bind, exec_modify]
  dsimp only
  rw [exec_bind, exec_attempt, exec_zoom, h]
  dsimp only
  rw [hhalted]
  simp only [exec_bind, exec_get, exec_lift, hreconciled, hready, exec_modify]

end

end Chainweave.Runtime
