import Chainweave.Cli.LiveRuntime

/-!
# Reconnecting

`crates/chainweave-cli/src/live_runtime.rs`: how an error of a live task is
classified, and the loop that turns it into a retry or a halt. An `Instant` and a
`Duration` are nanoseconds.
-/
namespace Chainweave.Runtime

open Chainweave.Backfill Chainweave.Live

/-! ## Classes of errors -/

/-- mirrors crates/chainweave-cli/src/live_runtime.rs:1564-1568 -/
inductive LiveTaskErrorClass where
  | transient | correctness
  deriving DecidableEq, Repr

/-- mirrors crates/chainweave-cli/src/live_runtime.rs:1571-1585 -/
def LiveTaskError.classify : LiveTaskError → LiveTaskErrorClass
  | .rpcTransient _ | .webSocketTransient _ | .databaseTransient _ => .transient
  | .chain _ | .taskPanicked _ | .taskCancelled _ | .taskExitedEarly _ | .taskFailed _ _
  | .supervisorCancelled => .correctness

/-- mirrors crates/chainweave-cli/src/live_runtime.rs:855-865 -/
def liveRuntimeErrorToTask : LiveRuntimeError → LiveTaskError
  | .task error => error
  | .rpcEndpoint _ source => .rpcTransient source
  | .rpc source => .rpcTransient source
  | .sink error => .databaseTransient error.message
  | .backfill error => .databaseTransient error.message
  | error => .taskFailed .tracker error.message

/-- mirrors crates/chainweave-cli/src/live_runtime.rs:867-881 -/
def liveTrackerErrorToRuntime : LiveError → LiveRuntimeError
  | .cancelled => .task (.taskCancelled .tracker)
  | .chain error => .task (.chain error)
  | .reconcile error => .task (.rpcTransient error)
  | .source error => .task (.rpcTransient error)
  | .sink error => .task (.databaseTransient error)
  | .backfill error => .task (.databaseTransient error.message)

/-- mirrors crates/chainweave-cli/src/live_runtime.rs:950-958 -/
def liveRuntimeErrorIsRpcDegradation : LiveRuntimeError → Bool
  | .rpcEndpoint _ _ | .rpc _ | .task (.rpcTransient _) | .task (.webSocketTransient _) => true
  | _ => false

/-! ## The policy -/

/-- A point of time. -/
abbrev Instant := Nat

def durationMax : Duration := u64Max * 10 ^ 9 + (10 ^ 9 - 1)

/-- `Duration::saturating_add`. -/
def Duration.saturatingAdd (a b : Duration) : Duration := min (a + b) durationMax

/-- mirrors crates/chainweave-cli/src/live_runtime.rs:1534-1540 -/
def saturatingDurationMul (duration : Duration) (multiplier : Nat) : Duration :=
  min (duration * multiplier) u64Max

/-- `new` refuses a zero delay, and a base delay above the cap.
mirrors crates/chainweave-cli/src/live_runtime.rs:1323-1331 -/
structure ReconnectPolicy where
  baseDelay : Duration
  maxDelay : Duration
  deterministicSpread : Duration
  minHealthyDuration : Duration
  deriving DecidableEq, Repr

namespace ReconnectPolicy

/-- mirrors crates/chainweave-cli/src/live_runtime.rs:1339-1366 -/
def new (baseDelay maxDelay deterministicSpread minHealthyDuration : Duration) :
    Except LiveRuntimeError ReconnectPolicy :=
  if baseDelay = 0 ∨ maxDelay = 0 then
    .error (.reconnectPolicy "reconnect delays must be nonzero")
  else if minHealthyDuration = 0 then
    .error (.reconnectPolicy "reconnect healthy duration must be nonzero")
  else if maxDelay < baseDelay then
    .error (.reconnectPolicy "reconnect base delay must not exceed max delay")
  else .ok { baseDelay, maxDelay, deterministicSpread, minHealthyDuration }

/-- mirrors crates/chainweave-cli/src/live_runtime.rs:1376-1388 -/
def spreadForAttempt (self : ReconnectPolicy) (attempt : Nat) : Duration :=
  let spreadNanos := min self.deterministicSpread u64Max
  if spreadNanos = 0 then 0
  else (attempt * 6364136223846793005 + 1442695040888963407) % 2 ^ 64 % (spreadNanos + 1)

/-- mirrors crates/chainweave-cli/src/live_runtime.rs:1368-1374 -/
def delayForAttempt (self : ReconnectPolicy) (attempt : Nat) : Duration :=
  let exponent := min (attempt - 1) 31
  let exponential := min (saturatingDurationMul self.baseDelay (2 ^ exponent)) self.maxDelay
  Duration.saturatingAdd exponential (self.spreadForAttempt attempt)

end ReconnectPolicy

/-- The policy of `run_live`.
mirrors crates/chainweave-cli/src/live_runtime.rs:653-658 -/
def livePolicy : ReconnectPolicy where
  baseDelay := 10 ^ 9
  maxDelay := 30 * 10 ^ 9
  deterministicSpread := 500 * 10 ^ 6
  minHealthyDuration := 30 * 10 ^ 9

/-! ## The loop -/

/-- mirrors crates/chainweave-cli/src/live_runtime.rs:1311-1315 -/
inductive RuntimeReadiness where
  | ready | unavailable
  deriving DecidableEq, Repr

/-- mirrors crates/chainweave-cli/src/live_runtime.rs:1317-1321 -/
inductive ReconnectAction where
  | retryAfter (delay : Duration)
  | halt
  deriving DecidableEq, Repr

/-- mirrors crates/chainweave-cli/src/live_runtime.rs:1391-1400 -/
structure ReconnectLoop where
  policy : ReconnectPolicy
  attempt : Nat
  readiness : RuntimeReadiness
  halted : Bool
  healthySince : Option Instant
  subscribedToWakeups : Bool
  reconciledAfterSubscribe : Bool
  deriving DecidableEq, Repr

namespace ReconnectLoop

/-- mirrors crates/chainweave-cli/src/live_runtime.rs:1403-1414 -/
def new (policy : ReconnectPolicy) : ReconnectLoop where
  policy
  attempt := 0
  readiness := .unavailable
  halted := false
  healthySince := none
  subscribedToWakeups := false
  reconciledAfterSubscribe := false

/-- The four lines that take readiness back. -/
def unready (self : ReconnectLoop) : ReconnectLoop :=
  { self with
    readiness := .unavailable
    healthySince := none
    subscribedToWakeups := false
    reconciledAfterSubscribe := false }

/-- mirrors crates/chainweave-cli/src/live_runtime.rs:1525-1531 -/
def resetBackoffIfMinHealthyElapsed (self : ReconnectLoop) (now : Instant) : ReconnectLoop :=
  if self.healthySince.any fun since => self.policy.minHealthyDuration ≤ now - since then
    { self with attempt := 0 }
  else self

/-- mirrors crates/chainweave-cli/src/live_runtime.rs:1435-1441 -/
def recordDisconnectAt (self : ReconnectLoop) (now : Instant) : ReconnectLoop :=
  (self.resetBackoffIfMinHealthyElapsed now).unready

/-- mirrors crates/chainweave-cli/src/live_runtime.rs:1443-1448 -/
def recordConnectedNeedsReconciliation (self : ReconnectLoop) : ReconnectLoop := self.unready

/-- mirrors crates/chainweave-cli/src/live_runtime.rs:1454-1459 -/
def recordCatchUpCompleteAt (self : ReconnectLoop) (now : Instant) : ReconnectLoop :=
  if self.halted then self else { self with readiness := .ready, healthySince := some now }

/-- mirrors crates/chainweave-cli/src/live_runtime.rs:1461-1466 -/
def recordSubscribedForWakeups (self : ReconnectLoop) : ReconnectLoop :=
  { self with
    readiness := .unavailable
    healthySince := none
    subscribedToWakeups := true
    reconciledAfterSubscribe := false }

/-- mirrors crates/chainweave-cli/src/live_runtime.rs:1468-1477 -/
def recordReconciledToHead (self : ReconnectLoop) : Except LiveRuntimeError ReconnectLoop :=
  if self.subscribedToWakeups then
    .ok { self with readiness := .unavailable, reconciledAfterSubscribe := true }
  else .error (.reconnectOrder "must subscribe to head wakeups before reconciliation")

/-- mirrors crates/chainweave-cli/src/live_runtime.rs:1479-1492 -/
def recordReadyAfterReconnectAt (self : ReconnectLoop) (now : Instant) :
    Except LiveRuntimeError ReconnectLoop :=
  if self.subscribedToWakeups ∧ self.reconciledAfterSubscribe then
    .ok ({ self with subscribedToWakeups := false, reconciledAfterSubscribe := false }
      |>.recordCatchUpCompleteAt now)
  else .error (.reconnectOrder "must subscribe and reconcile before marking live tracker ready")

/-- mirrors crates/chainweave-cli/src/live_runtime.rs:1494-1505 -/
def recordAvailabilityFailure (self : ReconnectLoop) : ReconnectAction × ReconnectLoop :=
  if self.halted then (.halt, self)
  else
    let attempt := satAdd self.attempt 1
    (.retryAfter (self.policy.delayForAttempt attempt), { self.unready with attempt })

/-- mirrors crates/chainweave-cli/src/live_runtime.rs:1507-1515 -/
def recordCorrectnessError (self : ReconnectLoop) : ReconnectAction × ReconnectLoop :=
  (.halt, { self.unready with halted := true })

/-- mirrors crates/chainweave-cli/src/live_runtime.rs:1517-1523 -/
def recordTaskError (self : ReconnectLoop) (error : LiveTaskError) :
    ReconnectAction × ReconnectLoop :=
  match error.classify with
  | .transient => self.recordAvailabilityFailure
  | .correctness => self.recordCorrectnessError

/-- A reconciled loop is ready, unless it has halted. -/
theorem ready_after_reconciled (self : ReconnectLoop) (now : Instant) :
    ∃ reconciled ready, self.recordSubscribedForWakeups.recordReconciledToHead = .ok reconciled ∧
      reconciled.recordReadyAfterReconnectAt now = .ok ready ∧ ready.halted = self.halted ∧
      (ready.readiness = .ready ↔ self.halted = false) := by
  refine ⟨_, _, rfl, rfl, ?_, ?_⟩
  · unfold recordCatchUpCompleteAt
    split <;> rfl
  · unfold recordCatchUpCompleteAt
    cases h : self.halted with
    | true => simp [recordSubscribedForWakeups, h]
    | false => simp [recordSubscribedForWakeups, h]

end ReconnectLoop

end Chainweave.Runtime
