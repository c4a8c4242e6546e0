import Mathlib.Logic.Basic
import Mathlib.Tactic.Common

/-!
# Published health

`crates/chainweave-sink/src/observability.rs`: the status that the endpoints serve, and
the three ways the live runner changes it. The metrics gauges are left out.
-/
namespace Chainweave.Observability

/-- mirrors crates/chainweave-sink/src/observability.rs:74-86 -/
structure LiveStatusSnapshot where
  healthy : Bool
  ready : Bool
  readiness : String
  primaryRpcUrl : Option String
  verifierRpcUrl : Option String
  currentLagBlocks : Nat
  reconnectCount : Nat
  wakeupDepth : Nat
  unreconciledGapCount : Nat
  verifierDisagreementCount : Nat
  deriving DecidableEq, Repr

/-- The defaults are `StatusSnapshot::default()`.
mirrors crates/chainweave-sink/src/observability.rs:21-36, 88-106 -/
structure StatusSnapshot where
  healthy : Bool := false
  ready : Bool := false
  readiness : String := "unavailable"
  healthState : String := "unavailable"
  degradedComponents : List String := []
  correctnessStopReason : Option String := none
  primaryRpcUrl : Option String := none
  verifierRpcUrl : Option String := none
  currentLagBlocks : Nat := 0
  reconnectCount : Nat := 0
  wakeupDepth : Nat := 0
  unreconciledGapCount : Nat := 0
  verifierDisagreementCount : Nat := 0
  deriving DecidableEq, Repr

/-- mirrors crates/chainweave-sink/src/observability.rs:311-321 -/
def liveHealthState (healthy ready : Bool) (readiness : String) : String :=
  if healthy = false then "unavailable"
  else if ready then "ready"
  else if readiness = "degraded" then "degraded"
  else "unavailable"

/-- `StatusSnapshot::from`.
mirrors crates/chainweave-sink/src/observability.rs:108-127 -/
def StatusSnapshot.ofLive (snapshot : LiveStatusSnapshot) : StatusSnapshot where
  healthy := snapshot.healthy
  ready := snapshot.ready
  readiness := snapshot.readiness
  healthState := liveHealthState snapshot.healthy snapshot.ready snapshot.readiness
  degradedComponents := []
  correctnessStopReason := none
  primaryRpcUrl := snapshot.primaryRpcUrl
  verifierRpcUrl := snapshot.verifierRpcUrl
  currentLagBlocks := snapshot.currentLagBlocks
  reconnectCount := snapshot.reconnectCount
  wakeupDepth := snapshot.wakeupDepth
  unreconciledGapCount := snapshot.unreconciledGapCount
  verifierDisagreementCount := snapshot.verifierDisagreementCount

/-- mirrors crates/chainweave-sink/src/observability.rs:16-19 -/
structure HealthState where
  inner : StatusSnapshot
  deriving DecidableEq, Repr

namespace HealthState

/-- mirrors crates/chainweave-sink/src/observability.rs:184-199 -/
def markDegraded (self : HealthState) (component : String) : HealthState where
  inner := { self.inner with
    healthy := true
    ready := false
    readiness := "degraded"
    healthState := "degraded"
    correctnessStopReason := none
    degradedComponents :=
      if component ∈ self.inner.degradedComponents then self.inner.degradedComponents
      else self.inner.degradedComponents ++ [component] }

/-- mirrors crates/chainweave-sink/src/observability.rs:201-210 -/
def markCorrectnessStop (self : HealthState) (reason : String) : HealthState where
  inner := { self.inner with
    healthy := false
    ready := false
    readiness := "correctness-stop"
    healthState := "correctness-stop"
    degradedComponents := []
    correctnessStopReason := some reason }

/-- mirrors crates/chainweave-sink/src/observability.rs:212-216 -/
def updateLiveStatus (_ : HealthState) (status : LiveStatusSnapshot) : HealthState where
  inner := .ofLive status

end HealthState

/-! ## The endpoints -/

/-- mirrors crates/chainweave-sink/src/observability.rs:57-72 -/
structure StatusBody where
  status : String
  ready : Bool
  readiness : String
  healthState : String
  degradedComponents : List String
  correctnessStopReason : Option String
  primaryRpcUrl : Option String
  verifierRpcUrl : Option String
  currentLagBlocks : Nat
  reconnectCount : Nat
  wakeupDepth : Nat
  unreconciledGapCount : Nat
  verifierDisagreementCount : Nat
  deriving DecidableEq, Repr

/-- `StatusBody::from`.
mirrors crates/chainweave-sink/src/observability.rs:129-153 -/
def StatusBody.ofSnapshot (snapshot : StatusSnapshot) : StatusBody where
  status := if snapshot.healthy then "ok" else "unavailable"
  ready := snapshot.ready
  readiness := snapshot.readiness
  healthState := snapshot.healthState
  degradedComponents := snapshot.degradedComponents
  correctnessStopReason := snapshot.correctnessStopReason
  primaryRpcUrl := snapshot.primaryRpcUrl
  verifierRpcUrl := snapshot.verifierRpcUrl
  currentLagBlocks := snapshot.currentLagBlocks
  reconnectCount := snapshot.reconnectCount
  wakeupDepth := snapshot.wakeupDepth
  unreconciledGapCount := snapshot.unreconciledGapCount
  verifierDisagreementCount := snapshot.verifierDisagreementCount

/-- `StatusCode::OK` and `StatusCode::SERVICE_UNAVAILABLE`. -/
inductive StatusCode where
  | ok | serviceUnavailable
  deriving DecidableEq, Repr

/-- mirrors crates/chainweave-sink/src/observability.rs:302-309 -/
def statusResponse (ok : Bool) (snapshot : StatusSnapshot) : StatusCode × StatusBody :=
  (if ok then .ok else .serviceUnavailable, .ofSnapshot snapshot)

/-- mirrors crates/chainweave-sink/src/observability.rs:292-295 -/
def healthEndpoint (state : HealthState) : StatusCode × StatusBody :=
  statusResponse state.inner.healthy state.inner

/-- mirrors crates/chainweave-sink/src/observability.rs:297-300 -/
def readinessEndpoint (state : HealthState) : StatusCode × StatusBody :=
  statusResponse state.inner.ready state.inner

end Chainweave.Observability
