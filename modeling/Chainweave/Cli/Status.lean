import Chainweave.Cli.Readiness
import Chainweave.Cli.Supervisor

/-!
# The status of live mode

`crates/chainweave-cli/src/live_runtime.rs`: two tasks write the status that the health
server serves, the tracker after each reconciliation and the wakeup task whenever its
subscription fails; neither knows of the other.

* `step`: the tasks and the supervisor of `Supervisor`, with the programs of the tracker
  run where they end. A reconciliation writes the status at most once, as its last act.
* `Sound`: once the tracker has stopped for correctness it is gone.
* `stop_stays`: a correctness stop keeps live mode unready, but the wakeup task may
  take it back: the health endpoint is fine again and the reason lost.
* `ready_earned`: live mode says ready only on the word of its last reconciliation.
-/
namespace Chainweave.Status

open Stateful Chainweave.Chain Chainweave.Postgres Chainweave.Live Chainweave.Runtime
  Chainweave.Observability Chainweave.Supervisor

variable {W : Type}

/-! ## The programs -/

/-- mirrors crates/chainweave-cli/src/live_runtime.rs:1099-1112 -/
def initialStatus (context : StatusContext) : LiveStatusSnapshot where
  healthy := false
  ready := false
  readiness := "unavailable"
  primaryRpcUrl := some context.primaryRpcUrl
  verifierRpcUrl := context.verifierRpcUrl
  currentLagBlocks := 0
  reconnectCount := 0
  wakeupDepth := 0
  unreconciledGapCount := 0
  verifierDisagreementCount := 0

/-- The shutdown branch of the tracker.
mirrors crates/chainweave-cli/src/live_runtime.rs:817-831 -/
def disconnect (R : Reconciler W) (context : StatusContext) (tick : Tick) :
    Prog (TrackerState W) LiveTaskError Unit := do
  modifyReconnect (·.recordDisconnectAt tick.now)
  mapError liveRuntimeErrorToTask (publishStatus R context tick 0)

/-- What the wakeup task makes of the end of its subscription.
mirrors crates/chainweave-cli/src/live_runtime.rs:748-766 -/
def noteSubscription (health : HealthState) : SubscriptionEnd → HealthState
  | .failed _ => health.markDegraded "rpc"
  | .cancelled => health
  | .panicked => health
  | .other _ => health

/-! ## Live mode -/

structure LiveMode (W : Type) where
  tasks : System
  tracker : TrackerState W

/-- The status that is served. -/
def LiveMode.health (s : LiveMode W) : HealthState := s.tracker.health

inductive Act
  /-- a reconciliation of the tracker ends -/
  | reconciled (tick : Tick)
  /-- the tracker takes the shutdown branch -/
  | disconnected (tick : Tick)
  | subscription (ending : SubscriptionEnd)
  /-- a step that writes no status -/
  | silent (label : Label)

/-- The steps of the supervisor's model that are not one of the others. -/
def Silent : Label → Bool
  | .reconciled _ => false
  | .shutdown .tracker _ => false
  | .subscription _ => false
  | _ => true

section
variable (R : Reconciler W) (context : StatusContext)

/-- `run_live` before it waits.
mirrors crates/chainweave-cli/src/live_runtime.rs:537-555, 651-688 -/
def start (isWsUrl : Bool) (policy : ReconnectPolicy) (world : W) : LiveMode W where
  tasks := .start isWsUrl
  tracker := {
    world
    reconnect := .new policy
    health := .updateLiveStatus ⟨{}⟩ (initialStatus context) }

def step (s : LiveMode W) : Act → Option (LiveMode W)
  | .reconciled tick =>
    let (outcome, tracker) := exec (reconcile R context tick) s.tracker
    (Supervisor.step s.tasks (.reconciled outcome)).map fun tasks => { tasks, tracker }
  | .disconnected tick =>
    let (published, tracker) := exec (disconnect R context tick) s.tracker
    (Supervisor.step s.tasks (.shutdown .tracker published)).map fun tasks => { tasks, tracker }
  | .subscription ending =>
    (Supervisor.step s.tasks (.subscription ending)).map fun tasks =>
      { tasks, tracker := { s.tracker with health := noteSubscription s.health ending } }
  | .silent label =>
    if Silent label then (Supervisor.step s.tasks label).map fun tasks => { s with tasks } else none

def run (s : LiveMode W) (acts : List Act) : Option (LiveMode W) := acts.foldlM (step R context) s

end

/-! ## What the tracker writes -/

/-- What a program of the tracker writes, by whether it returns: at most one status, and a halt only with
a correctness stop. -/
inductive Wrote (halted : Bool) (health : HealthState) : Bool → Bool → HealthState → Prop
  | published {status : LiveStatusSnapshot} (healthy : status.healthy = !halted)
      (readiness : status.ready = true → status.readiness = "ready") :
      Wrote halted health true halted (health.updateLiveStatus status)
  | degraded : Wrote halted health false halted (health.markDegraded "rpc")
  | stopped (reason : String) : Wrote halted health false true (health.markCorrectnessStop reason)
  | nothing : Wrote halted health false halted health

section
variable {R : Reconciler W} {context : StatusContext} {tick : Tick} {s : TrackerState W}

theorem publishStatus_wrote (gap : Nat) : wp (publishStatus R context tick gap)
    (fun _ s' => Wrote s.reconnect.halted s.health true s'.reconnect.halted s'.health ∧
      s'.health.inner.ready =
        (readinessFromReconnect s.reconnect (R.verifierDisagreements s'.world) gap).1)
    (fun _ s' => Wrote s.reconnect.halted s.health false s'.reconnect.halted s'.health) s := by
  unfold publishStatus onWorld
  rw [wp_bind]
  refine wp_zoom (wp_mono (wp_const trivial) (fun checkpoint w _ => ?_) fun _ _ _ => .nothing)
  rw [wp_bind, wp_get]
  refine ⟨.published rfl fun hready => ?_, rfl⟩
  have hready : (readinessFromReconnect s.reconnect (R.verifierDisagreements w) gap).1 = true := hready
  show (readinessFromReconnect s.reconnect (R.verifierDisagreements w) gap).2 = "ready"
  unfold readinessFromReconnect at hready ⊢
  dsimp only at hready ⊢
  rw [if_pos (of_decide_eq_true hready)]

theorem halted_availabilityFailure (reconnect : ReconnectLoop) :
    reconnect.recordAvailabilityFailure.2.halted = reconnect.halted := by
  unfold ReconnectLoop.recordAvailabilityFailure
  split
  · rfl
  · rfl

theorem reconcileAndPublish_wrote : wp (reconcileAndPublish R context tick)
    (fun _ s' => Wrote s.reconnect.halted s.health true s'.reconnect.halted s'.health)
    (fun _ s' => Wrote s.reconnect.halted s.health false s'.reconnect.halted s'.health) s := by
  cases honce : exec R.reconcileOnce s.world with
  | mk r w =>
    cases r with
    | error e =>
      unfold reconcileAndPublish modifyReconnect onWorld
      rw [wp_bind, wp_modify, wp_bind]
      refine wp_attempt (wp_zoom (wp_of_eq honce (fun _ h => by cases h) fun e _ => ?_))
      dsimp only
      unfold noteFailure
      split
      · unfold modifyReconnect modifyHealth
        rw [wp_bind, wp_modify, wp_bind, wp_modify, wp_throw]
        dsimp only
        rw [halted_availabilityFailure]
        exact .degraded
      · exact .nothing
    | ok report =>
      cases hhalted : report.halted with
      | some reason =>
        unfold reconcileAndPublish modifyReconnect onWorld
        rw [wp_bind, wp_modify, wp_bind]
        refine wp_attempt (wp_zoom (wp_of_eq honce (fun report' h => ?_) fun _ h => by cases h))
        cases h
        dsimp only
        rw [hhalted]
        exact .stopped _
      | none =>
        obtain ⟨ready, hsame, -, hexec⟩ :=
          @reconcileAndPublish_publishes _ _ context tick _ _ _ honce hhalted
        have hpublish := @publishStatus_wrote _ R context tick
          { s with world := w, reconnect := ready } (gapCount report (R.lastHead w))
        unfold wp at hpublish ⊢
        rw [hexec]
        rw [← hsame]
        split
        · rename_i hx
          rw [hx] at hpublish
          exact hpublish.1
        · rename_i hx
          rw [hx] at hpublish
          exact hpublish

/-- **A reconciliation writes** at most one status; a correctness stop fails it. -/
theorem reconcile_wrote {outcome : TaskResult} {s' : TrackerState W}
    (h : exec (reconcile R context tick) s = (outcome, s')) :
    Wrote s.reconnect.halted s.health outcome.toBool s'.reconnect.halted s'.health := by
  have hwp : wp (reconcile R context tick)
      (fun _ s' => Wrote s.reconnect.halted s.health true s'.reconnect.halted s'.health)
      (fun _ s' => Wrote s.reconnect.halted s.health false s'.reconnect.halted s'.health) s := by
    unfold reconcile
    rw [wp_bind]
    refine wp_attempt (wp_mapError (wp_mono reconcileAndPublish_wrote (fun _ s1 h1 => ?_)
      fun e s1 h1 => ?_))
    · rw [wp_bind, wp_modify, wp_lift]
      exact ⟨fun _ _ => h1, fun _ he => by cases he⟩
    · rw [wp_bind, wp_modify, wp_lift]
      exact ⟨fun _ he => absurd he (by simp), fun _ _ => h1⟩
  cases outcome with
  | ok => exact wp_ok hwp h
  | error => exact wp_error hwp h

theorem halted_disconnect (reconnect : ReconnectLoop) (now : Instant) :
    (reconnect.recordDisconnectAt now).halted = reconnect.halted ∧
      (reconnect.recordDisconnectAt now).readiness = .unavailable := by
  unfold ReconnectLoop.recordDisconnectAt ReconnectLoop.resetBackoffIfMinHealthyElapsed
  split
  · exact ⟨rfl, rfl⟩
  · exact ⟨rfl, rfl⟩

/-- The last status of the tracker is not ready. -/
theorem disconnect_wrote {published : TaskResult} {s' : TrackerState W}
    (h : exec (disconnect R context tick) s = (published, s')) :
    Wrote s.reconnect.halted s.health published.toBool s'.reconnect.halted s'.health ∧
      (published = .ok () → s'.health.inner.ready = false) := by
  obtain ⟨hhalted, hunready⟩ := halted_disconnect s.reconnect tick.now
  have hwp : wp (disconnect R context tick)
      (fun _ s' => Wrote s.reconnect.halted s.health true s'.reconnect.halted s'.health ∧
        s'.health.inner.ready = false)
      (fun _ s' => Wrote s.reconnect.halted s.health false s'.reconnect.halted s'.health) s := by
    unfold disconnect modifyReconnect
    rw [wp_bind, wp_modify]
    refine wp_mapError (wp_mono (publishStatus_wrote 0) (fun _ s1 h1 => ?_) fun e s1 h1 => ?_)
    · dsimp only at h1
      rw [hhalted] at h1
      refine ⟨h1.1, ?_⟩
      rw [h1.2]
      simp [readinessFromReconnect, hunready]
    · dsimp only at h1
      rw [hhalted] at h1
      exact h1
  cases published with
  | ok => exact ⟨(wp_ok hwp h).1, fun _ => (wp_ok hwp h).2⟩
  | error => exact ⟨wp_error hwp h, fun hok => by cases hok⟩

end

/-! ## The tracker after its stop -/

section
variable {t t' : System}

/-- The tracker has exited, or was joined. -/
def Gone (t : System) : Prop := t.tasks .tracker ≠ some .selecting ∧ t.tasks .tracker ≠ some .away

theorem gone_of_exited {result : TaskResult} :
    Gone (t.setTask .tracker (some (.exited result))) := by
  constructor
  · simp [System.setTask]
  · simp [System.setTask]

theorem move_gone {task : LiveTask} {pc next : Pc} (h : Gone t) (hs : t.move task pc next = some t') :
    task ≠ .tracker ∧ Gone t' := by
  obtain ⟨hpc, rfl⟩ := move_ok hs
  have hne : task ≠ .tracker := by
    rintro rfl
    exact hpc.elim h.1 h.2
  refine ⟨hne, ?_⟩
  have hsame : (t.setTask task (some next)).tasks .tracker = t.tasks .tracker :=
    Function.update_of_ne hne.symm _ _
  unfold Gone
  rw [hsame]
  exact h

theorem setTask_none_gone {task : LiveTask} (h : Gone t) : Gone (t.setTask task none) := by
  by_cases hne : task = .tracker
  · subst hne
    constructor
    · simp [System.setTask]
    · simp [System.setTask]
  · have hsame : (t.setTask task none).tasks .tracker = t.tasks .tracker :=
      Function.update_of_ne (Ne.symm hne) _ _
    unfold Gone
    rw [hsame]
    exact h

/-- Nothing brings the tracker back. -/
theorem step_gone (h : Gone t) {label : Label} (hs : Supervisor.step t label = some t') : Gone t' := by
  cases label with
  | signal =>
    cases hs
    exact h
  | shutdown task published =>
    simp only [Supervisor.step] at hs
    split at hs
    · exact (move_gone h hs).2
    · cases hs
  | slept => exact (move_gone h hs).2
  | reconciled outcome => exact (move_gone h hs).2
  | wakeup => exact (move_gone h hs).2
  | subscription ending => exact (move_gone h hs).2
  | served result => exact (move_gone h hs).2
  | panic task =>
    cases Option.or_eq_some_iff.1 hs with
    | inl hs => exact (move_gone h hs).2
    | inr hs => exact (move_gone h hs.2).2
  | join task =>
    simp only [Supervisor.step, System.join] at hs
    split at hs
    · cases hs
      exact setTask_none_gone h
    · cases hs
      exact setTask_none_gone h
    · cases hs
  | proceed =>
    simp only [Supervisor.step, System.proceed] at hs
    split at hs
    · split at hs
      · cases hs
        exact h
      · cases hs
    · cases hs
      exact h
    · split at hs
      · cases hs
        exact h
      · cases hs
    · cases hs

/-- A reconciliation ends in a tracker that was there; an error takes it away. -/
theorem reconciled_there {outcome : TaskResult}
    (hs : Supervisor.step t (.reconciled outcome) = some t') :
    ¬ Gone t ∧ (outcome.toBool = false → Gone t') := by
  refine ⟨fun h => absurd rfl (move_gone h hs).1, fun herror => ?_⟩
  obtain ⟨-, rfl⟩ := move_ok hs
  cases outcome with
  | ok => cases herror
  | error error => exact gone_of_exited

/-- The shutdown branch is the tracker's last. -/
theorem disconnected_there {published : TaskResult}
    (hs : Supervisor.step t (.shutdown .tracker published) = some t') : ¬ Gone t ∧ Gone t' := by
  simp only [Supervisor.step] at hs
  split at hs
  · refine ⟨fun h => absurd rfl (move_gone h hs).1, ?_⟩
    obtain ⟨-, rfl⟩ := move_ok hs
    exact gone_of_exited
  · cases hs

end

/-! ## The invariant -/

/-- What the parts of a status have to do with each other. -/
structure Consistent (snapshot : StatusSnapshot) : Prop where
  ready : snapshot.ready = true → snapshot.healthy = true ∧ snapshot.readiness = "ready" ∧
    snapshot.healthState = "ready" ∧ snapshot.degradedComponents = []
  stopped : snapshot.correctnessStopReason.isSome = true → snapshot.healthy = false ∧
    snapshot.ready = false

/-- **The invariant.** -/
structure Sound (s : LiveMode W) : Prop where
  consistent : Consistent s.health.inner
  stopped : s.health.inner.correctnessStopReason.isSome = true → Gone s.tasks
  halted : s.tracker.reconnect.halted = true → Gone s.tasks

theorem consistent_live {status : LiveStatusSnapshot} (hhealthy : status.ready = true → status.healthy = true)
    (hready : status.ready = true → status.readiness = "ready") : Consistent (.ofLive status) := by
  refine ⟨fun h => ?_, fun h => by cases h⟩
  have h : status.ready = true := h
  refine ⟨hhealthy h, hready h, ?_, rfl⟩
  show liveHealthState status.healthy status.ready status.readiness = "ready"
  rw [hhealthy h, h]
  rfl

theorem consistent_degraded (health : HealthState) (component : String) :
    Consistent (health.markDegraded component).inner :=
  ⟨fun h => (by cases h), fun h => (by cases h)⟩

/-- What the tracker writes is consistent, if it was there and had not halted. -/
theorem Wrote.sound {t t' : System} {tracker tracker' : TrackerState W} {returned : Bool}
    (hw : Wrote tracker.reconnect.halted tracker.health returned tracker'.reconnect.halted tracker'.health)
    (h : Sound ⟨t, tracker⟩) (hthere : ¬ Gone t) (hgone : returned = false → Gone t') :
    Sound (⟨t', tracker'⟩ : LiveMode W) := by
  have hrunning : tracker.reconnect.halted = false := by
    by_contra hhalted
    exact hthere (h.halted (by simpa using hhalted))
  have hparts : ∀ halted' health',
      Wrote tracker.reconnect.halted tracker.health returned halted' health' →
        Consistent health'.inner ∧ (health'.inner.correctnessStopReason.isSome = true → Gone t') ∧
          (halted' = true → Gone t') := by
    intro halted' health' hw
    cases hw with
    | @published status hhealthy hready =>
      have hhealthy : status.healthy = true := by rw [hhealthy, hrunning]; rfl
      refine ⟨consistent_live (fun _ => hhealthy) hready, fun hs => (by cases hs), fun hs => ?_⟩
      rw [hrunning] at hs
      cases hs
    | degraded => exact ⟨consistent_degraded _ _, fun hs => (by cases hs), fun _ => hgone rfl⟩
    | stopped reason =>
      exact ⟨⟨fun hs => (by cases hs), fun _ => ⟨rfl, rfl⟩⟩, fun _ => hgone rfl, fun _ => hgone rfl⟩
    | nothing => exact ⟨h.consistent, fun _ => hgone rfl, fun _ => hgone rfl⟩
  obtain ⟨hconsistent, hstopped, hhalted⟩ := hparts _ _ hw
  exact ⟨hconsistent, hstopped, hhalted⟩

section
variable {R : Reconciler W} {context : StatusContext} {s s' : LiveMode W}

/-- **Every step keeps the invariant.** -/
theorem step_sound (h : Sound s) {act : Act} (hs : step R context s act = some s') : Sound s' := by
  cases act with
  | reconciled tick =>
    cases hx : exec (reconcile R context tick) s.tracker with
    | mk outcome tracker =>
      simp only [step, hx] at hs
      obtain ⟨tasks, htasks, rfl⟩ := Option.map_eq_some_iff.1 hs
      obtain ⟨hthere, hgone⟩ := reconciled_there htasks
      exact (reconcile_wrote hx).sound h hthere hgone
  | disconnected tick =>
    cases hx : exec (disconnect R context tick) s.tracker with
    | mk published tracker =>
      simp only [step, hx] at hs
      obtain ⟨tasks, htasks, rfl⟩ := Option.map_eq_some_iff.1 hs
      obtain ⟨hthere, hgone⟩ := disconnected_there htasks
      exact (disconnect_wrote hx).1.sound h hthere fun _ => hgone
  | subscription ending =>
    obtain ⟨tasks, htasks, rfl⟩ := Option.map_eq_some_iff.1 hs
    have hkept := fun hgone => step_gone (t := s.tasks) hgone htasks
    cases ending with
    | failed error =>
      exact ⟨consistent_degraded _ _, fun hs => (by cases hs), fun hs => hkept (h.halted hs)⟩
    | cancelled => exact ⟨h.consistent, fun hs => hkept (h.stopped hs), fun hs => hkept (h.halted hs)⟩
    | panicked => exact ⟨h.consistent, fun hs => hkept (h.stopped hs), fun hs => hkept (h.halted hs)⟩
    | other => exact ⟨h.consistent, fun hs => hkept (h.stopped hs), fun hs => hkept (h.halted hs)⟩
  | silent label =>
    simp only [step] at hs
    split at hs
    · obtain ⟨tasks, htasks, rfl⟩ := Option.map_eq_some_iff.1 hs
      have hkept := fun hgone => step_gone (t := s.tasks) hgone htasks
      exact ⟨h.consistent, fun hs => hkept (h.stopped hs), fun hs => hkept (h.halted hs)⟩
    · cases hs

theorem run_sound (h : Sound s) {acts : List Act} (hrun : run R context s acts = some s') : Sound s' :=
  Run.keeps (fun _ _ _ h hs => step_sound h hs) h hrun

theorem start_sound (isWsUrl : Bool) (policy : ReconnectPolicy) (world : W) :
    Sound (start context isWsUrl policy world) :=
  ⟨⟨fun h => (by cases h), fun h => (by cases h)⟩, fun h => (by cases h), fun h => (by cases h)⟩

/-! ## After a correctness stop -/

/-- A subscription of the wakeup task has failed. -/
def SubscriptionFails (act : Act) : Prop := ∃ error, act = .subscription (.failed error)

/-- Once the tracker is gone, only a failing subscription writes a status. -/
theorem step_gone_health (hgone : Gone s.tasks) {act : Act} (hs : step R context s act = some s') :
    Gone s'.tasks ∧ (SubscriptionFails act ∧ s'.health = s.health.markDegraded "rpc" ∨
      ¬ SubscriptionFails act ∧ s'.health = s.health) := by
  cases act with
  | reconciled tick =>
    cases hx : exec (reconcile R context tick) s.tracker with
    | mk outcome tracker =>
      simp only [step, hx] at hs
      obtain ⟨tasks, htasks, rfl⟩ := Option.map_eq_some_iff.1 hs
      exact absurd hgone (reconciled_there htasks).1
  | disconnected tick =>
    cases hx : exec (disconnect R context tick) s.tracker with
    | mk published tracker =>
      simp only [step, hx] at hs
      obtain ⟨tasks, htasks, rfl⟩ := Option.map_eq_some_iff.1 hs
      exact absurd hgone (disconnected_there htasks).1
  | subscription ending =>
    obtain ⟨tasks, htasks, rfl⟩ := Option.map_eq_some_iff.1 hs
    refine ⟨step_gone hgone htasks, ?_⟩
    cases ending with
    | failed error => exact .inl ⟨⟨error, rfl⟩, rfl⟩
    | cancelled => exact .inr ⟨by simp [SubscriptionFails], rfl⟩
    | panicked => exact .inr ⟨by simp [SubscriptionFails], rfl⟩
    | other => exact .inr ⟨by simp [SubscriptionFails], rfl⟩
  | silent label =>
    simp only [step] at hs
    split at hs
    · obtain ⟨tasks, htasks, rfl⟩ := Option.map_eq_some_iff.1 hs
      exact ⟨step_gone hgone htasks, .inr ⟨by simp [SubscriptionFails], rfl⟩⟩
    · cases hs

/-- The status of live mode that has degraded: fine, not ready, no reason. -/
structure Degraded (health : HealthState) : Prop where
  healthy : health.inner.healthy = true
  ready : health.inner.ready = false
  healthState : health.inner.healthState = "degraded"
  reason : health.inner.correctnessStopReason = none

theorem degraded_markDegraded (health : HealthState) : Degraded (health.markDegraded "rpc") :=
  ⟨rfl, rfl, rfl, rfl⟩

/-- Without the tracker the status stays, until a subscription fails; from then on it is degraded. -/
theorem run_gone_health (hgone : Gone s.tasks) {acts : List Act} (hrun : run R context s acts = some s') :
    ((∃ act ∈ acts, SubscriptionFails act) → Degraded s'.health) ∧
      ((¬ ∃ act ∈ acts, SubscriptionFails act) → s'.health = s.health) ∧
      (Degraded s.health → Degraded s'.health) := by
  unfold run at hrun
  induction acts generalizing s with
  | nil =>
    cases hrun
    exact ⟨fun h => by simp at h, fun _ => rfl, fun h => h⟩
  | cons act acts ih =>
    obtain ⟨next, hs, hrun⟩ := Run.cons_some hrun
    obtain ⟨hgone', hwrites⟩ := step_gone_health hgone hs
    obtain ⟨hfails, hsame, hkept⟩ := ih hgone' hrun
    cases hwrites with
    | inl hfailed =>
      obtain ⟨hact, hhealth⟩ := hfailed
      have hdegraded : Degraded s'.health := hkept (hhealth ▸ degraded_markDegraded _)
      exact ⟨fun _ => hdegraded, fun hnone => absurd ⟨act, by simp, hact⟩ hnone, fun _ => hdegraded⟩
    | inr hquiet =>
      obtain ⟨hact, hhealth⟩ := hquiet
      refine ⟨fun hex => ?_, fun hnone => ?_, fun h => hkept (hhealth ▸ h)⟩
      · obtain ⟨other, hmem, hother⟩ := hex
        cases List.mem_cons.1 hmem with
        | inl heq => exact absurd (heq ▸ hother) hact
        | inr hmem => exact hfails ⟨other, hmem, hother⟩
      · rw [hsame fun hex => hnone ?_, hhealth]
        obtain ⟨other, hmem, hother⟩ := hex
        exact ⟨other, List.mem_cons_of_mem _ hmem, hother⟩

end

/-- **A correctness stop is not taken back, but it may be covered.** In every run of live mode, after a
state that shows a correctness stop: `/ready` answers 503 from then on. `/health` answers 503 with the
reason as long as no subscription of the wakeup task fails; after the first that does, it
answers 200 and `degraded`, and the reason is gone for good. -/
theorem stop_stays (R : Reconciler W) (context : StatusContext) (isWsUrl : Bool)
    (policy : ReconnectPolicy) (world : W) {acts later : List Act} {s s' : LiveMode W}
    (hrun : run R context (start context isWsUrl policy world) acts = some s) {reason : String}
    (hstop : s.health.inner.correctnessStopReason = some reason)
    (hlater : run R context s later = some s') :
    (readinessEndpoint s'.health).1 = .serviceUnavailable ∧
      ((¬ ∃ act ∈ later, SubscriptionFails act) → (healthEndpoint s'.health).1 = .serviceUnavailable ∧
        (healthEndpoint s'.health).2.correctnessStopReason = some reason) ∧
      ((∃ act ∈ later, SubscriptionFails act) → (healthEndpoint s'.health).1 = .ok ∧
        (healthEndpoint s'.health).2.healthState = "degraded" ∧
        (healthEndpoint s'.health).2.correctnessStopReason = none) := by
  have hsound := run_sound (start_sound isWsUrl policy world) hrun
  have hsome : s.health.inner.correctnessStopReason.isSome = true := by rw [hstop]; rfl
  obtain ⟨hunhealthy, hunready⟩ := hsound.consistent.stopped hsome
  obtain ⟨hfails, hsame, -⟩ := run_gone_health (hsound.stopped hsome) hlater
  have hcode : ∀ {ok : Bool} {snapshot : StatusSnapshot}, ok = false →
      (statusResponse ok snapshot).1 = .serviceUnavailable := by
    intro ok snapshot hok
    rw [statusResponse, hok]
    rfl
  refine ⟨hcode ?_, fun hnone => ?_, fun hex => ?_⟩
  · by_cases hex : ∃ act ∈ later, SubscriptionFails act
    · exact (hfails hex).ready
    · rw [hsame hex]
      exact hunready
  · rw [hsame hnone]
    exact ⟨hcode hunhealthy, hstop⟩
  · have hdegraded := hfails hex
    refine ⟨?_, hdegraded.healthState, hdegraded.reason⟩
    rw [healthEndpoint, statusResponse, hdegraded.healthy]
    rfl

/-- The node has gone over to another branch, by more than the limit. -/
def turnedArgs : TrackerArgs Unit Unit :=
  { laggingArgs with primary := atHead [genesis, b1, b2, a1, a2] b2, maxReorgDepth := 1 }

/-- Live mode over these endpoints, with a WebSocket. -/
def smallMode (args : TrackerArgs Unit Unit) (acts : List Act) : Option (LiveMode (Runner Unit Unit)) :=
  run (reconciler args) ⟨"http://rpc", none⟩
    (start ⟨"http://rpc", none⟩ true livePolicy laggingTracker.world) acts

/-- `stop_stays` where the subscription fails while the supervisor winds down. -/
theorem stop_stays_covered : ∃ s s', smallMode turnedArgs [.reconciled ⟨0, 0⟩] = some s ∧
    (healthEndpoint s.health).2.correctnessStopReason = some "unresolved_ancestry" ∧
    run (reconciler turnedArgs) ⟨"http://rpc", none⟩ s [.silent (.join .tracker),
      .subscription (.failed "closed"), .silent .proceed] = some s' ∧
    (readinessEndpoint s'.health).1 = .serviceUnavailable ∧ (healthEndpoint s'.health).1 = .ok := by
  have hstop : ((smallMode turnedArgs [.reconciled ⟨0, 0⟩]).map fun s =>
      s.health.inner.correctnessStopReason) = some (some "unresolved_ancestry") := by decide +kernel
  have hlast : (((smallMode turnedArgs [.reconciled ⟨0, 0⟩]).bind (run (reconciler turnedArgs)
      ⟨"http://rpc", none⟩ · [.silent (.join .tracker), .subscription (.failed "closed"),
        .silent .proceed])).isSome) = true := by decide +kernel
  obtain ⟨s, hrun, hreason⟩ := Option.map_eq_some_iff.1 hstop
  rw [hrun, Option.bind_some] at hlast
  obtain ⟨s', hlater⟩ := Option.isSome_iff_exists.1 hlast
  obtain ⟨hready, -, hcovered⟩ := stop_stays (reconciler turnedArgs) ⟨"http://rpc", none⟩ true livePolicy
    laggingTracker.world hrun hreason hlater
  refine ⟨s, s', hrun, hreason, hlater, hready, (hcovered ?_).1⟩
  exact ⟨.subscription (.failed "closed"), by simp, "closed", rfl⟩

/-! ## Before it is ready -/

/-- The reconciliation that starts in this world finds nothing against readiness: it returns without a
halt, the checkpoint can be read after it, no disagreement was counted and no gap is left. -/
def FindsReady (R : Reconciler W) (world : W) : Prop :=
  ∃ report w row w', exec R.reconcileOnce world = (.ok report, w) ∧ report.halted = none ∧
    exec R.checkpoint w = (.ok row, w') ∧ R.verifierDisagreements w' = 0 ∧
    gapCount report (R.lastHead w) = 0

/-- A program of the tracker that may write. -/
inductive TrackerEnds : Act → Prop
  | reconciled (tick : Tick) : TrackerEnds (.reconciled tick)
  | disconnected (tick : Tick) : TrackerEnds (.disconnected tick)

/-- The program of the tracker fails in this state, and leaves the status as it was. -/
def EndsUnpublished (R : Reconciler W) (context : StatusContext) (s : LiveMode W) : Act → Prop
  | .reconciled tick => ∃ error tracker,
      exec (reconcile R context tick) s.tracker = (.error error, tracker) ∧ tracker.health = s.health
  | .disconnected tick => ∃ error tracker,
      exec (disconnect R context tick) s.tracker = (.error error, tracker) ∧ tracker.health = s.health
  | _ => False

section
variable {R : Reconciler W} {context : StatusContext} {s0 s s' : LiveMode W}

/-- The last word on readiness: a reconciliation found live mode ready, and nothing took it back. It was
the tracker's last program, but for one that failed unpublished, after which the tracker is gone. -/
def ReadyBy (R : Reconciler W) (context : StatusContext) (s0 : LiveMode W) (acts : List Act)
    (s : LiveMode W) : Prop :=
  ∃ before tick after mid, acts = before ++ .reconciled tick :: after ∧
    run R context s0 before = some mid ∧ FindsReady R mid.tracker.world ∧
    (∀ act ∈ after, ¬ SubscriptionFails act) ∧ ((∃ act ∈ after, TrackerEnds act) → Gone s.tasks) ∧
    ∀ quiet act rest, after = quiet ++ act :: rest → TrackerEnds act →
      ∃ u, run R context s0 (before ++ .reconciled tick :: quiet) = some u ∧
        EndsUnpublished R context u act

theorem ReadyBy.concat {acts : List Act} (hrun : run R context s0 acts = some s)
    (h : ReadyBy R context s0 acts s) {act : Act}
    (hquiet : ¬ SubscriptionFails act) (hkept : Gone s.tasks → Gone s'.tasks)
    (hends : TrackerEnds act → Gone s'.tasks ∧ EndsUnpublished R context s act) :
    ReadyBy R context s0 (acts ++ [act]) s' := by
  obtain ⟨before, tick, after, mid, rfl, hmid, hfinds, hnone, hgone, hfailed⟩ := h
  refine ⟨before, tick, after ++ [act], mid, by simp, hmid, hfinds, fun other hother => ?_, fun hex => ?_,
    fun quiet other rest hsplit hend => ?_⟩
  · cases List.mem_append.1 hother with
    | inl hother => exact hnone other hother
    | inr hother => exact List.mem_singleton.1 hother ▸ hquiet
  · obtain ⟨other, hother, hend⟩ := hex
    cases List.mem_append.1 hother with
    | inl hother => exact hkept (hgone ⟨other, hother, hend⟩)
    | inr hother => exact (hends (List.mem_singleton.1 hother ▸ hend)).1
  · obtain rfl | ⟨init, last, rfl⟩ := List.eq_nil_or_concat rest
    · obtain ⟨rfl, hlast⟩ := List.append_inj' hsplit rfl
      cases hlast
      exact ⟨s, hrun, (hends hend).2⟩
    · rw [List.concat_eq_append, ← List.cons_append, ← List.append_assoc] at hsplit
      exact hfailed quiet other init (List.append_inj' hsplit rfl).1 hend

/-- A reconciliation that leaves the status ready found it so, or failed and wrote nothing. -/
theorem reconcile_ready {tick : Tick} {t t' : TrackerState W} {outcome : TaskResult}
    (hx : exec (reconcile R context tick) t = (outcome, t')) (hready : t'.health.inner.ready = true) :
    FindsReady R t.world ∨ outcome.toBool = false ∧ t'.health = t.health := by
  cases outcome with
  | ok =>
    left
    have hwp : wp (reconcile R context tick) (fun _ t' => ∃ t1,
        exec (reconcileAndPublish R context tick) t = (.ok (), t1) ∧ t'.health = t1.health)
        (fun _ _ => True) t := by
      unfold reconcile
      rw [wp_bind]
      refine wp_attempt (wp_mapError (wp_of_eq rfl (fun a ha => ?_) fun e _ => ?_))
      · rw [wp_bind, wp_modify, wp_lift]
        exact ⟨fun _ _ => ⟨_, Prod.ext ha rfl, rfl⟩, fun _ _ => trivial⟩
      · rw [wp_bind, wp_modify, wp_lift]
        exact ⟨fun _ he => absurd he (by simp), fun _ _ => trivial⟩
    obtain ⟨t1, hpublish, hhealth⟩ := wp_ok hwp hx
    rw [hhealth] at hready
    obtain ⟨report, w, row, w', honce, hnone, hrow, -, hzero, hgap⟩ :=
      publishes_ready_iff.1 ⟨t1, hpublish, hready⟩
    exact ⟨report, w, row, w', honce, hnone, hrow, hzero, hgap⟩
  | error error =>
    refine .inr ⟨rfl, ?_⟩
    have hwrote := reconcile_wrote hx
    generalize t'.health = health' at hwrote hready
    generalize t'.reconnect.halted = halted' at hwrote
    cases hwrote with
    | degraded => cases hready
    | stopped => cases hready
    | nothing => rfl

/-- A shutdown branch that leaves the status ready failed and wrote nothing. -/
theorem disconnect_ready {tick : Tick} {t t' : TrackerState W} {published : TaskResult}
    (hx : exec (disconnect R context tick) t = (published, t')) (hready : t'.health.inner.ready = true) :
    (∃ error, published = .error error) ∧ t'.health = t.health := by
  obtain ⟨hwrote, hunready⟩ := disconnect_wrote hx
  cases published with
  | ok =>
    rw [hunready rfl] at hready
    cases hready
  | error error =>
    refine ⟨⟨error, rfl⟩, ?_⟩
    generalize t'.health = health' at hwrote hready
    generalize t'.reconnect.halted = halted' at hwrote
    cases hwrote with
    | degraded => cases hready
    | stopped => cases hready
    | nothing => rfl

/-- One step more. -/
theorem step_readyBy {acts : List Act} (hrun : run R context s0 acts = some s)
    (ih : s.health.inner.ready = true → ReadyBy R context s0 acts s) {act : Act}
    (hs : step R context s act = some s') (hready : s'.health.inner.ready = true) :
    ReadyBy R context s0 (acts ++ [act]) s' := by
  cases act with
  | reconciled tick =>
    cases hx : exec (reconcile R context tick) s.tracker with
    | mk outcome tracker =>
      simp only [step, hx] at hs
      obtain ⟨tasks, htasks, rfl⟩ := Option.map_eq_some_iff.1 hs
      obtain ⟨hthere, hgone⟩ := reconciled_there htasks
      cases reconcile_ready hx hready with
      | inl hfinds => exact ⟨acts, tick, [], s, rfl, hrun, hfinds, by simp, by simp, by simp⟩
      | inr hfailed =>
        obtain ⟨hfailed, hsame⟩ := hfailed
        have hbefore : s.health.inner.ready = true := by
          rw [LiveMode.health, ← hsame]
          exact hready
        refine (ih hbefore).concat hrun (by simp [SubscriptionFails]) (fun h => absurd h hthere)
          fun _ => ⟨hgone hfailed, ?_⟩
        cases outcome with
        | ok => cases hfailed
        | error error => exact ⟨error, tracker, hx, hsame⟩
  | disconnected tick =>
    cases hx : exec (disconnect R context tick) s.tracker with
    | mk published tracker =>
      simp only [step, hx] at hs
      obtain ⟨tasks, htasks, rfl⟩ := Option.map_eq_some_iff.1 hs
      obtain ⟨hthere, hgone⟩ := disconnected_there htasks
      obtain ⟨⟨error, rfl⟩, hsame⟩ := disconnect_ready hx hready
      have hbefore : s.health.inner.ready = true := by
        rw [LiveMode.health, ← hsame]
        exact hready
      exact (ih hbefore).concat hrun (by simp [SubscriptionFails]) (fun h => absurd h hthere)
        fun _ => ⟨hgone, error, tracker, hx, hsame⟩
  | subscription ending =>
    obtain ⟨tasks, htasks, rfl⟩ := Option.map_eq_some_iff.1 hs
    have hkept := fun hgone => step_gone (t := s.tasks) hgone htasks
    cases ending with
    | failed error => cases hready
    | cancelled => exact (ih hready).concat hrun (by simp [SubscriptionFails]) hkept fun h => by cases h
    | panicked => exact (ih hready).concat hrun (by simp [SubscriptionFails]) hkept fun h => by cases h
    | other => exact (ih hready).concat hrun (by simp [SubscriptionFails]) hkept fun h => by cases h
  | silent label =>
    simp only [step] at hs
    split at hs
    · obtain ⟨tasks, htasks, rfl⟩ := Option.map_eq_some_iff.1 hs
      have hkept := fun hgone => step_gone (t := s.tasks) hgone htasks
      exact (ih hready).concat hrun (by simp [SubscriptionFails]) hkept fun h => by cases h
    · cases hs

theorem run_readyBy (hstart : s0.health.inner.ready = false) {acts : List Act}
    (hrun : run R context s0 acts = some s) (hready : s.health.inner.ready = true) :
    ReadyBy R context s0 acts s := by
  induction acts using List.reverseRecOn generalizing s with
  | nil =>
    cases hrun
    rw [hstart] at hready
    cases hready
  | append_singleton acts act ih =>
    unfold run at hrun
    rw [List.foldlM_append] at hrun
    obtain ⟨mid, hmid, hlast⟩ := Option.bind_eq_some_iff.1 hrun
    obtain ⟨next, hs, hnil⟩ := Run.cons_some hlast
    cases hnil
    exact step_readyBy hmid (ih hmid) hs hready

end

/-- **Readiness is earned.** Whenever `/ready` answers 200 in a run of live mode: `/health` does too,
with the same body, which says `ready` and names no degraded component; and some reconciliation
returned without a halt, disagreement or gap, after which no subscription failed. It was the last that
the tracker did, but for a reconciliation or a shutdown that ended it with an error and published
nothing. -/
theorem ready_earned (R : Reconciler W) (context : StatusContext) (isWsUrl : Bool)
    (policy : ReconnectPolicy) (world : W) {acts : List Act} {s : LiveMode W}
    (hrun : run R context (start context isWsUrl policy world) acts = some s)
    (hready : (readinessEndpoint s.health).1 = .ok) :
    ((healthEndpoint s.health).1 = .ok ∧ (healthEndpoint s.health).2 = (readinessEndpoint s.health).2 ∧
        (readinessEndpoint s.health).2.readiness = "ready" ∧
        (readinessEndpoint s.health).2.healthState = "ready" ∧
        (readinessEndpoint s.health).2.degradedComponents = []) ∧
      ReadyBy R context (start context isWsUrl policy world) acts s := by
  have hready : s.health.inner.ready = true := by
    unfold readinessEndpoint statusResponse at hready
    cases hr : s.health.inner.ready with
    | true => rfl
    | false =>
      rw [hr] at hready
      cases hready
  have hsound := run_sound (start_sound isWsUrl policy world) hrun
  obtain ⟨hhealthy, hreadiness, hstate, hcomponents⟩ := hsound.consistent.ready hready
  refine ⟨⟨?_, rfl, hreadiness, hstate, hcomponents⟩, run_readyBy rfl hrun hready⟩
  rw [healthEndpoint, statusResponse, hhealthy]
  rfl

/-- `ready_earned` after a reconciliation and a wakeup. -/
theorem ready_earned_once : ∃ s, smallMode laggingArgs [.reconciled ⟨0, 0⟩, .silent .wakeup] = some s ∧
    (readinessEndpoint s.health).1 = .ok ∧ ReadyBy (reconciler laggingArgs) ⟨"http://rpc", none⟩
      (start ⟨"http://rpc", none⟩ true livePolicy laggingTracker.world)
      [.reconciled ⟨0, 0⟩, .silent .wakeup] s := by
  have hready : ((smallMode laggingArgs [.reconciled ⟨0, 0⟩, .silent .wakeup]).map fun s =>
      (readinessEndpoint s.health).1) = some .ok := by decide +kernel
  obtain ⟨s, hrun, hcode⟩ := Option.map_eq_some_iff.1 hready
  exact ⟨s, hrun, hcode, (ready_earned (reconciler laggingArgs) ⟨"http://rpc", none⟩ true livePolicy
    laggingTracker.world hrun hcode).2⟩

end Chainweave.Status
