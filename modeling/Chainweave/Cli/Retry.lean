import Chainweave.Cli.Tracker

/-!
# A transient failure ends the live mode

`tracker_task` passes every error of a reconciliation on with `?`, so the loop ends
with the first one, whatever its class. `ReconnectLoop` computes a retry for a
transient error, and the design notes ask for one: nothing acts on it.

* `KeepsGoing`: the task returns correctness errors only, and goes on after others.
* `MeetsTransient`: a reconciliation that the task gets to, or the publication at its
  shutdown, fails with an error classified transient.
* `keepsGoing_iff`: the task keeps going exactly if it meets none.
-/
namespace Chainweave.Runtime

open Stateful Chainweave.Chain Chainweave.Backfill Chainweave.Postgres Chainweave.Live
  Chainweave.Observability

/-- An error that the task classifies as transient. -/
def Transient {α : Type} (outcome : Except LiveTaskError α) : Prop :=
  ∃ e, outcome = .error e ∧ e.classify = .transient

theorem not_transient_ok {α : Type} {a : α} : ¬ Transient (.ok a : Except LiveTaskError α) := by
  intro h
  obtain ⟨e, he, -⟩ := h
  cases he

theorem transient_error {α : Type} {e : LiveTaskError} :
    Transient (.error e : Except LiveTaskError α) ↔ e.classify = .transient := by
  constructor
  · intro h
    obtain ⟨e', he, hclass⟩ := h
    cases he
    exact hclass
  · exact fun h => ⟨e, rfl, h⟩

section
variable {W : Type} (R : Reconciler W) (context : StatusContext)

/-- How the reconciliations of a task ended, in order. -/
def attempts (start : Tick) (turns : List Turn) (s : TrackerState W) :
    List (Except LiveTaskError Unit) :=
  (exec (trackerTask R context start turns) s).2.outcomes.drop s.outcomes.length

/-- What live mode asks of the task. -/
structure KeepsGoing (start : Tick) (turns : List Turn) (s : TrackerState W) : Prop where
  /-- an error that it returns is a correctness error, as is a halt -/
  correctness : ∀ e s', exec (trackerTask R context start turns) s = (.error e, s') →
    e.classify = .correctness
  /-- after a transient error its next wakeup starts a reconciliation -/
  again : ∀ i outcome turn, (attempts R context start turns s)[i]? = some outcome →
    Transient outcome → turns[i]? = some turn → turn.selected = .wakeup →
    i + 1 < (attempts R context start turns s).length

/-- `reconcile_once` fails with a transient error, or returns a report without a halt whose
publication does. -/
def FailsTransiently (w : W) : Prop :=
  Transient ((exec R.reconcileOnce w).1.mapError liveRuntimeErrorToTask) ∨
    ∃ report w', exec R.reconcileOnce w = (.ok report, w') ∧ report.halted = none ∧
      Transient ((exec R.checkpoint w').1.mapError liveRuntimeErrorToTask)

/-- The task meets a transient failure. -/
inductive MeetsTransient : Tick → List Turn → TrackerState W → Prop
  | reconciling {tick : Tick} {turns : List Turn} {s : TrackerState W} :
      FailsTransiently R s.world → MeetsTransient tick turns s
  | later {tick : Tick} {turn : Turn} {turns : List Turn} {s s' : TrackerState W} :
      exec (reconcile R context tick) s = (.ok (), s') → turn.selected = .wakeup →
      MeetsTransient turn.tick turns s' → MeetsTransient tick (turn :: turns) s
  | leaving {tick : Tick} {turn : Turn} {turns : List Turn} {s s' : TrackerState W} :
      exec (reconcile R context tick) s = (.ok (), s') → turn.selected = .shutdown →
      Transient ((exec R.checkpoint s'.world).1.mapError liveRuntimeErrorToTask) →
      MeetsTransient tick (turn :: turns) s

end

/-! ## One reconciliation -/

section
variable {W : Type} {R : Reconciler W} {context : StatusContext} {tick : Tick} {s s' : TrackerState W}

theorem transient_mapError {α β : Type} {x : Except LiveRuntimeError α} {y : Except LiveRuntimeError β}
    (h : ∀ e, x = .error e ↔ y = .error e) :
    Transient (x.mapError liveRuntimeErrorToTask) ↔ Transient (y.mapError liveRuntimeErrorToTask) := by
  unfold Transient
  simp only [mapError_error, h]

/-- A publication fails as its read of the checkpoint does. -/
theorem publishStatus_transient {gap : Nat} :
    Transient ((exec (publishStatus R context tick gap) s).1.mapError liveRuntimeErrorToTask) ↔
      Transient ((exec R.checkpoint s.world).1.mapError liveRuntimeErrorToTask) := by
  refine transient_mapError fun e => ?_
  cases h : exec R.checkpoint s.world with
  | mk r w =>
    cases r with
    | ok checkpoint =>
      obtain ⟨health, hpublish, -⟩ := @exec_publishStatus_ok _ _ context tick _ _ gap _ h
      rw [hpublish]
      simp
    | error error =>
      rw [exec_publishStatus_error h]
      simp

theorem reconcileAndPublish_transient :
    Transient ((exec (reconcileAndPublish R context tick) s).1.mapError liveRuntimeErrorToTask) ↔
      FailsTransiently R s.world := by
  unfold FailsTransiently
  cases h : exec R.reconcileOnce s.world with
  | mk r w =>
    cases r with
    | error e =>
      obtain ⟨s', hexec⟩ := @reconcileAndPublish_error _ _ context tick _ _ _ h
      rw [hexec]
      simp [transient_error, Except.mapError]
    | ok report =>
      cases hhalted : report.halted with
      | some reason =>
        obtain ⟨s', hexec⟩ := @reconcileAndPublish_halted _ _ context tick _ _ _ _ h hhalted
        rw [hexec]
        simp [transient_error, not_transient_ok, Except.mapError, liveRuntimeErrorToTask,
          LiveTaskError.classify, hhalted]
      | none =>
        obtain ⟨ready, -, -, hexec⟩ := @reconcileAndPublish_publishes _ _ context tick _ _ _ h hhalted
        rw [hexec, publishStatus_transient]
        simp [not_transient_ok, Except.mapError, hhalted]

theorem publishStatus_outcomes (outcomes : List (Except LiveTaskError Unit)) (gap : Nat) :
    Keeps (fun t : TrackerState W => t.outcomes = outcomes) (publishStatus R context tick gap) := by
  unfold publishStatus
  refine .bind (fun _ h => h) fun checkpoint => .bind .get fun t => ?_
  exact .modify fun _ h => h

theorem reconcileAndPublish_outcomes :
    (exec (reconcileAndPublish R context tick) s).2.outcomes = s.outcomes := by
  have hkeeps : Keeps (fun t : TrackerState W => t.outcomes = s.outcomes)
      (reconcileAndPublish R context tick) := by
    unfold reconcileAndPublish
    refine .bind (.modify fun _ h => h) fun _ => .bind (.attempt fun _ h => h) fun outcome => ?_
    cases outcome with
    | error e =>
      unfold noteFailure
      dsimp only
      split
      · exact .bind (.modify fun _ h => h) fun _ => .bind (.modify fun _ h => h) fun _ => .throw _
      · exact .throw _
    | ok report =>
      dsimp only
      cases report.halted with
      | some reason =>
        exact .bind (.modify fun _ h => h) fun _ => .bind (.modify fun _ h => h) fun _ => .throw _
      | none =>
        have htry : ∀ f, Keeps (fun t : TrackerState W => t.outcomes = s.outcomes)
            (tryReconnect f) := fun f =>
          .bind .get fun _ => .bind (.lift _) fun _ => .modify fun _ h => h
        exact .bind (htry _) fun _ => .bind (htry _) fun _ => .bind .get fun _ =>
          publishStatus_outcomes _ _
  exact hkeeps s rfl

/-- A reconciliation notes its outcome, and the task goes on with it. -/
theorem exec_reconcile :
    ∃ outcome s', exec (reconcile R context tick) s = (outcome, s') ∧
      s'.outcomes = s.outcomes ++ [outcome] ∧ (Transient outcome ↔ FailsTransiently R s.world) := by
  let outcome := (exec (reconcileAndPublish R context tick) s).1.mapError liveRuntimeErrorToTask
  let left := (exec (reconcileAndPublish R context tick) s).2
  refine ⟨outcome, { left with outcomes := left.outcomes ++ [outcome] }, ?_, ?_,
    reconcileAndPublish_transient⟩
  · unfold reconcile
    rw [exec_bind, exec_attempt, exec_mapError]
    dsimp only
    rw [exec_bind, exec_modify]
    exact exec_lift _ _
  · show left.outcomes ++ [outcome] = _
    rw [reconcileAndPublish_outcomes]

end

/-! ## The task -/

section
variable {W : Type} {R : Reconciler W} {context : StatusContext}

/-- What the loop does with its next turn fails as the reconciliation or the publication does. -/
theorem trackerLoop_transient (turn : Turn) (turns : List Turn) (s : TrackerState W) :
    Transient (exec (trackerLoop R context (turn :: turns)) s).1 ↔
      turn.selected = .wakeup ∧ Transient (exec (trackerTask R context turn.tick turns) s).1 ∨
      turn.selected = .shutdown ∧
        Transient ((exec R.checkpoint s.world).1.mapError liveRuntimeErrorToTask) := by
  unfold trackerLoop
  cases hselected : turn.selected with
  | closed => simp [not_transient_ok]
  | wakeup =>
    simp only [true_and, reduceCtorEq, false_and, or_false]
    rfl
  | shutdown =>
    simp only [true_and, reduceCtorEq, false_and, false_or]
    let left : TrackerState W :=
      { s with reconnect := s.reconnect.recordDisconnectAt turn.tick.now }
    have hpublish := @publishStatus_transient W R context turn.tick left 0
    rw [← hpublish]
    unfold modifyReconnect
    rw [exec_bind, exec_modify]
    dsimp only
    rw [exec_bind, exec_mapError]
    cases h : exec (publishStatus R context turn.tick 0) left with
    | mk r s' =>
      cases r with
      | ok u => simp [not_transient_ok, Except.mapError]
      | error e => simp [transient_error, Except.mapError]

/-- A failed reconciliation is the last; after another one the loop takes its turn. -/
theorem trackerTask_cases (tick : Tick) (turns : List Turn) (s : TrackerState W) :
    (∃ e s', exec (reconcile R context tick) s = (.error e, s') ∧
        s'.outcomes = s.outcomes ++ [.error e] ∧
        exec (trackerTask R context tick turns) s = (.error e, s')) ∨
      ∃ s', exec (reconcile R context tick) s = (.ok (), s') ∧
        s'.outcomes = s.outcomes ++ [.ok ()] ∧
        exec (trackerTask R context tick turns) s = exec (trackerLoop R context turns) s' := by
  obtain ⟨outcome, s', hexec, houtcomes, -⟩ := @exec_reconcile W R context tick s
  unfold trackerTask
  rw [exec_bind, hexec]
  cases outcome with
  | error e => exact .inl ⟨e, s', rfl, houtcomes, rfl⟩
  | ok u => exact .inr ⟨s', rfl, houtcomes, rfl⟩

theorem trackerTask_transient (tick : Tick) (turns : List Turn) (s : TrackerState W) :
    Transient (exec (trackerTask R context tick turns) s).1 ↔
      FailsTransiently R s.world ∨ ∃ s', exec (reconcile R context tick) s = (.ok (), s') ∧
        Transient (exec (trackerLoop R context turns) s').1 := by
  obtain ⟨outcome, t, hexec, -, hiff⟩ := @exec_reconcile W R context tick s
  rw [← hiff]
  rcases trackerTask_cases (R := R) tick turns s with ⟨e, s', herror, -, htask⟩ | ⟨s', hok, -, htask⟩
  · rw [herror] at hexec ⊢
    cases hexec
    rw [htask, transient_error]
    simp [transient_error]
  · rw [hok] at hexec ⊢
    cases hexec
    rw [htask]
    simp [not_transient_ok]

/-- The task meets a transient failure exactly if it returns one. -/
theorem meetsTransient_iff (tick : Tick) (turns : List Turn) (s : TrackerState W) :
    MeetsTransient R context tick turns s ↔
      Transient (exec (trackerTask R context tick turns) s).1 := by
  induction turns generalizing tick s with
  | nil =>
    rw [trackerTask_transient]
    constructor
    · intro h
      cases h with
      | reconciling h => exact .inl h
    · intro h
      rcases h with h | ⟨_, -, h⟩
      · exact .reconciling h
      · exact absurd h not_transient_ok
  | cons turn turns ih =>
    rw [trackerTask_transient]
    constructor
    · intro h
      cases h with
      | reconciling h => exact .inl h
      | later hok hselected h =>
        exact .inr ⟨_, hok, (trackerLoop_transient turn turns _).2 (.inl ⟨hselected, (ih _ _).1 h⟩)⟩
      | leaving hok hselected h =>
        exact .inr ⟨_, hok, (trackerLoop_transient turn turns _).2 (.inr ⟨hselected, h⟩)⟩
    · intro h
      rcases h with h | ⟨s', hok, h⟩
      · exact .reconciling h
      rcases (trackerLoop_transient turn turns s').1 h with ⟨hselected, h⟩ | ⟨hselected, h⟩
      · exact .later hok hselected ((ih _ _).2 h)
      · exact .leaving hok hselected h

/-- The loop notes the outcomes of the reconciliations it starts, or none. -/
theorem trackerLoop_outcomes (turn : Turn) (turns : List Turn) (s : TrackerState W) :
    turn.selected = .wakeup ∧
        exec (trackerLoop R context (turn :: turns)) s =
          exec (trackerTask R context turn.tick turns) s ∨
      (exec (trackerLoop R context (turn :: turns)) s).2.outcomes = s.outcomes := by
  cases hselected : turn.selected with
  | wakeup =>
    refine .inl ⟨rfl, ?_⟩
    rw [trackerLoop, hselected]
    rfl
  | closed =>
    right
    rw [trackerLoop, hselected]
    rfl
  | shutdown =>
    right
    rw [trackerLoop, hselected]
    have hkeeps : Keeps (fun t : TrackerState W => t.outcomes = s.outcomes) (do
        modifyReconnect (·.recordDisconnectAt turn.tick.now)
        mapError liveRuntimeErrorToTask (publishStatus R context turn.tick 0)
        pure TaskStatus.returned) :=
      .bind (.modify fun _ h => h) fun _ =>
        .bind (.mapError (publishStatus_outcomes _ _)) fun _ => .pure _
    exact hkeeps s rfl

/-- A transient outcome is the one that the task returns with. -/
theorem attempts_transient (tick : Tick) (turns : List Turn) (s : TrackerState W) :
    ∃ noted, (exec (trackerTask R context tick turns) s).2.outcomes = s.outcomes ++ noted ∧
      ∀ outcome ∈ noted, Transient outcome →
        Transient (exec (trackerTask R context tick turns) s).1 := by
  induction turns generalizing tick s with
  | nil =>
    rcases trackerTask_cases tick [] s with ⟨e, s', -, houtcomes, htask⟩ | ⟨s', -, houtcomes, htask⟩
    · rw [htask]
      refine ⟨[.error e], houtcomes, fun outcome ho htransient => ?_⟩
      rw [List.mem_singleton.1 ho, transient_error] at htransient
      exact transient_error.2 htransient
    · rw [htask]
      refine ⟨[.ok ()], houtcomes, fun outcome ho htransient => ?_⟩
      exact absurd (List.mem_singleton.1 ho ▸ htransient) not_transient_ok
  | cons turn turns ih =>
    rcases trackerTask_cases tick (turn :: turns) s with
      ⟨e, s', -, houtcomes, htask⟩ | ⟨s', -, houtcomes, htask⟩
    · rw [htask]
      refine ⟨[.error e], houtcomes, fun outcome ho htransient => ?_⟩
      rw [List.mem_singleton.1 ho, transient_error] at htransient
      exact transient_error.2 htransient
    rw [htask]
    rcases trackerLoop_outcomes turn turns s' with ⟨-, hnext⟩ | hsame
    · obtain ⟨noted, hnoted, hlast⟩ := ih turn.tick s'
      rw [hnext]
      refine ⟨.ok () :: noted, by rw [hnoted, houtcomes]; simp, fun outcome ho htransient => ?_⟩
      rcases List.mem_cons.1 ho with hok | ho
      · exact absurd (hok ▸ htransient) not_transient_ok
      · exact hlast outcome ho htransient
    · refine ⟨[.ok ()], by rw [hsame, houtcomes], fun outcome ho htransient => ?_⟩
      exact absurd (List.mem_singleton.1 ho ▸ htransient) not_transient_ok

/-- **The task keeps going exactly if it meets no transient failure.** -/
theorem keepsGoing_iff (R : Reconciler W) (context : StatusContext) (start : Tick) (turns : List Turn)
    (s : TrackerState W) :
    KeepsGoing R context start turns s ↔ ¬ MeetsTransient R context start turns s := by
  rw [meetsTransient_iff]
  constructor
  · intro h htransient
    obtain ⟨e, he, hclass⟩ := htransient
    have hcorrectness := h.correctness e _ (Prod.ext he rfl)
    rw [hclass] at hcorrectness
    cases hcorrectness
  · intro h
    constructor
    · intro e s' he
      cases hclass : e.classify with
      | correctness => rfl
      | transient => exact absurd ⟨e, by rw [he], hclass⟩ h
    · intro i outcome turn hi htransient _ _
      obtain ⟨noted, hnoted, hlast⟩ := @attempts_transient W R context start turns s
      unfold attempts at hi
      rw [hnoted, List.drop_left] at hi
      exact absurd (hlast outcome (List.mem_of_getElem? hi) htransient) h

end

/-! ## One refused connection -/

/-- An endpoint that refuses every connection. -/
def refusing : RpcLiveSource Unit where
  pollHead := throw (.rpc "RPC request failed: connection refused")
  blockByNumber _ := throw (.rpc "RPC request failed: connection refused")
  blockByHash _ := throw (.rpc "RPC request failed: connection refused")
  headerByNumber _ := throw (.rpc "RPC request failed: connection refused")
  headerByHash _ := throw (.rpc "RPC request failed: connection refused")

def refusingArgs : TrackerArgs Unit Unit where
  primary := refusing
  verifier := refusing
  options := { startBlock := some 0, budgetWindow := 60 * 10 ^ 9, budgetCostUnitsPerWindow := 1200 }
  maxReorgDepth := 2048
  overtaken _ := false
  isCancelled _ := false

/-- `tracker_task` on an empty database, without a verifier. -/
def freshTracker : TrackerState (Runner Unit Unit) where
  world := {
    server := { db := Database.empty 1 }
    source := { primary := (), verifier := none, verifierDisagreements := 0, lastHead := none } }
  reconnect := .new livePolicy
  health := { inner := {} }

/-- The first refused connection ends the task; the wakeup after it starts nothing. -/
theorem refused_connection_ends_task :
    ¬ KeepsGoing (reconciler refusingArgs) ⟨"http://rpc", none⟩ ⟨0, 0⟩ [⟨.wakeup, ⟨1, 0⟩⟩]
      freshTracker := by
  intro h
  have herror : (exec (trackerTask (reconciler refusingArgs) ⟨"http://rpc", none⟩ ⟨0, 0⟩
      [⟨.wakeup, ⟨1, 0⟩⟩]) freshTracker).1 =
      .error (.rpcTransient "RPC request failed: connection refused") := rfl
  cases h.correctness _ _ (Prod.ext herror rfl)

end Chainweave.Runtime
