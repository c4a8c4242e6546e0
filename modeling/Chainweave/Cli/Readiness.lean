import Chainweave.Cli.Tracker
import Chainweave.Core.Readiness
import Chainweave.Live.Safety

/-!
# Published readiness

`reconcile_and_publish` computes readiness from the reconnect loop, the counter of
disagreements and a gap that saturates at zero; it does not read the report's. A run
whose head lags on the chain of the checkpoint is degraded, and published as ready.

* `ReadyAtMost`: what is published as ready ended ready.
* `UnseenLag`: the run finds the lag, and nothing else speaks against readiness.
* `readyAtMost_iff`: one reconciliation; `task_readyAtMost_iff`: those of a task.
-/
namespace Chainweave.Runtime

open Stateful Chainweave.Chain Chainweave.Backfill Chainweave.Postgres Chainweave.Live
  Chainweave.Observability

/-! ## What the source counts -/

section
variable {π ν : Type} {args : TrackerArgs π ν} {I : RpcReconciliationSource π ν → Prop}

theorem blockOnWithShutdown_keeps {α : Type} {x : Prog (RpcReconciliationSource π ν) LiveRuntimeError α}
    (h : Keeps I x) : Keeps (fun s => I s.source) (blockOnWithShutdown args x) := by
  unfold blockOnWithShutdown
  refine .bind .get fun s => .bind (.modify fun _ h => h) fun _ => ?_
  split
  · exact .throw _
  · exact .mapError (.zoom h (fun _ h => h) fun _ _ h _ => h)

/-- What the answers of the endpoints leave alone. -/
structure Unanswered (I : RpcReconciliationSource π ν → Prop) : Prop where
  primary : ∀ s primary, I s → I { s with primary }
  verifier : ∀ s verifier, I s → I { s with verifier }
  sightings : ∀ s sightings, I s → I { s with sightings }

theorem onPrimary_keeps {α : Type} (h : Unanswered I) (x : Prog π LiveRuntimeError α) :
    Keeps I (onPrimary (ν := ν) x) := fun s hs => h.primary s _ hs

theorem verifierHeader_keeps (h : Unanswered I) (height : Nat) :
    Keeps I (verifierHeader args height) := by
  intro s hs
  unfold verifierHeader
  rw [exec_mk]
  cases s.verifier with
  | none => exact hs
  | some verifier =>
    have hasked := h.verifier s (some (exec (args.verifier.headerByNumber height) verifier).2) hs
    exact h.sightings _ (noteAnswer height (exec (args.verifier.headerByNumber height) verifier).1 _) hasked

theorem verifyHead_keeps (h : Unanswered I) (hdisagree : ∀ s, I s → I s.disagree)
    (primary : BlockHeader) : Keeps I (verifyHead args primary) := by
  unfold verifyHead
  refine .bind (.attempt (verifierHeader_keeps h _)) fun outcome => ?_
  cases outcome with
  | error e => exact .modify hdisagree
  | ok found =>
    cases found with
    | none => exact .pure _
    | some header =>
      dsimp only
      split
      · exact .modify hdisagree
      · exact .pure _

theorem verifyRecent_keeps (h : Unanswered I) (hdisagree : ∀ s, I s → I s.disagree)
    (height : Nat) (hash : BlockHash) : Keeps (fun s => I s.source) (verifyRecent args height hash) := by
  unfold verifyRecent
  refine .bind .get fun s => ?_
  split
  · exact .pure _
  refine .bind (.attempt (blockOnWithShutdown_keeps (verifierHeader_keeps h _))) fun outcome => ?_
  cases outcome with
  | error e => exact .pure _
  | ok found =>
    cases found with
    | none => exact .pure _
    | some header =>
      dsimp only
      split
      · exact .pure _
      · exact .bind (.modify fun _ hs => hdisagree _ hs) fun _ => .pure _

theorem le_disagree {n : Nat} (hn : n ≤ 1) (s : RpcReconciliationSource π ν)
    (h : n ≤ s.verifierDisagreements) : n ≤ s.disagree.verifierDisagreements := by
  unfold RpcReconciliationSource.disagree satAdd u64Max
  dsimp only
  omega

theorem disagree_pos (s : RpcReconciliationSource π ν) : 0 < s.disagree.verifierDisagreements := by
  unfold RpcReconciliationSource.disagree satAdd u64Max
  dsimp only
  omega

theorem verifyRecent_counts (height : Nat) (hash : BlockHash) (s : BlockingTrackerSource π ν) :
    wp (verifyRecent args height hash)
      (fun status s' => status = .Disagree → 0 < s'.source.verifierDisagreements) (fun _ _ => True) s := by
  unfold verifyRecent
  rw [wp_bind, wp_get]
  split
  · exact fun h => by cases h
  rw [wp_bind]
  refine wp_attempt (wp_mono (wp_const trivial) (fun found s' _ => ?_) (fun _ _ _ h => by cases h))
  cases found with
  | none => exact fun h => by cases h
  | some header =>
    dsimp only
    split
    · exact fun h => by cases h
    · exact fun _ => disagree_pos _

/-- The source counts the disagreements that it answers. -/
theorem rpcCalls_counting : Counting (blockingTrackerSource (rpcCalls args)).toLiveSource
    BlockingPostgresLiveSink.liveSink fun s => s.source.verifierDisagreements := by
  constructor
  · intro n hn
    have h : Unanswered fun s : RpcReconciliationSource π ν => n ≤ s.verifierDisagreements :=
      ⟨fun _ _ h => h, fun _ _ h => h, fun _ _ h => h⟩
    have hprimary : ∀ {α : Type} (x : Prog π LiveRuntimeError α), Keeps
        (fun s : BlockingTrackerSource π ν => n ≤ s.source.verifierDisagreements)
        (blockOnWithShutdown args (onPrimary x)) :=
      fun x => blockOnWithShutdown_keeps (onPrimary_keeps h x)
    refine ⟨⟨⟨fun _ => ?_, fun _ _ => hprimary _, fun _ _ => hprimary _, fun _ _ => .map (hprimary _),
      fun _ _ => hprimary _⟩, fun _ _ _ => verifyRecent_keeps h (le_disagree hn) _ _⟩,
      fun _ _ h => h, fun _ _ _ h => h, fun _ _ _ h => h, fun _ _ _ h => h, fun _ _ _ _ h => h⟩
    show Keeps _ (currentHead args)
    refine .bind (hprimary _) fun header => .bind (.modify fun _ h => h) fun _ => ?_
    exact .bind (blockOnWithShutdown_keeps (verifyHead_keeps h (le_disagree hn) header)) fun _ => .pure _
  · intro height hash a a' h
    exact wp_ok (verifyRecent_counts height hash a) h rfl

theorem currentHead_notes (s : BlockingTrackerSource π ν) :
    wp (currentHead args) (fun header s' => s'.source.lastHead = some header) (fun _ _ => True) s := by
  unfold currentHead
  rw [wp_bind]
  refine wp_mono (wp_const trivial) (fun header s1 _ => ?_) (fun _ _ _ => trivial)
  have h : Unanswered fun s : RpcReconciliationSource π ν => s.lastHead = some header :=
    ⟨fun _ _ h => h, fun _ _ h => h, fun _ _ h => h⟩
  rw [wp_bind, wp_modify, wp_bind]
  refine wp_mono ((blockOnWithShutdown_keeps (verifyHead_keeps h (fun _ hs => hs) header)).wp ?_)
    (fun _ _ hs => hs) (fun _ _ _ => trivial)
  rfl

/-- The head that a run asked for is the one read last, through the questions after it. -/
theorem lastHead_after {head : BlockHeader} {status : VerifierStatus} {remote : Option BlockHeader}
    {height height' : Nat} {hash : BlockHash} {a a1 a2 a3 : BlockingTrackerSource π ν}
    (hhead : exec (currentHead args) a = (.ok head, a1))
    (hstatus : exec (verifyRecent args height hash) a1 = (.ok status, a2))
    (hremote : exec ((blockingTrackerSource (rpcCalls args)).headerByNumber height') a2 = (.ok remote, a3)) :
    a3.source.lastHead = some head := by
  have h : Unanswered fun s : RpcReconciliationSource π ν => s.lastHead = some head :=
    ⟨fun _ _ h => h, fun _ _ h => h, fun _ _ h => h⟩
  have hread : a1.source.lastHead = some head := wp_ok (currentHead_notes a) hhead
  have hverified : a2.source.lastHead = some head := by
    have hkeeps := @verifyRecent_keeps _ _ args _ h (fun _ hs => hs) height hash a1 hread
    rw [hstatus] at hkeeps
    exact hkeeps
  have hkeeps : Keeps (fun s : BlockingTrackerSource π ν => s.source.lastHead = some head)
      ((blockingTrackerSource (rpcCalls args)).headerByNumber height') :=
    .map (blockOnWithShutdown_keeps (onPrimary_keeps h _))
  have hkept := hkeeps a2 hverified
  rw [hremote] at hkept
  exact hkept

end

/-! ## What a reconciliation publishes -/

section
variable {π ν : Type} (args : TrackerArgs π ν) (context : StatusContext)

/-- What is published as ready ended ready. -/
def ReadyAtMost (tick : Tick) (s : TrackerState (Runner π ν)) : Prop :=
  ∀ s', exec (reconcileAndPublish (reconciler args) context tick) s = (.ok (), s') →
    s'.health.inner.ready = true →
    ∃ report w, exec (reconcileOnce args) s.world = (.ok report, w) ∧ report.readiness = .ready

/-- The head lags on the chain of the checkpoint, and nothing else keeps the status from ready: the
loop has not halted, the run starts, no disagreement was counted, and the checkpoint can be read. -/
def UnseenLag (s : TrackerState (Runner π ν)) : Prop :=
  s.reconnect.halted = false ∧ 0 < args.options.budgetCostUnitsPerWindow ∧
    args.isCancelled s.world.polls = false ∧
    ∃ anchor server head checkpoint a k,
      exec PostgresLiveStore.checkpointHeader s.world.server = (.ok anchor, server) ∧
      SeesLag (blockingTrackerSource (rpcCalls args)).toLiveSource BlockingPostgresLiveSink.liveSink
        (Runner.peers { s.world with server } anchor) head checkpoint a k ∧
      a.source.verifierDisagreements = 0 ∧
      ∃ row server', exec Server.checkpoint k.server = (.ok row, server')

/-- The reconciliations that a task gets to, each with the state it starts in. -/
inductive Reconciles {W : Type} (R : Reconciler W) (context : StatusContext) :
    Tick → List Turn → TrackerState W → Tick → TrackerState W → Prop
  | here {tick : Tick} {turns : List Turn} {s : TrackerState W} :
      Reconciles R context tick turns s tick s
  | later {tick tick' : Tick} {turn : Turn} {turns : List Turn} {s s' t : TrackerState W} :
      exec (reconcile R context tick) s = (.ok (), s') → turn.selected = .wakeup →
      Reconciles R context turn.tick turns s' tick' t → Reconciles R context tick (turn :: turns) s tick' t

end

section
variable {π ν : Type} {args : TrackerArgs π ν} {context : StatusContext} {tick : Tick}
  {s : TrackerState (Runner π ν)}

theorem reconcileOnce_ok {report : LiveReport} {world w : Runner π ν} :
    exec (reconcileOnce args) world = (.ok report, w) ↔
      ∃ anchor server p', exec PostgresLiveStore.checkpointHeader world.server = (.ok anchor, server) ∧
        exec (trackerRun args) (Runner.peers { world with server } anchor) = (.ok report, p') ∧
        w = .ofPeers p' := by
  unfold reconcileOnce onWriter
  rw [exec_bind, exec_zoom]
  cases hanchor : exec PostgresLiveStore.checkpointHeader world.server with
  | mk r server =>
    cases r with
    | error e => simp
    | ok anchor =>
      dsimp only
      rw [exec_zoom, exec_mapError]
      cases hrun : exec (trackerRun args) (Runner.peers { world with server } anchor) with
      | mk r p' =>
        cases r with
        | error e => simp [Except.mapError, hrun]
        | ok report' =>
          simp only [Except.mapError, Prod.mk.injEq, Except.ok.injEq]
          constructor
          · intro h
            exact ⟨anchor, server, p', ⟨rfl, rfl⟩, by rw [hrun, h.1], h.2.symm⟩
          · intro h
            obtain ⟨_, _, _, ⟨rfl, rfl⟩, hrun', rfl⟩ := h
            rw [hrun] at hrun'
            cases hrun'
            exact ⟨rfl, rfl⟩

end

/-- When a reconciliation publishes ready: the report's readiness is not asked for. -/
theorem publishes_ready_iff {W : Type} {R : Reconciler W} {context : StatusContext} {tick : Tick}
    {s : TrackerState W} :
    (∃ s', exec (reconcileAndPublish R context tick) s = (.ok (), s') ∧ s'.health.inner.ready = true) ↔
      ∃ report w row w', exec R.reconcileOnce s.world = (.ok report, w) ∧ report.halted = none ∧
        exec R.checkpoint w = (.ok row, w') ∧ s.reconnect.halted = false ∧
        R.verifierDisagreements w' = 0 ∧ gapCount report (R.lastHead w) = 0 := by
  cases honce : exec R.reconcileOnce s.world with
  | mk r w =>
    cases r with
    | error e =>
      obtain ⟨s', hexec⟩ := @reconcileAndPublish_error _ _ context tick _ _ _ honce
      rw [hexec]
      simp
    | ok report =>
      cases hhalted : report.halted with
      | some reason =>
        obtain ⟨s', hexec⟩ := @reconcileAndPublish_halted _ _ context tick _ _ _ _ honce hhalted
        rw [hexec]
        simp [hhalted]
      | none =>
        obtain ⟨ready, -, hready, hexec⟩ :=
          @reconcileAndPublish_publishes _ _ context tick _ _ _ honce hhalted
        rw [hexec]
        cases hrow : exec R.checkpoint w with
        | mk r w' =>
          cases r with
          | error e =>
            rw [exec_publishStatus_error (by exact hrow)]
            simp [hrow]
          | ok row =>
            obtain ⟨health, hpublish, hhealth⟩ := @exec_publishStatus_ok _ R context tick
              { s with world := w, reconnect := ready } _ (gapCount report (R.lastHead w)) _ hrow
            rw [hpublish]
            simp [hrow, hhalted, hhealth, readinessFromReconnect, hready]

section
variable {π ν : Type} {args : TrackerArgs π ν} {context : StatusContext} {tick : Tick}
  {s : TrackerState (Runner π ν)}

theorem checkpoint_ok {row : Option Checkpoint} {w w' : Runner π ν} :
    exec (reconciler args).checkpoint w = (.ok row, w') ↔
      ∃ server, exec Server.checkpoint w.server = (.ok row, server) ∧ w' = { w with server } := by
  show exec (onWriter (mapError LiveRuntimeError.sink Server.checkpoint)) w = _ ↔ _
  unfold onWriter
  rw [exec_zoom, exec_mapError]
  cases hrow : exec Server.checkpoint w.server with
  | mk r server =>
    cases r with
    | error e => simp [Except.mapError]
    | ok row' => simp [Except.mapError, and_assoc, eq_comm]

/-- A lag that nothing else gives away is published as ready. -/
theorem unseenLag_published (h : UnseenLag args s) : ¬ ReadyAtMost args context tick s := by
  obtain ⟨hloop, hbudget, hcancel, anchor, server, head, checkpoint, a, k, hanchor, hlag, hcount, row,
    server', hrow⟩ := h
  obtain ⟨report, p', hrun, rfl, rfl, hnone, hdegraded, hfinal⟩ :=
    @run_lagging _ _ _ _ _ _ (liveConfig args) args.isCancelled [] _ _ _ _ _ hlag hbudget hcancel
  have honce : exec (reconcileOnce args) s.world = (.ok report, .ofPeers p') :=
    reconcileOnce_ok.2 ⟨anchor, server, p', hanchor, hrun, rfl⟩
  have hlast : p'.source.source.lastHead = some head := by
    obtain ⟨-, a1, status, a2, remote, k2, row, hhead, hstatus, hremote, -⟩ := hlag
    exact lastHead_after hhead hstatus hremote
  have hgap : gapCount report (some head) = 0 := by
    unfold gapCount
    rw [hfinal]
    exact Nat.sub_eq_zero_of_le (Nat.le_of_lt hlag.1)
  have hcheckpoint : exec (reconciler args).checkpoint (.ofPeers p') =
      (.ok row, { Runner.ofPeers p' with server := server' }) := checkpoint_ok.2 ⟨server', hrow, rfl⟩
  have hgap' : gapCount report p'.source.source.lastHead = 0 := by rw [hlast]; exact hgap
  obtain ⟨s', hexec, hready⟩ := (@publishes_ready_iff _ _ context tick s).2 ⟨report, _, row, _, honce,
    hnone, hcheckpoint, hloop, hcount, hgap'⟩
  intro hmost
  obtain ⟨report', w, honce', hready'⟩ := hmost s' hexec hready
  rw [honce] at honce'
  cases honce'
  rw [hdegraded] at hready'
  cases hready'

/-- **Published readiness is the report's, unless a lag goes unseen.** -/
theorem readyAtMost_iff : ReadyAtMost args context tick s ↔ ¬ UnseenLag args s := by
  refine ⟨fun h hlag => unseenLag_published hlag h, fun hseen s' hexec hready => ?_⟩
  obtain ⟨report, w, row, w', honce, hnone, hrow, hloop, hcount, -⟩ :=
    publishes_ready_iff.1 ⟨s', hexec, hready⟩
  refine ⟨report, w, honce, ?_⟩
  obtain ⟨anchor, server, p', hanchor, hrun, rfl⟩ := reconcileOnce_ok.1 honce
  obtain ⟨hbudget, hcancel⟩ := wp_ok (run_starts [] _) hrun
  obtain ⟨server', hrow', rfl⟩ := checkpoint_ok.1 hrow
  rcases wp_ok (run_ready rpcCalls_counting [] _) hrun hnone hcount with hready | hlag
  · exact hready
  · obtain ⟨head, checkpoint, hlag⟩ := hlag
    exact absurd ⟨hloop, hbudget, hcancel, anchor, server, head, checkpoint, _, _, hanchor, hlag, hcount,
      row, server', hrow'⟩ hseen

/-- **Over the reconciliations of a task**: published readiness never exceeds the report's exactly if
none of them meets an unseen lag. -/
theorem task_readyAtMost_iff (args : TrackerArgs π ν) (context : StatusContext) (start : Tick)
    (turns : List Turn) (s : TrackerState (Runner π ν)) :
    (∀ tick t, Reconciles (reconciler args) context start turns s tick t →
        ReadyAtMost args context tick t) ↔
      ∀ tick t, Reconciles (reconciler args) context start turns s tick t → ¬ UnseenLag args t := by
  constructor
  · intro h tick t ht
    exact readyAtMost_iff.1 (h tick t ht)
  · intro h tick t ht
    exact readyAtMost_iff.2 (h tick t ht)

end

/-! ## A primary that lags -/

/-- An endpoint at this head of a chain. -/
def atHead (chain : List BlockHeader) (head : BlockHeader) : RpcLiveSource Unit where
  pollHead := pure head
  blockByNumber height :=
    lift (((chain.find? (·.height == height)).map plainBlock).elim (.error (.rpc "no block")) .ok)
  blockByHash hash :=
    lift (((chain.find? (·.hash == hash)).map plainBlock).elim (.error (.rpc "no block")) .ok)
  headerByNumber height :=
    lift ((chain.find? (·.height == height)).elim (.error (.rpc "no block")) .ok)
  headerByHash hash := pure (chain.find? (·.hash == hash))

def laggingArgs : TrackerArgs Unit Unit where
  primary := atHead [genesis, a1] a1
  verifier := atHead [genesis, a1] a1
  options := { startBlock := none, budgetWindow := 60 * 10 ^ 9, budgetCostUnitsPerWindow := 1200 }
  maxReorgDepth := 2048
  overtaken _ := false
  isCancelled _ := false

/-- `tracker_task` on the chain up to `a2`, without a verifier. -/
def laggingTracker : TrackerState (Runner Unit Unit) where
  world := {
    server := { db := storeOf [genesis, a1, a2] }
    source := { primary := (), verifier := none, verifierDisagreements := 0, lastHead := none } }
  reconnect := .new livePolicy
  health := { inner := {} }

/-- The primary is one block behind the checkpoint. The run says so in its report, and the status
says ready. -/
theorem lagging_published_ready :
    (exec (reconcileOnce laggingArgs) laggingTracker.world).1.map
        (fun report => (report.readiness, report.halted)) = .ok (.degraded, none) ∧
      ¬ ∀ tick t, Reconciles (reconciler laggingArgs) ⟨"http://rpc", none⟩ ⟨0, 0⟩ [] laggingTracker tick t →
        ReadyAtMost laggingArgs ⟨"http://rpc", none⟩ tick t := by
  have hreport : (exec (reconcileOnce laggingArgs) laggingTracker.world).1.map
      (fun report => (report.readiness, report.halted)) = .ok (.degraded, none) := by decide +kernel
  refine ⟨hreport, fun h => ?_⟩
  have hok : (exec (reconcileAndPublish (reconciler laggingArgs) ⟨"http://rpc", none⟩ ⟨0, 0⟩)
      laggingTracker).1 = .ok () := by decide +kernel
  obtain ⟨report, w, honce, hready⟩ := h ⟨0, 0⟩ laggingTracker .here _ (Prod.ext hok rfl) (by decide +kernel)
  rw [honce] at hreport
  have hdegraded : report.readiness = .degraded := by
    have heq := Except.ok.inj hreport
    exact congrArg Prod.fst heq
  rw [hdegraded] at hready
  cases hready

end Chainweave.Runtime
