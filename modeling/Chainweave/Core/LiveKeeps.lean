import Chainweave.Core.LiveRelated

/-!
# What a run keeps

What every call of the source and of the sink keeps, and the edits of the report, a run
keeps, however it ends: it is the run beside itself.

* `Answering source J`, `Stable source sink J`: every call of the source, and of the sink,
  keeps `J`; `Fetching` and `Syncing` leave out `verify_recent`, which a run makes once, at
  its start.
* `Kept R J`: `R` of the report, and `J` of the peers.
* `run_keeps`: the run.
-/
namespace Chainweave.Backfill.OrderedCommitCoordinator

open Stateful

variable {L κ : Type} {commitRange : CommitRange κ L} {I : κ → Prop}

theorem push_keeps (h : ∀ fetched, Keeps I (commitRange fetched)) (fetched : FetchedRange L) :
    Keeps (fun s : OrderedCommitCoordinator L × κ => I s.2) (push commitRange fetched) :=
  (push_related (fun fetched => (h fetched).related) fetched).keeps fun _ =>
    ⟨fun hs => hs.snd.2, fun hs => ⟨rfl, rfl, hs⟩⟩

end Chainweave.Backfill.OrderedCommitCoordinator

namespace Chainweave.Chain

open Stateful

variable {ρ : Type}

/-- Every lookup keeps `I`. -/
structure AncestryResolver.Keeping (resolver : AncestryResolver ρ) (I : ρ → Prop) : Prop where
  headerByHash : ∀ hash, Keeps I (resolver.headerByHash hash)
  canonicalHeaderByHash : ∀ hash, Keeps I (resolver.canonicalHeaderByHash hash)
  canonicalHeaderAtHeight : ∀ height, Keeps I (resolver.canonicalHeaderAtHeight height)

theorem AncestryResolver.Keeping.related {resolver : AncestryResolver ρ} {I : ρ → Prop}
    (h : resolver.Keeping I) :
    AncestryResolver.Related (fun t s => s = t ∧ I t) resolver resolver where
  headerByHash hash := (h.headerByHash hash).related
  canonicalHeaderByHash hash := (h.canonicalHeaderByHash hash).related
  canonicalHeaderAtHeight height := (h.canonicalHeaderAtHeight height).related

/-- `apply` keeps what its resolver keeps. -/
theorem ChainState.apply_keeps {resolver : AncestryResolver ρ} {I : ρ → Prop}
    (h : resolver.Keeping I) (newHead : BlockHeader) :
    Keeps (fun s : ChainState × ρ => I s.2) (apply resolver newHead) :=
  (apply_related h.related newHead).keeps fun _ =>
    ⟨fun hs => hs.snd.2, fun hs => ⟨rfl, rfl, hs⟩⟩

end Chainweave.Chain

namespace Chainweave.Live

open Stateful Chainweave.Chain Chainweave.Backfill

variable {σ κ ε β : Type}

/-- Every call of the source but `verify_recent` keeps `J`. -/
structure Fetching (source : LiveSource σ ε β) (J : σ → κ → Prop) : Prop where
  currentHead : ∀ k, Keeps (J · k) source.currentHead
  blockByNumber : ∀ height k, Keeps (J · k) (source.blockByNumber height)
  blockByHash : ∀ hash k, Keeps (J · k) (source.blockByHash hash)
  headerByNumber : ∀ height k, Keeps (J · k) (source.headerByNumber height)
  headerByHash : ∀ hash k, Keeps (J · k) (source.headerByHash hash)

/-- So does `verify_recent`. -/
structure Answering (source : LiveSource σ ε β) (J : σ → κ → Prop) : Prop
    extends Fetching source J where
  verifyRecent : ∀ height hash k, Keeps (J · k) (source.verifyRecent height hash)

/-- Every call of the sink keeps `J`, and every call of the source but `verify_recent`. -/
structure Syncing (source : LiveSource σ ε β) (sink : LiveSink κ β) (J : σ → κ → Prop) : Prop
    extends Fetching source J where
  checkpoint : ∀ s k, J s k → J s (sink.checkpoint k).2
  canonicalHeaderAtHeight : ∀ height s k, J s k → J s (sink.canonicalHeaderAtHeight height k).2
  canonicalHeaderByHash : ∀ hash s k, J s k → J s (sink.canonicalHeaderByHash hash k).2
  commitRange : ∀ fetched s, Keeps (J s) (sink.commitRange fetched)
  commitBatch : ∀ batch blocks s, Keeps (J s) (sink.commitBatch batch blocks)

/-- Every call of the source and of the sink keeps `J`. -/
structure Stable (source : LiveSource σ ε β) (sink : LiveSink κ β) (J : σ → κ → Prop) : Prop
    extends Answering source J, Syncing source sink J

/-- No call of the source touches the sink. -/
theorem answering_sink {source : LiveSource σ ε β} (J : κ → Prop) : Answering source fun _ k => J k :=
  ⟨⟨fun _ _ h => h, fun _ _ _ h => h, fun _ _ _ h => h, fun _ _ _ h => h, fun _ _ _ h => h⟩,
    fun _ _ _ _ h => h⟩

/-- `R` of the report, and `J` of the peers. -/
def Kept (R : LiveReport → Prop) (J : σ → κ → Prop) (s : Locals × Peers σ κ) : Prop :=
  R s.1.report ∧ J s.2.source s.2.sink

/-- The same peers, with `J`. -/
def Itself (J : σ → κ → Prop) (p q : Peers σ κ) : Prop := q = p ∧ J p.source p.sink

section
variable {R : LiveReport → Prop} {J : σ → κ → Prop} {source : LiveSource σ ε β}
  {sink : LiveSink κ β} {config : LiveConfig} {isCancelled : Nat → Bool}

/-! ## Calls -/

theorem onPeers_keeps {ε' α : Type} {x : Prog (Peers σ κ) ε' α}
    (hx : Keeps (fun p : Peers σ κ => J p.source p.sink) x) : Keeps (Kept R J) (onPeers x) :=
  .zoom hx (fun _ h => h.2) fun _ _ h ht => ⟨ht.1, h⟩

theorem onSource_keeps {ε' α : Type} {x : Prog σ ε' α} (hx : ∀ k, Keeps (J · k) x) :
    Keeps (fun p : Peers σ κ => J p.source p.sink) (onSource x) := fun p h => hx p.sink _ h

theorem callSource_keeps {α : Type} {x : Prog σ ε α} (hx : ∀ k, Keeps (J · k) x) :
    Keeps (Kept (κ := κ) R J) (callSource source x) := onPeers_keeps (.mapError (onSource_keeps hx))

theorem note_keeps (step : κ → LiveStep κ) :
    Keeps (Kept (σ := σ) R J) (onPeers (note step : Prog (Peers σ κ) LiveError PUnit)) :=
  onPeers_keeps (.modify fun _ h => h)

theorem ensureNotCancelled_keeps :
    Keeps (fun p : Peers σ κ => J p.source p.sink) (ensureNotCancelled isCancelled) := by
  unfold ensureNotCancelled
  refine .bind .get fun p => .bind (.modify fun _ h => h) fun _ => ?_
  split
  · exact .throw _
  · exact .pure _

theorem polled_keeps :
    Keeps (Kept R J) (onPeers (ensureNotCancelled isCancelled) : Track σ κ Unit) :=
  onPeers_keeps ensureNotCancelled_keeps

theorem readCheckpoint_keeps (h : Syncing source sink J) :
    Keeps (Kept R J) (onPeers (readSink sink.checkpoint) : Track σ κ (Option BlockHeader)) :=
  onPeers_keeps fun p hp => h.checkpoint p.source p.sink hp

theorem modifyReport_keeps {f : LiveReport → LiveReport} (hf : ∀ report, R report → R (f report)) :
    Keeps (Kept R J) (modifyReport f : Track σ κ PUnit) := .modify fun _ h => ⟨hf _ h.1, h.2⟩

theorem issue_keeps {ε' : Type} (call : Unrecorded) :
    Keeps (Kept R J) (issue call : Prog (Locals × Peers σ κ) ε' PUnit) := .modify fun _ h => h

theorem liveResolver_keeping (h : Fetching source J)
    (hheight : ∀ height s k, J s k → J s (sink.canonicalHeaderAtHeight height k).2)
    (hhash : ∀ hash s k, J s k → J s (sink.canonicalHeaderByHash hash k).2) :
    (liveResolver source sink).Keeping (Kept R J) where
  headerByHash hash := .bind (issue_keeps _) fun _ =>
    onPeers_keeps (.mapError (onSource_keeps (h.headerByHash hash)))
  canonicalHeaderByHash hash := onPeers_keeps fun p hp => hhash hash p.source p.sink hp
  canonicalHeaderAtHeight height := onPeers_keeps fun p hp => hheight height p.source p.sink hp

/-- The budget lets every request through, and touches nothing but itself and the report. -/
theorem record_returns (method : RpcMethod) (s : Locals × Peers σ κ) :
    wp (record method) (fun _ s' => s'.2 = s.2 ∧ s'.1.report.halted = s.1.report.halted ∧
      s'.1.report.verifierDisagreements = s.1.report.verifierDisagreements) (fun _ _ => False) s := by
  obtain ⟨budget, report, h, hhalted⟩ := s.1.budget.record_ok method s.1.report
  obtain ⟨-, hcount⟩ := WindowBudget.record_same h
  unfold record
  rw [wp_bind, wp_get, wp_bind, h, wp_lift]
  refine ⟨fun r hr => ?_, by simp⟩
  cases hr
  exact ⟨rfl, hhalted, hcount⟩

/-- A ghost request touches neither the peers nor the report. -/
theorem issue_wp {ε' : Type} {call : Unrecorded} {s : Locals × Peers σ κ}
    {Q : PUnit → Locals × Peers σ κ → Prop} {E : ε' → Locals × Peers σ κ → Prop}
    (h : ∀ s', s'.2 = s.2 → s'.1.report = s.1.report → Q ⟨⟩ s') : wp (issue call) Q E s :=
  h _ rfl rfl

/-- A call of the source, by what it answers. -/
theorem callSource_split {α : Type} {x : Prog σ ε α} {s : Locals × Peers σ κ}
    {Q : α → Locals × Peers σ κ → Prop} {E : LiveError → Locals × Peers σ κ → Prop}
    (hok : ∀ r a, exec x s.2.source = (.ok r, a) → Q r (s.1, { s.2 with source := a }))
    (herror : ∀ e a, exec x s.2.source = (.error e, a) →
      E (.source (source.message e)) (s.1, { s.2 with source := a })) :
    wp (callSource source x) Q E s := by
  unfold callSource onPeers onSource
  refine wp_zoom (wp_mapError (wp_zoom ?_))
  cases hx : exec x s.2.source with
  | mk r a =>
    refine wp_of_eq hx (fun r' hr => hok r' a ?_) fun e he => herror e a ?_
    · rw [hx, hr]
    · rw [hx, he]

/-! ## A run beside itself -/

theorem Fetching.paired (h : Fetching source J) : PairedSource source (Itself J) where
  polls p q hpq := by rw [hpq.1]
  polled n p q hpq := ⟨by rw [hpq.1], hpq.2⟩
  noted hstep p q hpq := by
    refine ⟨?_, hpq.2⟩
    rw [hpq.1]
    cases hstep <;> rfl
  currentHead := (onSource_keeps h.currentHead).related
  blockByNumber height := (onSource_keeps (h.blockByNumber height)).related
  blockByHash hash := (onSource_keeps (h.blockByHash hash)).related
  headerByNumber height := (onSource_keeps (h.headerByNumber height)).related
  headerByHash hash := (onSource_keeps (h.headerByHash hash)).related

theorem Answering.pairedVerifier (h : Answering source J) : PairedVerifier source (Itself J) :=
  fun height hash => (onSource_keeps (h.verifyRecent height hash)).related

theorem pairedRead_itself {α : Type} {read : κ → α × κ} (h : ∀ s k, J s k → J s (read k).2) :
    PairedRead (Itself J) read read := by
  intro p q hpq
  obtain ⟨rfl, hp⟩ := hpq
  exact ⟨rfl, rfl, h _ _ hp⟩

theorem pairedCommit_itself {ε' α : Type} {x : Prog κ ε' α} (h : ∀ s, Keeps (J s) x) :
    PairedCommit (Itself J) x x := by
  intro p q hpq
  obtain ⟨rfl, -⟩ := hpq
  refine (h q.source).related.congr fun w k => ⟨fun hwk => ⟨by rw [hwk.1], hwk.2⟩, fun hwk => ?_⟩
  exact ⟨congrArg Peers.sink hwk.1, hwk.2⟩

theorem Syncing.paired (h : Syncing source sink J) : Paired source sink sink (Itself J) where
  toPairedSource := h.toFetching.paired
  checkpoint := pairedRead_itself h.checkpoint
  canonicalHeaderAtHeight height := pairedRead_itself (h.canonicalHeaderAtHeight height)
  canonicalHeaderByHash hash := pairedRead_itself (h.canonicalHeaderByHash hash)
  commitRange fetched := pairedCommit_itself (h.commitRange fetched)
  commitBatch batch blocks := pairedCommit_itself (h.commitBatch batch blocks)

theorem kept_of_related {α : Type} {x : Track σ κ α} (hx : Related (Abreast (Reporting R) (Itself J)) x x) :
    Keeps (Kept R J) x :=
  hx.keeps fun _ => ⟨fun hs => ⟨hs.locals.report, hs.peers.2⟩, fun hs => ⟨⟨rfl, hs.1⟩, rfl, hs.2⟩⟩

theorem record_keeps (hR : Lasting R) (method : RpcMethod) :
    Keeps (Kept R J) (record method : Track σ κ PUnit) :=
  kept_of_related (record_related (Reporting.enduring hR) method)

theorem fetchAndPushHeight_keeps (h : Fetching source J)
    (hcommit : ∀ fetched s, Keeps (J s) (sink.commitRange fetched)) (hR : Lasting R)
    (coordinator : OrderedCommitCoordinator β) (height : Nat) :
    Keeps (Kept R J) (fetchAndPushHeight source sink coordinator height) :=
  kept_of_related (fetchAndPushHeight_related h.paired
    (fun fetched => pairedCommit_itself (hcommit fetched)) (Reporting.enduring hR) coordinator height)

theorem fetchApplyBlocks_keeps (h : Fetching source J) (hR : Lasting R)
    (events : List ChainEvent) :
    Keeps (Kept (κ := κ) R J) (fetchApplyBlocks source isCancelled events) :=
  kept_of_related (fetchApplyBlocks_related h.paired (Reporting.enduring hR) events)

theorem applyChainState_keeps (h : Syncing source sink J) (hR : Lasting R) (head : BlockHeader) :
    Keeps (Kept R J) (applyChainState config source sink isCancelled head) :=
  kept_of_related (applyChainState_related h.paired (Reporting.enduring hR) head)

theorem startLoop_keeps (h : Fetching source J)
    (hcommit : ∀ fetched s, Keeps (J s) (sink.commitRange fetched)) (hR : Lasting R)
    (heights : List Nat) (coordinator : OrderedCommitCoordinator β) :
    Keeps (Kept R J) (startLoop source sink isCancelled heights coordinator) :=
  kept_of_related (startLoop_related h.paired (fun fetched => pairedCommit_itself (hcommit fetched))
    (Reporting.enduring hR) heights coordinator)

theorem catchUpFromStart_keeps (h : Syncing source sink J) (hR : Lasting R) (head : BlockHeader) :
    Keeps (Kept R J) (catchUpFromStart config source sink isCancelled head) :=
  kept_of_related (catchUpFromStart_related h.paired (Reporting.enduring hR) head)

theorem catchUpFromCheckpoint_keeps (h : Syncing source sink J) (hR : Lasting R)
    (checkpoint head : BlockHeader) :
    Keeps (Kept R J) (catchUpFromCheckpoint config source sink isCancelled checkpoint head) :=
  kept_of_related (catchUpFromCheckpoint_related h.paired (Reporting.enduring hR) checkpoint head)

theorem finish_keeps (h : Syncing source sink J) (hR : Lasting R) : Keeps (Kept R J) (finish sink) :=
  kept_of_related (finish_related h.paired (Reporting.enduring hR))

theorem lowerHead_keeps (h : Syncing source sink J) (hR : Lasting R) (checkpoint head : BlockHeader) :
    Keeps (Kept R J) (lowerHead config source sink isCancelled checkpoint head) :=
  kept_of_related (lowerHead_related h.paired (Reporting.enduring hR) checkpoint head)

/-- The verifier is asked about the head that was just read. -/
theorem askVerifier_keeps {s : Locals × Peers σ κ}
    (hask : ∀ k, Keeps (J · k) (do
      let head ← source.currentHead
      source.verifyRecent head.height head.hash)) (hs : Kept R J s) :
    wp (callSource source source.currentHead) (fun head s1 =>
        wp (issue .verifyRecent : Track σ κ PUnit) (fun _ s2 =>
            wp (callSource source (source.verifyRecent head.height head.hash))
              (fun _ s3 => Kept R J s3) (fun _ s3 => Kept R J s3) s2)
          (fun _ s2 => Kept R J s2) s1)
      (fun _ s1 => Kept R J s1) s := by
  have hkept := hask s.2.sink s.2.source hs.2
  rw [exec_bind] at hkept
  refine callSource_split (fun head a hhead => ?_) fun e a hhead => ?_
  · rw [hhead] at hkept
    dsimp only at hkept
    refine callSource_split (fun status a' hstatus => ?_) fun e a' hstatus => ?_
    · rw [hstatus] at hkept
      exact ⟨hs.1, hkept⟩
    · rw [hstatus] at hkept
      exact ⟨hs.1, hkept⟩
  · rw [hhead] at hkept
    exact ⟨hs.1, hkept⟩

/-- What the verifier's answer about the head keeps, the tracker keeps. -/
theorem trackHead_keeps (h : Syncing source sink J) (hR : Lasting R)
    (hverifier : ∀ status report, R report → R (noteVerifier status report))
    (hask : ∀ k, Keeps (J · k) (do
      let head ← source.currentHead
      source.verifyRecent head.height head.hash)) :
    Keeps (Kept R J) (trackHead config source sink isCancelled) := by
  unfold trackHead
  refine .bind (record_keeps hR _) fun _ => .of_wp fun s hs => ?_
  rw [wp_bind]
  refine wp_mono (askVerifier_keeps hask hs) (fun head s1 hs1 => ?_) (fun _ _ h => h)
  rw [wp_bind]
  refine wp_mono hs1 (fun _ s2 hs2 => ?_) (fun _ _ h => h)
  rw [wp_bind]
  refine wp_mono hs2 (fun status s3 hs3 => ?_) (fun _ _ h => h)
  refine (Keeps.bind (modifyReport_keeps (hverifier status)) fun _ => ?_).wp hs3
  -- from here on the verifier is not asked
  refine .bind (readCheckpoint_keeps h) fun checkpoint => ?_
  cases checkpoint with
  | none =>
    dsimp only
    split
    · exact modifyReport_keeps fun _ _ => hR.halt _ _
    · exact .bind (catchUpFromStart_keeps h hR head) fun _ => finish_keeps h hR
  | some checkpoint =>
    dsimp only
    split
    · exact lowerHead_keeps h hR checkpoint head
    split
    · split
      · exact .bind (applyChainState_keeps h hR head) fun _ => finish_keeps h hR
      · exact finish_keeps h hR
    · exact .bind (catchUpFromCheckpoint_keeps h hR checkpoint head) fun _ => finish_keeps h hR

/-- **A run that asks the verifier about its head.** -/
theorem run_asking_keeps (h : Syncing source sink J)
    (hask : ∀ k, Keeps (J · k) (do
      let head ← source.currentHead
      source.verifyRecent head.height head.hash)) (events : List LiveHeadEvent) :
    Keeps (fun p : Peers σ κ => J p.source p.sink)
      (runWithCancellation config source sink isCancelled events) := by
  unfold runWithCancellation
  refine .bind (fun p hp => h.checkpoint p.source p.sink hp) fun checkpoint => ?_
  refine .bind ensureNotCancelled_keeps fun _ => .bind (.lift _) fun budget => ?_
  refine .bind (.withLocal fun s hs => ?_) fun _ => .pure _
  exact (trackHead_keeps h .any (fun _ _ _ => trivial) hask s ⟨trivial, hs⟩).2

/-- **A run keeps what its peers keep.** -/
theorem run_keeps (h : Stable source sink J) (events : List LiveHeadEvent) :
    Keeps (fun p : Peers σ κ => J p.source p.sink)
      (runWithCancellation config source sink isCancelled events) :=
  (run_related h.paired h.toAnswering.pairedVerifier events).keeps fun _ =>
    ⟨fun hp => hp.2, fun hp => ⟨rfl, hp⟩⟩

end

section
variable {config : LiveConfig} {source : LiveSource σ ε β} {sink : LiveSink κ β}
  {isCancelled : Nat → Bool} {events : List LiveHeadEvent} {p : Peers σ κ}
  {Q : LiveReport → Peers σ κ → Prop} {E : LiveError → Peers σ κ → Prop}

/-- The peers of a run that has read the checkpoint, and asked whether it is cancelled. -/
def Peers.begun (sink : LiveSink κ β) (p : Peers σ κ) : Peers σ κ :=
  { p with
    sink := (sink.checkpoint p.sink).2
    polls := p.polls + 1 }

/-- **A run** is cancelled, has no budget, or tracks the head. -/
theorem runWithCancellation_rule (hcancel : isCancelled p.polls = true → E .cancelled (p.begun sink))
    (hbudget : ∀ e, WindowBudget.new config = .error e → E e (p.begun sink))
    (htrack : ∀ budget, isCancelled p.polls = false → WindowBudget.new config = .ok budget →
      wp (trackHead config source sink isCancelled) (fun _ s => Q s.1.report s.2) (fun e s => E e s.2)
        ({ budget, report := events.foldl observeEvent (LiveReport.new (sink.checkpoint p.sink).1) },
          p.begun sink)) :
    wp (runWithCancellation config source sink isCancelled events) Q E p := by
  unfold runWithCancellation
  rw [wp_bind]
  refine wp_of_eq (x := readSink sink.checkpoint) rfl (fun checkpoint hcheckpoint => ?_)
    (fun _ h => by cases h)
  cases hcheckpoint
  unfold ensureNotCancelled
  rw [wp_bind, wp_bind, wp_get, wp_bind, wp_modify]
  split
  · rename_i hcancelled
    exact hcancel hcancelled
  · rename_i hcancelled
    rw [wp_pure, wp_bind, wp_lift]
    refine ⟨fun budget hnew => ?_, hbudget⟩
    rw [wp_bind]
    exact wp_withLocal (htrack budget (by simpa using hcancelled) hnew)

end

end Chainweave.Live
