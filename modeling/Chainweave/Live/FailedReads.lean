import Chainweave.Core.LiveErase
import Chainweave.Core.Readiness
import Chainweave.Live.Safety

/-!
# Failed reads of the live sink

`BlockingPostgresLiveSink` answers `None` where a read fails, so a run takes a failed
read for missing data.

* `watchedSink`: the live sink with a ghost list of the reads; `watchedSink_erases`.
* `NeverMissing`: after the first failed read a run commits nothing, and fails.
* `failedReads_noticed`: runs that do, and runs that do not.
-/
namespace Chainweave.Runtime

open Stateful HashLink Chainweave.Chain Chainweave.Backfill Chainweave.Postgres Chainweave.Live

/-! ## The reads of a run -/

inductive SinkRead where
  | checkpoint
  | canonicalHeaderAtHeight (height : Nat)
  | canonicalHeaderByHash (hash : BlockHash)
  deriving DecidableEq, Repr

/-- The read of the store. -/
def SinkRead.run : SinkRead → Prog Server LiveRuntimeError (Option BlockHeader)
  | .checkpoint => PostgresLiveStore.checkpointHeader
  | .canonicalHeaderAtHeight height => PostgresLiveStore.canonicalHeaderAtHeight height
  | .canonicalHeaderByHash hash => PostgresLiveStore.canonicalHeaderByHash hash

/-- Whether the read fails with a database error. -/
def SinkRead.fails (read : SinkRead) (server : Server) : Bool :=
  match (exec read.run server).1 with
  | .error (.sink (.database _)) => true
  | _ => false

/-- A read that was made. -/
structure Look where
  read : SinkRead
  failed : Bool
  /-- how many transactions were committed before -/
  commits : Nat

/-- The live sink. -/
structure WatchedSink where
  sink : BlockingPostgresLiveSink
  /-- ghost: the reads so far -/
  looks : List Look := []

/-- The read of the live sink. -/
def watch (read : SinkRead) (w : WatchedSink) : Option BlockHeader × WatchedSink :=
  let (answer, sink) := BlockingPostgresLiveSink.readOrNone read.run w.sink
  let look := { read, failed := read.fails w.sink.server, commits := w.sink.server.history.length }
  (answer, { sink, looks := w.looks ++ [look] })

/-- Run a program of the live sink. -/
def onWatched {ε α : Type} (x : Prog BlockingPostgresLiveSink ε α) : Prog WatchedSink ε α :=
  zoom WatchedSink.sink (fun sink w => { w with sink }) x

theorem onWatched_erases {ε α : Type} (x : Prog BlockingPostgresLiveSink ε α) :
    Erases WatchedSink.sink (onWatched x) x := fun _ => rfl

/-- `BlockingPostgresLiveSink.commitBatch`. -/
def watchedBatch (batch : ChainBatch) (applyBlocks : List IndexedBlock) :
    Prog WatchedSink String Unit := do
  let durable ← mapError PostgresStateError.message
    (lift (DurableChainBatch.fromChainBatch batch applyBlocks))
  let _ ← onWatched (mapError PostgresStateError.message
    (BlockingPostgresLiveSink.onServer (Server.applyBatch durable)))
  modify fun w =>
    let (header, w) := watch .checkpoint w
    { w with sink := { w.sink with parentAnchor := header } }

def watchedSink : LiveSink WatchedSink IndexedBlock where
  checkpoint := watch .checkpoint
  canonicalHeaderAtHeight height := watch (.canonicalHeaderAtHeight height)
  canonicalHeaderByHash hash := watch (.canonicalHeaderByHash hash)
  commitRange fetched := onWatched (BlockingPostgresLiveSink.commitRange fetched)
  commitBatch := watchedBatch

/-- The list of reads is a ghost. -/
theorem watchedSink_erases :
    LiveSink.Erases WatchedSink.sink watchedSink BlockingPostgresLiveSink.liveSink where
  checkpoint _ := rfl
  canonicalHeaderAtHeight _ _ := rfl
  canonicalHeaderByHash _ _ := rfl
  commitRange _ := onWatched_erases _
  commitBatch _ _ := erases_iff.2 (.bind (.mapError (.lift _)) fun _ =>
    .bind (erases_iff.1 (onWatched_erases _)) fun _ => .modify fun _ _ h => by rw [h]; rfl)

section
variable {σ ε : Type} (config : LiveConfig) (source : BlockSource σ ε) (isCancelled : Nat → Bool)
  (events : List LiveHeadEvent) (a : σ) (k : BlockingPostgresLiveSink) (polls : Nat)

/-- A run over the live sink. -/
def liveRun : Except LiveError LiveReport × Peers σ BlockingPostgresLiveSink :=
  exec (runWithCancellation config source.toLiveSource BlockingPostgresLiveSink.liveSink isCancelled
    events) { source := a, sink := k, polls }

/-- ghost: the same run, with its reads -/
def watchedRun : Except LiveError LiveReport × Peers σ WatchedSink :=
  exec (runWithCancellation config source.toLiveSource watchedSink isCancelled events)
    { source := a, sink := { sink := k }, polls }

/-- The reads that a run makes, in order. -/
def looks : List Look := (watchedRun config source isCancelled events a k polls).2.sink.looks

theorem liveRun_eq : liveRun config source isCancelled events a k polls =
    ((watchedRun config source isCancelled events a k polls).1,
      (watchedRun config source isCancelled events a k polls).2.map WatchedSink.sink) := by
  have h := @run_erases _ _ _ _ _ _ _ _ source.toLiveSource config isCancelled watchedSink_erases events
    { source := a, sink := { sink := k }, polls }
  exact h

/-- After the first failed read, nothing is committed, and the run fails. -/
def NeverMissing : Prop :=
  ∀ look, (looks config source isCancelled events a k polls).find? (·.failed) = some look →
    (liveRun config source isCancelled events a k polls).2.sink.server.history.length = look.commits ∧
      ∃ e, (liveRun config source isCancelled events a k polls).1 = .error e

end

/-! ## What a run keeps of the server -/

/-- Only faults to come are gone. -/
def Took (server server' : Server) : Prop :=
  ∃ readFaults, server' = { server with readFaults } ∧ readFaults <:+ server.readFaults

theorem Took.trans {server server1 server2 : Server} (h : Took server server1) (h' : Took server1 server2) :
    Took server server2 := by
  obtain ⟨faults1, rfl, hsuffix⟩ := h
  obtain ⟨faults2, rfl, hsuffix'⟩ := h'
  exact ⟨faults2, rfl, hsuffix'.trans hsuffix⟩

/-- The error is a database error only if a fault was there to meet. -/
def FaultMet (server : Server) (error : LiveRuntimeError) : Prop :=
  (∃ sql, error = .sink (.database sql)) → true ∈ server.readFaults

/-- A query takes one fault, and fails with a database error if it is one. -/
theorem query_wp {α : Type} {read : Database → Except PostgresStateError α}
    (hread : ∀ db sql, read db ≠ .error (.database sql)) (server : Server) :
    wp (mapError LiveRuntimeError.sink (Server.query read)) (fun _ s' => Took server s')
      (fun e s' => Took server s' ∧ FaultMet server e) server := by
  have htook : Took server { server with readFaults := server.readFaults.tail } :=
    ⟨_, rfl, List.tail_suffix _⟩
  refine wp_mapError ?_
  by_cases hfault : server.readFaults.head? = some true
  · refine wp_of_eq (r := .error (.database .connection)) ?_ (fun _ h => by cases h) fun _ _ =>
      ⟨htook, fun _ => List.mem_of_mem_head? hfault⟩
    show (if server.readFaults.head? = some true then _ else _) = _
    rw [if_pos hfault]
  · refine wp_of_eq (r := read server.db) ?_ (fun _ _ => htook) fun e he => ⟨htook, fun hsql => ?_⟩
    · show (if server.readFaults.head? = some true then _ else _) = _
      rw [if_neg hfault]
    · obtain ⟨sql, hsql⟩ := hsql
      cases hsql
      exact absurd he (hread _ _)

theorem canonicalHeaderAtHeight_no_sql (height : Nat) (db : Database) (sql : SqlError) :
    db.canonicalHeaderAtHeight height ≠ .error (.database sql) := by
  unfold Database.canonicalHeaderAtHeight pgHeight
  split <;> simp [bind, Except.bind, pure, Except.pure]

/-- A read changes nothing but the faults to come. -/
theorem SinkRead.run_wp (read : SinkRead) (server : Server) :
    wp read.run (fun _ s' => Took server s') (fun e s' => Took server s' ∧ FaultMet server e) server := by
  cases read with
  | checkpoint =>
    unfold SinkRead.run PostgresLiveStore.checkpointHeader
    rw [wp_bind]
    refine wp_mono (query_wp (fun _ _ h => by cases h) server) (fun row s1 h1 => ?_) fun _ _ h => h
    cases row with
    | none => exact h1
    | some checkpoint =>
      dsimp only
      rw [wp_bind]
      refine wp_mono (query_wp (canonicalHeaderAtHeight_no_sql _) s1) (fun header s2 h2 => ?_)
        fun e s2 h2 => ⟨h1.trans h2.1, fun hsql => ?_⟩
      · cases header with
        | some header => exact h1.trans h2
        | none =>
          refine ⟨h1.trans h2, fun hsql => ?_⟩
          obtain ⟨sql, hsql⟩ := hsql
          cases hsql
      · obtain ⟨faults, rfl, hsuffix⟩ := h1
        exact hsuffix.subset (h2.2 hsql)
  | canonicalHeaderAtHeight height => exact query_wp (canonicalHeaderAtHeight_no_sql _) server
  | canonicalHeaderByHash hash => exact query_wp (fun _ _ h => by cases h) server

theorem took_watch (read : SinkRead) (w : WatchedSink) :
    ∃ server look, (watch read w).2 = { sink := { w.sink with server }, looks := w.looks ++ [look] } ∧
      Took w.sink.server server ∧ look.read = read ∧ look.failed = read.fails w.sink.server ∧
      look.commits = w.sink.server.history.length := by
  refine ⟨(exec read.run w.sink.server).2, _, rfl, ?_, rfl, rfl, rfl⟩
  have h := read.run_wp w.sink.server
  cases hx : exec read.run w.sink.server with
  | mk r server =>
    cases r with
    | ok answer => exact wp_ok h hx
    | error e => exact (wp_error h hx).1

theorem fails_faulted {read : SinkRead} {server : Server} (h : read.fails server = true) :
    true ∈ server.readFaults := by
  have hwp := read.run_wp server
  unfold SinkRead.fails at h
  cases hx : exec read.run server with
  | mk r server' =>
    rw [hx] at h
    split at h
    · next hr =>
      cases hr
      exact (wp_error hwp hx).2 ⟨_, rfl⟩
    · cases h

theorem applyBatch_history (server : Server) (batch : DurableChainBatch) :
    (exec (Server.applyBatch batch) server).2.readFaults = server.readFaults ∧
      server.history.length ≤ (exec (Server.applyBatch batch) server).2.history.length := by
  have hwp := Server.applyBatch_wp server batch
  have hdid : ∀ {s' : Server}, DidCommit batch server s' →
      s'.readFaults = server.readFaults ∧ server.history.length ≤ s'.history.length := by
    intro s' h
    refine ⟨h.readFaults, ?_⟩
    rw [h.history]
    simp
  cases hx : exec (Server.applyBatch batch) server with
  | mk r s' =>
    cases r with
    | ok report =>
      rcases wp_ok hwp hx with ⟨-, rfl⟩ | h
      · exact ⟨rfl, Nat.le_refl _⟩
      · exact hdid h
    | error e =>
      rcases (wp_error hwp hx).1 with h | h
      · exact ⟨h.readFaults, Nat.le_of_eq (by rw [h.history])⟩
      · exact hdid h

/-- A commit of a range calls `apply_batch`, and sets the parent anchor. -/
theorem commitRange_keeps {I : BlockingPostgresLiveSink → Prop}
    (hserver : ∀ k batch, I k → I { k with server := (exec (Server.applyBatch batch) k.server).2 })
    (hanchor : ∀ k parentAnchor, I k → I { k with parentAnchor })
    (fetched : FetchedRange IndexedBlock) : Keeps I (BlockingPostgresLiveSink.commitRange fetched) := by
  have hcommitter : ∀ parentAnchor fetched, Keeps
      (fun s : PostgresBackfillCommitter × Server => I { server := s.2, parentAnchor })
      (PostgresBackfillCommitter.commitRange fetched) := by
    intro parentAnchor fetched
    unfold PostgresBackfillCommitter.commitRange
    split
    · exact .throw _
    refine .bind .get fun s => .bind (.mapError (.lift _)) fun durable => .bind (.mapError ?_) fun _ => ?_
    · exact fun s hs => hserver { server := s.2, parentAnchor } durable hs
    · exact .modify fun _ hs => hs
  unfold BlockingPostgresLiveSink.commitRange
  split
  · exact .throw _
  · exact .throw _
  refine .bind .get fun k => .bind (.mapError fun s hs => ?_) fun _ => .modify fun k hk => hanchor k _ hk
  have hstore : ∀ block, Keeps (fun server => I { server, parentAnchor := s.parentAnchor })
      (PostgresLiveStore.commitOneBlock k.parentAnchor block) := fun block =>
    .bind (.lift _) fun range => .bind (.mapError (.withLocal (.withLocal
      (OrderedCommitCoordinator.push_keeps (hcommitter s.parentAnchor) _)))) fun _ => .pure _
  exact hstore _ s.server hs

/-- What reads, commits and the parent anchor keep, every call of the peers keeps. -/
theorem watched_stable {σ ε : Type} {source : BlockSource σ ε} {J : WatchedSink → Prop}
    (hwatch : ∀ read w, J w → J (watch read w).2)
    (hserver : ∀ (w : WatchedSink) batch, J w →
      J { w with sink := { w.sink with server := (exec (Server.applyBatch batch) w.sink.server).2 } })
    (hanchor : ∀ (w : WatchedSink) parentAnchor, J w → J { w with sink := { w.sink with parentAnchor } }) :
    Stable source.toLiveSource watchedSink fun _ w => J w := by
  refine ⟨answering_sink J, fun _ w h => hwatch _ w h, fun _ _ w h => hwatch _ w h,
    fun _ _ w h => hwatch _ w h, fun fetched _ w hw => ?_, fun batch blocks _ => ?_⟩
  · exact commitRange_keeps (I := fun k => J { w with sink := k })
      (fun k batch hk => hserver { w with sink := k } batch hk)
      (fun k parentAnchor hk => hanchor { w with sink := k } parentAnchor hk) fetched w.sink hw
  · show Keeps J (watchedBatch batch blocks)
    refine .bind (.mapError (.lift _)) fun durable => .bind (fun w hw => hserver w durable hw) fun _ => ?_
    exact .modify fun w hw => hanchor _ _ (hwatch .checkpoint w hw)

/-! ## Runs that notice -/

section
variable {σ ε : Type} {config : LiveConfig} {source : BlockSource σ ε} {isCancelled : Nat → Bool}
  {events : List LiveHeadEvent} {a : σ} {k : BlockingPostgresLiveSink} {polls : Nat}

/-- Without a fault to come no read fails. -/
theorem looks_fine (h : true ∉ k.server.readFaults) :
    ∀ look ∈ looks config source isCancelled events a k polls, look.failed = false := by
  let J : WatchedSink → Prop := fun w =>
    true ∉ w.sink.server.readFaults ∧ ∀ look ∈ w.looks, look.failed = false
  have hstable : Stable source.toLiveSource watchedSink fun _ w => J w := by
    refine watched_stable (fun read w hw => ?_) (fun w batch hw => ?_) (fun _ _ hw => hw)
    · obtain ⟨server, look, hwatch, htook, -, hfailed, -⟩ := took_watch read w
      obtain ⟨faults, rfl, hsuffix⟩ := htook
      rw [hwatch]
      refine ⟨fun hmem => hw.1 (hsuffix.subset hmem), fun l hl => ?_⟩
      rcases List.mem_append.1 hl with hl | hl
      · exact hw.2 l hl
      · rw [List.mem_singleton.1 hl, hfailed]
        by_contra hfails
        exact hw.1 (fails_faulted (by simpa using hfails))
    · refine ⟨?_, hw.2⟩
      show true ∉ (exec (Server.applyBatch batch) w.sink.server).2.readFaults
      rw [(applyBatch_history _ _).1]
      exact hw.1
  have hlast := @run_keeps _ _ _ _ _ _ _ config isCancelled hstable events
    { source := a, sink := { sink := k }, polls } ⟨h, fun _ hl => by cases hl⟩
  exact hlast.2

/-- A read is made between the start and the end. -/
theorem looks_commits : ∀ look ∈ looks config source isCancelled events a k polls,
    k.server.history.length ≤ look.commits ∧ look.commits ≤
      (liveRun config source isCancelled events a k polls).2.sink.server.history.length := by
  let n := k.server.history.length
  let J : WatchedSink → Prop := fun w => n ≤ w.sink.server.history.length ∧
    ∀ look ∈ w.looks, n ≤ look.commits ∧ look.commits ≤ w.sink.server.history.length
  have hstable : Stable source.toLiveSource watchedSink fun _ w => J w := by
    refine watched_stable (fun read w hw => ?_) (fun w batch hw => ?_) (fun _ _ hw => hw)
    · obtain ⟨server, look, hwatch, htook, -, -, hcommits⟩ := took_watch read w
      obtain ⟨faults, rfl, -⟩ := htook
      rw [hwatch]
      refine ⟨hw.1, fun l hl => ?_⟩
      rcases List.mem_append.1 hl with hl | hl
      · exact hw.2 l hl
      · rw [List.mem_singleton.1 hl, hcommits]
        exact ⟨hw.1, Nat.le_refl _⟩
    · have hgrow := (applyBatch_history w.sink.server batch).2
      refine ⟨hw.1.trans hgrow, fun l hl => ?_⟩
      obtain ⟨hfrom, hto⟩ := hw.2 l hl
      exact ⟨hfrom, hto.trans hgrow⟩
  have hlast := @run_keeps _ _ _ _ _ _ _ config isCancelled hstable events
    { source := a, sink := { sink := k }, polls } ⟨Nat.le_refl _, fun _ hl => by cases hl⟩
  rw [liveRun_eq]
  exact hlast.2

/-- A run that fails before its first commit. -/
theorem neverMissing_of_quiet
    (hhistory : (liveRun config source isCancelled events a k polls).2.sink.server.history =
      k.server.history)
    (herror : ∃ e, (liveRun config source isCancelled events a k polls).1 = .error e) :
    NeverMissing config source isCancelled events a k polls := by
  intro look hfind
  obtain ⟨hfrom, hto⟩ := @looks_commits σ ε config source isCancelled events a k polls look
    (List.mem_of_find?_eq_some hfind)
  rw [hhistory] at hto
  refine ⟨?_, herror⟩
  rw [hhistory]
  omega

/-- The run reads the checkpoint again: it is not cancelled at its start, it has a budget, and the
source answers what the head is and whether it is verified. -/
def HeadKnown (config : LiveConfig) (source : BlockSource σ ε) (isCancelled : Nat → Bool) (a : σ)
    (polls : Nat) : Prop :=
  isCancelled polls = false ∧ 0 < config.liveBudgetCostUnitsPerMinute ∧
    ∃ head a1 status a2, exec source.currentHead a = (.ok head, a1) ∧
      exec (source.verifyRecent head.height head.hash) a1 = (.ok status, a2)

/-- The second read of the checkpoint fails, and no block can be committed without a checkpoint: the
explicit start is above genesis, or the sink has its parent anchor. -/
def StartRefused (config : LiveConfig) (k : BlockingPostgresLiveSink) : Prop :=
  SinkRead.checkpoint.fails k.checkpoint.2.server = true ∧
    ∃ start, config.explicitStart = some start ∧ (start ≠ 0 ∨ k.parentAnchor ≠ none)

theorem checkpoint_leaves (k : BlockingPostgresLiveSink) :
    k.checkpoint.2.parentAnchor = k.parentAnchor ∧
      k.checkpoint.2.server.history = k.server.history := by
  obtain ⟨server, look, hwatch, htook, -⟩ := took_watch .checkpoint { sink := k }
  obtain ⟨faults, rfl, -⟩ := htook
  have hsink : k.checkpoint.2 = { k with server := { k.server with readFaults := faults } } :=
    congrArg WatchedSink.sink hwatch
  rw [hsink]
  exact ⟨rfl, rfl⟩

theorem checkpoint_none (h : SinkRead.checkpoint.fails k.server = true) : k.checkpoint.1 = none := by
  unfold SinkRead.fails at h
  show (exec SinkRead.checkpoint.run k.server).1.toOption.join = none
  split at h
  · next hr =>
    rw [hr]
    rfl
  · cases h

/-- Nothing is known of the answers of a source. -/
theorem answers_any (source : BlockSource σ ε) :
    Answers ⟨fun _ => True, fun _ _ => True, fun _ _ => True, fun _ _ => True, fun _ _ => True⟩
      (fun _ => True) source := by
  have h : ∀ {α : Type} (x : Prog σ ε α) (s : σ), wp x (fun _ _ => True) (fun _ _ => True) s :=
    fun _ _ => wp_const trivial
  exact ⟨fun _ => h _ _, fun _ _ => h _ _, fun _ _ => h _ _, fun _ _ => h _ _, fun _ _ => h _ _,
    fun _ _ _ => h _ _, fun _ _ _ _ => trivial, fun _ _ _ _ => trivial⟩

/-- Without a checkpoint nothing is committed where the start is refused. -/
theorem catchUpFromStart_refused {head : BlockHeader} {s : TrackState σ} {start : Nat}
    (hstart : config.explicitStart = some start) (hrefused : start ≠ 0 ∨ s.2.sink.parentAnchor ≠ none) :
    wp (catchUpFromStart config source.toLiveSource BlockingPostgresLiveSink.liveSink isCancelled head)
      (fun _ _ => False) (fun _ s' => s'.2.sink.server.history = s.2.sink.server.history) s := by
  unfold catchUpFromStart
  rw [hstart, Option.getD_some, wp_bind, wp_lift]
  refine ⟨fun coordinator hnew => ?_, fun _ _ => rfl⟩
  obtain ⟨hidle, hle, hzero, -⟩ := idle_new (mapError_ok.1 hnew)
  obtain rfl := hzero rfl
  obtain ⟨cp, hcp⟩ := Option.ne_none_iff_exists'.1 (hrefused.resolve_left fun h => h rfl)
  have hheights : heightsTo 0 head.height = 0 :: List.range' 1 head.height := by
    unfold heightsTo
    rw [Nat.sub_zero, List.range'_succ]
  rw [hheights]
  unfold startLoop
  rw [wp_bind]
  refine ensureNotCancelled_wp (fun s1 h1 => ?_) fun _ s1 h1 => by rw [h1.sink]
  rw [wp_bind]
  -- genesis is no child of the sink's anchor
  have hno : ∀ block : IndexedBlock, block.header.height = 0 →
      ¬ Follows s1.2.sink.parentAnchor block.header := by
    intro block hheight hfollows
    rw [h1.sink, hcp] at hfollows
    have hchild : block.header.height = cp.height + 1 := (hfollows.2 cp rfl).2
    omega
  refine fetchAndPushHeight_wp (answers_any source) hidle hle ?_ ?_ ?_ ?_ ?_
  · intro block hoffered k' hfollows
    exact absurd hfollows (hno block hoffered.height_eq)
  · exact fun _ e s' _ hq => by rw [hq.sink, h1.sink]
  · exact fun _ _ _ s' hq => by rw [hq.sink, h1.sink]
  · exact fun _ _ _ _ _ _ s' hq => by rw [hq.sink, h1.sink]
  · intro block hoffered k' hdid _ m s' hleft
    rw [hleft.sink, ← h1.sink]
    rcases hdid with hsame | ⟨hfollows, -⟩
    · exact hsame.history
    · exact absurd hfollows (hno block hoffered.height_eq)

/-- A run whose second read of the checkpoint is refused a start fails before its first commit; so
does one that does not get there. -/
theorem liveRun_refused (h : HeadKnown config source isCancelled a polls → StartRefused config k) :
    wp (runWithCancellation config source.toLiveSource BlockingPostgresLiveSink.liveSink isCancelled
        events) (fun _ _ => False) (fun _ p' => p'.sink.server.history = k.server.history)
      { source := a, sink := k, polls } := by
  obtain ⟨hanchor, hhistory⟩ := checkpoint_leaves k
  refine runWithCancellation_rule (fun _ => hhistory) (fun _ _ => hhistory) fun budget hcancel hnew => ?_
  have hbudget := WindowBudget.new_pos hnew
  unfold trackHead
  rw [wp_bind]
  refine wp_mono (record_returns _ _) (fun _ s1 h1 => ?_) fun _ _ h => h.elim
  obtain ⟨hpeers, -, -⟩ := h1
  have hsink : s1.2.sink = k.checkpoint.2 := by rw [hpeers]; rfl
  have hsource : s1.2.source = a := by rw [hpeers]; rfl
  have hquiet : s1.2.sink.server.history = k.server.history := by rw [hsink, hhistory]
  rw [wp_bind]
  refine callSource_split (fun head a1 hhead => ?_) fun _ _ _ => hquiet
  rw [wp_bind]
  refine issue_wp fun s2 hpeers2 _ => ?_
  obtain ⟨l2, p2⟩ := s2
  obtain rfl : p2 = { s1.2 with source := a1 } := hpeers2
  rw [wp_bind]
  refine callSource_split (fun status a2 hstatus => ?_) fun _ _ _ => hquiet
  rw [hsource] at hhead
  obtain ⟨hfails, start, hstart, hrefused⟩ :=
    h ⟨hcancel, hbudget, head, a1, status, a2, hhead, hstatus⟩
  rw [wp_bind]
  refine wp_of_eq (x := modifyReport (noteVerifier status)) rfl (fun _ _ => ?_) fun _ h => by cases h
  rw [wp_bind]
  refine wp_mono (readSink_exec _) (fun found s2 h2 => ?_) fun _ _ h => h.elim
  obtain ⟨hread, -, -⟩ := h2
  replace hread : k.checkpoint.2.checkpoint = (found, s2.2.sink) := by rw [← hread, ← hsink]; rfl
  obtain ⟨hanchor2, hhistory2⟩ := checkpoint_leaves k.checkpoint.2
  rw [hread] at hanchor2 hhistory2
  obtain rfl : found = none := by
    have hnone := checkpoint_none hfails
    rw [hread] at hnone
    exact hnone
  dsimp only
  rw [if_neg (by rw [hstart]; simp), wp_bind]
  refine wp_mono (catchUpFromStart_refused hstart ?_) (fun _ _ h => h.elim) fun _ s' h => ?_
  · rw [hanchor2, hanchor]
    exact hrefused
  · rw [h]
    exact hhistory2.trans hhistory

/-- Runs without a fault to come, and runs that are refused a start, never take a failed read for
missing data. -/
theorem neverMissing_of_noticed (h : true ∉ k.server.readFaults ∨
      (HeadKnown config source isCancelled a polls → StartRefused config k)) :
    NeverMissing config source isCancelled events a k polls := by
  rcases h with hfaults | hrefused
  · intro look hfind
    have hfine := @looks_fine σ ε config source isCancelled events a k polls hfaults look
      (List.mem_of_find?_eq_some hfind)
    have hfailed := List.find?_some hfind
    rw [hfine] at hfailed
    cases hfailed
  · have hrun := @liveRun_refused _ _ _ _ _ events _ _ _ hrefused
    cases hx : exec (runWithCancellation config source.toLiveSource BlockingPostgresLiveSink.liveSink
        isCancelled events) { source := a, sink := k, polls } with
    | mk r p' =>
      have hx' : liveRun config source isCancelled events a k polls = (r, p') := hx
      cases r with
      | ok report => exact (wp_ok hrun hx).elim
      | error e =>
        refine neverMissing_of_quiet ?_ ⟨e, by rw [hx']⟩
        rw [hx']
        exact wp_error hrun hx

end

/-! ## Runs that do not notice -/

section
variable {σ ε : Type} {config : LiveConfig} {source : BlockSource σ ε} {isCancelled : Nat → Bool}
  {events : List LiveHeadEvent} {a : σ} {k : BlockingPostgresLiveSink} {polls n : Nat}

/-- No read of the checkpoint after the first `n` reads has failed. -/
def Clear (n : Nat) (w : WatchedSink) : Prop :=
  n ≤ w.looks.length ∧ ∀ look ∈ w.looks.drop n, look.read = .checkpoint → look.failed = false

theorem Clear.watch {w : WatchedSink} (h : Clear n w) {read : SinkRead}
    (hread : read = .checkpoint → read.fails w.sink.server = false) : Clear n (watch read w).2 := by
  obtain ⟨server, look, hwatch, -, hkind, hfailed, -⟩ := took_watch read w
  rw [hwatch]
  refine ⟨?_, fun l hl hcheckpoint => ?_⟩
  · show n ≤ (w.looks ++ [look]).length
    rw [List.length_append]
    exact Nat.le_add_right_of_le h.1
  · change l ∈ (w.looks ++ [look]).drop n at hl
    rw [List.drop_append_of_le_length h.1] at hl
    rcases List.mem_append.1 hl with hl | hl
    · exact h.2 l hl hcheckpoint
    · rw [List.mem_singleton.1 hl] at hcheckpoint ⊢
      rw [hfailed]
      exact hread (hkind.symm.trans hcheckpoint)

theorem clear_answering : Answering source.toLiveSource fun _ w => Clear n w := answering_sink _

theorem clear_commitRange (fetched : FetchedRange IndexedBlock) :
    Keeps (Clear n) (watchedSink.commitRange fetched) := fun _ h => h

/-- A checkpoint that was found was read. -/
theorem readCheckpoint_clear {s : Locals × Peers σ WatchedSink} (h : Clear n s.2.sink) :
    wp (onPeers (readSink watchedSink.checkpoint) : Track σ WatchedSink (Option BlockHeader))
      (fun found s' => found = none ∨ Clear n s'.2.sink) (fun _ _ => False) s := by
  cases hfails : SinkRead.checkpoint.fails s.2.sink.sink.server with
  | true => exact .inl (checkpoint_none hfails)
  | false => exact .inr (h.watch fun _ => hfails)

/-- No failed read so far, in a method of the tracker. -/
abbrev StillClear (n : Nat) : Locals × Peers σ WatchedSink → Prop :=
  Kept (fun _ => True) fun _ w => Clear n w

/-- Where `x` fails, no read of the checkpoint has. -/
def FailsClear {α : Type} (n : Nat) (x : Track σ WatchedSink α) : Prop :=
  ∀ s, StillClear n s → wp x (fun _ _ => True) (fun _ s' => Clear n s'.2.sink) s

theorem FailsClear.of_keeps {α : Type} {x : Track σ WatchedSink α} (h : Keeps (StillClear n) x) :
    FailsClear n x := fun _ hs => wp_mono (h.wp hs) (fun _ _ _ => trivial) fun _ _ h => h.2

theorem FailsClear.bind {α β : Type} {x : Track σ WatchedSink α} {f : α → Track σ WatchedSink β}
    (hx : Keeps (StillClear n) x) (hf : ∀ r, FailsClear n (f r)) : FailsClear n (x >>= f) := by
  intro s hs
  rw [wp_bind]
  exact wp_mono (hx.wp hs) (fun r s' hs' => hf r s' hs') fun _ _ h => h.2

/-- The read at the end does not fail. -/
theorem FailsClear.finish {x : Track σ WatchedSink Unit} (hx : FailsClear n x) :
    FailsClear n (do x; finish watchedSink) := by
  intro s hs
  rw [wp_bind]
  exact wp_mono (hx s hs) (fun _ _ _ => trivial) fun _ _ h => h

theorem commitBatch_clear (batch : ChainBatch) (blocks : List IndexedBlock) {w : WatchedSink}
    (h : Clear n w) :
    wp (watchedSink.commitBatch batch blocks) (fun _ _ => True) (fun _ w' => Clear n w') w := by
  show wp (watchedBatch batch blocks) _ _ w
  unfold watchedBatch
  rw [wp_bind]
  refine wp_mapError ((wp_lift _).2 ⟨fun durable _ => ?_, fun _ _ => h⟩)
  rw [wp_bind]
  have hkeeps : Keeps (Clear n) (onWatched (mapError PostgresStateError.message
      (BlockingPostgresLiveSink.onServer (Server.applyBatch durable)))) := fun _ h => h
  exact wp_mono (hkeeps.wp h) (fun _ _ _ => trivial) fun _ _ h => h

theorem commitChainBatch_clear (head : BlockHeader) (batch : ChainBatch) :
    FailsClear n (commitChainBatch source.toLiveSource watchedSink isCancelled head batch) := by
  unfold commitChainBatch
  refine .bind (fetchApplyBlocks_keeps clear_answering.toFetching .any _) fun blocks => ?_
  refine .bind (note_keeps _) fun _ s hs => ?_
  exact wp_zoom (wp_mapError (wp_zoom (commitBatch_clear batch blocks hs.2)))

/-- Where it fails, `apply_chain_state` has read the checkpoint. -/
theorem applyChainState_clear (head : BlockHeader) :
    FailsClear n (applyChainState config source.toLiveSource watchedSink isCancelled head) := by
  intro s hs
  unfold applyChainState
  rw [wp_bind]
  refine wp_mono (readCheckpoint_clear hs.2) (fun found s1 h1 => ?_) fun _ _ h => h.elim
  cases found with
  | none => trivial
  | some checkpoint =>
    have hkeeping : (liveResolver source.toLiveSource watchedSink).Keeping (StillClear n) :=
      liveResolver_keeping clear_answering.toFetching (fun _ _ _ hw => hw.watch fun h => by cases h)
        (fun _ _ _ hw => hw.watch fun h => by cases h)
    refine FailsClear.bind (.lift _) (fun state => ?_) s1 ⟨trivial, h1.resolve_left (by simp)⟩
    refine .bind (.attempt (.withLocal (ChainState.apply_keeps hkeeping head))) fun outcome => ?_
    cases outcome with
    | ok batch => exact commitChainBatch_clear head batch.1
    | error error =>
      cases error with
      | maxDepthExceeded maxDepth => exact fun _ _ => trivial
      | finalizedBoundary ancestor finalized => exact fun _ _ => trivial
      | _ => exact .of_keeps (.throw _)

theorem reconcileCurrentHead_clear :
    FailsClear n (reconcileCurrentHead config source.toLiveSource watchedSink isCancelled) := by
  unfold reconcileCurrentHead
  refine .bind polled_keeps fun _ => .bind (modifyReport_keeps fun _ _ => trivial) fun _ => ?_
  refine .bind (record_keeps .any _) fun _ => ?_
  refine .bind (callSource_keeps clear_answering.currentHead) fun head => ?_
  exact .bind (note_keeps _) fun _ => applyChainState_clear head

theorem checkpointLoop_clear (heights : List Nat) (coordinator : OrderedCommitCoordinator IndexedBlock) :
    FailsClear n (checkpointLoop config source.toLiveSource watchedSink isCancelled heights coordinator) := by
  induction heights generalizing coordinator with
  | nil => exact .of_keeps (.pure _)
  | cons height heights ih =>
    unfold checkpointLoop
    refine .bind polled_keeps fun _ => ?_
    refine .bind (.attempt (fetchAndPushHeight_keeps clear_answering.toFetching
      (fun fetched _ => clear_commitRange fetched) .any _ _)) fun outcome => ?_
    cases outcome with
    | ok coordinator => exact ih coordinator
    | error error =>
      dsimp only
      split
      · exact .bind (modifyReport_keeps fun _ _ => trivial) fun _ => reconcileCurrentHead_clear
      · exact .of_keeps (.throw _)

theorem lowerHead_clear (checkpoint head : BlockHeader) :
    FailsClear n (lowerHead config source.toLiveSource watchedSink isCancelled checkpoint head) := by
  unfold lowerHead
  refine .bind (record_keeps .any _) fun _ => ?_
  refine .bind (callSource_keeps (clear_answering.headerByNumber _)) fun remote => ?_
  refine .bind (onPeers_keeps fun p hp => hp.watch fun h => by cases h) fun row => ?_
  refine .bind (note_keeps _) fun _ => ?_
  split
  · exact .of_keeps (modifyReport_keeps fun _ _ => trivial)
  · exact (applyChainState_clear head).finish

/-- How many reads of the checkpoint may fail without being taken for missing data: the first, whose
answer is not used, and with an explicit start the second. -/
def excused (config : LiveConfig) : Nat := if config.explicitStart.isSome then 2 else 1

theorem one_le_excused : 1 ≤ excused config := by
  unfold excused
  split <;> decide

/-- With an explicit start, the second read may fail too. -/
theorem catchUpFromStart_clear (head : BlockHeader) :
    FailsClear n (catchUpFromStart config source.toLiveSource watchedSink isCancelled head) := by
  unfold catchUpFromStart
  refine .bind (.lift _) fun coordinator => .of_keeps ?_
  exact startLoop_keeps clear_answering.toFetching (fun fetched _ => clear_commitRange fetched) .any _ _

/-- The second read: it finds nothing, and no start is configured, or it is excused or fine. -/
theorem secondRead_clear {s : Locals × Peers σ WatchedSink} (hone : s.2.sink.looks.length = 1) :
    wp (onPeers (readSink watchedSink.checkpoint) : Track σ WatchedSink (Option BlockHeader))
      (fun found s' => found = none ∧ config.explicitStart = none ∨
        StillClear (excused config) s') (fun _ _ => False) s := by
  unfold excused
  cases config.explicitStart with
  | none =>
    have hclear : Clear 1 s.2.sink := by
      refine ⟨Nat.le_of_eq hone.symm, fun look hlook => ?_⟩
      rw [List.drop_of_length_le (Nat.le_of_eq hone)] at hlook
      cases hlook
    refine wp_mono (readCheckpoint_clear hclear) (fun found s' h => ?_) fun _ _ h => h
    exact h.imp (fun h => ⟨h, rfl⟩) fun h => ⟨trivial, h⟩
  | some start =>
    obtain ⟨server, look, hwatch, -⟩ := took_watch .checkpoint s.2.sink
    have hlength : (watch .checkpoint s.2.sink).2.looks.length = 2 := by
      rw [hwatch, List.length_append, hone]
      rfl
    refine .inr ⟨trivial, Nat.le_of_eq hlength.symm, fun look hlook => ?_⟩
    change look ∈ (watch .checkpoint s.2.sink).2.looks.drop 2 at hlook
    rw [List.drop_of_length_le (Nat.le_of_eq hlength)] at hlook
    cases hlook

/-- Only the first read was made. -/
abbrev OneLook : Locals × Peers σ WatchedSink → Prop :=
  Kept (fun _ => True) fun _ w => w.looks.length = 1

/-- No read beyond those that are excused has failed. -/
def OthersFine (config : LiveConfig) (looks : List Look) : Prop :=
  ∀ look ∈ looks.drop (excused config), look.read = .checkpoint → look.failed = false

theorem othersFine_one {looks : List Look} (h : looks.length = 1) : OthersFine config looks := by
  intro look hlook
  rw [List.drop_of_length_le (h.trans_le one_le_excused)] at hlook
  cases hlook

theorem trackHead_clear {s : Locals × Peers σ WatchedSink} (hone : OneLook s) :
    wp (trackHead config source.toLiveSource watchedSink isCancelled) (fun _ _ => True)
      (fun _ s' => OthersFine config s'.2.sink.looks) s := by
  have hanswering : Answering source.toLiveSource fun _ (w : WatchedSink) => w.looks.length = 1 :=
    answering_sink _
  unfold trackHead
  rw [wp_bind]
  refine wp_mono ((record_keeps .any _).wp hone) (fun _ s1 h1 => ?_)
    fun _ _ h => othersFine_one h.2
  rw [wp_bind]
  refine wp_mono ((callSource_keeps hanswering.currentHead).wp h1) (fun head s2 h2 => ?_)
    fun _ _ h => othersFine_one h.2
  rw [wp_bind]
  refine wp_mono ((issue_keeps _).wp h2) (fun _ s2' h2' => ?_) fun _ _ h => othersFine_one h.2
  rw [wp_bind]
  refine wp_mono ((callSource_keeps (hanswering.verifyRecent _ _)).wp h2') (fun status s3 h3 => ?_)
    fun _ _ h => othersFine_one h.2
  rw [wp_bind]
  refine wp_of_eq (x := modifyReport (noteVerifier status)) rfl (fun _ _ => ?_) fun _ h => by cases h
  rw [wp_bind]
  refine wp_mono (@secondRead_clear _ config _ h3.2) (fun found s4 h4 => ?_) fun _ _ h => h.elim
  rcases h4 with ⟨rfl, hstart⟩ | h4
  · dsimp only
    rw [if_pos (by rw [hstart]; rfl)]
    trivial
  refine wp_mono (?_ : wp _ (fun _ _ => True) (fun _ s' => Clear (excused config) s'.2.sink) s4)
    (fun _ _ h => h) fun _ _ h => h.2
  cases found with
  | none =>
    dsimp only
    split
    · trivial
    · exact (catchUpFromStart_clear head).finish s4 h4
  | some checkpoint =>
    dsimp only
    split
    · exact lowerHead_clear checkpoint head s4 h4
    split
    · split
      · exact (applyChainState_clear head).finish s4 h4
      · trivial
    · refine FailsClear.finish ?_ s4 h4
      exact .bind (.lift _) fun coordinator => checkpointLoop_clear _ _

/-- A run that fails has read the checkpoint, but for the reads that are excused. -/
theorem run_clear :
    wp (runWithCancellation config source.toLiveSource watchedSink isCancelled events)
      (fun _ _ => True) (fun _ p' => OthersFine config p'.sink.looks)
      { source := a, sink := { sink := k }, polls } := by
  have hone : (watch .checkpoint { sink := k }).2.looks.length = 1 := rfl
  refine runWithCancellation_rule (fun _ => othersFine_one hone) (fun _ _ => othersFine_one hone)
    fun budget _ _ => ?_
  exact wp_mono (trackHead_clear ⟨trivial, hone⟩) (fun _ _ _ => trivial) fun _ _ h => h

/-- A read of the checkpoint that fails, and is not excused, is taken for missing data: the run returns. -/
theorem not_neverMissing (h : ¬ OthersFine config (looks config source isCancelled events a k polls)) :
    ¬ NeverMissing config source isCancelled events a k polls := by
  intro hnever
  have hfind : ∃ look,
      (looks config source isCancelled events a k polls).find? (·.failed) = some look := by
    by_contra hnone
    rw [← Option.isSome_iff_exists, Option.not_isSome_iff_eq_none, List.find?_eq_none] at hnone
    refine h fun look hlook _ => ?_
    simpa using hnone look (List.mem_of_mem_drop hlook)
  obtain ⟨look, hlook⟩ := hfind
  obtain ⟨-, e, he⟩ := hnever look hlook
  rw [liveRun_eq] at he
  exact h (wp_error (@run_clear σ ε config source isCancelled events a k polls) (Prod.ext he rfl))

/-- **Failed reads.** A run never takes a failed read for missing data where no fault is to come, and
where it is refused a start or does not read the checkpoint again. It does where a read of the
checkpoint fails that is not excused. -/
theorem failedReads_noticed (config : LiveConfig) (source : BlockSource σ ε) (isCancelled : Nat → Bool)
    (events : List LiveHeadEvent) (a : σ) (k : BlockingPostgresLiveSink) (polls : Nat) :
    ((true ∉ k.server.readFaults ∨
        (HeadKnown config source isCancelled a polls → StartRefused config k)) →
      NeverMissing config source isCancelled events a k polls) ∧
    (¬ OthersFine config (looks config source isCancelled events a k polls) →
      ¬ NeverMissing config source isCancelled events a k polls) :=
  ⟨neverMissing_of_noticed, not_neverMissing⟩

end

/-- A store with the checkpoint `a1`, whose connection breaks once, at the second read of the
checkpoint. -/
def brokenOnce : BlockingPostgresLiveSink where
  server := { db := storeOf [genesis, a1], readFaults := [false, false, true] }
  parentAnchor := some a1

/-- The run takes the failed read for an empty store, and stops for a start that is missing. -/
theorem failed_read_halts :
    (liveRun smallConfig (blockingTrackerSource (scriptedRpc [a2] [] [])) (fun _ => false) [] 0
        brokenOnce 0).1.map (·.halted) = .ok (some .missingExplicitStart) ∧
      ¬ NeverMissing smallConfig (blockingTrackerSource (scriptedRpc [a2] [] [])) (fun _ => false) [] 0
        brokenOnce 0 := by
  have hhalted : (liveRun smallConfig (blockingTrackerSource (scriptedRpc [a2] [] [])) (fun _ => false)
      [] 0 brokenOnce 0).1.map (·.halted) = .ok (some .missingExplicitStart) := by decide +kernel
  have hfailed : ((looks smallConfig (blockingTrackerSource (scriptedRpc [a2] [] [])) (fun _ => false)
      [] 0 brokenOnce 0).find? (·.failed)).isSome = true := by decide +kernel
  refine ⟨hhalted, fun h => ?_⟩
  obtain ⟨look, hlook⟩ := Option.isSome_iff_exists.1 hfailed
  obtain ⟨-, e, he⟩ := h look hlook
  rw [he] at hhalted
  cases hhalted

end Chainweave.Runtime
