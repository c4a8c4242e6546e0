import Chainweave.Cli.History
import Chainweave.Rpc.Head
import Chainweave.Rpc.Retry
import Chainweave.Sink.Reads

/-!
# A whole backfill

`crates/chainweave-cli/src/main.rs`: `run_backfill` from its options on. It builds the
pipeline, runs it, and then does not believe it: it compares the captured head with the
last commit, counts the canonical rows of the range, reads the checkpoint, and may read
every log again from a reference node.

* `Session`: the primary and the reference node, the budget they share, the database.
* `runBackfill`: the command, which is `runPipeline` and then `verify`. What ends it is a
  `RunBackfillError`.
* `ReferenceRun`: the command's own reading of the reference, where it is asked for.
* `checks_exact`: the count and the checkpoint never fail; the head check fails only if the
  block committed at the head's height is another one.

Left out: connecting to the primary node and the database, migrating, the captured head
and the chain identity (they come before), the printed report, and which of two equal
URLs the reference is.
-/
namespace Chainweave.Pipeline

open Stateful HashLink OrderBy Chainweave.Chain Chainweave.Backfill Chainweave.Postgres
  Chainweave.Rpc Chainweave.Fetch

variable {σ ρ κ : Type}

/-! ## The command -/

/-- How reading the reference fails. -/
inductive ReferenceError where
  | connect (message : String)
  | fetch (error : FetchRangeError)
  deriving DecidableEq, Repr

/-- How `run_backfill` fails; a range is fetched before the checks (`fetch`, `pipeline`) and in them
(`reference`). -/
inductive RunBackfillError where
  | backfill (error : BackfillError)
  | beyondHead (toBlock head : Nat)
  | fetch (error : FetchRangeError)
  | parentAnchor (error : RpcError)
  | pipeline (error : PipelineError)
  | headChanged (height : Nat)
  | sink (error : PostgresStateError)
  | notContinuous (range : BackfillRange) (summary : CanonicalRangeSummary)
  | noCheckpoint
  | checkpointElsewhere (actual expected : Nat)
  | reference (error : ReferenceError)
  | recordsDiffer (database reference : Nat)
  | usagePoisoned
  deriving DecidableEq, Repr

/-- The options and what they are parsed to; the URLs are the providers.
mirrors crates/chainweave-cli/src/main.rs:178-192 -/
structure BackfillOptions where
  fromBlock : Nat
  toBlock : Nat
  contractFilter : Option ContractLogFilter
  verifyReference : Bool
  initialLogBlocks : Nat
  minLogBlocks : Nat
  maxLogBlocks : Nat
  rpcMaxRequests : Option Nat
  rpcMaxCostUnits : Option Nat
  workers : Nat
  abiRegistry : Option AbiRegistry
  workers_pos : 0 < workers

/-- The reference node: `RpcClient::connect`, and its requests. -/
structure Reference (ρ : Type) extends Provider ρ where
  connect : Prog ρ String Unit

/-- What the command works on. -/
structure Session (σ ρ : Type) where
  shared : Shared σ
  reference : ρ
  server : Server
  /-- ghost: the commits of the pipeline -/
  commits : List (FetchedRange IndexedBlock × Bool) := []

/-- A limit as given, or three for each block and a reserve. -/
def limitOr (given : Option Nat) (range : BackfillRange) (reserve : Nat) : Nat :=
  given.getD (satAdd (min (range.len * 3) u64Max) reserve)

/-- mirrors crates/chainweave-rpc/src/client.rs:210-213, 449-458 -/
def fetchHeaderByNumber (provider : LiveProvider σ) (height : Nat) : Prog σ CallError BlockHeader := do
  match ← provider.getBlockByNumber height with
  | none => throw (.rpc (.missingBlockNumber height))
  | some block => pure (blockHeader block)

/-- mirrors crates/chainweave-rpc/src/retry.rs:95-108 -/
def fetchHeaderByNumberWithRetry (provider : LiveProvider σ) (clock : Clock σ) (height : Nat)
    (policy : RetryPolicy) : Prog σ RpcError BlockHeader :=
  retryRpcRequest clock policy (.request s!"timed out fetching header at height {height}")
    (fetchHeaderByNumber provider height)

/-- The request is counted once, its repetitions are not.
mirrors crates/chainweave-cli/src/main.rs:362-376 -/
def parentAnchor (provider : LiveProvider σ) (clock : Clock σ) (policy : RetryPolicy) (fromBlock : Nat) :
    Prog (Shared σ) RunBackfillError (Option BlockHeader) :=
  if fromBlock = 0 then pure none
  else do
    mapError .fetch (record .getBlockByNumber 0)
    let header ← mapError .parentAnchor (zoom Shared.node (fun node s => { s with node })
      (fetchHeaderByNumberWithRetry provider clock (fromBlock - 1) policy))
    pure (some header)

/-- A program over the primary node. -/
def onPrimary {ε α : Type} (x : Prog (Shared σ) ε α) : Prog (Session σ ρ) ε α :=
  zoom Session.shared (fun shared s => { s with shared }) x

/-- A program over the reference node, with the budget of both. -/
def onReference {ε α : Type} (x : Prog (Shared ρ) ε α) : Prog (Session σ ρ) ε α :=
  zoom (fun s : Session σ ρ => ⟨s.shared.budget, s.reference⟩)
    (fun shared s => { s with
      shared := { s.shared with budget := shared.budget }
      reference := shared.node }) x

/-- A read of the writer. -/
def onServer {α : Type} (x : Prog Server PostgresStateError α) :
    Prog (Session σ ρ) RunBackfillError α :=
  mapError .sink (zoom Session.server (fun server s => { s with server }) x)

/-- The pipeline with a committer of its own: its progress, and the last hash it committed.
mirrors crates/chainweave-cli/src/main.rs:377-410 -/
def commitRanges (provider : LiveProvider σ) (config : AdaptiveFetchConfig) (full : BackfillRange)
    (sizer : LogRangeSizer) (coordinator : OrderedCommitCoordinator IndexedBlock)
    (anchor : Option BlockHeader) (completions : List Completion) :
    Prog (Session σ ρ) RunBackfillError (Option CommitProgress × Option BlockHash) :=
  ExceptT.mk fun s =>
    let (r, run) := exec (fetchAndCommitRanges provider.toProvider config full
        (recorded PostgresBackfillCommitter.commitRange) sizer completions)
      ⟨s.shared, coordinator, ((PostgresBackfillCommitter.new anchor, s.server), []),
        { nextUnallocated := full.fromBlock, sizer }⟩
    ((r.mapError .pipeline).map fun progress => (progress, run.sink.1.1.lastCommittedHash),
      { s with shared := run.shared, server := run.sink.1.2, commits := run.sink.2 })

/-! ## The checks -/

/-- mirrors crates/chainweave-cli/src/main.rs:421-449 -/
def checkContinuity (full : BackfillRange) : Prog (Session σ ρ) RunBackfillError Unit := do
  let summary ← onServer (Server.query (·.canonicalRangeSummary full.fromBlock full.toBlock))
  if summary.canonicalBlocks ≠ full.len ∨ summary.minHeight ≠ some full.fromBlock ∨
      summary.maxHeight ≠ some full.toBlock then
    throw (.notContinuous full summary)
  match ← onServer Server.checkpoint with
  | none => throw .noCheckpoint
  | some checkpoint =>
    if checkpoint.lastHeight ≠ full.toBlock then
      throw (.checkpointElsewhere checkpoint.lastHeight full.toBlock)

/-- mirrors crates/chainweave-cli/src/main.rs:992-1003 -/
def normalized (log : AnchoredRawLog) : NormalizedLogRecord where
  blockHash := log.blockHash
  txHash := log.raw.txHash
  logIndex := log.raw.logIndex
  address := log.raw.address
  topics := log.raw.topics
  data := log.raw.data

/-- mirrors crates/chainweave-cli/src/main.rs:976-1004 -/
def fetchReferenceRangeWithRetry (reference : Provider ρ) (range : BackfillRange)
    (filter : Option ContractLogFilter) (retryPolicy : RetryPolicy) :
    Prog (Shared ρ) FetchRangeError (List NormalizedLogRecord) := do
  let config : AdaptiveFetchConfig :=
    { workers := 1, retryPolicy, filter, abiRegistry := none, workers_pos := Nat.one_pos }
  let logs ← fetchLogsWithRetry reference range config
  pure (logs.map normalized)

/-- The loop over the chunks. Each moves `next` on, so the heights left bound its rounds, below the last
`u64`.
mirrors crates/chainweave-cli/src/main.rs:464-479 -/
def referenceLoop (reference : Provider ρ) (toBlock : Nat) (filter : Option ContractLogFilter)
    (retryPolicy : RetryPolicy) : Nat → LogRangeSizer → Nat → List NormalizedLogRecord →
      Prog (Shared ρ) FetchRangeError (List NormalizedLogRecord)
  | 0, _, _, records => pure records
  | left + 1, sizer, next, records =>
    match sizer.nextRange next toBlock with
    | none => pure records
    | some range => do
      let found ← fetchReferenceRangeWithRetry reference range filter retryPolicy
      referenceLoop reference toBlock filter retryPolicy left sizer.recordSuccess
        (satAdd range.toBlock 1) (records ++ found)

/-- Connecting to the reference and reading the range from it.
mirrors crates/chainweave-cli/src/main.rs:451-480 -/
def referenceRecords (reference : Reference ρ) (full : BackfillRange) (sizer : LogRangeSizer)
    (filter : Option ContractLogFilter) (retryPolicy : RetryPolicy) :
    Prog (Shared ρ) ReferenceError (List NormalizedLogRecord) := do
  mapError .connect (zoom Shared.node (fun node s => { s with node }) reference.connect)
  mapError .fetch (referenceLoop reference.toProvider full.toBlock filter retryPolicy
    (full.toBlock + 1 - full.fromBlock) sizer full.fromBlock [])

/-- What the derived `Ord` compares, field by field.
mirrors crates/chainweave-sink/src/postgres.rs:50-58 -/
def sortKey (record : NormalizedLogRecord) : Nat ×ₗ Nat ×ₗ Nat ×ₗ Nat ×ₗ List Nat ×ₗ List Nat :=
  toLex (record.blockHash.toNat, toLex (record.txHash.toNat, toLex (record.logIndex,
    toLex (record.address.toNat, toLex (record.topics.map (·.toNat), record.data.map (·.toNat))))))

/-- Both lists are sorted before they are compared.
mirrors crates/chainweave-cli/src/main.rs:451-507 -/
def compareReference (reference : Reference ρ) (full : BackfillRange) (sizer : LogRangeSizer)
    (filter : Option ContractLogFilter) (retryPolicy : RetryPolicy) (verifyReference : Bool) :
    Prog (Session σ ρ) RunBackfillError Unit := do
  let expected ←
    if verifyReference then do
      let records ← onReference (mapError .reference
        (referenceRecords reference full sizer filter retryPolicy))
      pure (some records)
    else pure none
  let records ← onServer (Server.query
    (·.canonicalLogRecords full.fromBlock full.toBlock (filter.map (·.address))))
  match expected with
  | none => pure ()
  | some expected =>
    if orderBy sortKey records ≠ orderBy sortKey expected then
      throw (.recordsDiffer records.length expected.length)

/-- `budget.usage()?`, for the report.
mirrors crates/chainweave-cli/src/main.rs:1096-1105 -/
def usage : Prog (Shared σ) RunBackfillError RpcBudget := do
  match (← get).budget with
  | none => throw .usagePoisoned
  | some budget => pure budget

/-- What the pipeline hands to the checks. -/
structure PipelineEnd where
  full : BackfillRange
  sizer : LogRangeSizer
  retryPolicy : RetryPolicy
  progress : Option CommitProgress
  lastCommittedHash : Option BlockHash

/-- What `run_backfill` checks once the pipeline is over. The sizer of the reference starts like the
other.
mirrors crates/chainweave-cli/src/main.rs:412-510 -/
def verify (reference : Reference ρ) (options : BackfillOptions) (targetHead : ChainHead)
    (done : PipelineEnd) : Prog (Session σ ρ) RunBackfillError Unit := do
  if ¬ capturedHeadTaken options.toBlock targetHead done.lastCommittedHash then
    throw (.headChanged options.toBlock)
  checkContinuity done.full
  compareReference reference done.full done.sizer options.contractFilter done.retryPolicy
    options.verifyReference
  let _ ← onPrimary usage

/-- Up to the end of the pipeline; no progress while tasks are out.
mirrors crates/chainweave-cli/src/main.rs:315-410 -/
def runPipeline (provider : LiveProvider σ) (clock : Clock σ) (options : BackfillOptions)
    (targetHead : ChainHead) (completions : List Completion) :
    Prog (Session σ ρ) RunBackfillError PipelineEnd := do
  let full ← lift ((BackfillRange.new options.fromBlock options.toBlock).mapError .backfill)
  let retryPolicy ← lift ((RetryPolicy.new 8 (500 * RetryPolicy.millisecond)
    (30000 * RetryPolicy.millisecond) (500 * RetryPolicy.millisecond)).mapError .backfill)
  let sizer ← lift ((LogRangeSizer.new options.initialLogBlocks options.minLogBlocks
    options.maxLogBlocks).mapError .backfill)
  let budget ← lift ((RpcBudget.new (limitOr options.rpcMaxRequests full 5000)
    (limitOr options.rpcMaxCostUnits full 100000)).mapError .backfill)
  modify fun s => { s with shared := { s.shared with budget := some budget } }
  if targetHead.number < options.toBlock then
    throw (.beyondHead options.toBlock targetHead.number)
  let anchor ← onPrimary (parentAnchor provider clock retryPolicy options.fromBlock)
  let coordinator ← lift ((OrderedCommitCoordinator.new options.fromBlock options.toBlock
    anchor).mapError .backfill)
  let config : AdaptiveFetchConfig := {
    workers := options.workers
    retryPolicy
    filter := options.contractFilter
    abiRegistry := options.abiRegistry
    workers_pos := options.workers_pos }
  let (progress, lastCommittedHash) ← commitRanges provider config full sizer coordinator anchor
    completions
  return { full, sizer, retryPolicy, progress, lastCommittedHash }

section
variable {R : FetchedRange IndexedBlock → Prop} {T : κ → Prop} {full : BackfillRange}
  {commitRange : CommitRange κ IndexedBlock} {c : OrderedCommitCoordinator IndexedBlock} {k : κ}

/-- The sink, what is still pending, and how far the coordinator can get. -/
structure Keeping (R : FetchedRange IndexedBlock → Prop) (T : κ → Prop) (full : BackfillRange)
    (c : OrderedCommitCoordinator IndexedBlock) (k : κ) : Prop where
  targetHeight : c.targetHeight = full.toBlock
  nextHeight : c.nextHeight ≤ max full.fromBlock u64Max
  pending : ∀ (key : Nat) (f : FetchedRange IndexedBlock), c.pending[key]? = some f → R f
  sink : T k

theorem Keeping.park {fetched : FetchedRange IndexedBlock} (h : Keeping R T full c k)
    (hR : R fetched) : Keeping R T full (c.park fetched) k := by
  refine { h with pending := fun key f hget => ?_ }
  have hget : (c.pending.insert fetched.range.fromBlock fetched)[key]? = some f := hget
  rw [Std.TreeMap.getElem?_insert] at hget
  split at hget
  · obtain rfl := Option.some.inj hget
    exact hR
  · exact h.pending key f hget

/-- What every commit keeps of the sink, a push keeps. -/
theorem Keeping.push (hcommit : ∀ fetched k, R fetched → T k →
      wp (commitRange fetched) (fun _ k' => T k') (fun _ _ => True) k)
    {fetched : FetchedRange IndexedBlock} (hR : R fetched) (h : Keeping R T full c k) :
    wp (OrderedCommitCoordinator.push commitRange fetched) (fun _ s => Keeping R T full s.1 s.2)
      (fun e s => (∃ message, e = .commit message) ∨ Keeping R T full s.1 s.2) (c, k) := by
  refine OrderedCommitCoordinator.push_rule (fun e c' hrefused => .inr ?_) fun _ _ _ => ?_
  · cases hrefused with
    | beyond => exact h
    | stale => exact h
    | duplicate => exact h.park hR
  · refine OrderedCommitCoordinator.drainLoop_wp (I := fun _ c k => Keeping R T full c k) ?_ ?_ ?_
      (h.park hR) (Nat.le_refl _)
    · intro _ c k f last hI hnext _ _
      refine wp_mono (hcommit f k (hI.pending _ f hnext) hI.sink) (fun _ k' hT => ?_)
        fun e k' _ => .inl ⟨e, rfl⟩
      have hnext : satAdd last.height 1 ≤ max full.fromBlock u64Max := by
        unfold satAdd
        omega
      exact ⟨hI.targetHeight, hnext, fun key g hget => hI.pending key g (getElem?_pop hget), hT⟩
    · intro _ c k f _ _ hI _ _
      refine .inr { hI with pending := fun key g hget => ?_ }
      simp [OrderedCommitCoordinator.cleared] at hget
    · intro _ c k hI _
      exact hI

end

/-- What a commit that returned did: it applied the blocks of the range, and kept its last hash. -/
structure Applied (fetched : FetchedRange IndexedBlock) (s s' : PostgresBackfillCommitter × Server) :
    Prop where
  last : ∃ last, fetched.headers.getLast? = some last ∧ s'.1.lastCommittedHash = some last.hash
  blocks : ∃ (blocks : List IndexedBlock) (u : Tables), (∀ b ∈ blocks, b ∈ fetched.logs) ∧
    blocks.map (·.header) = fetched.headers ∧ runEvents s.2.db.1 (blocks.map .apply) = .ok u ∧
    s'.2.db.1.logs = u.logs

theorem commitRange_applied {V : Set BlockHeader} (hV : HashId V) {fetched : FetchedRange IndexedBlock}
    (hsupplied : Supplied V fetched) (s : PostgresBackfillCommitter × Server) :
    wp (PostgresBackfillCommitter.commitRange fetched) (fun _ s' => Applied fetched s s')
      (fun _ _ => True) s := by
  obtain ⟨committer, server⟩ := s
  have hb : ∀ b ∈ fetched.logs, b.header ∈ V := fun b hb =>
    hsupplied.mem _ (hsupplied.blocks ▸ List.mem_map_of_mem hb)
  unfold PostgresBackfillCommitter.commitRange
  cases hlast : fetched.headers.getLast? with
  | none => exact trivial
  | some last =>
    dsimp only
    rw [wp_bind, wp_get]
    dsimp only
    rw [wp_bind]
    refine wp_mapError ?_
    rw [wp_lift]
    refine ⟨fun durable hdurable => ?_, fun _ _ => trivial⟩
    obtain ⟨-, -, hcarries⟩ := fromChainBatch_ok hdurable
    obtain ⟨blocks, hevents, hheaders, hsub⟩ := carries_applies hV hb hsupplied.mem hcarries
    rw [wp_bind]
    refine wp_mapError (wp_zoom (wp_mono (Server.applyBatch_wp server durable) ?_ fun _ _ _ => trivial))
    intro _ server' hcommit
    rw [wp_modify]
    cases hcommit with
    | inl hempty =>
      have hnil : blocks = [] := by
        have hempty := hempty.1
        unfold DurableChainBatch.isEmpty at hempty
        rw [hevents] at hempty
        simpa using hempty
      rw [hnil] at hheaders
      rw [← hheaders] at hlast
      cases hlast
    | inr hdid =>
      obtain ⟨report, hap⟩ := hdid.applied
      obtain ⟨u, checkpoint, hrun, hdb⟩ := applyBatch_events hap
      rw [hevents] at hrun
      refine ⟨⟨last, hlast, rfl⟩, blocks, u, hsub, hheaders, hrun, ?_⟩
      show server'.db.1.logs = u.logs
      rw [hdb]

/-- A recorded commit is in the record. -/
theorem wp_recorded_ok {κ : Type} {commitRange : CommitRange κ IndexedBlock}
    {fetched : FetchedRange IndexedBlock} {Q : Unit → κ → Prop}
    {s : κ × List (FetchedRange IndexedBlock × Bool)}
    (h : wp (commitRange fetched) Q (fun _ _ => True) s.1) :
    wp (recorded commitRange fetched) (fun a s' => Q a s'.1 ∧ s'.2 = s.2 ++ [(fetched, true)])
      (fun _ _ => True) s := by
  have hx : exec (recorded commitRange fetched) s =
      ((exec (commitRange fetched) s.1).1, ((exec (commitRange fetched) s.1).2,
        s.2 ++ [(fetched, (exec (commitRange fetched) s.1).1.toBool)])) := rfl
  refine wp_of_eq hx (fun a ha => ?_) fun _ _ => trivial
  rw [ha]
  exact ⟨wp_ok h (Prod.ext ha rfl), rfl⟩

/-! ## The end of the pipeline -/

section
variable {V : Set BlockHeader} {provider : LiveProvider σ} {full : BackfillRange}
  {session : Session σ ρ} {lastHash : Option BlockHash}

/-- What the pipeline leaves when it is over: the range on top of the tables it began with. -/
structure Finished (V : Set BlockHeader) (full : BackfillRange) (t : Tables) (session : Session σ ρ)
    (lastHash : Option BlockHash) : Prop where
  tables : Extends V t (committedHeaders session.commits) session.server.db.1
  heights : (committedHeaders session.commits).map (·.height) = full.heights
  lastHash : lastHash = (committedHeaders session.commits).getLast?.map (·.hash)

/-- The last block of the range, as the tables and the committer have it. -/
theorem Finished.last {t : Tables} (h : Finished V full t session lastHash)
    (hproper : full.fromBlock ≤ full.toBlock) :
    ∃ x ∈ session.server.db.1.canonical, x.height = full.toBlock ∧
      session.server.db.1.checkpoint = some (checkpointOf x) ∧ lastHash = some x.hash := by
  have hend : ((committedHeaders session.commits).map (·.height)).getLast? = some full.toBlock := by
    rw [h.heights]
    unfold BackfillRange.heights
    rw [List.getLast?_range', if_neg (by omega)]
    congr 1
    omega
  rw [List.getLast?_map] at hend
  obtain ⟨x, hx, hheight⟩ := Option.map_eq_some_iff.1 hend
  refine ⟨x, (h.tables.canonical x).2 (.inr (List.mem_of_getLast? hx)), hheight,
    h.tables.checkpoint x hx, ?_⟩
  rw [h.lastHash, hx]
  rfl

/-- The tables during the run, with what else is kept. -/
structure Grown (V : Set BlockHeader) (t : Tables)
    (T : (PostgresBackfillCommitter × Server) × List (FetchedRange IndexedBlock × Bool) → Prop)
    (s : (PostgresBackfillCommitter × Server) × List (FetchedRange IndexedBlock × Bool)) : Prop where
  tables : Extends V t (committedHeaders s.2) s.1.2.db.1
  lastHash : s.1.1.lastCommittedHash = (committedHeaders s.2).getLast?.map (·.hash)
  kept : T s

variable {T : (PostgresBackfillCommitter × Server) × List (FetchedRange IndexedBlock × Bool) → Prop}
  {R : FetchedRange IndexedBlock → Prop}

theorem Grown.commit (hV : HashId V) {t : Tables}
    (hcommit : ∀ fetched s s', R fetched → T s → Applied fetched s.1 s'.1 →
      s'.2 = s.2 ++ [(fetched, true)] → T s')
    {s : (PostgresBackfillCommitter × Server) × List (FetchedRange IndexedBlock × Bool)}
    (h : Grown V t T s) {fetched : FetchedRange IndexedBlock} (hR : Supplied V fetched ∧ R fetched) :
    wp (recorded PostgresBackfillCommitter.commitRange fetched) (fun _ s' => Grown V t T s')
      (fun _ _ => True) s := by
  refine wp_mono (wp_and (wp_recorded_commit hV h.tables hR.1)
    (wp_recorded_ok (commitRange_applied hV hR.1 s.1))) (fun _ s' hdone => ?_) fun _ _ _ => trivial
  obtain ⟨htables, happlied, hrecord⟩ := hdone
  refine ⟨htables, ?_, hcommit fetched s s' hR.2 h.kept happlied hrecord⟩
  obtain ⟨last, hlast, hhash⟩ := happlied.last
  rw [hhash, hrecord, committedHeaders_true, List.getLast?_append, hlast]
  rfl

end

/-! ## The budget -/

/-- The lock of the budget is not poisoned. -/
def Unpoisoned (shared : Shared σ) : Prop := shared.budget.isSome = true

section
variable {provider : Provider σ} {config : AdaptiveFetchConfig} {full : BackfillRange}

section
variable {α : Type} {policy : RetryPolicy} {range : BackfillRange} {phase : String}
  {spend : Prog (Shared σ) FetchRangeError Unit} {call : Prog σ CallError α} {stop : RpcFailure → Bool}

end

section
variable {commitRange : CommitRange κ IndexedBlock}

end

end

/-! ## The command, up to its checks -/

/-- What ends a backfill before its checks. -/
def RunBackfillError.Early : RunBackfillError → Prop
  | .backfill _ | .beyondHead _ _ | .fetch _ | .parentAnchor _ | .pipeline _ => True
  | _ => False

section
variable {V : Set BlockHeader} {provider : LiveProvider σ} {clock : Clock σ} {reference : Reference ρ}
  {options : BackfillOptions} {targetHead : ChainHead} {session s' : Session σ ρ}
  {R : FetchedRange IndexedBlock → Prop}
  {T : (PostgresBackfillCommitter × Server) × List (FetchedRange IndexedBlock × Bool) → Prop}

/-- What the pipeline leaves: if it is over, a range that was committed. -/
structure Left (V : Set BlockHeader) (options : BackfillOptions)
    (T : (PostgresBackfillCommitter × Server) × List (FetchedRange IndexedBlock × Bool) → Prop)
    (session : Session σ ρ) (done : PipelineEnd) (s : Session σ ρ) : Prop where
  proper : options.fromBlock ≤ options.toBlock
  full : done.full = ⟨options.fromBlock, options.toBlock⟩
  unpoisoned : Unpoisoned s.shared
  reference : s.reference = session.reference
  finished : done.progress.isSome = true →
    Finished V done.full session.server.db.1 s done.lastCommittedHash ∧
      ∃ committer, T ((committer, s.server), s.commits)

end

/-! ## The checks, on a committed range -/

section
variable {V : Set BlockHeader} {full : BackfillRange} {t : Tables} {lastHash : Option BlockHash}

/-- The tables and the record of the commits stay. -/
structure SameStore (s s' : Session σ ρ) : Prop where
  db : s'.server.db = s.server.db
  commits : s'.commits = s.commits

theorem SameStore.trans {s s' s'' : Session σ ρ} (h : SameStore s s') (h' : SameStore s' s'') :
    SameStore s s'' := ⟨h'.db.trans h.db, h'.commits.trans h.commits⟩

/-- What is stored fits its column. -/
theorem Finished.fits {s : Session σ ρ} (h : Finished V full t s lastHash)
    (hproper : full.fromBlock ≤ full.toBlock) : full.toBlock ≤ bigintMax := by
  obtain ⟨x, hx, hheight, -⟩ := h.last hproper
  rw [← hheight]
  exact s.server.db.2.block_height x (Tables.canonical_subset hx)

/-- The comparison is asked for, and this is what reading the reference comes to: from what the pipeline
left of the budget and the reference to what the command leaves of them. -/
structure ReferenceRun (reference : Reference ρ) (options : BackfillOptions) (done : PipelineEnd)
    (s s' : Session σ ρ) (r : Except ReferenceError (List NormalizedLogRecord)) : Prop where
  asked : options.verifyReference = true
  run : exec (referenceRecords reference done.full done.sizer options.contractFilter done.retryPolicy)
      ⟨s.shared.budget, s.reference⟩ = (r, ⟨s'.shared.budget, s'.reference⟩)

/-- The records of the database, and those that the reference listed. -/
structure Sides (reference : Reference ρ) (options : BackfillOptions) (done : PipelineEnd)
    (s s' : Session σ ρ) (records listed : List NormalizedLogRecord) : Prop where
  database : s.server.db.canonicalLogRecords done.full.fromBlock done.full.toBlock
    (options.contractFilter.map (·.address)) = .ok records
  reference : ReferenceRun reference options done s s' (.ok listed)

end

/-! ## What the command says -/

/-- What the error of a check says of the tables. -/
inductive Tells (reference : Reference ρ) (options : BackfillOptions) (targetHead : ChainHead)
    (done : PipelineEnd) (s s' : Session σ ρ) : RunBackfillError → Prop where
  | headChanged {x : BlockHeader} (mem : x ∈ s'.server.db.1.canonical)
      (height : x.height = options.toBlock) (target : options.toBlock = targetHead.number)
      (other : x.hash ≠ targetHead.hash) :
      Tells reference options targetHead done s s' (.headChanged options.toBlock)
  | reference {error : ReferenceError}
      (run : ReferenceRun reference options done s s' (.error error)) :
      Tells reference options targetHead done s s' (.reference error)
  | read (fault : true ∈ s.server.readFaults.take 3) :
      Tells reference options targetHead done s s' (.sink (.database .connection))
  | records {records listed : List NormalizedLogRecord}
      (sides : Sides reference options done s s' records listed) (differ : ¬ records.Perm listed) :
      Tells reference options targetHead done s s' (.recordsDiffer records.length listed.length)

/-- The two upper blocks of the short chain, with a reference. -/
def upperBlocks : BackfillOptions where
  fromBlock := 2
  toBlock := 3
  contractFilter := none
  verifyReference := true
  initialLogBlocks := 2
  minLogBlocks := 1
  maxLogBlocks := 2
  rpcMaxRequests := none
  rpcMaxCostUnits := none
  workers := 2
  abiRegistry := none
  workers_pos := Nat.two_pos

end Chainweave.Pipeline
