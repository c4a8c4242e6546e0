import Chainweave.Cli.Fetch
import Chainweave.Core.Arrival

/-!
# The backfill pipeline

`crates/chainweave-cli/src/main.rs`: `fetch_and_commit_ranges` keeps up to `workers`
fetches going, pushes what they bring into the coordinator, and splits a range again
when the provider refuses it or the chain moved.

* `Window` holds the locals of the function; the join set is the list of the ranges
  whose tasks were spawned and not joined yet.
* A `Completion` says which of these tasks ends next, and how. A task's own requests
  run when it is joined; `spent` is what other tasks, aborted ones too, took from the
  budget before.
* Aborting drops every task, also those that had already finished.
* `round_rule`, `loop_rule`: what the proofs about a round and about a whole run use.
-/
namespace Chainweave.Pipeline

open Stateful Chainweave.Chain Chainweave.Backfill Chainweave.Postgres Chainweave.Rpc
  Chainweave.Fetch

/-- How the run fails. -/
inductive PipelineError where
  | taskPanicked
  | push (error : BackfillError)
  | fetch (error : FetchRangeError)
  | incomplete (nextHeight : Nat)
  deriving DecidableEq, Repr

/-- mirrors crates/chainweave-cli/src/main.rs:716-720 -/
structure Window where
  joinSet : List BackfillRange := []
  queued : List BackfillRange := []
  nextUnallocated : Nat
  inFlight : Nat := 0
  sizer : LogRangeSizer
  progress : CommitProgress := {}

/-! ## Splitting -/

/-- The loop of `enqueue_chunks_front`. Every chunk moves `from` on, so the heights left bound its
rounds.
mirrors crates/chainweave-cli/src/main.rs:1062-1075 -/
def chunksFrom (toBlock chunkSize : Nat) : Nat → Nat → List BackfillRange
  | 0, _ => []
  | left + 1, fromBlock =>
    if toBlock < fromBlock then []
    else
      let last := min (satAdd fromBlock (chunkSize - 1)) toBlock
      ⟨fromBlock, last⟩ ::
        if last = u64Max then [] else chunksFrom toBlock chunkSize left (last + 1)

/-- mirrors crates/chainweave-cli/src/main.rs:1052-1079 -/
def enqueueChunksFront (queued : List BackfillRange) (fromBlock toBlock chunkSize : Nat) :
    List BackfillRange :=
  chunksFrom toBlock chunkSize (toBlock + 1 - fromBlock) fromBlock ++ queued

/-- mirrors crates/chainweave-cli/src/main.rs:1039-1050 -/
def recordPartialCommitBeforeInvalidation (progress : CommitProgress)
    (beforeNextHeight afterNextHeight : Nat) : CommitProgress :=
  if afterNextHeight ≤ beforeNextHeight then progress
  else { progress with
    committedRanges := progress.committedRanges + 1
    committedBlocks := progress.committedBlocks + (afterNextHeight - beforeNextHeight)
    lastCommittedHeight := some (afterNextHeight - 1) }

/-! ## The window -/

namespace Window

/-- The next range to fetch: a queued one, else one from the tail.
mirrors crates/chainweave-cli/src/main.rs:828-839 -/
def takeRange (targetBlock : Nat) (self : Window) : Option (BackfillRange × Window) :=
  match self.queued with
  | range :: queued => some (range, { self with queued })
  | [] =>
    (self.sizer.nextRange self.nextUnallocated targetBlock).map fun range =>
      (range, { self with nextUnallocated := satAdd range.toBlock 1 })

/-- `spawn_fetch`, counted.
mirrors crates/chainweave-cli/src/main.rs:840-841, 845-852 -/
def spawnFetch (range : BackfillRange) (self : Window) : Window :=
  { self with joinSet := self.joinSet ++ [range], inFlight := self.inFlight + 1 }

/-- The loop of `fill_fetch_window`, with room for some more tasks. -/
def fill (targetBlock : Nat) : Nat → Window → Window
  | 0, self => self
  | room + 1, self =>
    match self.takeRange targetBlock with
    | none => self
    | some (range, self) => fill targetBlock room (self.spawnFetch range)

/-- mirrors crates/chainweave-cli/src/main.rs:817-843 -/
def fillFetchWindow (workers targetBlock : Nat) (self : Window) : Window :=
  self.fill targetBlock (workers - self.inFlight)

/-- `join_next`, for the task the index names, and `in_flight` one less. -/
def joinNext (task : Nat) (self : Window) : Option (BackfillRange × Window) :=
  let index := task % self.joinSet.length
  self.joinSet[index]?.map fun range =>
    (range, { self with joinSet := self.joinSet.eraseIdx index, inFlight := self.inFlight - 1 })

/-- mirrors crates/chainweave-cli/src/main.rs:760-770 -/
def restartFrom (refetchFrom : Nat) (full : BackfillRange) (self : Window) : Window :=
  { self with
    joinSet := []
    inFlight := 0
    queued := enqueueChunksFront [] refetchFrom full.toBlock self.sizer.currentBlocks
    nextUnallocated := satAdd full.toBlock 1 }

/-- mirrors crates/chainweave-cli/src/main.rs:777-783 -/
def splitRange (range : BackfillRange) (self : Window) : Window :=
  let sizer := self.sizer.recordProviderLimit
  { self with
    sizer
    queued := enqueueChunksFront self.queued range.fromBlock range.toBlock sizer.currentBlocks }

end Window

/-! ## The run -/

/-- Which task ends next, what was spent before, and whether it panicked. -/
structure Completion where
  task : Nat
  spent : List RpcMethod := []
  panicked : Bool := false

/-- Everything the run reads and writes. -/
structure Run (σ κ : Type) where
  shared : Shared σ
  coordinator : OrderedCommitCoordinator IndexedBlock
  sink : κ
  window : Window

namespace Run

variable {σ κ : Type}

/-- Change the window. -/
def onWindow (f : Window → Window) (run : Run σ κ) : Run σ κ :=
  { run with window := f run.window }

/-- Requests of other tasks; one the budget refuses takes nothing. -/
def spend (spent : List RpcMethod) (run : Run σ κ) : Run σ κ :=
  { run with shared := spent.foldl (fun shared method => (exec (record method 0) shared).2) run.shared }

end Run

section
variable {σ κ : Type} (provider : Provider σ) (config : AdaptiveFetchConfig) (full : BackfillRange)
  (commitRange : CommitRange κ IndexedBlock)

/-- A task's fetch. -/
def fetchTask (range : BackfillRange) :
    Prog (Run σ κ) PipelineError (Except FetchRangeError (FetchedRange IndexedBlock)) :=
  attempt (zoom Run.shared (fun shared run => { run with shared })
    (fetchRangeWithRetry provider range config))

/-- `coordinator.push_async(fetched, committer)`. -/
def pushFetched (fetched : FetchedRange IndexedBlock) :
    Prog (Run σ κ) PipelineError (Except BackfillError CommitProgress) :=
  attempt (zoom (fun run : Run σ κ => (run.coordinator, run.sink))
    (fun s run => { run with coordinator := s.1, sink := s.2 })
    (OrderedCommitCoordinator.push commitRange fetched))

/-- A range that arrived.
mirrors crates/chainweave-cli/src/main.rs:736-775 -/
def pushRange (fetched : FetchedRange IndexedBlock) : Prog (Run σ κ) PipelineError Unit := do
  modify (Run.onWindow fun window => { window with sizer := window.sizer.recordSuccess })
  let before := (← get).coordinator.nextHeight
  match ← pushFetched commitRange fetched with
  | .ok rangeProgress =>
    modify (Run.onWindow fun window =>
      { window with progress := mergeProgress window.progress rangeProgress })
  | .error (.fetchedSuffixInvalidated refetchFrom _ _) =>
    modify fun run => run.onWindow fun window =>
      { window with
        progress := recordPartialCommitBeforeInvalidation window.progress before
          run.coordinator.nextHeight }
        |>.restartFrom refetchFrom full
  | .error e => throw (.push e)

/-- One round of the loop.
mirrors crates/chainweave-cli/src/main.rs:734-805 -/
def round (completion : Completion) : Prog (Run σ κ) PipelineError Unit := do
  modify (Run.spend completion.spent)
  match (← get).window.joinNext completion.task with
  | none => pure ()
  | some (range, window) =>
    modify (Run.onWindow fun _ => window)
    if completion.panicked then throw .taskPanicked
    match ← fetchTask provider config range with
    | .ok fetched => pushRange full commitRange fetched
    | .error (.providerLimit range _) => modify (Run.onWindow (Window.splitRange range))
    | .error e => throw (.fetch e)
    modify (Run.onWindow (Window.fillFetchWindow config.workers full.toBlock))

/-- `join_next` returns `None` once no task is left, and the run is over: `none` while tasks are out.
mirrors crates/chainweave-cli/src/main.rs:733, 807-814 -/
def ending : Prog (Run σ κ) PipelineError (Option CommitProgress) := do
  let run ← get
  if run.window.joinSet.isEmpty then
    if run.coordinator.isComplete then pure (some run.window.progress)
    else throw (.incomplete run.coordinator.nextHeight)
  else pure none

/-- The loop, for the completions seen so far.
mirrors crates/chainweave-cli/src/main.rs:733-814 -/
def loop : List Completion → Prog (Run σ κ) PipelineError (Option CommitProgress)
  | [] => ending
  | completion :: completions => do
    match ← ending with
    | some progress => pure (some progress)
    | none => do
      round provider config full commitRange completion
      loop completions

/-- The locals at the start.
mirrors crates/chainweave-cli/src/main.rs:716-731 -/
def Window.start (workers : Nat) (full : BackfillRange) (sizer : LogRangeSizer) : Window :=
  ({ nextUnallocated := full.fromBlock, sizer } : Window).fillFetchWindow workers full.toBlock

/-- mirrors crates/chainweave-cli/src/main.rs:708-815 -/
def fetchAndCommitRanges (sizer : LogRangeSizer) (completions : List Completion) :
    Prog (Run σ κ) PipelineError (Option CommitProgress) := do
  modify (Run.onWindow fun _ => Window.start config.workers full sizer)
  loop provider config full commitRange completions

end

/-! ## The loop -/

section
variable {σ κ : Type} {Q : Option CommitProgress → Run σ κ → Prop} {E : PipelineError → Run σ κ → Prop}
  {run : Run σ κ}

/-- With no task left the run is over, short of its target or not. -/
theorem ending_wp
    (hover : run.window.joinSet.isEmpty = true → run.coordinator.isComplete = true →
      Q (some run.window.progress) run)
    (hshort : run.window.joinSet.isEmpty = true → run.coordinator.isComplete = false →
      E (.incomplete run.coordinator.nextHeight) run)
    (hout : run.window.joinSet.isEmpty = false → Q none run) : wp ending Q E run := by
  unfold ending
  rw [wp_bind, wp_get]
  cases hempty : run.window.joinSet.isEmpty with
  | true =>
    rw [if_pos rfl]
    cases hcomplete : run.coordinator.isComplete with
    | true =>
      rw [if_pos rfl]
      exact hover hempty hcomplete
    | false =>
      rw [if_neg Bool.false_ne_true]
      exact hshort hempty hcomplete
  | false =>
    rw [if_neg Bool.false_ne_true]
    exact hout hempty

variable {provider : Provider σ} {config : AdaptiveFetchConfig} {full : BackfillRange}
  {commitRange : CommitRange κ IndexedBlock} {I : Run σ κ → Prop}

/-- One round: what a task fetched is pushed, a range the provider refused is split, and the window is
filled again. -/
theorem round_rule {completion : Completion} {start : Run σ κ} {Q : Unit → Run σ κ → Prop}
    (hstart : run.spend completion.spent = start)
    (hnone : start.window.joinNext completion.task = none → Q () start)
    (hpanicked : ∀ window, E .taskPanicked (start.onWindow fun _ => window))
    (hjoined : ∀ range window, start.window.joinNext completion.task = some (range, window) →
      completion.panicked = false →
      wp (fetchRangeWithRetry provider range config)
        (fun fetched shared => wp (pushRange full commitRange fetched)
          (fun _ run => Q () (run.onWindow (Window.fillFetchWindow config.workers full.toBlock))) E
          { start with shared, window })
        (fun e shared =>
          (∀ refused source, e = .providerLimit refused source →
            Q () (({ start with shared, window } : Run σ κ).onWindow fun window =>
              (window.splitRange refused).fillFetchWindow config.workers full.toBlock)) ∧
          ((∀ refused source, e ≠ .providerLimit refused source) →
            E (.fetch e) { start with shared, window }))
        start.shared) :
    wp (round provider config full commitRange completion) Q E run := by
  unfold round
  rw [wp_bind, wp_modify, wp_bind, wp_get, hstart]
  cases hjoin : start.window.joinNext completion.task with
  | none => exact hnone hjoin
  | some joined =>
    obtain ⟨range, window⟩ := joined
    dsimp only
    rw [wp_bind, wp_modify]
    cases hpanic : completion.panicked with
    | true => exact hpanicked window
    | false =>
      rw [if_neg Bool.false_ne_true]
      unfold fetchTask
      rw [wp_bind]
      refine wp_attempt (wp_zoom (wp_mono (hjoined range window hjoin hpanic)
        (fun fetched shared hpushed => ?_) fun e shared hfailed => ?_))
      · dsimp only
        rw [wp_bind]
        exact wp_mono hpushed (fun _ _ hrun => hrun) fun _ _ he => he
      · obtain ⟨hlimit, hother⟩ := hfailed
        cases e with
        | providerLimit refused source =>
          dsimp only
          rw [wp_bind, wp_modify, wp_modify]
          exact hlimit refused source rfl
        | rpc range source => exact hother (by simp)
        | timeout range phase => exact hother (by simp)
        | backfill error => exact hother (by simp)
        | budgetPoisoned => exact hother (by simp)
        | logBlockHashMismatch height => exact hother (by simp)

/-- **What every round keeps**, the loop keeps up to its end. -/
theorem loop_rule
    (hround : ∀ completion run, I run →
      wp (round provider config full commitRange completion) (fun _ run => I run) E run)
    (hover : ∀ run, I run → run.window.joinSet.isEmpty = true → run.coordinator.isComplete = true →
      Q (some run.window.progress) run)
    (hshort : ∀ run, I run → run.window.joinSet.isEmpty = true → run.coordinator.isComplete = false →
      E (.incomplete run.coordinator.nextHeight) run)
    (hout : ∀ run, I run → Q none run) (h : I run) (completions : List Completion) :
    wp (loop provider config full commitRange completions) Q E run := by
  induction completions generalizing run with
  | nil => exact ending_wp (hover run h) (hshort run h) fun _ => hout run h
  | cons completion completions ih =>
    unfold loop
    rw [wp_bind]
    refine ending_wp (hover run h) (hshort run h) fun _ => ?_
    dsimp only
    rw [wp_bind]
    exact wp_mono (hround completion run h) (fun _ _ hrun => ih hrun) fun _ _ he => he

end

end Chainweave.Pipeline
