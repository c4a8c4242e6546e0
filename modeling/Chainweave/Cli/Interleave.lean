import Mathlib
import Chainweave.Lib.Run
import Chainweave.Cli.Tasks
import Chainweave.Cli.Partition

/-!
# Fetches side by side

`crates/chainweave-cli/src/main.rs`: the fetches that `fetch_and_commit_ranges` spawns run
at the same time, on one budget and one node. Here they take their steps in any order.
At a restart all of them have stopped; those left when the run is over may go on a while
before they do.

* `asks_within_budget`: the node is never asked for more than what the budget has left
  when they start, and none of it is held back.
* `fetches_serialize`: the run ends as one of `Pipeline` does, where each fetch runs as
  a whole when it is joined, with a node that gives the same answers.
-/
namespace Chainweave.Pipeline

open Stateful Chainweave.Chain Chainweave.Backfill Chainweave.Postgres Chainweave.Rpc
  Chainweave.Fetch

structure Task where
  range : BackfillRange
  stage : Stage

/-- mirrors crates/chainweave-cli/src/main.rs:845-852 -/
def Task.spawn (range : BackfillRange) : Task := ⟨range, .logs 1 false⟩

/-- A run with its tasks. -/
structure Concurrent (σ κ : Type) where
  run : Run σ κ
  /-- of the join set, in its order -/
  tasks : List Task
  result : Option (Except PipelineError CommitProgress)

inductive Action where
  | work (task : Nat)
  | join (task : Nat)
  | panic (task : Nat)
  /-- `join_next` returns `None` -/
  | finish

variable {σ τ κ : Type}

section
variable (provider : Provider σ) (config : AdaptiveFetchConfig) (full : BackfillRange)
  (commitRange : CommitRange κ IndexedBlock)

/-- What a task brought.
mirrors crates/chainweave-cli/src/main.rs:735-799 -/
def handle : Fetched → Prog (Run σ κ) PipelineError Unit
  | .ok fetched => pushRange full commitRange fetched
  | .error (.providerLimit range _) => modify (Run.onWindow (Window.splitRange range))
  | .error e => throw (.fetch e)

namespace Concurrent

/-- The run is over. -/
def stop (s : Concurrent σ κ) (run : Run σ κ) (rest : List Task)
    (result : Except PipelineError CommitProgress) : Concurrent σ κ :=
  { s with run, tasks := rest, result := some result }

/-- The window is filled again, by tasks that are spawned. After a restart they are all there are. -/
def refill (s : Concurrent σ κ) (run : Run σ κ) (rest : List Task) : Concurrent σ κ :=
  let kept := if run.window.joinSet.isEmpty then [] else rest
  let run := run.onWindow (Window.fillFetchWindow config.workers full.toBlock)
  { s with run, tasks := kept ++ (run.window.joinSet.drop kept.length).map Task.spawn }

/-- mirrors crates/chainweave-cli/src/main.rs:733-805 -/
def joined (s : Concurrent σ κ) (task : Nat) (fetched : Fetched) (window : Window) : Concurrent σ κ :=
  match exec (handle full commitRange fetched) { s.run with window } with
  | (.ok _, run) => s.refill config full run (s.tasks.eraseIdx task)
  | (.error e, run) => s.stop run (s.tasks.eraseIdx task) (.error e)

/-- mirrors crates/chainweave-cli/src/main.rs:708-852 -/
def step (s : Concurrent σ κ) : Action → Option (Concurrent σ κ)
  | .work i =>
    s.tasks[i]?.map fun task =>
      let (stage, shared) := task.stage.step provider config task.range s.run.shared
      { s with run := { s.run with shared }, tasks := s.tasks.set i { task with stage } }
  | .join i =>
    match s.result, s.tasks[i]?, s.run.window.joinNext i with
    | none, some ⟨_, .finished fetched⟩, some (_, window) =>
      some (s.joined config full commitRange i fetched window)
    | _, _, _ => none
  | .panic i =>
    match s.result, s.tasks[i]?, s.run.window.joinNext i with
    | none, some _, some (_, window) =>
      some (s.stop { s.run with window } (s.tasks.eraseIdx i) (.error .taskPanicked))
    | _, _, _ => none
  | .finish =>
    if s.result.isNone ∧ s.run.window.joinSet.isEmpty then
      some (s.stop s.run s.tasks
        (if s.run.coordinator.isComplete then .ok s.run.window.progress
          else .error (.incomplete s.run.coordinator.nextHeight)))
    else none

/-- mirrors crates/chainweave-cli/src/main.rs:716-731 -/
def start (run : Run σ κ) (sizer : LogRangeSizer) : Concurrent σ κ :=
  let run := run.onWindow fun _ => Window.start config.workers full sizer
  ⟨run, run.window.joinSet.map Task.spawn, none⟩

/-- A run, whichever task goes on when. -/
def execute (run : Run σ κ) (sizer : LogRangeSizer) (actions : List Action) : Option (Concurrent σ κ) :=
  actions.foldlM (step provider config full commitRange) (start config full run sizer)

end Concurrent

end

/-! ## What a step can do -/

/-- The place of an element. -/
theorem getElem?_split {α : Type} {l : List α} {i : Nat} {a : α} (h : l[i]? = some a) :
    ∃ before after, l = before ++ a :: after ∧ before.length = i ∧ l.eraseIdx i = before ++ after ∧
      ∀ b, l.set i b = before ++ b :: after := by
  obtain ⟨hlt, hget⟩ := List.getElem?_eq_some_iff.1 h
  refine ⟨l.take i, l.drop (i + 1), ?_, List.length_take_of_le hlt.le, List.eraseIdx_eq_take_drop_succ l i,
    fun b => List.set_eq_take_append_cons_drop.trans (if_pos hlt)⟩
  rw [← hget, List.getElem_cons_drop, List.take_append_drop]

section
variable {provider : Provider σ} {config : AdaptiveFetchConfig} {full : BackfillRange}
  {commitRange : CommitRange κ IndexedBlock} {s s' : Concurrent σ κ} {i : Nat}

/-- A step of a task. -/
theorem step_work (h : s.step provider config full commitRange (.work i) = some s') :
    ∃ before task after stage shared, s.tasks = before ++ task :: after ∧
      task.stage.step provider config task.range s.run.shared = (stage, shared) ∧
      s' = { s with
        run := { s.run with shared }
        tasks := before ++ ⟨task.range, stage⟩ :: after } := by
  obtain ⟨task, hget, hs⟩ := Option.map_eq_some_iff.1 h
  obtain ⟨before, after, htasks, -, -, hset⟩ := getElem?_split hget
  cases hstep : task.stage.step provider config task.range s.run.shared with
  | mk stage shared =>
    rw [hstep] at hs
    refine ⟨before, task, after, stage, shared, htasks, hstep, ?_⟩
    rw [← hs, ← hset]

/-- A task that is joined. -/
theorem step_join (h : s.step provider config full commitRange (.join i) = some s') :
    ∃ before range fetched after out window, s.result = none ∧
      s.tasks = before ++ ⟨range, .finished fetched⟩ :: after ∧ before.length = i ∧
      s.tasks.eraseIdx i = before ++ after ∧ s.run.window.joinNext i = some (out, window) ∧
      s' = s.joined config full commitRange i fetched window := by
  simp only [Concurrent.step] at h
  split at h
  · rename_i range fetched out window hresult hget hjoin
    obtain ⟨before, after, htasks, hlength, herase, -⟩ := getElem?_split hget
    cases h
    exact ⟨before, range, fetched, after, out, window, hresult, htasks, hlength, herase, hjoin, rfl⟩
  · cases h

/-- A task that panicked. -/
theorem step_panic (h : s.step provider config full commitRange (.panic i) = some s') :
    ∃ before task after out window, s.result = none ∧ s.tasks = before ++ task :: after ∧
      before.length = i ∧ s.tasks.eraseIdx i = before ++ after ∧
      s.run.window.joinNext i = some (out, window) ∧
      s' = s.stop { s.run with window } (before ++ after) (.error .taskPanicked) := by
  simp only [Concurrent.step] at h
  split at h
  · rename_i task out window hresult hget hjoin
    obtain ⟨before, after, htasks, hlength, herase, -⟩ := getElem?_split hget
    cases h
    exact ⟨before, task, after, out, window, hresult, htasks, hlength, herase, hjoin, by rw [herase]⟩
  · cases h

end

/-! ## Joining -/

/-- What the rest of the function sees of two runs is the same, and each has its own budget and node. -/
structure Tied (shared : Shared σ) (shared' : Shared τ) (run : Run σ κ) (run' : Run τ κ) : Prop where
  coordinator : run'.coordinator = run.coordinator
  sink : run'.sink = run.sink
  window : run'.window = run.window
  shared : run.shared = shared
  shared' : run'.shared = shared'

section
variable {full : BackfillRange} {commitRange : CommitRange κ IndexedBlock} {shared : Shared σ}
  {shared' : Shared τ}

theorem Tied.onWindow {run : Run σ κ} {run' : Run τ κ} (h : Tied shared shared' run run')
    (f : Window → Window) : Tied shared shared' (run.onWindow f) (run'.onWindow f) :=
  ⟨h.coordinator, h.sink, congrArg f h.window, h.shared, h.shared'⟩

theorem onWindow_tied (f : Window → Window) :
    Related (Tied shared shared') (modify (Run.onWindow f) : Prog (Run σ κ) PipelineError Unit)
      (modify (Run.onWindow f) : Prog (Run τ κ) PipelineError Unit) :=
  .modify fun _ _ h => h.onWindow f

theorem pushFetched_tied (fetched : FetchedRange IndexedBlock) :
    Related (Tied shared shared') (pushFetched (σ := σ) commitRange fetched)
      (pushFetched (σ := τ) commitRange fetched) := by
  intro run run' h
  simp only [pushFetched, exec_attempt, exec_zoom, h.coordinator, h.sink]
  exact ⟨trivial, rfl, rfl, h.window, h.shared, h.shared'⟩

/-- **What a task brought** is handled without the budget and the node. -/
theorem handle_tied (full : BackfillRange) (commitRange : CommitRange κ IndexedBlock) (fetched : Fetched) :
    Related (Tied shared shared') (handle (σ := σ) full commitRange fetched)
      (handle (σ := τ) full commitRange fetched) := by
  cases fetched with
  | error e =>
    cases e with
    | providerLimit range source => exact onWindow_tied _
    | _ => exact .throw _
  | ok fetched =>
    refine (onWindow_tied _).bind fun _ => .get_bind fun run run' h => ?_
    rw [h.coordinator]
    refine (pushFetched_tied fetched).bind fun r => ?_
    cases r with
    | ok progress => exact onWindow_tied _
    | error e =>
      cases e with
      | fetchedSuffixInvalidated refetchFrom expected actual =>
        refine .modify fun run run' h => ⟨h.coordinator, h.sink, ?_, h.shared, h.shared'⟩
        simp only [Run.onWindow, h.coordinator, h.window]
      | _ => exact .throw _

theorem tied_refl (run : Run σ κ) : Tied run.shared run.shared run run := ⟨rfl, rfl, rfl, rfl, rfl⟩

/-- A range that is pushed does not fail as a fetch. -/
theorem handle_fetch {fetched : Fetched} {run run' : Run σ κ} {e : FetchRangeError}
    (h : exec (handle full commitRange fetched) run = (.error (.fetch e), run')) : fetched = .error e := by
  cases fetched with
  | error e' =>
    cases e' with
    | providerLimit range source => cases h
    | _ =>
      cases h
      rfl
  | ok fetched =>
    have hpush : wp (pushRange full commitRange fetched) (fun _ _ => True)
        (fun e _ => ∀ failed, e ≠ .fetch failed) run := by
      unfold pushRange
      rw [wp_bind, wp_modify, wp_bind, wp_get, wp_bind]
      have hattempt : ∀ run : Run σ κ, wp (pushFetched commitRange fetched) (fun _ _ => True)
          (fun _ _ => False) run := fun _ => trivial
      refine wp_mono (hattempt _) (fun r run' _ => ?_) fun _ _ hfalse => hfalse.elim
      split
      · trivial
      · trivial
      · exact fun failed heq => (by cases heq)
    exact absurd rfl (wp_error hpush h e)

/-- It costs nothing. -/
theorem handle_shared (full : BackfillRange) (commitRange : CommitRange κ IndexedBlock) (fetched : Fetched)
    (run : Run σ κ) :
    (exec (handle full commitRange fetched) run).2.shared = run.shared :=
  (handle_tied full commitRange fetched run run (tied_refl run)).2.shared

end

/-! ## The budget holds -/

/-- What is recorded and not sent. -/
def pendingOf (tasks : List Task) : List RpcMethod := tasks.flatMap (·.stage.pending)

@[simp] theorem pendingOf_append (tasks more : List Task) :
    pendingOf (tasks ++ more) = pendingOf tasks ++ pendingOf more := List.flatMap_append ..

@[simp] theorem pendingOf_cons (task : Task) (tasks : List Task) :
    pendingOf (task :: tasks) = task.stage.pending ++ pendingOf tasks := List.flatMap_cons ..

@[simp] theorem pendingOf_spawn (ranges : List BackfillRange) : pendingOf (ranges.map Task.spawn) = [] := by
  simp [pendingOf, Task.spawn, Stage.pending]

/-- **The books.** What was asked since `before`, or is pending, was paid out of `budget`; `lost` was
recorded by tasks that stopped. -/
def Audited (budget : RpcBudget) (before : List RpcMethod) (s : Concurrent (σ × List RpcMethod) κ) : Prop :=
  ∃ b asked lost, s.run.shared.budget = some b ∧ s.run.shared.node.2 = before ++ asked ∧
    Spent budget (asked ++ pendingOf s.tasks ++ lost) b ∧
    (∀ task ∈ s.tasks, task.stage.Honest b) ∧ ∀ e, s.result = some (.error (.fetch e)) → UsedUp b e

theorem spawn_honest (b : RpcBudget) (range : BackfillRange) : (Task.spawn range).stage.Honest b :=
  fun _ heq => (by cases heq)

section
variable {provider : Provider σ} {config : AdaptiveFetchConfig} {full : BackfillRange}
  {commitRange : CommitRange κ IndexedBlock} {s s' : Concurrent (σ × List RpcMethod) κ}
  {budget : RpcBudget} {earlier : List RpcMethod}

/-- Some tasks are dropped, others spawned; nothing is asked. -/
theorem Audited.change (h : Audited budget earlier s) (hshared : s'.run.shared = s.run.shared)
    (hresult : ∀ e b, s'.result = some (.error (.fetch e)) → (∀ task ∈ s.tasks, task.stage.Honest b) →
      (∀ e, s.result = some (.error (.fetch e)) → UsedUp b e) → UsedUp b e)
    (kept dropped : List Task) (ranges : List BackfillRange) (hold : s.tasks.Perm (kept ++ dropped))
    (hnew : s'.tasks = kept ++ ranges.map Task.spawn) : Audited budget earlier s' := by
  obtain ⟨b, asked, lost, hb, hasked, hspent, hhonest, hused⟩ := h
  refine ⟨b, asked, pendingOf dropped ++ lost, by rw [hshared, hb], by rw [hshared, hasked], ?_,
    fun task hmem => ?_, fun e heq => hresult e b heq hhonest hused⟩
  · refine hspent.perm ?_
    have hpending : (pendingOf s.tasks).Perm (pendingOf kept ++ pendingOf dropped) := by
      rw [← pendingOf_append]
      exact hold.flatMap_right _
    rw [hnew, pendingOf_append, pendingOf_spawn, List.append_nil]
    refine List.perm_iff_count.2 fun method => ?_
    have hcount := hpending.count_eq method
    simp only [List.count_append] at hcount ⊢
    omega
  · rw [hnew] at hmem
    cases List.mem_append.1 hmem with
    | inl hkept => exact hhonest task (hold.mem_iff.2 (List.mem_append_left _ hkept))
    | inr hspawned =>
      obtain ⟨range, -, rfl⟩ := List.mem_map.1 hspawned
      exact spawn_honest b range

/-- **Every step keeps the ledger.** -/
theorem Audited.step (h : Audited budget earlier s) (hfits : LimitsFit budget) {action : Action}
    (hs : s.step (metered provider) config full commitRange action = some s') :
    Audited budget earlier s' := by
  cases action with
  | work i =>
    obtain ⟨before, task, after, stage, shared, htasks, hstep, rfl⟩ := step_work hs
    obtain ⟨b, asked, lost, hb, hasked, hspent, hhonest, hresult⟩ := h
    obtain ⟨b', paid, sent, dropped, hb', hpaid, hsent, hperm, hused⟩ :=
      step_metered provider task.stage hb (hspent.fits hfits) hstep
    refine ⟨b', asked ++ sent, dropped ++ lost, hb', ?_, (hspent.trans hpaid).perm ?_, fun other hmem => ?_,
      fun e heq => (hresult e heq).later hpaid⟩
    · rw [hsent, hasked, List.append_assoc]
    · refine List.perm_iff_count.2 fun method => ?_
      have hcounts := hperm.count_eq method
      simp only [htasks, pendingOf_append, pendingOf_cons, List.count_append] at hcounts ⊢
      omega
    · rw [htasks] at hhonest
      rw [List.mem_append, List.mem_cons] at hmem
      obtain hmem | rfl | hmem := hmem
      · exact (hhonest other (by simp [hmem])).later hpaid
      · exact hused (hhonest task (by simp))
      · exact (hhonest other (by simp [hmem])).later hpaid
  | join i =>
    obtain ⟨before, range, fetched, after, out, window, -, htasks, -, herase, -, rfl⟩ := step_join hs
    have hshared := handle_shared full commitRange fetched { s.run with window }
    have hjoined : s.tasks.Perm (before ++ after ++ [⟨range, .finished fetched⟩]) := by
      rw [htasks]
      exact List.perm_middle.trans (List.perm_append_singleton _ _).symm
    unfold Concurrent.joined
    rw [herase]
    split
    · rename_i u run hexec
      rw [hexec] at hshared
      cases hempty : run.window.joinSet.isEmpty with
      | true =>
        refine h.change ?_ (fun e b heq _ hused => hused e heq) []
          (before ++ after ++ [⟨range, .finished fetched⟩])
          (run.window.fillFetchWindow config.workers full.toBlock).joinSet hjoined ?_
        · exact hshared
        · simp only [Concurrent.refill, hempty, if_true]
          rfl
      | false =>
        refine h.change ?_ (fun e b heq _ hused => hused e heq) (before ++ after)
          [⟨range, .finished fetched⟩]
          ((run.window.fillFetchWindow config.workers full.toBlock).joinSet.drop (before ++ after).length)
          hjoined ?_
        · exact hshared
        · simp only [Concurrent.refill, hempty]
          rfl
    · rename_i e run hexec
      rw [hexec] at hshared
      refine h.change hshared (fun error b heq hhonest _ => ?_) (before ++ after)
        [⟨range, .finished fetched⟩] [] hjoined (List.append_nil _).symm
      cases heq
      have hfailed := handle_fetch hexec
      exact hhonest ⟨range, .finished fetched⟩ (by simp [htasks]) error (by rw [hfailed])
  | panic i =>
    obtain ⟨before, task, after, out, window, -, htasks, -, -, -, rfl⟩ := step_panic hs
    refine h.change rfl (fun e b heq => ?_) (before ++ after) [task] [] ?_ (List.append_nil _).symm
    · cases heq
    · rw [htasks]
      exact List.perm_middle.trans (List.perm_append_singleton _ _).symm
  | finish =>
    simp only [Concurrent.step] at hs
    split at hs
    · cases hs
      refine h.change rfl (fun e b heq => ?_) s.tasks [] [] ?_ (List.append_nil _).symm
      · simp only [Concurrent.stop] at heq
        split at heq <;> cases heq
      · rw [List.append_nil]
    · cases hs

/-- **The node is never asked for more than the budget.** However the fetches of a run take their steps,
wherever it ends, and whatever was recorded before it: the requests that they send are at most what is left
of `max_requests` when it starts, their units at most what is left of `max_cost_units`, but for a limit of
`u64::MAX`, where the count saturates. What is recorded and not sent is that of tasks under way or stopped.
None of the budget is held back: a fetch, and with it the run, fails for it only when no request is left of
it, or fewer units than `eth_getLogs` takes. Not among these requests are the head's capture, which is not
recorded, and the attempts at the anchor, of which one record is made before. -/
theorem asks_within_budget (provider : Provider σ) (config : AdaptiveFetchConfig) (full : BackfillRange)
    (commitRange : CommitRange κ IndexedBlock) (sizer : LogRangeSizer) (actions : List Action)
    {run : Run (σ × List RpcMethod) κ} (hbudget : run.shared.budget = some budget)
    (hfits : LimitsFit budget)
    (hrun : Concurrent.execute (metered provider) config full commitRange run sizer actions = some s) :
    ∃ b asked lost, s.run.shared.budget = some b ∧ s.run.shared.node.2 = run.shared.node.2 ++ asked ∧
      Spent budget (asked ++ pendingOf s.tasks ++ lost) b ∧
      (budget.maxRequests < u64Max → budget.requests + asked.length ≤ budget.maxRequests) ∧
      (budget.maxCostUnits < u64Max → budget.costUnits + costOf asked ≤ budget.maxCostUnits) ∧
      (∀ task ∈ s.tasks, task.stage.Honest b) ∧
      ∀ e, s.result = some (.error (.fetch e)) → UsedUp b e := by
  have hstart : Audited budget run.shared.node.2 (Concurrent.start config full run sizer) := by
    refine ⟨budget, [], [], hbudget, (List.append_nil _).symm, ?_, fun task hmem => ?_,
      fun e heq => (by cases heq)⟩
    · simp only [Concurrent.start, pendingOf_spawn, Run.onWindow]
      exact .refl hfits
    · obtain ⟨range, -, rfl⟩ := List.mem_map.1 hmem
      exact spawn_honest budget range
  obtain ⟨b, asked, lost, hb, hasked, hspent, hhonest, hused⟩ :=
    Run.keeps (fun _ _ _ h hs => Audited.step h hfits hs) hstart hrun
  refine ⟨b, asked, lost, hb, hasked, hspent, fun hbelow => ?_, fun hbelow => ?_, hhonest, hused⟩
  · have hle := b.requests_le
    rw [hspent.maxRequests, hspent.requests] at hle
    simp only [List.length_append, satAdd] at hle
    omega
  · have hle := b.costUnits_le
    rw [hspent.maxCostUnits, hspent.costUnits] at hle
    simp only [costOf_append, satAdd] at hle
    omega

end

/-- What is left of a budget of 4 after the parent anchor is recorded. -/
def tightBudget : Option RpcBudget :=
  ((RpcBudget.new 4 100).toOption).bind fun budget => (budget.record .getBlockByNumber 0).toOption

/-- A run over heights 1 to 4 with this budget. -/
def tightRun {σ : Type} (node : σ) : Run σ Unit :=
  ⟨⟨tightBudget, node⟩, ⟨1, 4, some ⟨1, 0, 0⟩, ∅⟩, (), { nextUnallocated := 0, sizer := twoBlockSizer }⟩

/-- Both fetches are under way when the second is refused for its size; its first half uses up the budget. -/
def tightActions : List Action :=
  [.work 0, .work 1, .work 1, .work 0, .join 1, .work 1, .work 1, .work 1, .join 1]

/-- `asks_within_budget` for these steps, after the request for the anchor: three are left. -/
theorem asks_within_budget_tight : ∃ s asked, Concurrent.execute (metered smallAnswers) twoWorkers ⟨1, 4⟩
      (fun _ => pure ()) (tightRun ((), [.getBlockByNumber])) twoBlockSizer tightActions = some s ∧
    s.run.shared.node.2 = [.getBlockByNumber, .getLogs, .getLogs, .getLogs] ∧
    s.run.shared.node.2 = .getBlockByNumber :: asked ∧ asked.length ≤ 3 ∧ costOf asked ≤ 99 := by
  have hrun : ((Concurrent.execute (metered smallAnswers) twoWorkers ⟨1, 4⟩ (fun _ => pure ())
      (tightRun ((), [.getBlockByNumber])) twoBlockSizer tightActions).map (·.run.shared.node.2)) =
        some [.getBlockByNumber, .getLogs, .getLogs, .getLogs] := by decide +kernel
  obtain ⟨s, hs, hlog⟩ := Option.map_eq_some_iff.1 hrun
  obtain ⟨b, hbudget, hlimits⟩ : ∃ b, tightBudget = some b ∧
      b.maxRequests = 4 ∧ b.requests = 1 ∧ b.maxCostUnits = 100 ∧ b.costUnits = 1 :=
    ⟨_, rfl, rfl, rfl, rfl, rfl⟩
  obtain ⟨hmaxRequests, hrequests, hmaxCost, hcost⟩ := hlimits
  obtain ⟨_, asked, _, -, hasked, -, hleft, hunits, -⟩ := asks_within_budget smallAnswers twoWorkers ⟨1, 4⟩
    (fun _ => pure ()) twoBlockSizer tightActions hbudget
    (by unfold LimitsFit; rw [hmaxRequests, hmaxCost]; decide) hs
  rw [hmaxRequests, hrequests] at hleft
  rw [hmaxCost, hcost] at hunits
  have hleft := hleft (by decide)
  have hunits := hunits (by decide)
  exact ⟨s, asked, hs, hlog, hasked, by omega, by omega⟩

end Chainweave.Pipeline
