import Chainweave.Cli.Interleave
import Chainweave.Cli.Termination

/-!
# Fetches side by side, one after the other

In `Pipeline` a fetch runs as a whole when it is joined. Here: that is no restriction.

* `Trace`: a task with what it recorded and was answered. `Trace.Ran`: what it did, the
  fetch does as a whole, from any budget with room for it.
* `Serial`: the rounds so far are rounds of `Pipeline`, where the tasks that are out
  have taken nothing yet. `Serial.work`, `Serial.join`: every step keeps that.
* `fetches_serialize`: so however a run ends, one of `Pipeline` ends like it.
-/
namespace Chainweave.Pipeline

open Stateful Chainweave.Chain Chainweave.Backfill Chainweave.Postgres Chainweave.Rpc
  Chainweave.Fetch

variable {σ τ κ : Type}

/-! ## One task -/

/-- A task, what it recorded, and what the node answered it. -/
structure Trace where
  task : Task
  own : List RpcMethod := []
  answers : List Answer := []

/-- What a task did, the fetch does as a whole. Where the budget `b` refused the task, a fetch is refused
from a budget that is spent as far, for the one limit or the other. -/
def Trace.Ran (config : AdaptiveFetchConfig) (b : RpcBudget) (t : Trace) : Prop :=
  (∀ b₀ b₁ script, LimitsFit b₀ → Spent b₀ t.own b₁ →
    exec (fetchRangeWithRetry scripted t.task.range config) ⟨some b₀, t.answers ++ script⟩ =
      exec (t.task.stage.left scripted config t.task.range) ⟨some b₁, script⟩) ∨
  ∃ e, t.task.stage = .finished (.error e) ∧ e.IsRefusal ∧
    ∀ b₀ b₁ more script, LimitsFit b₀ → Spent b₀ t.own b₁ → Spent b more b₁ →
      ∃ e', e'.IsRefusal ∧
        exec (fetchRangeWithRetry scripted t.task.range config) ⟨some b₀, t.answers ++ script⟩ =
          (.error e', ⟨some b₁, script⟩)

section
variable {config : AdaptiveFetchConfig} {b : RpcBudget} {t : Trace}

theorem Trace.Ran.spawn (range : BackfillRange) : Trace.Ran config b ⟨Task.spawn range, [], []⟩ := by
  refine .inl fun b₀ b₁ script hfits hspent => ?_
  rw [hspent.unique (.refl hfits)]
  exact congrArg (exec · _) left_start.symm

theorem Trace.Ran.later {b' : RpcBudget} {more : List RpcMethod} (h : t.Ran config b)
    (hlater : Spent b more b') : t.Ran config b' := by
  cases h with
  | inl hran => exact .inl hran
  | inr hrefused =>
    obtain ⟨e, hstage, hrefusal, hran⟩ := hrefused
    exact .inr ⟨e, hstage, hrefusal, fun b₀ b₁ rest script hfits hspent hrest =>
      hran b₀ b₁ _ script hfits hspent (hlater.trans hrest)⟩

/-- **One step more.** -/
theorem Trace.Ran.step (h : t.Ran config b) {provider : Provider σ} {s s' : Shared σ} {stage : Stage}
    (hb : s.budget = some b) (hfits : LimitsFit b)
    (hstep : t.task.stage.step provider config t.task.range s = (stage, s')) :
    ∃ b' paid answers, s'.budget = some b' ∧ Spent b paid b' ∧
      Trace.Ran config b' ⟨⟨t.task.range, stage⟩, t.own ++ paid, t.answers ++ answers⟩ := by
  have hrest : t.task.stage = stage → s' = s →
      ∃ b' paid answers, s'.budget = some b' ∧ Spent b paid b' ∧
        Trace.Ran config b' ⟨⟨t.task.range, stage⟩, t.own ++ paid, t.answers ++ answers⟩ := by
    intro hstage hsame
    refine ⟨b, [], [], by rw [hsame, hb], .refl hfits, ?_⟩
    rw [← hstage, List.append_nil, List.append_nil]
    exact h
  cases h with
  | inr hrefused =>
    obtain ⟨e, hfinished, -, -⟩ := hrefused
    rw [hfinished] at hstep hrest
    cases hstep
    exact hrest rfl rfl
  | inl hran =>
    cases step_effect provider config t.task.range t.task.stage hb with
    | records stage' b' method step spent pending same =>
      rw [hstep] at step
      cases step
      refine ⟨b', [method], [], rfl, spent, .inl fun b₀ b₁ script hfits₀ hspent => ?_⟩
      obtain ⟨mid, hmid, hlast⟩ := hspent.split
      rw [List.append_nil, hran b₀ mid script hfits₀ hmid, exec_left,
        same script mid b₁ hlast]
    | refused e step refusal used same =>
      rw [hstep] at step
      cases step
      refine ⟨b, [], [], hb, .refl hfits, .inr ⟨_, rfl, refusal, ?_⟩⟩
      intro b₀ b₁ more script hfits₀ hspent hmore
      simp only [List.append_nil] at hspent ⊢
      obtain ⟨e', hrefusal, hsame⟩ := same script b₁ more hmore
      refine ⟨_, hrefusal, ?_⟩
      rw [hran b₀ b₁ script hfits₀ hspent, exec_left, hsame]
      rfl
    | sends stage' node answer step pending unrefused same =>
      rw [hstep] at step
      cases step
      refine ⟨b, [], [answer], hb, .refl hfits, .inl fun b₀ b₁ script hfits₀ hspent => ?_⟩
      simp only [List.append_nil] at hspent
      rw [List.append_assoc, List.singleton_append, hran b₀ b₁ _ hfits₀ hspent, exec_left,
        same script b₁]
    | rests result finished =>
      rw [finished] at hstep hrest
      cases hstep
      exact hrest rfl rfl

end

/-! ## Rounds -/

section
variable (config : AdaptiveFetchConfig) (full : BackfillRange) (commitRange : CommitRange κ IndexedBlock)

/-- Rounds of the sequential run that leave it going. -/
inductive Rounds (start : Run (List Answer) κ) : List Completion → Run (List Answer) κ → Prop
  | none : Rounds start [] start
  | snoc {completions : List Completion} {run next : Run (List Answer) κ} (completion : Completion)
    (rounds : Rounds start completions run) (out : run.window.joinSet.isEmpty = false)
    (round : exec (round scripted config full commitRange completion) run = (.ok (), next)) :
    Rounds start (completions ++ [completion]) next

end

section
variable {provider : Provider σ} {config : AdaptiveFetchConfig} {full : BackfillRange}
  {commitRange : CommitRange κ IndexedBlock}

/-- The loop goes through them. -/
theorem Rounds.loop {start run : Run (List Answer) κ} {completions : List Completion}
    (h : Rounds config full commitRange start completions run) (more : List Completion) :
    exec (loop scripted config full commitRange (completions ++ more)) start =
      exec (loop scripted config full commitRange more) run := by
  induction h generalizing more with
  | none => rfl
  | snoc completion rounds out hround ih =>
    rw [List.append_assoc, List.singleton_append, ih]
    conv => lhs; unfold Pipeline.loop
    rw [exec_bind, ending_out out]
    dsimp only
    rw [exec_bind, hround]

/-- Asking whether the run is over changes nothing. -/
theorem ending_state (run : Run σ κ) :
    (exec (ending : Prog (Run σ κ) PipelineError (Option CommitProgress)) run).2 = run := by
  cases hout : run.window.joinSet.isEmpty with
  | false => rw [ending_out hout]
  | true =>
    obtain ⟨progress, hend⟩ | ⟨e, hend⟩ := ending_over hout
    · rw [hend]
    · rw [hend]

/-- A last round. -/
theorem Rounds.fails {start run run' : Run (List Answer) κ} {completions : List Completion}
    (h : Rounds config full commitRange start completions run)
    (hout : run.window.joinSet.isEmpty = false) {completion : Completion} {e : PipelineError}
    (hround : exec (round scripted config full commitRange completion) run = (.error e, run')) :
    exec (Pipeline.loop scripted config full commitRange (completions ++ [completion])) start =
      (.error e, run') := by
  rw [h.loop]
  unfold Pipeline.loop
  rw [exec_bind, ending_out hout]
  dsimp only
  rw [exec_bind, hround]

/-- A round, from its fetch. -/
theorem exec_round {run : Run σ κ} {task : Nat} {spent : List RpcMethod} {range : BackfillRange}
    {window : Window} {fetched : Fetched} {shared : Shared σ}
    (hjoin : run.window.joinNext task = some (range, window))
    (hfetch : exec (fetchRangeWithRetry provider range config) (run.spend spent).shared = (fetched, shared)) :
    exec (round provider config full commitRange ⟨task, spent, false⟩) run =
      exec (handle full commitRange fetched >>= fun _ =>
        modify (Run.onWindow (Window.fillFetchWindow config.workers full.toBlock)))
        { run with shared, window } := by
  have hjoin' : (run.spend spent).window.joinNext task = some (range, window) := hjoin
  unfold round
  rw [exec_bind, exec_modify]
  dsimp only
  rw [exec_bind, exec_get]
  dsimp only
  rw [hjoin']
  dsimp only
  rw [exec_bind, exec_modify]
  dsimp only
  rw [if_neg Bool.false_ne_true, exec_bind]
  unfold fetchTask
  rw [exec_attempt, exec_zoom]
  dsimp only [Run.onWindow]
  rw [hfetch]
  cases fetched with
  | ok fetched => rfl
  | error e => cases e <;> rfl

/-- A round of a task that panicked. -/
theorem exec_round_panicked {run : Run σ κ} {task : Nat} {range : BackfillRange} {window : Window}
    (hjoin : run.window.joinNext task = some (range, window)) :
    exec (round provider config full commitRange ⟨task, [], true⟩) run =
      (.error .taskPanicked, { run with window }) := by
  have hjoin' : (run.spend []).window.joinNext task = some (range, window) := hjoin
  unfold round
  rw [exec_bind, exec_modify]
  dsimp only
  rw [exec_bind, exec_get]
  dsimp only
  rw [hjoin']
  rfl

/-- What others spent. -/
theorem spend_spent {run : Run σ κ} {a b : RpcBudget} {methods : List RpcMethod} (hfits : LimitsFit a)
    (hbudget : run.shared.budget = some a) (hspent : Spent a methods b) :
    (run.spend methods).shared = { run.shared with budget := some b } := by
  show methods.foldl (fun shared method => (exec (record method 0) shared).2) run.shared = _
  generalize run.shared = shared at hbudget
  induction methods generalizing shared a with
  | nil => rw [hspent.unique (.refl hfits), List.foldl_nil, ← hbudget]
  | cons method methods ih =>
    have hspent : Spent a ([method] ++ methods) b := hspent
    obtain ⟨next, hnext, hrest⟩ := hspent.split
    have hexec : exec (record method 0) shared = (.ok (), { shared with budget := some next }) := by
      simp only [record, exec_mk, hbudget, hnext.record]
    rw [List.foldl_cons, hexec]
    exact ih (hnext.fits hfits) hrest _ rfl

end

/-! ## The window -/

theorem joinNext_joinSet {window window' : Window} {task : Nat} {range : BackfillRange}
    (h : window.joinNext task = some (range, window')) :
    window.joinSet[task % window.joinSet.length]? = some range ∧
      window'.joinSet = window.joinSet.eraseIdx (task % window.joinSet.length) := by
  obtain ⟨r, hr, h⟩ := Option.map_eq_some_iff.1 h
  cases h
  exact ⟨hr, rfl⟩

theorem fill_joinSet {targetBlock room : Nat} (window : Window) :
    window.joinSet <+: (window.fill targetBlock room).joinSet := by
  induction room generalizing window with
  | zero => exact List.prefix_rfl
  | succ room ih =>
    unfold Window.fill
    cases htake : window.takeRange targetBlock with
    | none => exact List.prefix_rfl
    | some taken =>
      obtain ⟨range, taken⟩ := taken
      have hsame : taken.joinSet = window.joinSet := by
        unfold Window.takeRange at htake
        split at htake
        · cases htake
          rfl
        · obtain ⟨r, -, htake⟩ := Option.map_eq_some_iff.1 htake
          cases htake
          rfl
      refine List.IsPrefix.trans ?_ (ih _)
      rw [← hsame]
      exact List.prefix_append _ _

section
variable {full : BackfillRange} {commitRange : CommitRange κ IndexedBlock}

/-- What a task brought leaves the other tasks, or none. -/
theorem handle_joinSet {fetched : Fetched} {run run' : Run σ κ} {u : Unit}
    (h : exec (handle full commitRange fetched) run = (.ok u, run')) :
    run'.window.joinSet = run.window.joinSet ∨ run'.window.joinSet = [] := by
  cases fetched with
  | error e =>
    cases e with
    | providerLimit range source =>
      cases h
      exact .inl rfl
    | _ => cases h
  | ok fetched =>
    have hpush : wp (pushRange full commitRange fetched)
        (fun _ run' => run'.window.joinSet = run.window.joinSet ∨ run'.window.joinSet = [])
        (fun _ _ => True) run := by
      unfold pushRange
      rw [wp_bind, wp_modify, wp_bind, wp_get, wp_bind]
      have hattempt : ∀ start : Run σ κ, wp (pushFetched commitRange fetched)
          (fun _ run' => run'.window = start.window) (fun _ _ => False) start := fun _ => rfl
      refine wp_mono (hattempt _) (fun r run' hwindow => ?_) fun _ _ hfalse => hfalse.elim
      have hjoinSet : run'.window.joinSet = run.window.joinSet := by
        rw [hwindow]
        rfl
      split
      · exact .inl hjoinSet
      · exact .inr rfl
      · trivial
    exact wp_ok hpush h

end

/-! ## All tasks -/

/-- The result of the run, and that of a sequential one: the budget may have refused one for its requests
and the other for its units. -/
inductive Agrees : Except PipelineError CommitProgress → Except PipelineError (Option CommitProgress) → Prop
  | ok (progress : CommitProgress) : Agrees (.ok progress) (.ok (some progress))
  | error (e : PipelineError) : Agrees (.error e) (.error e)
  | refused {e e' : FetchRangeError} (refusal : e.IsRefusal) (refusal' : e'.IsRefusal) :
    Agrees (.error (.fetch e)) (.error (.fetch e'))

/-- What all tasks recorded. -/
def ownOf (traces : List Trace) : List RpcMethod := traces.flatMap (·.own)

@[simp] theorem ownOf_append (traces more : List Trace) :
    ownOf (traces ++ more) = ownOf traces ++ ownOf more :=
  List.flatMap_append ..

@[simp] theorem ownOf_cons (t : Trace) (traces : List Trace) : ownOf (t :: traces) = t.own ++ ownOf traces :=
  List.flatMap_cons ..

/-- A task that is spawned. -/
def Trace.spawn (range : BackfillRange) : Trace := ⟨Task.spawn range, [], []⟩

@[simp] theorem ownOf_spawn (ranges : List BackfillRange) : ownOf (ranges.map Trace.spawn) = [] := by
  simp [ownOf, Trace.spawn]

section
variable (config : AdaptiveFetchConfig) (full : BackfillRange) (commitRange : CommitRange κ IndexedBlock)
  (start : List Answer → Run (List Answer) κ)

/-- **The rounds so far are sequential.** They left the budget `b₀`; the tasks that are out recorded the
rest, but for what was lost with tasks that stopped. -/
structure Serial (s : Concurrent σ κ) (completions : List Completion) (answers : List Answer)
    (traces : List Trace) (lost : List RpcMethod) (b₀ b : RpcBudget) : Prop where
  budget : s.run.shared.budget = some b
  fits : LimitsFit b₀
  spent : Spent b₀ (ownOf traces ++ lost) b
  tasks : s.tasks = traces.map (·.task)
  ran : ∀ t ∈ traces, t.Ran config b
  joinSet : s.run.window.joinSet = s.tasks.map (·.range)
  rounds : ∀ script, ∃ run', Rounds config full commitRange (start (answers ++ script)) completions run' ∧
    Tied s.run.shared ⟨some b₀, script⟩ s.run run'

/-- A sequential run that came as far. -/
def Serialized (s : Concurrent σ κ) : Prop :=
  ∃ completions script r run', exec (loop scripted config full commitRange completions) (start script) =
      (r, run') ∧ Tied s.run.shared run'.shared s.run run' ∧
    ∀ result, s.result = some result → Agrees result r

end

section
variable {config : AdaptiveFetchConfig} {full : BackfillRange} {commitRange : CommitRange κ IndexedBlock}
  {start : List Answer → Run (List Answer) κ} {s s' : Concurrent σ κ} {completions : List Completion}
  {answers : List Answer} {traces : List Trace} {lost : List RpcMethod} {b₀ b : RpcBudget}

/-- The trace of a task. -/
theorem traces_split {before after : List Task} {task : Task}
    (h : before ++ task :: after = traces.map (·.task)) :
    ∃ low t high, traces = low ++ t :: high ∧ t.task = task ∧ low.map (·.task) = before ∧
      high.map (·.task) = after := by
  obtain ⟨low, rest, htraces, hlow, hrest⟩ := List.map_eq_append_iff.1 h.symm
  obtain ⟨t, high, hcons, htask, hhigh⟩ := List.map_eq_cons_iff.1 hrest
  exact ⟨low, t, high, by rw [htraces, hcons], htask, hlow, hhigh⟩

/-- What the task in the middle recorded comes first or last. -/
theorem own_middle {low high : List Trace} {t : Trace} :
    (ownOf (low ++ t :: high) ++ lost).Perm (t.own ++ (ownOf (low ++ high) ++ lost)) := by
  refine List.perm_iff_count.2 fun method => ?_
  simp only [ownOf_append, ownOf_cons, List.count_append]
  omega

/-- A run that goes on came as far as a sequential one. -/
theorem Serial.serialized (h : Serial config full commitRange start s completions answers traces lost b₀ b)
    (hresult : s.result = none) : Serialized config full commitRange start s := by
  obtain ⟨run', hrounds, htied⟩ := h.rounds []
  rw [List.append_nil] at hrounds
  have hloop := hrounds.loop []
  rw [List.append_nil] at hloop
  refine ⟨completions, answers, _, run', hloop.trans (Prod.ext rfl (ending_state run')), ?_,
    fun result heq => ?_⟩
  · rw [htied.shared']
    exact htied
  · rw [hresult] at heq
    cases heq

/-- **A task takes a step.** -/
theorem Serial.work {provider : Provider σ} {i : Nat}
    (h : Serial config full commitRange start s completions answers traces lost b₀ b)
    (hs : s.step provider config full commitRange (.work i) = some s') :
    ∃ traces' b', Serial config full commitRange start s' completions answers traces' lost b₀ b' := by
  obtain ⟨before, task, after, stage, shared, htasks, hstep, rfl⟩ := step_work hs
  obtain ⟨low, t, high, rfl, rfl, rfl, rfl⟩ := traces_split (htasks.symm.trans h.tasks)
  obtain ⟨b', paid, answered, hb', hpaid, hran⟩ :=
    (h.ran t (by simp)).step h.budget (h.spent.fits h.fits) hstep
  refine ⟨low ++ ⟨⟨t.task.range, stage⟩, t.own ++ paid, t.answers ++ answered⟩ :: high, b', hb', h.fits,
    (h.spent.trans hpaid).perm ?_, ?_, fun other hmem => ?_, ?_, fun script => ?_⟩
  · refine List.perm_iff_count.2 fun method => ?_
    simp only [ownOf_append, ownOf_cons, List.count_append]
    omega
  · simp
  · rw [List.mem_append, List.mem_cons] at hmem
    obtain hmem | rfl | hmem := hmem
    · exact (h.ran other (by simp [hmem])).later hpaid
    · exact hran
    · exact (h.ran other (by simp [hmem])).later hpaid
  · rw [h.joinSet, htasks]
    simp
  · obtain ⟨run', hrounds, htied⟩ := h.rounds script
    exact ⟨run', hrounds, htied.coordinator, htied.sink, htied.window, rfl, htied.shared'⟩

/-- What is joined is out. -/
theorem Serial.out (h : Serial config full commitRange start s completions answers traces lost b₀ b)
    {before after : List Task} {task : Task} (htasks : s.tasks = before ++ task :: after)
    {out : BackfillRange}
    {window : Window} (hjoin : s.run.window.joinNext before.length = some (out, window)) :
    out = task.range ∧ window.joinSet = (before ++ after).map (·.range) ∧
      s.run.window.joinSet.isEmpty = false := by
  have hset : s.run.window.joinSet = before.map (·.range) ++ task.range :: after.map (·.range) := by
    rw [h.joinSet, htasks, List.map_append, List.map_cons]
  obtain ⟨hget, hrest⟩ := joinNext_joinSet hjoin
  have hlt : before.length < s.run.window.joinSet.length := by
    rw [hset, List.length_append, List.length_map, List.length_cons]
    omega
  rw [Nat.mod_eq_of_lt hlt] at hget hrest
  refine ⟨?_, ?_, ?_⟩
  · rw [hset, List.getElem?_append_right (by simp)] at hget
    simpa using hget.symm
  · rw [hrest, hset, List.eraseIdx_append_of_length_le (by simp)]
    simp
  · rw [hset]
    simp

/-- The window is filled again. -/
theorem Serial.refilled {run : Run σ κ} {rest : List Task} (kept : List Trace) (lost : List RpcMethod)
    (hkept : (if run.window.joinSet.isEmpty then [] else rest) = kept.map (·.task))
    (hset : run.window.joinSet = (kept.map (·.task)).map (·.range)) (hbudget : run.shared.budget = some b)
    (hfits : LimitsFit b₀) (hspent : Spent b₀ (ownOf kept ++ lost) b) (hran : ∀ t ∈ kept, t.Ran config b)
    (hrounds : ∀ script, ∃ run', Rounds config full commitRange (start (answers ++ script)) completions run' ∧
      Tied run.shared ⟨some b₀, script⟩
        (run.onWindow (Window.fillFetchWindow config.workers full.toBlock)) run') :
    ∃ traces', Serial config full commitRange start (s.refill config full run rest) completions answers traces'
      lost b₀ b := by
  obtain ⟨spawned, hspawned⟩ : run.window.joinSet <+:
      (run.window.fillFetchWindow config.workers full.toBlock).joinSet := fill_joinSet _
  have hdrop : ((run.window.fillFetchWindow config.workers full.toBlock).joinSet.drop
      (kept.map (·.task)).length) = spawned := by
    rw [← hspawned, List.drop_append_of_le_length (by simp [hset])]
    simp [hset]
  have htasks : (s.refill config full run rest).tasks = (kept ++ spawned.map Trace.spawn).map (·.task) := by
    simp only [Concurrent.refill, hkept]
    show kept.map (·.task) ++ ((run.window.fillFetchWindow config.workers full.toBlock).joinSet.drop
      (kept.map (·.task)).length).map Task.spawn = _
    rw [hdrop, List.map_append, List.map_map]
    rfl
  refine ⟨kept ++ spawned.map Trace.spawn, hbudget, hfits, ?_, htasks, fun t hmem => ?_, ?_, hrounds⟩
  · rwa [ownOf_append, ownOf_spawn, List.append_nil]
  · cases List.mem_append.1 hmem with
    | inl hold => exact hran t hold
    | inr hnew =>
      obtain ⟨range, -, rfl⟩ := List.mem_map.1 hnew
      exact .spawn range
  · rw [htasks, List.map_append, List.map_append, ← hset]
    refine hspawned.symm.trans ?_
    simp [Function.comp_def, Trace.spawn, Task.spawn]

/-- The sequential run joins the same task, and fetches its range as a whole. -/
theorem Serial.fetches {low high : List Trace} {t : Trace} {out : BackfillRange} {fetched : Fetched}
    {window : Window}
    (h : Serial config full commitRange start s completions answers (low ++ t :: high) lost b₀ b)
    (htask : t.task = ⟨out, .finished fetched⟩)
    (hran : ∀ b₀ b₁ script, LimitsFit b₀ → Spent b₀ t.own b₁ →
      exec (fetchRangeWithRetry scripted t.task.range config) ⟨some b₀, t.answers ++ script⟩ =
        exec (t.task.stage.left scripted config t.task.range) ⟨some b₁, script⟩)
    {i : Nat} (hjoin : s.run.window.joinNext i = some (out, window)) :
    ∃ b₁, LimitsFit b₁ ∧ Spent b₁ (ownOf (low ++ high) ++ lost) b ∧
      ∀ script, ∃ run' next, Rounds config full commitRange (start ((answers ++ t.answers) ++ script))
          completions run' ∧ run'.window = s.run.window ∧
        exec (round scripted config full commitRange ⟨i, [], false⟩) run' =
          exec (handle full commitRange fetched >>= fun _ =>
            modify (Run.onWindow (Window.fillFetchWindow config.workers full.toBlock))) next ∧
        Tied s.run.shared ⟨some b₁, script⟩ { s.run with window } next := by
  obtain ⟨b₁, hown, hothers⟩ := (h.spent.perm own_middle).split
  refine ⟨b₁, hown.fits h.fits, hothers, fun script => ?_⟩
  obtain ⟨run', hrounds, htied⟩ := h.rounds (t.answers ++ script)
  have hfetch := hran b₀ b₁ script h.fits hown
  rw [htask] at hfetch
  have hjoin' : run'.window.joinNext i = some (out, window) := by
    rw [htied.window]
    exact hjoin
  have hfetch' : exec (fetchRangeWithRetry scripted out config) (run'.spend []).shared =
      (fetched, ⟨some b₁, script⟩) := by
    show exec _ run'.shared = _
    rw [htied.shared', hfetch]
    exact exec_lift _ _
  refine ⟨run', { run' with shared := ⟨some b₁, script⟩, window }, ?_, htied.window,
    exec_round hjoin' hfetch', htied.coordinator, htied.sink, rfl, rfl, rfl⟩
  rwa [List.append_assoc]

/-- Both handle what it brought alike. -/
theorem handle_same {shared : Shared σ} {shared' : Shared τ} {run run' : Run σ κ} {next : Run τ κ}
    {fetched : Fetched} {r : Except PipelineError Unit}
    (hhandle : exec (handle full commitRange fetched) run = (r, run'))
    (htied : Tied shared shared' run next) :
    ∃ next', exec (handle full commitRange fetched) next = (r, next') ∧ Tied shared shared' run' next' := by
  obtain ⟨houtcome, hnext⟩ := handle_tied full commitRange fetched run next htied
  rw [hhandle] at houtcome hnext
  exact ⟨_, Prod.ext houtcome rfl, hnext⟩

/-- A refusal ends the run. -/
theorem handle_refusal {e : FetchRangeError} (h : e.IsRefusal) (run : Run σ κ) :
    exec (handle full commitRange (.error e)) run = (.error (.fetch e), run) := by
  cases e with
  | backfill error => rfl
  | _ => exact h.elim

/-- **A task is joined**, and the run goes on. -/
theorem Serial.joined_ok {low high : List Trace} {t : Trace} {out : BackfillRange} {fetched : Fetched}
    {window : Window} {run : Run σ κ} {u : Unit}
    (h : Serial config full commitRange start s completions answers (low ++ t :: high) lost b₀ b)
    (htask : t.task = ⟨out, .finished fetched⟩)
    (hran : ∀ b₀ b₁ script, LimitsFit b₀ → Spent b₀ t.own b₁ →
      exec (fetchRangeWithRetry scripted t.task.range config) ⟨some b₀, t.answers ++ script⟩ =
        exec (t.task.stage.left scripted config t.task.range) ⟨some b₁, script⟩)
    {i : Nat} (hjoin : s.run.window.joinNext i = some (out, window))
    (hwindow : window.joinSet = ((low ++ high).map (·.task)).map (·.range))
    (hbusy : s.run.window.joinSet.isEmpty = false)
    (hhandle : exec (handle full commitRange fetched) { s.run with window } = (.ok u, run)) :
    ∃ completions answers traces lost b₀, Serial config full commitRange start
      (s.refill config full run ((low ++ high).map (·.task))) completions answers traces lost b₀ b := by
  obtain ⟨b₁, hfits, hothers, hfetches⟩ := h.fetches htask hran hjoin
  have hshared : run.shared = s.run.shared := by
    have hkeeps := handle_shared full commitRange fetched { s.run with window }
    rwa [hhandle] at hkeeps
  have hrounds : ∀ script, ∃ run', Rounds config full commitRange (start ((answers ++ t.answers) ++ script))
      (completions ++ [⟨i, [], false⟩]) run' ∧
      Tied run.shared ⟨some b₁, script⟩
        (run.onWindow (Window.fillFetchWindow config.workers full.toBlock)) run' := by
    intro script
    obtain ⟨run', next, hrounds, hsame, hexec, htied⟩ := hfetches script
    obtain ⟨next', hnext, htied'⟩ := handle_same hhandle htied
    rw [exec_bind, hnext] at hexec
    refine ⟨_, .snoc _ hrounds (hsame ▸ hbusy) hexec, ?_⟩
    rw [hshared]
    exact htied'.onWindow _
  have hbudget : run.shared.budget = some b := by rw [hshared, h.budget]
  cases hempty : run.window.joinSet.isEmpty with
  | true =>
    have hnil := List.isEmpty_iff.1 hempty
    have hkept : (if run.window.joinSet.isEmpty then [] else (low ++ high).map (·.task)) =
        ([] : List Trace).map (·.task) := if_pos hempty
    obtain ⟨traces, hserial⟩ := Serial.refilled [] (ownOf (low ++ high) ++ lost) hkept hnil hbudget hfits
      hothers (fun _ hmem => by cases hmem) hrounds
    exact ⟨_, _, traces, _, _, hserial⟩
  | false =>
    have hset : run.window.joinSet = ((low ++ high).map (·.task)).map (·.range) := by
      obtain hkept | hnil := handle_joinSet hhandle
      · exact hkept.trans hwindow
      · rw [hnil] at hempty
        cases hempty
    obtain ⟨traces, hserial⟩ := Serial.refilled (low ++ high) lost
      (if_neg (by rw [hempty]; exact Bool.false_ne_true)) hset hbudget hfits hothers
      (fun other hmem => h.ran other (by
        simp only [List.mem_append, List.mem_cons] at hmem ⊢
        tauto)) hrounds
    exact ⟨_, _, traces, _, _, hserial⟩

/-- **A task is joined**, and the run fails. -/
theorem Serial.joined_error {low high : List Trace} {t : Trace} {out : BackfillRange} {fetched : Fetched}
    {window : Window} {run : Run σ κ} {e : PipelineError} {rest : List Task}
    (h : Serial config full commitRange start s completions answers (low ++ t :: high) lost b₀ b)
    (htask : t.task = ⟨out, .finished fetched⟩)
    (hran : ∀ b₀ b₁ script, LimitsFit b₀ → Spent b₀ t.own b₁ →
      exec (fetchRangeWithRetry scripted t.task.range config) ⟨some b₀, t.answers ++ script⟩ =
        exec (t.task.stage.left scripted config t.task.range) ⟨some b₁, script⟩)
    {i : Nat} (hjoin : s.run.window.joinNext i = some (out, window))
    (hbusy : s.run.window.joinSet.isEmpty = false)
    (hhandle : exec (handle full commitRange fetched) { s.run with window } = (.error e, run)) :
    Serialized config full commitRange start (s.stop run rest (.error e)) := by
  obtain ⟨b₁, hfits, hothers, hfetches⟩ := h.fetches htask hran hjoin
  obtain ⟨run', next, hrounds, hsame, hexec, htied⟩ := hfetches []
  obtain ⟨next', hnext, htied'⟩ := handle_same hhandle htied
  rw [exec_bind, hnext] at hexec
  refine ⟨_, _, _, next', hrounds.fails (hsame ▸ hbusy) hexec, ?_, fun result heq => ?_⟩
  · exact ⟨htied'.coordinator, htied'.sink, htied'.window, rfl, rfl⟩
  · cases heq
    exact .error e

/-- **A task is joined** that the budget refused. By now others may have recorded more. -/
theorem Serial.joined_refused {low high : List Trace} {t : Trace} {out : BackfillRange} {e : FetchRangeError}
    {window : Window} {rest : List Task}
    (h : Serial config full commitRange start s completions answers (low ++ t :: high) lost b₀ b)
    (htask : t.task.range = out) (hrefusal : e.IsRefusal)
    (hran : ∀ b₀ b₁ more script, LimitsFit b₀ → Spent b₀ t.own b₁ → Spent b more b₁ →
      ∃ e', e'.IsRefusal ∧
        exec (fetchRangeWithRetry scripted t.task.range config) ⟨some b₀, t.answers ++ script⟩ =
          (.error e', ⟨some b₁, script⟩))
    {i : Nat} (hjoin : s.run.window.joinNext i = some (out, window))
    (hbusy : s.run.window.joinSet.isEmpty = false) :
    Serialized config full commitRange start (s.stop { s.run with window } rest (.error (.fetch e))) := by
  obtain ⟨b₁, hothers, hown⟩ := ((h.spent.perm own_middle).perm List.perm_append_comm).split
  obtain ⟨run', hrounds, htied⟩ := h.rounds (t.answers ++ [])
  obtain ⟨e', hrefusal', hfetch⟩ := hran b₁ b [] [] (hothers.fits h.fits) hown
    (.refl (h.spent.fits h.fits))
  have hjoin' : run'.window.joinNext i = some (out, window) := by
    rw [htied.window]
    exact hjoin
  have hfetch' : exec (fetchRangeWithRetry scripted out config)
      (run'.spend (ownOf (low ++ high) ++ lost)).shared = (.error e', ⟨some b, []⟩) := by
    rw [spend_spent h.fits (by rw [htied.shared']) hothers, htied.shared', ← htask]
    exact hfetch
  have hexec : exec (round scripted config full commitRange ⟨i, ownOf (low ++ high) ++ lost, false⟩) run' =
      _ := exec_round hjoin' hfetch'
  rw [exec_bind, handle_refusal hrefusal'] at hexec
  refine ⟨_, _, _, _, hrounds.fails (htied.window ▸ hbusy) hexec, ?_, fun result heq => ?_⟩
  · exact ⟨htied.coordinator, htied.sink, rfl, rfl, rfl⟩
  · cases heq
    exact .refused hrefusal hrefusal'

variable {provider : Provider σ} {i : Nat}

/-- A run that goes on, or its end. -/
def Follows (config : AdaptiveFetchConfig) (full : BackfillRange) (commitRange : CommitRange κ IndexedBlock)
    (start : List Answer → Run (List Answer) κ) (s : Concurrent σ κ) : Prop :=
  Serialized config full commitRange start s ∧
    (s.result = none → ∃ completions answers traces lost b₀ b,
      Serial config full commitRange start s completions answers traces lost b₀ b)

theorem Serial.follows (h : Serial config full commitRange start s completions answers traces lost b₀ b)
    (hresult : s.result = none) : Follows config full commitRange start s :=
  ⟨h.serialized hresult, fun _ => ⟨_, _, _, _, _, _, h⟩⟩

theorem Serialized.follows {result : Except PipelineError CommitProgress}
    (h : Serialized config full commitRange start s) (hresult : s.result = some result) :
    Follows config full commitRange start s := by
  refine ⟨h, fun hnone => ?_⟩
  rw [hresult] at hnone
  cases hnone

theorem Serial.join (h : Serial config full commitRange start s completions answers traces lost b₀ b)
    (hs : s.step provider config full commitRange (.join i) = some s') :
    Follows config full commitRange start s' := by
  obtain ⟨before, range, fetched, after, out, window, hresult, htasks, rfl, herase, hjoin, rfl⟩ :=
    step_join hs
  obtain ⟨low, t, high, rfl, htask, rfl, rfl⟩ := traces_split (htasks.symm.trans h.tasks)
  obtain ⟨rfl, hwindow, hbusy⟩ := h.out htasks hjoin
  rw [← List.map_append] at herase hwindow
  unfold Concurrent.joined
  rw [herase]
  cases h.ran t (by simp) with
  | inl hran =>
    split
    · rename_i u run hhandle
      obtain ⟨_, _, _, _, _, hserial⟩ := h.joined_ok htask hran hjoin hwindow hbusy hhandle
      exact hserial.follows hresult
    · rename_i e run hhandle
      exact (h.joined_error htask hran hjoin hbusy hhandle).follows rfl
  | inr hrefused =>
    obtain ⟨e, hstage, hrefusal, hran⟩ := hrefused
    rw [htask] at hstage
    cases hstage
    rw [handle_refusal hrefusal]
    exact (h.joined_refused (by rw [htask]) hrefusal hran hjoin hbusy).follows rfl

theorem Serial.panic (h : Serial config full commitRange start s completions answers traces lost b₀ b)
    (hs : s.step provider config full commitRange (.panic i) = some s') :
    Follows config full commitRange start s' := by
  obtain ⟨before, task, after, out, window, hresult, htasks, rfl, herase, hjoin, rfl⟩ := step_panic hs
  obtain ⟨-, -, hbusy⟩ := h.out htasks hjoin
  obtain ⟨run', hrounds, htied⟩ := h.rounds []
  have hexec : exec (round scripted config full commitRange ⟨before.length, [], true⟩) run' = _ :=
    exec_round_panicked (by rw [htied.window]; exact hjoin)
  refine Serialized.follows
    ⟨_, _, _, _, hrounds.fails (htied.window ▸ hbusy) hexec, ?_, fun result heq => ?_⟩ rfl
  · exact ⟨htied.coordinator, htied.sink, rfl, rfl, rfl⟩
  · cases heq
    exact .error _

theorem Serial.finish (h : Serial config full commitRange start s completions answers traces lost b₀ b)
    (hs : s.step provider config full commitRange .finish = some s') :
    Follows config full commitRange start s' := by
  simp only [Concurrent.step] at hs
  split at hs
  · rename_i hover
    cases hs
    obtain ⟨run', hrounds, htied⟩ := h.rounds []
    have hloop := hrounds.loop []
    rw [List.append_nil] at hloop
    have hending : exec (ending : Prog (Run (List Answer) κ) PipelineError (Option CommitProgress)) run' =
        (if s.run.coordinator.isComplete then .ok (some s.run.window.progress)
          else .error (.incomplete s.run.coordinator.nextHeight), run') := by
      unfold ending
      rw [exec_bind, exec_get]
      dsimp only
      rw [htied.window, if_pos hover.2, htied.coordinator]
      split <;> rfl
    refine Serialized.follows ⟨_, _, _, run', hloop.trans hending, ?_, fun result heq => ?_⟩ rfl
    · exact ⟨htied.coordinator, htied.sink, htied.window, rfl, rfl⟩
    · cases heq
      split
      · exact .ok _
      · exact .error _
  · cases hs

/-- **Every step keeps it.** -/
theorem Follows.step (h : Follows config full commitRange start s) {action : Action}
    (hs : s.step provider config full commitRange action = some s') :
    Follows config full commitRange start s' := by
  cases hresult : s.result with
  | none =>
    obtain ⟨completions, answers, traces, lost, b₀, b, hserial⟩ := h.2 hresult
    cases action with
    | work i =>
      obtain ⟨before, task, after, stage, shared, -, -, heq⟩ := step_work hs
      obtain ⟨traces', b', hserial'⟩ := hserial.work hs
      exact hserial'.follows (by rw [heq, hresult])
    | join i => exact hserial.join hs
    | panic i => exact hserial.panic hs
    | finish => exact hserial.finish hs
  | some result =>
    cases action with
    | work i =>
      obtain ⟨before, task, after, stage, shared, -, -, rfl⟩ := step_work hs
      obtain ⟨completions, script, r, run', hexec, htied, hagrees⟩ := h.1
      exact Serialized.follows ⟨completions, script, r, run', hexec,
        ⟨htied.coordinator, htied.sink, htied.window, rfl, rfl⟩, hagrees⟩ hresult
    | join i =>
      obtain ⟨_, _, _, _, _, _, hnone, -⟩ := step_join hs
      rw [hresult] at hnone
      cases hnone
    | panic i =>
      obtain ⟨_, _, _, _, _, hnone, -⟩ := step_panic hs
      rw [hresult] at hnone
      cases hnone
    | finish =>
      simp only [Concurrent.step, hresult] at hs
      cases hs

end

/-- **Fetches side by side serialize.** From any state of a budget that is not poisoned, however the
fetches of a run take their steps, and wherever it is: there is a run of `Pipeline`, of fetches that run
as a whole when they are joined, on a node that gives some answers, that came as far. It has the same
coordinator, sink and window; and once the one run is over, so is the other, with the same result. Only,
where the budget ends the run, it can be the other of its two limits. -/
theorem fetches_serialize (provider : Provider σ) (config : AdaptiveFetchConfig) (full : BackfillRange)
    (commitRange : CommitRange κ IndexedBlock) (sizer : LogRangeSizer) (actions : List Action)
    {run : Run σ κ} {budget : RpcBudget} (hbudget : run.shared.budget = some budget)
    (hfits : LimitsFit budget) {s : Concurrent σ κ}
    (hrun : Concurrent.execute provider config full commitRange run sizer actions = some s) :
    ∃ completions script r run',
      exec (fetchAndCommitRanges scripted config full commitRange sizer completions)
        ⟨⟨some budget, script⟩, run.coordinator, run.sink, run.window⟩ = (r, run') ∧
      run'.coordinator = s.run.coordinator ∧ run'.sink = s.run.sink ∧ run'.window = s.run.window ∧
      ∀ result, s.result = some result → Agrees result r := by
  have hserial : Serial config full commitRange
      (fun script => ⟨⟨some budget, script⟩, run.coordinator, run.sink,
        Window.start config.workers full sizer⟩) (Concurrent.start config full run sizer) [] []
      ((Window.start config.workers full sizer).joinSet.map Trace.spawn) [] budget budget := by
    refine ⟨hbudget, hfits, ?_, ?_, fun t hmem => ?_, ?_, fun script => ?_⟩
    · rw [ownOf_spawn]
      exact .refl hfits
    · rw [List.map_map]
      rfl
    · obtain ⟨range, -, rfl⟩ := List.mem_map.1 hmem
      exact .spawn range
    · simp [Concurrent.start, Run.onWindow, Function.comp_def, Task.spawn]
    · exact ⟨_, .none, rfl, rfl, rfl, rfl, rfl⟩
  have hstart := hserial.follows rfl
  obtain ⟨⟨completions, script, r, run', hexec, htied, hagrees⟩, -⟩ :=
    Run.keeps (fun _ _ _ h hs => Follows.step h hs) hstart hrun
  refine ⟨completions, script, r, run', ?_, htied.coordinator, htied.sink, htied.window, hagrees⟩
  unfold fetchAndCommitRanges
  rw [exec_bind, exec_modify]
  exact hexec

/-- `fetches_serialize` for a run that the budget ends. -/
theorem fetches_serialize_tight : ∃ s e completions script r run',
    Concurrent.execute smallAnswers twoWorkers ⟨1, 4⟩ (fun _ => pure ()) (tightRun ()) twoBlockSizer
      tightActions = some s ∧ s.result = some (.error e) ∧
    exec (fetchAndCommitRanges scripted twoWorkers ⟨1, 4⟩ (fun _ => pure ()) twoBlockSizer completions)
      (tightRun script) = (r, run') ∧ run'.window = s.run.window ∧ Agrees (.error e) r := by
  have hended : ((Concurrent.execute smallAnswers twoWorkers ⟨1, 4⟩ (fun _ => pure ()) (tightRun ())
      twoBlockSizer tightActions).bind (·.result)) =
        some (.error (.fetch (.backfill (.requestBudgetExceeded 4)))) := by decide +kernel
  obtain ⟨s, hs, hresult⟩ := Option.bind_eq_some_iff.1 hended
  obtain ⟨b, hbudget, hfits⟩ : ∃ b, tightBudget = some b ∧ LimitsFit b := ⟨_, rfl, by decide, by decide⟩
  obtain ⟨completions, script, r, run', hexec, -, -, hwindow, hagrees⟩ := fetches_serialize smallAnswers
    twoWorkers ⟨1, 4⟩ (fun _ => pure ()) twoBlockSizer tightActions hbudget hfits hs
  rw [← hbudget] at hexec
  exact ⟨s, _, completions, script, r, run', hs, hresult, hexec, hwindow, hagrees _ hresult⟩

end Chainweave.Pipeline
