import Chainweave.Cli.Partition

/-!
# Every backfill ends

Refused ranges and invalidated suffixes go back into the queue, so no height is
gained. What runs out is the request budget: a task asks it before it does anything
else.

* `Spends`: what a task takes from the budget. `fetchRange_spends`: at least one
  request, unless its error ends the run.
* `round_spends`: so does a round that leaves the run going.
* `backfill_ends`: so the requests left bound the rounds.
-/
namespace Chainweave.Fetch

open Stateful Chainweave.Chain Chainweave.Backfill Chainweave.Postgres Chainweave.Rpc

variable {σ α : Type}

/-! ## What a task spends -/

/-- The requests left; of a poisoned budget, none. -/
def requestsLeft (shared : Shared σ) : Nat :=
  shared.budget.elim 0 fun budget => budget.maxRequests - budget.requests

/-- The budget is below the number at which `saturating_add` stops counting. -/
def Counts (shared : Shared σ) : Prop :=
  ∀ budget, shared.budget = some budget → budget.maxRequests < u64Max

/-- The error after which the range is split, and the run goes on. -/
def FetchRangeError.IsLimit : FetchRangeError → Prop
  | .providerLimit _ _ => True
  | _ => False

/-- It takes at least `k` requests, unless its error ends the run, and gives none back. -/
def Spends (k : Nat) (x : Prog (Shared σ) FetchRangeError α) : Prop :=
  ∀ s, Counts s → wp x (fun _ s' => Counts s' ∧ requestsLeft s' + k ≤ requestsLeft s)
    (fun e s' => Counts s' ∧ requestsLeft s' ≤ requestsLeft s ∧
      (e.IsLimit → requestsLeft s' + k ≤ requestsLeft s)) s

section
variable {k : Nat} {range : BackfillRange} {phase : String} {policy : RetryPolicy}

/-- An error that ends the run spends nothing. -/
theorem Spends.throw {e : FetchRangeError} (h : ¬ e.IsLimit) :
    Spends k (throw e : Prog (Shared σ) FetchRangeError α) :=
  fun _ hs => ⟨hs, Nat.le_refl _, fun hl => absurd hl h⟩

/-- **One request of the budget.** It is taken, or its refusal ends the run. -/
theorem record_spends (method : RpcMethod) (costUnits : Nat) :
    Spends 1 (record method costUnits : Prog (Shared σ) FetchRangeError Unit) := by
  intro s hs
  cases hb : s.budget with
  | none =>
    refine wp_of_eq (r := .error .budgetPoisoned) (t := s) ?_ (by simp) ?_
    · simp only [record, exec_mk, hb]
    · intro e he
      cases he
      exact ⟨hs, Nat.le_refl _, fun hl => hl.elim⟩
  | some budget =>
    cases hrecord : budget.record method costUnits with
    | ok next =>
      refine wp_of_eq (r := .ok ()) (t := { s with budget := some next }) ?_ (fun _ _ => ?_) (by simp)
      · simp only [record, exec_mk, hb, hrecord]
      have hmax := hs budget hb
      obtain ⟨hmaxRequests, -, hrequests, -⟩ := RpcBudget.record_ok hrecord
      refine ⟨fun b h => ?_, ?_⟩
      · cases h
        rw [hmaxRequests]
        exact hmax
      · show next.maxRequests - next.requests + 1 ≤ requestsLeft s
        have hleft : requestsLeft s = budget.maxRequests - budget.requests := by
          unfold requestsLeft
          rw [hb]
          rfl
        have hle := next.requests_le
        unfold satAdd at hrequests
        omega
    | error e =>
      refine wp_of_eq (r := .error (.backfill e)) (t := s) ?_ (by simp) ?_
      · simp only [record, exec_mk, hb, hrecord]
      · intro e he
        cases he
        exact ⟨hs, Nat.le_refl _, fun hl => hl.elim⟩

/-- What is spent first, and then at least nothing more. -/
theorem Spends.bind {β : Type} {x : Prog (Shared σ) FetchRangeError α}
    {f : α → Prog (Shared σ) FetchRangeError β} (hx : Spends k x) (hf : ∀ a, Spends 0 (f a)) :
    Spends k (x >>= f) := by
  intro s hs
  rw [wp_bind]
  refine wp_mono (hx s hs) (fun a s₁ h₁ => ?_) fun _ _ h => h
  refine wp_mono (hf a s₁ h₁.1) (fun _ s₂ h₂ => ⟨h₂.1, ?_⟩) fun _ s₂ h₂ => ⟨h₂.1, ?_, fun _ => ?_⟩
  · omega
  · omega
  · omega

theorem Spends.mono {j : Nat} {x : Prog (Shared σ) FetchRangeError α} (h : Spends k x)
    (hle : j ≤ k) : Spends j x := by
  intro s hs
  refine wp_mono (h s hs) (fun _ s' h' => ⟨h'.1, ?_⟩) fun _ s' h' => ⟨h'.1, h'.2.1, fun hl => ?_⟩
  · omega
  · have := h'.2.2 hl
    omega

theorem spends_pure (a : α) : Spends 0 (pure a : Prog (Shared σ) FetchRangeError α) :=
  fun _ hs => ⟨hs, Nat.le_refl _⟩

theorem spends_lift (r : Except FetchRangeError α) :
    Spends 0 (lift r : Prog (Shared σ) FetchRangeError α) := by
  intro s hs
  rw [wp_lift]
  exact ⟨fun _ _ => ⟨hs, Nat.le_refl _⟩, fun _ _ => ⟨hs, Nat.le_refl _, fun _ => Nat.le_refl _⟩⟩

theorem recordEach_spends (method : RpcMethod) (n : Nat) :
    Spends 0 (recordEach method n : Prog (Shared σ) FetchRangeError Unit) := by
  induction n with
  | zero => exact spends_pure ()
  | succ n ih => exact ((record_spends method 0).mono (Nat.zero_le 1)).bind fun _ => ih

section
variable {spend : Prog (Shared σ) FetchRangeError Unit} {call : Prog σ CallError α}
  {stop : RpcFailure → Bool} {attempts : Nat}

/-- A round of a retry loop spends first. The call itself is not on the budget. -/
theorem tryOnce_spends (hspend : Spends k spend) {again : Prog (Shared σ) FetchRangeError α}
    (hagain : Spends 0 again) : Spends k (tryOnce policy range phase spend call stop attempts again) := by
  unfold tryOnce
  refine hspend.bind fun _ s hs => ?_
  rw [wp_bind]
  have hcall : wp (attempt (zoom Shared.node (fun node s => { s with node }) call) :
      Prog (Shared σ) FetchRangeError _)
      (fun _ s' => Counts s' ∧ requestsLeft s' = requestsLeft s) (fun _ _ => False) s := by
    refine wp_attempt (wp_zoom ?_)
    unfold wp
    split
    · exact ⟨hs, rfl⟩
    · exact ⟨hs, rfl⟩
  refine wp_mono hcall (fun r s' h => ?_) fun _ _ h => h.elim
  obtain ⟨hs', hleft⟩ := h
  rw [← hleft]
  cases r with
  | ok a => exact spends_pure a s' hs'
  | error e =>
    cases e with
    | timedOut =>
      dsimp only
      split
      · exact hagain s' hs'
      · exact Spends.throw id s' hs'
    | rpc error =>
      dsimp only
      split
      · exact ⟨hs', Nat.le_refl _, fun _ => Nat.le_refl _⟩
      split
      · exact hagain s' hs'
      · exact Spends.throw id s' hs'

/-- **The retry loop** spends in its first round already. -/
theorem withRetry_spends (hspend : Spends k spend) {left : Nat} :
    Spends k (withRetry policy range phase spend call stop left attempts) := by
  induction left generalizing attempts with
  | zero => exact tryOnce_spends hspend (Spends.throw id)
  | succ left ih => exact tryOnce_spends hspend (ih.mono (Nat.zero_le k))

end

/-- **A task spends a request**, unless its error ends the run. -/
theorem fetchRange_spends (provider : Provider σ) (range : BackfillRange)
    (config : AdaptiveFetchConfig) : Spends 1 (fetchRangeWithRetry provider range config) := by
  unfold fetchRangeWithRetry
  refine (withRetry_spends (record_spends _ _)).bind fun logs => ?_
  refine (withRetry_spends (recordEach_spends _ _)).bind fun blocks => ?_
  exact (spends_lift _).bind fun _ => spends_lift _

end

end Chainweave.Fetch

namespace Chainweave.Pipeline

open Stateful Chainweave.Chain Chainweave.Backfill Chainweave.Postgres Chainweave.Rpc
  Chainweave.Fetch

variable {σ κ : Type}

/-! ## What a round spends -/

/-- Whatever a program answers, it gives nothing back. -/
theorem spends_after {α : Type} {k : Nat} {x : Prog (Shared σ) FetchRangeError α} (h : Spends k x)
    {s : Shared σ} (hs : Counts s) :
    Counts (exec x s).2 ∧ requestsLeft (exec x s).2 ≤ requestsLeft s := by
  cases hx : exec x s with
  | mk r s' =>
    cases r with
    | ok a =>
      obtain ⟨hs', hle⟩ := wp_ok (h s hs) hx
      exact ⟨hs', (Nat.le_add_right _ k).trans hle⟩
    | error e =>
      obtain ⟨hs', hle, -⟩ := wp_error (h s hs) hx
      exact ⟨hs', hle⟩

theorem spend_left (spent : List RpcMethod) (run : Run σ κ) (hs : Counts run.shared) :
    Counts (run.spend spent).shared ∧ requestsLeft (run.spend spent).shared ≤ requestsLeft run.shared := by
  show Counts (spent.foldl (fun shared method => (exec (record method 0) shared).2) run.shared) ∧
    requestsLeft (spent.foldl (fun shared method => (exec (record method 0) shared).2) run.shared) ≤ _
  generalize run.shared = shared at hs
  induction spent generalizing shared with
  | nil => exact ⟨hs, Nat.le_refl _⟩
  | cons method spent ih =>
    obtain ⟨hs', hle⟩ := spends_after (record_spends method 0) hs
    obtain ⟨hs'', hle'⟩ := ih _ hs'
    exact ⟨hs'', hle'.trans hle⟩

/-- A task that is out is joined. -/
theorem Window.joinNext_out {window : Window} (h : window.joinSet.isEmpty = false) (task : Nat) :
    ∃ range next, window.joinNext task = some (range, next) := by
  have hpos : 0 < window.joinSet.length := by
    rw [List.length_pos_iff]
    intro hnil
    rw [hnil] at h
    cases h
  have hlt := Nat.mod_lt task hpos
  unfold Window.joinNext
  dsimp only
  rw [List.getElem?_eq_getElem hlt]
  exact ⟨_, _, rfl⟩

section
variable (provider : Provider σ) (config : AdaptiveFetchConfig) (full : BackfillRange)
  (commitRange : CommitRange κ IndexedBlock)

/-- Pushing makes no request. -/
theorem pushRange_shared (fetched : FetchedRange IndexedBlock) (run : Run σ κ) :
    wp (pushRange full commitRange fetched) (fun _ run' => run'.shared = run.shared)
      (fun _ _ => True) run := by
  unfold pushRange
  rw [wp_bind, wp_modify, wp_bind, wp_get]
  rw [wp_bind]
  have hpush : wp (pushFetched (σ := σ) commitRange fetched) (fun _ run' => run'.shared = run.shared)
      (fun _ _ => True)
      (run.onWindow fun window => { window with sizer := window.sizer.recordSuccess }) := by
    refine wp_attempt (wp_zoom ?_)
    unfold wp
    split
    · rfl
    · rfl
  refine wp_mono hpush (fun r run' h => ?_) fun _ _ h => h
  split
  · exact h
  · exact h
  · exact trivial

/-- **A round that leaves the run going** has spent a request. -/
theorem round_spends (completion : Completion) {run : Run σ κ} (hs : Counts run.shared)
    (hout : run.window.joinSet.isEmpty = false) :
    wp (round provider config full commitRange completion)
      (fun _ run' => Counts run'.shared ∧ requestsLeft run'.shared + 1 ≤ requestsLeft run.shared)
      (fun _ _ => True) run := by
  obtain ⟨hspent, hleft⟩ := spend_left completion.spent run hs
  obtain ⟨range, next, hjoin⟩ := Window.joinNext_out hout completion.task
  have hjoin' : (run.spend completion.spent).window.joinNext completion.task = some (range, next) :=
    hjoin
  refine round_rule rfl (fun hnone => ?_) (fun _ => trivial) fun range window _ _ => ?_
  · rw [hjoin'] at hnone
    cases hnone
  refine wp_mono (fetchRange_spends provider range config _ hspent)
    (fun fetched shared hfetched => ?_) fun e shared hfailed => ?_
  · obtain ⟨hcounts, htaken⟩ := hfetched
    refine wp_mono (pushRange_shared full commitRange fetched _) (fun _ run' h => ?_) fun _ _ h => h
    have hshared : run'.shared = shared := h
    show Counts run'.shared ∧ requestsLeft run'.shared + 1 ≤ _
    rw [hshared]
    exact ⟨hcounts, htaken.trans hleft⟩
  · obtain ⟨hcounts, -, hlimit⟩ := hfailed
    refine ⟨fun refused source heq => ?_, fun _ => trivial⟩
    cases heq
    exact ⟨hcounts, (hlimit trivial).trans hleft⟩

/-! ## The rounds -/

/-- The task results that are processed, for the completions seen so far: one a round. -/
def processed : List Completion → Run σ κ → Nat
  | [], _ => 0
  | completion :: completions, run =>
    if run.window.joinSet.isEmpty then 0
    else
      match exec (round provider config full commitRange completion) run with
      | (.ok (), run) => 1 + processed completions run
      | (.error _, _) => 1

/-- While tasks are out, the loop goes on. -/
theorem ending_out {run : Run σ κ} (h : run.window.joinSet.isEmpty = false) :
    exec (ending : Prog (Run σ κ) PipelineError (Option CommitProgress)) run = (.ok none, run) := by
  show exec (get >>= _) run = _
  rw [exec_bind, exec_get]
  dsimp only
  rw [if_neg (by simp [h])]
  rfl

/-- Once none is, the run is over. -/
theorem ending_over {run : Run σ κ} (h : run.window.joinSet.isEmpty = true) :
    (∃ progress, exec (ending : Prog (Run σ κ) PipelineError (Option CommitProgress)) run =
        (.ok (some progress), run)) ∨
      ∃ e, exec (ending : Prog (Run σ κ) PipelineError (Option CommitProgress)) run =
        (.error e, run) := by
  unfold ending
  rw [exec_bind, exec_get]
  dsimp only
  rw [if_pos h]
  split
  · exact .inl ⟨_, rfl⟩
  · exact .inr ⟨_, rfl⟩

/-- **The requests left bound the rounds.** -/
theorem loop_ends (completions : List Completion) {run : Run σ κ} (hs : Counts run.shared) :
    processed provider config full commitRange completions run ≤ requestsLeft run.shared + 1 ∧
      (requestsLeft run.shared < completions.length →
        (exec (loop provider config full commitRange completions) run).1 ≠ .ok none) := by
  induction completions generalizing run with
  | nil => exact ⟨Nat.zero_le _, fun h => absurd h (Nat.not_lt_zero _)⟩
  | cons completion completions ih =>
    unfold processed loop
    cases hout : run.window.joinSet.isEmpty with
    | true =>
      rw [if_pos rfl]
      refine ⟨Nat.zero_le _, fun _ => ?_⟩
      rw [exec_bind]
      rcases ending_over hout with ⟨progress, hend⟩ | ⟨e, hend⟩
      · rw [hend]
        intro heq
        cases heq
      · rw [hend]
        intro heq
        cases heq
    | false =>
      rw [if_neg Bool.false_ne_true, exec_bind, ending_out hout]
      dsimp only
      rw [exec_bind]
      have hround := round_spends provider config full commitRange completion hs hout
      cases hx : exec (round provider config full commitRange completion) run with
      | mk r next =>
        cases r with
        | error e => exact ⟨by simp, fun _ heq => by cases heq⟩
        | ok u =>
          obtain ⟨hcounts, htaken⟩ := wp_ok hround hx
          obtain ⟨hbound, hends⟩ := ih hcounts
          refine ⟨?_, fun hlt => hends ?_⟩
          · show 1 + processed provider config full commitRange completions next ≤ _
            omega
          · rw [List.length_cons] at hlt
            omega

/-- **Backfill always ends**: it processes at most one task result more than the budget allows
requests, and given that many it returns, with the progress or an error. -/
theorem backfill_ends (sizer : LogRangeSizer) (completions : List Completion) {budget : RpcBudget}
    (hbudget : budget.maxRequests < u64Max) {run : Run σ κ}
    (hrun : run.shared.budget = some budget) :
    processed provider config full commitRange completions
        (run.onWindow fun _ => Window.start config.workers full sizer) ≤ budget.maxRequests + 1 ∧
      (budget.maxRequests < completions.length →
        (exec (fetchAndCommitRanges provider config full commitRange sizer completions) run).1 ≠
          .ok none) := by
  have hcounts : Counts run.shared := by
    intro b hb
    rw [hrun] at hb
    cases hb
    exact hbudget
  have hleft : requestsLeft run.shared ≤ budget.maxRequests := by
    unfold requestsLeft
    rw [hrun]
    exact Nat.sub_le _ _
  obtain ⟨hbound, hends⟩ := @loop_ends σ κ provider config full commitRange completions
    (run.onWindow fun _ => Window.start config.workers full sizer) hcounts
  exact ⟨hbound.trans (Nat.succ_le_succ hleft), fun hlt => hends (hleft.trans_lt hlt)⟩

end

/-- A node that refuses every range. -/
def refusing : Provider Unit where
  getLogs _ _ := throw (.rpc (.request "query exceeds max block range"))
  getBlocks _ := pure []

def threeRequests : RpcBudget :=
  ⟨3, 300, 0, 0, Nat.succ_pos _, Nat.succ_pos _, Nat.zero_le _, Nat.zero_le _⟩

/-- `backfill_ends` where every range is refused, down to single blocks and on. -/
theorem backfill_ends_refused :
    (exec (fetchAndCommitRanges refusing twoWorkers ⟨1, 4⟩ (fun _ => pure ()) twoBlockSizer
        (List.replicate 4 { task := 0 }))
      (⟨⟨some threeRequests, ()⟩, ⟨1, 4, some ⟨1, 0, 0⟩, ∅⟩, (),
        { nextUnallocated := 0, sizer := twoBlockSizer }⟩ : Run Unit Unit)).1 ≠ .ok none :=
  (backfill_ends refusing twoWorkers ⟨1, 4⟩ (fun _ => pure ()) twoBlockSizer
    (List.replicate 4 { task := 0 }) (by decide) rfl).2 (by decide)

end Chainweave.Pipeline
