import Chainweave.Cli.FetchRules

/-!
# A fetch, one await after the other

`crates/chainweave-cli/src/main.rs`: while a fetch waits, other tasks go on, on the same
budget and the same node. A `Stage` is a point of `fetch_range_with_retry` where that
can happen: before a request is recorded, and before it is sent.

* `exec_left`: a step does what comes next of the program that is left.
* `step_effect`: what a step takes from the budget and asks of the node. Nothing else
  of either decides where it leads: `Effect`.
-/
namespace Chainweave.Fetch

open Stateful Chainweave.Chain Chainweave.Backfill Chainweave.Postgres Chainweave.Rpc

/-- What a fetch brings. -/
abbrev Fetched := Except FetchRangeError (FetchedRange IndexedBlock)

inductive Stage where
  /-- at `eth_getLogs` -/
  | logs (attempts : Nat) (recorded : Bool)
  /-- at the batch of `eth_getBlockByNumber`, with some of it recorded -/
  | blocks (logs : List AnchoredRawLog) (attempts recorded : Nat)
  | finished (result : Fetched)

variable {σ α : Type}

/-- A failed request: the next attempt, or its error.
mirrors crates/chainweave-cli/src/main.rs:896-929, 944-972 -/
def Stage.afterFailure (policy : RetryPolicy) (range : BackfillRange) (phase : String)
    (stop : RpcFailure → Bool) (attempts : Nat) (again : Stage) : CallError → Stage
  | .timedOut =>
    match policy.decision .timeout attempts with
    | .retryAfter _ => again
    | .giveUp => .finished (.error (.timeout range phase))
  | .rpc error =>
    let failure := classifyRpcError error
    if stop failure then .finished (.error (.providerLimit range error))
    else
      match policy.decision failure attempts with
      | .retryAfter _ => again
      | .giveUp => .finished (.error (.rpc range error))

/-- The end of a fetch, on what was fetched.
mirrors crates/chainweave-cli/src/main.rs:861-878 -/
def assemble (config : AdaptiveFetchConfig) (range : BackfillRange) (logs : List AnchoredRawLog)
    (blocks : List IndexedBlock) : Fetched := do
  let blocks ← attachLogs config.abiRegistry blocks (logsByHeight logs)
  (FetchedRange.new range (blocks.map (·.header)) blocks).mapError .backfill

/-- The requests of the batch. -/
def batchSize (range : BackfillRange) : Nat := range.toBlock + 1 - range.fromBlock

/-- A request of the node. -/
def send (call : Prog σ CallError α) : Prog (Shared σ) CallError α :=
  zoom Shared.node (fun node s => { s with node }) call

/-- A request is recorded, or the task fails. -/
def Stage.afterRecord (method : RpcMethod) (next : Stage) (s : Shared σ) : Stage × Shared σ :=
  match exec (record method 0) s with
  | (.ok _, s) => (next, s)
  | (.error e, s) => (.finished (.error e), s)

/-- A request is sent, and the task waits for the answer. -/
def Stage.afterSend (call : Prog σ CallError α) (answered : α → Stage) (failed : CallError → Stage)
    (s : Shared σ) : Stage × Shared σ :=
  match exec (send call) s with
  | (.ok answer, s) => (answered answer, s)
  | (.error e, s) => (failed e, s)

section
variable (provider : Provider σ) (config : AdaptiveFetchConfig) (range : BackfillRange)

/-- mirrors crates/chainweave-cli/src/main.rs:854-974 -/
def Stage.step : Stage → Shared σ → Stage × Shared σ
  | .logs attempts false => afterRecord .getLogs (.logs attempts true)
  | .logs attempts true =>
    afterSend (provider.fetchAnchoredLogs range config.filter) (fun found => .blocks found 1 0)
      (afterFailure config.retryPolicy range "eth_getLogs" (· = .providerLimit) attempts
        (.logs (attempts + 1) false))
  | .blocks found attempts recorded =>
    if recorded < batchSize range then
      afterRecord .getBlockByNumber (.blocks found attempts (recorded + 1))
    else
      afterSend (provider.fetchBlocksByNumber range)
        (fun fetched => .finished (assemble config range found fetched))
        (afterFailure config.retryPolicy range "eth_getBlockByNumber" (fun _ => false) attempts
          (.blocks found (attempts + 1) 0))
  | .finished result => fun s => (.finished result, s)

/-! ## The program that is left -/

/-- A retry loop within an attempt: `spend` is what is left to record for it. -/
def resume (phase : String) (whole spend : Prog (Shared σ) FetchRangeError Unit)
    (call : Prog σ CallError α) (stop : RpcFailure → Bool) (attempts : Nat) :
    Prog (Shared σ) FetchRangeError α :=
  tryOnce config.retryPolicy range phase spend call stop attempts
    (match config.retryPolicy.maxAttempts - attempts with
      | 0 => throw (.timeout range phase)
      | left + 1 => withRetry config.retryPolicy range phase whole call stop left (attempts + 1))

/-- The rest of a fetch that has its logs. -/
def leftAfterLogs (logs : List AnchoredRawLog) (blocks : Prog (Shared σ) FetchRangeError (List IndexedBlock)) :
    Prog (Shared σ) FetchRangeError (FetchedRange IndexedBlock) :=
  blocks >>= fun blocks => lift (assemble config range logs blocks)

/-- What `fetch_range_with_retry` still has to do. -/
def Stage.left : Stage → Prog (Shared σ) FetchRangeError (FetchedRange IndexedBlock)
  | .logs attempts recorded =>
    resume config range "eth_getLogs" (record .getLogs 0)
      (if recorded then pure () else record .getLogs 0)
      (provider.fetchAnchoredLogs range config.filter) (· = .providerLimit) attempts >>= fun found =>
        leftAfterLogs config range found (fetchBlocksByNumberWithRetry provider range config)
  | .blocks found attempts recorded =>
    leftAfterLogs config range found
      (resume config range "eth_getBlockByNumber" (recordEach .getBlockByNumber (batchSize range))
        (recordEach .getBlockByNumber (batchSize range - recorded))
        (provider.fetchBlocksByNumber range) (fun _ => false) attempts)
  | .finished result => lift result

end

section
variable {provider : Provider σ} {config : AdaptiveFetchConfig} {range : BackfillRange} {phase : String}
  {whole spend : Prog (Shared σ) FetchRangeError Unit} {call : Prog σ CallError α}
  {stop : RpcFailure → Bool} {attempts : Nat}

/-- An attempt from its start is the retry loop. -/
theorem resume_whole :
    resume config range phase whole whole call stop attempts =
      withRetry config.retryPolicy range phase whole call stop
        (config.retryPolicy.maxAttempts - attempts) attempts := by
  unfold resume
  cases config.retryPolicy.maxAttempts - attempts <;> rfl

theorem lift_bind {β : Type} (r : Except FetchRangeError α) (f : α → Except FetchRangeError β) :
    (lift r >>= fun a => lift (f a) : Prog (Shared σ) FetchRangeError β) = lift (r >>= f) := by
  cases r <;> rfl

/-- What is left at the start is the whole fetch. -/
theorem left_start :
    Stage.left provider config range (.logs 1 false) = fetchRangeWithRetry provider range config := by
  simp only [Stage.left, Bool.false_eq_true, if_false, resume_whole, fetchRangeWithRetry,
    fetchLogsWithRetry, leftAfterLogs, assemble, lift_bind]

/-- What is recorded first. -/
theorem resume_bind {x : Prog (Shared σ) FetchRangeError Unit} :
    resume config range phase whole (x >>= fun _ => spend) call stop attempts =
      x >>= fun _ => resume config range phase whole spend call stop attempts := by
  simp only [resume, tryOnce, bind_assoc]

theorem resume_recorded :
    resume config range phase whole spend call stop attempts =
      spend >>= fun _ => resume config range phase whole (pure ()) call stop attempts := by
  simp only [resume, tryOnce, pure_bind]

/-- The policy gives up at the last attempt. -/
theorem retryAfter_lt {policy : RetryPolicy} {failure : RpcFailure} {delay : Nat}
    (h : policy.decision failure attempts = .retryAfter delay) : attempts < policy.maxAttempts := by
  unfold RetryPolicy.decision at h
  split at h
  · cases h
  · omega

/-- An attempt that is recorded: the request, and then what follows from it. -/
theorem exec_resume {K : α → Prog (Shared σ) FetchRangeError (FetchedRange IndexedBlock)} (again : Stage)
    (hagain : again.left provider config range =
      withRetry config.retryPolicy range phase whole call stop
        (config.retryPolicy.maxAttempts - (attempts + 1)) (attempts + 1) >>= K) (s : Shared σ) :
    exec (resume config range phase whole (pure ()) call stop attempts >>= K) s =
      match exec (send call) s with
      | (.ok a, s') => exec (K a) s'
      | (.error e, s') =>
        exec ((Stage.afterFailure config.retryPolicy range phase stop attempts again e).left
          provider config range) s' := by
  have hretry : ∀ {failure : RpcFailure} {delay : Nat},
      config.retryPolicy.decision failure attempts = .retryAfter delay →
      (match config.retryPolicy.maxAttempts - attempts with
        | 0 => throw (.timeout range phase)
        | left + 1 => withRetry config.retryPolicy range phase whole call stop left (attempts + 1)) >>= K =
        again.left provider config range := by
    intro failure delay h
    have hlt := retryAfter_lt h
    obtain ⟨left, hleft⟩ : ∃ left, config.retryPolicy.maxAttempts - attempts = left + 1 :=
      ⟨config.retryPolicy.maxAttempts - (attempts + 1), by omega⟩
    have hnext : config.retryPolicy.maxAttempts - (attempts + 1) = left := by omega
    rw [hagain, hleft, hnext]
  unfold resume tryOnce send
  rw [pure_bind, bind_assoc, exec_bind, exec_attempt]
  cases exec (zoom Shared.node (fun node s => { s with node }) call) s with
  | mk r s' =>
    cases r with
    | ok a => rfl
    | error e =>
      cases e with
      | timedOut =>
        dsimp only [Stage.afterFailure]
        cases hdecision : config.retryPolicy.decision .timeout attempts with
        | retryAfter delay =>
          dsimp only
          rw [hretry hdecision]
        | giveUp => rfl
      | rpc error =>
        dsimp only [Stage.afterFailure]
        cases hstop : stop (classifyRpcError error) with
        | true => rfl
        | false =>
          cases hdecision : config.retryPolicy.decision (classifyRpcError error) attempts with
          | retryAfter delay =>
            simp only [Bool.false_eq_true, if_false]
            rw [hretry hdecision]
          | giveUp => rfl

/-- **A step does what comes next of the program that is left.** -/
theorem exec_left (stage : Stage) (s : Shared σ) :
    exec (stage.left provider config range) s =
      exec ((stage.step provider config range s).1.left provider config range)
        (stage.step provider config range s).2 := by
  cases stage with
  | logs attempts recorded =>
    cases recorded with
    | false =>
      simp only [Stage.left, Stage.step, Stage.afterRecord, Bool.false_eq_true, if_false]
      rw [resume_recorded, bind_assoc, exec_bind]
      cases exec (record .getLogs 0) s with
      | mk r s' =>
        cases r with
        | ok u => rfl
        | error e => rfl
    | true =>
      simp only [Stage.left, Stage.step, Stage.afterSend, if_true]
      rw [exec_resume (.logs (attempts + 1) false)]
      · cases exec (send (provider.fetchAnchoredLogs range config.filter)) s with
        | mk r s' =>
          cases r with
          | ok found =>
            simp only [Nat.sub_zero, resume_whole]
            rfl
          | error e => rfl
      · simp only [Stage.left, Bool.false_eq_true, if_false, resume_whole]
  | blocks found attempts recorded =>
    simp only [Stage.step]
    split
    · rename_i hlt
      have hleft : batchSize range - recorded = batchSize range - (recorded + 1) + 1 := by omega
      simp only [Stage.left, Stage.afterRecord, leftAfterLogs]
      rw [hleft, recordEach, resume_bind, bind_assoc, exec_bind]
      cases exec (record .getBlockByNumber 0) s with
      | mk r s' =>
        cases r with
        | ok u => rfl
        | error e => rfl
    · rename_i hge
      have hleft : batchSize range - recorded = 0 := by omega
      simp only [Stage.left, Stage.afterSend, leftAfterLogs, hleft]
      rw [recordEach, exec_resume (.blocks found (attempts + 1) 0)]
      · cases exec (send (provider.fetchBlocksByNumber range)) s with
        | mk r s' =>
          cases r with
          | ok fetched => rfl
          | error e => rfl
      · simp only [Stage.left, leftAfterLogs, Nat.sub_zero, resume_whole]
  | finished result => rfl

end

/-! ## The budget -/

/-- The limits are of type `u64`. -/
def LimitsFit (budget : RpcBudget) : Prop :=
  budget.maxRequests ≤ u64Max ∧ budget.maxCostUnits ≤ u64Max

/-- The units of some requests. -/
def costOf (methods : List RpcMethod) : Nat := (methods.map (·.defaultCost)).sum

/-- Some requests were recorded, in whatever order. To saturate at each is to saturate once. -/
structure Spent (budget : RpcBudget) (methods : List RpcMethod) (budget' : RpcBudget) : Prop where
  maxRequests : budget'.maxRequests = budget.maxRequests
  maxCostUnits : budget'.maxCostUnits = budget.maxCostUnits
  requests : budget'.requests = satAdd budget.requests methods.length
  costUnits : budget'.costUnits = satAdd budget.costUnits (costOf methods)

/-- The budget refused a request. -/
def FetchRangeError.IsRefusal : FetchRangeError → Prop
  | .backfill (.requestBudgetExceeded _) => True
  | .backfill (.costBudgetExceeded _) => True
  | _ => False

/-- A refusal was for want of a request, or of the units of one. A limit of `u64::MAX` refuses none. -/
def UsedUp (budget : RpcBudget) : FetchRangeError → Prop
  | .backfill (.requestBudgetExceeded limit) =>
    limit = budget.maxRequests ∧ limit < u64Max ∧ budget.requests = limit
  | .backfill (.costBudgetExceeded limit) =>
    limit = budget.maxCostUnits ∧ limit < u64Max ∧
      limit < budget.costUnits + RpcMethod.defaultCost .getLogs
  | _ => True

section
variable {a b c : RpcBudget} {methods more : List RpcMethod} {method : RpcMethod}

@[simp] theorem costOf_append : costOf (methods ++ more) = costOf methods + costOf more := by
  simp [costOf]

theorem satAdd_zero {n : Nat} (h : n ≤ u64Max) : satAdd n 0 = n := Nat.min_eq_left h

theorem satAdd_satAdd (k m n : Nat) : satAdd (satAdd k m) n = satAdd k (m + n) := by
  unfold satAdd
  omega

theorem Spent.refl (h : LimitsFit a) : Spent a [] a :=
  ⟨rfl, rfl, (satAdd_zero (a.requests_le.trans h.1)).symm, (satAdd_zero (a.costUnits_le.trans h.2)).symm⟩

theorem Spent.trans (h : Spent a methods b) (h' : Spent b more c) : Spent a (methods ++ more) c := by
  refine ⟨h'.maxRequests.trans h.maxRequests, h'.maxCostUnits.trans h.maxCostUnits, ?_, ?_⟩
  · rw [h'.requests, h.requests, List.length_append, satAdd_satAdd]
  · rw [h'.costUnits, h.costUnits, costOf_append, satAdd_satAdd]

theorem Spent.perm (h : Spent a methods b) (hperm : methods.Perm more) : Spent a more b := by
  refine ⟨h.maxRequests, h.maxCostUnits, ?_, ?_⟩
  · rw [h.requests, hperm.length_eq]
  · rw [h.costUnits, costOf, costOf, (hperm.map _).sum_nat]

/-- What is left tells what was spent. -/
theorem Spent.unique (h : Spent a methods b) (h' : Spent a methods c) : b = c := by
  obtain ⟨hb₁, hb₂, hb₃, hb₄⟩ := h
  obtain ⟨hc₁, hc₂, hc₃, hc₄⟩ := h'
  cases b
  cases c
  simp_all

/-- Some of the requests, and then the others. -/
theorem Spent.split (h : Spent a (methods ++ more) c) : ∃ b, Spent a methods b ∧ Spent b more c := by
  have hrequests := h.requests
  have hcost := h.costUnits
  have hmaxRequests := h.maxRequests
  have hmaxCost := h.maxCostUnits
  have hle := c.requests_le
  have hcostLe := c.costUnits_le
  rw [List.length_append, ← satAdd_satAdd] at hrequests
  rw [costOf_append, ← satAdd_satAdd] at hcost
  have hpart : satAdd a.requests methods.length ≤ a.maxRequests := by
    have hgrows : satAdd a.requests methods.length ≤ c.requests := by
      rw [hrequests]
      unfold satAdd
      omega
    omega
  have hcostPart : satAdd a.costUnits (costOf methods) ≤ a.maxCostUnits := by
    have hgrows : satAdd a.costUnits (costOf methods) ≤ c.costUnits := by
      rw [hcost]
      unfold satAdd
      omega
    omega
  exact ⟨⟨a.maxRequests, a.maxCostUnits, _, _, a.maxRequests_pos, a.maxCostUnits_pos, hpart, hcostPart⟩,
    ⟨rfl, rfl, rfl, rfl⟩, ⟨hmaxRequests, hmaxCost, hrequests, hcost⟩⟩

theorem Spent.fits (h : Spent a methods b) (ha : LimitsFit a) : LimitsFit b := by
  unfold LimitsFit
  rw [h.maxRequests, h.maxCostUnits]
  exact ha

theorem costOf_singleton : costOf [method] = max 0 method.defaultCost := by
  simp [costOf]

/-- A request that is recorded. -/
theorem record_spent (h : a.record method 0 = .ok b) : Spent a [method] b := by
  obtain ⟨hmaxRequests, hmaxCost, hrequests, hcost⟩ := RpcBudget.record_ok h
  exact ⟨hmaxRequests, hmaxCost, hrequests, by rw [hcost, costOf_singleton]⟩

/-- A request with room for it is recorded. -/
theorem Spent.record (h : Spent a [method] b) : a.record method 0 = .ok b := by
  have hle := b.requests_le
  have hcostLe := b.costUnits_le
  rw [h.maxRequests, h.requests, List.length_singleton] at hle
  rw [h.maxCostUnits, h.costUnits, costOf_singleton] at hcostLe
  cases hrecord : a.record method 0 with
  | ok c => rw [h.unique (record_spent hrecord)]
  | error e =>
    obtain hrefused | hrefused := RpcBudget.record_error hrecord
    · exact absurd hle (Nat.not_le_of_lt hrefused)
    · exact absurd hcostLe (Nat.not_le_of_lt hrefused)

/-- A refusal, and what it says of the budget. -/
theorem record_refused {e : BackfillError} (h : a.record method 0 = .error e) :
    (FetchRangeError.backfill e).IsRefusal ∧ UsedUp a (.backfill e) := by
  have hle := a.requests_le
  have hcost : method.defaultCost ≤ RpcMethod.defaultCost .getLogs := by cases method <;> decide
  unfold RpcBudget.record at h
  dsimp only at h
  split at h
  · rename_i hrequests
    cases h
    unfold satAdd at hrequests
    exact ⟨trivial, rfl, by omega, by omega⟩
  split at h
  · rename_i hunits
    cases h
    rw [Nat.zero_max] at hunits
    unfold satAdd at hunits
    exact ⟨trivial, rfl, by omega, by omega⟩
  · cases h

/-- It stays so when more is spent. -/
theorem UsedUp.later {e : FetchRangeError} (h : UsedUp a e) (hlater : Spent a more b) : UsedUp b e := by
  have hrequests := hlater.requests
  have hcost := hlater.costUnits
  have hle := b.requests_le
  have hcostLe := a.costUnits_le
  rw [hlater.maxRequests] at hle
  unfold satAdd at hrequests hcost
  cases e with
  | backfill error =>
    cases error with
    | requestBudgetExceeded limit =>
      obtain ⟨hlimit, hlt, hused⟩ := h
      exact ⟨hlimit.trans hlater.maxRequests.symm, hlt, by omega⟩
    | costBudgetExceeded limit =>
      obtain ⟨hlimit, hlt, hused⟩ := h
      exact ⟨hlimit.trans hlater.maxCostUnits.symm, hlt, by omega⟩
    | _ => trivial
  | _ => trivial

/-- What a budget refuses, it refuses when more of it is spent. -/
theorem refused_later {e : BackfillError} (h : a.record method 0 = .error e)
    (hlater : Spent a more b) : ∃ e', b.record method 0 = .error e' := by
  cases hrecord : b.record method 0 with
  | error e' => exact ⟨e', rfl⟩
  | ok c =>
    have hspent : Spent a ([method] ++ more) c :=
      (hlater.trans (record_spent hrecord)).perm List.perm_append_comm
    obtain ⟨next, hnext, -⟩ := hspent.split
    rw [hnext.record] at h
    cases h

end

/-! ## What a step takes and asks -/

/-- An answer of a node. -/
inductive Answer where
  | ofLogs (result : Except CallError (List RpcLog))
  | ofBlocks (result : Except CallError (List (Option RpcBlock)))

/-- A node that gives the answers of a list. -/
def scripted : Provider (List Answer) where
  getLogs _ _ := ExceptT.mk fun
    | .ofLogs result :: script => (result, script)
    | script => (.error .timedOut, script)
  getBlocks _ := ExceptT.mk fun
    | .ofBlocks result :: script => (result, script)
    | script => (.error .timedOut, script)

/-- A node that notes what it is asked. -/
def metered (provider : Provider σ) : Provider (σ × List RpcMethod) where
  getLogs range filter := do
    modify fun s => (s.1, s.2 ++ [.getLogs])
    zoom Prod.fst (fun node s => (node, s.2)) (provider.getLogs range filter)
  getBlocks range := do
    modify fun s => (s.1, s.2 ++ List.replicate (batchSize range) .getBlockByNumber)
    zoom Prod.fst (fun node s => (node, s.2)) (provider.getBlocks range)

/-- What is recorded and not sent yet. -/
def Stage.pending : Stage → List RpcMethod
  | .logs _ recorded => if recorded then [.getLogs] else []
  | .blocks _ _ recorded => List.replicate recorded .getBlockByNumber
  | .finished _ => []

/-- What a step of a task does, of a budget `b` that is not poisoned, and which of it counts: from another
budget and a node that gives the same answer, the step leads to the same place. -/
inductive Effect (provider : Provider σ) (config : AdaptiveFetchConfig) (range : BackfillRange) (stage : Stage)
    (s : Shared σ) (b : RpcBudget) : Prop where
  /-- a request is recorded -/
  | records (stage' : Stage) (b' : RpcBudget) (method : RpcMethod)
    (step : stage.step provider config range s = (stage', { s with budget := some b' }))
    (spent : Spent b [method] b')
    (pending : stage'.pending = stage.pending ++ [method])
    (same : ∀ script b₁ b₂, Spent b₁ [method] b₂ →
      stage.step scripted config range ⟨some b₁, script⟩ = (stage', ⟨some b₂, script⟩))
  /-- the budget refuses -/
  | refused (e : BackfillError)
    (step : stage.step provider config range s = (.finished (.error (.backfill e)), s))
    (refusal : (FetchRangeError.backfill e).IsRefusal)
    (used : UsedUp b (.backfill e))
    (same : ∀ script b₁ more, Spent b more b₁ → ∃ e', (FetchRangeError.backfill e').IsRefusal ∧
      stage.step scripted config range ⟨some b₁, script⟩ =
        (.finished (.error (.backfill e')), ⟨some b₁, script⟩))
  /-- the node is asked -/
  | sends (stage' : Stage) (node : σ) (answer : Answer)
    (step : stage.step provider config range s = (stage', { s with node }))
    (pending : stage'.pending = [])
    (unrefused : ∀ e, stage' = .finished (.error e) → ¬ e.IsRefusal)
    (same : ∀ script b₁, stage.step scripted config range ⟨some b₁, answer :: script⟩ =
      (stage', ⟨some b₁, script⟩))
  /-- it was at its end -/
  | rests (result : Fetched) (finished : stage = .finished result)

section
variable {provider : Provider σ} {config : AdaptiveFetchConfig} {range : BackfillRange}

theorem afterRecord_ok {method : RpcMethod} {next : Stage} {s : Shared σ} {b b' : RpcBudget}
    (hb : s.budget = some b) (h : b.record method 0 = .ok b') :
    Stage.afterRecord method next s = (next, { s with budget := some b' }) := by
  have hexec : exec (record method 0) s = (.ok (), { s with budget := some b' }) := by
    simp only [record, exec_mk, hb, h]
  rw [Stage.afterRecord, hexec]

theorem afterRecord_error {method : RpcMethod} {next : Stage} {s : Shared σ} {b : RpcBudget}
    {e : BackfillError} (hb : s.budget = some b) (h : b.record method 0 = .error e) :
    Stage.afterRecord method next s = (.finished (.error (.backfill e)), s) := by
  have hexec : exec (record method 0) s = (.error (.backfill e), s) := by
    simp only [record, exec_mk, hb, h]
  rw [Stage.afterRecord, hexec]

/-- A stage that records. -/
theorem Effect.of_record {stage : Stage} (method : RpcMethod) (next : Stage) {s : Shared σ} {b : RpcBudget}
    (hb : s.budget = some b)
    (hstep : stage.step provider config range = Stage.afterRecord method next)
    (hscripted : stage.step scripted config range = Stage.afterRecord method next)
    (hpending : next.pending = stage.pending ++ [method]) : Effect provider config range stage s b := by
  cases hrecord : b.record method 0 with
  | ok b' =>
    refine .records next b' method ?_ (record_spent hrecord) hpending fun script b₁ b₂ hspent => ?_
    · rw [hstep, afterRecord_ok hb hrecord]
    · rw [hscripted, afterRecord_ok (s := ⟨some b₁, script⟩) rfl hspent.record]
  | error e =>
    refine .refused e ?_ (record_refused hrecord).1 (record_refused hrecord).2
      fun script b₁ more hlater => ?_
    · rw [hstep, afterRecord_error hb hrecord]
    · obtain ⟨e', hrefused⟩ := refused_later hrecord hlater
      refine ⟨e', (record_refused hrefused).1, ?_⟩
      rw [hscripted, afterRecord_error (s := ⟨some b₁, script⟩) rfl hrefused]

/-- After a request nothing is pending, and the budget was not the reason if the task failed. -/
def Stage.Sent (stage : Stage) : Prop :=
  stage.pending = [] ∧ ∀ e, stage = .finished (.error e) → ¬ e.IsRefusal

theorem Stage.Sent.finished {result : Fetched} (h : ∀ e, result = .error e → ¬ e.IsRefusal) :
    (Stage.finished result).Sent :=
  ⟨rfl, fun e heq => h e (Stage.finished.inj heq)⟩

/-- A stage that asks. -/
theorem Effect.of_send {stage : Stage} {call : Prog σ CallError α}
    {scriptedCall : Prog (List Answer) CallError α}
    {answered : α → Stage} {failed : CallError → Stage} (answer : Answer) {s : Shared σ} {b : RpcBudget}
    (hstep : stage.step provider config range = Stage.afterSend call answered failed)
    (hscripted : stage.step scripted config range = Stage.afterSend scriptedCall answered failed)
    (hanswer : ∀ script, exec scriptedCall (answer :: script) = ((exec call s.node).1, script))
    (hanswered : ∀ a, (answered a).Sent) (hfailed : ∀ e, (failed e).Sent) :
    Effect provider config range stage s b := by
  cases hcall : exec call s.node with
  | mk r node =>
    have hsend : exec (send call) s = (r, { s with node }) := by
      simp only [send, exec_zoom, hcall]
    have hscript : ∀ script b₁, exec (send scriptedCall) ⟨some b₁, answer :: script⟩ =
        (r, ⟨some b₁, script⟩) := by
      intro script b₁
      simp only [send, exec_zoom, hanswer, hcall]
    cases r with
    | ok a =>
      refine .sends (answered a) node answer ?_ (hanswered a).1 (hanswered a).2 fun script b₁ => ?_
      · rw [hstep, Stage.afterSend, hsend]
      · rw [hscripted, Stage.afterSend, hscript]
    | error e =>
      refine .sends (failed e) node answer ?_ (hfailed e).1 (hfailed e).2 fun script b₁ => ?_
      · rw [hstep, Stage.afterSend, hsend]
      · rw [hscripted, Stage.afterSend, hscript]

/-- Logs, from the node's answer. -/
theorem exec_fetchAnchoredLogs (provider : Provider σ) (filter : Option ContractLogFilter) (node : σ) :
    exec (provider.fetchAnchoredLogs range filter) node =
      ((exec (provider.getLogs range filter) node).1 >>= fun logs =>
        (logs.mapM (anchoredRawLogFromRpc range)).mapError .rpc,
        (exec (provider.getLogs range filter) node).2) := by
  unfold Provider.fetchAnchoredLogs
  rw [exec_bind]
  cases exec (provider.getLogs range filter) node with
  | mk r node' =>
    cases r with
    | ok logs => exact exec_lift _ _
    | error e => rfl

/-- Blocks, from the node's answer. -/
theorem exec_fetchBlocksByNumber (provider : Provider σ) (node : σ) :
    exec (provider.fetchBlocksByNumber range) node =
      ((exec (provider.getBlocks range) node).1 >>= fun blocks => do
          let blocks ← (requireBlocks range.fromBlock blocks).mapError .rpc
          (blocks.mapM (indexedBlockFromRpc · [])).mapError .rpc,
        (exec (provider.getBlocks range) node).2) := by
  unfold Provider.fetchBlocksByNumber
  rw [exec_bind]
  cases exec (provider.getBlocks range) node with
  | mk r node' =>
    cases r with
    | ok blocks =>
      dsimp only
      rw [exec_bind, exec_lift]
      show _ = ((requireBlocks range.fromBlock blocks).mapError CallError.rpc >>= _, node')
      cases (requireBlocks range.fromBlock blocks).mapError CallError.rpc with
      | ok required => exact exec_lift _ _
      | error e => rfl
    | error e => rfl

theorem sent_afterFailure {policy : RetryPolicy} {phase : String} {stop : RpcFailure → Bool}
    {attempts : Nat} {again : Stage} (h : again.Sent) (e : CallError) :
    (Stage.afterFailure policy range phase stop attempts again e).Sent := by
  cases e with
  | timedOut =>
    dsimp only [Stage.afterFailure]
    split
    · exact h
    · exact .finished fun _ heq => (by cases heq; exact id)
  | rpc error =>
    dsimp only [Stage.afterFailure]
    split
    · exact .finished fun _ heq => (by cases heq; exact id)
    split
    · exact h
    · exact .finished fun _ heq => (by cases heq; exact id)

theorem validateFrom_unrefused {offset : Nat} {parent : Option BlockHeader} {headers : List BlockHeader}
    {e : BackfillError} (h : validateFrom range offset parent headers = .error e) :
    ¬ (FetchRangeError.backfill e).IsRefusal := by
  induction headers generalizing offset parent with
  | nil => cases h
  | cons header headers ih =>
    unfold validateFrom at h
    split at h
    · cases h
      exact id
    split at h
    · cases h
      exact id
    · exact ih h

/-- No refusal comes from what was fetched. -/
theorem assemble_unrefused {found : List AnchoredRawLog} {fetched : List IndexedBlock} {e : FetchRangeError}
    (h : assemble config range found fetched = .error e) : ¬ e.IsRefusal := by
  obtain hattach | ⟨blocks, -, hnew⟩ := error_bind h
  · obtain ⟨height, rfl⟩ := attachLogs_error hattach
    exact id
  · obtain ⟨error, herror, rfl⟩ := mapError_error.1 hnew
    have hinvalid := FetchedRange.new_error herror
    unfold validateHeaders at hinvalid
    split at hinvalid
    · cases hinvalid
      exact id
    · exact validateFrom_unrefused hinvalid

/-- **Every step of a task** takes from the budget or asks the node. -/
theorem step_effect (provider : Provider σ) (config : AdaptiveFetchConfig) (range : BackfillRange)
    (stage : Stage) {s : Shared σ} {b : RpcBudget} (hb : s.budget = some b) :
    Effect provider config range stage s b := by
  cases stage with
  | logs attempts recorded =>
    cases recorded with
    | false => exact .of_record .getLogs (.logs attempts true) hb rfl rfl rfl
    | true =>
      refine .of_send (.ofLogs (exec (provider.getLogs range config.filter) s.node).1) rfl rfl
        (fun script => ?_) (fun _ => ⟨rfl, fun _ heq => (by cases heq)⟩) fun e =>
          sent_afterFailure ⟨rfl, fun _ heq => (by cases heq)⟩ e
      rw [exec_fetchAnchoredLogs, exec_fetchAnchoredLogs]
      rfl
  | blocks found attempts recorded =>
    by_cases hlt : recorded < batchSize range
    · refine .of_record .getBlockByNumber (.blocks found attempts (recorded + 1)) hb ?_ ?_ ?_
      · simp only [Stage.step, if_pos hlt]
      · simp only [Stage.step, if_pos hlt]
      · exact List.replicate_succ' ..
    · refine .of_send (.ofBlocks (exec (provider.getBlocks range) s.node).1) (if_neg hlt) (if_neg hlt)
        (fun script => ?_) (fun _ => .finished fun e heq => assemble_unrefused heq) fun e =>
          sent_afterFailure ⟨rfl, fun _ heq => (by cases heq)⟩ e
      rw [exec_fetchBlocksByNumber, exec_fetchBlocksByNumber]
      rfl
  | finished result => exact .rests result rfl

/-! ## What the node is asked -/

/-- What a stage sends. -/
def Stage.sending (range : BackfillRange) : Stage → List RpcMethod
  | .logs _ recorded => if recorded then [.getLogs] else []
  | .blocks _ _ recorded =>
    if recorded < batchSize range then [] else List.replicate (batchSize range) .getBlockByNumber
  | .finished _ => []

theorem afterRecord_node {method : RpcMethod} {next : Stage} {s : Shared σ} {b : RpcBudget}
    (hb : s.budget = some b) : (Stage.afterRecord method next s).2.node = s.node := by
  cases hrecord : b.record method 0 with
  | ok b' => rw [afterRecord_ok hb hrecord]
  | error e => rw [afterRecord_error hb hrecord]

theorem afterSend_node {call : Prog σ CallError α} {answered : α → Stage} {failed : CallError → Stage}
    {s : Shared σ} : (Stage.afterSend call answered failed s).2.node = (exec call s.node).2 := by
  have hsend : exec (send call) s = ((exec call s.node).1, { s with node := (exec call s.node).2 }) := rfl
  rw [Stage.afterSend, hsend]
  cases (exec call s.node).1 <;> rfl

/-- The node is asked what the stage sends. -/
theorem asked_metered (provider : Provider σ) (config : AdaptiveFetchConfig) (range : BackfillRange)
    (stage : Stage) {s : Shared (σ × List RpcMethod)}
    {b : RpcBudget} (hb : s.budget = some b) :
    (stage.step (metered provider) config range s).2.node.2 = s.node.2 ++ stage.sending range := by
  cases stage with
  | logs attempts recorded =>
    cases recorded with
    | false =>
      simp only [Stage.step, afterRecord_node hb, Stage.sending, Bool.false_eq_true, if_false,
        List.append_nil]
    | true =>
      simp only [Stage.step, afterSend_node, exec_fetchAnchoredLogs]
      rfl
  | blocks found attempts recorded =>
    simp only [Stage.step, Stage.sending]
    split
    · rw [afterRecord_node hb, List.append_nil]
    · rw [afterSend_node, exec_fetchBlocksByNumber]
      rfl
  | finished result => exact (List.append_nil _).symm

/-- It was recorded before. -/
theorem sending_le (range : BackfillRange) (stage : Stage) :
    ∃ lost, stage.pending = stage.sending range ++ lost := by
  cases stage with
  | logs attempts recorded => exact ⟨[], (List.append_nil _).symm⟩
  | blocks found attempts recorded =>
    simp only [Stage.pending, Stage.sending]
    split
    · exact ⟨_, rfl⟩
    · rename_i hge
      refine ⟨List.replicate (recorded - batchSize range) .getBlockByNumber, ?_⟩
      rw [← List.replicate_add]
      congr 1
      omega
  | finished result => exact ⟨[], rfl⟩

/-- What is not a refusal says nothing of the budget. -/
theorem usedUp_of_unrefused {b : RpcBudget} {e : FetchRangeError} (h : ¬ e.IsRefusal) : UsedUp b e := by
  cases e with
  | backfill error =>
    cases error with
    | requestBudgetExceeded limit => exact absurd trivial h
    | costBudgetExceeded limit => exact absurd trivial h
    | _ => trivial
  | _ => trivial

/-- A task that failed for the budget, if it did. -/
def Stage.Honest (b : RpcBudget) (stage : Stage) : Prop :=
  ∀ e, stage = .finished (.error e) → UsedUp b e

theorem Stage.Honest.later {stage : Stage} {a b : RpcBudget} {more : List RpcMethod} (h : stage.Honest a)
    (hlater : Spent a more b) : stage.Honest b := fun e heq => (h e heq).later hlater

/-- **No request without a record.** What the budget pays is asked, or recorded and not sent yet, but for
what a task that stops leaves; and no task fails for a budget that has enough. -/
theorem step_metered (provider : Provider σ) (stage : Stage) {s : Shared (σ × List RpcMethod)}
    {b : RpcBudget} (hb : s.budget = some b) (hfits : LimitsFit b) {stage' : Stage}
    {s' : Shared (σ × List RpcMethod)}
    (hstep : stage.step (metered provider) config range s = (stage', s')) :
    ∃ b' paid sent lost, s'.budget = some b' ∧ Spent b paid b' ∧ s'.node.2 = s.node.2 ++ sent ∧
      (stage.pending ++ paid).Perm (sent ++ stage'.pending ++ lost) ∧
      (stage.Honest b → stage'.Honest b') := by
  have hasked := asked_metered provider config range stage hb
  rw [hstep] at hasked
  cases step_effect (metered provider) config range stage hb with
  | records next b' method step spent pending same =>
    rw [hstep] at step
    cases step
    refine ⟨b', [method], [], [], rfl, spent, (List.append_nil _).symm, ?_, fun _ e heq => ?_⟩
    · rw [pending, List.append_nil, List.nil_append]
    · rw [heq] at pending
      exact absurd pending.symm (List.append_ne_nil_of_right_ne_nil _ (List.cons_ne_nil _ _))
  | refused e step refusal used same =>
    rw [hstep] at step
    cases step
    refine ⟨b, [], [], stage.pending, hb, .refl hfits, (List.append_nil _).symm, ?_, fun _ e' heq => ?_⟩
    · simp only [Stage.pending, List.append_nil, List.nil_append]
      exact List.Perm.refl _
    · cases heq
      exact used
  | sends next node answer step pending unrefused same =>
    rw [hstep] at step
    cases step
    obtain ⟨lost, hlost⟩ := sending_le range stage
    refine ⟨b, [], stage.sending range, lost, hb, .refl hfits, hasked, ?_,
      fun _ e heq => usedUp_of_unrefused (unrefused e heq)⟩
    rw [pending, hlost, List.append_nil, List.append_nil]
  | rests result finished =>
    subst finished
    cases hstep
    exact ⟨b, [], [], [], hb, .refl hfits, (List.append_nil _).symm, List.Perm.refl _, id⟩

end

end Chainweave.Fetch
