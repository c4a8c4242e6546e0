import Chainweave.Rpc.Client
import Chainweave.Sink.Abi

/-!
# Fetching one range

`crates/chainweave-cli/src/main.rs`: `fetch_range_with_retry` asks for the logs of a
height range, then for its blocks by number, and hangs each log below the block of
its height, if the hashes agree.

* The budget is shared with the other tasks; `none` is a poisoned lock.
* A request that fails is repeated as the retry policy says. The loop recurses on the
  attempts left: the policy gives up at the last one.
-/
namespace Chainweave.Fetch

open Stateful Chainweave.Chain Chainweave.Backfill Chainweave.Postgres Chainweave.Rpc

/-- mirrors crates/chainweave-cli/src/main.rs:236-259 -/
inductive FetchRangeError where
  | rpc (range : BackfillRange) (source : RpcError)
  | providerLimit (range : BackfillRange) (source : RpcError)
  | timeout (range : BackfillRange) (phase : String)
  | backfill (error : BackfillError)
  | budgetPoisoned
  | logBlockHashMismatch (height : Nat)
  deriving DecidableEq, Repr

/-- A range as `{:?}` prints it. -/
def debugRange (range : BackfillRange) : String :=
  "BackfillRange " ++ "\x7b" ++ s!" from_block: {range.fromBlock}, to_block: {range.toBlock} " ++ "\x7d"

/-- mirrors crates/chainweave-cli/src/main.rs:236-259 -/
def FetchRangeError.message : FetchRangeError → String
  | .rpc range source => s!"RPC request failed for range {debugRange range}: {source.message}"
  | .providerLimit range source =>
    s!"provider limited eth_getLogs range {debugRange range}: {source.message}"
  | .timeout range phase => s!"RPC timeout while fetching {phase} for range {debugRange range}"
  | .backfill error => s!"backfill execution error: {error.message}"
  | .budgetPoisoned => "RPC budget mutex poisoned"
  | .logBlockHashMismatch height =>
    s!"RPC log block hash does not match fetched header at height {height}"

/-- The command line takes no zero for the workers.
mirrors crates/chainweave-cli/src/main.rs:221-229 -/
structure AdaptiveFetchConfig where
  workers : Nat
  retryPolicy : RetryPolicy
  filter : Option ContractLogFilter
  abiRegistry : Option AbiRegistry
  workers_pos : 0 < workers

/-- The node, and the budget all tasks share. -/
structure Shared (σ : Type) where
  budget : Option RpcBudget
  node : σ

variable {σ α : Type}

/-- mirrors crates/chainweave-cli/src/main.rs:1088-1094 -/
def record (method : RpcMethod) (costUnits : Nat) : Prog (Shared σ) FetchRangeError Unit :=
  ExceptT.mk fun s =>
    match s.budget with
    | none => (.error .budgetPoisoned, s)
    | some budget =>
      match budget.record method costUnits with
      | .ok budget => (.ok (), { s with budget := some budget })
      | .error e => (.error (.backfill e), s)

/-- `record`, some times over. -/
def recordEach (method : RpcMethod) : Nat → Prog (Shared σ) FetchRangeError Unit
  | 0 => pure ()
  | n + 1 => do
    record method 0
    recordEach method n

/-- One round of a retry loop, `again` the rest of it. A failure in `stop` is raised as a limit of
the provider.
mirrors crates/chainweave-cli/src/main.rs:888-929, 940-972 -/
def tryOnce (policy : RetryPolicy) (range : BackfillRange) (phase : String)
    (spend : Prog (Shared σ) FetchRangeError Unit) (call : Prog σ CallError α)
    (stop : RpcFailure → Bool) (attempts : Nat) (again : Prog (Shared σ) FetchRangeError α) :
    Prog (Shared σ) FetchRangeError α := do
  spend
  match ← attempt (zoom Shared.node (fun node s => { s with node }) call) with
  | .ok answer => pure answer
  | .error .timedOut =>
    match policy.decision .timeout attempts with
    | .retryAfter _ => again
    | .giveUp => throw (.timeout range phase)
  | .error (.rpc error) =>
    let failure := classifyRpcError error
    if stop failure then throw (.providerLimit range error)
    else
      match policy.decision failure attempts with
      | .retryAfter _ => again
      | .giveUp => throw (.rpc range error)

/-- The retry loop, `left` attempts after this one. With none left the policy gives up, so what
stands for the rest is not run.
mirrors crates/chainweave-cli/src/main.rs:881-974 -/
def withRetry (policy : RetryPolicy) (range : BackfillRange) (phase : String)
    (spend : Prog (Shared σ) FetchRangeError Unit) (call : Prog σ CallError α)
    (stop : RpcFailure → Bool) : Nat → Nat → Prog (Shared σ) FetchRangeError α
  | 0, attempts =>
    tryOnce policy range phase spend call stop attempts (throw (.timeout range phase))
  | left + 1, attempts =>
    tryOnce policy range phase spend call stop attempts
      (withRetry policy range phase spend call stop left (attempts + 1))

/-- Only this request can be refused for its size.
mirrors crates/chainweave-cli/src/main.rs:881-931 -/
def fetchLogsWithRetry (provider : Provider σ) (range : BackfillRange)
    (config : AdaptiveFetchConfig) : Prog (Shared σ) FetchRangeError (List AnchoredRawLog) :=
  withRetry config.retryPolicy range "eth_getLogs" (record .getLogs 0)
    (provider.fetchAnchoredLogs range config.filter) (· = .providerLimit)
    (config.retryPolicy.maxAttempts - 1) 1

/-- mirrors crates/chainweave-cli/src/main.rs:933-974 -/
def fetchBlocksByNumberWithRetry (provider : Provider σ) (range : BackfillRange)
    (config : AdaptiveFetchConfig) : Prog (Shared σ) FetchRangeError (List IndexedBlock) :=
  withRetry config.retryPolicy range "eth_getBlockByNumber"
    (recordEach .getBlockByNumber (range.toBlock + 1 - range.fromBlock))
    (provider.fetchBlocksByNumber range) (fun _ => false) (config.retryPolicy.maxAttempts - 1) 1

/-- mirrors crates/chainweave-cli/src/main.rs:1006-1015 -/
def logsByHeight (logs : List AnchoredRawLog) : Std.TreeMap Nat (List AnchoredRawLog) :=
  logs.foldl (fun grouped log =>
    grouped.insert log.blockNumber (grouped[log.blockNumber]?.getD [] ++ [log])) ∅

/-- `registry.decode_logs_in_place`, if there is one. -/
def decodeLogs (registry : Option AbiRegistry) (logs : List RawLog) : List RawLog :=
  registry.elim logs (·.decodeLogsInPlace logs)

/-- The loop of `fetch_range_with_retry`.
mirrors crates/chainweave-cli/src/main.rs:864-877 -/
def attachLogs (registry : Option AbiRegistry) :
    List IndexedBlock → Std.TreeMap Nat (List AnchoredRawLog) →
      Except FetchRangeError (List IndexedBlock)
  | [], _ => .ok []
  | block :: blocks, grouped =>
    let header := block.header
    let logs := grouped[header.height]?.getD []
    if logs.any (·.blockHash ≠ header.hash) then .error (.logBlockHashMismatch header.height)
    else do
      let rest ← attachLogs registry blocks (grouped.erase header.height)
      return { block with logs := decodeLogs registry (logs.map (·.raw)) } :: rest

/-- mirrors crates/chainweave-cli/src/main.rs:854-879 -/
def fetchRangeWithRetry (provider : Provider σ) (range : BackfillRange)
    (config : AdaptiveFetchConfig) : Prog (Shared σ) FetchRangeError (FetchedRange IndexedBlock) := do
  let logs ← fetchLogsWithRetry provider range config
  let blocks ← fetchBlocksByNumberWithRetry provider range config
  let blocks ← lift (attachLogs config.abiRegistry blocks (logsByHeight logs))
  lift ((FetchedRange.new range (blocks.map (·.header)) blocks).mapError .backfill)

end Chainweave.Fetch
