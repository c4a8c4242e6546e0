import Chainweave.Cli.Fetch
import Chainweave.Cli.LiveRuntime
import Chainweave.Rpc.Retry

/-!
# The live source

`crates/chainweave-cli/src/live_runtime.rs`: the windowed budget of `RpcLiveSource`,
and how it fetches one block: the block by number, then its logs by its hash.

* A refused request sleeps until its window is over and asks again. `rounds` bounds
  how often one call is watched doing so; beyond it the call is `asleep`.
* `rpc_timeout` is the call that ends with `CallError.timedOut`.
-/
namespace Chainweave.Runtime

open Stateful Chainweave.Chain Chainweave.Backfill Chainweave.Postgres Chainweave.Rpc
  Chainweave.Fetch Chainweave.Live

/-! ## The windowed budget -/

/-- mirrors crates/chainweave-cli/src/live_runtime.rs:1243-1248 -/
structure WindowedLiveBudget where
  maxCostUnits : Nat
  window : Duration
  startedAt : Nat
  budget : RpcBudget
  window_pos : 0 < window

namespace WindowedLiveBudget

/-- mirrors crates/chainweave-cli/src/live_runtime.rs:1256-1272 -/
def new (maxCostUnits : Nat) (window : Duration) (now : Nat) :
    Except LiveRuntimeError WindowedLiveBudget :=
  if h : window = 0 then .error (.budget "live budget window must be nonzero")
  else do
    let budget ← (RpcBudget.new u64Max maxCostUnits).mapError .backfill
    return { maxCostUnits, window, startedAt := now, budget, window_pos := Nat.pos_of_ne_zero h }

/-- mirrors crates/chainweave-cli/src/live_runtime.rs:1304-1308 -/
def reset (now : Nat) : Prog WindowedLiveBudget LiveRuntimeError Unit := do
  modify fun self => { self with startedAt := now }
  let self ← get
  let budget ← lift ((RpcBudget.new u64Max self.maxCostUnits).mapError .backfill)
  modify fun self => { self with budget }

/-- `none` is a request the window still had room for.
mirrors crates/chainweave-cli/src/live_runtime.rs:1280-1293 -/
def recordAt (method : RpcMethod) (now : Nat) :
    Prog WindowedLiveBudget LiveRuntimeError (Option Duration) := do
  let self ← get
  if self.window ≤ now - self.startedAt then reset now
  let self ← get
  match self.budget.record method method.defaultCost with
  | .ok budget => do
    modify fun self => { self with budget }
    return none
  | .error _ => return some (self.window - (now - self.startedAt))

end WindowedLiveBudget

/-! ## One block -/

/-- mirrors crates/chainweave-cli/src/live_runtime.rs:82-90 -/
structure RuntimeLiveConfig where
  retryPolicy : RetryPolicy
  filter : Option ContractLogFilter
  abiRegistry : Option AbiRegistry

/-- The budget of the source, and the node. -/
structure LiveSourceState (σ : Type) where
  budget : WindowedLiveBudget
  node : σ

/-- How a call ends without a result. -/
inductive Unfinished where
  | asleep
  | failed (error : LiveRuntimeError)
  deriving DecidableEq, Repr

/-- What `RpcLiveSource` calls.
mirrors crates/chainweave-cli/src/live_runtime.rs:92-97 -/
structure RpcLiveClient (σ : Type) where
  client : LiveProvider σ
  config : RuntimeLiveConfig
  clock : Clock σ
  rounds : Nat

namespace RpcLiveClient

variable {σ α : Type} (self : RpcLiveClient σ)

/-- mirrors crates/chainweave-cli/src/live_runtime.rs:1295-1302 -/
def recordOrBackoff (method : RpcMethod) : Nat → Prog (LiveSourceState σ) Unfinished Unit
  | 0 => throw .asleep
  | rounds + 1 => do
    let s ← get
    let delay ← mapError .failed (zoom LiveSourceState.budget (fun budget s => { s with budget })
      (WindowedLiveBudget.recordAt method (self.clock.now s.node)))
    match delay with
    | some delay => do
      modify fun s => { s with node := self.clock.sleep delay s.node }
      recordOrBackoff method rounds
    | none => pure ()

/-- One request under the retry policy. -/
def request (timeoutError : RpcError) (operation : Prog σ CallError α) :
    Prog (LiveSourceState σ) Unfinished α :=
  mapError (fun error => .failed (.rpc error.message))
    (zoom LiveSourceState.node (fun node s => { s with node })
      (retryRpcRequest self.clock self.config.retryPolicy timeoutError operation))

/-- mirrors crates/chainweave-cli/src/live_runtime.rs:198-202 -/
def decodeBlockLogs (block : IndexedBlock) : IndexedBlock :=
  { block with logs := decodeLogs self.config.abiRegistry block.logs }

/-- mirrors crates/chainweave-cli/src/live_runtime.rs:142-173 -/
def blockByNumber (height : Nat) : Prog (LiveSourceState σ) Unfinished IndexedBlock := do
  self.recordOrBackoff .getBlockByNumber self.rounds
  let block ← self.request (.request s!"timed out fetching block at height {height}")
    (self.client.fetchBlockByNumber height)
  self.recordOrBackoff .getLogs self.rounds
  let logs ← self.request
    (.request ("timed out fetching logs by block hash " ++ debugHash block.header.hash))
    (self.client.fetchLogsByBlockHash block.header.hash self.config.filter)
  return self.decodeBlockLogs { block with logs }

/-- The filter of the configuration is not asked for.
mirrors crates/chainweave-cli/src/live_runtime.rs:179-196 -/
def blockByHash (hash : BlockHash) : Prog (LiveSourceState σ) Unfinished IndexedBlock := do
  self.recordOrBackoff .getBlockByHash self.rounds
  self.recordOrBackoff .getLogs self.rounds
  let block ← self.request
    (.request ("timed out fetching block by hash " ++ debugHash hash))
    (self.client.fetchBlockByHash hash)
  return self.decodeBlockLogs block

end RpcLiveClient

end Chainweave.Runtime
