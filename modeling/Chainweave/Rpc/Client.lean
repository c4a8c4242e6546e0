import Chainweave.Core.Policy
import Chainweave.Sink.Tables

/-!
# What the RPC client makes of an answer

`crates/chainweave-rpc/src/client.rs` and `retry.rs`: logs of a height range and
blocks by number; for live tracking also one block and the logs of its hash; and a
range whose blocks are asked for one by one. The node is a `Provider`: it answers over
its own state, with an answer or a fault.

A log that lacks a field, lies outside the range, is of another block or was removed
is an error, and so is a height without a block.
-/
namespace Chainweave.Rpc

open Stateful Chainweave.Chain Chainweave.Backfill Chainweave.Postgres

/-- mirrors crates/chainweave-rpc/src/client.rs:45-54 -/
structure RpcBlock where
  hash : BlockHash
  parentHash : BlockHash
  number : Nat
  timestamp : Nat
  deriving DecidableEq, Repr

/-- mirrors crates/chainweave-rpc/src/client.rs:56-73 -/
structure RpcLog where
  blockHash : Option BlockHash
  blockNumber : Option Nat
  transactionHash : Option BlockHash
  transactionIndex : Option Nat
  logIndex : Option Nat
  address : Address
  topics : List BlockHash
  data : List UInt8
  removed : Bool
  deriving DecidableEq, Repr

/-- mirrors crates/chainweave-rpc/src/client.rs:75-78 -/
structure ContractLogFilter where
  address : Address
  deriving DecidableEq, Repr

/-- mirrors crates/chainweave-rpc/src/client.rs:80-85 -/
structure AnchoredRawLog where
  blockNumber : Nat
  blockHash : BlockHash
  raw : RawLog
  deriving DecidableEq, Repr

/-- The errors of the requests.
mirrors crates/chainweave-rpc/src/client.rs:87-121 -/
inductive RpcError where
  | request (message : String)
  | missingBlock (identifier : String)
  | missingBlockNumber (height : Nat)
  | missingLogField (field : String)
  | logOutsideRange (actual fromBlock toBlock : Nat)
  | logBlockHashMismatch (height : Nat)
  | logIntegerOverflow (field : String) (value : Nat)
  | invalidTimestamp (timestamp : Nat)
  deriving DecidableEq, Repr

/-- mirrors crates/chainweave-rpc/src/client.rs:87-121 -/
def RpcError.message : RpcError → String
  | .request message => s!"RPC request failed: {message}"
  | .missingBlock identifier => s!"RPC returned no block for {identifier}"
  | .missingBlockNumber height => s!"RPC returned no block at height {height}"
  | .missingLogField field => s!"RPC log is missing a required field: {field}"
  | .logOutsideRange actual a b =>
    s!"RPC log belongs to block {actual}, outside requested range {a}..={b}"
  | .logBlockHashMismatch height =>
    s!"RPC log block hash does not match fetched header at height {height}"
  | .logIntegerOverflow field value =>
    s!"RPC log integer field {field} value {value} exceeds supported range"
  | .invalidTimestamp timestamp => s!"RPC block timestamp {timestamp} is outside supported range"

/-- mirrors crates/chainweave-rpc/src/retry.rs:26-31 -/
def isHashAnchoredLogBlockNotFound (message : String) : Bool :=
  let lower := message.toList.map Char.toLower
  let contains (text : String) : Bool := text.toList <:+: lower
  contains "eth_getlogs" && (contains "blockhash" || contains "block hash") &&
    contains "block not found"

/-- mirrors crates/chainweave-rpc/src/retry.rs:9-24 -/
def classifyRpcError : RpcError → RpcFailure
  | .request message =>
    if isHashAnchoredLogBlockNotFound message then .permanent
    else
      match RpcFailure.fromRpcMessage message with
      | .permanent => .transient
      | failure => failure
  | _ => .permanent

/-! ## Conversions -/

/-- mirrors crates/chainweave-rpc/src/client.rs:685-688 -/
def requiredU32 (value : Option Nat) (field : String) : Except RpcError Nat :=
  match value with
  | none => .error (.missingLogField field)
  | some value => if 2 ^ 32 ≤ value then .error (.logIntegerOverflow field value) else .ok value

/-- `ok_or(MissingLogField(..))`. -/
def requiredField {α : Type} (value : Option α) (field : String) : Except RpcError α :=
  match value with
  | none => .error (.missingLogField field)
  | some value => .ok value

/-- mirrors crates/chainweave-rpc/src/client.rs:601-648 -/
def anchoredRawLogFromRpc (range : BackfillRange) (log : RpcLog) : Except RpcError AnchoredRawLog := do
  if log.removed then
    throw (.request "eth_getLogs returned a removed log for a historical range")
  let blockNumber ← requiredField log.blockNumber "block_number"
  if ¬ range.contains blockNumber then
    throw (.logOutsideRange blockNumber range.fromBlock range.toBlock)
  let transactionIndex ← requiredU32 log.transactionIndex "transaction_index"
  let logIndex ← requiredU32 log.logIndex "log_index"
  let blockHash ← requiredField log.blockHash "block_hash"
  let txHash ← requiredField log.transactionHash "transaction_hash"
  return {
    blockNumber
    blockHash
    raw := {
      transactionIndex
      logIndex
      txHash
      address := log.address
      topics := log.topics
      data := log.data
      decodedEvent := none
      decoderVersion := none } }

/-- mirrors crates/chainweave-rpc/src/client.rs:561-599 -/
def rawLogFromRpcBlockHash (expectedBlockHash : BlockHash) (log : RpcLog) :
    Except RpcError RawLog := do
  if log.removed then
    throw (.request "eth_getLogs returned a removed log for a hash-anchored block")
  let blockHash ← requiredField log.blockHash "block_hash"
  if blockHash ≠ expectedBlockHash then
    throw (.logBlockHashMismatch (log.blockNumber.getD 0))
  let transactionIndex ← requiredU32 log.transactionIndex "transaction_index"
  let logIndex ← requiredU32 log.logIndex "log_index"
  let txHash ← requiredField log.transactionHash "transaction_hash"
  return {
    transactionIndex
    logIndex
    txHash
    address := log.address
    topics := log.topics
    data := log.data
    decodedEvent := none
    decoderVersion := none }

/-- mirrors crates/chainweave-rpc/src/client.rs:438-446 -/
def blockHashLogError (blockHash : BlockHash) : RpcError → RpcError
  | .request message =>
    .request ("eth_getLogs blockHash " ++ hexHash blockHash ++ " failed: " ++ message)
  | error => error

/-- mirrors crates/chainweave-rpc/src/client.rs:549-555 -/
def blockHeader (block : RpcBlock) : BlockHeader := ⟨block.hash, block.parentHash, block.number⟩

/-- The last second of the year 9999, the bound of `OffsetDateTime::from_unix_timestamp`. -/
def maxTimestamp : Nat := 253402300799

/-- mirrors crates/chainweave-rpc/src/client.rs:532-547 -/
def indexedBlockFromRpc (block : RpcBlock) (logs : List RawLog) : Except RpcError IndexedBlock :=
  if maxTimestamp < block.timestamp then .error (.invalidTimestamp block.timestamp)
  else .ok {
    header := blockHeader block
    timestamp := block.timestamp
    status := .Unsafe
    statusSource := .Observed
    logs }

/-! ## Requests -/

/-- How a request ends without an answer: after `rpc_timeout`, or with an error. -/
inductive CallError where
  | timedOut
  | rpc (error : RpcError)
  deriving DecidableEq, Repr

/-- The node, behind the two requests of a backfill; `getBlocks` is the batch of
`eth_getBlockByNumber`. -/
structure Provider (σ : Type) where
  getLogs : BackfillRange → Option ContractLogFilter → Prog σ CallError (List RpcLog)
  getBlocks : BackfillRange → Prog σ CallError (List (Option RpcBlock))

variable {σ : Type}

/-- `waiter.await?.ok_or(MissingBlockNumber(height))?`, the heights from `height` on. -/
def requireBlocks : Nat → List (Option RpcBlock) → Except RpcError (List RpcBlock)
  | _, [] => .ok []
  | height, none :: _ => .error (.missingBlockNumber height)
  | height, some block :: blocks => do return block :: (← requireBlocks (height + 1) blocks)

namespace Provider

/-- mirrors crates/chainweave-rpc/src/client.rs:301-311, 496-512 -/
def fetchAnchoredLogs (self : Provider σ) (range : BackfillRange)
    (filter : Option ContractLogFilter) : Prog σ CallError (List AnchoredRawLog) := do
  let logs ← self.getLogs range filter
  lift ((logs.mapM (anchoredRawLogFromRpc range)).mapError .rpc)

/-- mirrors crates/chainweave-rpc/src/client.rs:270-279, 470-494 -/
def fetchBlocksByNumber (self : Provider σ) (range : BackfillRange) :
    Prog σ CallError (List IndexedBlock) := do
  let blocks ← self.getBlocks range
  let blocks ← lift ((requireBlocks range.fromBlock blocks).mapError .rpc)
  lift ((blocks.mapM (indexedBlockFromRpc · [])).mapError .rpc)

end Provider

/-- The node, behind the requests of live tracking as well. -/
structure LiveProvider (σ : Type) extends Provider σ where
  getBlockByNumber : Nat → Prog σ CallError (Option RpcBlock)
  getBlockByHash : BlockHash → Prog σ CallError (Option RpcBlock)
  getLogsByBlockHash : BlockHash → Option ContractLogFilter → Prog σ CallError (List RpcLog)

/-- What `block_hash_log_error` makes of a call that ends without an answer. -/
def CallError.ofBlockHash (blockHash : BlockHash) : CallError → CallError
  | .timedOut => .timedOut
  | .rpc error => .rpc (blockHashLogError blockHash error)

namespace LiveProvider

/-- mirrors crates/chainweave-rpc/src/client.rs:239-242, 449-458 -/
def fetchBlockByNumber (self : LiveProvider σ) (height : Nat) : Prog σ CallError IndexedBlock := do
  match ← self.getBlockByNumber height with
  | none => throw (.rpc (.missingBlockNumber height))
  | some block => lift ((indexedBlockFromRpc block []).mapError .rpc)

/-- mirrors crates/chainweave-rpc/src/client.rs:319-331, 514-530 -/
def fetchLogsByBlockHash (self : LiveProvider σ) (blockHash : BlockHash)
    (filter : Option ContractLogFilter) : Prog σ CallError (List RawLog) := do
  let logs ← mapError (CallError.ofBlockHash blockHash) (self.getLogsByBlockHash blockHash filter)
  lift ((logs.mapM (rawLogFromRpcBlockHash blockHash)).mapError .rpc)

/-- mirrors crates/chainweave-rpc/src/client.rs:250-264, 460-468 -/
def fetchBlockByHash (self : LiveProvider σ) (hash : BlockHash) : Prog σ CallError IndexedBlock := do
  match ← self.getBlockByHash hash with
  | none => throw (.rpc (.missingBlock "hash"))
  | some block => do
    let header := blockHeader block
    let logs ← self.fetchLogsByBlockHash hash none
    if header.hash ≠ hash then throw (.rpc (.logBlockHashMismatch header.height))
    else lift ((indexedBlockFromRpc block logs).mapError .rpc)

/-- `sort_by_key(|log| (transaction_index, log_index))`. -/
def sortLogs (logs : List AnchoredRawLog) : List AnchoredRawLog :=
  logs.mergeSort fun a b =>
    a.raw.transactionIndex < b.raw.transactionIndex ∨
      a.raw.transactionIndex = b.raw.transactionIndex ∧ a.raw.logIndex ≤ b.raw.logIndex

/-- mirrors crates/chainweave-rpc/src/client.rs:650-672 -/
def logsByHeight (logs : List AnchoredRawLog) (range : BackfillRange) :
    Except RpcError (Std.TreeMap Nat (List AnchoredRawLog)) := do
  let grouped : Std.TreeMap Nat (List AnchoredRawLog) ← logs.foldlM (fun grouped log =>
    if ¬ range.contains log.blockNumber then
      .error (.logOutsideRange log.blockNumber range.fromBlock range.toBlock)
    else .ok (grouped.insert log.blockNumber (grouped[log.blockNumber]?.getD [] ++ [log]))) ∅
  return grouped.map fun _ logs => sortLogs logs

/-- The loop of `fetch_backfill_range_from_logs`, over the heights left.
mirrors crates/chainweave-rpc/src/client.rs:387-403 -/
def blocksFromLogs (self : LiveProvider σ) :
    List Nat → Std.TreeMap Nat (List AnchoredRawLog) → Prog σ CallError (List IndexedBlock)
  | [], _ => pure []
  | height :: heights, grouped => do
    match ← self.getBlockByNumber height with
    | none => throw (.rpc (.missingBlockNumber height))
    | some block =>
      let header := blockHeader block
      let logs := grouped[height]?.getD []
      if logs.any (·.blockHash ≠ header.hash) then throw (.rpc (.logBlockHashMismatch height))
      else do
        let indexed ← lift ((indexedBlockFromRpc block (logs.map (·.raw))).mapError .rpc)
        let rest ← blocksFromLogs self heights (grouped.erase height)
        return indexed :: rest

/-- mirrors crates/chainweave-rpc/src/client.rs:379-406 -/
def fetchBackfillRangeFromLogs (self : LiveProvider σ) (range : BackfillRange)
    (logs : List AnchoredRawLog) : Prog σ CallError (FetchedRange IndexedBlock) := do
  let grouped ← lift ((logsByHeight logs range).mapError .rpc)
  let blocks ← self.blocksFromLogs range.heights grouped
  lift ((FetchedRange.new range (blocks.map (·.header)) blocks).mapError fun error =>
    .rpc (.request error.message))

end LiveProvider

end Chainweave.Rpc
