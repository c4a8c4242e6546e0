import Mathlib.Data.List.Sort
import Chainweave.Sink.Postgres

/-!
# Startup reconciliation

`PostgresChainWriter::reconcile_to_head` brings the tables to the head of a source. It
compares canonical rows and source blocks height by height, from the lower of the two
tips down, and writes one batch from the height where they agree.

The source and the server stand side by side in the state; `reconciliationBatch` is the
part before the commit.
-/
namespace Chainweave.Postgres

open Stateful Chainweave.Chain

variable {σ : Type}

/-- mirrors crates/chainweave-sink/src/postgres.rs:138-143 -/
structure ReconciliationSummary where
  rolledBackBlocks : Nat := 0
  appliedBlocks : Nat := 0
  finalCheckpoint : Option Checkpoint := none
  deriving DecidableEq, Repr

/-- mirrors crates/chainweave-sink/src/postgres.rs:173-187 -/
inductive ReconciliationError where
  | missingSourceHeight (height : Nat)
  | missingPersistedCheckpointBlock (height : Nat)
  | maxDepthExceeded (depth : Nat)
  | brokenSourceLink (childHeight : Nat)
  | state (error : PostgresStateError)
  | source (message : String)
  deriving DecidableEq, Repr

/-- mirrors crates/chainweave-sink/src/postgres.rs:189-196 -/
structure ReconciliationSource (σ : Type) where
  head : Prog σ ReconciliationError IndexedBlock
  blockByHeight : Nat → Prog σ ReconciliationError (Option IndexedBlock)

/-- The canonical rows in a range of heights, the highest first. -/
def Database.canonicalHeadersDescending (db : Database) (fromHeight toExclusive : Nat) :
    Except PostgresStateError (List BlockHeader) := do
  let toExclusive ← pgHeight toExclusive
  let fromHeight ← pgHeight fromHeight
  return (db.1.canonical.filter fun header => toExclusive < header.height ∧ header.height ≤ fromHeight)
    |>.insertionSort fun a b => b.height ≤ a.height

/-- mirrors crates/chainweave-sink/src/postgres.rs:946-971 -/
def Server.canonicalHeadersDescending (fromHeight toExclusive : Nat) :
    Prog Server PostgresStateError (List BlockHeader) :=
  query (·.canonicalHeadersDescending fromHeight toExclusive)

namespace Reconcile

/-- Ask the source. -/
def ask {α : Type} (x : Prog σ ReconciliationError α) : Prog (σ × Server) ReconciliationError α :=
  zoom Prod.fst (fun node s => (node, s.2)) x

/-- Use the server. -/
def stored {α : Type} (x : Prog Server PostgresStateError α) :
    Prog (σ × Server) ReconciliationError α :=
  mapError .state (zoom Prod.snd (fun server s => (s.1, server)) x)

section
variable (source : ReconciliationSource σ)

/-- The source's block at a height.
mirrors crates/chainweave-sink/src/postgres.rs:1182-1186, 1250-1253 -/
def sourceBlock (height : Nat) : Prog (σ × Server) ReconciliationError IndexedBlock := do
  match ← ask (source.blockByHeight height) with
  | some block => pure block
  | none => throw (.missingSourceHeight height)

/-- The canonical header at a height, if the source has it too.
mirrors crates/chainweave-sink/src/postgres.rs:1245-1257 -/
def matchAt (height : Nat) : Prog (σ × Server) ReconciliationError (Option BlockHeader) := do
  match ← stored (Server.canonicalHeaderAtHeight height) with
  | none => throw (.missingPersistedCheckpointBlock height)
  | some persisted => do
    let block ← sourceBlock source height
    pure (if persisted = block.header then some persisted else none)

/-- The loop of `find_reconciliation_common_ancestor`.
mirrors crates/chainweave-sink/src/postgres.rs:1244-1264 -/
def walkBack (maxWalkBackDepth : Nat) :
    Nat → Nat → Prog (σ × Server) ReconciliationError BlockHeader
  | _, 0 => do
    match ← matchAt source 0 with
    | some common => pure common
    | none => throw (.maxDepthExceeded maxWalkBackDepth)
  | walked, height + 1 => do
    match ← matchAt source (height + 1) with
    | some common => pure common
    | none =>
      if maxWalkBackDepth < walked + 1 then throw (.maxDepthExceeded maxWalkBackDepth)
      else walkBack maxWalkBackDepth (walked + 1) height

/-- mirrors crates/chainweave-sink/src/postgres.rs:1229-1265 -/
def findReconciliationCommonAncestor (checkpoint : Option Checkpoint) (headHeight : Nat)
    (maxWalkBackDepth : Nat) : Prog (σ × Server) ReconciliationError (Option BlockHeader) := do
  match checkpoint with
  | none => pure none
  | some checkpoint => do
    let common ← walkBack source maxWalkBackDepth 0 (min checkpoint.lastHeight headHeight)
    pure (some common)

/-- One height of the loop that collects the applies.
mirrors crates/chainweave-sink/src/postgres.rs:1181-1196 -/
def collectApply (collected : Option BlockHash × List DurableChainEvent) (height : Nat) :
    Prog (σ × Server) ReconciliationError (Option BlockHash × List DurableChainEvent) := do
  let (previous, events) := collected
  let block ← sourceBlock source height
  if previous.any (· ≠ block.header.parentHash) then throw (.brokenSourceLink height)
  else pure (some block.header.hash, events ++ [.apply block])

/-- mirrors crates/chainweave-sink/src/postgres.rs:1204-1213 -/
def transitionOf (events : List DurableChainEvent) (common : Option BlockHeader) : ChainTransition :=
  if events.any fun | .rollback _ => true | .apply _ => false then .reorg
  else if common.isSome then .gap
  else .bootstrap

/-- mirrors crates/chainweave-sink/src/postgres.rs:1158-1219 -/
def reconciliationBatch (maxWalkBackDepth : Nat) :
    Prog (σ × Server) ReconciliationError DurableChainBatch := do
  let head ← ask source.head
  let checkpoint ← stored Server.checkpoint
  let common ← findReconciliationCommonAncestor source checkpoint head.header.height maxWalkBackDepth
  let rollbacks ← match checkpoint with
    | none => pure []
    | some checkpoint =>
      stored (Server.canonicalHeadersDescending checkpoint.lastHeight (common.elim 0 (·.height)))
  let startHeight := common.elim 0 (·.height + 1)
  let (_, events) ← (List.range' startHeight (head.header.height + 1 - startHeight)).foldlM
    (collectApply source) (common.map (·.hash), rollbacks.map .rollback)
  return { transition := transitionOf events common, commonAncestor := common, events }

/-- mirrors crates/chainweave-sink/src/postgres.rs:1149-1227 -/
def reconcileToHead (maxWalkBackDepth : Nat) :
    Prog (σ × Server) ReconciliationError ReconciliationSummary := do
  let batch ← reconciliationBatch source maxWalkBackDepth
  if batch.isEmpty then
    let finalCheckpoint ← stored Server.checkpoint
    return { finalCheckpoint }
  else
    let report ← stored (Server.applyBatch batch)
    let finalCheckpoint ← stored Server.checkpoint
    return {
      rolledBackBlocks := report.rolledBackBlocks
      appliedBlocks := report.appliedBlocks
      finalCheckpoint }

end

end Reconcile

end Chainweave.Postgres
