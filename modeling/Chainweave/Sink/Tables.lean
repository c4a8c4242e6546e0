import Mathlib.Data.List.Nodup
import Mathlib.Tactic.MkIffOfInductiveProp
import Chainweave.Core.Chain

/-!
# The tables of one chain and the statements on them

`migrations/20260831000000_postgres_chain_state.sql` and the statements of
`crates/chainweave-sink/src/postgres.rs`, for the rows of one `chain_id`.

* `Tables.Valid`: the migration's keys, checks and foreign keys. A `Database` is
  a set of tables that satisfies them.
* A statement returns the new tables, or the error Postgres raises; what it
  returns satisfies the constraints again (`valid_*`).
* `canonical`: the headers of the canonical rows. Most proofs look at the tables
  through it: `mem_canonical_*` say what each statement does to it.

Left out: columns that no modelled function reads (`inserted_at`, `updated_at`,
`created_at`, `published_at`, `event_id`; the outbox list is in `event_id`
order) and the row of `chain_identity`, which exists before the writer is used.
-/
namespace Chainweave.Postgres

open Chainweave.Chain

abbrev Address := BitVec 160

/-- A JSON value, as its text. -/
abbrev Json := String

/-- mirrors crates/chainweave-sink/src/postgres.rs:24-29 -/
inductive BlockStatus where
  | Unsafe | Safe | Finalized
  deriving DecidableEq, Repr

/-- mirrors crates/chainweave-sink/src/postgres.rs:31-36 -/
inductive StatusSource where
  | Observed | Native | Depth
  deriving DecidableEq, Repr

/-- mirrors crates/chainweave-sink/src/postgres.rs:38-48 -/
structure RawLog where
  transactionIndex : Nat
  logIndex : Nat
  txHash : BlockHash
  address : Address
  topics : List BlockHash
  data : List UInt8
  decodedEvent : Option Json
  decoderVersion : Option String
  deriving DecidableEq, Repr

/-- mirrors crates/chainweave-sink/src/postgres.rs:67-74 -/
structure IndexedBlock where
  header : BlockHeader
  timestamp : Int
  status : BlockStatus
  statusSource : StatusSource
  logs : List RawLog
  deriving DecidableEq, Repr

/-- What a statement can violate. -/
inductive SqlError where
  | canonicalHeight | logTopics | logBlock | outboxBlock | connection
  deriving DecidableEq, Repr

def SqlError.message : SqlError → String
  | .canonicalHeight => "error returned from database: duplicate key value violates unique " ++
      "constraint \"uq_blocks_canonical_height\""
  | .logTopics => "error returned from database: new row for relation \"logs\" violates check " ++
      "constraint \"logs_topics_check\""
  | .logBlock => "error returned from database: insert or update on table \"logs\" violates " ++
      "foreign key constraint \"logs_chain_id_block_hash_block_number_fkey\""
  | .outboxBlock => "error returned from database: insert or update on table \"outbox_events\" " ++
      "violates foreign key constraint \"outbox_events_chain_id_block_hash_block_height_fkey\""
  | .connection => "error communicating with database"

/-- mirrors crates/chainweave-sink/src/postgres.rs:145-171 -/
inductive PostgresStateError where
  | heightOverflow (height : Nat)
  | intOverflow (value : Nat)
  | missingApplyBlock (hash : BlockHash)
  | unexpectedApplyBlock (hash : BlockHash)
  | missingRollbackBlock (hash : BlockHash)
  | nonCanonicalCheckpoint (hash : BlockHash) (height : Nat)
  | database (error : SqlError)
  deriving DecidableEq, Repr

/-- mirrors crates/chainweave-sink/src/postgres.rs:1534-1545 -/
def hexHash (hash : BlockHash) : String := "0x" ++ hash.toHex

/-- mirrors crates/chainweave-sink/src/postgres.rs:145-171 -/
def PostgresStateError.message : PostgresStateError → String
  | .heightOverflow h => s!"block height {h} exceeds Postgres BIGINT"
  | .intOverflow v => s!"log index value {v} exceeds Postgres INT"
  | .missingApplyBlock h =>
    "apply block for hash " ++ hexHash h ++ " is missing from durable batch input"
  | .unexpectedApplyBlock h => "durable batch contains apply block " ++ hexHash h ++
      " that was not requested by ChainBatch"
  | .missingRollbackBlock h => "rollback block " ++ hexHash h ++ " is not persisted"
  | .nonCanonicalCheckpoint h n =>
    "checkpoint target " ++ hexHash h ++ s!" at height {n} is not canonical"
  | .database e => "database error: " ++ e.message

def bigintMax : Nat := 2 ^ 63 - 1

def intMax : Nat := 2 ^ 31 - 1

/-- mirrors crates/chainweave-sink/src/postgres.rs:1506-1508 -/
def pgHeight (value : Nat) : Except PostgresStateError Nat :=
  if value ≤ bigintMax then .ok value else .error (.heightOverflow value)

/-- mirrors crates/chainweave-sink/src/postgres.rs:1510-1512 -/
def pgInt (value : Nat) : Except PostgresStateError Nat :=
  if value ≤ intMax then .ok value else .error (.intOverflow value)

/-! ## Rows -/

structure BlockRow where
  header : BlockHeader
  timestamp : Int
  isCanonical : Bool
  status : BlockStatus
  statusSource : StatusSource
  deriving DecidableEq, Repr

/-- A canonical row with this hash and height. -/
def BlockRow.isAt (row : BlockRow) (hash : BlockHash) (height : Nat) : Bool :=
  row.header.hash = hash ∧ row.header.height = height ∧ row.isCanonical

structure LogRow where
  blockHash : BlockHash
  blockNumber : Nat
  log : RawLog
  deriving DecidableEq, Repr

/-- The row of this block and log index. -/
def LogRow.isAt (row : LogRow) (hash : BlockHash) (logIndex : Nat) : Bool :=
  row.blockHash = hash ∧ row.log.logIndex = logIndex

/-- mirrors crates/chainweave-sink/src/postgres.rs:89-93 -/
structure Checkpoint where
  lastHeight : Nat
  lastHash : BlockHash
  deriving DecidableEq, Repr

inductive EventKind where
  | apply | rollback
  deriving DecidableEq, Repr

/-- The object `append_outbox` writes, before it is printed as JSON.
mirrors crates/chainweave-sink/src/postgres.rs:751-762 -/
structure OutboxPayload where
  schemaVersion : Nat
  transition : EventKind
  chainId : Nat
  blockHash : BlockHash
  parentHash : BlockHash
  blockHeight : Nat
  status : Option BlockStatus
  statusSource : Option StatusSource
  logCount : Nat
  logs : List RawLog
  deriving DecidableEq, Repr

structure OutboxRow where
  eventKind : EventKind
  blockHash : BlockHash
  blockHeight : Nat
  payload : OutboxPayload
  deriving DecidableEq, Repr

/-- The rows of one chain. -/
structure Tables where
  chainId : Nat
  blocks : List BlockRow
  logs : List LogRow
  checkpoint : Option Checkpoint
  outbox : List OutboxRow
  deriving DecidableEq, Repr

namespace Tables

/-- The headers of the block rows. -/
def headers (t : Tables) : List BlockHeader := t.blocks.map (·.header)

/-- The headers of the canonical rows. -/
def canonical (t : Tables) : List BlockHeader :=
  (t.blocks.filter (·.isCanonical)).map (·.header)

/-- A block row with this hash and height, the target of the foreign keys. -/
def Names (t : Tables) (hash : BlockHash) (height : Nat) : Prop :=
  ∃ h ∈ t.headers, h.hash = hash ∧ h.height = height

instance (t : Tables) (hash : BlockHash) (height : Nat) : Decidable (t.Names hash height) :=
  inferInstanceAs (Decidable (∃ h ∈ _, _))

/-- The constraints of the migration.
mirrors migrations/20260831000000_postgres_chain_state.sql:7-69 -/
@[mk_iff] structure Valid (t : Tables) : Prop where
  block_key : (t.headers.map (·.hash)).Nodup
  block_height : ∀ h ∈ t.headers, h.height ≤ bigintMax
  canonical_height : ∀ a ∈ t.canonical, ∀ b ∈ t.canonical, a.height = b.height → a = b
  log_key : (t.logs.map fun row => (row.blockHash, row.log.logIndex)).Nodup
  log_topics : ∀ row ∈ t.logs, row.log.topics.length ≤ 4
  log_ints : ∀ row ∈ t.logs, row.log.transactionIndex ≤ intMax ∧ row.log.logIndex ≤ intMax
  log_block : ∀ row ∈ t.logs, t.Names row.blockHash row.blockNumber
  checkpoint_block : ∀ c ∈ t.checkpoint, t.Names c.lastHash c.lastHeight
  outbox_block : ∀ row ∈ t.outbox, t.Names row.blockHash row.blockHeight

instance (t : Tables) : Decidable t.Valid := decidable_of_iff _ t.valid_iff.symm

end Tables

/-- Tables that satisfy the constraints. -/
abbrev Database := { t : Tables // t.Valid }

/-- The tables after the migration. -/
def Database.empty (chainId : Nat) : Database :=
  ⟨{ chainId, blocks := [], logs := [], checkpoint := none, outbox := [] },
    { block_key := by simp [Tables.headers]
      block_height := by simp [Tables.headers]
      canonical_height := by simp [Tables.canonical]
      log_key := by simp
      log_topics := by simp
      log_ints := by simp
      log_block := by simp
      checkpoint_block := by simp
      outbox_block := by simp }⟩

/-! ## Statements -/

namespace Tables

/-- `UPDATE blocks SET is_canonical = FALSE`. -/
def demote (t : Tables) (hash : BlockHash) (height : Nat) : Tables :=
  { t with blocks := t.blocks.map fun row =>
      if row.isAt hash height then { row with isCanonical := false } else row }

/-- Whether the row was canonical, and the tables with it made non-canonical.
mirrors crates/chainweave-sink/src/postgres.rs:514-554 -/
def rollbackBlock (t : Tables) (header : BlockHeader) :
    Except PostgresStateError (Bool × Tables) :=
  if t.headers.all (·.hash ≠ header.hash) then .error (.missingRollbackBlock header.hash)
  else do
    let height ← pgHeight header.height
    return (t.blocks.countP (·.isAt header.hash height) = 1, t.demote header.hash height)

/-- The row an apply inserts. -/
def newRow (block : IndexedBlock) : BlockRow where
  header := block.header
  timestamp := block.timestamp
  isCanonical := true
  status := block.status
  statusSource := block.statusSource

/-- `INSERT INTO blocks`. -/
def insertBlock (t : Tables) (block : IndexedBlock) : Tables :=
  { t with blocks := t.blocks ++ [newRow block] }

/-- `ON CONFLICT (chain_id, block_hash) DO UPDATE`: the stored parent and height stay. -/
def promote (t : Tables) (block : IndexedBlock) : Tables :=
  { t with blocks := t.blocks.map fun row =>
      if row.header.hash = block.header.hash then { newRow block with header := row.header }
      else row }

/-- Whether a row was inserted or made canonical, and the tables with it.
mirrors crates/chainweave-sink/src/postgres.rs:556-588 -/
def upsertBlock (t : Tables) (block : IndexedBlock) : Except PostgresStateError (Bool × Tables) := do
  let _ ← pgHeight block.header.height
  match t.blocks.find? (·.header.hash = block.header.hash) with
  | none =>
    if t.canonical.any (·.height = block.header.height) then
      throw (.database .canonicalHeight)
    else return (true, t.insertBlock block)
  | some stored =>
    if stored.isCanonical then return (false, t)
    else if t.canonical.any (·.height = stored.header.height) then
      throw (.database .canonicalHeight)
    else return (true, t.promote block)

/-- The decoder columns of a log row after a conflicting insert: new values where there are any, if
the raw columns agree.
mirrors crates/chainweave-sink/src/postgres.rs:607-626 -/
def mergeLog (row : LogRow) (number : Nat) (log : RawLog) : LogRow :=
  if row.blockNumber = number ∧ row.log.transactionIndex = log.transactionIndex ∧
      row.log.txHash = log.txHash ∧ row.log.address = log.address ∧
      row.log.topics = log.topics ∧ row.log.data = log.data then
    { row with log := { row.log with
        decodedEvent := log.decodedEvent.or row.log.decodedEvent
        decoderVersion := log.decoderVersion.or row.log.decoderVersion } }
  else row

/-- `ON CONFLICT (chain_id, block_hash, log_index) DO UPDATE`. -/
def mergeLogs (t : Tables) (hash : BlockHash) (number : Nat) (log : RawLog) : Tables :=
  { t with logs := t.logs.map fun row =>
      if row.isAt hash log.logIndex then mergeLog row number log else row }

/-- `INSERT INTO logs`. -/
def insertLog (t : Tables) (hash : BlockHash) (number : Nat) (log : RawLog) : Tables :=
  { t with logs := t.logs ++ [{ blockHash := hash, blockNumber := number, log }] }

/-- The check on `topics` comes before the conflict, the foreign key after it.
mirrors crates/chainweave-sink/src/postgres.rs:597-640 -/
def upsertLog (t : Tables) (header : BlockHeader) (log : RawLog) :
    Except PostgresStateError Tables := do
  let number ← pgHeight header.height
  let _ ← pgInt log.transactionIndex
  let _ ← pgInt log.logIndex
  if 4 < log.topics.length then throw (.database .logTopics)
  else if t.logs.any (·.isAt header.hash log.logIndex) then
    return t.mergeLogs header.hash number log
  else if t.Names header.hash number then return t.insertLog header.hash number log
  else throw (.database .logBlock)

/-- mirrors crates/chainweave-sink/src/postgres.rs:590-645 -/
def upsertLogs (t : Tables) (block : IndexedBlock) : Except PostgresStateError Tables :=
  block.logs.foldlM (fun t log => t.upsertLog block.header log) t

/-- The payload of an outbox row: the block's logs for an apply, none for a rollback. -/
def outboxPayload (t : Tables) (eventKind : EventKind) (header : BlockHeader)
    (block : Option IndexedBlock) : OutboxPayload where
  schemaVersion := 1
  transition := eventKind
  chainId := t.chainId
  blockHash := header.hash
  parentHash := header.parentHash
  blockHeight := header.height
  status := block.map (·.status)
  statusSource := block.map (·.statusSource)
  logCount := block.elim 0 (·.logs.length)
  logs := block.elim [] (·.logs)

/-- `INSERT INTO outbox_events`. -/
def insertOutbox (t : Tables) (eventKind : EventKind) (header : BlockHeader)
    (block : Option IndexedBlock) : Tables :=
  let payload := t.outboxPayload eventKind header block
  let row := { eventKind, blockHash := header.hash, blockHeight := header.height, payload }
  { t with outbox := t.outbox ++ [row] }

/-- mirrors crates/chainweave-sink/src/postgres.rs:726-784 -/
def appendOutbox (t : Tables) (eventKind : EventKind) (header : BlockHeader)
    (block : Option IndexedBlock) : Except PostgresStateError Tables := do
  let height ← pgHeight header.height
  if t.Names header.hash height then return t.insertOutbox eventKind header block
  else throw (.database .outboxBlock)

/-- `INSERT INTO checkpoint .. ON CONFLICT (chain_id) DO UPDATE`. -/
def setCheckpoint (t : Tables) (target : BlockHeader) : Tables :=
  { t with checkpoint := some { lastHeight := target.height, lastHash := target.hash } }

/-- mirrors crates/chainweave-sink/src/postgres.rs:826-870 -/
def moveCheckpoint (t : Tables) (target : BlockHeader) : Except PostgresStateError Tables := do
  let height ← pgHeight target.height
  if t.canonical.any fun h => h.hash = target.hash ∧ h.height = height then
    return t.setCheckpoint target
  else throw (.nonCanonicalCheckpoint target.hash target.height)

end Tables

/-! ## Reads -/

namespace Database

/-- mirrors crates/chainweave-sink/src/postgres.rs:897-914 -/
def canonicalHeaderAtHeight (db : Database) (height : Nat) :
    Except PostgresStateError (Option BlockHeader) := do
  let height ← pgHeight height
  return db.1.canonical.find? (·.height = height)

/-- mirrors crates/chainweave-sink/src/postgres.rs:921-944 -/
def canonicalHeaderByHash (db : Database) (hash : BlockHash) : Option BlockHeader :=
  db.1.canonical.find? (·.hash = hash)

end Database

end Chainweave.Postgres
