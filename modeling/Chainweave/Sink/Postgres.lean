import Chainweave.Core.Backfill
import Chainweave.Sink.Constraints

/-!
# The chain writer

`crates/chainweave-sink/src/postgres.rs`: a `ChainBatch` with the fetched blocks
becomes a `DurableChainBatch`; `apply_batch` runs it in one transaction; the
backfill committer turns a fetched range into such a batch.

* `applyBatch`: the transaction, on a `Database`. It fails and changes nothing, or
  it commits.
* `Server`: Postgres as its client sees it. `commitFaults` and `readFaults` are
  what the next transactions and reads meet (an empty list: no fault), and the
  ghost `history` lists the transactions committed so far.

Left out: metrics, tracing, and `CrashPoint::TransactionStep`, which parks inside
a transaction that then never commits.
-/
namespace Chainweave.Postgres

open Stateful Chainweave.Chain Chainweave.Backfill

/-- mirrors crates/chainweave-sink/src/postgres.rs:76-80 -/
inductive DurableChainEvent where
  | apply (block : IndexedBlock)
  | rollback (header : BlockHeader)
  deriving DecidableEq, Repr

def DurableChainEvent.header : DurableChainEvent → BlockHeader
  | .apply block => block.header
  | .rollback header => header

def DurableChainEvent.kind : DurableChainEvent → EventKind
  | .apply _ => .apply
  | .rollback _ => .rollback

/-- mirrors crates/chainweave-sink/src/postgres.rs:82-87 -/
structure DurableChainBatch where
  transition : ChainTransition
  commonAncestor : Option BlockHeader
  events : List DurableChainEvent
  deriving DecidableEq, Repr

/-- mirrors crates/chainweave-sink/src/postgres.rs:130-136 -/
structure ApplyReport where
  appliedBlocks : Nat := 0
  rolledBackBlocks : Nat := 0
  upsertedLogs : Nat := 0
  appendedOutboxEvents : Nat := 0
  deriving DecidableEq, Repr

namespace DurableChainBatch

/-- The loop of `from_chain_batch`: the events with their blocks, and the blocks left over. -/
def takeBlocks (blocks : Std.TreeMap BlockHash IndexedBlock) : List ChainEvent →
    Except PostgresStateError (List DurableChainEvent × Std.TreeMap BlockHash IndexedBlock)
  | [] => .ok ([], blocks)
  | .rollback header :: events => do
    let (durable, rest) ← takeBlocks blocks events
    return (.rollback header :: durable, rest)
  | .apply header :: events =>
    match blocks[header.hash]? with
    | none => .error (.missingApplyBlock header.hash)
    | some block => do
      let (durable, rest) ← takeBlocks (blocks.erase header.hash) events
      return (.apply block :: durable, rest)

/-- A `HashMap` is a `TreeMap`; which of several unused blocks the error names is not specified.
mirrors crates/chainweave-sink/src/postgres.rs:274-307 -/
def fromChainBatch (batch : ChainBatch) (applyBlocks : List IndexedBlock) :
    Except PostgresStateError DurableChainBatch := do
  let blocks : Std.TreeMap BlockHash IndexedBlock :=
    applyBlocks.foldl (fun blocks block => blocks.insert block.header.hash block) ∅
  let (events, rest) ← takeBlocks blocks batch.events
  match rest.keys.head? with
  | some extra => throw (.unexpectedApplyBlock extra)
  | none =>
    return { transition := batch.transition, commonAncestor := batch.commonAncestor, events }

/-- mirrors crates/chainweave-sink/src/postgres.rs:309-312 -/
def isEmpty (batch : DurableChainBatch) : Bool := batch.events.isEmpty

end DurableChainBatch

/-! ## The transaction -/

/-- The outbox row of an event that changed a block row. -/
def appendChanged (t : Tables) (kind : EventKind) (header : BlockHeader)
    (block : Option IndexedBlock) : Bool → Except PostgresStateError (Bool × Tables)
  | false => .ok (false, t)
  | true => do
    let t ← t.appendOutbox kind header block
    return (true, t)

/-- One event on the tables: whether it changed a block row, and the tables it leaves. -/
def eventTables (t : Tables) : DurableChainEvent → Except PostgresStateError (Bool × Tables)
  | .rollback header => do
    let (changed, t) ← t.rollbackBlock header
    appendChanged t .rollback header none changed
  | .apply block => do
    let (changed, t) ← t.upsertBlock block
    let t ← t.upsertLogs block
    appendChanged t .apply block.header (some block) changed

/-- The checkpoint target after one event. -/
def targetAfter (commonAncestor : Option BlockHeader) : DurableChainEvent → Option BlockHeader
  | .rollback _ => commonAncestor
  | .apply block => some block.header

/-- The counters of the report after one event. -/
def countEvent (report : ApplyReport) (changed : Bool) : DurableChainEvent → ApplyReport
  | .rollback _ => { report with
      rolledBackBlocks := report.rolledBackBlocks + changed.toNat
      appendedOutboxEvents := report.appendedOutboxEvents + changed.toNat }
  | .apply block => { report with
      appliedBlocks := report.appliedBlocks + changed.toNat
      upsertedLogs := report.upsertedLogs + block.logs.length
      appendedOutboxEvents := report.appendedOutboxEvents + changed.toNat }

/-- The locals of `apply_batch_inner`. -/
structure Transaction where
  tables : Tables
  report : ApplyReport
  checkpointTarget : Option BlockHeader

/-- One round of the loop of `apply_batch_inner`.
mirrors crates/chainweave-sink/src/postgres.rs:431-471 -/
def applyEvent (commonAncestor : Option BlockHeader) (tx : Transaction) (event : DurableChainEvent) :
    Except PostgresStateError Transaction := do
  let (changed, tables) ← eventTables tx.tables event
  return {
    tables
    report := countEvent tx.report changed event
    checkpointTarget := targetAfter commonAncestor event }

/-- `if let Some(target) = checkpoint_target { move_checkpoint }`. -/
def moveTarget (t : Tables) : Option BlockHeader → Except PostgresStateError Tables
  | some target => t.moveCheckpoint target
  | none => .ok t

/-- mirrors crates/chainweave-sink/src/postgres.rs:416-512 -/
def applyTables (t : Tables) (batch : DurableChainBatch) :
    Except PostgresStateError (ApplyReport × Tables) := do
  let tx ← batch.events.foldlM (applyEvent batch.commonAncestor)
    { tables := t, report := {}, checkpointTarget := batch.commonAncestor }
  let tables ← moveTarget tx.tables tx.checkpointTarget
  return (tx.report, tables)

theorem appendChanged_ok {t t' : Tables} {kind : EventKind} {header : BlockHeader}
    {block : Option IndexedBlock} {changed c : Bool}
    (h : appendChanged t kind header block changed = .ok (c, t')) :
    c = changed ∧ (changed = false ∧ t' = t ∨
      changed = true ∧ t.appendOutbox kind header block = .ok t') := by
  cases changed with
  | false => cases h; exact ⟨rfl, .inl ⟨rfl, rfl⟩⟩
  | true =>
    obtain ⟨u, hu, h⟩ := ok_bind.1 h
    cases h
    exact ⟨rfl, .inr ⟨rfl, hu⟩⟩

theorem valid_appendChanged {t t' : Tables} (h : t.Valid) {kind : EventKind} {header : BlockHeader}
    {block : Option IndexedBlock} {changed c : Bool}
    (ha : appendChanged t kind header block changed = .ok (c, t')) : t'.Valid := by
  obtain ⟨-, ⟨-, rfl⟩ | ⟨-, ho⟩⟩ := appendChanged_ok ha
  · exact h
  · exact Tables.valid_appendOutbox h ho

theorem valid_eventTables {t t' : Tables} (h : t.Valid) {event : DurableChainEvent} {changed : Bool}
    (he : eventTables t event = .ok (changed, t')) : t'.Valid := by
  cases event with
  | rollback header =>
    obtain ⟨⟨c, u⟩, hr, ha⟩ := ok_bind.1 he
    obtain ⟨-, -, -, rfl⟩ := Tables.rollbackBlock_ok hr
    exact valid_appendChanged (Tables.valid_demote h header.hash header.height) ha
  | apply block =>
    obtain ⟨⟨c, u⟩, hu, he⟩ := ok_bind.1 he
    obtain ⟨v, hl, ha⟩ := ok_bind.1 he
    exact valid_appendChanged (Tables.valid_upsertLogs (Tables.valid_upsertBlock h hu) hl) ha

theorem applyEvent_ok {commonAncestor : Option BlockHeader} {tx tx' : Transaction}
    {event : DurableChainEvent} (h : applyEvent commonAncestor tx event = .ok tx') :
    ∃ changed, eventTables tx.tables event = .ok (changed, tx'.tables) ∧
      tx'.report = countEvent tx.report changed event ∧
      tx'.checkpointTarget = targetAfter commonAncestor event := by
  obtain ⟨⟨changed, t⟩, he, h⟩ := ok_bind.1 h
  cases h
  exact ⟨changed, he, rfl, rfl⟩

theorem valid_applyEvents {commonAncestor : Option BlockHeader} :
    ∀ {events : List DurableChainEvent} {tx tx' : Transaction}, tx.tables.Valid →
      events.foldlM (applyEvent commonAncestor) tx = .ok tx' → tx'.tables.Valid
  | [], _, _, hv, h => by cases h; exact hv
  | event :: events, tx, tx', hv, h => by
    rw [List.foldlM_cons] at h
    obtain ⟨u, hu, h⟩ := ok_bind.1 h
    obtain ⟨_, he, -⟩ := applyEvent_ok hu
    exact valid_applyEvents (valid_eventTables hv he) h

theorem valid_applyTables {t t' : Tables} (hv : t.Valid) {batch : DurableChainBatch}
    {report : ApplyReport} (h : applyTables t batch = .ok (report, t')) : t'.Valid := by
  obtain ⟨tx, hf, h⟩ := ok_bind.1 h
  obtain ⟨u, hm, h⟩ := ok_bind.1 h
  cases h
  have htx := valid_applyEvents hv hf
  unfold moveTarget at hm
  split at hm
  · exact Tables.valid_moveCheckpoint htx hm
  · cases hm; exact htx

/-- The transaction: it commits, or it fails and the tables stay.
mirrors crates/chainweave-sink/src/postgres.rs:396-401, 416-512 -/
def applyBatch (db : Database) (batch : DurableChainBatch) :
    Except PostgresStateError (ApplyReport × Database) :=
  if batch.isEmpty then .ok ({}, db)
  else
    match h : applyTables db.1 batch with
    | .ok (report, t) => .ok (report, ⟨t, valid_applyTables db.2 h⟩)
    | .error e => .error e

/-- A batch without events is not committed. -/
theorem applyBatch_empty (db : Database) {batch : DurableChainBatch} (h : batch.isEmpty = true) :
    applyBatch db batch = .ok ({}, db) := by
  unfold applyBatch
  rw [if_pos h]

/-- A batch with events commits what the transaction leaves. -/
theorem applyBatch_ok {db db' : Database} {batch : DurableChainBatch} {report : ApplyReport}
    (hne : batch.isEmpty = false) : applyBatch db batch = .ok (report, db') ↔
      applyTables db.1 batch = .ok (report, db'.1) := by
  unfold applyBatch
  rw [if_neg (by simp [hne])]
  split
  · rename_i r t ht
    constructor
    · intro h
      cases h
      exact ht
    · intro h
      cases ht.symm.trans h
      rfl
  · rename_i e he
    constructor
    · intro h
      cases h
    · intro h
      cases he.symm.trans h

theorem applyBatch_of_tables {db : Database} {batch : DurableChainBatch} (hne : batch.isEmpty = false)
    {report : ApplyReport} {t : Tables} (h : applyTables db.1 batch = .ok (report, t)) :
    ∃ db' : Database, applyBatch db batch = .ok (report, db') ∧ db'.1 = t :=
  ⟨⟨t, valid_applyTables db.2 h⟩, (applyBatch_ok hne).2 h, rfl⟩

/-! ## The server -/

/-- A connection that breaks before the commit, or after it but before the answer.
mirrors crates/chainweave-sink/src/postgres.rs:123-128 -/
inductive CommitFault where
  | beforeCommit | afterCommit
  deriving DecidableEq, Repr

structure Server where
  db : Database
  commitFaults : List (Option CommitFault) := []
  readFaults : List Bool := []
  /-- ghost: every transaction committed, with the database it left -/
  history : List (DurableChainBatch × Database) := []

namespace Server

/-- The server after a commit. -/
def committed (server : Server) (batch : DurableChainBatch) (db : Database) : Server :=
  { server with db, history := server.history ++ [(batch, db)] }

/-- mirrors crates/chainweave-sink/src/postgres.rs:396-401 -/
def applyBatch (batch : DurableChainBatch) : Prog Server PostgresStateError ApplyReport :=
  ExceptT.mk fun server =>
    if batch.isEmpty then (.ok {}, server)
    else
      let next := { server with commitFaults := server.commitFaults.tail }
      match server.commitFaults.head?.join, Postgres.applyBatch server.db batch with
      | some .beforeCommit, _ => (.error (.database .connection), next)
      | _, .error e => (.error e, next)
      | none, .ok (report, db) => (.ok report, next.committed batch db)
      | some .afterCommit, .ok (_, db) => (.error (.database .connection), next.committed batch db)

/-- A read, which may meet a broken connection. -/
def query {α : Type} (read : Database → Except PostgresStateError α) :
    Prog Server PostgresStateError α :=
  ExceptT.mk fun server =>
    let next := { server with readFaults := server.readFaults.tail }
    if server.readFaults.head? = some true then (.error (.database .connection), next)
    else (read server.db, next)

/-- mirrors crates/chainweave-sink/src/postgres.rs:877-890 -/
def checkpoint : Prog Server PostgresStateError (Option Checkpoint) :=
  query fun db => .ok db.1.checkpoint

/-- mirrors crates/chainweave-sink/src/postgres.rs:897-914 -/
def canonicalHeaderAtHeight (height : Nat) : Prog Server PostgresStateError (Option BlockHeader) :=
  query (·.canonicalHeaderAtHeight height)

/-- mirrors crates/chainweave-sink/src/postgres.rs:921-944 -/
def canonicalHeaderByHash (hash : BlockHash) : Prog Server PostgresStateError (Option BlockHeader) :=
  query fun db => .ok (db.canonicalHeaderByHash hash)

end Server

/-! ## The backfill committer -/

/-- The committer's own fields; its writer is the server.
mirrors crates/chainweave-sink/src/postgres.rs:116-121 -/
structure PostgresBackfillCommitter where
  parentAnchor : Option BlockHeader
  lastCommittedHash : Option BlockHash

namespace PostgresBackfillCommitter

/-- mirrors crates/chainweave-sink/src/postgres.rs:1270-1276 -/
def new (parentAnchor : Option BlockHeader) : PostgresBackfillCommitter :=
  { parentAnchor, lastCommittedHash := none }

/-- The batch a range is committed as. -/
def rangeBatch (parentAnchor : Option BlockHeader) (headers : List BlockHeader) : ChainBatch where
  transition := if parentAnchor.isSome then .gap else .bootstrap
  commonAncestor := parentAnchor
  events := headers.map .apply

/-- mirrors crates/chainweave-sink/src/postgres.rs:1292-1325 -/
def commitRange : CommitRange (PostgresBackfillCommitter × Server) IndexedBlock := fun fetched => do
  match fetched.headers.getLast? with
  | none => throw "cannot commit empty fetched range"
  | some lastHeader =>
    let (self, _) ← get
    let batch := rangeBatch self.parentAnchor fetched.headers
    let durable ← mapError PostgresStateError.message
      (lift (DurableChainBatch.fromChainBatch batch fetched.logs))
    let _ ← mapError PostgresStateError.message
      (zoom Prod.snd (fun server s => (s.1, server)) (Server.applyBatch durable))
    modify fun s =>
      ({ parentAnchor := some lastHeader, lastCommittedHash := some lastHeader.hash }, s.2)

end PostgresBackfillCommitter

end Chainweave.Postgres
