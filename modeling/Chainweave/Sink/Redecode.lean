import Chainweave.Sink.Abi
import Chainweave.Sink.Replay

/-!
# Re-decoding the stored logs

`redecode_retained_logs` of `crates/chainweave-sink/src/postgres.rs`: every stored
log is decoded again with a registry, and the decoder columns that come out
different are written, in one transaction. The rows are read before it.

* `valid_updateDecoder`: the statement keeps the constraints.
* `Call`, `runCalls`: the writer's calls in any order, whatever they answer.

Stored bytes have the lengths the columns check, so reading a row back does not
fail.
-/
namespace Chainweave.Postgres

open Stateful Chainweave.Chain

/-- mirrors crates/chainweave-sink/src/postgres.rs:103-108 -/
structure RedecodeReport where
  scannedLogs : Nat := 0
  updatedLogs : Nat := 0
  decode : DecodeReport := {}
  deriving DecidableEq, Repr

namespace Tables

/-- `ORDER BY logs.block_number, logs.transaction_index, logs.log_index`. -/
def retainedLogs (t : Tables) : List LogRow :=
  t.logs.mergeSort fun a b =>
    a.blockNumber < b.blockNumber ∨ a.blockNumber = b.blockNumber ∧
      (a.log.transactionIndex < b.log.transactionIndex ∨
        a.log.transactionIndex = b.log.transactionIndex ∧ a.log.logIndex ≤ b.log.logIndex)

/-- The row of this key, if its decoder columns are distinct from these. -/
def isStale (hash : BlockHash) (logIndex : Nat) (event : Option Json) (version : Option String)
    (row : LogRow) : Bool :=
  row.isAt hash logIndex && (row.log.decodedEvent ≠ event || row.log.decoderVersion ≠ version)

/-- `UPDATE logs SET decoded_event, decoder_version`, and the rows affected.
mirrors crates/chainweave-sink/src/postgres.rs:699-719 -/
def updateDecoder (t : Tables) (hash : BlockHash) (logIndex : Nat) (event : Option Json)
    (version : Option String) : Nat × Tables :=
  (t.logs.countP (isStale hash logIndex event version),
    { t with logs := t.logs.map fun row =>
        if isStale hash logIndex event version row then row.withDecoder event version else row })

/-- One round of the loop.
mirrors crates/chainweave-sink/src/postgres.rs:685-721 -/
def redecodeRow (registry : AbiRegistry) (current : RedecodeReport × Tables) (row : LogRow) :
    Except PostgresStateError (RedecodeReport × Tables) := do
  let (report, t) := current
  let log := registry.decodeLogInPlace row.log
  let logIndex ← pgInt log.logIndex
  let (updated, t) := t.updateDecoder row.blockHash logIndex log.decodedEvent log.decoderVersion
  return ({ report with
    decode := report.decode.record (registry.decodeLog row.log)
    updatedLogs := report.updatedLogs + updated }, t)

/-- The rows read are decoded and written back, one by one.
mirrors crates/chainweave-sink/src/postgres.rs:680-722 -/
def redecodeRows (t : Tables) (registry : AbiRegistry) (rows : List LogRow) :
    Except PostgresStateError (RedecodeReport × Tables) :=
  rows.foldlM (redecodeRow registry) ({ scannedLogs := rows.length }, t)

variable {t t' : Tables} {hash : BlockHash} {logIndex : Nat} {event : Option Json}
  {version : Option String}

/-- An updated row differs in the decoder columns only. -/
theorem mem_updateDecoder {row : LogRow}
    (h : row ∈ (t.updateDecoder hash logIndex event version).2.logs) :
    ∃ r ∈ t.logs, row = r ∨ row = r.withDecoder event version := by
  obtain ⟨r, hr, rfl⟩ := List.mem_map.1 h
  refine ⟨r, hr, ?_⟩
  split
  · exact .inr rfl
  · exact .inl rfl

theorem valid_updateDecoder (h : t.Valid) : (t.updateDecoder hash logIndex event version).2.Valid := by
  refine { h with log_key := ?_, log_topics := ?_, log_ints := ?_, log_block := ?_ }
  · have hkey : ((t.updateDecoder hash logIndex event version).2.logs.map fun row =>
        (row.blockHash, row.log.logIndex)) =
          t.logs.map fun row => (row.blockHash, row.log.logIndex) := by
      unfold updateDecoder
      rw [List.map_map]
      refine List.map_congr_left fun row _ => ?_
      simp only [Function.comp_apply]
      split
      · rfl
      · rfl
    rw [hkey]
    exact h.log_key
  · intro row hr
    obtain ⟨r, hmem, rfl | rfl⟩ := mem_updateDecoder hr
    · exact h.log_topics _ hmem
    · exact h.log_topics r hmem
  · intro row hr
    obtain ⟨r, hmem, rfl | rfl⟩ := mem_updateDecoder hr
    · exact h.log_ints _ hmem
    · exact h.log_ints r hmem
  · intro row hr
    obtain ⟨r, hmem, rfl | rfl⟩ := mem_updateDecoder hr
    · exact h.log_block _ hmem
    · exact h.log_block r hmem

/-- A round writes the decoder columns of one row. -/
theorem redecodeRow_ok {registry : AbiRegistry} {current next : RedecodeReport × Tables}
    {row : LogRow} (h : redecodeRow registry current row = .ok next) :
    ∃ logIndex event version,
      next.2 = (current.2.updateDecoder row.blockHash logIndex event version).2 := by
  obtain ⟨logIndex, -, h⟩ := ok_bind.1 h
  cases h
  exact ⟨_, _, _, rfl⟩

/-- What every update of the decoder columns keeps, the loop keeps. -/
theorem redecodeRows_keeps {P : Tables → Prop}
    (hstep : ∀ t hash logIndex event version, P t → P (t.updateDecoder hash logIndex event version).2)
    {registry : AbiRegistry} {rows : List LogRow} {report : RedecodeReport} (h : P t)
    (hrun : t.redecodeRows registry rows = .ok (report, t')) : P t' := by
  have hloop : ∀ (rows : List LogRow) (current : RedecodeReport × Tables), P current.2 →
      rows.foldlM (redecodeRow registry) current = .ok (report, t') → P t' := by
    intro rows
    induction rows with
    | nil =>
      intro current hp hf
      cases hf
      exact hp
    | cons row rows ih =>
      intro current hp hf
      rw [List.foldlM_cons] at hf
      obtain ⟨next, hn, hf⟩ := ok_bind.1 hf
      obtain ⟨logIndex, event, version, heq⟩ := redecodeRow_ok hn
      exact ih next (heq ▸ hstep _ _ _ _ _ hp) hf
  exact hloop rows _ h hrun

theorem valid_redecodeRows {registry : AbiRegistry} {rows : List LogRow} {report : RedecodeReport}
    (h : t.Valid) (hrun : t.redecodeRows registry rows = .ok (report, t')) : t'.Valid :=
  redecodeRows_keeps (fun _ _ _ _ _ hv => valid_updateDecoder hv) h hrun

end Tables

/-- The transaction of `redecode_retained_logs`, over the rows read before it.
mirrors crates/chainweave-sink/src/postgres.rs:684-723 -/
def redecode (db : Database) (registry : AbiRegistry) (rows : List LogRow) :
    Except PostgresStateError (RedecodeReport × Database) :=
  match h : db.1.redecodeRows registry rows with
  | .ok (report, t) => .ok (report, ⟨t, Tables.valid_redecodeRows db.2 h⟩)
  | .error e => .error e

theorem redecode_ok {db db' : Database} {registry : AbiRegistry} {rows : List LogRow}
    {report : RedecodeReport} (h : redecode db registry rows = .ok (report, db')) :
    db.1.redecodeRows registry rows = .ok (report, db'.1) := by
  unfold redecode at h
  split at h
  · rename_i r t ht
    cases h
    exact ht
  · cases h

namespace Server

/-- The transaction on the server, which may break like any other. -/
def writeDecoders (registry : AbiRegistry) (rows : List LogRow) :
    Prog Server PostgresStateError RedecodeReport :=
  ExceptT.mk fun server =>
    let next := { server with commitFaults := server.commitFaults.tail }
    match server.commitFaults.head?.join, redecode server.db registry rows with
    | some .beforeCommit, _ => (.error (.database .connection), next)
    | _, .error e => (.error e, next)
    | none, .ok (report, db) => (.ok report, { next with db })
    | some .afterCommit, .ok (_, db) => (.error (.database .connection), { next with db })

/-- mirrors crates/chainweave-sink/src/postgres.rs:654-724 -/
def redecodeRetainedLogs (registry : AbiRegistry) :
    Prog Server PostgresStateError RedecodeReport := do
  let rows ← query fun db => .ok db.1.retainedLogs
  writeDecoders registry rows

theorem query_db {α : Type} (read : Database → Except PostgresStateError α) (server : Server) :
    (exec (query read) server).2.db = server.db := by
  unfold query
  rw [exec_mk]
  dsimp only
  split
  · rfl
  · rfl

/-- The rows are written, or they stay. -/
theorem writeDecoders_db (registry : AbiRegistry) (rows : List LogRow) (server : Server) :
    (exec (writeDecoders registry rows) server).2.db = server.db ∨
      ∃ report, redecode server.db registry rows =
        .ok (report, (exec (writeDecoders registry rows) server).2.db) := by
  unfold writeDecoders
  rw [exec_mk]
  cases server.commitFaults.head?.join with
  | none =>
    cases redecode server.db registry rows with
    | error e => exact .inl rfl
    | ok r => exact .inr ⟨r.1, rfl⟩
  | some fault =>
    cases fault with
    | beforeCommit => exact .inl rfl
    | afterCommit =>
      cases redecode server.db registry rows with
      | error e => exact .inl rfl
      | ok r => exact .inr ⟨r.1, rfl⟩

theorem redecodeRetainedLogs_db (registry : AbiRegistry) (server : Server) :
    (exec (redecodeRetainedLogs registry) server).2.db = server.db ∨
      ∃ rows report, redecode server.db registry rows =
        .ok (report, (exec (redecodeRetainedLogs registry) server).2.db) := by
  have hdb := query_db (fun db => .ok db.1.retainedLogs) server
  unfold redecodeRetainedLogs
  rw [exec_bind]
  cases hq : exec (query fun db => .ok db.1.retainedLogs) server with
  | mk r s' =>
    rw [hq] at hdb
    cases r with
    | error e => exact .inl hdb
    | ok rows =>
      have hwrite := writeDecoders_db registry rows s'
      rw [← show s'.db = server.db from hdb]
      exact hwrite.imp id fun hex => ⟨rows, hex⟩

end Server

/-- A call of the writer. -/
inductive Call where
  | applyBatch (batch : DurableChainBatch)
  | redecodeRetainedLogs (registry : AbiRegistry)

/-- The server after a call, whatever it answered. -/
def runCall (server : Server) : Call → Server
  | .applyBatch batch => (exec (Server.applyBatch batch) server).2
  | .redecodeRetainedLogs registry => (exec (Server.redecodeRetainedLogs registry) server).2

def runCalls (server : Server) (calls : List Call) : Server := calls.foldl runCall server

end Chainweave.Postgres
