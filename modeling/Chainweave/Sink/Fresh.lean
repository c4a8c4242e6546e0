import Chainweave.Sink.Retained

/-!
# Re-decoding is fresh ingestion

* `redecodeRow_done`: one round brings the row read up to date, and leaves the others;
  `redecodeRows_all`: so the loop brings all of them up to date, in whatever order
  they were read.
* `storedAfresh_redecoded`: an insert of the raw fields, decoded with the same registry, stores
  the same columns.
* `redecode_fresh`: what a call that succeeds has done.
-/
namespace Chainweave.Postgres

open Stateful Chainweave.Chain

/-! ## Decoding -/

section
variable (registry : AbiRegistry) (log : RawLog)

theorem decodeLogInPlace_columns :
    registry.decodeLogInPlace log =
      { log with
        decodedEvent := (registry.decodeLogInPlace log).decodedEvent
        decoderVersion := (registry.decodeLogInPlace log).decoderVersion } := by
  unfold AbiRegistry.decodeLogInPlace
  split <;> rfl

/-- Decoding keeps the raw fields. -/
@[simp] theorem raw_decodeLogInPlace : (registry.decodeLogInPlace log).raw = log.raw := by
  unfold AbiRegistry.decodeLogInPlace
  split <;> rfl

/-- Decoding reads the raw fields only. -/
@[simp] theorem decodeLogInPlace_raw :
    registry.decodeLogInPlace log.raw = registry.decodeLogInPlace log := by
  have hread : registry.decodeLog log.raw = registry.decodeLog log := rfl
  unfold AbiRegistry.decodeLogInPlace
  rw [hread]
  split <;> rfl

theorem decodeLogInPlace_congr {a b : RawLog} (h : a.raw = b.raw) :
    registry.decodeLogInPlace a = registry.decodeLogInPlace b := by
  rw [← decodeLogInPlace_raw, h, decodeLogInPlace_raw]

/-- Both decoder columns are set, or neither. -/
theorem isSome_decodeLogInPlace :
    (registry.decodeLogInPlace log).decodedEvent.isSome =
      (registry.decodeLogInPlace log).decoderVersion.isSome := by
  unfold AbiRegistry.decodeLogInPlace
  split <;> rfl

end

/-- How many logs a report counts. -/
def DecodeReport.total (report : DecodeReport) : Nat :=
  report.decoded + report.unknownAbi + report.unknownSignature + report.decodeFailures

@[simp] theorem total_record (report : DecodeReport) (result : DecodeResult) :
    (report.record result).total = report.total + 1 := by
  unfold DecodeReport.total
  cases result <;> simp only [DecodeReport.record] <;> omega

/-! ## Rows brought up to date -/

/-- The row as its raw fields decode. -/
def LogRow.redecoded (registry : AbiRegistry) (row : LogRow) : LogRow :=
  { row with log := registry.decodeLogInPlace row.log }

/-- The row has other decoder columns. -/
def LogRow.outdated (registry : AbiRegistry) (row : LogRow) : Bool :=
  row.log.decodedEvent ≠ (registry.decodeLogInPlace row.log).decodedEvent ||
    row.log.decoderVersion ≠ (registry.decodeLogInPlace row.log).decoderVersion

/-- The tables with the rows `done` up to date. -/
def Tables.upToDate (t : Tables) (registry : AbiRegistry) (done : List LogRow) : Tables :=
  { t with logs := t.logs.map fun row => if row ∈ done then row.redecoded registry else row }

section
variable {t : Tables} {registry : AbiRegistry} {row : LogRow} {done : List LogRow}

theorem redecoded_eq : row.redecoded registry =
    row.withDecoder (registry.decodeLogInPlace row.log).decodedEvent
      (registry.decodeLogInPlace row.log).decoderVersion := by
  unfold LogRow.redecoded LogRow.withDecoder
  rw [← decodeLogInPlace_columns]

/-- A row that is not outdated stays. -/
theorem outdated_iff : row.outdated registry = true ↔ row ≠ row.redecoded registry := by
  obtain ⟨blockHash, blockNumber, log⟩ := row
  unfold LogRow.outdated LogRow.redecoded
  dsimp only
  rw [decodeLogInPlace_columns registry log]
  obtain ⟨transactionIndex, logIndex, txHash, address, topics, data, event, version⟩ := log
  simp [-not_and, not_and_or]

theorem redecoded_of_fresh (h : row.outdated registry = false) : row.redecoded registry = row := by
  by_contra hne
  rw [← Bool.not_eq_true, outdated_iff] at h
  exact h (Ne.symm hne)

/-- The key of a row is its own. -/
theorem isAt_upToDate (hv : t.Valid) (hrow : row ∈ t.logs) {r : LogRow} (hr : r ∈ t.logs) :
    (if r ∈ done then r.redecoded registry else r).isAt row.blockHash row.log.logIndex =
      decide (r = row) := by
  have hkey : (if r ∈ done then r.redecoded registry else r).isAt row.blockHash row.log.logIndex =
      r.isAt row.blockHash row.log.logIndex := by
    split
    · have hindex := logIndex_of_raw (raw_decodeLogInPlace registry r.log)
      unfold LogRow.isAt LogRow.redecoded
      rw [hindex]
    · rfl
  rw [hkey, Bool.eq_iff_iff]
  simp only [LogRow.isAt, decide_eq_true_eq]
  constructor
  · intro hat
    exact List.inj_on_of_nodup_map hv.log_key hr hrow (by rw [hat.1, hat.2])
  · intro heq
    rw [heq]
    exact ⟨rfl, rfl⟩

/-- **One round**: the row read is brought up to date, and counted if it was not. -/
theorem redecodeRow_done (hv : t.Valid) (hrow : row ∈ t.logs) (hnew : row ∉ done)
    (report : RedecodeReport) :
    Tables.redecodeRow registry (report, t.upToDate registry done) row =
      .ok ({ report with
              decode := report.decode.record (registry.decodeLog row.log)
              updatedLogs := report.updatedLogs + if row.outdated registry then 1 else 0 },
        t.upToDate registry (row :: done)) := by
  have hindex : (registry.decodeLogInPlace row.log).logIndex = row.log.logIndex :=
    logIndex_of_raw (raw_decodeLogInPlace registry row.log)
  have hint : pgInt row.log.logIndex = .ok row.log.logIndex := if_pos (hv.log_ints row hrow).2
  -- which rows the statement matches: this one, if it is outdated
  have hstale : ∀ r ∈ t.logs, Tables.isStale row.blockHash row.log.logIndex
      (registry.decodeLogInPlace row.log).decodedEvent
      (registry.decodeLogInPlace row.log).decoderVersion
      (if r ∈ done then r.redecoded registry else r) =
        (decide (r = row) && row.outdated registry) := by
    intro r hr
    unfold Tables.isStale
    rw [isAt_upToDate hv hrow hr]
    by_cases heq : r = row
    · rw [heq, if_neg hnew]
      rfl
    · simp [heq]
  have hcount : (t.upToDate registry done).logs.countP (Tables.isStale row.blockHash row.log.logIndex
      (registry.decodeLogInPlace row.log).decodedEvent
      (registry.decodeLogInPlace row.log).decoderVersion) =
        if row.outdated registry then 1 else 0 := by
    have hone : t.logs.count row = 1 := List.count_eq_one_of_mem (.of_map _ hv.log_key) hrow
    unfold Tables.upToDate
    rw [List.countP_map]
    refine (List.countP_congr fun r hr => Bool.eq_iff_iff.1 (hstale r hr)).trans ?_
    cases row.outdated registry with
    | true =>
      rw [if_pos rfl, ← hone, List.count_eq_countP]
      exact List.countP_congr fun r _ => by simp
    | false =>
      rw [if_neg Bool.false_ne_true]
      exact List.countP_eq_zero.2 fun r _ => by simp
  have hlogs : (t.upToDate registry done).logs.map (fun r =>
      if Tables.isStale row.blockHash row.log.logIndex
        (registry.decodeLogInPlace row.log).decodedEvent
        (registry.decodeLogInPlace row.log).decoderVersion r then
        r.withDecoder (registry.decodeLogInPlace row.log).decodedEvent
          (registry.decodeLogInPlace row.log).decoderVersion
      else r) = (t.upToDate registry (row :: done)).logs := by
    unfold Tables.upToDate
    rw [List.map_map]
    refine List.map_congr_left fun r hr => ?_
    rw [Function.comp_apply, hstale r hr]
    by_cases heq : r = row
    · subst heq
      rw [if_neg hnew, if_pos List.mem_cons_self]
      cases hout : r.outdated registry with
      | true => simp [redecoded_eq]
      | false => simp [redecoded_of_fresh hout]
    · simp [heq]
  unfold Tables.redecodeRow Tables.updateDecoder
  dsimp only
  rw [hindex, hint]
  show Except.ok _ = Except.ok _
  rw [hcount, hlogs]
  rfl

/-- **The loop**, over any rows that are still to be brought up to date. -/
theorem redecodeRows_loop (hv : t.Valid) (rows : List LogRow) (hrows : ∀ r ∈ rows, r ∈ t.logs)
    (hnodup : rows.Nodup) (hnew : ∀ r ∈ rows, r ∉ done) (report : RedecodeReport) :
    ∃ decode, decode.total = report.decode.total + rows.length ∧
      rows.foldlM (Tables.redecodeRow registry) (report, t.upToDate registry done) =
        .ok ({ report with
                decode, updatedLogs := report.updatedLogs + rows.countP (·.outdated registry) },
          t.upToDate registry (rows.reverse ++ done)) := by
  induction rows generalizing done report with
  | nil => exact ⟨report.decode, rfl, rfl⟩
  | cons row rows ih =>
    rw [List.nodup_cons] at hnodup
    obtain ⟨decode, htotal, hloop⟩ := @ih (row :: done)
      (fun r hr => hrows r (List.mem_cons_of_mem _ hr)) hnodup.2 (fun r hr hin => by
        rcases List.mem_cons.1 hin with rfl | hin
        · exact hnodup.1 hr
        · exact hnew r (List.mem_cons_of_mem _ hr) hin)
      { report with
        decode := report.decode.record (registry.decodeLog row.log)
        updatedLogs := report.updatedLogs + if row.outdated registry then 1 else 0 }
    refine ⟨decode, ?_, ?_⟩
    · rw [htotal, total_record, List.length_cons]
      omega
    · rw [List.foldlM_cons, redecodeRow_done hv (hrows row (by simp)) (hnew row (by simp))]
      show rows.foldlM _ _ = _
      rw [hloop, List.countP_cons, List.reverse_cons, List.append_assoc, Nat.add_assoc,
        Nat.add_comm (List.countP _ _)]
      rfl

/-- **All rows, in whatever order they were read.** -/
theorem redecodeRows_all (hv : t.Valid) (registry : AbiRegistry) {rows : List LogRow}
    (hperm : rows.Perm t.logs) :
    ∃ decode, decode.total = rows.length ∧ t.redecodeRows registry rows =
      .ok ({ scannedLogs := rows.length, updatedLogs := t.logs.countP (·.outdated registry), decode },
        { t with logs := t.logs.map (·.redecoded registry) }) := by
  have hlogs : t.logs.Nodup := .of_map _ hv.log_key
  obtain ⟨decode, htotal, hloop⟩ := @redecodeRows_loop t registry [] hv rows
    (fun r hr => hperm.mem_iff.1 hr) (hperm.nodup_iff.2 hlogs) (fun r _ => List.not_mem_nil)
    { scannedLogs := rows.length }
  have hstart : t.upToDate registry [] = t := by
    unfold Tables.upToDate
    simp
  have hend : t.upToDate registry (rows.reverse ++ []) =
      { t with logs := t.logs.map (·.redecoded registry) } := by
    unfold Tables.upToDate
    congr 1
    refine List.map_congr_left fun r hr => if_pos ?_
    simpa using hperm.mem_iff.2 hr
  refine ⟨decode, by simpa [DecodeReport.total] using htotal, ?_⟩
  unfold Tables.redecodeRows
  rw [hstart, hend, Nat.zero_add, hperm.countP_eq] at hloop
  exact hloop

end

/-! ## The call -/

namespace Server

/-- A read that succeeds reads the rows there are, and changes none. -/
theorem query_ok {α : Type} {read : Database → Except PostgresStateError α} {server server' : Server}
    {a : α} (h : exec (query read) server = (.ok a, server')) :
    read server.db = .ok a ∧ server'.db = server.db := by
  unfold query at h
  rw [exec_mk] at h
  dsimp only at h
  split at h
  · cases h
  · obtain ⟨hread, hserver⟩ := Prod.mk.inj h
    rw [← hserver]
    exact ⟨hread, rfl⟩

theorem writeDecoders_ok {registry : AbiRegistry} {rows : List LogRow} {server server' : Server}
    {report : RedecodeReport} (h : exec (writeDecoders registry rows) server = (.ok report, server')) :
    redecode server.db registry rows = .ok (report, server'.db) := by
  unfold writeDecoders at h
  rw [exec_mk] at h
  dsimp only at h
  split at h
  · cases h
  · cases h
  · rename_i hr
    cases h
    exact hr
  · cases h

/-- **A call that succeeds** has re-decoded the rows there were, in one transaction. -/
theorem redecodeRetainedLogs_ok {registry : AbiRegistry} {server server' : Server}
    {report : RedecodeReport}
    (h : exec (redecodeRetainedLogs registry) server = (.ok report, server')) :
    redecode server.db registry server.db.1.retainedLogs = .ok (report, server'.db) := by
  unfold redecodeRetainedLogs at h
  rw [exec_bind] at h
  cases hq : exec (query fun db => .ok db.1.retainedLogs) server with
  | mk r s =>
    rw [hq] at h
    cases r with
    | error e => cases h
    | ok rows =>
      obtain ⟨hread, hdb⟩ := query_ok hq
      cases hread
      have hdid := writeDecoders_ok h
      rw [hdb] at hdid
      exact hdid

end Server

/-- The rows a call leaves, and what it reports. -/
theorem redecodeRetainedLogs_all {registry : AbiRegistry} {server server' : Server}
    {report : RedecodeReport}
    (h : exec (Server.redecodeRetainedLogs registry) server = (.ok report, server')) :
    server'.db.1 = { server.db.1 with logs := server.db.1.logs.map (·.redecoded registry) } ∧
      report.scannedLogs = server.db.1.logs.length ∧
      report.updatedLogs = server.db.1.logs.countP (·.outdated registry) ∧
      report.decode.total = report.scannedLogs := by
  have hperm : server.db.1.retainedLogs.Perm server.db.1.logs := List.mergeSort_perm _ _
  obtain ⟨decode, htotal, hrun⟩ := redecodeRows_all server.db.2 registry hperm
  have hdid := redecode_ok (Server.redecodeRetainedLogs_ok h)
  rw [hrun] at hdid
  obtain ⟨rfl, htables⟩ := Prod.mk.inj (Except.ok.inj hdid)
  exact ⟨htables.symm, hperm.length_eq, rfl, htotal⟩

/-! ## Ingestion -/

/-- What ingesting the raw fields of the row afresh stores: over any tables without a row of its
key, and for a log with the raw fields, whatever decoder columns it comes with, that is decoded
with the registry and inserted. -/
def StoredAfresh (registry : AbiRegistry) (row : LogRow) : Prop :=
  ∀ (t t' : Tables) (header : BlockHeader) (log : RawLog), header.hash = row.blockHash →
    log.raw = row.log.raw → (∀ r ∈ t.logs, r.isAt header.hash log.logIndex = false) →
    t.upsertLog header (registry.decodeLogInPlace log) = .ok t' →
    (∃ r ∈ t'.logs, r.isAt header.hash log.logIndex = true) ∧
      ∀ r ∈ t'.logs, r.isAt header.hash log.logIndex = true → r.log = row.log

theorem storedAfresh_redecoded (registry : AbiRegistry) (row : LogRow) :
    StoredAfresh registry (row.redecoded registry) := by
  intro t t' header log hhash hraw hnew hup
  have hraw' : log.raw = row.log.raw := hraw.trans (raw_decodeLogInPlace registry row.log)
  have hindex : (registry.decodeLogInPlace log).logIndex = log.logIndex :=
    logIndex_of_raw (raw_decodeLogInPlace registry log)
  obtain ⟨-, -, -, -, hcases⟩ := Tables.upsertLog_ok hup
  refine ⟨?_, fun r hr hat => ?_⟩
  · have hstart : Absorbed t header.hash header.height [] :=
      ⟨fun _ _ _ => rfl, fun l hl => absurd hl List.not_mem_nil⟩
    obtain ⟨r, hr, hat⟩ := (hstart.upsertLog hup).keys _ List.mem_cons_self
    exact ⟨r, hr, hindex ▸ hat⟩
  · rcases mem_upsertLog hcases hr with hold | hinserted
    · obtain ⟨stored, hmem, rfl⟩ := hold
      rw [isAt_mergeRow, hnew stored hmem] at hat
      cases hat
    · obtain ⟨-, rfl⟩ := hinserted
      exact decodeLogInPlace_congr registry hraw'

/-- The row is as it was but for its decoder columns, which are what ingesting its raw fields
afresh stores. -/
structure Refreshed (registry : AbiRegistry) (row row' : LogRow) : Prop where
  same : SameRaw row row'
  /-- no matter which columns `row` had -/
  decoded : row'.log = registry.decodeLogInPlace row.log.raw
  columns : row'.log.decodedEvent.isSome = row'.log.decoderVersion.isSome
  afresh : StoredAfresh registry row'

section
variable {registry : AbiRegistry} {row : LogRow}

theorem refreshed_redecoded : Refreshed registry row (row.redecoded registry) where
  same := ⟨rfl, rfl, raw_decodeLogInPlace registry row.log⟩
  decoded := (decodeLogInPlace_raw registry row.log).symm
  columns := isSome_decodeLogInPlace registry row.log
  afresh := storedAfresh_redecoded registry row

/-- A row is brought up to date once. -/
theorem redecoded_redecoded : (row.redecoded registry).redecoded registry =
    row.redecoded registry := by
  unfold LogRow.redecoded
  rw [decodeLogInPlace_congr registry (raw_decodeLogInPlace registry row.log)]

theorem not_outdated : (row.redecoded registry).outdated registry = false := by
  rw [← Bool.not_eq_true, outdated_iff, redecoded_redecoded]
  exact fun hne => hne rfl

/-- The rows that change are those outdated. -/
theorem countP_zip_redecoded (rows : List LogRow) :
    (rows.zip (rows.map (·.redecoded registry))).countP (fun pair => pair.1 ≠ pair.2) =
      rows.countP (·.outdated registry) := by
  rw [← List.map_prod_left_eq_zip, List.countP_map]
  refine List.countP_congr fun row _ => ?_
  rw [Function.comp_apply, decide_eq_true_eq, outdated_iff]

/-- **Re-decoding is fresh ingestion.** A call that succeeds refreshes every stored log and changes
nothing else; it reports the rows that changed, and one outcome for each log; and a second
call with the same registry, if it succeeds, updates none. -/
theorem redecode_fresh {server server' : Server} {report : RedecodeReport}
    (h : exec (Server.redecodeRetainedLogs registry) server = (.ok report, server')) :
    List.Forall₂ (Refreshed registry) server.db.1.logs server'.db.1.logs ∧
    server'.db.1 = { server.db.1 with logs := server'.db.1.logs } ∧
    report.updatedLogs =
      (server.db.1.logs.zip server'.db.1.logs).countP (fun pair => pair.1 ≠ pair.2) ∧
    report.scannedLogs = server.db.1.logs.length ∧
    report.decode.decoded + report.decode.unknownAbi + report.decode.unknownSignature +
      report.decode.decodeFailures = report.scannedLogs ∧
    ∀ (again : RedecodeReport) (server'' : Server),
      exec (Server.redecodeRetainedLogs registry) server' = (.ok again, server'') →
        again.updatedLogs = 0 ∧ server''.db = server'.db := by
  obtain ⟨htables, hscanned, hupdated, htotal⟩ := redecodeRetainedLogs_all h
  have hlogs : server'.db.1.logs = server.db.1.logs.map (·.redecoded registry) := by rw [htables]
  refine ⟨?_, ?_, ?_, hscanned, htotal, fun again server'' hagain => ?_⟩
  · rw [hlogs, List.forall₂_map_right_iff, List.forall₂_same]
    exact fun row _ => refreshed_redecoded
  · rw [hlogs]
    exact htables
  · rw [hlogs, countP_zip_redecoded]
    exact hupdated
  · obtain ⟨htables', -, hupdated', -⟩ := redecodeRetainedLogs_all hagain
    constructor
    · rw [hupdated', hlogs, List.countP_map]
      exact List.countP_eq_zero.2 fun row _ => by simp [not_outdated]
    · refine Subtype.ext (htables'.trans ?_)
      have hagain : server'.db.1.logs.map (·.redecoded registry) = server'.db.1.logs := by
        rw [hlogs, List.map_map]
        exact List.map_congr_left fun row _ => redecoded_redecoded
      rw [hagain]

end

/-- A call that meets no fault succeeds. -/
theorem redecodeRetainedLogs_succeeds (registry : AbiRegistry) (db : Database) :
    ∃ report server', exec (Server.redecodeRetainedLogs registry) { db, commitFaults := [] } =
      (.ok report, server') := by
  obtain ⟨decode, -, hrun⟩ := redecodeRows_all db.2 registry (List.mergeSort_perm db.1.logs _)
  have hredecode : ∃ r, redecode db registry db.1.retainedLogs = .ok r := by
    unfold redecode
    split
    · exact ⟨_, rfl⟩
    · rename_i e he
      exact absurd (he.symm.trans hrun) (by simp)
  obtain ⟨r, hr⟩ := hredecode
  refine ⟨r.1, { db := r.2, commitFaults := [] }, ?_⟩
  have hread : exec (Server.query fun db => .ok db.1.retainedLogs) { db, commitFaults := [] } =
      (.ok db.1.retainedLogs, { db, commitFaults := [] }) := rfl
  unfold Server.redecodeRetainedLogs
  rw [exec_bind, hread]
  show exec (Server.writeDecoders registry db.1.retainedLogs) { db, commitFaults := [] } = _
  unfold Server.writeDecoders
  rw [exec_mk]
  dsimp only
  rw [hr]
  rfl

/-- A registry that knows every contract and none of their events. -/
def noEvents : AbiRegistry where
  contracts _ := some { decoderVersion := "2", events := [] }

/-- `redecode_fresh` where the stored log has stale columns. -/
theorem redecode_fresh_stale :
    ∃ applied db report server', applyBatch (Database.empty 1) twiceLogged = .ok (applied, db) ∧
      db.1.logs.map (·.log.decoderVersion) = [some "1"] ∧
      exec (Server.redecodeRetainedLogs noEvents) { db, commitFaults := [] } = (.ok report, server') ∧
      List.Forall₂ (Refreshed noEvents) db.1.logs server'.db.1.logs := by
  have hsome : (applyBatch (Database.empty 1) twiceLogged).toOption.any
      (fun r => r.2.1.logs.map (·.log.decoderVersion) = [some "1"]) = true := by decide +kernel
  cases hap : applyBatch (Database.empty 1) twiceLogged with
  | error e => rw [hap] at hsome; cases hsome
  | ok r =>
    rw [hap] at hsome
    obtain ⟨report, server', hrun⟩ := redecodeRetainedLogs_succeeds noEvents r.2
    exact ⟨r.1, r.2, report, server', rfl, of_decide_eq_true hsome, hrun, (redecode_fresh hrun).1⟩

end Chainweave.Postgres
