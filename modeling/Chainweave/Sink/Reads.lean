import Chainweave.Core.Ranges
import Chainweave.Lib.OrderBy
import Chainweave.Sink.Constraints

/-!
# The reads of the log table

`crates/chainweave-sink/src/postgres.rs`: `canonical_log_records` and
`canonical_range_summary`. The first joins `logs` with `blocks` by the hash alone and orders
by height and position, and the constraints make that enough.

* `canonicalLogRows`: the `JOIN`, row by row. On a `Database` it neither drops nor
  repeats a row, and `position` tells the rows apart, so the `ORDER BY` leaves no choice.
* `canonicalLogRecords_eq`: what a range reads is what its canonical blocks own, one
  height after the other.
* `records_exact`, `records_in_pages`, `summary_complete`: what a caller relies on.
-/
namespace Chainweave.Postgres

open Stateful OrderBy Chainweave.Chain Chainweave.Backfill

/-- mirrors crates/chainweave-sink/src/postgres.rs:50-58 -/
structure NormalizedLogRecord where
  blockHash : BlockHash
  txHash : BlockHash
  logIndex : Nat
  address : Address
  topics : List BlockHash
  data : List UInt8
  deriving DecidableEq, Repr

/-- mirrors crates/chainweave-sink/src/postgres.rs:60-65 -/
structure CanonicalRangeSummary where
  canonicalBlocks : Nat
  minHeight : Option Nat
  maxHeight : Option Nat
  deriving DecidableEq, Repr

/-- The columns of the `SELECT`. -/
def LogRow.normalized (row : LogRow) : NormalizedLogRecord where
  blockHash := row.blockHash
  txHash := row.log.txHash
  logIndex := row.log.logIndex
  address := row.log.address
  topics := row.log.topics
  data := row.log.data

/-- What `ORDER BY logs.block_number, logs.transaction_index, logs.log_index` compares. -/
def LogRow.position (row : LogRow) : Nat ×ₗ Nat ×ₗ Nat :=
  toLex (row.blockNumber, toLex (row.log.transactionIndex, row.log.logIndex))

/-- The row has this address, if one is asked for. -/
def LogRow.ofAddress (address : Option Address) (row : LogRow) : Bool :=
  address.all (row.log.address = ·)

namespace Tables

/-- `FROM logs JOIN blocks ON block_hash WHERE is_canonical`: a log row once for each canonical row
with its hash. -/
def canonicalLogRows (t : Tables) : List LogRow :=
  t.logs.flatMap fun row => (t.canonical.filter (·.hash = row.blockHash)).map fun _ => row

end Tables

namespace Database

/-- The columns fit by the constraints, so no conversion of a row fails.
mirrors crates/chainweave-sink/src/postgres.rs:1012-1068 -/
def canonicalLogRecords (db : Database) (fromBlock toBlock : Nat) (address : Option Address) :
    Except PostgresStateError (List NormalizedLogRecord) := do
  let fromHeight ← pgHeight fromBlock
  let toHeight ← pgHeight toBlock
  let rows := db.1.canonicalLogRows.filter fun row =>
    fromHeight ≤ row.blockNumber ∧ row.blockNumber ≤ toHeight ∧ row.ofAddress address = true
  return (orderBy LogRow.position rows).map LogRow.normalized

/-- `COUNT(*)`, `MIN(height)` and `MAX(height)`, which are null without rows.
mirrors crates/chainweave-sink/src/postgres.rs:1075-1112 -/
def canonicalRangeSummary (db : Database) (fromBlock toBlock : Nat) :
    Except PostgresStateError CanonicalRangeSummary := do
  let fromHeight ← pgHeight fromBlock
  let toHeight ← pgHeight toBlock
  let heights := (db.1.canonical.map (·.height)).filter fun n => fromHeight ≤ n ∧ n ≤ toHeight
  return {
    canonicalBlocks := heights.length
    minHeight := heights.min?
    maxHeight := heights.max? }

/-- The log rows of the canonical block at a height, in order. -/
def ownRows (db : Database) (address : Option Address) (height : Nat) : List LogRow :=
  (db.1.canonical.find? (·.height = height)).elim [] fun x => orderBy LogRow.position
    (db.1.logs.filter fun row => row.blockHash = x.hash ∧ row.ofAddress address = true)

end Database

/-! ## The join -/

section
variable {t : Tables} {row a b : LogRow}

/-- The block a log row names by its hash has the row's height. -/
theorem height_of_hash (hv : t.Valid) (hrow : row ∈ t.logs) {x : BlockHeader} (hx : x ∈ t.canonical)
    (hhash : x.hash = row.blockHash) : x.height = row.blockNumber := by
  obtain ⟨y, hy, hyhash, hynumber⟩ := hv.log_block row hrow
  obtain rfl := hv.header_unique hy (Tables.canonical_subset hx) (hyhash.trans hhash.symm)
  exact hynumber

/-- No two canonical rows have one hash. -/
theorem nodup_canonical (hv : t.Valid) : (t.canonical.map (·.hash)).Nodup := by
  refine hv.block_key.sublist ?_
  unfold Tables.canonical Tables.headers
  rw [List.map_map, List.map_map]
  exact List.filter_sublist.map _

/-- **The join** keeps the rows of canonical blocks, each once. -/
theorem canonicalLogRows_eq (hv : t.Valid) :
    t.canonicalLogRows = t.logs.filter fun row => t.canonical.any (·.hash = row.blockHash) := by
  -- At most one canonical row has the hash.
  have hone : ∀ row : LogRow, (t.canonical.filter (·.hash = row.blockHash)).map (fun _ => row) =
      if t.canonical.any (·.hash = row.blockHash) then [row] else [] := by
    intro row
    have hnodup := nodup_canonical hv
    generalize t.canonical = headers at hnodup
    induction headers with
    | nil => rfl
    | cons x headers ih =>
      rw [List.map_cons, List.nodup_cons] at hnodup
      by_cases hx : x.hash = row.blockHash
      · have hnone : headers.filter (·.hash = row.blockHash) = [] := by
          rw [List.filter_eq_nil_iff]
          intro y hy hyhash
          exact hnodup.1 (List.mem_map.2 ⟨y, hy, (of_decide_eq_true hyhash).trans hx.symm⟩)
        simp [hx, hnone]
      · rw [List.filter_cons_of_neg (by simpa using hx), ih hnodup.2]
        simp [hx]
  unfold Tables.canonicalLogRows
  simp only [hone]
  induction t.logs with
  | nil => rfl
  | cons row rows ih =>
    rw [List.flatMap_cons, ih, List.filter_cons]
    split <;> rfl

theorem mem_canonicalLogRows (hv : t.Valid) : row ∈ t.canonicalLogRows ↔
    row ∈ t.logs ∧ ∃ x ∈ t.canonical, x.hash = row.blockHash ∧ x.height = row.blockNumber := by
  rw [canonicalLogRows_eq hv, List.mem_filter, List.any_eq_true]
  refine and_congr_right fun hrow => exists_congr fun x => and_congr_right fun hx => ?_
  rw [decide_eq_true_iff]
  exact ⟨fun hhash => ⟨hhash, height_of_hash hv hrow hx hhash⟩, fun h => h.1⟩

/-- Rows of canonical blocks at one position are one row. -/
theorem eq_of_position (hv : t.Valid) (ha : a ∈ t.canonicalLogRows) (hb : b ∈ t.canonicalLogRows)
    (h : a.position = b.position) : a = b := by
  obtain ⟨ha, x, hx, hxhash, hxheight⟩ := (mem_canonicalLogRows hv).1 ha
  obtain ⟨hb, y, hy, hyhash, hyheight⟩ := (mem_canonicalLogRows hv).1 hb
  obtain ⟨hnumber, hrest⟩ := Prod.mk.inj (toLex_inj.1 h)
  obtain ⟨-, hindex⟩ := Prod.mk.inj (toLex_inj.1 hrest)
  obtain rfl := hv.canonical_height x hx y hy (by rw [hxheight, hyheight, hnumber])
  exact List.inj_on_of_nodup_map hv.log_key ha hb (Prod.ext (hxhash.symm.trans hyhash) hindex)

theorem nodup_position (hv : t.Valid) : (t.canonicalLogRows.map LogRow.position).Nodup := by
  have hnodup : t.canonicalLogRows.Nodup := by
    rw [canonicalLogRows_eq hv]
    exact (List.Nodup.of_map _ hv.log_key).filter _
  exact hnodup.map_on fun a ha b hb h => eq_of_position hv ha hb h

theorem position_lt (h : a.blockNumber < b.blockNumber) : a.position < b.position :=
  Prod.Lex.toLex_lt_toLex.2 (.inl h)

end

/-! ## One height -/

section
variable {db : Database} {address : Option Address} {height : Nat} {row : LogRow}

theorem mem_ownRows : row ∈ db.ownRows address height ↔
    row ∈ db.1.canonicalLogRows ∧ row.blockNumber = height ∧ row.ofAddress address = true := by
  unfold Database.ownRows
  rw [mem_canonicalLogRows db.2]
  cases hfind : db.1.canonical.find? (·.height = height) with
  | none =>
    have hfree := List.find?_eq_none.1 hfind
    refine iff_of_false List.not_mem_nil fun h => ?_
    obtain ⟨⟨-, x, hx, -, hheight⟩, hnumber, -⟩ := h
    exact hfree x hx (decide_eq_true (hheight.trans hnumber))
  | some x =>
    have hx := List.mem_of_find?_eq_some hfind
    have hheight : x.height = height := by simpa using List.find?_some hfind
    rw [Option.elim_some, mem_orderBy, List.mem_filter, decide_eq_true_iff]
    constructor
    · intro h
      obtain ⟨hrow, hhash, haddress⟩ := h
      have hnumber := height_of_hash db.2 hrow hx hhash.symm
      exact ⟨⟨hrow, x, hx, hhash.symm, hnumber⟩, hnumber ▸ hheight, haddress⟩
    · intro h
      obtain ⟨⟨hrow, y, hy, hhash, hynumber⟩, hnumber, haddress⟩ := h
      obtain rfl := db.2.canonical_height x hx y hy (by rw [hheight, hynumber, hnumber])
      exact ⟨hrow, hhash.symm, haddress⟩

/-- The rows of a height are in strict order. -/
theorem ownRows_lt : (db.ownRows address height).Pairwise fun a b => a.position < b.position := by
  unfold Database.ownRows
  cases hfind : db.1.canonical.find? (·.height = height) with
  | none => exact .nil
  | some x =>
    have hx := List.mem_of_find?_eq_some hfind
    refine orderBy_lt _ (List.Nodup.map_on ?_ ((List.Nodup.of_map _ db.2.log_key).filter _))
    intro a ha b hb
    obtain ⟨ha, hahash⟩ := List.mem_filter.1 ha
    obtain ⟨hb, hbhash⟩ := List.mem_filter.1 hb
    have hahash := (of_decide_eq_true hahash).1.symm
    have hbhash := (of_decide_eq_true hbhash).1.symm
    exact eq_of_position db.2
      ((mem_canonicalLogRows db.2).2 ⟨ha, x, hx, hahash, height_of_hash db.2 ha hx hahash⟩)
      ((mem_canonicalLogRows db.2).2 ⟨hb, x, hx, hbhash, height_of_hash db.2 hb hx hbhash⟩)

end

/-! ## A range -/

section
variable {db : Database} {range : BackfillRange} {address : Option Address}

/-- The rows a range reads. -/
def rangeRows (db : Database) (range : BackfillRange) (address : Option Address) : List LogRow :=
  range.heights.flatMap (db.ownRows address)

theorem mem_rangeRows {row : LogRow} : row ∈ rangeRows db range address ↔
    row ∈ db.1.canonicalLogRows ∧
      (range.fromBlock ≤ row.blockNumber ∧ row.blockNumber ≤ range.toBlock) ∧
      row.ofAddress address = true := by
  unfold rangeRows
  rw [List.mem_flatMap]
  constructor
  · intro h
    obtain ⟨height, hheight, h⟩ := h
    obtain ⟨hrow, rfl, haddress⟩ := mem_ownRows.1 h
    exact ⟨hrow, mem_heights_iff.1 hheight, haddress⟩
  · intro h
    obtain ⟨hrow, hnumber, haddress⟩ := h
    exact ⟨row.blockNumber, mem_heights_iff.2 hnumber, mem_ownRows.2 ⟨hrow, rfl, haddress⟩⟩

/-- The rows of a range are in strict order. -/
theorem rangeRows_lt : (rangeRows db range address).Pairwise fun a b => a.position < b.position := by
  unfold rangeRows
  rw [List.pairwise_flatMap]
  have hheights : range.heights.Pairwise (· < ·) := List.pairwise_lt_range' 1
  refine ⟨fun height _ => ownRows_lt, hheights.imp fun {m n} hlt a ha b hb => ?_⟩
  obtain ⟨-, hanumber, -⟩ := mem_ownRows.1 ha
  obtain ⟨-, hbnumber, -⟩ := mem_ownRows.1 hb
  exact position_lt (by rw [hanumber, hbnumber]; exact hlt)

/-- **What a range reads**: the rows its canonical blocks own, height by height. -/
theorem canonicalLogRecords_eq (range : BackfillRange) (hfrom : range.fromBlock ≤ bigintMax)
    (hto : range.toBlock ≤ bigintMax) : db.canonicalLogRecords range.fromBlock range.toBlock address =
    .ok ((rangeRows db range address).map LogRow.normalized) := by
  have hrows : rangeRows db range address = orderBy LogRow.position
      (db.1.canonicalLogRows.filter fun row => range.fromBlock ≤ row.blockNumber ∧
        row.blockNumber ≤ range.toBlock ∧ row.ofAddress address = true) := by
    refine eq_orderBy ?_ rangeRows_lt fun row => ?_
    · exact (nodup_position db.2).sublist (List.filter_sublist.map _)
    · rw [mem_rangeRows, List.mem_filter, decide_eq_true_iff, and_assoc (a := range.fromBlock ≤ _)]
  unfold Database.canonicalLogRecords
  rw [pgHeight_ok.2 ⟨hfrom, rfl⟩, pgHeight_ok.2 ⟨hto, rfl⟩, hrows]
  rfl

theorem canonicalLogRecords_ok {records : List NormalizedLogRecord}
    (h : db.canonicalLogRecords range.fromBlock range.toBlock address = .ok records) :
    records = (rangeRows db range address).map LogRow.normalized := by
  obtain ⟨low, hlow, hrest⟩ := ok_bind.1 h
  obtain ⟨high, hhigh, -⟩ := ok_bind.1 hrest
  exact Except.ok.inj (h.symm.trans (canonicalLogRecords_eq range (pgHeight_ok.1 hlow).1
    (pgHeight_ok.1 hhigh).1))

/-- The heights of the canonical rows within a range. -/
def rangeHeights (db : Database) (range : BackfillRange) : List Nat :=
  (db.1.canonical.map (·.height)).filter fun n => range.fromBlock ≤ n ∧ n ≤ range.toBlock

theorem mem_rangeHeights {n : Nat} : n ∈ rangeHeights db range ↔
    (∃ x ∈ db.1.canonical, x.height = n) ∧ n ∈ range.heights := by
  unfold rangeHeights
  rw [List.mem_filter, List.mem_map, decide_eq_true_iff, mem_heights_iff]

/-- No height is counted twice. -/
theorem nodup_rangeHeights : (rangeHeights db range).Nodup := by
  have hcanonical : db.1.canonical.Nodup := List.Nodup.of_map _ (nodup_canonical db.2)
  exact (hcanonical.map_on db.2.canonical_height).filter _

theorem length_heights (hproper : range.fromBlock ≤ range.toBlock) (hto : range.toBlock ≤ bigintMax) :
    range.heights.length = range.len := by
  unfold BackfillRange.heights BackfillRange.len satAdd u64Max
  unfold bigintMax at hto
  rw [List.length_range']
  omega

/-- Every height of the range has a canonical row exactly if there are as many of them. -/
theorem covers_iff_length : (∀ n ∈ range.heights, ∃ x ∈ db.1.canonical, x.height = n) ↔
    (rangeHeights db range).length = range.heights.length := by
  have hsub : (rangeHeights db range).Subperm range.heights :=
    nodup_rangeHeights.subperm fun n hn => (mem_rangeHeights.1 hn).2
  constructor
  · intro h
    have hnodup : range.heights.Nodup := List.nodup_range'
    have hback : range.heights.Subperm (rangeHeights db range) := hnodup.subperm fun n hn =>
      mem_rangeHeights.2 ⟨h n hn, hn⟩
    exact (hsub.antisymm hback).length_eq
  · intro h n hn
    have hperm := hsub.perm_of_length_le (Nat.le_of_eq h.symm)
    exact (mem_rangeHeights.1 (hperm.mem_iff.2 hn)).1

theorem canonicalRangeSummary_ok {summary : CanonicalRangeSummary}
    (h : db.canonicalRangeSummary range.fromBlock range.toBlock = .ok summary) :
    range.toBlock ≤ bigintMax ∧ summary = {
      canonicalBlocks := (rangeHeights db range).length
      minHeight := (rangeHeights db range).min?
      maxHeight := (rangeHeights db range).max? } := by
  obtain ⟨low, hlow, h⟩ := ok_bind.1 h
  obtain ⟨high, hhigh, h⟩ := ok_bind.1 h
  obtain ⟨-, rfl⟩ := pgHeight_ok.1 hlow
  obtain ⟨hto, rfl⟩ := pgHeight_ok.1 hhigh
  cases h
  exact ⟨hto, rfl⟩

/-- The summary of a range is its own length and ends exactly if every height has a canonical row. -/
theorem canonicalRangeSummary_iff (db : Database) (hproper : range.fromBlock ≤ range.toBlock)
    {summary : CanonicalRangeSummary}
    (h : db.canonicalRangeSummary range.fromBlock range.toBlock = .ok summary) :
    summary = ⟨range.len, some range.fromBlock, some range.toBlock⟩ ↔
      ∀ height, range.fromBlock ≤ height → height ≤ range.toBlock →
        ∃ x ∈ db.1.canonical, x.height = height := by
  obtain ⟨hto, rfl⟩ := canonicalRangeSummary_ok h
  have hlen := length_heights hproper hto
  have hcovers : (∀ height, range.fromBlock ≤ height → height ≤ range.toBlock →
      ∃ x ∈ db.1.canonical, x.height = height) ↔
      (rangeHeights db range).length = range.heights.length := by
    rw [← covers_iff_length]
    exact forall_congr' fun n => by rw [mem_heights_iff, and_imp]
  rw [hcovers, hlen]
  constructor
  · intro hsummary
    exact congrArg CanonicalRangeSummary.canonicalBlocks hsummary
  · intro hcount
    have hends := covers_iff_length.2 (hcount.trans hlen.symm)
    have hmem : ∀ n, n ∈ rangeHeights db range ↔ n ∈ range.heights := fun n =>
      mem_rangeHeights.trans (and_iff_right_of_imp (hends n))
    have hmin : (rangeHeights db range).min? = some range.fromBlock := by
      refine List.min?_eq_some_iff.2 ⟨?_, fun n hn => ?_⟩
      · exact (hmem _).2 (mem_heights_iff.2 ⟨Nat.le_refl _, hproper⟩)
      · exact (mem_heights_iff.1 ((hmem n).1 hn)).1
    have hmax : (rangeHeights db range).max? = some range.toBlock := by
      refine List.max?_eq_some_iff.2 ⟨?_, fun n hn => ?_⟩
      · exact (hmem _).2 (mem_heights_iff.2 ⟨hproper, Nat.le_refl _⟩)
      · exact (mem_heights_iff.1 ((hmem n).1 hn)).2
    rw [hcount, hmin, hmax]

end

/-! ## What a caller relies on -/

/-- **The records of a range are exact**: each stored log of a canonical block in the range, once, and
no log of an orphaned block; and they are in strict order, so their list is known by this. -/
theorem records_exact (db : Database) (fromBlock toBlock : Nat) (address : Option Address)
    {records : List NormalizedLogRecord}
    (h : db.canonicalLogRecords fromBlock toBlock address = .ok records) :
    ∃ rows : List LogRow, records = rows.map LogRow.normalized ∧
      rows.Pairwise (fun a b => a.position < b.position) ∧
      ∀ row, row ∈ rows ↔ row ∈ db.1.logs ∧ (∃ x ∈ db.1.canonical, x.hash = row.blockHash) ∧
        (fromBlock ≤ row.blockNumber ∧ row.blockNumber ≤ toBlock) ∧
        ∀ a ∈ address, row.log.address = a := by
  have hrecords : records = (rangeRows db ⟨fromBlock, toBlock⟩ address).map LogRow.normalized :=
    canonicalLogRecords_ok h
  refine ⟨_, hrecords, rangeRows_lt, fun row => ?_⟩
  have haddress : row.ofAddress address = true ↔ ∀ a ∈ address, row.log.address = a := by
    unfold LogRow.ofAddress
    cases address <;> simp
  rw [mem_rangeRows, haddress, canonicalLogRows_eq db.2, List.mem_filter, List.any_eq_true, and_assoc]
  simp only [decide_eq_true_iff]

/-- A log at a place within its block. -/
def placedLog (transactionIndex logIndex : Nat) : RawLog where
  transactionIndex := transactionIndex
  logIndex := logIndex
  txHash := 7
  address := 5
  topics := []
  data := []
  decodedEvent := none
  decoderVersion := none

/-- The block at height 1 was replaced; both blocks had a log at index 0. -/
def reorgedTables : Tables where
  chainId := 1
  blocks := [⟨⟨1, 0, 0⟩, 0, true, .Unsafe, .Observed⟩, ⟨⟨2, 1, 1⟩, 0, false, .Unsafe, .Observed⟩,
    ⟨⟨3, 1, 1⟩, 0, true, .Unsafe, .Observed⟩]
  logs := [⟨2, 1, placedLog 0 0⟩, ⟨3, 1, placedLog 2 0⟩, ⟨1, 0, placedLog 0 3⟩, ⟨3, 1, placedLog 1 1⟩]
  checkpoint := none
  outbox := []

theorem reorgedTables_valid : reorgedTables.Valid := by decide

def reorgedStore : Database := ⟨reorgedTables, reorgedTables_valid⟩

/-- `records_exact` after a reorganisation. -/
theorem records_exact_reorged : ∃ records, ∃ rows : List LogRow,
    reorgedStore.canonicalLogRecords 0 1 none = .ok records ∧
    records.map (fun record => (record.blockHash, record.logIndex)) = [(1, 3), (3, 1), (3, 0)] ∧
    records = rows.map LogRow.normalized ∧ rows.Pairwise (fun a b => a.position < b.position) ∧
    ∀ row, row ∈ rows ↔ row ∈ reorgedStore.1.logs ∧
      (∃ x ∈ reorgedStore.1.canonical, x.hash = row.blockHash) ∧
      (0 ≤ row.blockNumber ∧ row.blockNumber ≤ 1) ∧ ∀ a ∈ (none : Option Address), row.log.address = a := by
  have hread : reorgedStore.canonicalLogRecords 0 1 none =
      .ok ([⟨1, 0, placedLog 0 3⟩, ⟨3, 1, placedLog 1 1⟩, ⟨3, 1, placedLog 2 0⟩].map
        LogRow.normalized) := by decide +kernel
  obtain ⟨rows, hrows⟩ := records_exact reorgedStore 0 1 none hread
  exact ⟨_, rows, hread, by decide, hrows⟩

/-- Only a height that is no `bigint` fails a read. -/
theorem canonicalLogRecords_error {db : Database} {address : Option Address} {fromBlock toBlock : Nat}
    {error : PostgresStateError} (h : db.canonicalLogRecords fromBlock toBlock address = .error error) :
    ∃ height, (height = fromBlock ∨ height = toBlock) ∧ bigintMax < height ∧
      error = .heightOverflow height := by
  have hheight : ∀ {n : Nat} {e : PostgresStateError}, pgHeight n = .error e →
      bigintMax < n ∧ e = .heightOverflow n := by
    intro n e hn
    unfold pgHeight at hn
    split at hn
    · cases hn
    · rename_i hle
      cases hn
      exact ⟨Nat.lt_of_not_le hle, rfl⟩
  cases error_bind h with
  | inl hfrom =>
    obtain ⟨hlt, rfl⟩ := hheight hfrom
    exact ⟨fromBlock, .inl rfl, hlt, rfl⟩
  | inr hrest =>
    obtain ⟨low, -, hrest⟩ := hrest
    cases error_bind hrest with
    | inl hto =>
      obtain ⟨hlt, rfl⟩ := hheight hto
      exact ⟨toBlock, .inr rfl, hlt, rfl⟩
    | inr hrows =>
      obtain ⟨high, -, hrows⟩ := hrows
      cases hrows

/-- The read of a range, once for each page of it. -/
def readPages (db : Database) (address : Option Address) (pages : List BackfillRange) :
    Except PostgresStateError (List NormalizedLogRecord) :=
  (pages.mapM fun page => db.canonicalLogRecords page.fromBlock page.toBlock address).map List.flatten

theorem readPages_error {db : Database} {address : Option Address} {pages : List BackfillRange}
    {error : PostgresStateError} (h : readPages db address pages = .error error) :
    ∃ page ∈ pages, db.canonicalLogRecords page.fromBlock page.toBlock address = .error error := by
  unfold readPages at h
  cases hpages : pages.mapM fun page => db.canonicalLogRecords page.fromBlock page.toBlock address with
  | ok lists =>
    rw [hpages] at h
    cases h
  | error e =>
    rw [hpages] at h
    cases h
    exact mapM_error hpages

/-- Within `bigint`, the pages give what the range gives. -/
theorem readPages_eq {db : Database} {address : Option Address} {range : BackfillRange}
    (hproper : range.fromBlock ≤ range.toBlock) (hto : range.toBlock ≤ bigintMax) {size : Nat}
    {pages : List BackfillRange} (hpages : Partition range.fromBlock range.toBlock size pages) :
    readPages db address pages = db.canonicalLogRecords range.fromBlock range.toBlock address := by
  have hpage : ∀ page ∈ pages, db.canonicalLogRecords page.fromBlock page.toBlock address =
      .ok ((rangeRows db page address).map LogRow.normalized) := by
    intro page hmem
    have hle := hpages.nonempty page hmem
    have hin := (hpages.covers page.toBlock).1 ⟨page, hmem, hle, Nat.le_refl _⟩
    exact canonicalLogRecords_eq page (by omega) (by omega)
  have hrows : pages.flatMap (fun page => rangeRows db page address) = rangeRows db range address := by
    refine eq_of_mem_iff LogRow.position ?_ rangeRows_lt fun row => ?_
    · rw [List.pairwise_flatMap]
      refine ⟨fun _ _ => rangeRows_lt, hpages.ascending.imp fun {p q} hlt a ha b hb => position_lt ?_⟩
      have ha := (mem_rangeRows.1 ha).2.1.2
      have hb := (mem_rangeRows.1 hb).2.1.1
      omega
    · rw [List.mem_flatMap, mem_rangeRows, ← hpages.covers]
      constructor
      · intro h
        obtain ⟨page, hmem, h⟩ := h
        obtain ⟨hrow, hnumber, haddress⟩ := mem_rangeRows.1 h
        exact ⟨hrow, ⟨page, hmem, hnumber⟩, haddress⟩
      · intro h
        obtain ⟨hrow, ⟨page, hmem, hnumber⟩, haddress⟩ := h
        exact ⟨page, hmem, mem_rangeRows.2 ⟨hrow, hnumber, haddress⟩⟩
  unfold readPages
  rw [mapM_ok hpage, canonicalLogRecords_eq range (hproper.trans hto) hto, ← hrows, List.map_flatMap]
  show Except.ok (pages.map _).flatten = _
  rw [← List.flatMap_def]

/-- Above it, one of the pages fails as the range does. -/
theorem readPages_above {db : Database} {address : Option Address} {range : BackfillRange}
    (hproper : range.fromBlock ≤ range.toBlock) (hto : bigintMax < range.toBlock) {size : Nat}
    {pages : List BackfillRange} (hpages : Partition range.fromBlock range.toBlock size pages)
    (records : List NormalizedLogRecord) : readPages db address pages ≠ .ok records := by
  intro h
  unfold readPages at h
  cases hread : pages.mapM fun page => db.canonicalLogRecords page.fromBlock page.toBlock address with
  | error error =>
    rw [hread] at h
    cases h
  | ok lists =>
    obtain ⟨page, hmem, -, hle⟩ := (hpages.covers range.toBlock).2 ⟨hproper, Nat.le_refl _⟩
    obtain ⟨own, -, hown⟩ := mapM_mem_left hread hmem
    obtain ⟨low, -, hrest⟩ := ok_bind.1 hown
    obtain ⟨high, hhigh, -⟩ := ok_bind.1 hrest
    have := (pgHeight_ok.1 hhigh).1
    omega

/-- **Reading in pages**, over any partition of a range: the same records as one read of the range, or
no records from either. Each error names a height above `bigint`, an end of the range there and an
end of a page here. -/
theorem records_in_pages (db : Database) (address : Option Address) (range : BackfillRange)
    (hproper : range.fromBlock ≤ range.toBlock) {size : Nat} {pages : List BackfillRange}
    (hpages : Partition range.fromBlock range.toBlock size pages) :
    (∀ records, readPages db address pages = .ok records ↔
      db.canonicalLogRecords range.fromBlock range.toBlock address = .ok records) ∧
    (∀ error, db.canonicalLogRecords range.fromBlock range.toBlock address = .error error →
      ∃ height, (height = range.fromBlock ∨ height = range.toBlock) ∧ bigintMax < height ∧
        error = .heightOverflow height) ∧
    ∀ error, readPages db address pages = .error error →
      ∃ page ∈ pages, ∃ height, (height = page.fromBlock ∨ height = page.toBlock) ∧
        bigintMax < height ∧ error = .heightOverflow height := by
  refine ⟨fun records => ?_, fun error => canonicalLogRecords_error, fun error herror => ?_⟩
  · by_cases hto : range.toBlock ≤ bigintMax
    · rw [readPages_eq hproper hto hpages]
    · refine iff_of_false (readPages_above hproper (Nat.lt_of_not_le hto) hpages records) fun h => ?_
      obtain ⟨low, -, hrest⟩ := ok_bind.1 h
      obtain ⟨high, hhigh, -⟩ := ok_bind.1 hrest
      exact hto (pgHeight_ok.1 hhigh).1
  · obtain ⟨page, hmem, hpage⟩ := readPages_error herror
    exact ⟨page, hmem, canonicalLogRecords_error hpage⟩

/-- `records_in_pages` for pages of one block, and at the end of `bigint`, where the range's own end is
not the one that the pages name. -/
theorem records_in_pages_one :
    (∃ records, readPages reorgedStore (some 5) [⟨0, 0⟩, ⟨1, 1⟩] = .ok records ∧
      reorgedStore.canonicalLogRecords 0 1 (some 5) = .ok records) ∧
    reorgedStore.canonicalLogRecords bigintMax (bigintMax + 2) none =
      .error (.heightOverflow (bigintMax + 2)) ∧
    readPages reorgedStore none [⟨bigintMax, bigintMax⟩, ⟨bigintMax + 1, bigintMax + 1⟩,
        ⟨bigintMax + 2, bigintMax + 2⟩] = .error (.heightOverflow (bigintMax + 1)) ∧
    ∀ records, readPages reorgedStore none [⟨bigintMax, bigintMax⟩, ⟨bigintMax + 1, bigintMax + 1⟩,
        ⟨bigintMax + 2, bigintMax + 2⟩] = .ok records ↔
      reorgedStore.canonicalLogRecords bigintMax (bigintMax + 2) none = .ok records := by
  have hpages : Partition 0 1 1 [⟨0, 0⟩, ⟨1, 1⟩] :=
    ((partition_nil (by decide)).cons (by decide) (by decide) (by decide)).cons (by decide) (by decide)
      (by decide)
  have hlast : Partition bigintMax (bigintMax + 2) 1 [⟨bigintMax, bigintMax⟩,
      ⟨bigintMax + 1, bigintMax + 1⟩, ⟨bigintMax + 2, bigintMax + 2⟩] :=
    (((partition_nil (by decide)).cons (by decide) (by decide) (by decide)).cons (by decide)
      (by decide) (by decide)).cons (by decide) (by decide) (by decide)
  refine ⟨?_, by decide +kernel, by decide +kernel,
    (records_in_pages reorgedStore none ⟨bigintMax, bigintMax + 2⟩ (by decide) hlast).1⟩
  obtain ⟨records, hread⟩ : ∃ records, reorgedStore.canonicalLogRecords 0 1 (some 5) = .ok records :=
    ⟨_, canonicalLogRecords_eq ⟨0, 1⟩ (by decide) (by decide)⟩
  exact ⟨records, ((records_in_pages reorgedStore (some 5) ⟨0, 1⟩ (by decide) hpages).1 records).2 hread,
    hread⟩

/-- **The continuity check is exact**: the count and the two ends are the range's exactly if every
height of the range has a canonical row. -/
theorem summary_complete (db : Database) (range : BackfillRange)
    (hproper : range.fromBlock ≤ range.toBlock) {summary : CanonicalRangeSummary}
    (h : db.canonicalRangeSummary range.fromBlock range.toBlock = .ok summary) :
    summary = ⟨range.len, some range.fromBlock, some range.toBlock⟩ ↔
      ∀ height, range.fromBlock ≤ height → height ≤ range.toBlock →
        ∃ x ∈ db.1.canonical, x.height = height :=
  canonicalRangeSummary_iff db hproper h

/-- `summary_complete`: by the summary, height 1 is there. -/
theorem summary_complete_reorged :
    reorgedStore.canonicalRangeSummary 0 1 = .ok ⟨2, some 0, some 1⟩ ∧
      ∃ x ∈ reorgedStore.1.canonical, x.height = 1 := by
  have hread : reorgedStore.canonicalRangeSummary 0 1 = .ok ⟨2, some 0, some 1⟩ := by decide +kernel
  exact ⟨hread, (summary_complete reorgedStore ⟨0, 1⟩ (by decide) hread).1 rfl 1 (by decide) (by decide)⟩

end Chainweave.Postgres
