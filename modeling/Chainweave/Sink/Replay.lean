import Chainweave.Sink.Durable
import Chainweave.Sink.Server

/-!
# Replaying a batch

A batch that was committed once leaves rows on which each of its events is a
no-op (`Settled`), as long as no other event names the same block.

* `foldl_mergeRow`: what a list of logs does to a stored log row, column by
  column. The raw columns stay, so the same logs match it again.
* `settled_self`, `Settled.frame`, `Settled.noop`: an event is settled once it ran,
  stays so while other blocks change, and then changes nothing.
-/
namespace Chainweave.Postgres

open Stateful Chainweave.Chain

/-! ## Log rows -/

/-- What an upsert of `log` does to a stored row. -/
def mergeRow (hash : BlockHash) (number : Nat) (row : LogRow) (log : RawLog) : LogRow :=
  if row.isAt hash log.logIndex then Tables.mergeLog row number log else row

/-- The row has the key and the raw columns of the log. -/
def LogRow.matches (row : LogRow) (hash : BlockHash) (number : Nat) (log : RawLog) : Bool :=
  row.isAt hash log.logIndex ∧ row.blockNumber = number ∧
    row.log.transactionIndex = log.transactionIndex ∧ row.log.txHash = log.txHash ∧
    row.log.address = log.address ∧ row.log.topics = log.topics ∧ row.log.data = log.data

/-- `COALESCE` of the new value and the stored one, log by log. -/
def coalesce {α : Type} (column : RawLog → Option α) (stored : Option α) (logs : List RawLog) :
    Option α :=
  logs.foldl (fun value log => (column log).or value) stored

/-- The row with these decoder columns. -/
def LogRow.withDecoder (row : LogRow) (event : Option Json) (version : Option String) : LogRow :=
  { row with log := { row.log with decodedEvent := event, decoderVersion := version } }

section
variable {hash : BlockHash} {number : Nat} {row : LogRow} {log : RawLog} {logs : List RawLog}

theorem mergeRow_eq : mergeRow hash number row log =
    if row.matches hash number log then
      row.withDecoder (log.decodedEvent.or row.log.decodedEvent)
        (log.decoderVersion.or row.log.decoderVersion)
    else row := by
  unfold mergeRow Tables.mergeLog LogRow.matches LogRow.withDecoder
  by_cases hat : row.isAt hash log.logIndex = true <;> simp [hat]

@[simp] theorem matches_withDecoder {event : Option Json} {version : Option String} :
    (row.withDecoder event version).matches hash number log = row.matches hash number log := rfl

theorem matches_mergeRow {l : RawLog} :
    (mergeRow hash number row l).matches hash number log = row.matches hash number log := by
  rw [mergeRow_eq]
  split <;> simp

/-- **Some logs on a stored row**: the decoder columns take the values of the logs that match. -/
theorem foldl_mergeRow (row : LogRow) (logs : List RawLog) :
    logs.foldl (mergeRow hash number) row =
      row.withDecoder
        (coalesce (·.decodedEvent) row.log.decodedEvent (logs.filter (row.matches hash number)))
        (coalesce (·.decoderVersion) row.log.decoderVersion
          (logs.filter (row.matches hash number))) := by
  induction logs generalizing row with
  | nil => rfl
  | cons log logs ih =>
    have hfilter : logs.filter ((mergeRow hash number row log).matches hash number) =
        logs.filter (row.matches hash number) :=
      List.filter_congr fun l _ => matches_mergeRow
    rw [List.foldl_cons, ih, hfilter, mergeRow_eq]
    by_cases hm : row.matches hash number log = true
    · rw [if_pos hm, List.filter_cons_of_pos hm]
      rfl
    · rw [if_neg hm, List.filter_cons_of_neg hm]

/-- A value that some logs leave is left by one more, whose value it then takes. -/
theorem coalesce_concat {α : Type} {column : RawLog → Option α} {stored : Option α}
    (h : coalesce column stored logs = stored) :
    coalesce column ((column log).or stored) (logs ++ [log]) = (column log).or stored := by
  unfold coalesce at *
  rw [List.foldl_append, List.foldl_cons, List.foldl_nil]
  cases hc : column log with
  | none => simpa [hc] using h
  | some value => simp

/-- The logs leave the row as it is. -/
def Absorbs (hash : BlockHash) (number : Nat) (row : LogRow) (logs : List RawLog) : Prop :=
  logs.foldl (mergeRow hash number) row = row

theorem absorbs_iff : Absorbs hash number row logs ↔
    coalesce (·.decodedEvent) row.log.decodedEvent (logs.filter (row.matches hash number)) =
        row.log.decodedEvent ∧
      coalesce (·.decoderVersion) row.log.decoderVersion (logs.filter (row.matches hash number)) =
        row.log.decoderVersion := by
  unfold Absorbs
  rw [foldl_mergeRow]
  constructor
  · intro h
    have hlog : (row.withDecoder _ _).log = row.log := congrArg LogRow.log h
    exact ⟨congrArg RawLog.decodedEvent hlog, congrArg RawLog.decoderVersion hlog⟩
  · intro hand
    obtain ⟨h1, h2⟩ := hand
    rw [h1, h2]
    rfl

/-- A row that took one more log absorbs it with the others. -/
theorem Absorbs.concat (h : Absorbs hash number row logs) :
    Absorbs hash number (mergeRow hash number row log) (logs ++ [log]) := by
  by_cases hm : row.matches hash number log = true
  · obtain ⟨h1, h2⟩ := absorbs_iff.1 h
    rw [mergeRow_eq, if_pos hm, absorbs_iff]
    have hfilter : ∀ event version, (logs ++ [log]).filter
        ((row.withDecoder event version).matches hash number) =
          logs.filter (row.matches hash number) ++ [log] := by
      intro event version
      rw [List.filter_append, List.filter_cons_of_pos (by simpa using hm)]
      rfl
    rw [hfilter]
    exact ⟨coalesce_concat h1, coalesce_concat h2⟩
  · have heq : mergeRow hash number row log = row := by rw [mergeRow_eq, if_neg hm]
    unfold Absorbs at *
    rw [List.foldl_append, heq, h, List.foldl_cons, List.foldl_nil, heq]

/-- Logs with other keys leave a row as it is. -/
theorem absorbs_of_other (h : ∀ log ∈ logs, row.isAt hash log.logIndex = false) :
    Absorbs hash number row logs := by
  have hnil : logs.filter (row.matches hash number) = [] := by
    rw [List.filter_eq_nil_iff]
    intro log hl
    simp [LogRow.matches, h log hl]
  rw [absorbs_iff, hnil]
  exact ⟨rfl, rfl⟩

end

/-! ## Log tables -/

/-- The rows of the block absorb the logs, and there is one for each of them. -/
structure Absorbed (t : Tables) (hash : BlockHash) (number : Nat) (logs : List RawLog) : Prop where
  rows : ∀ row ∈ t.logs, row.blockHash = hash → Absorbs hash number row logs
  keys : ∀ log ∈ logs, ∃ row ∈ t.logs, row.isAt hash log.logIndex = true

section
variable {t t' : Tables} {hash : BlockHash} {number : Nat} {row : LogRow} {log : RawLog}
  {logs : List RawLog} {header : BlockHeader} {block : IndexedBlock}

@[simp] theorem blockHash_mergeRow : (mergeRow hash number row log).blockHash = row.blockHash := by
  rw [mergeRow_eq]
  split <;> rfl

@[simp] theorem isAt_mergeRow {h : BlockHash} {logIndex : Nat} :
    (mergeRow hash number row log).isAt h logIndex = row.isAt h logIndex := by
  rw [mergeRow_eq]
  split <;> rfl

/-- A merge leaves the rows of other blocks. -/
theorem mergeRow_of_ne (h : row.blockHash ≠ hash) : mergeRow hash number row log = row := by
  unfold mergeRow
  rw [if_neg (by simp [LogRow.isAt, h])]

theorem logs_mergeLogs :
    (t.mergeLogs hash number log).logs = t.logs.map (mergeRow hash number · log) := rfl

/-- A log that was upserted has its row. -/
theorem upsertLog_key (h : t.upsertLog header log = .ok t') :
    ∃ row ∈ t'.logs, row.isAt header.hash log.logIndex = true := by
  obtain ⟨n, hp, h⟩ := ok_bind.1 h
  obtain ⟨i, hi, h⟩ := ok_bind.1 h
  obtain ⟨j, hj, h⟩ := ok_bind.1 h
  split at h
  · cases h
  split at h
  · rename_i hany
    cases h
    obtain ⟨row, hr, hat⟩ := List.any_eq_true.1 hany
    exact ⟨_, List.mem_map_of_mem hr, by simpa [mergeRow] using isAt_mergeRow.trans hat⟩
  split at h
  · cases h
    exact ⟨_, List.mem_append_right _ (List.mem_singleton.2 rfl), by simp [LogRow.isAt]⟩
  · cases h

/-- The rows after an upsert: the rows before, merged, and for a new key the log's own. -/
theorem mem_upsertLog (hup : Tables.UpsertLog t header log t') (hr : row ∈ t'.logs) :
    (∃ r ∈ t.logs, row = mergeRow header.hash header.height r log) ∨
      (∀ r ∈ t.logs, r.isAt header.hash log.logIndex = false) ∧
        row = { blockHash := header.hash, blockNumber := header.height, log } := by
  cases hup with
  | merged =>
    obtain ⟨r, hmem, rfl⟩ := List.mem_map.1 hr
    exact .inl ⟨r, hmem, rfl⟩
  | inserted hnew =>
    cases List.mem_append.1 hr with
    | inl hr =>
      refine .inl ⟨row, hr, ?_⟩
      unfold mergeRow
      rw [if_neg (by simp [hnew row hr])]
    | inr hr => exact .inr ⟨hnew, List.mem_singleton.1 hr⟩

/-- Every key there was is there after an upsert. -/
theorem key_upsertLog (hup : Tables.UpsertLog t header log t') {h : BlockHash} {logIndex : Nat}
    (hkey : ∃ row ∈ t.logs, row.isAt h logIndex = true) :
    ∃ row ∈ t'.logs, row.isAt h logIndex = true := by
  obtain ⟨row, hr, hat⟩ := hkey
  cases hup with
  | merged => exact ⟨_, List.mem_map_of_mem hr, isAt_mergeRow.trans hat⟩
  | inserted => exact ⟨row, List.mem_append_left _ hr, hat⟩

theorem Absorbed.upsertLog (h : Absorbed t header.hash header.height logs)
    (hup : t.upsertLog header log = .ok t') :
    Absorbed t' header.hash header.height (logs ++ [log]) := by
  obtain ⟨-, -, -, -, hcases⟩ := Tables.upsertLog_ok hup
  refine ⟨fun row hr hh => ?_, fun l hl => ?_⟩
  · cases mem_upsertLog hcases hr with
    | inl hrow =>
      obtain ⟨r, hmem, rfl⟩ := hrow
      exact (h.rows r hmem (by simpa using hh)).concat
    | inr hrow =>
      obtain ⟨hnew, rfl⟩ := hrow
      -- No earlier log has this key: it would have left a row.
      have hother : ∀ l ∈ logs, l.logIndex ≠ log.logIndex := by
        intro l hl he
        obtain ⟨r, hr, hat⟩ := h.keys l hl
        rw [he, hnew r hr] at hat
        cases hat
      have habs : Absorbs header.hash header.height
          { blockHash := header.hash, blockNumber := header.height, log } logs :=
        absorbs_of_other fun l hl => by simp [LogRow.isAt, (hother l hl).symm]
      have hself : Absorbs header.hash header.height (mergeRow header.hash header.height
          { blockHash := header.hash, blockNumber := header.height, log } log) (logs ++ [log]) :=
        habs.concat
      have heq : mergeRow header.hash header.height
          { blockHash := header.hash, blockNumber := header.height, log } log =
            { blockHash := header.hash, blockNumber := header.height, log } := by
        rw [mergeRow_eq]
        simp [LogRow.withDecoder]
      rwa [heq] at hself
  · cases List.mem_append.1 hl with
    | inl hl => exact key_upsertLog hcases (h.keys l hl)
    | inr hl => rw [List.mem_singleton.1 hl]; exact upsertLog_key hup

/-- Once upserted, the logs of a block are absorbed. -/
theorem absorbed_upsertLogs (hup : t.upsertLogs block = .ok t') :
    Absorbed t' block.header.hash block.header.height block.logs := by
  unfold Tables.upsertLogs at hup
  have hrun : ∀ (logs : List RawLog) {done : List RawLog} {t : Tables},
      Absorbed t block.header.hash block.header.height done →
      logs.foldlM (fun t log => t.upsertLog block.header log) t = .ok t' →
      Absorbed t' block.header.hash block.header.height (done ++ logs) := by
    intro logs
    induction logs with
    | nil => intro done t h hrun; cases hrun; simpa using h
    | cons log logs ih =>
      intro done t h hrun
      rw [List.foldlM_cons] at hrun
      obtain ⟨u, hu, hrun⟩ := ok_bind.1 hrun
      simpa using ih (h.upsertLog hu) hrun
  have hstart : Absorbed t block.header.hash block.header.height [] :=
    ⟨fun _ _ _ => rfl, by simp⟩
  exact hrun block.logs hstart hup

/-- Logs within the limits whose keys are all there are merged. -/
theorem upsertLogs_merged (hfit : Fits block)
    (hkeys : ∀ log ∈ block.logs, ∃ row ∈ t.logs, row.isAt block.header.hash log.logIndex = true) :
    t.upsertLogs block = .ok { t with
      logs := t.logs.map fun row =>
        block.logs.foldl (mergeRow block.header.hash block.header.height) row } := by
  obtain ⟨hheight, hints, htopics⟩ := hfit
  unfold Tables.upsertLogs
  generalize block.logs = logs at hints htopics hkeys ⊢
  induction logs generalizing t with
  | nil => simp [pure, Except.pure]
  | cons log logs ih =>
    obtain ⟨row, hr, hat⟩ := hkeys log (by simp)
    have hany : t.logs.any (·.isAt block.header.hash log.logIndex) = true :=
      List.any_eq_true.2 ⟨row, hr, hat⟩
    have htop := htopics log (by simp)
    have hlog : t.upsertLog block.header log =
        .ok (t.mergeLogs block.header.hash block.header.height log) := by
      unfold Tables.upsertLog
      simp only [pgHeight_ok.2 ⟨hheight, rfl⟩, pgInt_ok.2 ⟨(hints log (by simp)).1, rfl⟩,
        pgInt_ok.2 ⟨(hints log (by simp)).2, rfl⟩, bind, Except.bind]
      rw [if_neg (by omega), if_pos hany]
      rfl
    rw [List.foldlM_cons, hlog]
    show logs.foldlM _ (t.mergeLogs _ _ log) = _
    rw [ih (fun l hl => hints l (List.mem_cons_of_mem _ hl))
      (fun l hl => htopics l (List.mem_cons_of_mem _ hl))
      (fun l hl => key_upsertLog .merged (hkeys l (List.mem_cons_of_mem _ hl)))]
    rw [logs_mergeLogs, List.map_map]
    rfl

/-- Absorbed logs are a no-op. -/
theorem Absorbed.noop (hfit : Fits block)
    (h : Absorbed t block.header.hash block.header.height block.logs) :
    t.upsertLogs block = .ok t := by
  rw [upsertLogs_merged hfit h.keys]
  have hid : t.logs.map (fun row =>
      block.logs.foldl (mergeRow block.header.hash block.header.height) row) = t.logs := by
    conv_rhs => rw [← List.map_id t.logs]
    refine List.map_congr_left fun row hr => ?_
    by_cases hh : row.blockHash = block.header.hash
    · exact h.rows row hr hh
    · exact absorbs_of_other fun l _ => by simp [LogRow.isAt, hh]
  rw [hid]

end

/-! ## Events -/

section
variable {t t' : Tables} {row : LogRow} {event other : DurableChainEvent} {block : IndexedBlock}
  {changed : Bool}

theorem upsertLog_logs_frame {header : BlockHeader} {log : RawLog}
    (h : t.upsertLog header log = .ok t') (hne : row.blockHash ≠ header.hash) :
    row ∈ t'.logs ↔ row ∈ t.logs := by
  obtain ⟨-, -, -, -, hcases⟩ := Tables.upsertLog_ok h
  constructor
  · intro hr
    cases mem_upsertLog hcases hr with
    | inl hrow =>
      obtain ⟨r, hmem, rfl⟩ := hrow
      rwa [mergeRow_of_ne (by simpa using hne)]
    | inr hrow => exact absurd (by rw [hrow.2]) hne
  · intro hr
    cases hcases with
    | merged => exact List.mem_map.2 ⟨row, hr, mergeRow_of_ne hne⟩
    | inserted => exact List.mem_append_left _ hr

theorem upsertLogs_logs_frame (h : t.upsertLogs block = .ok t')
    (hne : row.blockHash ≠ block.header.hash) : row ∈ t'.logs ↔ row ∈ t.logs := by
  unfold Tables.upsertLogs at h
  generalize block.logs = logs at h
  induction logs generalizing t with
  | nil => cases h; rfl
  | cons log logs ih =>
    rw [List.foldlM_cons] at h
    obtain ⟨u, hu, h⟩ := ok_bind.1 h
    rw [ih h, upsertLog_logs_frame hu hne]

theorem appendChanged_logs {kind : EventKind} {header : BlockHeader} {payload : Option IndexedBlock}
    {c : Bool} (h : appendChanged t kind header payload changed = .ok (c, t')) :
    t'.logs = t.logs := by
  obtain ⟨-, ⟨-, rfl⟩ | ⟨-, ho⟩⟩ := appendChanged_ok h
  · rfl
  · obtain ⟨-, -, rfl⟩ := Tables.appendOutbox_ok ho
    rfl

/-- An event leaves the log rows of other blocks. -/
theorem eventTables_logs_frame (h : eventTables t event = .ok (changed, t'))
    (hne : row.blockHash ≠ event.header.hash) : row ∈ t'.logs ↔ row ∈ t.logs := by
  cases event with
  | rollback header =>
    obtain ⟨⟨c, u⟩, hr, h⟩ := ok_bind.1 h
    obtain ⟨-, -, -, rfl⟩ := Tables.rollbackBlock_ok hr
    rw [appendChanged_logs h]
    rfl
  | apply block =>
    obtain ⟨⟨c, u⟩, hup, h⟩ := ok_bind.1 h
    obtain ⟨v, hlogs, h⟩ := ok_bind.1 h
    have hu : u.logs = t.logs := by
      obtain ⟨-, hcases⟩ := Tables.upsertBlock_ok hup
      cases hcases <;> rfl
    rw [appendChanged_logs h, upsertLogs_logs_frame hlogs hne, hu]

/-- The rows on which the event is a no-op. -/
def Settled (t : Tables) : DurableChainEvent → Prop
  | .rollback header => header.height ≤ bigintMax ∧
      (∃ row ∈ t.blocks, row.header.hash = header.hash) ∧
        ∀ row ∈ t.blocks, row.isAt header.hash header.height = false
  | .apply block => Fits block ∧
      (∃ row ∈ t.blocks, row.header.hash = block.header.hash ∧ row.isCanonical = true) ∧
        Absorbed t block.header.hash block.header.height block.logs

/-- **An event that ran is settled.** -/
theorem settled_self (h : eventTables t event = .ok (changed, t')) : Settled t' event := by
  cases event with
  | rollback header =>
    obtain ⟨⟨c, u⟩, hr, ha⟩ := ok_bind.1 h
    obtain ⟨hle, ⟨a, hmem, hhash⟩, -, rfl⟩ := Tables.rollbackBlock_ok hr
    have hmem' : a ∈ (t.demote header.hash header.height).headers := by simpa using hmem
    obtain ⟨row, hrow, rfl⟩ := Tables.mem_headers.1 hmem'
    unfold Settled
    rw [appendChanged_blocks ha]
    refine ⟨hle, ⟨row, hrow, hhash⟩, fun r hr => ?_⟩
    obtain ⟨r, hr', rfl⟩ := List.mem_map.1 hr
    by_cases hat : r.isAt header.hash header.height = true
    · rw [if_pos hat]
      simp [BlockRow.isAt]
    · rw [if_neg hat]
      simpa using hat
  | apply block =>
    have hfit := fits_of_apply h
    obtain ⟨⟨c, u⟩, hup, h⟩ := ok_bind.1 h
    obtain ⟨v, hlogs, ha⟩ := ok_bind.1 h
    have hcan : ∃ x ∈ u.canonical, x.hash = block.header.hash := by
      obtain ⟨-, hcases⟩ := Tables.upsertBlock_ok hup
      cases hcases with
      | unchanged x hx hhash => exact ⟨x, hx, hhash⟩
      | inserted => exact ⟨block.header, Tables.mem_canonical_insertBlock.2 (.inr rfl), rfl⟩
      | promoted x hx hhash =>
        exact ⟨x, Tables.mem_canonical_promote.2 (.inr ⟨hx, hhash⟩), hhash⟩
    obtain ⟨x, hx, hhash⟩ := hcan
    obtain ⟨row, hr, hc, rfl⟩ := Tables.mem_canonical.1 hx
    have habs := absorbed_upsertLogs hlogs
    refine ⟨hfit, ⟨row, ?_, hhash, hc⟩, ⟨?_, ?_⟩⟩
    · rwa [appendChanged_blocks ha, (upsertLogs_frame hlogs).1]
    · rw [appendChanged_logs ha]
      exact habs.rows
    · rw [appendChanged_logs ha]
      exact habs.keys

/-- **It stays settled** while other blocks change. -/
theorem Settled.frame (h : Settled t event) (hev : eventTables t other = .ok (changed, t'))
    (hne : event.header.hash ≠ other.header.hash) : Settled t' event := by
  have hblocks : ∀ row : BlockRow, row.header.hash = event.header.hash →
      (row ∈ t'.blocks ↔ row ∈ t.blocks) :=
    fun row hh => eventTables_frame hev (by rw [hh]; exact hne)
  cases event with
  | rollback header =>
    obtain ⟨hle, ⟨row, hr, hhash⟩, hat⟩ := h
    refine ⟨hle, ⟨row, (hblocks row hhash).2 hr, hhash⟩, fun r hr => ?_⟩
    by_cases hh : r.header.hash = header.hash
    · exact hat r ((hblocks r hh).1 hr)
    · simp [BlockRow.isAt, hh]
  | apply block =>
    obtain ⟨hfit, ⟨row, hr, hhash, hc⟩, habs⟩ := h
    have hlogs : ∀ row : LogRow, row.blockHash = block.header.hash →
        (row ∈ t'.logs ↔ row ∈ t.logs) :=
      fun row hh => eventTables_logs_frame hev (by rw [hh]; exact hne)
    refine ⟨hfit, ⟨row, (hblocks row hhash).2 hr, hhash, hc⟩, ⟨fun r hr hh => ?_, fun l hl => ?_⟩⟩
    · exact habs.rows r ((hlogs r hh).1 hr) hh
    · obtain ⟨r, hmem, hat⟩ := habs.keys l hl
      have hh : r.blockHash = block.header.hash := by
        simp only [LogRow.isAt, decide_eq_true_eq] at hat
        exact hat.1
      exact ⟨r, (hlogs r hh).2 hmem, hat⟩

/-- **A settled event changes nothing**, and reports so. -/
theorem Settled.noop (hv : t.Valid) (h : Settled t event) : eventTables t event = .ok (false, t) := by
  cases event with
  | rollback header =>
    obtain ⟨hle, ⟨row, hr, hhash⟩, hat⟩ := h
    have hmap : t.demote header.hash header.height = t := by
      have hid : (t.blocks.map fun row => if row.isAt header.hash header.height then
          { row with isCanonical := false } else row) = t.blocks := by
        conv_rhs => rw [← List.map_id t.blocks]
        refine List.map_congr_left fun r hr => ?_
        rw [hat r hr]
        rfl
      unfold Tables.demote
      rw [hid]
    have hcount : t.blocks.countP (·.isAt header.hash header.height) = 0 := by
      rw [List.countP_eq_zero]
      intro r hr
      simp [hat r hr]
    have hroll : t.rollbackBlock header = .ok (false, t) := by
      unfold Tables.rollbackBlock
      rw [if_neg (by simpa [Tables.headers] using ⟨row, hr, hhash⟩)]
      simp only [pgHeight_ok.2 ⟨hle, rfl⟩, bind, Except.bind, hcount, hmap]
      rfl
    unfold eventTables
    simp only [hroll, bind, Except.bind]
    rfl
  | apply block =>
    obtain ⟨hfit, ⟨row, hr, hhash, hc⟩, habs⟩ := h
    have hfind : t.blocks.find? (·.header.hash = block.header.hash) = some row := by
      cases hf : t.blocks.find? (·.header.hash = block.header.hash) with
      | none => simpa [hhash] using List.find?_eq_none.1 hf row hr
      | some stored =>
        have hst : stored.header.hash = block.header.hash := by simpa using List.find?_some hf
        have hnd : (t.blocks.map fun r => r.header.hash).Nodup := by
          have hkey := hv.block_key
          rwa [Tables.headers, List.map_map] at hkey
        rw [List.inj_on_of_nodup_map hnd (List.mem_of_find?_eq_some hf) hr (hst.trans hhash.symm)]
    have hup : t.upsertBlock block = .ok (false, t) := by
      unfold Tables.upsertBlock
      simp only [pgHeight_ok.2 ⟨hfit.height, rfl⟩, bind, Except.bind, hfind]
      rw [if_pos hc]
      rfl
    unfold eventTables
    simp only [hup, habs.noop hfit, bind, Except.bind]
    rfl

end

/-! ## Batches -/

section
variable {t t' : Tables} {events : List DurableChainEvent} {batch : DurableChainBatch}

/-- Settled, and still so after events on other blocks. -/
theorem Settled.runEvents {event : DurableChainEvent} (h : Settled t event)
    (hne : ∀ other ∈ events, event.header.hash ≠ other.header.hash)
    (hrun : runEvents t events = .ok t') : Settled t' event := by
  induction events generalizing t with
  | nil => cases hrun; exact h
  | cons other events ih =>
    obtain ⟨changed, u, hev, hrun⟩ := runEvents_cons_ok.1 hrun
    exact ih (h.frame hev (hne other (by simp))) (fun o ho => hne o (List.mem_cons_of_mem _ ho)) hrun

/-- After events on distinct blocks, each of them is settled. -/
theorem settled_runEvents (hnd : (events.map (·.header.hash)).Nodup)
    (hrun : Postgres.runEvents t events = .ok t') : ∀ event ∈ events, Settled t' event := by
  induction events generalizing t with
  | nil => simp
  | cons event events ih =>
    rw [List.map_cons, List.nodup_cons] at hnd
    obtain ⟨changed, u, hev, hrun⟩ := runEvents_cons_ok.1 hrun
    intro e he
    cases List.mem_cons.1 he with
    | inl he =>
      rw [he]
      refine (settled_self hev).runEvents (fun other ho heq => ?_) hrun
      exact hnd.1 (List.mem_map.2 ⟨other, ho, heq.symm⟩)
    | inr he => exact ih hnd.2 hrun e he

/-- The loop of the transaction on settled events: the tables stay, and only logs are counted. -/
theorem applyEvents_settled (hv : t.Valid) (hset : ∀ event ∈ events, Settled t event)
    (commonAncestor target : Option BlockHeader) (report : ApplyReport) :
    ∃ tx, events.foldlM (applyEvent commonAncestor) ⟨t, report, target⟩ = .ok tx ∧
      tx.tables = t ∧ tx.report = { report with upsertedLogs := tx.report.upsertedLogs } := by
  induction events generalizing report target with
  | nil => exact ⟨_, rfl, rfl, rfl⟩
  | cons event events ih =>
    have hstep : applyEvent commonAncestor ⟨t, report, target⟩ event =
        .ok ⟨t, countEvent report false event, targetAfter commonAncestor event⟩ := by
      unfold applyEvent
      simp only [(hset event (by simp)).noop hv, bind, Except.bind]
      rfl
    obtain ⟨tx, hrun, htables, hreport⟩ := ih (fun e he => hset e (List.mem_cons_of_mem _ he))
      (targetAfter commonAncestor event) (countEvent report false event)
    refine ⟨tx, ?_, htables, ?_⟩
    · rw [List.foldlM_cons, hstep]
      exact hrun
    · rw [hreport]
      cases event <;> rfl

/-- A checkpoint that was moved can be moved there again. -/
theorem moveTarget_again {target : Option BlockHeader} (h : moveTarget t target = .ok t') :
    moveTarget t' target = .ok t' := by
  unfold moveTarget at *
  split at h
  · rename_i header
    obtain ⟨hle, ⟨x, hx, hat⟩, rfl⟩ := Tables.moveCheckpoint_ok h
    have hany : (t.setCheckpoint header).canonical.any
        (fun h => h.hash = header.hash ∧ h.height = header.height) = true :=
      List.any_eq_true.2 ⟨x, hx, by simpa using hat⟩
    unfold Tables.moveCheckpoint
    simp only [pgHeight_ok.2 ⟨hle, rfl⟩, bind, Except.bind]
    rw [if_pos hany]
    rfl
  · rfl

theorem Settled.setCheckpoint {event : DurableChainEvent} (h : Settled t event)
    {c : Option Checkpoint} : Settled { t with checkpoint := c } event := by
  cases event with
  | rollback header => exact h
  | apply block => exact ⟨h.1, h.2.1, ⟨h.2.2.rows, h.2.2.keys⟩⟩

end

/-- Where the process may die while a batch is applied.
mirrors crates/chainweave-sink/src/postgres.rs:123-128 -/
inductive CrashPoint where
  | beforeCommit
  | afterCommit
  | transactionStep (step : Nat)
  deriving DecidableEq, Repr

/-- The gates of the transaction: one after it begins, two for each event, two for the checkpoint.
mirrors crates/chainweave-sink/src/postgres.rs:425-481 -/
def gates (batch : DurableChainBatch) : Nat :=
  1 + 2 * batch.events.length +
    2 * (finalTarget batch.commonAncestor batch.events).isSome.toNat

/-- The rows after a crash there: a transaction that was not committed leaves none.
mirrors crates/chainweave-sink/src/postgres.rs:416-492 -/
def crashed (batch : DurableChainBatch) (db : Database) (crashPoint : CrashPoint) : Database :=
  let committed := (applyBatch db batch).toOption.elim db (·.2)
  if batch.isEmpty then db
  else
    match crashPoint with
    | .beforeCommit => db
    | .afterCommit => committed
    | .transactionStep step => if step < gates batch then db else committed

theorem crashed_cases (batch : DurableChainBatch) (db : Database) (crashPoint : CrashPoint) :
    crashed batch db crashPoint = db ∨
      ∃ report, applyBatch db batch = .ok (report, crashed batch db crashPoint) := by
  unfold crashed
  dsimp only
  cases hap : applyBatch db batch with
  | error e =>
    have helim : ((Except.error e : Except PostgresStateError (ApplyReport × Database)).toOption.elim
        db (·.2)) = db := rfl
    rw [helim]
    refine .inl ?_
    split
    · rfl
    · cases crashPoint with
      | transactionStep step => exact ite_self db
      | beforeCommit => rfl
      | afterCommit => rfl
  | ok r =>
    split
    · exact .inl rfl
    · cases crashPoint with
      | beforeCommit => exact .inl rfl
      | afterCommit => exact .inr ⟨r.1, rfl⟩
      | transactionStep step =>
        by_cases hstep : step < gates batch
        · exact .inl (if_pos hstep)
        · refine .inr ⟨r.1, ?_⟩
          dsimp only
          rw [if_neg hstep]
          rfl

/-- A committed batch, applied again: it succeeds, reports no change, and leaves the database. -/
theorem applyBatch_again {db db' : Database} {batch : DurableChainBatch} {report : ApplyReport}
    (hnd : (batch.events.map (·.header.hash)).Nodup)
    (hap : applyBatch db batch = .ok (report, db')) :
    ∃ again, applyBatch db' batch = .ok (again, db') ∧
      again = { ({} : ApplyReport) with upsertedLogs := again.upsertedLogs } := by
  cases hne : batch.isEmpty with
  | true =>
    rw [applyBatch_empty db hne] at hap
    cases hap
    exact ⟨{}, applyBatch_empty db hne, rfl⟩
  | false =>
    have htables := (applyBatch_ok hne).1 hap
    obtain ⟨u, hrun, hm⟩ := applyTables_ok_iff.1 ⟨report, htables⟩
    obtain ⟨w, c, hrun', hdb⟩ := applyBatch_events hap
    obtain rfl : w = u := Except.ok.inj (hrun'.symm.trans hrun)
    have hset : ∀ event ∈ batch.events, Settled db'.1 event := by
      intro event he
      rw [hdb]
      exact (settled_runEvents hnd hrun event he).setCheckpoint
    obtain ⟨tx, hloop, hsame, hreport⟩ :=
      applyEvents_settled db'.2 hset batch.commonAncestor batch.commonAncestor {}
    have htarget : tx.checkpointTarget = finalTarget batch.commonAncestor batch.events :=
      (applyEvents_ok.1 ⟨tx, hloop, rfl, rfl⟩).2.symm
    refine ⟨tx.report, (applyBatch_ok hne).2 ?_, hreport⟩
    unfold applyTables
    refine ok_bind.2 ⟨tx, hloop, ok_bind.2 ⟨db'.1, ?_, rfl⟩⟩
    rw [htarget, hsame]
    exact moveTarget_again hm

/-- **Replaying a committed batch is a no-op.** Where the events name distinct blocks, a second
application reports no change and leaves every row; so after any crashes, a replay ends where a
clean run does. -/
theorem replay_noop (db db' : Database) (batch : DurableChainBatch) (report : ApplyReport)
    (hnd : (batch.events.map (·.header.hash)).Nodup)
    (hap : applyBatch db batch = .ok (report, db')) :
    (∃ again, applyBatch db' batch = .ok (again, db') ∧ again.appliedBlocks = 0 ∧
      again.rolledBackBlocks = 0 ∧ again.appendedOutboxEvents = 0) ∧
    ∀ crashPoints : List CrashPoint,
      ∃ again, applyBatch (crashPoints.foldl (crashed batch) db) batch = .ok (again, db') := by
  obtain ⟨again, hagain, hreport⟩ := applyBatch_again hnd hap
  refine ⟨⟨again, hagain, ?_, ?_, ?_⟩, fun crashPoints => ?_⟩
  · rw [hreport]
  · rw [hreport]
  · rw [hreport]
  -- After each crash the rows are those before the batch, or those after it.
  have hrows : ∀ rows, (rows = db ∨ rows = db') →
      crashPoints.foldl (crashed batch) rows = db ∨ crashPoints.foldl (crashed batch) rows = db' := by
    induction crashPoints with
    | nil => intro rows h; exact h
    | cons crashPoint crashPoints ih =>
      intro rows h
      refine ih _ ?_
      cases crashed_cases batch rows crashPoint with
      | inl heq => rw [heq]; exact h
      | inr hcommit =>
        obtain ⟨r, hcommit⟩ := hcommit
        cases h with
        | inl h =>
          rw [h] at hcommit ⊢
          exact .inr (Prod.ext_iff.1 (Except.ok.inj (hcommit.symm.trans hap))).2
        | inr h =>
          rw [h] at hcommit ⊢
          exact .inr (Prod.ext_iff.1 (Except.ok.inj (hcommit.symm.trans hagain))).2
  cases hrows db (.inl rfl) with
  | inl h => rw [h]; exact ⟨report, hap⟩
  | inr h => rw [h]; exact ⟨again, hagain⟩

/-- A log, decoded or not. -/
def transferLog (decodedEvent : Option Json) (decoderVersion : Option String) : RawLog where
  transactionIndex := 0
  logIndex := 0
  txHash := 7
  address := 9
  topics := []
  data := []
  decodedEvent
  decoderVersion

/-- A first block that lists one log twice, the second time decoded. -/
def loggedBlock : IndexedBlock where
  header := ⟨1, 0, 0⟩
  timestamp := 0
  status := .Unsafe
  statusSource := .Observed
  logs := [transferLog none none, transferLog (some "Transfer") (some "1")]

def twiceLogged : DurableChainBatch where
  transition := .bootstrap
  commonAncestor := none
  events := [.apply loggedBlock]

/-- `replay_noop` where a replayed log meets its own decoder columns. -/
theorem replay_noop_decoded :
    ∃ report db', applyBatch (Database.empty 1) twiceLogged = .ok (report, db') ∧
      db'.1.logs.map (·.log.decoderVersion) = [some "1"] ∧
      (∃ again, applyBatch db' twiceLogged = .ok (again, db') ∧ again.appliedBlocks = 0 ∧
        again.rolledBackBlocks = 0 ∧ again.appendedOutboxEvents = 0) ∧
      ∃ again, applyBatch (crashed twiceLogged (Database.empty 1) (.transactionStep 2)) twiceLogged =
        .ok (again, db') := by
  have hsome : (applyBatch (Database.empty 1) twiceLogged).toOption.any
      (fun r => r.2.1.logs.map (·.log.decoderVersion) = [some "1"]) = true := by decide +kernel
  cases hap : applyBatch (Database.empty 1) twiceLogged with
  | error e => rw [hap] at hsome; cases hsome
  | ok r =>
    obtain ⟨hnoop, hcrash⟩ := replay_noop (Database.empty 1) r.2 twiceLogged r.1 (by decide) hap
    rw [hap] at hsome
    exact ⟨r.1, r.2, rfl, of_decide_eq_true hsome, hnoop, hcrash [.transactionStep 2]⟩

end Chainweave.Postgres
