import Chainweave.Sink.Payload
import Chainweave.Sink.Redecode

/-!
# History is never rewritten

Block rows, log rows and outbox rows are inserted and never deleted, and only the
columns that may change are ever written again.

* `Retains I t t'`: every row of `t` is in `t'` with the columns that identify and
  describe it; the decoder columns of a log row differ only if `I` of the row.
* `retains_eventTables`, `retains_updateDecoder`: each statement does that, for a
  stored log that an incoming log of the batch matches, or for any in a re-decode.
* `history_retained`: so do any calls in any order.
-/
namespace Chainweave.Postgres

open Stateful Chainweave.Chain

/-- The same row, but for its decoder columns. -/
structure SameRaw (row row' : LogRow) : Prop where
  blockHash : row'.blockHash = row.blockHash
  blockNumber : row'.blockNumber = row.blockNumber
  raw : row'.log.raw = row.log.raw

theorem SameRaw.refl (row : LogRow) : SameRaw row row := ⟨rfl, rfl, rfl⟩

theorem SameRaw.trans {a b c : LogRow} (h : SameRaw a b) (h' : SameRaw b c) : SameRaw a c :=
  ⟨h'.blockHash.trans h.blockHash, h'.blockNumber.trans h.blockNumber, h'.raw.trans h.raw⟩

/-- Whether a log matches a stored row does not depend on the decoder columns of the row. -/
theorem SameRaw.matches_eq {row row' : LogRow} (h : SameRaw row row') (hash : BlockHash)
    (number : Nat) (log : RawLog) : row'.matches hash number log = row.matches hash number log := by
  obtain ⟨blockHash, blockNumber, stored⟩ := row
  obtain ⟨blockHash', blockNumber', stored'⟩ := row'
  obtain ⟨h1, h2, h3⟩ := h
  simp only [RawLog.raw, RawLog.mk.injEq] at h1 h2 h3
  rw [Bool.eq_iff_iff]
  simp only [LogRow.matches, LogRow.isAt, decide_eq_true_eq, h1, h2, h3]

/-- Every row is kept, with the columns that identify and describe it; the decoder columns of a log row
are changed only if `I` of the row. -/
structure Retains (I : LogRow → Prop) (t t' : Tables) : Prop where
  blocks : ∀ row ∈ t.blocks, ∃ row' ∈ t'.blocks, row'.header = row.header
  logs : ∀ row ∈ t.logs, ∃ row' ∈ t'.logs, SameRaw row row' ∧ (row' = row ∨ I row)
  outbox : t.outbox <+: t'.outbox

/-- A property of log rows that the decoder columns do not matter for. -/
def Raw (I : LogRow → Prop) : Prop := ∀ row row', SameRaw row row' → I row' → I row

section
variable {I J : LogRow → Prop} {t u v : Tables}

theorem Retains.refl (t : Tables) : Retains I t t where
  blocks row hr := ⟨row, hr, rfl⟩
  logs row hr := ⟨row, hr, .refl row, .inl rfl⟩
  outbox := List.prefix_rfl

theorem Retains.trans (hI : Raw I) (h : Retains I t u) (h' : Retains I u v) : Retains I t v where
  blocks row hr := by
    obtain ⟨row', hr', heq⟩ := h.blocks row hr
    obtain ⟨row'', hr'', heq'⟩ := h'.blocks row' hr'
    exact ⟨row'', hr'', heq'.trans heq⟩
  logs row hr := by
    obtain ⟨row', hr', hsame, hor⟩ := h.logs row hr
    obtain ⟨row'', hr'', hsame', hor'⟩ := h'.logs row' hr'
    refine ⟨row'', hr'', hsame.trans hsame', ?_⟩
    rcases hor' with rfl | hI'
    · exact hor
    · exact .inr (hI row row' hsame hI')
  outbox := h.outbox.trans h'.outbox

theorem Retains.mono (h : Retains I t u) (hIJ : ∀ row, I row → J row) : Retains J t u where
  blocks := h.blocks
  logs row hr := by
    obtain ⟨row', hr', hsame, hor⟩ := h.logs row hr
    exact ⟨row', hr', hsame, hor.imp id (hIJ row)⟩
  outbox := h.outbox

/-- Block rows that keep their headers, with the rest as it was. -/
theorem Retains.of_blocks {f : BlockRow → BlockRow} (hf : ∀ row, (f row).header = row.header)
    (hblocks : ∀ row ∈ t.blocks, f row ∈ u.blocks) (hlogs : u.logs = t.logs)
    (houtbox : u.outbox = t.outbox) : Retains I t u where
  blocks row hr := ⟨f row, hblocks row hr, hf row⟩
  logs row hr := ⟨row, hlogs ▸ hr, .refl row, .inl rfl⟩
  outbox := by rw [houtbox]

/-! ## The statements -/

theorem retains_demote (hash : BlockHash) (height : Nat) : Retains I t (t.demote hash height) := by
  refine Retains.of_blocks (f := fun row =>
    if row.isAt hash height then { row with isCanonical := false } else row) (fun row => ?_)
    (fun row hr => List.mem_map_of_mem hr) rfl rfl
  split
  · rfl
  · rfl

theorem retains_upsertBlock {block : IndexedBlock} {changed : Bool}
    (h : Tables.UpsertBlock t block changed u) : Retains I t u := by
  cases h with
  | unchanged => exact .refl t
  | inserted =>
    exact Retains.of_blocks (f := id) (fun _ => rfl) (fun row hr => List.mem_append_left _ hr) rfl rfl
  | promoted =>
    refine Retains.of_blocks (f := fun row =>
      if row.header.hash = block.header.hash then
        { Tables.newRow block with header := row.header } else row) (fun row => ?_)
      (fun row hr => List.mem_map_of_mem hr) rfl rfl
    dsimp only
    split
    · rfl
    · rfl

/-- A stored row that a log of the block with this header matches. -/
def Incoming (header : BlockHeader) (logs : List RawLog) (row : LogRow) : Prop :=
  ∃ log ∈ logs, row.matches header.hash header.height log = true

theorem raw_incoming (header : BlockHeader) (logs : List RawLog) : Raw (Incoming header logs) := by
  intro row row' hsame hI
  obtain ⟨log, hl, hm⟩ := hI
  exact ⟨log, hl, by rw [← hsame.matches_eq]; exact hm⟩

/-- A merge writes the decoder columns of a row whose raw columns the log has. -/
theorem sameRaw_mergeRow (hash : BlockHash) (number : Nat) (row : LogRow) (log : RawLog) :
    SameRaw row (mergeRow hash number row log) ∧
      (mergeRow hash number row log = row ∨ row.matches hash number log = true) := by
  rw [mergeRow_eq]
  split
  · rename_i hm
    exact ⟨⟨rfl, rfl, rfl⟩, .inr hm⟩
  · exact ⟨.refl row, .inl rfl⟩

theorem retains_upsertLog {header : BlockHeader} {log : RawLog}
    (h : Tables.UpsertLog t header log u) : Retains (Incoming header [log]) t u := by
  cases h with
  | merged =>
    refine { blocks := fun row hr => ⟨row, hr, rfl⟩, logs := fun row hr => ?_, outbox := List.prefix_rfl }
    obtain ⟨hsame, hor⟩ := sameRaw_mergeRow header.hash header.height row log
    exact ⟨_, List.mem_map_of_mem hr, hsame, hor.imp id fun hm => ⟨log, by simp, hm⟩⟩
  | inserted =>
    exact { blocks := fun row hr => ⟨row, hr, rfl⟩, outbox := List.prefix_rfl
            logs := fun row hr => ⟨row, List.mem_append_left _ hr, .refl row, .inl rfl⟩ }

theorem retains_upsertLogs {block : IndexedBlock} (h : t.upsertLogs block = .ok u) :
    Retains (Incoming block.header block.logs) t u := by
  unfold Tables.upsertLogs at h
  generalize block.logs = logs at h ⊢
  induction logs generalizing t with
  | nil => cases h; exact .refl _
  | cons log logs ih =>
    rw [List.foldlM_cons] at h
    obtain ⟨w, hw, h⟩ := ok_bind.1 h
    obtain ⟨-, -, -, -, hup⟩ := Tables.upsertLog_ok hw
    refine Retains.trans (raw_incoming _ _) ((retains_upsertLog hup).mono fun row hI => ?_)
      ((ih h).mono fun row hI => ?_)
    · obtain ⟨l, hl, hm⟩ := hI
      obtain rfl := List.mem_singleton.1 hl
      exact ⟨l, by simp, hm⟩
    · obtain ⟨l, hl, hm⟩ := hI
      exact ⟨l, List.mem_cons_of_mem _ hl, hm⟩

theorem retains_appendChanged {kind : EventKind} {header : BlockHeader} {block : Option IndexedBlock}
    {changed c : Bool} (h : appendChanged t kind header block changed = .ok (c, u)) :
    Retains I t u := by
  obtain ⟨-, ⟨-, rfl⟩ | ⟨-, ho⟩⟩ := appendChanged_ok h
  · exact .refl _
  · obtain ⟨-, -, rfl⟩ := Tables.appendOutbox_ok ho
    exact { blocks := fun row hr => ⟨row, hr, rfl⟩
            logs := fun row hr => ⟨row, hr, .refl row, .inl rfl⟩
            outbox := List.prefix_append _ _ }

/-- A stored row that a log of an applied block of these events matches. -/
def IncomingEvents (events : List DurableChainEvent) (row : LogRow) : Prop :=
  ∃ block, .apply block ∈ events ∧ Incoming block.header block.logs row

theorem raw_incomingEvents (events : List DurableChainEvent) : Raw (IncomingEvents events) := by
  intro row row' hsame hI
  obtain ⟨block, hb, hI⟩ := hI
  exact ⟨block, hb, raw_incoming _ _ row row' hsame hI⟩

/-- **One event.** -/
theorem retains_eventTables {event : DurableChainEvent} {changed : Bool}
    (h : eventTables t event = .ok (changed, u)) : Retains (IncomingEvents [event]) t u := by
  cases event with
  | rollback header =>
    obtain ⟨⟨c, w⟩, hr, ha⟩ := ok_bind.1 h
    obtain ⟨-, -, -, rfl⟩ := Tables.rollbackBlock_ok hr
    exact (retains_demote header.hash header.height).trans (raw_incomingEvents _)
      (retains_appendChanged ha)
  | apply block =>
    obtain ⟨⟨c, w⟩, hu, h⟩ := ok_bind.1 h
    obtain ⟨x, hl, ha⟩ := ok_bind.1 h
    obtain ⟨-, hup⟩ := Tables.upsertBlock_ok hu
    have hlogs : Retains (IncomingEvents [.apply block]) w x :=
      (retains_upsertLogs hl).mono fun row hI => ⟨block, by simp, hI⟩
    exact ((retains_upsertBlock hup).trans (raw_incomingEvents _) hlogs).trans (raw_incomingEvents _)
      (retains_appendChanged ha)

theorem retains_runEvents {events : List DurableChainEvent} (h : runEvents t events = .ok u) :
    Retains (IncomingEvents events) t u := by
  induction events generalizing t with
  | nil => cases h; exact .refl _
  | cons event events ih =>
    obtain ⟨changed, w, hev, h⟩ := runEvents_cons_ok.1 h
    refine Retains.trans (raw_incomingEvents _) ((retains_eventTables hev).mono fun row hI => ?_)
      ((ih h).mono fun row hI => ?_)
    · obtain ⟨block, hb, hI⟩ := hI
      exact ⟨block, by simp [List.mem_singleton.1 hb], hI⟩
    · obtain ⟨block, hb, hI⟩ := hI
      exact ⟨block, List.mem_cons_of_mem _ hb, hI⟩

/-- **One transaction of `apply_batch`.** -/
theorem retains_applyBatch {db db' : Database} {batch : DurableChainBatch} {report : ApplyReport}
    (h : applyBatch db batch = .ok (report, db')) :
    Retains (IncomingEvents batch.events) db.1 db'.1 := by
  obtain ⟨w, c, hrun, hdb⟩ := applyBatch_events h
  have hw := retains_runEvents hrun
  rw [hdb]
  exact ⟨hw.blocks, hw.logs, hw.outbox⟩

/-- An update of the decoder columns leaves everything else. -/
theorem retains_updateDecoder (hash : BlockHash) (logIndex : Nat) (event : Option Json)
    (version : Option String) :
    Retains (fun _ => True) t (t.updateDecoder hash logIndex event version).2 where
  blocks row hr := ⟨row, hr, rfl⟩
  logs row hr := by
    refine ⟨_, List.mem_map_of_mem hr, ?_, .inr trivial⟩
    split
    · exact ⟨rfl, rfl, rfl⟩
    · exact .refl row
  outbox := List.prefix_rfl

/-- **One transaction of `redecode_retained_logs`.** -/
theorem retains_redecode {db db' : Database} {registry : AbiRegistry} {rows : List LogRow}
    {report : RedecodeReport} (h : redecode db registry rows = .ok (report, db')) :
    Retains (fun _ => True) db.1 db'.1 := by
  refine Tables.redecodeRows_keeps (P := Retains (fun _ => True) db.1)
    (fun t hash logIndex event version hp => ?_) (.refl db.1) (redecode_ok h)
  exact hp.trans (fun _ _ _ _ => trivial) (retains_updateDecoder hash logIndex event version)

end

/-! ## Any calls -/

/-- A call of `apply_batch`. -/
theorem retains_applyBatch_call (server : Server) (batch : DurableChainBatch) :
    Retains (IncomingEvents batch.events) server.db.1 (runCall server (.applyBatch batch)).db.1 := by
  cases applyBatch_db server batch with
  | inl hdb =>
    have hsame : (runCall server (.applyBatch batch)).db = server.db := hdb
    rw [hsame]
    exact .refl _
  | inr hdid =>
    obtain ⟨report, hap⟩ := hdid.applied
    exact retains_applyBatch hap

theorem retains_call (server : Server) (call : Call) :
    Retains (fun _ => True) server.db.1 (runCall server call).db.1 := by
  cases call with
  | applyBatch batch => exact (retains_applyBatch_call server batch).mono fun _ _ => trivial
  | redecodeRetainedLogs registry =>
    cases Server.redecodeRetainedLogs_db registry server with
    | inl hdb =>
      have hsame : (runCall server (.redecodeRetainedLogs registry)).db = server.db := hdb
      rw [hsame]
      exact .refl _
    | inr hex =>
      obtain ⟨rows, report, hr⟩ := hex
      exact retains_redecode hr

theorem retains_calls (server : Server) (calls : List Call) :
    Retains (fun _ => True) server.db.1 (runCalls server calls).db.1 := by
  unfold runCalls
  induction calls generalizing server with
  | nil => exact .refl _
  | cons call calls ih => exact (retains_call server call).trans (fun _ _ _ _ => trivial) (ih _)

/-- The row of a key. -/
theorem blockRow_unique (db : Database) {a b : BlockRow} (ha : a ∈ db.1.blocks)
    (hb : b ∈ db.1.blocks) (hhash : a.header.hash = b.header.hash) : a = b := by
  have hkey := db.2.block_key
  rw [Tables.headers, List.map_map] at hkey
  exact List.inj_on_of_nodup_map hkey ha hb hhash

theorem logRow_unique (db : Database) {a b : LogRow} (ha : a ∈ db.1.logs) (hb : b ∈ db.1.logs)
    (hhash : a.blockHash = b.blockHash) (hindex : a.log.logIndex = b.log.logIndex) : a = b :=
  List.inj_on_of_nodup_map db.2.log_key ha hb (by rw [hhash, hindex])

/-- The log rows of a key, before and after. -/
theorem Retains.log_row {I : LogRow → Prop} {db db' : Database} (h : Retains I db.1 db'.1)
    {row row' : LogRow} (hr : row ∈ db.1.logs) (hr' : row' ∈ db'.1.logs)
    (hhash : row'.blockHash = row.blockHash) (hindex : row'.log.logIndex = row.log.logIndex) :
    SameRaw row row' ∧ (row' = row ∨ I row) := by
  obtain ⟨kept, hk, hsame, hor⟩ := h.logs row hr
  obtain rfl : row' = kept := logRow_unique db' hr' hk (hhash.trans hsame.blockHash.symm)
    (hindex.trans (logIndex_of_raw hsame.raw).symm)
  exact ⟨hsame, hor⟩

/-- **History is never rewritten.** From any server, after any calls of `apply_batch` and
`redecode_retained_logs`, each block row and log row is there once, with its header or its raw columns
as they were, and the outbox starts with the rows it had; a further call of `apply_batch` changes the
decoder columns of a log row only if it brings a log with all the raw columns of that row. -/
theorem history_retained (server : Server) (calls : List Call) :
    let t := server.db.1
    let t' := (runCalls server calls).db.1
    (∀ row ∈ t.blocks, (∃ row' ∈ t'.blocks, row'.header.hash = row.header.hash) ∧
      ∀ row' ∈ t'.blocks, row'.header.hash = row.header.hash → row'.header = row.header) ∧
    (∀ row ∈ t.logs,
      (∃ row' ∈ t'.logs, row'.blockHash = row.blockHash ∧ row'.log.logIndex = row.log.logIndex) ∧
      ∀ row' ∈ t'.logs, row'.blockHash = row.blockHash → row'.log.logIndex = row.log.logIndex →
        row'.blockNumber = row.blockNumber ∧ row'.log.raw = row.log.raw) ∧
    t.outbox <+: t'.outbox ∧
    ∀ (batch : DurableChainBatch), ∀ row ∈ t'.logs,
      ∀ row' ∈ (runCall (runCalls server calls) (.applyBatch batch)).db.1.logs,
        row'.blockHash = row.blockHash → row'.log.logIndex = row.log.logIndex →
        (row'.log.decodedEvent ≠ row.log.decodedEvent ∨
          row'.log.decoderVersion ≠ row.log.decoderVersion) →
        ∃ block, .apply block ∈ batch.events ∧
          ∃ log ∈ block.logs, row.matches block.header.hash block.header.height log = true := by
  intro t t'
  have hkept : Retains (fun _ => True) t t' := retains_calls server calls
  refine ⟨fun row hr => ?_, fun row hr => ?_, hkept.outbox, ?_⟩
  · obtain ⟨kept, hk, hheader⟩ := hkept.blocks row hr
    refine ⟨⟨kept, hk, by rw [hheader]⟩, fun row' hr' hhash => ?_⟩
    rw [blockRow_unique _ hr' hk (by rw [hhash, hheader]), hheader]
  · obtain ⟨kept, hk, hsame, -⟩ := hkept.logs row hr
    refine ⟨⟨kept, hk, hsame.blockHash, logIndex_of_raw hsame.raw⟩, fun row' hr' hhash hindex => ?_⟩
    obtain ⟨hraw, -⟩ := hkept.log_row hr hr' hhash hindex
    exact ⟨hraw.blockNumber, hraw.raw⟩
  · intro batch row hr row' hr' hhash hindex hchanged
    have hcall := retains_applyBatch_call (runCalls server calls) batch
    obtain ⟨-, rfl | hI⟩ := hcall.log_row hr hr' hhash hindex
    · exact absurd hchanged (by simp)
    · exact hI

end Chainweave.Postgres
