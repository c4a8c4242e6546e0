import Chainweave.Sink.Outbox
import Chainweave.Sink.Replay

/-!
# What the outbox tells of the logs

Every apply upserts the block's log rows; only an apply that changed the block row
appends an outbox row, with the logs it was given. So the rows stored for a block
and the logs a consumer was told of can differ.

* `Shown`: for every canonical block they agree.
* `Keeps`: the condition on an event and the rows before it under which they still
  do. `shown_iff` shows that it is exact.
-/
namespace Chainweave.Postgres

open Stateful Chainweave.Chain

/-- A log without its decoder columns. -/
def RawLog.raw (log : RawLog) : RawLog := { log with decodedEvent := none, decoderVersion := none }

namespace Tables

/-- The raw logs stored for a block. -/
def storedRaw (t : Tables) (hash : BlockHash) : List RawLog :=
  (t.logs.filter (·.blockHash = hash)).map (·.log.raw)

/-- The most recent apply row of a block. -/
def lastApply (t : Tables) (hash : BlockHash) : Option OutboxRow :=
  t.outbox.reverse.find? fun row => row.eventKind = .apply ∧ row.blockHash = hash

/-- The raw logs that row lists. -/
def listedRaw (t : Tables) (hash : BlockHash) : List RawLog :=
  (t.lastApply hash).elim [] (·.payload.logs.map RawLog.raw)

end Tables

/-- The raw logs stored for the block are those its last apply row lists, each as often. -/
def ShownAt (t : Tables) (hash : BlockHash) : Prop :=
  (t.lastApply hash).isSome = true ∧ (t.storedRaw hash).Perm (t.listedRaw hash)

instance (t : Tables) (hash : BlockHash) : Decidable (ShownAt t hash) :=
  inferInstanceAs (Decidable (_ ∧ _))

/-- Every canonical block's are. -/
def Shown (t : Tables) : Prop := ∀ x ∈ t.canonical, ShownAt t x.hash

/-- The event leaves stored and listed logs alike: for a canonical block, it brings no new log
index; else it lists every log stored for the block, and no log index twice. -/
def Keeps (t : Tables) : DurableChainEvent → Prop
  | .rollback _ => True
  | .apply block =>
    if t.HasCanonical block.header.hash then
      ∀ log ∈ block.logs, ∃ row ∈ t.logs, row.isAt block.header.hash log.logIndex = true
    else
      (∀ log ∈ t.storedRaw block.header.hash, log ∈ block.logs.map RawLog.raw) ∧
        (block.logs.map RawLog.logIndex).Nodup

instance (t : Tables) : Decidable (Shown t) := inferInstanceAs (Decidable (∀ x ∈ _, _))

instance (t : Tables) : (event : DurableChainEvent) → Decidable (Keeps t event)
  | .rollback _ => inferInstanceAs (Decidable True)
  | .apply block => inferInstanceAs (Decidable (if t.HasCanonical block.header.hash then
      ∀ log ∈ block.logs, ∃ row ∈ t.logs, row.isAt block.header.hash log.logIndex = true
    else
      (∀ log ∈ t.storedRaw block.header.hash, log ∈ block.logs.map RawLog.raw) ∧
        (block.logs.map RawLog.logIndex).Nodup))

/-! ## One event -/

section
variable {t t' : Tables} {hash : BlockHash} {log : RawLog} {block : IndexedBlock} {changed : Bool}

theorem logIndex_of_raw {a b : RawLog} (h : a.raw = b.raw) : a.logIndex = b.logIndex := by
  show a.raw.logIndex = b.raw.logIndex
  rw [h]

theorem mem_storedRaw : log ∈ t.storedRaw hash ↔
    ∃ row ∈ t.logs, row.blockHash = hash ∧ row.log.raw = log := by
  simp [Tables.storedRaw, and_assoc]

@[simp] theorem raw_mergeRow {row : LogRow} {number : Nat} :
    (mergeRow hash number row log).log.raw = row.log.raw := by
  rw [mergeRow_eq]
  split <;> rfl

/-- A block has one stored log for each index. -/
theorem storedRaw_nodup (hv : t.Valid) : ((t.storedRaw hash).map RawLog.logIndex).Nodup := by
  unfold Tables.storedRaw
  rw [List.map_map]
  refine List.Nodup.map_on ?_ ((List.Nodup.of_map _ hv.log_key).filter _)
  intro a ha b hb hab
  simp only [List.mem_filter, decide_eq_true_eq] at ha hb
  refine List.inj_on_of_nodup_map hv.log_key ha.1 hb.1 (Prod.ext (ha.2.trans hb.2.symm) ?_)
  exact hab

/-- A list is the stored logs if it has the same ones and no index twice. -/
theorem storedRaw_perm (hv : t.Valid) {listed : List RawLog} :
    (t.storedRaw hash).Perm listed ↔
      (∀ raw, raw ∈ t.storedRaw hash ↔ raw ∈ listed) ∧ (listed.map RawLog.logIndex).Nodup := by
  constructor
  · intro h
    exact ⟨fun raw => h.mem_iff, (h.map RawLog.logIndex).nodup_iff.1 (storedRaw_nodup hv)⟩
  · intro h
    exact (List.perm_ext_iff_of_nodup (.of_map _ (storedRaw_nodup hv)) (.of_map _ h.2)).2 h.1

/-- The raw logs stored after the logs of a block: those before, and what the new keys brought. -/
theorem storedRaw_upsertLogs (hup : t.upsertLogs block = .ok t') :
    (∀ raw ∈ t.storedRaw block.header.hash, raw ∈ t'.storedRaw block.header.hash) ∧
      ∀ raw ∈ t'.storedRaw block.header.hash, raw ∈ t.storedRaw block.header.hash ∨
        ∃ log ∈ block.logs, log.raw = raw ∧
          ∀ row ∈ t.logs, row.isAt block.header.hash log.logIndex = false := by
  unfold Tables.upsertLogs at hup
  generalize block.logs = logs at hup ⊢
  induction logs generalizing t with
  | nil => cases hup; exact ⟨fun _ h => h, fun _ h => .inl h⟩
  | cons log logs ih =>
    rw [List.foldlM_cons] at hup
    obtain ⟨u, hu, hup⟩ := ok_bind.1 hup
    obtain ⟨-, -, -, -, hcases⟩ := Tables.upsertLog_ok hu
    obtain ⟨ih1, ih2⟩ := ih hup
    refine ⟨fun raw hraw => ih1 raw ?_, fun raw hraw => ?_⟩
    · obtain ⟨row, hr, hh, rfl⟩ := mem_storedRaw.1 hraw
      cases hcases with
      | merged =>
        have hrow : (mergeRow block.header.hash block.header.height row log).blockHash =
            block.header.hash := blockHash_mergeRow.trans hh
        exact mem_storedRaw.2 ⟨_, List.mem_map_of_mem hr, by simpa [mergeRow] using hrow,
          raw_mergeRow⟩
      | inserted => exact mem_storedRaw.2 ⟨row, List.mem_append_left _ hr, hh, rfl⟩
    · cases ih2 raw hraw with
      | inl h =>
        obtain ⟨row, hr, hh, rfl⟩ := mem_storedRaw.1 h
        cases mem_upsertLog hcases hr with
        | inl hrow =>
          obtain ⟨r, hmem, rfl⟩ := hrow
          exact .inl (mem_storedRaw.2 ⟨r, hmem, by simpa using hh, raw_mergeRow.symm⟩)
        | inr hrow =>
          obtain ⟨hnew, rfl⟩ := hrow
          exact .inr ⟨log, by simp, rfl, hnew⟩
      | inr h =>
        obtain ⟨l, hl, hraw, hnew⟩ := h
        refine .inr ⟨l, List.mem_cons_of_mem _ hl, hraw, fun row hr => ?_⟩
        by_contra hat
        obtain ⟨r, hmem, hat'⟩ := key_upsertLog hcases ⟨row, hr, by simpa using hat⟩
        rw [hnew r hmem] at hat'
        cases hat'

theorem shown_iff_hash : Shown t ↔ ∀ hash, t.HasCanonical hash → ShownAt t hash := by
  constructor
  · intro h hash hex
    obtain ⟨x, hx, hh⟩ := hex
    exact hh ▸ h x hx
  · intro h x hx
    exact h x.hash ⟨x, hx, rfl⟩

/-- Logs and outbox rows are all it depends on. -/
theorem shownAt_congr (hv : t.Valid) (hv' : t'.Valid)
    (hlogs : ∀ row : LogRow, row.blockHash = hash → (row ∈ t'.logs ↔ row ∈ t.logs))
    (hlast : t'.lastApply hash = t.lastApply hash) : ShownAt t' hash ↔ ShownAt t hash := by
  have hstored : ∀ log, log ∈ t'.storedRaw hash ↔ log ∈ t.storedRaw hash := by
    intro log
    rw [mem_storedRaw, mem_storedRaw]
    constructor
    · intro hex
      obtain ⟨row, hr, hh, hraw⟩ := hex
      exact ⟨row, (hlogs row hh).1 hr, hh, hraw⟩
    · intro hex
      obtain ⟨row, hr, hh, hraw⟩ := hex
      exact ⟨row, (hlogs row hh).2 hr, hh, hraw⟩
  unfold ShownAt
  rw [storedRaw_perm hv', storedRaw_perm hv]
  unfold Tables.listedRaw
  rw [hlast]
  simp only [hstored]

theorem lastApply_insertOutbox {kind : EventKind} {header : BlockHeader}
    {payload : Option IndexedBlock} : (t.insertOutbox kind header payload).lastApply hash =
      if kind = .apply ∧ header.hash = hash then
        some { eventKind := kind, blockHash := header.hash, blockHeight := header.height,
               payload := t.outboxPayload kind header payload }
      else t.lastApply hash := by
  unfold Tables.lastApply Tables.insertOutbox
  rw [List.reverse_append, List.reverse_singleton, List.singleton_append, List.find?_cons]
  by_cases h : kind = .apply ∧ header.hash = hash <;> simp [h]

/-- The rows of a block an apply does not name. -/
theorem shownAt_frame (hv : t.Valid) {event : DurableChainEvent}
    (hev : eventTables t event = .ok (changed, t'))
    (hne : hash ≠ event.header.hash) : ShownAt t' hash ↔ ShownAt t hash := by
  refine shownAt_congr hv (valid_eventTables hv hev)
    (fun row hh => eventTables_logs_frame hev (by rw [hh]; exact hne)) ?_
  have hlast : ∀ {u : Tables} {kind : EventKind} {payload : Option IndexedBlock} {c : Bool},
      appendChanged u kind event.header payload c = .ok (changed, t') → u.outbox = t.outbox →
      t'.lastApply hash = t.lastApply hash := by
    intro u kind payload c ha ho
    have hu : u.lastApply hash = t.lastApply hash := by unfold Tables.lastApply; rw [ho]
    obtain ⟨-, ⟨-, rfl⟩ | ⟨-, hap⟩⟩ := appendChanged_ok ha
    · exact hu
    · obtain ⟨-, -, rfl⟩ := Tables.appendOutbox_ok hap
      rw [lastApply_insertOutbox, if_neg (fun h => hne h.2.symm), hu]
  cases event with
  | rollback header =>
    obtain ⟨⟨c, u⟩, hr, ha⟩ := ok_bind.1 hev
    obtain ⟨-, -, -, rfl⟩ := Tables.rollbackBlock_ok hr
    exact hlast ha rfl
  | apply block =>
    obtain ⟨⟨c, u⟩, hup, hev⟩ := ok_bind.1 hev
    obtain ⟨v, hlogs, ha⟩ := ok_bind.1 hev
    refine hlast ha ?_
    rw [(upsertLogs_frame hlogs).2.1]
    obtain ⟨-, hcases⟩ := Tables.upsertBlock_ok hup
    cases hcases <;> rfl

/-- An apply of a canonical block appends no outbox row: it must bring no new log index. -/
theorem shownAt_unchanged (hv : t.Valid) (h : ShownAt t block.header.hash)
    (hlogs : t.upsertLogs block = .ok t') :
    ShownAt t' block.header.hash ↔
      ∀ log ∈ block.logs, ∃ row ∈ t.logs, row.isAt block.header.hash log.logIndex = true := by
  obtain ⟨hsome, hperm⟩ := h
  obtain ⟨hsame, hindex⟩ := (storedRaw_perm hv).1 hperm
  obtain ⟨hkept, hnew⟩ := storedRaw_upsertLogs hlogs
  have hlast : t'.lastApply block.header.hash = t.lastApply block.header.hash := by
    unfold Tables.lastApply
    rw [(upsertLogs_frame hlogs).2.1]
  have hlisted : t'.listedRaw block.header.hash = t.listedRaw block.header.hash := by
    unfold Tables.listedRaw
    rw [hlast]
  unfold ShownAt
  rw [hlast, hlisted, storedRaw_perm (Tables.valid_upsertLogs hv hlogs)]
  constructor
  · intro hex log hl
    obtain ⟨-, hsame', -⟩ := hex
    obtain ⟨row, hr, hat⟩ := (absorbed_upsertLogs hlogs).keys log hl
    simp only [LogRow.isAt, decide_eq_true_eq] at hat
    have hold : row.log.raw ∈ t.storedRaw block.header.hash :=
      (hsame _).2 ((hsame' _).1 (mem_storedRaw.2 ⟨row, hr, hat.1, rfl⟩))
    obtain ⟨r, hmem, hh, hraw⟩ := mem_storedRaw.1 hold
    exact ⟨r, hmem, by simp [LogRow.isAt, hh, logIndex_of_raw hraw, hat.2]⟩
  · intro hkeys
    refine ⟨hsome, fun raw => ⟨fun hraw => ?_, fun hraw => hkept raw ((hsame raw).2 hraw)⟩, hindex⟩
    cases hnew raw hraw with
    | inl hold => exact (hsame raw).1 hold
    | inr hnew =>
      obtain ⟨log, hl, -, hnone⟩ := hnew
      obtain ⟨row, hr, hat⟩ := hkeys log hl
      rw [hnone row hr] at hat
      cases hat

theorem map_logIndex_raw (logs : List RawLog) :
    (logs.map RawLog.raw).map RawLog.logIndex = logs.map RawLog.logIndex := by
  rw [List.map_map]
  rfl

/-- An apply that changed the block appends a row with its own logs: they must be all there are, and
none of them twice. -/
theorem shownAt_changed (hv : t'.Valid) (hlogs : t.upsertLogs block = .ok t') :
    ShownAt (t'.insertOutbox .apply block.header (some block)) block.header.hash ↔
      (∀ log ∈ t.storedRaw block.header.hash, log ∈ block.logs.map RawLog.raw) ∧
        (block.logs.map RawLog.logIndex).Nodup := by
  obtain ⟨hkept, hnew⟩ := storedRaw_upsertLogs hlogs
  have hkey : ∀ log ∈ block.logs, ∃ row ∈ t'.logs, row.blockHash = block.header.hash ∧
      row.log.logIndex = log.logIndex := by
    intro log hl
    obtain ⟨row, hr, hat⟩ := (absorbed_upsertLogs hlogs).keys log hl
    simp only [LogRow.isAt, decide_eq_true_eq] at hat
    exact ⟨row, hr, hat⟩
  have hshown : ShownAt (t'.insertOutbox .apply block.header (some block)) block.header.hash ↔
      (t'.storedRaw block.header.hash).Perm (block.logs.map RawLog.raw) := by
    unfold ShownAt Tables.listedRaw
    rw [lastApply_insertOutbox, if_pos ⟨rfl, rfl⟩]
    exact and_iff_right rfl
  rw [hshown, storedRaw_perm hv, map_logIndex_raw]
  constructor
  · intro hand
    obtain ⟨hsame, hindex⟩ := hand
    exact ⟨fun raw hraw => (hsame raw).1 (hkept raw hraw), hindex⟩
  · intro hand
    obtain ⟨hold, hindex⟩ := hand
    have hsub : ∀ raw ∈ t'.storedRaw block.header.hash, raw ∈ block.logs.map RawLog.raw := by
      intro raw hraw
      cases hnew raw hraw with
      | inl h => exact hold raw h
      | inr h =>
        obtain ⟨log, hl, rfl, -⟩ := h
        exact List.mem_map_of_mem hl
    refine ⟨fun raw => ⟨hsub raw, fun hraw => ?_⟩, hindex⟩
    -- The row stored at the log's index is listed too, so it is the log.
    obtain ⟨a, ha, rfl⟩ := List.mem_map.1 hraw
    obtain ⟨row, hr, hh, hi⟩ := hkey a ha
    obtain ⟨b, hb, hrow⟩ := List.mem_map.1 (hsub _ (mem_storedRaw.2 ⟨row, hr, hh, rfl⟩))
    have hib : b.logIndex = row.log.logIndex := logIndex_of_raw hrow
    obtain rfl := List.inj_on_of_nodup_map hindex ha hb (by rw [hib, hi])
    exact mem_storedRaw.2 ⟨row, hr, hh, hrow.symm⟩

/-- **The condition is exact**: where stored and listed logs agree, they do so after an event if and
only if it keeps them alike. -/
theorem shown_iff (hv : t.Valid) (h : Shown t) {event : DurableChainEvent}
    (hev : eventTables t event = .ok (changed, t')) : Shown t' ↔ Keeps t event := by
  rw [shown_iff_hash] at h ⊢
  cases event with
  | rollback header =>
    refine ⟨fun _ => trivial, fun _ hash hcanon => ?_⟩
    obtain ⟨x, hx, hh⟩ := hcanon
    obtain ⟨⟨c, u⟩, hr, ha⟩ := ok_bind.1 hev
    obtain ⟨-, -, -, rfl⟩ := Tables.rollbackBlock_ok hr
    have hcan : t'.canonical = (t.demote header.hash header.height).canonical := by
      unfold Tables.canonical
      rw [appendChanged_blocks ha]
    rw [hcan, Tables.mem_canonical_demote] at hx
    have hlast : t'.lastApply hash = t.lastApply hash := by
      obtain ⟨-, ⟨-, rfl⟩ | ⟨-, hap⟩⟩ := appendChanged_ok ha
      · rfl
      · obtain ⟨-, -, rfl⟩ := Tables.appendOutbox_ok hap
        rw [lastApply_insertOutbox, if_neg (by simp)]
        rfl
    exact (shownAt_congr hv (valid_eventTables hv hev)
      (fun row _ => by rw [appendChanged_logs ha]; rfl) hlast).2
      (h hash ⟨x, hx.1, hh⟩)
  | apply block =>
    have hv' := valid_eventTables hv hev
    obtain ⟨⟨c, u⟩, hup, hev'⟩ := ok_bind.1 hev
    obtain ⟨v, hlogs, ha⟩ := ok_bind.1 hev'
    obtain ⟨-, hcases⟩ := Tables.upsertBlock_ok hup
    -- Other blocks keep their agreement, so all hangs on this one.
    have hcan : ∀ hash, t'.HasCanonical hash ↔ t.HasCanonical hash ∨ hash = block.header.hash := by
      intro hash
      have hu : t'.HasCanonical hash ↔ u.HasCanonical hash := by
        unfold Tables.HasCanonical Tables.canonical
        rw [appendChanged_blocks ha, (upsertLogs_frame hlogs).1]
      rw [hu]
      cases hcases with
      | unchanged x hx hhash =>
        exact ⟨.inl, fun h => h.elim id fun he => ⟨x, hx, he ▸ hhash⟩⟩
      | inserted hnew hfree => exact (hasCanonical_upsert hv (.inserted hnew hfree)).2 hash
      | promoted x hx hhash hfree => exact (hasCanonical_upsert hv (.promoted x hx hhash hfree)).2 hash
    have hown : (∀ hash, t'.HasCanonical hash → ShownAt t' hash) ↔ ShownAt t' block.header.hash := by
      refine ⟨fun hall => hall _ ((hcan _).2 (.inr rfl)), fun hat hash hc => ?_⟩
      by_cases he : hash = block.header.hash
      · rw [he]; exact hat
      · exact (shownAt_frame hv hev he).2 (h hash (((hcan hash).1 hc).resolve_right he))
    rw [hown]
    obtain ⟨rfl, ⟨hc, rfl⟩ | ⟨hc, hap⟩⟩ := appendChanged_ok ha
    · subst hc
      cases hcases with
      | unchanged x hx hhash =>
        have hmem : t.HasCanonical block.header.hash := ⟨x, hx, hhash⟩
        simp only [Keeps, if_pos hmem]
        exact shownAt_unchanged hv (h _ hmem) hlogs
    · subst hc
      obtain ⟨-, -, rfl⟩ := Tables.appendOutbox_ok hap
      have hu : u.storedRaw block.header.hash = t.storedRaw block.header.hash := by
        unfold Tables.storedRaw
        cases hcases <;> rfl
      have hvv : v.Valid := Tables.valid_upsertLogs (Tables.valid_upsertBlock hv hup) hlogs
      simp only [Keeps, if_neg (hasCanonical_upsert hv hcases).1, ← hu]
      exact shownAt_changed hvv hlogs

end

/-! ## Runs -/

/-- Every event keeps stored and listed logs alike, where it runs. -/
def KeepsEvents (t : Tables) : List DurableChainEvent → Prop
  | [] => True
  | event :: events => Keeps t event ∧
      match eventTables t event with
      | .ok (_, u) => KeepsEvents u events
      | .error _ => True

/-- The database after some batches, all of them committed. -/
def commitAll (db : Database) (batches : List DurableChainBatch) :
    Except PostgresStateError Database :=
  batches.foldlM (fun db batch => (applyBatch db batch).map (·.2)) db

/-- Every event of every batch does. -/
def KeepsBatches (db : Database) : List DurableChainBatch → Prop
  | [] => True
  | batch :: batches => KeepsEvents db.1 batch.events ∧
      match applyBatch db batch with
      | .ok (_, db') => KeepsBatches db' batches
      | .error _ => True

instance decidableKeepsEvents : (t : Tables) → (events : List DurableChainEvent) →
    Decidable (KeepsEvents t events)
  | _, [] => .isTrue trivial
  | t, event :: events =>
    match h : eventTables t event with
    | .ok (_, u) =>
      have := decidableKeepsEvents u events
      decidable_of_iff (Keeps t event ∧ KeepsEvents u events) (by simp only [KeepsEvents, h])
    | .error _ => decidable_of_iff (Keeps t event) (by simp [KeepsEvents, h])

instance decidableKeepsBatches : (db : Database) → (batches : List DurableChainBatch) →
    Decidable (KeepsBatches db batches)
  | _, [] => .isTrue trivial
  | db, batch :: batches =>
    match h : applyBatch db batch with
    | .ok (_, db') =>
      have := decidableKeepsBatches db' batches
      decidable_of_iff (KeepsEvents db.1 batch.events ∧ KeepsBatches db' batches)
        (by simp only [KeepsBatches, h])
    | .error _ => decidable_of_iff (KeepsEvents db.1 batch.events) (by simp [KeepsBatches, h])

/-- What every event keeps, where `KeepsEvents` holds, the events keep. -/
theorem shown_runEvents {t t' : Tables} {events : List DurableChainEvent} (hv : t.Valid)
    (h : Shown t) (hkeeps : KeepsEvents t events) (hrun : runEvents t events = .ok t') : Shown t' := by
  induction events generalizing t with
  | nil => cases hrun; exact h
  | cons event events ih =>
    obtain ⟨changed, u, hev, hrun⟩ := runEvents_cons_ok.1 hrun
    obtain ⟨hkeep, hrest⟩ := hkeeps
    rw [hev] at hrest
    exact ih (valid_eventTables hv hev) ((shown_iff hv h hev).2 hkeep) hrest hrun

theorem shown_applyBatch {db db' : Database} {batch : DurableChainBatch} {report : ApplyReport}
    (h : Shown db.1) (hkeeps : KeepsEvents db.1 batch.events)
    (hap : applyBatch db batch = .ok (report, db')) : Shown db'.1 := by
  obtain ⟨u, c, hrun, hdb⟩ := applyBatch_events hap
  have hu : Shown u := shown_runEvents db.2 h hkeeps hrun
  rw [hdb]
  exact hu

/-- **Consumers see the logs the database holds**, in every state of every run of committed batches
whose events each keep stored and listed logs alike; and there an event that does not breaks it. -/
theorem payload_shows_logs (chainId : Nat) (batches : List DurableChainBatch) {db : Database}
    (hrun : commitAll (Database.empty chainId) batches = .ok db)
    (hkeeps : KeepsBatches (Database.empty chainId) batches) :
    Shown db.1 ∧ ∀ (event : DurableChainEvent) (changed : Bool) (t' : Tables),
      eventTables db.1 event = .ok (changed, t') → (Shown t' ↔ Keeps db.1 event) := by
  have hshown : Shown db.1 := by
    have hstart : Shown (Database.empty chainId).1 := by
      simp [Shown, Tables.canonical, Database.empty]
    unfold commitAll at hrun
    generalize Database.empty chainId = start at hrun hkeeps hstart
    induction batches generalizing start with
    | nil => cases hrun; exact hstart
    | cons batch batches ih =>
      obtain ⟨hkeep, hrest⟩ := hkeeps
      rw [List.foldlM_cons] at hrun
      obtain ⟨mid, hmid, hrun⟩ := ok_bind.1 hrun
      cases hap : applyBatch start batch with
      | error e => rw [hap] at hmid; cases hmid
      | ok r =>
        rw [hap] at hmid hrest
        cases hmid
        exact ih r.2 hrun hrest (shown_applyBatch hstart hkeep hap)
  exact ⟨hshown, fun event changed t' hev => shown_iff db.2 hshown hev⟩

/-- A first block with two logs. -/
def transferBlock : IndexedBlock :=
  { loggedBlock with logs := [transferLog none none, { transferLog none none with logIndex := 1 }] }

def transfers : DurableChainBatch := { twiceLogged with events := [.apply transferBlock] }

/-- The same block, fetched with a filter that no log of it passes. -/
def filtered : DurableChainBatch := { twiceLogged with
  events := [.apply { transferBlock with logs := [] }] }

/-- The same block with a log under a new index. -/
def relabelled : IndexedBlock :=
  { transferBlock with logs := [{ transferLog none none with logIndex := 2 }] }

/-- The next block, which lists one log twice. -/
def listedTwice : IndexedBlock := { loggedBlock with header := ⟨2, 1, 1⟩ }

/-- `payload_shows_logs` over two commits of one batch, and at two events that then break it. -/
theorem payload_shows_logs_twice :
    ∃ db, commitAll (Database.empty 1) [transfers, transfers] = .ok db ∧ Shown db.1 ∧
      db.1.storedRaw 1 = transferBlock.logs ∧
      (∃ changed t', eventTables db.1 (.apply relabelled) = .ok (changed, t') ∧ ¬ Shown t') ∧
      ∃ changed t', eventTables db.1 (.apply listedTwice) = .ok (changed, t') ∧ ¬ Shown t' := by
  have hkeeps : KeepsBatches (Database.empty 1) [transfers, transfers] := by decide +kernel
  have hlast : (commitAll (Database.empty 1) [transfers, transfers]).toOption.any (fun db =>
      db.1.storedRaw 1 = transferBlock.logs ∧
      ((eventTables db.1 (.apply relabelled)).toOption.isSome ∧ ¬ Keeps db.1 (.apply relabelled)) ∧
      (eventTables db.1 (.apply listedTwice)).toOption.isSome ∧ ¬ Keeps db.1 (.apply listedTwice)) =
        true := by decide +kernel
  cases hrun : commitAll (Database.empty 1) [transfers, transfers] with
  | error e => rw [hrun] at hlast; cases hlast
  | ok db =>
    rw [hrun] at hlast
    obtain ⟨hstored, hrelabelled, hlisted⟩ := of_decide_eq_true hlast
    obtain ⟨hshown, hexact⟩ := payload_shows_logs 1 _ hrun hkeeps
    have hbreaks : ∀ event, (eventTables db.1 event).toOption.isSome = true ∧ ¬ Keeps db.1 event →
        ∃ changed t', eventTables db.1 event = .ok (changed, t') ∧ ¬ Shown t' := by
      intro event h
      cases hev : eventTables db.1 event with
      | error e => rw [hev] at h; cases h.1
      | ok r => exact ⟨r.1, r.2, rfl, fun hs => h.2 ((hexact event r.1 r.2 hev).1 hs)⟩
    exact ⟨db, rfl, hshown, hstored, hbreaks _ hrelabelled, hbreaks _ hlisted⟩

/-- A filtered backfill and then an unfiltered one: the logs are stored, and no outbox row lists
them. -/
theorem filtered_then_unfiltered :
    ∃ db, commitAll (Database.empty 1) [filtered, transfers] = .ok db ∧ ¬ Shown db.1 := by
  have hbroken : (commitAll (Database.empty 1) [filtered, transfers]).toOption.any
      (fun db => ¬ Shown db.1) = true := by decide +kernel
  cases hrun : commitAll (Database.empty 1) [filtered, transfers] with
  | error e => rw [hrun] at hbroken; cases hbroken
  | ok db =>
    rw [hrun] at hbroken
    exact ⟨db, rfl, of_decide_eq_true hbroken⟩

end Chainweave.Postgres
