import Chainweave.Sink.Tables

/-!
# What a statement keeps

* `mem_canonical_demote`, `mem_canonical_promote`, `mem_canonical_insertBlock`:
  the canonical headers after a statement on `blocks`.
* `valid_*`: every statement keeps the constraints, so a transaction leaves a
  `Database` (`Tables.Valid.blocks` is the part the three statements on `blocks`
  share).
* `Database.canonicalHeaderAtHeight_eq`: what a read at a height finds.
-/
namespace Chainweave.Postgres

open Chainweave.Chain

theorem pgHeight_ok {n m : Nat} : pgHeight n = .ok m ↔ n ≤ bigintMax ∧ n = m := by
  unfold pgHeight; split <;> simp_all

theorem pgInt_ok {n m : Nat} : pgInt n = .ok m ↔ n ≤ intMax ∧ n = m := by
  unfold pgInt; split <;> simp_all

namespace Tables

variable {t t' : Tables} {x header : BlockHeader} {block : IndexedBlock}

theorem mem_canonical : x ∈ t.canonical ↔ ∃ row ∈ t.blocks, row.isCanonical = true ∧ row.header = x := by
  simp only [canonical, List.mem_map, List.mem_filter]
  simp only [and_assoc]

theorem mem_headers : x ∈ t.headers ↔ ∃ row ∈ t.blocks, row.header = x := List.mem_map

theorem canonical_subset (h : x ∈ t.canonical) : x ∈ t.headers := by
  obtain ⟨row, hr, -, hx⟩ := mem_canonical.1 h
  exact mem_headers.2 ⟨row, hr, hx⟩

/-! ## The statements on `blocks` -/

@[simp] theorem headers_demote (hash : BlockHash) (height : Nat) :
    (t.demote hash height).headers = t.headers := by
  unfold headers demote
  rw [List.map_map]
  refine List.map_congr_left fun row _ => ?_
  simp only [Function.comp_apply]
  split <;> rfl

@[simp] theorem headers_promote : (t.promote block).headers = t.headers := by
  unfold headers promote
  rw [List.map_map]
  refine List.map_congr_left fun row _ => ?_
  simp only [Function.comp_apply]
  split <;> rfl

@[simp] theorem headers_insertBlock : (t.insertBlock block).headers = t.headers ++ [block.header] := by
  simp [headers, insertBlock, newRow]

theorem mem_canonical_demote {hash : BlockHash} {height : Nat} :
    x ∈ (t.demote hash height).canonical ↔
      x ∈ t.canonical ∧ ¬ (x.hash = hash ∧ x.height = height) := by
  simp only [mem_canonical, demote, List.mem_map]
  constructor
  · intro hex
    rcases hex with ⟨_, ⟨row, hr, rfl⟩, hc, hx⟩
    split at hc
    · cases hc
    · rename_i hn
      rw [if_neg hn] at hx
      refine ⟨⟨row, hr, hc, hx⟩, fun hh => hn ?_⟩
      subst hx
      simp [BlockRow.isAt, hh.1, hh.2, hc]
  · intro hex
    rcases hex with ⟨⟨row, hr, hc, rfl⟩, hn⟩
    have hat : row.isAt hash height = false := by
      rw [Bool.eq_false_iff]
      intro h
      simp only [BlockRow.isAt, decide_eq_true_eq] at h
      exact hn ⟨h.1, h.2.1⟩
    exact ⟨row, ⟨row, hr, by rw [hat]; rfl⟩, hc, rfl⟩

theorem mem_canonical_promote : x ∈ (t.promote block).canonical ↔
    x ∈ t.canonical ∨ (x ∈ t.headers ∧ x.hash = block.header.hash) := by
  simp only [mem_canonical, mem_headers, promote, List.mem_map]
  constructor
  · intro hex
    rcases hex with ⟨_, ⟨row, hr, rfl⟩, hc, hx⟩
    split at hx
    · rename_i hh
      subst hx
      exact .inr ⟨⟨row, hr, rfl⟩, hh⟩
    · rename_i hh
      rw [if_neg hh] at hc
      exact .inl ⟨row, hr, hc, hx⟩
  · intro hex
    rcases hex with ⟨row, hr, hc, rfl⟩ | ⟨⟨row, hr, rfl⟩, hh⟩
    · refine ⟨_, ⟨row, hr, rfl⟩, ?_⟩
      split
      · exact ⟨rfl, rfl⟩
      · exact ⟨hc, rfl⟩
    · exact ⟨_, ⟨row, hr, rfl⟩, by rw [if_pos hh]; exact ⟨rfl, rfl⟩⟩

theorem mem_canonical_insertBlock :
    x ∈ (t.insertBlock block).canonical ↔ x ∈ t.canonical ∨ x = block.header := by
  simp only [mem_canonical, insertBlock, List.mem_append, List.mem_singleton]
  constructor
  · intro hex
    rcases hex with ⟨row, hr | rfl, hc, rfl⟩
    · exact .inl ⟨row, hr, hc, rfl⟩
    · exact .inr rfl
  · intro hex
    rcases hex with ⟨row, hr, hc, rfl⟩ | rfl
    · exact ⟨row, .inl hr, hc, rfl⟩
    · exact ⟨newRow block, .inr rfl, rfl, rfl⟩

/-! ## Constraints -/

/-- The part of the constraints that a change of `blocks` has to show again: the rows named before
are named still, so the foreign keys hold. -/
theorem Valid.blocks (h : t.Valid) (hkey : (t'.headers.map (·.hash)).Nodup)
    (hheight : ∀ x ∈ t'.headers, x.height ≤ bigintMax)
    (hcanonical : ∀ a ∈ t'.canonical, ∀ b ∈ t'.canonical, a.height = b.height → a = b)
    (hsub : ∀ x ∈ t.headers, x ∈ t'.headers) (hlogs : t'.logs = t.logs)
    (hcheckpoint : t'.checkpoint = t.checkpoint) (houtbox : t'.outbox = t.outbox) : t'.Valid where
  block_key := hkey
  block_height := hheight
  canonical_height := hcanonical
  log_key := hlogs ▸ h.log_key
  log_topics := hlogs ▸ h.log_topics
  log_ints := hlogs ▸ h.log_ints
  log_block row hr := by
    obtain ⟨x, hx, hn⟩ := h.log_block row (hlogs ▸ hr)
    exact ⟨x, hsub x hx, hn⟩
  checkpoint_block c hc := by
    obtain ⟨x, hx, hn⟩ := h.checkpoint_block c (hcheckpoint ▸ hc)
    exact ⟨x, hsub x hx, hn⟩
  outbox_block row hr := by
    obtain ⟨x, hx, hn⟩ := h.outbox_block row (houtbox ▸ hr)
    exact ⟨x, hsub x hx, hn⟩

theorem valid_demote (h : t.Valid) (hash : BlockHash) (height : Nat) : (t.demote hash height).Valid := by
  refine h.blocks (by simpa using h.block_key) (by simpa using h.block_height) ?_ (by simp) rfl rfl rfl
  intro a ha b hb
  exact h.canonical_height a (mem_canonical_demote.1 ha).1 b (mem_canonical_demote.1 hb).1

/-- Rows of one hash are one row. -/
theorem Valid.header_unique (h : t.Valid) {a b : BlockHeader} (ha : a ∈ t.headers)
    (hb : b ∈ t.headers) (hh : a.hash = b.hash) : a = b :=
  List.inj_on_of_nodup_map h.block_key ha hb hh

theorem valid_promote (h : t.Valid) (hx : x ∈ t.headers) (hhash : x.hash = block.header.hash)
    (hfree : ∀ a ∈ t.canonical, a.height ≠ x.height) : (t.promote block).Valid := by
  refine h.blocks (by simpa using h.block_key) (by simpa using h.block_height) ?_ (by simp) rfl rfl rfl
  have hcases : ∀ a ∈ (t.promote block).canonical, a ∈ t.canonical ∨ a = x := by
    intro a ha
    rcases mem_canonical_promote.1 ha with ha | ⟨ha, hh⟩
    · exact .inl ha
    · exact .inr (h.header_unique ha hx (hh.trans hhash.symm))
  intro a ha b hb hab
  rcases hcases a ha with ha | rfl <;> rcases hcases b hb with hb | rfl
  · exact h.canonical_height a ha b hb hab
  · exact absurd hab (hfree a ha)
  · exact absurd hab.symm (hfree b hb)
  · rfl

theorem valid_insertBlock (h : t.Valid) (hheight : block.header.height ≤ bigintMax)
    (hnew : ∀ a ∈ t.headers, a.hash ≠ block.header.hash)
    (hfree : ∀ a ∈ t.canonical, a.height ≠ block.header.height) : (t.insertBlock block).Valid := by
  refine h.blocks ?_ ?_ ?_ (by simp +contextual) rfl rfl rfl
  · rw [headers_insertBlock, List.map_append, List.nodup_append]
    refine ⟨h.block_key, by simp, ?_⟩
    intro a ha b hb
    obtain ⟨c, hc, rfl⟩ := List.mem_map.1 ha
    obtain rfl : b = block.header.hash := by simpa using hb
    exact hnew c hc
  · intro a ha
    rw [headers_insertBlock, List.mem_append, List.mem_singleton] at ha
    rcases ha with ha | rfl
    · exact h.block_height a ha
    · exact hheight
  · intro a ha b hb hab
    rcases mem_canonical_insertBlock.1 ha with ha | rfl <;>
      rcases mem_canonical_insertBlock.1 hb with hb | rfl
    · exact h.canonical_height a ha b hb hab
    · exact absurd hab (hfree a ha)
    · exact absurd hab.symm (hfree b hb)
    · rfl

/-! ## Statements that return -/

theorem rollbackBlock_ok {changed : Bool} (h : t.rollbackBlock header = .ok (changed, t')) :
    header.height ≤ bigintMax ∧ (∃ a ∈ t.headers, a.hash = header.hash) ∧
      changed = decide (t.blocks.countP (·.isAt header.hash header.height) = 1) ∧
      t' = t.demote header.hash header.height := by
  unfold rollbackBlock at h
  split at h
  · cases h
  rename_i hrow
  simp only [ne_eq, decide_not, List.all_eq_true, Bool.not_eq_true', decide_eq_false_iff_not,
    not_forall, not_not, exists_prop] at hrow
  cases hp : pgHeight header.height with
  | error e => rw [hp] at h; cases h
  | ok n =>
    obtain ⟨hle, rfl⟩ := pgHeight_ok.1 hp
    rw [hp] at h
    cases h
    exact ⟨hle, hrow, rfl, rfl⟩

/-- What `upsert_block` can do: nothing, insert the row, or make the stored one canonical. -/
inductive UpsertBlock (t : Tables) (block : IndexedBlock) : Bool → Tables → Prop
  | unchanged (x : BlockHeader) (hx : x ∈ t.canonical) (hhash : x.hash = block.header.hash) :
      UpsertBlock t block false t
  | inserted (hnew : ∀ a ∈ t.headers, a.hash ≠ block.header.hash)
      (hfree : ∀ a ∈ t.canonical, a.height ≠ block.header.height) :
      UpsertBlock t block true (t.insertBlock block)
  | promoted (x : BlockHeader) (hx : x ∈ t.headers) (hhash : x.hash = block.header.hash)
      (hfree : ∀ a ∈ t.canonical, a.height ≠ x.height) : UpsertBlock t block true (t.promote block)

theorem upsertBlock_ok {changed : Bool} (h : t.upsertBlock block = .ok (changed, t')) :
    block.header.height ≤ bigintMax ∧ UpsertBlock t block changed t' := by
  unfold upsertBlock at h
  cases hp : pgHeight block.header.height with
  | error e => rw [hp] at h; cases h
  | ok n =>
    obtain ⟨hle, rfl⟩ := pgHeight_ok.1 hp
    simp only [hp, bind, Except.bind] at h
    refine ⟨hle, ?_⟩
    split at h
    · rename_i hnone
      split at h
      · cases h
      rename_i hfree
      cases h
      refine .inserted (fun a ha => ?_) (by simpa using hfree)
      obtain ⟨row, hr, rfl⟩ := mem_headers.1 ha
      simpa using List.find?_eq_none.1 hnone row hr
    · rename_i stored hsome
      have hmem := List.mem_of_find?_eq_some hsome
      have hhash : stored.header.hash = block.header.hash := by simpa using List.find?_some hsome
      split at h
      · rename_i hc
        cases h
        exact .unchanged stored.header (mem_canonical.2 ⟨stored, hmem, hc, rfl⟩) hhash
      split at h
      · cases h
      rename_i hfree
      cases h
      exact .promoted stored.header (mem_headers.2 ⟨stored, hmem, rfl⟩) hhash (by simpa using hfree)

theorem valid_upsertBlock (h : t.Valid) {changed : Bool}
    (hup : t.upsertBlock block = .ok (changed, t')) : t'.Valid := by
  obtain ⟨hle, hup⟩ := upsertBlock_ok hup
  cases hup with
  | unchanged => exact h
  | inserted hnew hfree => exact valid_insertBlock h hle hnew hfree
  | promoted x hx hhash hfree => exact valid_promote h hx hhash hfree

theorem mergeLog_raw (row : LogRow) (number : Nat) (log : RawLog) :
    (mergeLog row number log).blockHash = row.blockHash ∧
    (mergeLog row number log).blockNumber = row.blockNumber ∧
    (mergeLog row number log).log.logIndex = row.log.logIndex ∧
    (mergeLog row number log).log.transactionIndex = row.log.transactionIndex ∧
    (mergeLog row number log).log.topics = row.log.topics := by
  unfold mergeLog; split <;> exact ⟨rfl, rfl, rfl, rfl, rfl⟩

/-- A merge keeps the raw columns of every log row. -/
theorem mem_mergeLogs {hash : BlockHash} {number : Nat} {log : RawLog} {row : LogRow}
    (h : row ∈ (t.mergeLogs hash number log).logs) :
    ∃ r ∈ t.logs, row.blockHash = r.blockHash ∧ row.blockNumber = r.blockNumber ∧
      row.log.logIndex = r.log.logIndex ∧ row.log.transactionIndex = r.log.transactionIndex ∧
      row.log.topics = r.log.topics := by
  obtain ⟨r, hr, rfl⟩ := List.mem_map.1 h
  refine ⟨r, hr, ?_⟩
  split
  · exact mergeLog_raw r number log
  · exact ⟨rfl, rfl, rfl, rfl, rfl⟩

/-- What `upsert_log` can do: update the row of its key, or insert one. -/
inductive UpsertLog (t : Tables) (header : BlockHeader) (log : RawLog) : Tables → Prop
  | merged : UpsertLog t header log (t.mergeLogs header.hash header.height log)
  | inserted (hnew : ∀ row ∈ t.logs, row.isAt header.hash log.logIndex = false)
      (hnames : t.Names header.hash header.height) :
      UpsertLog t header log (t.insertLog header.hash header.height log)

theorem upsertLog_ok {log : RawLog} (h : t.upsertLog header log = .ok t') :
    header.height ≤ bigintMax ∧ log.transactionIndex ≤ intMax ∧ log.logIndex ≤ intMax ∧
      log.topics.length ≤ 4 ∧ UpsertLog t header log t' := by
  unfold upsertLog at h
  cases hp : pgHeight header.height with
  | error e => rw [hp] at h; cases h
  | ok n =>
  obtain ⟨hle, rfl⟩ := pgHeight_ok.1 hp
  cases hi : pgInt log.transactionIndex with
  | error e => simp only [hp, hi, bind, Except.bind] at h; cases h
  | ok i =>
  cases hj : pgInt log.logIndex with
  | error e => simp only [hp, hi, hj, bind, Except.bind] at h; cases h
  | ok j =>
  simp only [hp, hi, hj, bind, Except.bind] at h
  split at h
  · cases h
  rename_i htopics
  refine ⟨hle, (pgInt_ok.1 hi).1, (pgInt_ok.1 hj).1, by omega, ?_⟩
  split at h
  · cases h
    exact .merged
  rename_i hnew
  split at h
  · rename_i hnames
    cases h
    exact .inserted (by simpa using hnew) hnames
  · cases h

theorem valid_upsertLog (h : t.Valid) {log : RawLog} (hup : t.upsertLog header log = .ok t') :
    t'.Valid := by
  obtain ⟨-, hi, hj, htopics, hup⟩ := upsertLog_ok hup
  cases hup with
  | merged =>
    refine { h with log_key := ?_, log_topics := ?_, log_ints := ?_, log_block := ?_ }
    · rw [mergeLogs, List.map_map]
      convert h.log_key using 1
      refine List.map_congr_left fun row _ => ?_
      simp only [Function.comp_apply]
      split
      · obtain ⟨h1, -, h3, -⟩ := mergeLog_raw row header.height log
        rw [h1, h3]
      · rfl
    · intro row hr
      obtain ⟨r, hr, -, -, -, -, h5⟩ := mem_mergeLogs hr
      exact h5 ▸ h.log_topics r hr
    · intro row hr
      obtain ⟨r, hr, -, -, h3, h4, -⟩ := mem_mergeLogs hr
      exact ⟨h4 ▸ (h.log_ints r hr).1, h3 ▸ (h.log_ints r hr).2⟩
    · intro row hr
      obtain ⟨r, hr, h1, h2, -⟩ := mem_mergeLogs hr
      rw [h1, h2]
      exact h.log_block r hr
  | inserted hnew hnames =>
    refine { h with log_key := ?_, log_topics := ?_, log_ints := ?_, log_block := ?_ }
    · rw [insertLog, List.map_append, List.nodup_append]
      refine ⟨h.log_key, by simp, ?_⟩
      intro a ha b hb hab
      obtain ⟨row, hr, rfl⟩ := List.mem_map.1 ha
      obtain rfl : b = (header.hash, log.logIndex) := by simpa using hb
      have hat : row.isAt header.hash log.logIndex = true := by simpa [LogRow.isAt] using hab
      rw [hnew row hr] at hat
      cases hat
    all_goals
      intro row hr
      simp only [insertLog, List.mem_append, List.mem_singleton] at hr
      rcases hr with hr | rfl
    · exact h.log_topics row hr
    · exact htopics
    · exact h.log_ints row hr
    · exact ⟨hi, hj⟩
    · exact h.log_block row hr
    · exact hnames

theorem valid_upsertLogs (h : t.Valid) (hup : t.upsertLogs block = .ok t') : t'.Valid := by
  unfold upsertLogs at hup
  generalize block.logs = logs at hup
  induction logs generalizing t with
  | nil => cases hup; exact h
  | cons log logs ih =>
    rw [List.foldlM_cons] at hup
    cases hl : t.upsertLog block.header log with
    | error e => rw [hl] at hup; cases hup
    | ok u => rw [hl] at hup; exact ih (valid_upsertLog h hl) hup

theorem appendOutbox_ok {kind : EventKind} {payload : Option IndexedBlock}
    (h : t.appendOutbox kind header payload = .ok t') :
    header.height ≤ bigintMax ∧ t.Names header.hash header.height ∧
      t' = t.insertOutbox kind header payload := by
  unfold appendOutbox at h
  cases hp : pgHeight header.height with
  | error e => rw [hp] at h; cases h
  | ok n =>
    obtain ⟨hle, rfl⟩ := pgHeight_ok.1 hp
    simp only [hp, bind, Except.bind] at h
    split at h
    · rename_i hn
      cases h
      exact ⟨hle, hn, rfl⟩
    · cases h

theorem valid_appendOutbox (h : t.Valid) {kind : EventKind} {payload : Option IndexedBlock}
    (hap : t.appendOutbox kind header payload = .ok t') : t'.Valid := by
  obtain ⟨-, hn, rfl⟩ := appendOutbox_ok hap
  refine { h with outbox_block := ?_ }
  intro row hr
  simp only [insertOutbox, List.mem_append, List.mem_singleton] at hr
  rcases hr with hr | rfl
  · exact h.outbox_block row hr
  · exact hn

theorem moveCheckpoint_ok (h : t.moveCheckpoint header = .ok t') :
    header.height ≤ bigintMax ∧ (∃ a ∈ t.canonical, a.hash = header.hash ∧ a.height = header.height) ∧
      t' = t.setCheckpoint header := by
  unfold moveCheckpoint at h
  cases hp : pgHeight header.height with
  | error e => rw [hp] at h; cases h
  | ok n =>
    obtain ⟨hle, rfl⟩ := pgHeight_ok.1 hp
    simp only [hp, bind, Except.bind] at h
    split at h
    · rename_i hc
      cases h
      exact ⟨hle, by simpa using hc, rfl⟩
    · cases h

theorem valid_moveCheckpoint (h : t.Valid) (hm : t.moveCheckpoint header = .ok t') : t'.Valid := by
  obtain ⟨-, ⟨a, ha, hh⟩, rfl⟩ := moveCheckpoint_ok hm
  refine { h with checkpoint_block := ?_ }
  intro c hc
  obtain rfl : { lastHeight := header.height, lastHash := header.hash } = c := by
    simpa [setCheckpoint] using hc
  exact ⟨a, canonical_subset ha, hh⟩

end Tables

/-! ## Rows that are read -/

namespace Database

/-- A read at a height finds the canonical row there: no row is higher than the column holds. -/
theorem canonicalHeaderAtHeight_eq (db : Database) (height : Nat) :
    (db.canonicalHeaderAtHeight height).toOption.join =
      db.1.canonical.find? (·.height = height) := by
  unfold canonicalHeaderAtHeight
  cases hn : pgHeight height with
  | ok n =>
    obtain ⟨-, rfl⟩ := pgHeight_ok.1 hn
    rfl
  | error e =>
    refine (List.find?_eq_none.2 fun x hx hheight => ?_).symm
    have hle := db.2.block_height x (Tables.canonical_subset hx)
    rw [of_decide_eq_true hheight] at hle
    rw [pgHeight_ok.2 ⟨hle, rfl⟩] at hn
    cases hn

theorem mem_of_canonicalHeaderAtHeight {db : Database} {height : Nat} {x : BlockHeader}
    (h : (db.canonicalHeaderAtHeight height).toOption.join = some x) : x ∈ db.1.canonical := by
  rw [canonicalHeaderAtHeight_eq] at h
  exact List.mem_of_find?_eq_some h

theorem canonicalHeaderAtHeight_of_mem {db : Database} {x : BlockHeader} (hx : x ∈ db.1.canonical) :
    (db.canonicalHeaderAtHeight x.height).toOption.join = some x := by
  rw [canonicalHeaderAtHeight_eq]
  cases hf : db.1.canonical.find? fun y => decide (y.height = x.height) with
  | none => simpa using List.find?_eq_none.1 hf x hx
  | some y =>
    have hy : y.height = x.height := by simpa using List.find?_some hf
    rw [db.2.canonical_height y (List.mem_of_find?_eq_some hf) x hx hy]

end Database

end Chainweave.Postgres
