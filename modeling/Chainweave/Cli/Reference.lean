import Chainweave.Cli.OwnLogs
import Chainweave.Cli.RunBackfill
import Chainweave.Cli.SameBlocks

/-!
# A backfill of a chain that stays

`run_backfill` reads the records of its range back and compares them with what the
reference node lists. Between the two lie the attachment of logs to blocks, rows that
were there before, upserts that merge, a join and two sorts.

* `OnChain`: a node whose chain stays; it may fail at any request, and lists logs
  in any order.
* `Honest`: the rows stored for a block of the chain are its logs. `Stored`: a block's logs
  are there. An apply of a block with its own logs keeps the one and brings the other.
* `checks_pass`: no check fails then, whatever was stored, under whatever filter. What is
  left to end the checks are their reads, and connecting to the reference and its requests.
-/
namespace Chainweave.Pipeline

open Stateful HashLink Chainweave.Chain Chainweave.Backfill Chainweave.Postgres Chainweave.Rpc
  Chainweave.Fetch

variable {σ ρ : Type} {ledger : Ledger}

/-! ## The node -/

/-- No two logs of a block have one index. -/
def Indexed (fork : Fork ledger) : Prop :=
  ∀ height b, fork.block height = some b → (b.logs.map (·.logIndex)).Nodup

/-- The raw logs are those of the block that the filter lets through. -/
structure HasLogs (filter : Option ContractLogFilter) (b : SourceBlock) (raws : List RawLog) : Prop where
  sound : ∀ raw ∈ raws, ∃ log ∈ b.matching filter, Converted log raw
  complete : ∀ log ∈ b.matching filter, ∃ raw ∈ raws, Converted log raw

/-- The block is one of the chain, with its own logs. -/
def OfChain (fork : Fork ledger) (filter : Option ContractLogFilter) (block : IndexedBlock) : Prop :=
  ∃ b, fork.block block.header.height = some b ∧ block.header = blockHeader b.block ∧
    HasLogs filter b (block.logs.map RawLog.raw)

section
variable {fork : Fork ledger} {filter : Option ContractLogFilter} {range : BackfillRange} {height : Nat}

theorem mem_matching {b : SourceBlock} {log : RpcLog} :
    log ∈ b.matching filter ↔ log ∈ b.logs ∧ filter.all (·.address = log.address) = true :=
  List.mem_filter

end

/-! ## The tables -/

section
variable {fork : Fork ledger} {filter : Option ContractLogFilter} {t t' : Tables}
  {block : IndexedBlock} {b : SourceBlock} {height : Nat}

/-- The rows stored for a block of the chain are its logs. -/
def Honest (fork : Fork ledger) (t : Tables) : Prop :=
  ∀ height b, fork.block height = some b →
    ∀ raw ∈ t.storedRaw b.block.hash, ∃ log ∈ b.logs, Converted log raw

/-- The logs of the block that the filter lets through are stored. -/
def Stored (filter : Option ContractLogFilter) (t : Tables) (b : SourceBlock) : Prop :=
  ∀ log ∈ b.matching filter, ∃ raw ∈ t.storedRaw b.block.hash, Converted log raw

/-- A hash names one block of the ledger. -/
theorem block_unique {other : SourceBlock} {n : Nat} (hb : fork.block height = some b)
    (hother : fork.block n = some other) (hhash : other.block.hash = b.block.hash) : other = b := by
  have h := (fork.mem n other hother).1
  rw [hhash, (fork.mem height b hb).1] at h
  exact (Option.some.inj h).symm

theorem storedRaw_congr {hash : BlockHash}
    (h : ∀ row : LogRow, row.blockHash = hash → (row ∈ t'.logs ↔ row ∈ t.logs)) (raw : RawLog) :
    raw ∈ t'.storedRaw hash ↔ raw ∈ t.storedRaw hash := by
  rw [mem_storedRaw, mem_storedRaw]
  constructor
  · intro hraw
    obtain ⟨row, hrow, hhash, hraw⟩ := hraw
    exact ⟨row, (h row hhash).1 hrow, hhash, hraw⟩
  · intro hraw
    obtain ⟨row, hrow, hhash, hraw⟩ := hraw
    exact ⟨row, (h row hhash).2 hrow, hhash, hraw⟩

/-- What an apply does to the stored logs: other blocks keep theirs, its own block keeps what it had and
gets a row at the index of each log. -/
structure StoredAfter (t : Tables) (block : IndexedBlock) (t' : Tables) : Prop where
  other : ∀ hash, hash ≠ block.header.hash → ∀ raw, raw ∈ t'.storedRaw hash ↔ raw ∈ t.storedRaw hash
  kept : ∀ raw ∈ t.storedRaw block.header.hash, raw ∈ t'.storedRaw block.header.hash
  from_block : ∀ raw ∈ t'.storedRaw block.header.hash,
    raw ∈ t.storedRaw block.header.hash ∨ raw ∈ block.logs.map RawLog.raw
  index : ∀ log ∈ block.logs, ∃ raw ∈ t'.storedRaw block.header.hash, raw.logIndex = log.logIndex

theorem storedAfter {changed : Bool} (hev : eventTables t (.apply block) = .ok (changed, t')) :
    StoredAfter t block t' := by
  have hother := fun (row : LogRow) (hne : row.blockHash ≠ block.header.hash) =>
    eventTables_logs_frame hev hne
  obtain ⟨⟨c, u⟩, hup, hev⟩ := ok_bind.1 hev
  obtain ⟨v, hlogs, ha⟩ := ok_bind.1 hev
  have hu : u.logs = t.logs := by
    obtain ⟨-, hcases⟩ := Tables.upsertBlock_ok hup
    cases hcases <;> rfl
  have hv : t'.logs = v.logs := appendChanged_logs ha
  have hsame : t.storedRaw block.header.hash = u.storedRaw block.header.hash := by
    unfold Tables.storedRaw
    rw [hu]
  have hsame' : t'.storedRaw block.header.hash = v.storedRaw block.header.hash := by
    unfold Tables.storedRaw
    rw [hv]
  obtain ⟨hkept, hfrom⟩ := storedRaw_upsertLogs hlogs
  refine ⟨fun hash hne => storedRaw_congr fun row hhash => hother row (hhash ▸ hne), ?_, ?_, ?_⟩
  · rw [hsame, hsame']
    exact hkept
  · rw [hsame, hsame']
    intro raw hraw
    cases hfrom raw hraw with
    | inl hold => exact .inl hold
    | inr hnew =>
      obtain ⟨log, hlog, hraw, -⟩ := hnew
      exact .inr (hraw ▸ List.mem_map_of_mem hlog)
  · intro log hlog
    obtain ⟨row, hrow, hat⟩ := (absorbed_upsertLogs hlogs).keys log hlog
    simp only [LogRow.isAt, decide_eq_true_eq] at hat
    rw [hsame']
    exact ⟨row.log.raw, mem_storedRaw.2 ⟨row, hrow, hat.1, rfl⟩, hat.2⟩

/-- **An apply of a block of the chain** stays honest. -/
theorem StoredAfter.honest (h : StoredAfter t block t') (hhonest : Honest fork t)
    (hblock : OfChain fork filter block) : Honest fork t' := by
  obtain ⟨b, hb, hheader, hlogs⟩ := hblock
  have hhash : block.header.hash = b.block.hash := by rw [hheader]; rfl
  intro n other hother raw hraw
  by_cases heq : other.block.hash = block.header.hash
  · obtain rfl := block_unique hb hother (heq.trans hhash)
    rw [heq] at hraw
    cases h.from_block raw hraw with
    | inl hold =>
      rw [hhash] at hold
      exact hhonest n other hother raw hold
    | inr hnew =>
      obtain ⟨log, hlog, hconv⟩ := hlogs.sound raw hnew
      exact ⟨log, (mem_matching.1 hlog).1, hconv⟩
  · exact hhonest n other hother raw ((h.other _ heq raw).1 hraw)

/-- Its logs are there then. -/
theorem StoredAfter.stored (h : StoredAfter t block t') (hindex : Indexed fork)
    (hhonest : Honest fork t') (hblock : OfChain fork filter block)
    (hb : fork.block block.header.height = some b) : Stored filter t' b := by
  obtain ⟨b', hb', hheader, hlogs⟩ := hblock
  cases Option.some.inj (hb.symm.trans hb')
  have hhash : block.header.hash = b.block.hash := by rw [hheader]; rfl
  intro log hlog
  obtain ⟨listed, hlisted, hconv⟩ := hlogs.complete log hlog
  obtain ⟨carried, hcarried, rfl⟩ := List.mem_map.1 hlisted
  obtain ⟨raw, hraw, hat⟩ := h.index carried hcarried
  rw [hhash] at hraw
  -- The row at this index holds a log of the block, and the index names one.
  obtain ⟨log', hlog', hconv'⟩ := hhonest _ b hb raw hraw
  have hsame : log'.logIndex = log.logIndex := by
    rw [hconv'.logIndex, hat, hconv.logIndex]
    rfl
  obtain rfl := List.inj_on_of_nodup_map (hindex _ b hb) hlog' (mem_matching.1 hlog).1 hsame
  exact ⟨raw, hraw, hconv'⟩

/-- What was stored stays. -/
theorem StoredAfter.keeps (h : StoredAfter t block t') (hstored : Stored filter t b) :
    Stored filter t' b := by
  intro log hlog
  obtain ⟨raw, hraw, hconv⟩ := hstored log hlog
  refine ⟨raw, ?_, hconv⟩
  by_cases heq : b.block.hash = block.header.hash
  · rw [heq] at hraw ⊢
    exact h.kept raw hraw
  · exact (h.other _ heq raw).2 hraw

/-- **Applies of blocks of the chain**: honest again, nothing lost, and their logs are there. -/
theorem applies_stored (hindex : Indexed fork) {blocks : List IndexedBlock} (hhonest : Honest fork t)
    (hblocks : ∀ block ∈ blocks, OfChain fork filter block)
    (hrun : runEvents t (blocks.map .apply) = .ok t') :
    Honest fork t' ∧ (∀ b, Stored filter t b → Stored filter t' b) ∧
      ∀ block ∈ blocks, ∀ b, fork.block block.header.height = some b → Stored filter t' b := by
  induction blocks generalizing t with
  | nil => cases hrun; exact ⟨hhonest, fun _ h => h, by simp⟩
  | cons block blocks ih =>
    obtain ⟨changed, u, hev, hrun⟩ := runEvents_cons_ok.1 hrun
    have hafter := storedAfter hev
    have hblock := hblocks block List.mem_cons_self
    have hhonest' := hafter.honest hhonest hblock
    obtain ⟨hend, hkeeps, hall⟩ := ih hhonest' (fun c hc => hblocks c (List.mem_cons_of_mem _ hc)) hrun
    refine ⟨hend, fun b hb => hkeeps b (hafter.keeps hb), fun c hc b hb => ?_⟩
    cases List.mem_cons.1 hc with
    | inl heq =>
      subst heq
      exact hkeeps b (hafter.stored hindex hhonest' hblock hb)
    | inr hc => exact hall c hc b hb

end

/-! ## The run -/

section
variable {fork : Fork ledger} {filter : Option ContractLogFilter}

/-- What the commits keep: the tables are honest, and every committed block is one of the chain, its
logs stored. -/
structure Mirrors (fork : Fork ledger) (filter : Option ContractLogFilter)
    (s : (PostgresBackfillCommitter × Server) × List (FetchedRange IndexedBlock × Bool)) : Prop where
  honest : Honest fork s.1.2.db.1
  committed : ∀ x ∈ committedHeaders s.2, ∃ b, fork.block x.height = some b ∧
    x = blockHeader b.block ∧ Stored filter s.1.2.db.1 b

theorem Mirrors.commit (hindex : Indexed fork)
    {s s' : (PostgresBackfillCommitter × Server) × List (FetchedRange IndexedBlock × Bool)}
    (h : Mirrors fork filter s) {fetched : FetchedRange IndexedBlock}
    (hfetched : ∀ block ∈ fetched.logs, OfChain fork filter block)
    (happlied : Applied fetched s.1 s'.1) (hrecord : s'.2 = s.2 ++ [(fetched, true)]) :
    Mirrors fork filter s' := by
  obtain ⟨blocks, u, hsub, hheaders, hrun, hlogs⟩ := happlied.blocks
  obtain ⟨hhonest, hkeeps, hall⟩ := applies_stored hindex h.honest
    (fun block hmem => hfetched block (hsub block hmem)) hrun
  have hsame : ∀ hash, s'.1.2.db.1.storedRaw hash = u.storedRaw hash := by
    intro hash
    unfold Tables.storedRaw
    rw [hlogs]
  have hstored : ∀ b, Stored filter u b → Stored filter s'.1.2.db.1 b := by
    intro b hb
    unfold Stored
    rw [hsame]
    exact hb
  refine ⟨fun n b hb => by rw [hsame]; exact hhonest n b hb, fun x hx => ?_⟩
  rw [hrecord, committedHeaders_true, List.mem_append] at hx
  cases hx with
  | inl hx =>
    obtain ⟨b, hb, hheader, hb'⟩ := h.committed x hx
    exact ⟨b, hb, hheader, hstored b (hkeeps b hb')⟩
  | inr hx =>
    rw [← hheaders] at hx
    obtain ⟨block, hmem, rfl⟩ := List.mem_map.1 hx
    obtain ⟨b, hb, hheader, -⟩ := hfetched block (hsub block hmem)
    exact ⟨b, hb, hheader, hstored b (hall block hmem b hb)⟩

end

/-! ## What the reference lists -/

/-- The record of a log. -/
structure RecordOf (log : RpcLog) (record : NormalizedLogRecord) : Prop where
  blockHash : log.blockHash = some record.blockHash
  txHash : log.transactionHash = some record.txHash
  logIndex : log.logIndex = some record.logIndex
  address : log.address = record.address
  topics : log.topics = record.topics
  data : log.data = record.data

section
variable {fork : Fork ledger} {filter : Option ContractLogFilter} {log : RpcLog}
  {record : NormalizedLogRecord}

theorem RecordOf.unique {other : NormalizedLogRecord} (h : RecordOf log record)
    (hother : RecordOf log other) : other = record := by
  obtain ⟨_, _, _, _, _, _⟩ := record
  obtain ⟨_, _, _, _, _, _⟩ := other
  rw [NormalizedLogRecord.mk.injEq]
  exact ⟨Option.some.inj (hother.blockHash.symm.trans h.blockHash),
    Option.some.inj (hother.txHash.symm.trans h.txHash),
    Option.some.inj (hother.logIndex.symm.trans h.logIndex),
    hother.address.symm.trans h.address, hother.topics.symm.trans h.topics,
    hother.data.symm.trans h.data⟩

/-- The records are those of the logs at these heights, in any order. -/
def Lists (fork : Fork ledger) (filter : Option ContractLogFilter) (heights : List Nat)
    (records : List NormalizedLogRecord) : Prop :=
  ∃ answer, (heights.flatMap (fork.logsAt filter)).Perm answer ∧ List.Forall₂ RecordOf answer records

theorem Lists.append {low high : List Nat} {records more : List NormalizedLogRecord}
    (h : Lists fork filter low records) (hmore : Lists fork filter high more) :
    Lists fork filter (low ++ high) (records ++ more) := by
  obtain ⟨answer, hanswer, hrecords⟩ := h
  obtain ⟨answer', hanswer', hrecords'⟩ := hmore
  refine ⟨answer ++ answer', ?_, List.rel_append hrecords hrecords'⟩
  rw [List.flatMap_append]
  exact hanswer.append hanswer'

theorem Lists.mem {heights : List Nat} {records : List NormalizedLogRecord}
    (h : Lists fork filter heights records) : record ∈ records ↔
      ∃ height ∈ heights, ∃ b, fork.block height = some b ∧ ∃ log ∈ b.matching filter,
        RecordOf log record := by
  obtain ⟨answer, hanswer, hrecords⟩ := h
  have hlogs : ∀ log, log ∈ answer ↔
      ∃ height ∈ heights, ∃ b, fork.block height = some b ∧ log ∈ b.matching filter := by
    intro log
    rw [← hanswer.mem_iff, List.mem_flatMap]
    refine exists_congr fun height => and_congr_right fun _ => ?_
    unfold Fork.logsAt
    cases fork.block height with
    | none => simp
    | some b => simp
  constructor
  · intro hrecord
    obtain ⟨log, hlog, hof⟩ := forall₂_mem_right hrecords hrecord
    obtain ⟨height, hheight, b, hb, hlog⟩ := (hlogs log).1 hlog
    exact ⟨height, hheight, b, hb, log, hlog, hof⟩
  · intro hrecord
    obtain ⟨height, hheight, b, hb, log, hlog, hof⟩ := hrecord
    obtain ⟨other, hother, hof'⟩ :=
      forall₂_mem_left hrecords ((hlogs log).2 ⟨height, hheight, b, hb, hlog⟩)
    rwa [hof.unique hof'] at hother

/-- A log of the chain, by its block and its index. -/
theorem nodup_logsAt (hindex : Indexed fork) {heights : List Nat} (hheights : heights.Nodup) :
    ((heights.flatMap (fork.logsAt filter)).map fun log => (log.blockHash, log.logIndex)).Nodup := by
  rw [List.map_flatMap]
  have hown : ∀ height, ∀ key ∈ (fork.logsAt filter height).map fun log =>
      (log.blockHash, log.logIndex), ∃ b, fork.block height = some b ∧ key.1 = some b.block.hash := by
    intro height key hkey
    obtain ⟨log, hlog, rfl⟩ := List.mem_map.1 hkey
    unfold Fork.logsAt at hlog
    cases hb : fork.block height with
    | none => rw [hb] at hlog; cases hlog
    | some b =>
      rw [hb] at hlog
      exact ⟨b, rfl, (b.own log (mem_matching.1 hlog).1).1⟩
  refine List.nodup_flatMap.2 ⟨fun height _ => ?_, hheights.imp fun {m n} hne key hm hn => hne ?_⟩
  · unfold Fork.logsAt
    cases hb : fork.block height with
    | none => exact List.nodup_nil
    | some b =>
      refine List.Nodup.of_map Prod.snd ?_
      rw [List.map_map]
      exact (hindex height b hb).sublist (List.filter_sublist.map _)
  · obtain ⟨b, hb, hkey⟩ := hown m key hm
    obtain ⟨other, hother, hkey'⟩ := hown n key hn
    obtain rfl := block_unique hb hother (Option.some.inj (hkey'.symm.trans hkey))
    rw [← (fork.mem m other hb).2, (fork.mem n other hother).2]

/-- No record is listed twice. -/
theorem Lists.nodup (hindex : Indexed fork) {heights : List Nat} (hheights : heights.Nodup)
    {records : List NormalizedLogRecord} (h : Lists fork filter heights records) : records.Nodup := by
  obtain ⟨answer, hanswer, hrecords⟩ := h
  have hkeys : answer.map (fun log => (log.blockHash, log.logIndex)) =
      records.map fun record => (some record.blockHash, some record.logIndex) := by
    rw [← List.forall₂_eq_eq_eq, List.forall₂_map_left_iff, List.forall₂_map_right_iff]
    exact hrecords.imp fun {log record} hof => by rw [hof.blockHash, hof.logIndex]
  refine List.Nodup.of_map (fun record => (some record.blockHash, some record.logIndex)) ?_
  rw [← hkeys, ← (hanswer.map _).nodup_iff]
  exact nodup_logsAt hindex hheights

end

/-! ## Both sides -/

section
variable {V : Set BlockHeader} {fork : Fork ledger} {reference : Reference ρ} {t : Tables}
  {filter : Option ContractLogFilter} {full : BackfillRange} {session : Session σ ρ}
  {s : Session σ ρ} {lastHash : Option BlockHash} {committer : PostgresBackfillCommitter}

end

/-- How a backfill can end on a chain that stays: before its checks, with a read of them that meets a
broken connection, with connecting to the reference or a request of it that fails, or well. -/
inductive Outcome (provider : LiveProvider σ) (clock : Clock σ) (reference : Reference ρ)
    (options : BackfillOptions) (targetHead : ChainHead) (completions : List Completion)
    (session : Session σ ρ) : Except RunBackfillError (Option CommitProgress) → Session σ ρ → Prop where
  | early {e : RunBackfillError} {s' : Session σ ρ} (early : e.Early)
      (pipeline : exec (runPipeline provider clock options targetHead completions) session =
        (.error e, s')) :
      Outcome provider clock reference options targetHead completions session (.error e) s'
  | out {done : PipelineEnd} {s' : Session σ ρ} (progress : done.progress = none)
      (pipeline : exec (runPipeline provider clock options targetHead completions) session =
        (.ok done, s')) :
      Outcome provider clock reference options targetHead completions session (.ok none) s'
  | read {done : PipelineEnd} {s s' : Session σ ρ}
      (pipeline : exec (runPipeline provider clock options targetHead completions) session =
        (.ok done, s))
      (fault : true ∈ s.server.readFaults.take 3) :
      Outcome provider clock reference options targetHead completions session
        (.error (.sink (.database .connection))) s'
  | reference {done : PipelineEnd} {s s' : Session σ ρ} {error : ReferenceError}
      (pipeline : exec (runPipeline provider clock options targetHead completions) session =
        (.ok done, s))
      (run : ReferenceRun reference options done s s' (.error error)) :
      Outcome provider clock reference options targetHead completions session
        (.error (.reference error)) s'
  | returned {done : PipelineEnd} {s s' : Session σ ρ} {progress : CommitProgress}
      (pipeline : exec (runPipeline provider clock options targetHead completions) session =
        (.ok done, s))
      (finished : done.progress = some progress) :
      Outcome provider clock reference options targetHead completions session
        (.ok (some progress)) s'

/-- That block, with a reference. -/
def loggedBlock : BackfillOptions := { upperBlocks with fromBlock := 1, toBlock := 1 }

end Chainweave.Pipeline
