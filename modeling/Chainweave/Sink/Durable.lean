import Chainweave.Sink.Postgres

/-!
# Batches on a canonical chain

* `Holds V t L`: the canonical rows of `t` are the linked chain `L`.
* `rollback_step`, `apply_step`: an event that takes the top off `L`, or puts a
  child on it, does that to the tables; `runEvents_rollbacks` and
  `runEvents_applies` are the same for a list of events.
* `applyTables_ok_iff`: a transaction is its events and then the checkpoint.
* `transition_ok`: a batch that rolls `L` back to an ancestor and applies a chain
  on top of it. Whether it goes through depends on the column limits only (`Fits`).
* `runEvents_checkpoint`: the events do not look at the checkpoint;
  `runEvents_frame`: nor do they touch the rows of other blocks.
-/
namespace Chainweave.Postgres

open HashLink Chainweave.Chain

/-- The block fits the columns of its rows. -/
structure Fits (block : IndexedBlock) : Prop where
  height : block.header.height ≤ bigintMax
  ints : ∀ log ∈ block.logs, log.transactionIndex ≤ intMax ∧ log.logIndex ≤ intMax
  topics : ∀ log ∈ block.logs, log.topics.length ≤ 4

/-- The row of `checkpoint` for a header. -/
def checkpointOf (header : BlockHeader) : Checkpoint :=
  { lastHeight := header.height, lastHash := header.hash }

/-- What an outbox row tells: kind, hash, height. -/
def OutboxRow.key (row : OutboxRow) : EventKind × BlockHash × Nat :=
  (row.eventKind, row.blockHash, row.blockHeight)

def DurableChainEvent.key (event : DurableChainEvent) : EventKind × BlockHash × Nat :=
  (event.kind, event.header.hash, event.header.height)

/-- The canonical rows are the chain `L`, over rows of `V`. -/
structure Holds (V : Set BlockHeader) (t : Tables) (L : List BlockHeader) : Prop where
  valid : t.Valid
  rows : ∀ x ∈ t.headers, x ∈ V
  linked : Linked L
  canonical : ∀ x, x ∈ t.canonical ↔ x ∈ L

/-- The outbox grew by one row for each of `events`, in order. -/
def Appends (t t' : Tables) (events : List DurableChainEvent) : Prop :=
  ∃ rows, t'.outbox = t.outbox ++ rows ∧ rows.map OutboxRow.key = events.map DurableChainEvent.key

theorem Appends.refl (t : Tables) : Appends t t [] := ⟨[], by simp, rfl⟩

theorem Appends.trans {t u v : Tables} {e f : List DurableChainEvent} (h : Appends t u e)
    (h' : Appends u v f) : Appends t v (e ++ f) := by
  obtain ⟨rows, h1, h2⟩ := h
  obtain ⟨rows', h3, h4⟩ := h'
  exact ⟨rows ++ rows', by rw [h3, h1, List.append_assoc], by simp [h2, h4]⟩

/-! ## One event -/

/-- Exactly one row is the canonical row of a canonical header. -/
theorem countP_isAt {t : Tables} (h : t.Valid) {x : BlockHeader} (hx : x ∈ t.canonical) :
    t.blocks.countP (·.isAt x.hash x.height) = 1 := by
  obtain ⟨row, hr, hc, rfl⟩ := Tables.mem_canonical.1 hx
  have hpos : 0 < t.blocks.countP (·.isAt row.header.hash row.header.height) :=
    List.countP_pos_iff.2 ⟨row, hr, by simp [BlockRow.isAt, hc]⟩
  have hle : t.blocks.countP (·.isAt row.header.hash row.header.height) ≤
      (t.headers.map (·.hash)).count row.header.hash := by
    rw [List.count, Tables.headers, List.map_map, List.countP_map]
    refine List.countP_mono_left fun r _ hr => ?_
    simp only [BlockRow.isAt, decide_eq_true_eq] at hr
    simpa using hr.1
  have hone := List.nodup_iff_count_le_one.1 h.block_key row.header.hash
  omega

theorem upsertLog_frame {t t' : Tables} {header : BlockHeader} {log : RawLog}
    (h : t.upsertLog header log = .ok t') :
    t'.blocks = t.blocks ∧ t'.outbox = t.outbox := by
  obtain ⟨-, -, -, -, hup⟩ := Tables.upsertLog_ok h
  cases hup <;> exact ⟨rfl, rfl⟩

/-- The logs of a block change no block row and no outbox row, and were within the limits. -/
theorem upsertLogs_frame {t t' : Tables} {block : IndexedBlock} (h : t.upsertLogs block = .ok t') :
    t'.blocks = t.blocks ∧ t'.outbox = t.outbox ∧ ∀ log ∈ block.logs,
      log.transactionIndex ≤ intMax ∧ log.logIndex ≤ intMax ∧ log.topics.length ≤ 4 := by
  unfold Tables.upsertLogs at h
  generalize block.logs = logs at h
  induction logs generalizing t with
  | nil => cases h; exact ⟨rfl, rfl, by simp⟩
  | cons log logs ih =>
    rw [List.foldlM_cons] at h
    obtain ⟨u, hu, h⟩ := Stateful.ok_bind.1 h
    obtain ⟨h1, h2⟩ := upsertLog_frame hu
    obtain ⟨h3, h4, h5⟩ := ih h
    obtain ⟨-, hi, hj, ht, -⟩ := Tables.upsertLog_ok hu
    refine ⟨h3.trans h1, h4.trans h2, ?_⟩
    intro l hl
    rcases List.mem_cons.1 hl with rfl | hl
    · exact ⟨hi, hj, ht⟩
    · exact h5 l hl

theorem upsertLog_exists {t : Tables} {header : BlockHeader} {log : RawLog}
    (hh : header.height ≤ bigintMax) (hi : log.transactionIndex ≤ intMax)
    (hj : log.logIndex ≤ intMax) (ht : log.topics.length ≤ 4)
    (hn : t.Names header.hash header.height) : ∃ t', t.upsertLog header log = .ok t' := by
  have h1 := pgHeight_ok.2 ⟨hh, rfl⟩
  have h2 := pgInt_ok.2 ⟨hi, rfl⟩
  have h3 := pgInt_ok.2 ⟨hj, rfl⟩
  unfold Tables.upsertLog
  simp only [h1, h2, h3, bind, Except.bind]
  rw [if_neg (by omega), if_pos hn]
  split <;> exact ⟨_, rfl⟩

theorem upsertLogs_exists {t : Tables} {block : IndexedBlock} (hfit : Fits block)
    (hn : t.Names block.header.hash block.header.height) :
    ∃ t', t.upsertLogs block = .ok t' := by
  obtain ⟨hheight, hints, htopics⟩ := hfit
  unfold Tables.upsertLogs
  generalize block.logs = logs at hints htopics ⊢
  induction logs generalizing t with
  | nil => exact ⟨t, rfl⟩
  | cons log logs ih =>
    obtain ⟨u, hu⟩ := upsertLog_exists hheight (hints log (by simp)).1 (hints log (by simp)).2
      (htopics log (by simp)) hn
    have hnu : u.Names block.header.hash block.header.height := by
      obtain ⟨hb, -⟩ := upsertLog_frame hu
      unfold Tables.Names Tables.headers at hn ⊢
      rwa [hb]
    obtain ⟨v, hv⟩ := ih hnu (fun l hl => hints l (List.mem_cons_of_mem _ hl))
      (fun l hl => htopics l (List.mem_cons_of_mem _ hl))
    exact ⟨v, by rw [List.foldlM_cons]; exact Stateful.ok_bind.2 ⟨u, hu, hv⟩⟩

theorem appendOutbox_exists {t : Tables} {kind : EventKind} {header : BlockHeader}
    {block : Option IndexedBlock} (hh : header.height ≤ bigintMax)
    (hn : t.Names header.hash header.height) :
    t.appendOutbox kind header block = .ok (t.insertOutbox kind header block) := by
  unfold Tables.appendOutbox
  simp only [pgHeight_ok.2 ⟨hh, rfl⟩, bind, Except.bind]
  rw [if_pos hn]
  rfl

section
variable {V : Set BlockHeader} {t t' : Tables} {L : List BlockHeader} {x : BlockHeader}
  {block : IndexedBlock}

theorem Holds.of_blocks (h : Holds V t L) (hv : t'.Valid) (hb : t'.blocks = t.blocks) :
    Holds V t' L where
  valid := hv
  rows y hy := h.rows y (by unfold Tables.headers at *; rwa [hb] at hy)
  linked := h.linked
  canonical y := by
    rw [← h.canonical y]
    unfold Tables.canonical
    rw [hb]

/-- **A rollback of the top.** The top row is not canonical afterwards, and the outbox says so. -/
theorem rollback_step (h : Holds V t (L ++ [x])) :
    ∃ t', eventTables t (.rollback x) = .ok (true, t') ∧ Holds V t' L ∧
      Appends t t' [.rollback x] := by
  have hx : x ∈ t.canonical := (h.canonical x).2 (by simp)
  have hxh := Tables.canonical_subset hx
  have hle := h.valid.block_height x hxh
  have hroll : t.rollbackBlock x = .ok (true, t.demote x.hash x.height) := by
    unfold Tables.rollbackBlock
    rw [if_neg (by simpa using ⟨x, hxh, rfl⟩)]
    simp only [pgHeight_ok.2 ⟨hle, rfl⟩, bind, Except.bind, countP_isAt h.valid hx]
    rfl
  have hnames : (t.demote x.hash x.height).Names x.hash x.height :=
    ⟨x, by simpa using hxh, rfl, rfl⟩
  have hev : eventTables t (.rollback x) =
      .ok (true, (t.demote x.hash x.height).insertOutbox .rollback x none) := by
    unfold eventTables appendChanged
    simp only [hroll, bind, Except.bind]
    rw [appendOutbox_exists hle hnames]
    rfl
  refine ⟨_, hev, ?_, ?_⟩
  · refine Holds.of_blocks (t := t.demote x.hash x.height) ?_ (valid_eventTables h.valid hev) rfl
    refine ⟨Tables.valid_demote h.valid _ _, by simpa using h.rows, h.linked.left, fun y => ?_⟩
    have hpw := List.pairwise_append.1 h.linked.pairwise
    rw [Tables.mem_canonical_demote, h.canonical, List.mem_append, List.mem_singleton]
    constructor
    · intro hex
      rcases hex with ⟨hy | rfl, hn⟩
      · exact hy
      · exact absurd ⟨rfl, rfl⟩ hn
    · intro hy
      have hlt := hpw.2.2 y hy x (by simp)
      exact ⟨.inl hy, fun hh => by simp only [block_height] at hlt; omega⟩
  · exact ⟨_, rfl, rfl⟩

/-- What an applied child of the top does to the block rows. -/
theorem upsert_child (hV : HashId V) (h : Holds V t L) (hb : block.header ∈ V)
    (hl : Linked (L ++ [block.header])) {changed : Bool}
    (hup : t.upsertBlock block = .ok (changed, t')) :
    changed = true ∧ Holds V t' (L ++ [block.header]) ∧ block.header ∈ t'.headers ∧
      t'.outbox = t.outbox := by
  have hv := Tables.valid_upsertBlock h.valid hup
  have hnew : block.header ∉ L := by
    intro hm
    have hlt := (List.pairwise_append.1 hl.pairwise).2.2 _ hm block.header (by simp)
    exact Nat.lt_irrefl _ hlt
  obtain ⟨-, hup⟩ := Tables.upsertBlock_ok hup
  cases hup with
  | unchanged y hy hhash =>
    obtain rfl := hV (h.rows y (Tables.canonical_subset hy)) hb hhash
    exact absurd ((h.canonical _).1 hy) hnew
  | inserted =>
    refine ⟨rfl, ⟨hv, ?_, hl, fun y => ?_⟩, by simp, rfl⟩
    · intro y hy
      rw [Tables.headers_insertBlock, List.mem_append, List.mem_singleton] at hy
      rcases hy with hy | rfl
      · exact h.rows y hy
      · exact hb
    · rw [Tables.mem_canonical_insertBlock, h.canonical, List.mem_append, List.mem_singleton]
  | promoted y hy hhash =>
    obtain rfl := hV (h.rows y hy) hb hhash
    refine ⟨rfl, ⟨hv, by simpa using h.rows, hl, fun z => ?_⟩, by simpa using hy, rfl⟩
    rw [Tables.mem_canonical_promote, h.canonical, List.mem_append, List.mem_singleton]
    constructor
    · intro hex
      rcases hex with hz | ⟨hz, hh⟩
      · exact .inl hz
      · exact .inr (hV (h.rows z hz) hb hh)
    · intro hex
      rcases hex with hz | rfl
      · exact .inl hz
      · exact .inr ⟨hy, rfl⟩

/-- **An apply of a child of the top.** If it returns, the child is the new top and the outbox says
so. -/
theorem apply_step (hV : HashId V) (h : Holds V t L) (hb : block.header ∈ V)
    (hl : Linked (L ++ [block.header])) {changed : Bool}
    (hev : eventTables t (.apply block) = .ok (changed, t')) :
    Holds V t' (L ++ [block.header]) ∧ Appends t t' [.apply block] := by
  have hv := valid_eventTables h.valid hev
  obtain ⟨⟨c, u⟩, hup, hev⟩ := Stateful.ok_bind.1 hev
  obtain ⟨v, hlogs, hev⟩ := Stateful.ok_bind.1 hev
  obtain ⟨rfl, hu, -, hout⟩ := upsert_child hV h hb hl hup
  obtain ⟨hblocks, hout', -⟩ := upsertLogs_frame hlogs
  obtain ⟨rfl, ⟨hf, -⟩ | ⟨-, ho⟩⟩ := appendChanged_ok hev
  · cases hf
  obtain ⟨-, -, rfl⟩ := Tables.appendOutbox_ok ho
  refine ⟨hu.of_blocks hv hblocks, ?_⟩
  exact ⟨_, by rw [← hout, ← hout']; rfl, rfl⟩

/-- An apply that returns was within the column limits. -/
theorem fits_of_apply {changed : Bool} (hev : eventTables t (.apply block) = .ok (changed, t')) :
    Fits block := by
  obtain ⟨⟨c, u⟩, hup, hev⟩ := Stateful.ok_bind.1 hev
  obtain ⟨v, hlogs, -⟩ := Stateful.ok_bind.1 hev
  obtain ⟨-, -, hlim⟩ := upsertLogs_frame hlogs
  exact ⟨(Tables.upsertBlock_ok hup).1, fun l hl => ⟨(hlim l hl).1, (hlim l hl).2.1⟩,
    fun l hl => (hlim l hl).2.2⟩

/-- An apply within the limits returns, unless another canonical row has its height. -/
theorem apply_exists (hV : HashId V) (hv : t.Valid) (hrows : ∀ x ∈ t.headers, x ∈ V)
    (hb : block.header ∈ V) (hfit : Fits block)
    (hfree : ∀ a ∈ t.canonical, a.height = block.header.height → a = block.header) :
    ∃ r, eventTables t (.apply block) = .ok r := by
  have hup : ∃ r, t.upsertBlock block = .ok r ∧ r.2.Names block.header.hash block.header.height := by
    unfold Tables.upsertBlock
    simp only [pgHeight_ok.2 ⟨hfit.height, rfl⟩, bind, Except.bind]
    split
    · rename_i hnone
      have hnew : ∀ a ∈ t.canonical, a.height ≠ block.header.height := by
        intro a ha hh
        obtain rfl := hfree a ha hh
        obtain ⟨row, hr, hx⟩ := Tables.mem_headers.1 (Tables.canonical_subset ha)
        have hne : row.header.hash ≠ block.header.hash := by
          simpa using List.find?_eq_none.1 hnone row hr
        exact hne (by rw [hx])
      rw [if_neg (by simpa using hnew)]
      exact ⟨_, rfl, block.header, by simp, rfl, rfl⟩
    · rename_i stored hsome
      have hmem := List.mem_of_find?_eq_some hsome
      have hst : stored.header ∈ t.headers := Tables.mem_headers.2 ⟨stored, hmem, rfl⟩
      have hhash : stored.header.hash = block.header.hash := by simpa using List.find?_some hsome
      have heq : stored.header = block.header := hV (hrows _ hst) hb hhash
      split
      · exact ⟨_, rfl, stored.header, hst, by rw [heq], by rw [heq]⟩
      rename_i hcan
      have hnew : ∀ a ∈ t.canonical, a.height ≠ stored.header.height := by
        intro a ha hh
        obtain ⟨row, hr, hc, rfl⟩ := Tables.mem_canonical.1 ha
        have he := hfree _ ha (hh.trans (by rw [heq]))
        have hrow : row = stored := by
          have hnd : (t.blocks.map fun r => r.header.hash).Nodup := by
            have := hv.block_key
            rwa [Tables.headers, List.map_map] at this
          exact List.inj_on_of_nodup_map hnd hr hmem (by rw [he, hhash])
        exact hcan (hrow ▸ hc)
      rw [if_neg (by simpa using hnew)]
      exact ⟨_, rfl, stored.header, by simpa using hst, by rw [heq], by rw [heq]⟩
  obtain ⟨⟨c, u⟩, hu, hnames⟩ := hup
  obtain ⟨v, hlogs⟩ := upsertLogs_exists hfit hnames
  obtain ⟨hblocks, -, -⟩ := upsertLogs_frame hlogs
  have hnv : v.Names block.header.hash block.header.height := by
    unfold Tables.Names Tables.headers at hnames ⊢
    rwa [hblocks]
  unfold eventTables appendChanged
  simp only [hu, hlogs, bind, Except.bind]
  cases c with
  | false => exact ⟨_, rfl⟩
  | true => rw [appendOutbox_exists hfit.height hnv]; exact ⟨_, rfl⟩

end

/-! ## Lists of events -/

/-- The tables after a list of events. -/
def runEvents (t : Tables) (events : List DurableChainEvent) : Except PostgresStateError Tables :=
  events.foldlM (fun t event => (eventTables t event).map (·.2)) t

theorem runEvents_cons_ok {t v : Tables} {event : DurableChainEvent}
    {events : List DurableChainEvent} : runEvents t (event :: events) = .ok v ↔
      ∃ changed u, eventTables t event = .ok (changed, u) ∧ runEvents u events = .ok v := by
  unfold runEvents
  rw [List.foldlM_cons, Stateful.ok_bind]
  cases eventTables t event with
  | error e => simp [Except.map]
  | ok r => simp [Except.map, Prod.ext_iff]

theorem runEvents_append_ok {t v : Tables} {e f : List DurableChainEvent} :
    runEvents t (e ++ f) = .ok v ↔ ∃ u, runEvents t e = .ok u ∧ runEvents u f = .ok v := by
  unfold runEvents
  rw [List.foldlM_append, Stateful.ok_bind]

/-- What every event keeps, the events keep. -/
theorem runEvents_keeps {P : Tables → Prop}
    (hstep : ∀ t event changed t', P t → eventTables t event = .ok (changed, t') → P t')
    {t v : Tables} {events : List DurableChainEvent} (h : P t) (hrun : runEvents t events = .ok v) :
    P v := by
  induction events generalizing t with
  | nil => cases hrun; exact h
  | cons event events ih =>
    obtain ⟨changed, u, hev, hrun⟩ := runEvents_cons_ok.1 hrun
    exact ih (hstep t event changed u h hev) hrun

/-- The checkpoint target after the events of a batch. -/
def finalTarget (commonAncestor : Option BlockHeader) (events : List DurableChainEvent) :
    Option BlockHeader :=
  (events.getLast?.map (targetAfter commonAncestor)).getD commonAncestor

/-- The loop of `apply_batch_inner` is `runEvents`, beside the target of the last event. -/
theorem applyEvents_ok {commonAncestor target : Option BlockHeader} {u : Tables} :
    ∀ {events : List DurableChainEvent} {tx : Transaction},
      (∃ tx', events.foldlM (applyEvent commonAncestor) tx = .ok tx' ∧ tx'.tables = u ∧
        tx'.checkpointTarget = target) ↔
      runEvents tx.tables events = .ok u ∧
        (events.getLast?.map (targetAfter commonAncestor)).getD tx.checkpointTarget = target
  | [], tx => by
    constructor
    · intro hex
      rcases hex with ⟨_, h, rfl, rfl⟩
      cases h
      exact ⟨rfl, rfl⟩
    · intro hex
      rcases hex with ⟨h, rfl⟩
      cases h
      exact ⟨tx, rfl, rfl, rfl⟩
  | event :: events, tx => by
    have hlast : ∀ a : Option BlockHeader,
        ((event :: events).getLast?.map (targetAfter commonAncestor)).getD a =
          (events.getLast?.map (targetAfter commonAncestor)).getD
            (targetAfter commonAncestor event) := by
      intro a
      cases events with
      | nil => rfl
      | cons e es => simp [List.getLast?_cons]
    rw [runEvents_cons_ok, hlast, List.foldlM_cons]
    constructor
    · intro hex
      rcases hex with ⟨tx', h, hu, ht⟩
      obtain ⟨tx1, h1, h2⟩ := Stateful.ok_bind.1 h
      obtain ⟨changed, he, -, hc⟩ := applyEvent_ok h1
      obtain ⟨hr, ht⟩ := applyEvents_ok.1 ⟨tx', h2, hu, ht⟩
      exact ⟨⟨changed, _, he, hr⟩, by rwa [hc] at ht⟩
    · intro hex
      rcases hex with ⟨⟨changed, v, he, hr⟩, ht⟩
      let tx1 : Transaction := {
        tables := v
        report := countEvent tx.report changed event
        checkpointTarget := targetAfter commonAncestor event }
      have h1 : applyEvent commonAncestor tx event = .ok tx1 := by
        unfold applyEvent
        rw [he]
        rfl
      obtain ⟨tx', h2, hu, hc⟩ := (@applyEvents_ok commonAncestor target u events tx1).2 ⟨hr, ht⟩
      exact ⟨tx', Stateful.ok_bind.2 ⟨tx1, h1, h2⟩, hu, hc⟩

/-- A transaction is its events and then the checkpoint. -/
theorem applyTables_ok_iff {t t' : Tables} {batch : DurableChainBatch} :
    (∃ report, applyTables t batch = .ok (report, t')) ↔
      ∃ u, runEvents t batch.events = .ok u ∧
        moveTarget u (finalTarget batch.commonAncestor batch.events) = .ok t' := by
  constructor
  · intro hex
    rcases hex with ⟨report, h⟩
    obtain ⟨tx, hf, h⟩ := Stateful.ok_bind.1 h
    obtain ⟨w, hm, h⟩ := Stateful.ok_bind.1 h
    cases h
    obtain ⟨hr, ht⟩ := applyEvents_ok.1 ⟨tx, hf, rfl, rfl⟩
    exact ⟨tx.tables, hr, by unfold finalTarget; rw [ht]; exact hm⟩
  · intro hex
    rcases hex with ⟨u, hr, hm⟩
    let start : Transaction :=
      { tables := t, report := {}, checkpointTarget := batch.commonAncestor }
    obtain ⟨tx, hf, rfl, ht⟩ :=
      (@applyEvents_ok batch.commonAncestor _ u batch.events start).2 ⟨hr, rfl⟩
    refine ⟨tx.report, Stateful.ok_bind.2 ⟨tx, hf, Stateful.ok_bind.2 ⟨t', ?_, rfl⟩⟩⟩
    rw [ht]
    exact hm

/-- The checkpoint can be moved to a canonical row. -/
theorem moveCheckpoint_exists {t : Tables} (hv : t.Valid) {x : BlockHeader} (hx : x ∈ t.canonical) :
    t.moveCheckpoint x = .ok (t.setCheckpoint x) := by
  have hle := hv.block_height x (Tables.canonical_subset hx)
  unfold Tables.moveCheckpoint
  simp only [pgHeight_ok.2 ⟨hle, rfl⟩, bind, Except.bind]
  rw [if_pos (by simpa using ⟨x, hx, rfl, rfl⟩)]
  rfl

/-- A commit is its events, and at most the checkpoint. -/
theorem applyBatch_events {db db' : Database} {batch : DurableChainBatch} {report : ApplyReport}
    (h : applyBatch db batch = .ok (report, db')) :
    ∃ u c, runEvents db.1 batch.events = .ok u ∧ db'.1 = { u with checkpoint := c } := by
  cases he : batch.isEmpty with
  | true =>
    rw [applyBatch_empty db he] at h
    cases h
    exact ⟨db.1, db.1.checkpoint, by rw [List.isEmpty_iff.1 he]; rfl, rfl⟩
  | false =>
    obtain ⟨u, hrun, hm⟩ := applyTables_ok_iff.1 ⟨report, (applyBatch_ok he).1 h⟩
    refine ⟨u, db'.1.checkpoint, hrun, ?_⟩
    unfold moveTarget at hm
    split at hm
    · obtain ⟨-, -, hmoved⟩ := Tables.moveCheckpoint_ok hm
      rw [hmoved]
      rfl
    · cases hm
      rfl

section
variable {V : Set BlockHeader} {t t' : Tables} {base : List BlockHeader}

/-- Rolling the blocks above `base` back, top first, leaves `base`. -/
theorem runEvents_rollbacks {ups : List BlockHeader} (h : Holds V t (base ++ ups)) :
    ∃ t', runEvents t (ups.reverse.map .rollback) = .ok t' ∧ Holds V t' base ∧
      Appends t t' (ups.reverse.map .rollback) := by
  induction ups using List.reverseRecOn generalizing t with
  | nil => exact ⟨t, rfl, by simpa using h, .refl t⟩
  | append_singleton ups x ih =>
    rw [← List.append_assoc] at h
    obtain ⟨u, hu, hholds, happ⟩ := rollback_step h
    obtain ⟨v, hv, hbase, happ'⟩ := ih hholds
    rw [List.reverse_append, List.reverse_singleton, List.singleton_append, List.map_cons]
    exact ⟨v, runEvents_cons_ok.2 ⟨true, u, hu, hv⟩, hbase, happ.trans happ'⟩

/-- Applying a chain on top of `base`, if it returns, extends the canonical chain by it. -/
theorem runEvents_applies (hV : HashId V) {blocks : List IndexedBlock} (h : Holds V t base)
    (hb : ∀ b ∈ blocks, b.header ∈ V) (hl : Linked (base ++ blocks.map (·.header)))
    (hrun : runEvents t (blocks.map .apply) = .ok t') :
    Holds V t' (base ++ blocks.map (·.header)) ∧ Appends t t' (blocks.map .apply) := by
  induction blocks generalizing t base with
  | nil => cases hrun; exact ⟨by simpa using h, .refl _⟩
  | cons b blocks ih =>
    obtain ⟨changed, u, hev, hrun⟩ := runEvents_cons_ok.1 hrun
    have hl' : Linked (base ++ [b.header] ++ blocks.map (·.header)) := by simpa using hl
    obtain ⟨hu, happ⟩ := apply_step hV h (hb b (by simp)) hl'.left hev
    obtain ⟨hv, happ'⟩ := ih hu (fun c hc => hb c (List.mem_cons_of_mem _ hc)) hl' hrun
    exact ⟨by simpa using hv, happ.trans happ'⟩

/-- Blocks that were applied were within the column limits. -/
theorem runEvents_fits {events : List DurableChainEvent} (hrun : runEvents t events = .ok t')
    {block : IndexedBlock} (hblock : .apply block ∈ events) : Fits block := by
  induction events generalizing t with
  | nil => cases hblock
  | cons event events ih =>
    obtain ⟨changed, u, hev, hrun⟩ := runEvents_cons_ok.1 hrun
    cases List.mem_cons.1 hblock with
    | inl heq => exact fits_of_apply (heq ▸ hev)
    | inr hmem => exact ih hrun hmem

/-- Within the column limits, a chain on top of `base` can be applied. -/
theorem runEvents_applies_exists (hV : HashId V) {blocks : List IndexedBlock} (h : Holds V t base)
    (hb : ∀ b ∈ blocks, b.header ∈ V) (hl : Linked (base ++ blocks.map (·.header)))
    (hfit : ∀ b ∈ blocks, Fits b) : ∃ t', runEvents t (blocks.map .apply) = .ok t' := by
  induction blocks generalizing t base with
  | nil => exact ⟨t, rfl⟩
  | cons b blocks ih =>
    have hl' : Linked (base ++ [b.header] ++ blocks.map (·.header)) := by simpa using hl
    have hbV := hb b (by simp)
    obtain ⟨⟨changed, u⟩, hev⟩ := apply_exists hV h.valid h.rows hbV (hfit b (by simp)) (by
      intro a ha hh
      have hlt := (List.pairwise_append.1 hl'.left.pairwise).2.2 a ((h.canonical a).1 ha)
        b.header (by simp)
      simp only [block_height] at hlt
      omega)
    obtain ⟨hu, -⟩ := apply_step hV h hbV hl'.left hev
    obtain ⟨v, hv⟩ := ih hu (fun c hc => hb c (List.mem_cons_of_mem _ hc)) hl'
      (fun c hc => hfit c (List.mem_cons_of_mem _ hc))
    exact ⟨v, runEvents_cons_ok.2 ⟨changed, u, hev, hv⟩⟩

end

/-! ## Well-formed tables and transitions -/

/-- **Well formed**: the canonical rows are one linked chain, and its top is the checkpoint. -/
structure WellFormed (V : Set BlockHeader) (t : Tables) (L : List BlockHeader) : Prop
    extends Holds V t L where
  checkpoint : t.checkpoint = L.getLast?.map checkpointOf

/-- The events that take a chain from `base ++ ups` to `base ++ blocks`. -/
def transitionEvents (ups : List BlockHeader) (blocks : List IndexedBlock) : List DurableChainEvent :=
  ups.reverse.map .rollback ++ blocks.map .apply

theorem finalTarget_transition {commonAncestor : Option BlockHeader} {base ups : List BlockHeader}
    {blocks : List IndexedBlock} (hca : blocks = [] → commonAncestor = base.getLast?) :
    finalTarget commonAncestor (transitionEvents ups blocks) =
      (base ++ blocks.map (·.header)).getLast? := by
  unfold finalTarget transitionEvents
  rcases List.eq_nil_or_concat blocks with rfl | ⟨init, b, rfl⟩
  · rw [← show _ = (base ++ [].map IndexedBlock.header).getLast? by simpa using hca rfl]
    cases ups with
    | nil => rfl
    | cons x ups => simp [targetAfter]
  · simp [targetAfter]

section
variable {V : Set BlockHeader} {t t' : Tables} {base ups : List BlockHeader}
  {blocks : List IndexedBlock} {batch : DurableChainBatch}

/-- **A transition, if it commits.** The canonical rows are the new chain, its top is the
checkpoint, the outbox has one row per event, and the tables are those of the events alone but for
the checkpoint. -/
theorem transition_ok (hV : HashId V) (h : WellFormed V t (base ++ ups))
    (hb : ∀ b ∈ blocks, b.header ∈ V) (hl : Linked (base ++ blocks.map (·.header)))
    (hne : base ++ blocks.map (·.header) ≠ [])
    (hev : batch.events = transitionEvents ups blocks)
    (hca : blocks = [] → batch.commonAncestor = base.getLast?) {report : ApplyReport}
    (hap : applyTables t batch = .ok (report, t')) :
    WellFormed V t' (base ++ blocks.map (·.header)) ∧ Appends t t' batch.events ∧
      ∃ u, runEvents t batch.events = .ok u ∧ t' = { u with checkpoint := t'.checkpoint } := by
  obtain ⟨u, hrun, hm⟩ := applyTables_ok_iff.1 ⟨report, hap⟩
  rw [hev, finalTarget_transition hca] at hm
  have hsplit := hrun
  rw [hev] at hsplit
  obtain ⟨w, hroll, happly⟩ := runEvents_append_ok.1 hsplit
  obtain ⟨w', hroll', hbase, happ⟩ := runEvents_rollbacks h.toHolds
  obtain rfl : w' = w := Except.ok.inj (hroll'.symm.trans hroll)
  obtain ⟨hu, happ'⟩ := runEvents_applies hV hbase hb hl happly
  obtain ⟨top, htop⟩ := Option.isSome_iff_exists.1 (List.getLast?_isSome.2 hne)
  rw [htop] at hm
  have hv := Tables.valid_moveCheckpoint hu.valid hm
  obtain ⟨-, -, rfl⟩ := Tables.moveCheckpoint_ok hm
  refine ⟨⟨hu.of_blocks hv rfl, ?_⟩, ?_, u, hrun, rfl⟩
  · rw [htop]; rfl
  · rw [hev]; exact happ.trans happ'

/-- **A transition within the column limits commits.** -/
theorem transition_exists (hV : HashId V) (h : WellFormed V t (base ++ ups))
    (hb : ∀ b ∈ blocks, b.header ∈ V) (hl : Linked (base ++ blocks.map (·.header)))
    (hne : base ++ blocks.map (·.header) ≠ [])
    (hev : batch.events = transitionEvents ups blocks)
    (hca : blocks = [] → batch.commonAncestor = base.getLast?)
    (hfit : ∀ b ∈ blocks, Fits b) : ∃ report t', applyTables t batch = .ok (report, t') := by
  obtain ⟨w, hroll, hbase, -⟩ := runEvents_rollbacks h.toHolds
  obtain ⟨u, happly⟩ := runEvents_applies_exists hV hbase hb hl hfit
  obtain ⟨hu, -⟩ := runEvents_applies hV hbase hb hl happly
  obtain ⟨top, htop⟩ := Option.isSome_iff_exists.1 (List.getLast?_isSome.2 hne)
  have hmem : top ∈ u.canonical := (hu.canonical top).2 (List.mem_of_getLast? htop)
  have hm : moveTarget u (finalTarget batch.commonAncestor batch.events) =
      .ok (u.setCheckpoint top) := by
    rw [hev, finalTarget_transition hca, htop]
    exact moveCheckpoint_exists hu.valid hmem
  obtain ⟨report, hap⟩ := applyTables_ok_iff.2
    ⟨u, by rw [hev]; exact runEvents_append_ok.2 ⟨w, hroll, happly⟩, hm⟩
  exact ⟨report, _, hap⟩

end

/-! ## Events do not look at the checkpoint -/

theorem upsertLog_checkpoint (t : Tables) (c : Option Checkpoint) (header : BlockHeader) (log : RawLog) :
    ({ t with checkpoint := c } : Tables).upsertLog header log =
      (t.upsertLog header log).map fun t' => { t' with checkpoint := c } := by
  unfold Tables.upsertLog
  cases pgHeight header.height with
  | error e => rfl
  | ok n =>
  cases pgInt log.transactionIndex with
  | error e => rfl
  | ok i =>
  cases pgInt log.logIndex with
  | error e => rfl
  | ok j =>
  simp only [bind, Except.bind]
  split
  · rfl
  split
  · rfl
  by_cases hn : t.Names header.hash n
  · rw [if_pos hn, if_pos (show ({ t with checkpoint := c } : Tables).Names header.hash n from hn)]
    rfl
  · rw [if_neg hn, if_neg (show ¬ ({ t with checkpoint := c } : Tables).Names header.hash n from hn)]
    rfl

theorem upsertLogs_checkpoint (t : Tables) (c : Option Checkpoint) (block : IndexedBlock) :
    ({ t with checkpoint := c } : Tables).upsertLogs block =
      (t.upsertLogs block).map fun t' => { t' with checkpoint := c } := by
  unfold Tables.upsertLogs
  generalize block.logs = logs
  induction logs generalizing t with
  | nil => rfl
  | cons log logs ih =>
    rw [List.foldlM_cons, List.foldlM_cons, upsertLog_checkpoint]
    cases t.upsertLog block.header log with
    | error e => rfl
    | ok u => exact ih u

theorem appendChanged_checkpoint (t : Tables) (c : Option Checkpoint) (kind : EventKind)
    (header : BlockHeader) (block : Option IndexedBlock) (changed : Bool) :
    appendChanged { t with checkpoint := c } kind header block changed =
      (appendChanged t kind header block changed).map fun r =>
        (r.1, { r.2 with checkpoint := c }) := by
  cases changed with
  | false => rfl
  | true =>
    unfold appendChanged Tables.appendOutbox
    cases pgHeight header.height with
    | error e => rfl
    | ok n =>
      simp only [bind, Except.bind]
      by_cases hn : t.Names header.hash n
      · rw [if_pos hn,
          if_pos (show ({ t with checkpoint := c } : Tables).Names header.hash n from hn)]
        rfl
      · rw [if_neg hn,
          if_neg (show ¬ ({ t with checkpoint := c } : Tables).Names header.hash n from hn)]
        rfl

theorem eventTables_checkpoint (t : Tables) (c : Option Checkpoint) (event : DurableChainEvent) :
    eventTables { t with checkpoint := c } event =
      (eventTables t event).map fun r => (r.1, { r.2 with checkpoint := c }) := by
  cases event with
  | rollback header =>
    have hroll : ({ t with checkpoint := c } : Tables).rollbackBlock header =
        (t.rollbackBlock header).map fun r => (r.1, { r.2 with checkpoint := c }) := by
      unfold Tables.rollbackBlock
      show (if t.headers.all _ then _ else _) = _
      split
      · rfl
      · cases pgHeight header.height <;> rfl
    unfold eventTables
    dsimp only
    rw [hroll]
    cases t.rollbackBlock header with
    | error e => rfl
    | ok r => exact appendChanged_checkpoint r.2 c .rollback header none r.1
  | apply block =>
    have hup : ({ t with checkpoint := c } : Tables).upsertBlock block =
        (t.upsertBlock block).map fun r => (r.1, { r.2 with checkpoint := c }) := by
      unfold Tables.upsertBlock
      cases pgHeight block.header.height with
      | error e => rfl
      | ok n =>
        simp only [bind, Except.bind]
        split
        · show (if t.canonical.any _ then _ else _) = _
          split <;> rfl
        · split
          · rfl
          · show (if t.canonical.any _ then _ else _) = _
            split <;> rfl
    unfold eventTables
    dsimp only
    rw [hup]
    cases t.upsertBlock block with
    | error e => rfl
    | ok r =>
      show (({ r.2 with checkpoint := c } : Tables).upsertLogs block >>= _) = _
      rw [upsertLogs_checkpoint]
      simp only [bind, Except.bind]
      cases r.2.upsertLogs block with
      | error e => rfl
      | ok u => exact appendChanged_checkpoint u c .apply block.header (some block) r.1

/-- The events do not look at the checkpoint, and leave it. -/
theorem runEvents_checkpoint (t : Tables) (c : Option Checkpoint) (events : List DurableChainEvent) :
    runEvents { t with checkpoint := c } events =
      (runEvents t events).map fun t' => { t' with checkpoint := c } := by
  unfold runEvents
  induction events generalizing t with
  | nil => rfl
  | cons event events ih =>
    rw [List.foldlM_cons, List.foldlM_cons, eventTables_checkpoint]
    cases eventTables t event with
    | error e => rfl
    | ok r => exact ih r.2

/-! ## Rows that the events do not name -/

theorem mem_map_row {blocks : List BlockRow} {f : BlockRow → BlockRow} {hash : BlockHash}
    {row : BlockRow} (hheader : ∀ r, (f r).header = r.header)
    (hid : ∀ r, r.header.hash ≠ hash → f r = r) (hne : row.header.hash ≠ hash) :
    row ∈ blocks.map f ↔ row ∈ blocks := by
  rw [List.mem_map]
  constructor
  · intro hex
    rcases hex with ⟨r, hr, rfl⟩
    rw [hheader] at hne
    rwa [hid r hne]
  · intro hr
    exact ⟨row, hr, hid row hne⟩

theorem appendChanged_blocks {t t' : Tables} {kind : EventKind} {header : BlockHeader}
    {block : Option IndexedBlock} {changed c : Bool}
    (h : appendChanged t kind header block changed = .ok (c, t')) : t'.blocks = t.blocks := by
  obtain ⟨-, ⟨-, rfl⟩ | ⟨-, ho⟩⟩ := appendChanged_ok h
  · rfl
  · obtain ⟨-, -, rfl⟩ := Tables.appendOutbox_ok ho
    rfl

theorem eventTables_frame {t t' : Tables} {event : DurableChainEvent} {changed : Bool}
    (h : eventTables t event = .ok (changed, t')) {row : BlockRow}
    (hne : row.header.hash ≠ event.header.hash) : row ∈ t'.blocks ↔ row ∈ t.blocks := by
  cases event with
  | rollback header =>
    obtain ⟨⟨c, u⟩, hr, h⟩ := Stateful.ok_bind.1 h
    obtain ⟨-, -, -, rfl⟩ := Tables.rollbackBlock_ok hr
    rw [appendChanged_blocks h]
    refine mem_map_row (fun r => by split <;> rfl) (fun r hr => ?_)
      (show row.header.hash ≠ header.hash from hne)
    rw [if_neg (by simp [BlockRow.isAt, hr])]
  | apply block =>
    obtain ⟨⟨c, u⟩, hup, h⟩ := Stateful.ok_bind.1 h
    obtain ⟨v, hlogs, h⟩ := Stateful.ok_bind.1 h
    rw [appendChanged_blocks h, (upsertLogs_frame hlogs).1]
    obtain ⟨-, hup⟩ := Tables.upsertBlock_ok hup
    cases hup with
    | unchanged => rfl
    | inserted =>
      have hrow : row ≠ Tables.newRow block := fun he => hne (by rw [he]; rfl)
      simp [Tables.insertBlock, hrow]
    | promoted =>
      refine mem_map_row (fun r => by split <;> rfl) (fun r hr => ?_)
        (show row.header.hash ≠ block.header.hash from hne)
      rw [if_neg hr]

/-- The events leave the rows of other blocks. -/
theorem runEvents_frame {t t' : Tables} {events : List DurableChainEvent}
    (h : runEvents t events = .ok t') {row : BlockRow}
    (hne : ∀ event ∈ events, row.header.hash ≠ event.header.hash) :
    row ∈ t'.blocks ↔ row ∈ t.blocks := by
  induction events generalizing t with
  | nil => cases h; rfl
  | cons event events ih =>
    obtain ⟨changed, u, hev, h⟩ := runEvents_cons_ok.1 h
    rw [ih h (fun e he => hne e (List.mem_cons_of_mem _ he)),
      eventTables_frame hev (hne event (by simp))]

end Chainweave.Postgres
