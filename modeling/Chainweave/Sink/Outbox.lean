import Chainweave.Lib.ChangeLog
import Chainweave.Sink.Durable
import Chainweave.Sink.Server

/-!
# The outbox as a change log

An outbox row says that a block became canonical or stopped being so. Whether a
statement changed a row is read off the rows it affected; `logged_eventTables`
shows that this is exact, whatever the batch: the rows, replayed, give the
canonical set.
-/
namespace Chainweave.Postgres

open Stateful ChangeLog Chainweave.Chain

/-- What a consumer does with an outbox row. -/
def OutboxRow.change (row : OutboxRow) : Change BlockHash :=
  match row.eventKind with
  | .apply => .add row.blockHash
  | .rollback => .drop row.blockHash

/-- A canonical row with this hash. -/
def Tables.HasCanonical (t : Tables) (hash : BlockHash) : Prop := ∃ x ∈ t.canonical, x.hash = hash

instance (t : Tables) (hash : BlockHash) : Decidable (t.HasCanonical hash) :=
  inferInstanceAs (Decidable (∃ x ∈ _, _))

/-- The outbox is a change log of the canonical set. -/
def Logged (t : Tables) : Prop := Records (t.outbox.map OutboxRow.change) t.HasCanonical

section
variable {t t' : Tables} {header : BlockHeader} {block : IndexedBlock}

theorem Logged.of_eq (h : Logged t) (hb : t'.blocks = t.blocks) (ho : t'.outbox = t.outbox) :
    Logged t' := by
  unfold Logged Tables.HasCanonical Tables.canonical
  rw [hb, ho]
  exact h

theorem outbox_insertOutbox {kind : EventKind} {payload : Option IndexedBlock} :
    (t.insertOutbox kind header payload).outbox.map OutboxRow.change =
      t.outbox.map OutboxRow.change ++
        [match kind with | .apply => .add header.hash | .rollback => .drop header.hash] := by
  cases kind <;> simp [Tables.insertOutbox, OutboxRow.change]

/-- The rows an update affected: one if the block was canonical at this height, else none. -/
theorem countP_isAt_eq_one (h : t.Valid) {hash : BlockHash} {height : Nat} :
    t.blocks.countP (·.isAt hash height) = 1 ↔
      ∃ x ∈ t.canonical, x.hash = hash ∧ x.height = height := by
  constructor
  · intro hone
    obtain ⟨row, hr, hat⟩ := List.countP_pos_iff.1 (by omega : 0 < t.blocks.countP (·.isAt hash height))
    simp only [BlockRow.isAt, decide_eq_true_eq] at hat
    exact ⟨row.header, Tables.mem_canonical.2 ⟨row, hr, hat.2.2, rfl⟩, hat.1, hat.2.1⟩
  · intro hex
    obtain ⟨x, hx, hhash, hheight⟩ := hex
    rw [← hhash, ← hheight]
    exact countP_isAt h hx

theorem logged_rollback (hv : t.Valid) (h : Logged t)
    (hcan : ∃ x ∈ t.canonical, x.hash = header.hash ∧ x.height = header.height) :
    Logged ((t.demote header.hash header.height).insertOutbox .rollback header none) := by
  obtain ⟨x, hx, hhash, hheight⟩ := hcan
  have hrem := h.removed (show t.HasCanonical header.hash from ⟨x, hx, hhash⟩)
  unfold Logged
  rw [outbox_insertOutbox]
  refine hrem.congr fun hash => ?_
  constructor
  · intro hand
    obtain ⟨⟨y, hy, hyh⟩, hne⟩ := hand
    exact ⟨y, Tables.mem_canonical_demote.2 ⟨hy, fun hat => hne (hyh ▸ hat.1)⟩, hyh⟩
  · intro hex
    obtain ⟨y, hy, hyh⟩ := hex
    obtain ⟨hy, hnot⟩ := Tables.mem_canonical_demote.1 hy
    refine ⟨⟨y, hy, hyh⟩, fun he => hnot ?_⟩
    obtain rfl : y = x := hv.header_unique (Tables.canonical_subset hy) (Tables.canonical_subset hx)
      (hyh.trans (he.trans hhash.symm))
    exact ⟨hhash, hheight⟩

/-- What an upsert that changed a row did: the block was not canonical, and it is now. -/
theorem hasCanonical_upsert (hv : t.Valid) (hup : Tables.UpsertBlock t block true t') :
    ¬ t.HasCanonical block.header.hash ∧
      ∀ hash, t'.HasCanonical hash ↔ t.HasCanonical hash ∨ hash = block.header.hash := by
  unfold Tables.HasCanonical
  cases hup with
  | inserted hnew hfree =>
    refine ⟨fun hex => ?_, fun hash => ?_⟩
    · obtain ⟨x, hx, hxh⟩ := hex
      exact hnew x (Tables.canonical_subset hx) hxh
    simp only [Tables.mem_canonical_insertBlock]
    constructor
    · intro hex
      obtain ⟨x, hx, hxh⟩ := hex
      cases hx with
      | inl hx => exact .inl ⟨x, hx, hxh⟩
      | inr hx => exact .inr (by rw [← hxh, hx])
    · intro h
      cases h with
      | inl h => obtain ⟨x, hx, hxh⟩ := h; exact ⟨x, .inl hx, hxh⟩
      | inr h => exact ⟨block.header, .inr rfl, h.symm⟩
  | promoted x hx hhash hfree =>
    refine ⟨fun hex => ?_, fun hash => ?_⟩
    · obtain ⟨y, hy, hyh⟩ := hex
      obtain rfl : y = x := hv.header_unique (Tables.canonical_subset hy) hx (hyh.trans hhash.symm)
      exact hfree y hy rfl
    · simp only [Tables.mem_canonical_promote]
      constructor
      · intro hex
        obtain ⟨y, hy, hyh⟩ := hex
        cases hy with
        | inl hy => exact .inl ⟨y, hy, hyh⟩
        | inr hy => exact .inr (hyh ▸ hy.2)
      · intro h
        cases h with
        | inl h => obtain ⟨y, hy, hyh⟩ := h; exact ⟨y, .inl hy, hyh⟩
        | inr h => exact ⟨x, .inr ⟨hx, hhash⟩, h ▸ hhash⟩

/-- **Every event keeps the log exact.** -/
theorem logged_eventTables (hv : t.Valid) (h : Logged t) {event : DurableChainEvent} {changed : Bool}
    (he : eventTables t event = .ok (changed, t')) : Logged t' := by
  cases event with
  | rollback header =>
    obtain ⟨⟨c, u⟩, hr, ha⟩ := ok_bind.1 he
    obtain ⟨-, -, hc, rfl⟩ := Tables.rollbackBlock_ok hr
    obtain ⟨-, ⟨hf, rfl⟩ | ⟨ht, ho⟩⟩ := appendChanged_ok ha
    · -- No row was affected, so none was demoted.
      have hnone : ¬ ∃ x ∈ t.canonical, x.hash = header.hash ∧ x.height = header.height := by
        rw [← countP_isAt_eq_one hv]
        simpa [hf] using hc
      refine Records.congr h fun hash => ⟨fun hex => ?_, fun hex => ?_⟩
      · obtain ⟨x, hx, hxh⟩ := hex
        exact ⟨x, Tables.mem_canonical_demote.2 ⟨hx, fun hat => hnone ⟨x, hx, hat⟩⟩, hxh⟩
      · obtain ⟨x, hx, hxh⟩ := hex
        exact ⟨x, (Tables.mem_canonical_demote.1 hx).1, hxh⟩
    · obtain ⟨-, -, rfl⟩ := Tables.appendOutbox_ok ho
      exact logged_rollback hv h ((countP_isAt_eq_one hv).1 (by simpa [ht] using hc.symm))
  | apply block =>
    obtain ⟨⟨c, u⟩, hu, he⟩ := ok_bind.1 he
    obtain ⟨v, hl, ha⟩ := ok_bind.1 he
    obtain ⟨-, hup⟩ := Tables.upsertBlock_ok hu
    obtain ⟨hb, ho, -⟩ := upsertLogs_frame hl
    obtain ⟨-, ⟨rfl, rfl⟩ | ⟨rfl, hap⟩⟩ := appendChanged_ok ha
    · cases hup with
      | unchanged => exact h.of_eq hb ho
    · obtain ⟨-, -, rfl⟩ := Tables.appendOutbox_ok hap
      obtain ⟨hnew, hmem⟩ := hasCanonical_upsert hv hup
      have hout : u.outbox = t.outbox := by cases hup <;> rfl
      unfold Logged
      rw [outbox_insertOutbox, ho, hout]
      refine (Records.inserted h hnew).congr fun hash => ?_
      rw [← hmem hash]
      unfold Tables.HasCanonical Tables.canonical
      rw [show (v.insertOutbox .apply block.header (some block)).blocks = u.blocks from hb]

theorem logged_applyBatch {db db' : Database} {batch : DurableChainBatch} {report : ApplyReport}
    (h : Logged db.1) (hap : applyBatch db batch = .ok (report, db')) : Logged db'.1 := by
  obtain ⟨u, c, hrun, hdb⟩ := applyBatch_events hap
  have hu : u.Valid ∧ Logged u := by
    refine runEvents_keeps (P := fun t => t.Valid ∧ Logged t) (fun t event changed t' hp he => ?_)
      ⟨db.2, h⟩ hrun
    exact ⟨valid_eventTables hp.1 he, logged_eventTables hp.1 hp.2 he⟩
  rw [hdb]
  exact hu.2.of_eq rfl rfl

end

theorem logged_empty (chainId : Nat) : Logged (Database.empty chainId).1 :=
  Records.nil (by simp [Tables.HasCanonical, Tables.canonical, Database.empty])

/-- **The outbox is an exact change log.** After any calls of `apply_batch`, from the empty tables,
the outbox replays to the hashes of the canonical rows, and no height has two of them. -/
theorem outbox_exact (chainId : Nat) (commitFaults : List (Option CommitFault))
    (batches : List DurableChainBatch) :
    let t := (runBatches { db := Database.empty chainId, commitFaults } batches).db.1
    (∃ hashes, replay ∅ (t.outbox.map OutboxRow.change) = some hashes ∧
      ∀ hash, hash ∈ hashes ↔ ∃ row ∈ t.blocks, row.isCanonical = true ∧ row.header.hash = hash) ∧
    ∀ a ∈ t.blocks, ∀ b ∈ t.blocks, a.isCanonical = true → b.isCanonical = true →
      a.header.height = b.header.height → a = b := by
  intro t
  have hlogged : Logged t :=
    runBatches_keeps (fun _ _ _ _ h hap => logged_applyBatch h hap) (logged_empty chainId) batches
  have hv : t.Valid := (runBatches { db := Database.empty chainId, commitFaults } batches).db.2
  refine ⟨?_, ?_⟩
  · obtain ⟨hashes, hreplay, hmem⟩ := hlogged
    refine ⟨hashes, hreplay, fun hash => (hmem hash).trans ?_⟩
    constructor
    · intro hex
      obtain ⟨x, hx, hxh⟩ := hex
      obtain ⟨row, hr, hc, rfl⟩ := Tables.mem_canonical.1 hx
      exact ⟨row, hr, hc, hxh⟩
    · intro hex
      obtain ⟨row, hr, hc, hxh⟩ := hex
      exact ⟨row.header, Tables.mem_canonical.2 ⟨row, hr, hc, rfl⟩, hxh⟩
  · intro a ha b hb hac hbc hheight
    have heq : a.header = b.header := hv.canonical_height _ (Tables.mem_canonical.2 ⟨a, ha, hac, rfl⟩)
      _ (Tables.mem_canonical.2 ⟨b, hb, hbc, rfl⟩) hheight
    have hnd : (t.blocks.map fun row => row.header.hash).Nodup := by
      have hkey := hv.block_key
      rwa [Tables.headers, List.map_map] at hkey
    exact List.inj_on_of_nodup_map hnd ha hb (by rw [heq])

end Chainweave.Postgres
