import Chainweave.Sink.Durable
import Chainweave.Sink.Server

/-!
# The checkpoint names a canonical block

Every committed batch ends with a move of the checkpoint, and `move_checkpoint`
looks for a canonical row once more, after all events of the batch.

* `NamesAncestor`: a batch with a rollback names a common ancestor.
* `finalTarget_isSome`: such a batch, if it has events, has a target at the end.
* `checkpoint_canonical`: so after any calls of `apply_batch` the checkpoint is a
  canonical row, whatever the events and however the calls fail.
-/
namespace Chainweave.Postgres

open Stateful Chainweave.Chain

/-- The batch names a common ancestor if it rolls back. -/
def NamesAncestor (batch : DurableChainBatch) : Prop :=
  ∀ header, .rollback header ∈ batch.events → batch.commonAncestor.isSome = true

/-- The checkpoint, if there is one, is a canonical row. -/
def CheckpointCanonical (t : Tables) : Prop :=
  ∀ c ∈ t.checkpoint, ∃ row ∈ t.blocks,
    row.header.hash = c.lastHash ∧ row.header.height = c.lastHeight ∧ row.isCanonical = true

theorem finalTarget_isSome {batch : DurableChainBatch} (hne : batch.isEmpty = false)
    (h : NamesAncestor batch) : (finalTarget batch.commonAncestor batch.events).isSome = true := by
  have hnil : batch.events ≠ [] := by
    intro hnil
    rw [DurableChainBatch.isEmpty, hnil] at hne
    cases hne
  obtain ⟨event, hlast⟩ := Option.isSome_iff_exists.1 (List.getLast?_isSome.2 hnil)
  unfold finalTarget
  rw [hlast]
  cases event with
  | apply block => rfl
  | rollback header => exact h header (List.mem_of_getLast? hlast)

/-- A target moved to is a canonical row. -/
theorem checkpointCanonical_moved {t t' : Tables} {target : BlockHeader}
    (h : t.moveCheckpoint target = .ok t') : CheckpointCanonical t' := by
  obtain ⟨-, ⟨a, ha, hhash, hheight⟩, rfl⟩ := Tables.moveCheckpoint_ok h
  obtain ⟨row, hr, hcan, rfl⟩ := Tables.mem_canonical.1 ha
  intro c hc
  obtain rfl := Option.some.inj hc
  exact ⟨row, hr, hhash, hheight, hcan⟩

/-- **A commit leaves the checkpoint on a canonical row**, wherever it was before. -/
theorem checkpointCanonical_applyBatch {db db' : Database} {batch : DurableChainBatch}
    {report : ApplyReport} (hnames : NamesAncestor batch) (h : CheckpointCanonical db.1)
    (hap : applyBatch db batch = .ok (report, db')) : CheckpointCanonical db'.1 := by
  cases hne : batch.isEmpty with
  | true =>
    rw [applyBatch_empty db hne] at hap
    cases hap
    exact h
  | false =>
    obtain ⟨u, -, hmove⟩ := applyTables_ok_iff.1 ⟨report, (applyBatch_ok hne).1 hap⟩
    obtain ⟨target, htarget⟩ := Option.isSome_iff_exists.1 (finalTarget_isSome hne hnames)
    rw [htarget] at hmove
    exact checkpointCanonical_moved hmove

/-- **The checkpoint always names a canonical block.** After any calls of `apply_batch` from the
empty tables, failing or not, with any events in any order, if a batch with a rollback names a
common ancestor. -/
theorem checkpoint_canonical (chainId : Nat) (commitFaults : List (Option CommitFault))
    (batches : List DurableChainBatch) (hnames : ∀ batch ∈ batches, NamesAncestor batch) :
    CheckpointCanonical (runBatches { db := Database.empty chainId, commitFaults } batches).db.1 := by
  refine runBatches_keeps_of (P := fun db => CheckpointCanonical db.1)
    (fun db batch hb report db' hp hap => checkpointCanonical_applyBatch (hnames batch hb) hp hap) ?_
  intro c hc
  cases hc

/-- A block without logs. -/
def bareBlock (header : BlockHeader) : IndexedBlock where
  header := header
  timestamp := 0
  status := .Unsafe
  statusSource := .Observed
  logs := []

/-- Two blocks, then the second rolled back and not replaced. -/
def rolledBack : List DurableChainBatch :=
  [ { transition := .bootstrap, commonAncestor := none,
      events := [.apply (bareBlock ⟨1, 0, 0⟩), .apply (bareBlock ⟨2, 1, 1⟩)] },
    { transition := .reorg, commonAncestor := some ⟨1, 0, 0⟩, events := [.rollback ⟨2, 1, 1⟩] } ]

/-- `checkpoint_canonical` where the block the checkpoint named is rolled back. -/
theorem checkpoint_canonical_rolledBack :
    (runBatches { db := Database.empty 1, commitFaults := [] } rolledBack).db.1.checkpoint =
      some { lastHeight := 0, lastHash := 1 } ∧
    CheckpointCanonical (runBatches { db := Database.empty 1, commitFaults := [] } rolledBack).db.1 := by
  refine ⟨by decide +kernel, checkpoint_canonical 1 [] rolledBack ?_⟩
  intro batch hb header hr
  simp only [rolledBack, List.mem_cons, List.not_mem_nil, or_false] at hb
  rcases hb with rfl | rfl
  · simp at hr
  · rfl

end Chainweave.Postgres
