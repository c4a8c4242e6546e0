import Chainweave.Core.Ranges
import Chainweave.Cli.Pipeline

/-!
# Two ways to cut a range

`crates/chainweave-cli/src/main.rs`: `enqueue_chunks_front` cuts a range as
`RangePlanner::plan` does, and pushes the chunks in front of a queue, last one first.

* `enqueueChecked`: the function as the machine runs it.
* `split_partition`: both ways give the same partition, up to `u64::MAX`, and the queue
  behind it stays.
-/
namespace Chainweave.Pipeline

open Chainweave.Backfill

/-- The loop of `enqueue_chunks_front`: `none` if it overflows, or has not ended after so many rounds.
mirrors crates/chainweave-cli/src/main.rs:1062-1075 -/
def chunksChecked (toBlock chunkSize : Nat) : Nat → Nat → Option (List BackfillRange)
  | 0, _ => none
  | rounds + 1, fromBlock =>
    if toBlock < fromBlock then some []
    else do
      let last := min (satAdd fromBlock (chunkSize - 1)) toBlock
      if last = u64Max then return [⟨fromBlock, last⟩]
      let chunks ← chunksChecked toBlock chunkSize rounds (← checkedAdd last 1)
      return ⟨fromBlock, last⟩ :: chunks

/-- mirrors crates/chainweave-cli/src/main.rs:1052-1079 -/
def enqueueChecked (rounds : Nat) (queued : List BackfillRange) (fromBlock toBlock chunkSize : Nat) :
    Option (List BackfillRange) :=
  if toBlock < fromBlock then some queued
  else (chunksChecked toBlock chunkSize rounds fromBlock).map fun chunks =>
    chunks.reverse.foldl (fun queued chunk => chunk :: queued) queued

section
variable {fromBlock toBlock chunkSize : Nat}

theorem chunksFrom_eq (left : Nat) :
    chunksFrom toBlock chunkSize left fromBlock =
      RangePlanner.planFrom toBlock chunkSize left fromBlock := by
  induction left generalizing fromBlock with
  | zero => rfl
  | succ left ih =>
    unfold chunksFrom RangePlanner.planFrom
    dsimp only
    rw [ih]

theorem chunksChecked_eq (hsize : 0 < chunkSize) (rounds : Nat) :
    chunksChecked toBlock chunkSize rounds fromBlock =
      RangePlanner.planChecked toBlock chunkSize rounds fromBlock := by
  induction rounds generalizing fromBlock with
  | zero => rfl
  | succ rounds ih =>
    unfold chunksChecked RangePlanner.planChecked
    rw [checkedSub_some hsize]
    simp only [ih]
    rfl

/-- Pushed in front one by one, the last one first, the chunks stand in front in their order. -/
theorem pushFront_eq (chunks queued : List BackfillRange) :
    chunks.reverse.foldl (fun queued chunk => chunk :: queued) queued = chunks ++ queued := by
  rw [List.foldl_reverse, List.foldr_cons_eq_append']

end

/-- **Range splitting is an exact partition.** Up to `u64::MAX`, and for every chunk size, the ranges of
a plan are a partition; `enqueue_chunks_front` puts the same ranges before the old queue; and both
loops end without overflow. -/
theorem split_partition {fromBlock toBlock chunkSize workers : Nat} (hto : toBlock ≤ u64Max)
    (hsize : 0 < chunkSize) (hworkers : 0 < workers) (queued : List BackfillRange) :
    ∃ planner, RangePlanner.new chunkSize workers = .ok planner ∧
      ∃ ranges, (planner.plan ⟨fromBlock, toBlock⟩).requestRanges = ranges ∧
        enqueueChunksFront queued fromBlock toBlock chunkSize = ranges ++ queued ∧
        Partition fromBlock toBlock chunkSize ranges ∧
        ∃ rounds : Nat, RangePlanner.planChecked toBlock chunkSize rounds fromBlock = some ranges ∧
          enqueueChecked rounds queued fromBlock toBlock chunkSize = some (ranges ++ queued) := by
  have hnew : RangePlanner.new chunkSize workers =
      .ok ⟨chunkSize, workers, hsize, hworkers⟩ := by
    unfold RangePlanner.new
    rw [dif_neg (by omega), dif_neg (by omega)]
  have hchecked := @planChecked_eq fromBlock toBlock chunkSize hsize hto _ (Nat.le_refl _)
  refine ⟨_, hnew, _, rfl, ?_, planFrom_partition hsize hto (Nat.le_refl _), _, hchecked, ?_⟩
  · unfold enqueueChunksFront
    rw [chunksFrom_eq]
    rfl
  · unfold enqueueChecked
    rw [chunksChecked_eq hsize, hchecked]
    split
    · next hempty =>
      have hnone : toBlock + 1 - fromBlock = 0 := by omega
      show some queued = some (RangePlanner.planFrom toBlock chunkSize (toBlock + 1 - fromBlock)
        fromBlock ++ queued)
      rw [hnone]
      rfl
    · rw [Option.map_some, pushFront_eq]
      rfl

/-- `split_partition` for the last three heights, in chunks of two before a queued range. -/
theorem split_partition_last :
    ∃ planner, RangePlanner.new 2 1 = .ok planner ∧
      (planner.plan ⟨u64Max - 2, u64Max⟩).requestRanges =
        [⟨u64Max - 2, u64Max - 1⟩, ⟨u64Max, u64Max⟩] ∧
      enqueueChunksFront [⟨0, 9⟩] (u64Max - 2) u64Max 2 =
        [⟨u64Max - 2, u64Max - 1⟩, ⟨u64Max, u64Max⟩, ⟨0, 9⟩] ∧
      Partition (u64Max - 2) u64Max 2 [⟨u64Max - 2, u64Max - 1⟩, ⟨u64Max, u64Max⟩] := by
  obtain ⟨planner, hnew, ranges, hranges, hqueue, hpartition, -⟩ :=
    @split_partition (u64Max - 2) u64Max 2 1 (Nat.le_refl _) Nat.two_pos Nat.one_pos [⟨0, 9⟩]
  cases hnew
  have hplan : ranges = [⟨u64Max - 2, u64Max - 1⟩, ⟨u64Max, u64Max⟩] := hranges ▸ by decide
  subst hplan
  exact ⟨_, rfl, hranges, hqueue, hpartition⟩

end Chainweave.Pipeline
