import Chainweave.Cli.Partition
import Chainweave.Live.Safety
import Chainweave.Sink.Extend

/-!
# A backfill beside existing rows

`run_backfill` reads the parent anchor from the node, not from the database, and the
committer writes what the coordinator hands it. So a range can end below the
canonical rows that are there, or start above them on another fork.

* `run_keeps`: what every push keeps, the run keeps.
* `Grows`: the coordinator and the tables during a run.
* `history_kept`: the canonical rows are one history afterwards exactly if the
  checkpoint was not above the range and, where the range starts on top of it, is the
  anchor the node answered.

main.rs:423-449 checks the continuity of the range itself, and that the checkpoint is
its end; not the rows next to it.
-/
namespace Chainweave.Pipeline

open Stateful HashLink Chainweave.Chain Chainweave.Backfill Chainweave.Postgres Chainweave.Rpc
  Chainweave.Fetch

variable {σ κ : Type}

/-! ## What a run keeps -/

section
variable {provider : Provider σ} {config : AdaptiveFetchConfig} {full : BackfillRange}
  {commitRange : CommitRange κ IndexedBlock}
  {P : OrderedCommitCoordinator IndexedBlock → κ → Prop} {R : FetchedRange IndexedBlock → Prop}
  {run : Run σ κ}

/-- What every push of a fetched range keeps, a round keeps; a failing sink ends the run. -/
theorem round_keeps
    (hpush : ∀ fetched c k, R fetched → P c k → wp (OrderedCommitCoordinator.push commitRange fetched)
      (fun _ s => P s.1 s.2) (fun e s => (∃ message, e = .commit message) ∨ P s.1 s.2) (c, k))
    (hfetch : ∀ range shared, wp (fetchRangeWithRetry provider range config)
      (fun fetched _ => R fetched) (fun _ _ => True) shared)
    (h : P run.coordinator run.sink) (completion : Completion) :
    wp (round provider config full commitRange completion)
      (fun _ run => P run.coordinator run.sink) (fun _ _ => True) run := by
  have h : P (run.spend completion.spent).coordinator (run.spend completion.spent).sink := h
  refine round_rule rfl (fun _ => h) (fun _ => trivial) fun range window _ _ => ?_
  refine wp_mono (hfetch range _) (fun fetched shared hR => ?_) fun e shared _ =>
    ⟨fun _ _ _ => h, fun _ => trivial⟩
  unfold pushRange
  rw [wp_bind, wp_modify, wp_bind, wp_get, wp_bind]
  refine wp_attempt (wp_zoom (wp_mono (hpush fetched _ _ hR h) (fun progress s hs => hs)
    fun e s hs => ?_))
  cases e with
  | fetchedSuffixInvalidated refetchFrom expected actual =>
    obtain ⟨message, hm⟩ | hs := hs
    · cases hm
    · exact hs
  | _ => exact trivial

/-- **What every push keeps, the run keeps**; and it ends with the coordinator complete. -/
theorem run_keeps
    (hpush : ∀ fetched c k, R fetched → P c k → wp (OrderedCommitCoordinator.push commitRange fetched)
      (fun _ s => P s.1 s.2) (fun e s => (∃ message, e = .commit message) ∨ P s.1 s.2) (c, k))
    (hfetch : ∀ range shared, wp (fetchRangeWithRetry provider range config)
      (fun fetched _ => R fetched) (fun _ _ => True) shared)
    (h : P run.coordinator run.sink) (sizer : LogRangeSizer) (completions : List Completion) :
    wp (fetchAndCommitRanges provider config full commitRange sizer completions)
      (fun progress run => P run.coordinator run.sink ∧
        (progress.isSome = true → run.coordinator.isComplete = true)) (fun _ _ => True) run := by
  unfold fetchAndCommitRanges
  rw [wp_bind, wp_modify]
  have h : P (run.onWindow fun _ => Window.start config.workers full sizer).coordinator
    (run.onWindow fun _ => Window.start config.workers full sizer).sink := h
  generalize run.onWindow (fun _ => Window.start config.workers full sizer) = run at h ⊢
  exact loop_rule (I := fun run => P run.coordinator run.sink)
    (fun completion _ hrun => round_keeps hpush hfetch hrun completion)
    (fun _ hrun _ hcomplete => ⟨hrun, fun _ => hcomplete⟩) (fun _ _ _ _ => trivial)
    (fun _ hrun => ⟨hrun, by simp⟩) h completions

end

/-! ## The blocks of the node -/

/-- Every block the node answers with is one of `V`. -/
def Serves (V : Set BlockHeader) (provider : Provider σ) : Prop :=
  ∀ range node, wp (provider.getBlocks range)
    (fun blocks _ => ∀ block, some block ∈ blocks → blockHeader block ∈ V) (fun _ _ => True) node

theorem fetchRange_supplied {V : Set BlockHeader} {provider : Provider σ} (h : Serves V provider)
    (config : AdaptiveFetchConfig) (range : BackfillRange) (shared : Shared σ) :
    wp (fetchRangeWithRetry provider range config) (fun fetched _ => Supplied V fetched)
      (fun _ _ => True) shared := by
  have hlogs : ∀ node, wp (provider.fetchAnchoredLogs range config.filter) (fun _ _ => True)
      (fun e _ => (∀ error, e = .rpc error → classifyRpcError error ≠ .permanent) → True) node := by
    intro node
    unfold wp
    split <;> simp
  have hblocks : ∀ node, wp (provider.fetchBlocksByNumber range)
      (fun blocks _ => ∀ b ∈ blocks, b.header ∈ V)
      (fun e _ => (∀ error, e = .rpc error → classifyRpcError error ≠ .permanent) → True) node := by
    intro node
    unfold Provider.fetchBlocksByNumber
    rw [wp_bind]
    refine wp_mono (h range node) (fun answers node hanswers => ?_) fun _ _ _ _ => trivial
    rw [wp_bind, wp_lift]
    refine ⟨fun rpcBlocks hrequire => ?_, fun _ _ _ => trivial⟩
    rw [wp_lift]
    refine ⟨fun blocks hconvert b hb => ?_, fun _ _ _ => trivial⟩
    have hanswered := requireBlocks_ok (mapError_ok.1 hrequire)
    have hheaders := indexedBlocks_ok (mapError_ok.1 hconvert)
    have hmem : b.header ∈ rpcBlocks.map blockHeader := hheaders ▸ List.mem_map_of_mem hb
    obtain ⟨rpcBlock, hrpc, heq⟩ := List.mem_map.1 hmem
    rw [← heq]
    exact hanswers rpcBlock (hanswered ▸ List.mem_map_of_mem hrpc)
  unfold fetchRangeWithRetry
  rw [wp_bind]
  refine wp_mono (withRetry_wp (J := fun _ => True) (Q := fun _ _ => True)
    (fun _ h => record_wp (J := fun _ => True) h) (fun node _ => hlogs node) trivial)
    (fun logs s _ => ?_) fun _ _ _ => trivial
  rw [wp_bind]
  refine wp_mono (withRetry_wp (J := fun _ => True) (Q := fun blocks _ => ∀ b ∈ blocks, b.header ∈ V)
    (fun _ h => recordEach_wp (J := fun _ => True) h) (fun node _ => hblocks node) trivial)
    (fun blocks s hmem => ?_) fun _ _ _ => trivial
  rw [wp_bind, wp_lift]
  refine ⟨fun out hout => ?_, fun _ _ => trivial⟩
  rw [wp_lift]
  refine ⟨fun fetched hfetched => ?_, fun _ _ => trivial⟩
  obtain ⟨-, hh, hl⟩ := FetchedRange.new_ok (mapError_ok.1 hfetched)
  refine ⟨fun x hx => ?_, by rw [hh, hl]⟩
  rw [hh, attachLogs_header hout] at hx
  obtain ⟨b, hb, rfl⟩ := List.mem_map.1 hx
  exact hmem b hb

/-! ## The tables during a run -/

section
variable {V : Set BlockHeader} {t : Tables} {full : BackfillRange}
  {c : OrderedCommitCoordinator IndexedBlock}
  {s : (PostgresBackfillCommitter × Server) × List (FetchedRange IndexedBlock × Bool)}

/-- The tables have grown by the committed headers; what is pending can be committed. -/
structure Grows (V : Set BlockHeader) (t : Tables) (full : BackfillRange)
    (c : OrderedCommitCoordinator IndexedBlock)
    (s : (PostgresBackfillCommitter × Server) × List (FetchedRange IndexedBlock × Bool)) : Prop where
  targetHeight : c.targetHeight = full.toBlock
  nextHeight : c.nextHeight ≤ max full.fromBlock u64Max
  pending : ∀ (key : Nat) (f : FetchedRange IndexedBlock), c.pending[key]? = some f → Supplied V f
  tables : Extends V t (committedHeaders s.2) s.1.2.db.1

theorem Grows.park {fetched : FetchedRange IndexedBlock} (h : Grows V t full c s)
    (hsupplied : Supplied V fetched) : Grows V t full (c.park fetched) s := by
  refine { h with pending := fun key f hget => ?_ }
  have hget : (c.pending.insert fetched.range.fromBlock fetched)[key]? = some f := hget
  rw [Std.TreeMap.getElem?_insert] at hget
  split at hget
  · obtain rfl := Option.some.inj hget
    exact hsupplied
  · exact h.pending key f hget

/-- The recorded committer, one range more. -/
theorem wp_recorded_commit (hV : HashId V) {fetched : FetchedRange IndexedBlock}
    (h : Extends V t (committedHeaders s.2) s.1.2.db.1) (hsupplied : Supplied V fetched) :
    wp (recorded PostgresBackfillCommitter.commitRange fetched)
      (fun _ s => Extends V t (committedHeaders s.2) s.1.2.db.1) (fun _ _ => True) s := by
  obtain ⟨⟨committer, server⟩, attempts⟩ := s
  have hwp : wp (PostgresBackfillCommitter.commitRange fetched)
      (fun _ s => Extends V t (committedHeaders attempts ++ fetched.headers) s.2.db.1)
      (fun _ _ => True) (committer, server) := commitRange_extends hV h hsupplied
  have hx : exec (recorded PostgresBackfillCommitter.commitRange fetched)
      ((committer, server), attempts) =
      ((exec (PostgresBackfillCommitter.commitRange fetched) (committer, server)).1,
        ((exec (PostgresBackfillCommitter.commitRange fetched) (committer, server)).2, attempts ++
          [(fetched, (exec (PostgresBackfillCommitter.commitRange fetched)
            (committer, server)).1.toBool)])) := rfl
  refine wp_of_eq hx (fun a ha => ?_) fun _ _ => trivial
  have hdone := wp_ok hwp (a := a) (Prod.ext ha rfl)
  rw [ha]
  show Extends V t (committedHeaders (attempts ++ [(fetched, true)])) _
  rw [committedHeaders_true]
  exact hdone

/-- **Every push keeps it**, unless the commit fails. -/
theorem Grows.push (hV : HashId V) {fetched : FetchedRange IndexedBlock} (h : Grows V t full c s)
    (hsupplied : Supplied V fetched) :
    wp (OrderedCommitCoordinator.push (recorded PostgresBackfillCommitter.commitRange) fetched)
      (fun _ s => Grows V t full s.1 s.2)
      (fun e s => (∃ message, e = .commit message) ∨ Grows V t full s.1 s.2) (c, s) := by
  refine OrderedCommitCoordinator.push_rule (fun e c' hrefused => .inr ?_) fun _ _ _ => ?_
  · cases hrefused with
    | beyond => exact h
    | stale => exact h
    | duplicate => exact h.park hsupplied
  · refine OrderedCommitCoordinator.drainLoop_wp (I := fun _ c s => Grows V t full c s) ?_ ?_ ?_
      (h.park hsupplied) (Nat.le_refl _)
    · intro _ c s f last hI hnext _ _
      refine wp_mono (wp_recorded_commit hV hI.tables (hI.pending _ f hnext)) (fun _ s' htables => ?_)
        fun e s' _ => .inl ⟨e, rfl⟩
      have hnext : satAdd last.height 1 ≤ max full.fromBlock u64Max := by
        unfold satAdd
        omega
      refine ⟨hI.targetHeight, hnext, fun key g hget => ?_, htables⟩
      exact hI.pending key g (getElem?_pop hget)
    · intro _ c s f _ _ hI _ _
      refine .inr { hI with pending := fun key g hget => ?_ }
      simp [OrderedCommitCoordinator.cleared] at hget
    · intro _ c s hI _
      exact hI

end

/-! ## Rows beside the range -/

/-- Canonical rows at adjacent heights are parent-linked. -/
def RowsLinked (t : Tables) : Prop :=
  ∀ a ∈ t.canonical, ∀ b ∈ t.canonical, b.height = a.height + 1 → b.parentHash = a.hash

/-- No canonical row lies above the checkpoint. -/
def NoRowAbove (t : Tables) : Prop :=
  ∀ c ∈ t.checkpoint, ∀ a ∈ t.canonical, a.height ≤ c.lastHeight

/-- The checkpoint is not above the range; directly below it, it is the anchor. -/
def OnTop (checkpoint : Option Checkpoint) (full : BackfillRange) (anchor : Option BlockHeader) :
    Prop :=
  ∀ c ∈ checkpoint, c.lastHeight ≤ full.toBlock ∧
    (c.lastHeight + 1 = full.fromBlock → ∀ a ∈ anchor, a.hash = c.lastHash)

/-- The chain `L` in `t`, and the committed range `C` beside it in `t'`. -/
structure Backfilled (V : Set BlockHeader) (full : BackfillRange) (anchor : Option BlockHeader)
    (t : Tables) (L C : List BlockHeader) (t' : Tables) : Prop where
  before : WellFormed V t L
  after : Extends V t C t'
  valid : t'.Valid
  linked : Linked (anchor.toList ++ C)
  heights : C.map (·.height) = full.heights
  proper : full.fromBlock ≤ full.toBlock
  unanchored : anchor = none → full.fromBlock = 0

namespace Backfilled

variable {V : Set BlockHeader} {full : BackfillRange} {anchor : Option BlockHeader} {t t' : Tables}
  {L C : List BlockHeader} (h : Backfilled V full anchor t L C t')
include h

theorem mem_canonical {x : BlockHeader} : x ∈ t'.canonical ↔ x ∈ L ∨ x ∈ C := by
  rw [h.after.canonical, h.before.canonical]

/-- A height of the range is the height of a committed block. -/
theorem exists_committed {n : Nat} (hlow : full.fromBlock ≤ n) (hhigh : n ≤ full.toBlock) :
    ∃ d ∈ C, d.height = n := by
  have hn : n ∈ C.map (·.height) := by
    rw [h.heights]
    exact mem_heights_iff.2 ⟨hlow, hhigh⟩
  exact List.mem_map.1 hn

theorem committed_height {b : BlockHeader} (hb : b ∈ C) :
    full.fromBlock ≤ b.height ∧ b.height ≤ full.toBlock := by
  have hn : b.height ∈ full.heights := h.heights ▸ List.mem_map_of_mem hb
  exact mem_heights_iff.1 hn

/-- Where the range is, the canonical rows are its blocks. -/
theorem mem_of_height {x : BlockHeader} (hx : x ∈ t'.canonical) (hlow : full.fromBlock ≤ x.height)
    (hhigh : x.height ≤ full.toBlock) : x ∈ C := by
  obtain ⟨d, hd, hheight⟩ := h.exists_committed hlow hhigh
  obtain rfl := h.valid.canonical_height d (h.mem_canonical.2 (.inr hd)) x hx hheight
  exact hd

/-- The checkpoint is the end of the range. -/
theorem checkpoint : ∃ last ∈ C, last.height = full.toBlock ∧
    t'.checkpoint = some (checkpointOf last) := by
  obtain ⟨d, hd, -⟩ := h.exists_committed (Nat.le_refl _) h.proper
  obtain ⟨last, hlast⟩ := Option.isSome_iff_exists.1
    (List.getLast?_isSome.2 (List.ne_nil_of_mem hd))
  have hmem := List.mem_of_getLast? hlast
  obtain ⟨top, htop, hheight⟩ := h.exists_committed h.proper (Nat.le_refl _)
  have hle : top.height ≤ last.height := (Linked.right h.linked).height_le hlast htop
  have hhigh := (h.committed_height hmem).2
  exact ⟨last, hmem, by omega, h.after.checkpoint last hlast⟩

/-- The first block of the range is a child of the anchor. -/
theorem first_parent {a b : BlockHeader} (ha : a ∈ anchor) (hb : b ∈ C)
    (hheight : b.height = full.fromBlock) : b.parentHash = a.hash := by
  have hlinked := h.linked
  rw [Option.mem_def.1 ha] at hlinked
  cases hC : C with
  | nil => rw [hC] at hb; cases hb
  | cons first rest =>
    rw [hC] at hlinked
    have hfirst : first ∈ C := hC ▸ List.mem_cons_self
    have hlow := (h.committed_height hfirst).1
    have heads := (List.pairwise_cons.1 (Linked.right hlinked).pairwise).1
    rw [hC] at hb
    cases List.mem_cons.1 hb with
    | inl heq => exact heq ▸ (List.isChain_cons_cons.1 hlinked).1.1
    | inr hb =>
      have hbelow : first.height < b.height := heads b hb
      omega

/-- **Beside the range** the rows stay one history exactly if the range is on top of them. -/
theorem history : RowsLinked t' ∧ NoRowAbove t' ↔ OnTop t.checkpoint full anchor := by
  obtain ⟨last, hlast, hlastHeight, hcheckpoint⟩ := h.checkpoint
  have hlinkedC : Linked C := Linked.right h.linked
  rw [h.before.checkpoint]
  cases htop : L.getLast? with
  | none =>
    -- No rows before: the range is all there is.
    have hnil : L = [] := List.getLast?_eq_none_iff.1 htop
    have hall : ∀ x, x ∈ t'.canonical → x ∈ C := by
      intro x hx
      cases h.mem_canonical.1 hx with
      | inl hx => rw [hnil] at hx; cases hx
      | inr hx => exact hx
    refine Iff.intro (fun _ c hc => by cases hc) fun _ =>
      And.intro (fun a ha b hb hheight => ?_) fun c hc a ha => ?_
    · exact (hlinkedC.isChild (hall a ha) (hall b hb) hheight).1
    · rw [hcheckpoint] at hc
      cases hc
      show a.height ≤ last.height
      rw [hlastHeight]
      exact (h.committed_height (hall a ha)).2
  | some top =>
    have hmem : top ∈ L := List.mem_of_getLast? htop
    have htopRow : top ∈ t'.canonical := h.mem_canonical.2 (.inl hmem)
    constructor
    · intro hhistory c hc
      obtain ⟨hrows, habove⟩ := hhistory
      cases hc
      refine ⟨hlastHeight ▸ habove _ hcheckpoint top htopRow, fun hadjacent a ha => ?_⟩
      obtain ⟨first, hfirst, hheight⟩ := h.exists_committed (Nat.le_refl _) h.proper
      have hchild : first.parentHash = top.hash :=
        hrows top htopRow first (h.mem_canonical.2 (.inr hfirst)) (hheight.trans hadjacent.symm)
      exact (h.first_parent ha hfirst hheight).symm.trans hchild
    · intro honTop
      obtain ⟨hle, hanchor⟩ := honTop _ rfl
      have hle : top.height ≤ full.toBlock := hle
      have hbound : ∀ x ∈ L, x.height ≤ top.height := fun x hx => h.before.linked.height_le htop hx
      constructor
      · intro a ha b hb hheight
        -- Rows within the range are its blocks, so only rows at its two ends are left.
        cases h.mem_canonical.1 ha with
        | inr haC =>
          have hlow := (h.committed_height haC).1
          have hhigh : b.height ≤ full.toBlock := by
            cases h.mem_canonical.1 hb with
            | inl hbL => have := hbound b hbL; omega
            | inr hbC => exact (h.committed_height hbC).2
          exact (hlinkedC.isChild haC (h.mem_of_height hb (by omega) hhigh) hheight).1
        | inl haL =>
          have haTop := hbound a haL
          by_cases hat : a.height = top.height
          · obtain rfl := h.before.linked.eq_of_height haL hmem hat
            cases h.mem_canonical.1 hb with
            | inl hbL => have := hbound b hbL; omega
            | inr hbC =>
              have hlow := (h.committed_height hbC).1
              by_cases hstart : b.height = full.fromBlock
              · cases hsome : anchor with
                | none => have := h.unanchored hsome; omega
                | some anchorHeader =>
                  rw [h.first_parent hsome hbC hstart]
                  exact hanchor (hheight ▸ hstart) anchorHeader hsome
              · have haC := h.mem_of_height ha (by omega) hle
                exact (hlinkedC.isChild haC hbC hheight).1
          · obtain ⟨d, hd, hdHeight⟩ := h.before.linked.exists_height haL hmem
              (n := b.height) (by show a.height ≤ _; omega) (by show _ ≤ top.height; omega)
            obtain rfl := h.valid.canonical_height d (h.mem_canonical.2 (.inl hd)) b hb hdHeight
            exact (h.before.linked.isChild haL hd hheight).1
      · intro c hc a ha
        rw [hcheckpoint] at hc
        cases hc
        show a.height ≤ last.height
        cases h.mem_canonical.1 ha with
        | inl haL => have := hbound a haL; omega
        | inr haC => have := (h.committed_height haC).2; omega

end Backfilled

section
variable {V : Set BlockHeader} {provider : Provider σ} {full : BackfillRange}
  {anchor : Option BlockHeader} {coordinator : OrderedCommitCoordinator IndexedBlock}
  {server : Server} {L : List BlockHeader}

/-- A run that committed the range. -/
theorem backfilled (hV : HashId V) (hserves : Serves V provider)
    (hnew : OrderedCommitCoordinator.new full.fromBlock full.toBlock anchor = .ok coordinator)
    (hwell : WellFormed V server.db.1 L) (config : AdaptiveFetchConfig) (sizer : LogRangeSizer)
    (completions : List Completion) (shared : Shared σ) (window : Window) :
    wp (fetchAndCommitRanges provider config full
        (recorded PostgresBackfillCommitter.commitRange) sizer completions)
      (fun progress run => progress.isSome = true →
        ∃ C, Backfilled V full anchor server.db.1 L C run.sink.1.2.db.1)
      (fun _ _ => True)
      ⟨shared, coordinator, ((PostgresBackfillCommitter.new anchor, server), []), window⟩ := by
  obtain ⟨hidle, hproper, hunanchored, -⟩ := idle_new hnew
  have hstart : Grows V server.db.1 full coordinator
      ((PostgresBackfillCommitter.new anchor, server), []) := by
    refine ⟨hidle.targetHeight, ?_, fun key f hget => ?_, extends_refl hwell.rows⟩
    · rw [hidle.nextHeight]
      exact Nat.le_max_left _ _
    · have hnone := hidle.pending key
      rw [Std.TreeMap.getElem?_eq_none hnone] at hget
      cases hget
  have hgrows : wp (fetchAndCommitRanges provider config full
        (recorded PostgresBackfillCommitter.commitRange) sizer completions)
      (fun progress run => Grows V server.db.1 full run.coordinator run.sink ∧
        (progress.isSome = true → run.coordinator.isComplete = true)) (fun _ _ => True)
      ⟨shared, coordinator, ((PostgresBackfillCommitter.new anchor, server), []), window⟩ :=
    run_keeps (P := fun c s => Grows V server.db.1 full c s)
      (fun _ _ _ hsupplied h => h.push hV hsupplied) (fetchRange_supplied hserves config) hstart
      sizer completions
  cases hrun : exec (fetchAndCommitRanges provider config full
      (recorded PostgresBackfillCommitter.commitRange) sizer completions)
      ⟨shared, coordinator, ((PostgresBackfillCommitter.new anchor, server), []), window⟩ with
  | mk r run =>
    refine wp_of_eq hrun (fun progress hok hsome => ?_) fun _ _ => trivial
    subst hok
    obtain ⟨hend, hcomplete⟩ := wp_ok hgrows hrun
    -- Complete: the target was passed, so it is not the last `u64`.
    have htarget : full.toBlock < u64Max := by
      have hpassed := hcomplete hsome
      unfold OrderedCommitCoordinator.isComplete at hpassed
      have := hend.nextHeight
      have := hend.targetHeight
      simp only [decide_eq_true_eq] at hpassed
      omega
    obtain ⟨hbalanced, hall⟩ := wp_ok (fetchAndCommitRanges_wp hnew htarget provider config
      PostgresBackfillCommitter.commitRange sizer completions shared
      (PostgresBackfillCommitter.new anchor, server) window) hrun
    obtain ⟨heights, hhas⟩ := hbalanced.has
    exact ⟨_, hwell, hend.tables, run.sink.1.2.db.2, hhas.inOrder.linked, hall hsome, hproper,
      hunanchored⟩

/-- **A backfill keeps one history** exactly if the checkpoint was not above the range, and was the
anchor where the range starts on top of it: whatever rows there were, whatever the node answers. -/
theorem history_kept (hV : HashId V) (hserves : Serves V provider)
    (hnew : OrderedCommitCoordinator.new full.fromBlock full.toBlock anchor = .ok coordinator)
    (hwell : WellFormed V server.db.1 L) (config : AdaptiveFetchConfig) (sizer : LogRangeSizer)
    (completions : List Completion) (shared : Shared σ) (window : Window)
    {progress : CommitProgress}
    {run : Run σ ((PostgresBackfillCommitter × Server) × List (FetchedRange IndexedBlock × Bool))}
    (hrun : exec (fetchAndCommitRanges provider config full
        (recorded PostgresBackfillCommitter.commitRange) sizer completions)
      ⟨shared, coordinator, ((PostgresBackfillCommitter.new anchor, server), []), window⟩ =
        (.ok (some progress), run)) :
    RowsLinked run.sink.1.2.db.1 ∧ NoRowAbove run.sink.1.2.db.1 ↔
      OnTop server.db.1.checkpoint full anchor := by
  obtain ⟨C, h⟩ := wp_ok (backfilled hV hserves hnew hwell config sizer completions shared window)
    hrun rfl
  exact h.history

/-- A chain with the hash `n + 1` at height `n`. -/
def shortChain : List BlockHeader := (List.range 4).map fun n => ⟨(n + 1 : Nat), (n : Nat), n⟩

theorem shortChain_hashId : HashId {x | x ∈ shortChain} := by
  have h : ∀ x ∈ shortChain, ∀ y ∈ shortChain, x.hash = y.hash → x = y := by decide
  exact fun x hx y hy hh => h x hx y hy hh

/-- A node on this chain, with no logs. -/
def shortAnswers : Provider Unit where
  getLogs _ _ := pure []
  getBlocks range := pure (range.heights.map fun n =>
    shortChain[n]?.map fun header => ⟨header.hash, header.parentHash, header.height, 0⟩)

theorem shortAnswers_serves : Serves {x | x ∈ shortChain} shortAnswers := by
  intro range node
  show ∀ block, some block ∈ _ → _
  intro block hblock
  obtain ⟨n, -, hn⟩ := List.mem_map.1 hblock
  obtain ⟨header, hget, rfl⟩ := Option.map_eq_some_iff.1 hn
  exact List.mem_of_getElem? hget

/-- The first blocks of the chain, stored. -/
def shortServer (count : Nat) : Server where
  db := Live.storeOf (shortChain.take count)

theorem wellFormed_short {count : Nat} (hcount : 0 < count) :
    WellFormed {x | x ∈ shortChain} (shortServer count).db.1 (shortChain.take count) := by
  have hlinked : Linked shortChain := by decide
  have hheights : ∀ x ∈ shortChain, x.height ≤ bigintMax := by decide
  refine Live.storeOf_wellFormed shortChain_hashId ?_ ?_ (fun x hx => List.mem_of_mem_take hx)
    fun x hx => hheights x (List.mem_of_mem_take hx)
  · cases count with
    | zero => exact absurd hcount (Nat.lt_irrefl 0)
    | succ count => simp [shortChain, List.range_succ_eq_map]
  · rw [← List.take_append_drop count shortChain] at hlinked
    exact hlinked.left

/-- One block is backfilled beside the first blocks of the chain. -/
def shortRun (count height : Nat) : Except PipelineError (Option CommitProgress) ×
    Run Unit ((PostgresBackfillCommitter × Server) × List (FetchedRange IndexedBlock × Bool)) :=
  exec (fetchAndCommitRanges shortAnswers twoWorkers ⟨height, height⟩
      (recorded PostgresBackfillCommitter.commitRange) twoBlockSizer [⟨0, [], false⟩])
    ⟨⟨some roomyBudget, ()⟩, ⟨height, height, shortChain[height - 1]?, ∅⟩,
      ((PostgresBackfillCommitter.new shortChain[height - 1]?, shortServer count), []),
      { nextUnallocated := 0, sizer := twoBlockSizer }⟩

theorem shortRun_ok {count height : Nat}
    (h : ((shortRun count height).1.toOption.any (·.isSome)) = true) :
    ∃ progress run, shortRun count height = (.ok (some progress), run) := by
  cases hrun : shortRun count height with
  | mk r run =>
    rw [hrun] at h
    cases r with
    | error e => cases h
    | ok progress =>
      cases progress with
      | none => cases h
      | some progress => exact ⟨progress, run, rfl⟩

/-- `history_kept` for the block on top of two. -/
theorem history_kept_top : RowsLinked (shortRun 2 2).2.sink.1.2.db.1 ∧
    NoRowAbove (shortRun 2 2).2.sink.1.2.db.1 := by
  obtain ⟨progress, run, hrun⟩ := @shortRun_ok 2 2 (by decide +kernel)
  rw [hrun]
  unfold shortRun at hrun
  refine (history_kept shortChain_hashId shortAnswers_serves rfl (wellFormed_short (by decide))
    twoWorkers twoBlockSizer [⟨0, [], false⟩] _ _ hrun).2 fun c hc => ?_
  have hcheckpoint : (shortServer 2).db.1.checkpoint = some ⟨1, 2⟩ := by decide +kernel
  rw [hcheckpoint] at hc
  cases hc
  refine ⟨by decide, fun _ a ha => ?_⟩
  cases ha
  rfl

/-- Three blocks are stored and the one at height 1 is backfilled again: the checkpoint moves down to
it, and the canonical row at height 2 is above. -/
theorem history_broken :
    OrderedCommitCoordinator.new 1 1 shortChain[0]? =
        .ok (⟨1, 1, shortChain[0]?, ∅⟩ : OrderedCommitCoordinator IndexedBlock) ∧
      WellFormed {x | x ∈ shortChain} (shortServer 3).db.1 (shortChain.take 3) ∧
      ((shortRun 3 1).1.toOption.any (·.isSome)) = true ∧
      (shortRun 3 1).2.sink.1.2.db.1.checkpoint = some ⟨1, 2⟩ ∧
      ¬ NoRowAbove (shortRun 3 1).2.sink.1.2.db.1 := by
  have hcheckpoint : (shortRun 3 1).2.sink.1.2.db.1.checkpoint = some ⟨1, 2⟩ := by decide +kernel
  have hrow : ⟨3, 2, 2⟩ ∈ (shortRun 3 1).2.sink.1.2.db.1.canonical := by decide +kernel
  refine ⟨rfl, wellFormed_short (by decide), by decide +kernel, hcheckpoint, fun h => ?_⟩
  have habove := h _ hcheckpoint _ hrow
  exact absurd habove (by decide)

end

end Chainweave.Pipeline
