import Chainweave.Cli.History

/-!
# Backfill progress

`push_async` drops its progress when a parked range does not link, also if it committed
others before; `record_partial_commit_before_invalidation` then knows two heights only.

* `line`: what is ready at `next_height`, and whether a range that does not link stands
  behind it.
* `push_line`: a push commits its line. The ranges of a line that breaks are `dropped`
  from the progress: they count as one range, without their logs.
* `progress_exact_iff`: the progress is exact exactly if no push dropped any. The blocks
  and the last height are right in every run, and `next_height - 1` never underflows.
-/
namespace Chainweave.Backfill

open Stateful Chainweave.Chain

variable {L κ : Type}

namespace OrderedCommitCoordinator

/-! ## The ready line -/

/-- The ranges to commit one after the other, and whether the next one does not link. -/
def lineFrom : Nat → OrderedCommitCoordinator L → List (FetchedRange L) × Bool
  | 0, _ => ([], false)
  | left + 1, self =>
    match self.pending[self.nextHeight]? with
    | none => ([], false)
    | some fetched =>
      match (self.pop.validateReadyRange fetched).1 with
      | .ok last =>
        let behind := lineFrom left (self.pop.advance last)
        (fetched :: behind.1, behind.2)
      | .error _ => ([], true)

/-- The line of a coordinator, at most as long as there are pending ranges. -/
def line (self : OrderedCommitCoordinator L) : List (FetchedRange L) × Bool :=
  lineFrom self.pending.size self

section
variable {c : OrderedCommitCoordinator L} {fetched : FetchedRange L} {last : BlockHeader}

theorem line_none (hnext : c.pending[c.nextHeight]? = none) : c.line = ([], false) := by
  unfold line
  cases c.pending.size with
  | zero => rfl
  | succ left =>
    unfold lineFrom
    rw [hnext]

theorem line_some (hnext : c.pending[c.nextHeight]? = some fetched) :
    c.line = match (c.pop.validateReadyRange fetched).1 with
      | .ok last => (fetched :: (c.pop.advance last).line.1, (c.pop.advance last).line.2)
      | .error _ => ([], true) := by
  have hsize := size_pop hnext
  unfold line
  rw [← hsize, lineFrom, hnext]
  rfl

theorem line_links (hnext : c.pending[c.nextHeight]? = some fetched)
    (hlast : fetched.headers.getLast? = some last) (hlinks : c.Links fetched) :
    c.line = (fetched :: (c.pop.advance last).line.1, (c.pop.advance last).line.2) := by
  rw [line_some hnext]
  obtain ⟨last', hlast', -, hv⟩ | ⟨_, _, _, hbroken, -⟩ := validateReadyRange_cases c.pop fetched
  · rw [hlast] at hlast'
    obtain rfl := Option.some.inj hlast'
    rw [hv]
  · exact absurd hlinks hbroken.not_links

theorem line_broken {expected actual : BlockHash} (hnext : c.pending[c.nextHeight]? = some fetched)
    (hbroken : c.Broken fetched expected actual) : c.line = ([], true) := by
  rw [line_some hnext]
  obtain ⟨_, -, hlinks, -⟩ | ⟨_, _, _, -, -, hv⟩ := validateReadyRange_cases c.pop fetched
  · exact absurd hlinks hbroken.not_links
  · rw [hv]

/-- The line is taken from the pending ranges. -/
theorem mem_line {left : Nat} (h : fetched ∈ (lineFrom left c).1) :
    ∃ key : Nat, c.pending[key]? = some fetched := by
  induction left generalizing c with
  | zero => cases h
  | succ left ih =>
    unfold lineFrom at h
    cases hnext : c.pending[c.nextHeight]? with
    | none => rw [hnext] at h; cases h
    | some f =>
      rw [hnext] at h
      dsimp only at h
      cases hv : (c.pop.validateReadyRange f).1 with
      | error e => rw [hv] at h; cases h
      | ok last =>
        rw [hv] at h
        cases List.mem_cons.1 h with
        | inl heq => exact ⟨c.nextHeight, heq ▸ hnext⟩
        | inr hbehind =>
          obtain ⟨key, hkey⟩ := ih hbehind
          exact ⟨key, getElem?_pop hkey⟩

end

end OrderedCommitCoordinator

/-! ## What a push commits -/

/-- The ranges committed, in commit order. -/
def commits (attempts : List (FetchedRange L × Bool)) : List (FetchedRange L) :=
  (attempts.filter (·.2)).map (·.1)

section
variable {attempts : List (FetchedRange L × Bool)} {ranges : List (FetchedRange L)}

theorem commits_append :
    commits (attempts ++ ranges.map (·, true)) = commits attempts ++ ranges := by
  unfold commits
  rw [List.filter_append, List.map_append]
  congr 1
  induction ranges with
  | nil => rfl
  | cons fetched ranges ih => simpa using ih

theorem committedHeaders_eq : committedHeaders attempts = (commits attempts).flatMap (·.headers) := by
  unfold committedHeaders commits
  rw [List.flatMap_map]

/-- A push commits its line; it fails over the suffix exactly if the line breaks. -/
theorem push_line {commitRange : CommitRange κ L} {c : OrderedCommitCoordinator L}
    (fetched : FetchedRange L) (k : κ) :
    wp (OrderedCommitCoordinator.push (recorded commitRange) fetched)
      (fun progress s => (c.park fetched).line.2 = false ∧ progress = totals (c.park fetched).line.1 ∧
        commits s.2.2 = commits attempts ++ (c.park fetched).line.1)
      (fun e s => ∀ refetchFrom expected actual,
        e = .fetchedSuffixInvalidated refetchFrom expected actual →
          (c.park fetched).line.2 = true ∧
            commits s.2.2 = commits attempts ++ (c.park fetched).line.1)
      (c, (k, attempts)) := by
  refine OrderedCommitCoordinator.push_rule (fun e c' hrefused => ?_) fun _ _ _ => ?_
  · intro refetchFrom expected actual he
    subst he
    cases hrefused
  · -- What is committed so far and what is still in line make up the line at the start.
    refine OrderedCommitCoordinator.drainLoop_wp (I := fun progress c' s => ∃ done,
      progress = totals done ∧ s.2 = attempts ++ done.map (·, true) ∧
        (c.park fetched).line = (done ++ c'.line.1, c'.line.2)) ?_ ?_ ?_
      ⟨[], rfl, by simp, by simp⟩ (Nat.le_refl _)
    · intro progress c' s f last hI hnext hlast hlinks
      obtain ⟨done, hprogress, hattempts, hline⟩ := hI
      obtain ⟨k', noted⟩ := s
      refine wp_recorded (fun _ => ⟨done ++ [f], ?_, ?_, ?_⟩) fun _ _ _ _ _ he => ?_
      · rw [hprogress, totals_concat hlast]
      · rw [show noted = attempts ++ done.map (·, true) from hattempts]
        simp
      · rw [hline, OrderedCommitCoordinator.line_links hnext hlast hlinks]
        simp
      · cases he
    · intro progress c' s f expected actual hI hnext hbroken _ _ _ _
      obtain ⟨done, -, hattempts, hline⟩ := hI
      rw [OrderedCommitCoordinator.line_broken hnext hbroken, List.append_nil] at hline
      refine ⟨by rw [hline], ?_⟩
      rw [hattempts, commits_append, hline]
    · intro progress c' s hI hnone
      obtain ⟨done, hprogress, hattempts, hline⟩ := hI
      rw [OrderedCommitCoordinator.line_none hnone, List.append_nil] at hline
      refine ⟨by rw [hline], by rw [hprogress, hline], ?_⟩
      rw [hattempts, commits_append, hline]

end

end Chainweave.Backfill

namespace Chainweave.Pipeline

open Stateful Chainweave.Chain Chainweave.Backfill Chainweave.Postgres Chainweave.Rpc
  Chainweave.Fetch

variable {σ κ : Type}

/-! ## The pushes of a run -/

/-- A push: the coordinator and the sink before it, and the range. -/
structure Push (κ : Type) where
  coordinator : OrderedCommitCoordinator IndexedBlock
  sink : κ
  fetched : FetchedRange IndexedBlock

/-- What the push returns. -/
def Push.outcome (commitRange : CommitRange κ IndexedBlock) (push : Push κ) :
    Except BackfillError CommitProgress × OrderedCommitCoordinator IndexedBlock × κ :=
  exec (OrderedCommitCoordinator.push commitRange push.fetched) (push.coordinator, push.sink)

/-- The ranges that are in line before the one that does not link. -/
def Push.dropped (push : Push κ) : List (FetchedRange IndexedBlock) :=
  let line := (push.coordinator.park push.fetched).line
  if line.2 then line.1 else []

section
variable (provider : Provider σ) (config : AdaptiveFetchConfig) (full : BackfillRange)
  (commitRange : CommitRange κ IndexedBlock)

/-- The push of one round, if its task brings a range. -/
def pushOf (completion : Completion) (run : Run σ κ) : Option (Push κ) :=
  let run := run.spend completion.spent
  match run.window.joinNext completion.task with
  | none => none
  | some (range, _) =>
    if completion.panicked then none
    else
      match (exec (fetchRangeWithRetry provider range config) run.shared).1 with
      | .ok fetched => some ⟨run.coordinator, run.sink, fetched⟩
      | .error _ => none

/-- The pushes of a run, in order. -/
def pushesOf : List Completion → Run σ κ → List (Push κ)
  | [], _ => []
  | completion :: completions, run =>
    if run.window.joinSet.isEmpty then []
    else (pushOf provider config completion run).toList ++
      match exec (round provider config full commitRange completion) run with
      | (.ok _, run) => pushesOf completions run
      | (.error _, _) => []

end

/-- The progress is what was committed, up to the end of the range. -/
structure Exact (full : BackfillRange) (attempts : List (FetchedRange IndexedBlock × Bool))
    (progress : CommitProgress) : Prop where
  ranges : progress.committedRanges = (commits attempts).length
  blocks : progress.committedBlocks = ((commits attempts).map (·.headers.length)).sum
  logs : progress.committedLogs = ((commits attempts).map (·.logs.length)).sum
  lastHeight : progress.lastCommittedHeight = some full.toBlock

/-- The progress so far, short of the dropped ranges but for one of each push. -/
structure Counted (dropped : List (List (FetchedRange IndexedBlock))) (progress : CommitProgress)
    (attempts : List (FetchedRange IndexedBlock × Bool)) : Prop where
  ranges : progress.committedRanges + (dropped.map (·.length - 1)).sum = (commits attempts).length
  blocks : progress.committedBlocks = ((commits attempts).map (·.headers.length)).sum
  logs : progress.committedLogs +
    (dropped.map fun ranges => (ranges.map (·.logs.length)).sum).sum =
      ((commits attempts).map (·.logs.length)).sum
  lastHeight : progress.lastCommittedHeight = (committedHeaders attempts).getLast?.map (·.height)

section
variable {dropped : List (List (FetchedRange IndexedBlock))} {progress : CommitProgress}
  {attempts attempts' : List (FetchedRange IndexedBlock × Bool)}
  {ready : List (FetchedRange IndexedBlock)}

theorem sum_len : (ready.map (·.range.len)).sum = (ready.map (·.headers.length)).sum := by
  congr 1
  exact List.map_congr_left fun f _ => f.length_headers.symm

theorem length_committedHeights :
    (committedHeights attempts).length = ((commits attempts).map (·.headers.length)).sum := by
  unfold committedHeights
  rw [List.length_map, committedHeaders_eq, List.length_flatMap]

/-- What a push reports is counted whole. -/
theorem Counted.merge (h : Counted dropped progress attempts)
    (hcommits : commits attempts' = commits attempts ++ ready) :
    Counted (dropped ++ [[]]) (mergeProgress progress (totals ready)) attempts' := by
  have hranges := h.ranges
  have hlogs := h.logs
  refine ⟨?_, ?_, ?_, ?_⟩
  · rw [hcommits, List.length_append, List.map_append, List.sum_append]
    simp [mergeProgress, totals]
    omega
  · show progress.committedBlocks + (ready.map (·.range.len)).sum = _
    rw [hcommits, List.map_append, List.sum_append, h.blocks, sum_len]
  · rw [hcommits, List.map_append, List.sum_append, List.map_append, List.sum_append]
    simp [mergeProgress, totals]
    omega
  · show ((ready.flatMap (·.headers)).getLast?.map (·.height)).or progress.lastCommittedHeight = _
    rw [committedHeaders_eq, hcommits, List.flatMap_append, List.getLast?_append, Option.map_or,
      h.lastHeight, committedHeaders_eq]

/-- What a broken push committed is one range more, with its blocks and without its logs. -/
theorem Counted.recordPartial {before after : Nat} (h : Counted dropped progress attempts)
    (hcommits : commits attempts' = commits attempts ++ ready)
    (hmoved : after = before + (ready.map (·.headers.length)).sum)
    (hlast : before < after →
      (committedHeaders attempts').getLast?.map (·.height) = some (after - 1)) :
    Counted (dropped ++ [ready]) (recordPartialCommitBeforeInvalidation progress before after)
      attempts' := by
  have hranges := h.ranges
  have hblocks := h.blocks
  have hlogs := h.logs
  unfold recordPartialCommitBeforeInvalidation
  cases ready with
  | nil =>
    have hstill : after ≤ before := by
      simp at hmoved
      omega
    rw [List.append_nil] at hcommits
    rw [if_pos hstill]
    refine ⟨?_, ?_, ?_, ?_⟩
    · rw [hcommits]
      simpa using hranges
    · rw [hcommits, hblocks]
    · rw [hcommits]
      simpa using hlogs
    · rw [h.lastHeight, committedHeaders_eq, committedHeaders_eq, hcommits]
  | cons f rest =>
    have hforth : before < after := by
      have hpos : 0 < f.headers.length := f.length_headers ▸ f.range.len_pos
      rw [List.map_cons, List.sum_cons] at hmoved
      omega
    rw [if_neg (by omega)]
    refine ⟨?_, ?_, ?_, (hlast hforth).symm⟩
    · rw [hcommits, List.length_append, List.map_append, List.sum_append]
      simp
      omega
    · rw [hcommits, List.map_append, List.sum_append]
      show progress.committedBlocks + (after - before) = _
      omega
    · rw [hcommits, List.map_append, List.sum_append, List.map_append, List.sum_append]
      simp
      omega

/-- Nothing dropped counts nothing. -/
theorem sum_of_none {f : List (FetchedRange IndexedBlock) → Nat}
    (hnone : ∀ ranges ∈ dropped, ranges = []) (hnil : f [] = 0) : (dropped.map f).sum = 0 := by
  refine List.sum_eq_zero_iff_forall_eq_nat.2 fun n hn => ?_
  obtain ⟨ranges, hmem, rfl⟩ := List.mem_map.1 hn
  rw [hnone ranges hmem, hnil]

/-- Once all is committed, the progress is exact exactly if nothing was dropped. -/
theorem Counted.exact_iff {full : BackfillRange} (h : Counted dropped progress attempts)
    (hall : committedHeights attempts = full.heights) (hle : full.fromBlock ≤ full.toBlock)
    (hcarry : ∀ ranges ∈ dropped, ∀ f ∈ ranges, f.logs ≠ []) :
    Exact full attempts progress ↔ ∀ ranges ∈ dropped, ranges = [] := by
  have hranges := h.ranges
  have hlogs := h.logs
  constructor
  · intro hexact ranges hmem
    have hsum : (dropped.map fun ranges => (ranges.map (·.logs.length)).sum).sum = 0 := by
      have := hexact.logs
      omega
    have hzero := List.sum_eq_zero_iff_forall_eq_nat.1 hsum _ (List.mem_map_of_mem hmem)
    cases ranges with
    | nil => rfl
    | cons f rest =>
      have hf := List.sum_eq_zero_iff_forall_eq_nat.1 hzero _
        (List.mem_map_of_mem List.mem_cons_self)
      exact absurd (List.length_eq_zero_iff.1 hf) (hcarry _ hmem f List.mem_cons_self)
  · intro hnone
    have hsumRanges : (dropped.map (·.length - 1)).sum = 0 := sum_of_none hnone rfl
    have hsumLogs : (dropped.map fun ranges => (ranges.map (·.logs.length)).sum).sum = 0 :=
      sum_of_none hnone rfl
    refine ⟨by omega, h.blocks, by omega, ?_⟩
    have hall : (committedHeaders attempts).map (·.height) = full.heights := hall
    rw [h.lastHeight, ← List.getLast?_map, hall]
    unfold BackfillRange.heights
    rw [List.getLast?_range', if_neg (by omega)]
    congr 1
    omega

end

section
variable {full : BackfillRange} {anchor : Option BlockHeader} {run : RecordedRun σ κ}
  {dropped : List (List (FetchedRange IndexedBlock))} {commitRange : CommitRange κ IndexedBlock}
  {fetched : FetchedRange IndexedBlock}

/-- The last committed height is the one below `next_height`. -/
theorem lastHeight_eq {c : OrderedCommitCoordinator IndexedBlock} {heights : List Nat}
    {attempts : List (FetchedRange IndexedBlock × Bool)} (hhas : Has full anchor heights c attempts)
    (hle : full.fromBlock ≤ full.toBlock) (htarget : full.toBlock < u64Max)
    (hsub : ∀ n ∈ heights, n ≤ full.toBlock) (hsome : full.fromBlock < c.nextHeight) :
    (committedHeaders attempts).getLast?.map (·.height) = some (c.nextHeight - 1) := by
  obtain ⟨-, -, hcommitted⟩ := hhas.nextHeight hle htarget hsub
  have hlast := congrArg List.getLast? hcommitted
  unfold committedHeights at hlast
  rw [List.getLast?_map, List.getLast?_range', if_neg (by omega)] at hlast
  rw [hlast]
  congr 1
  omega

/-- **A push** drops what stands in line before a break. -/
theorem pushRange_counted {range : BackfillRange}
    (hc : Counted dropped run.window.progress run.sink.2) (h : Joined full anchor range run)
    (hle : full.fromBlock ≤ full.toBlock) (htarget : full.toBlock < u64Max)
    (hrange : fetched.range = range) :
    wp (pushRange full (recorded commitRange) fetched)
      (fun _ run' => Counted
        (dropped ++ [(⟨run.coordinator, run.sink, fetched⟩ : Push _).dropped])
        run'.window.progress run'.sink.2)
      (fun _ _ => True) run := by
  obtain ⟨heights, hhas⟩ := h.has
  have hall := h.all hhas hrange
  have hsub : ∀ n ∈ heights, n ≤ full.toBlock := fun n hn =>
    (mem_heights_iff.1 (hall.subset (List.mem_append_left _ (List.mem_append_left _ hn)))).2
  obtain ⟨hbefore, -, -⟩ := hhas.nextHeight hle htarget hsub
  have hkept : wp (OrderedCommitCoordinator.push (recorded commitRange) fetched) _ _
      (run.coordinator, run.sink) :=
    push_kept (k := run.sink.1) hle htarget hhas (hrange ▸ h.fits) hall
  have hline : wp (OrderedCommitCoordinator.push (recorded commitRange) fetched) _ _
      (run.coordinator, run.sink) :=
    push_line fetched run.sink.1
  have hpush := wp_and hkept hline
  unfold Push.dropped pushRange
  dsimp only
  generalize (run.coordinator.park fetched).line = line at hpush ⊢
  obtain ⟨ready, broken⟩ := line
  rw [wp_bind, wp_modify, wp_bind, wp_get, wp_bind]
  refine wp_attempt (wp_zoom (wp_mono hpush (fun progress s hs => ?_) fun e s hs => ?_))
  · -- Nothing breaks: the push reports its line.
    obtain ⟨-, hbroken, hprogress, hcommits⟩ := hs
    have hbroken : broken = false := hbroken
    have hprogress : progress = totals ready := hprogress
    subst hbroken hprogress
    exact hc.merge hcommits
  · obtain ⟨hkept, hdropped⟩ := hs
    obtain ⟨message, rfl⟩ | ⟨expected, actual, rfl, hhas', -, hcut⟩ := hkept
    · exact trivial
    obtain ⟨hbroken, hcommits⟩ := hdropped _ _ _ rfl
    have hbroken : broken = true := hbroken
    have hcommits : commits s.2.2 = commits run.sink.2 ++ ready := hcommits
    subst hbroken
    -- `next_height` moved by the blocks of the line.
    have hsub' : ∀ n ∈ committedHeights s.2.2, n ≤ full.toBlock := fun n hn =>
      (mem_heights_iff.1 (hcut ▸ List.mem_append_left _ hn)).2
    obtain ⟨hafter, -, -⟩ := hhas'.nextHeight hle htarget hsub'
    rw [length_committedHeights] at hbefore hafter
    rw [hcommits, List.map_append, List.sum_append] at hafter
    have hmoved : s.1.nextHeight =
        run.coordinator.nextHeight + (ready.map (·.headers.length)).sum := by
      rw [hafter, hbefore, Nat.add_assoc]
    have hlast : run.coordinator.nextHeight < s.1.nextHeight →
        (committedHeaders s.2.2).getLast?.map (·.height) = some (s.1.nextHeight - 1) :=
      fun hforth => lastHeight_eq hhas' hle htarget hsub' (by omega)
    exact hc.recordPartial hcommits hmoved hlast

theorem joinNext_progress {window window' : Window} {task : Nat} {range : BackfillRange}
    (h : window.joinNext task = some (range, window')) : window'.progress = window.progress := by
  unfold Window.joinNext at h
  obtain ⟨_, -, h⟩ := Option.map_eq_some_iff.1 h
  cases h
  rfl

theorem fill_progress {targetBlock room : Nat} (window : Window) :
    (window.fill targetBlock room).progress = window.progress := by
  induction room generalizing window with
  | zero => rfl
  | succ room ih =>
    unfold Window.fill
    cases htake : window.takeRange targetBlock with
    | none => rfl
    | some taken =>
      obtain ⟨range, taken⟩ := taken
      refine (ih _).trans ?_
      unfold Window.takeRange at htake
      cases hqueued : window.queued with
      | cons r queued =>
        rw [hqueued] at htake
        cases htake
        rfl
      | nil =>
        rw [hqueued] at htake
        obtain ⟨r, -, htake⟩ := Option.map_eq_some_iff.1 htake
        cases htake
        rfl

theorem fillFetchWindow_progress {workers targetBlock : Nat} (window : Window) :
    (window.fillFetchWindow workers targetBlock).progress = window.progress :=
  fill_progress window

variable {provider : Provider σ} {config : AdaptiveFetchConfig}

/-- **One round** drops what its push drops. -/
theorem round_counted (hc : Counted dropped run.window.progress run.sink.2)
    (h : Balanced full anchor run) (hle : full.fromBlock ≤ full.toBlock)
    (htarget : full.toBlock < u64Max) (completion : Completion) :
    wp (round provider config full (recorded commitRange) completion)
      (fun _ run' => Counted
        (dropped ++ (pushOf provider config completion run).toList.map Push.dropped)
        run'.window.progress run'.sink.2)
      (fun _ _ => True) run := by
  have h : Balanced full anchor (run.spend completion.spent) := ⟨h.has, h.rests, h.sound, h.held⟩
  have hc : Counted dropped (run.spend completion.spent).window.progress
    (run.spend completion.spent).sink.2 := hc
  unfold pushOf
  dsimp only
  refine round_rule rfl (fun hjoin => ?_) (fun _ => trivial) fun range window hjoin hpanicked => ?_
  · rw [hjoin]
    simpa using hc
  simp only [hjoin, hpanicked, if_neg Bool.false_ne_true]
  have hjoined := h.join hjoin
  have hsame : window.progress = (run.spend completion.spent).window.progress := joinNext_progress hjoin
  rw [← hsame] at hc
  generalize run.spend completion.spent = run at hjoined hc ⊢
  cases hfetch : exec (fetchRangeWithRetry provider range config) run.shared with
  | mk r shared =>
    refine wp_of_eq hfetch (fun fetched hok => ?_) fun e herror => ?_
    · subst hok
      have hrange := wp_ok (fetchRange_about provider range config run.shared) hfetch
      have hshared : Joined full anchor range { run with shared, window } :=
        ⟨hjoined.has, hjoined.rests, hjoined.sound, hjoined.fits, hjoined.held⟩
      have hpushed : wp (pushRange full (recorded commitRange) fetched) _ _
          ({ run with shared, window } : RecordedRun σ κ) :=
        pushRange_counted hc hshared hle htarget hrange
      refine wp_mono hpushed (fun _ run' hrun => ?_) fun _ _ _ => trivial
      have hprogress := @fillFetchWindow_progress config.workers full.toBlock run'.window
      rw [← hprogress] at hrun
      exact hrun
    · subst herror
      refine ⟨fun refused source _ => ?_, fun _ => trivial⟩
      have hsplit : (window.splitRange refused).progress = window.progress := rfl
      have hprogress := @fillFetchWindow_progress config.workers full.toBlock
        (window.splitRange refused)
      simpa [Run.onWindow, hprogress, hsplit] using hc

/-- **The loop** drops what its pushes drop. -/
theorem loop_counted (hc : Counted dropped run.window.progress run.sink.2)
    (h : Balanced full anchor run) (hbusy : Busy full run)
    (hle : full.fromBlock ≤ full.toBlock) (htarget : full.toBlock < u64Max)
    (completions : List Completion) :
    wp (loop provider config full (recorded commitRange) completions)
      (fun result run' => ∀ progress, result = some progress →
        Counted (dropped ++ (pushesOf provider config full (recorded commitRange) completions
          run).map Push.dropped) progress run'.sink.2)
      (fun _ _ => True) run := by
  induction completions generalizing run dropped with
  | nil =>
    refine ending_wp (fun _ _ progress hsome => ?_) (fun _ _ => trivial) fun _ => by simp
    obtain rfl := Option.some.inj hsome
    unfold pushesOf
    simpa using hc
  | cons completion completions ih =>
    unfold loop pushesOf
    rw [wp_bind]
    refine ending_wp (fun hidle _ progress hsome => ?_) (fun _ _ => trivial) fun hgoing => ?_
    · obtain rfl := Option.some.inj hsome
      rw [if_pos hidle]
      simpa using hc
    · rw [if_neg (by rw [hgoing]; exact Bool.false_ne_true)]
      dsimp only
      rw [wp_bind]
      have hpushed : wp (round provider config full (recorded commitRange) completion) _ _ run :=
        round_counted hc h hle htarget completion
      have hround : wp (round provider config full (recorded commitRange) completion) _ _ run :=
        round_wp h hbusy hle htarget completion
      cases hx : exec (round provider config full (recorded commitRange) completion) run with
      | mk r run₁ =>
        refine wp_of_eq hx (fun _ hok => ?_) fun _ _ => trivial
        subst hok
        have hc₁ := wp_ok hpushed hx
        obtain ⟨h₁, hbusy₁⟩ := wp_ok hround hx
        rw [List.map_append, ← List.append_assoc]
        exact ih hc₁ h₁ hbusy₁

end

/-! ## What holds before every push -/

section
variable {provider : Provider σ} {config : AdaptiveFetchConfig} {full : BackfillRange}
  {commitRange : CommitRange κ IndexedBlock}
  {P : OrderedCommitCoordinator IndexedBlock → κ → Prop} {R : FetchedRange IndexedBlock → Prop}
  {run : Run σ κ}

theorem pushOf_some {completion : Completion} {push : Push κ}
    (h : pushOf provider config completion run = some push) :
    push.coordinator = run.coordinator ∧ push.sink = run.sink ∧ ∃ range shared shared',
      exec (fetchRangeWithRetry provider range config) shared = (.ok push.fetched, shared') := by
  unfold pushOf at h
  dsimp only at h
  cases hjoin : (run.spend completion.spent).window.joinNext completion.task with
  | none => rw [hjoin] at h; cases h
  | some joined =>
    rw [hjoin] at h
    dsimp only at h
    split at h
    · cases h
    · split at h
      · rename_i fetched hfetch
        cases h
        exact ⟨rfl, rfl, joined.1, _, _, Prod.ext hfetch rfl⟩
      · cases h

/-- What every push keeps holds before each of them. -/
theorem pushes_keep
    (hpush : ∀ fetched c k, R fetched → P c k → wp (OrderedCommitCoordinator.push commitRange fetched)
      (fun _ s => P s.1 s.2) (fun e s => (∃ message, e = .commit message) ∨ P s.1 s.2) (c, k))
    (hfetch : ∀ range shared, wp (fetchRangeWithRetry provider range config)
      (fun fetched _ => R fetched) (fun _ _ => True) shared)
    (h : P run.coordinator run.sink) (completions : List Completion) :
    ∀ push ∈ pushesOf provider config full commitRange completions run,
      P push.coordinator push.sink ∧ R push.fetched := by
  induction completions generalizing run with
  | nil => simp [pushesOf]
  | cons completion completions ih =>
    intro push hmem
    unfold pushesOf at hmem
    split at hmem
    · cases hmem
    cases List.mem_append.1 hmem with
    | inl hnow =>
      obtain ⟨hcoordinator, hsink, range, shared, shared', hx⟩ :=
        pushOf_some (Option.mem_toList.1 hnow)
      rw [hcoordinator, hsink]
      exact ⟨h, wp_ok (hfetch range shared) hx⟩
    | inr hlater =>
      have hkeeps : wp (round provider config full commitRange completion) _ _ run :=
        round_keeps hpush hfetch h completion
      cases hx : exec (round provider config full commitRange completion) run with
      | mk r run₁ =>
        rw [hx] at hlater
        cases r with
        | ok u => exact ih (wp_ok hkeeps hx) push hlater
        | error e => cases hlater

end

section
variable {full : BackfillRange} {commitRange : CommitRange κ IndexedBlock} {k : κ}
  {c : OrderedCommitCoordinator IndexedBlock} {fetched : FetchedRange IndexedBlock}

/-- Every pending range has logs. -/
def Carries (c : OrderedCommitCoordinator IndexedBlock) : Prop :=
  ∀ (key : Nat) (f : FetchedRange IndexedBlock), c.pending[key]? = some f → f.logs ≠ []

theorem Carries.park (h : Carries c) (hlogs : fetched.logs ≠ []) : Carries (c.park fetched) := by
  intro key f hget
  have hget : (c.pending.insert fetched.range.fromBlock fetched)[key]? = some f := hget
  rw [Std.TreeMap.getElem?_insert] at hget
  split at hget
  · obtain rfl := Option.some.inj hget
    exact hlogs
  · exact h key f hget

theorem Carries.push (h : Carries c) (hlogs : fetched.logs ≠ []) :
    wp (OrderedCommitCoordinator.push commitRange fetched) (fun _ s => Carries s.1)
      (fun _ s => Carries s.1) (c, k) := by
  have hpop : ∀ {c : OrderedCommitCoordinator IndexedBlock}, Carries c → Carries c.pop :=
    fun h key f hget => h key f (getElem?_pop hget)
  refine OrderedCommitCoordinator.push_rule (fun e c' hrefused => ?_) fun _ _ _ => ?_
  · cases hrefused with
    | beyond => exact h
    | stale => exact h
    | duplicate => exact h.park hlogs
  · refine OrderedCommitCoordinator.drainLoop_wp (I := fun _ c _ => Carries c) ?_ ?_ ?_
      (h.park hlogs) (Nat.le_refl _)
    · intro _ c k f last hI _ _ _
      unfold wp
      split <;> exact hpop hI
    · intro _ c k f _ _ _ _ _ key g hget
      simp [OrderedCommitCoordinator.cleared] at hget
    · intro _ c k hI _
      exact hI

/-- The ranges a push drops have logs. -/
theorem Carries.dropped {push : Push κ} (h : Carries push.coordinator)
    (hlogs : push.fetched.logs ≠ []) : ∀ f ∈ push.dropped, f.logs ≠ [] := by
  intro f hf
  unfold Push.dropped at hf
  dsimp only at hf
  split at hf
  · obtain ⟨key, hkey⟩ := OrderedCommitCoordinator.mem_line hf
    exact h.park hlogs key f hkey
  · cases hf

/-- A range that was fetched has one log entry a block. -/
theorem fetchRange_logs (provider : Provider σ) (config : AdaptiveFetchConfig) (range : BackfillRange)
    (shared : Shared σ) :
    wp (fetchRangeWithRetry provider range config) (fun fetched _ => fetched.logs ≠ [])
      (fun _ _ => True) shared := by
  have hall : Serves Set.univ provider := fun range node => by
    unfold wp
    split <;> simp
  refine wp_mono (fetchRange_supplied hall config range shared) (fun fetched _ hsupplied hnil => ?_)
    fun _ _ _ => trivial
  obtain ⟨first, rest, -, hheaders, -⟩ := fetched.exists_ends
  have hblocks := hsupplied.blocks
  rw [hnil, hheaders] at hblocks
  cases hblocks

/-- What every push keeps, up to the last height there is. -/
structure Steady (full : BackfillRange) (c : OrderedCommitCoordinator IndexedBlock) : Prop where
  targetHeight : c.targetHeight = full.toBlock
  bounded : c.nextHeight ≤ max full.fromBlock u64Max
  anchored : c.parentAnchor.isSome = true → 0 < c.nextHeight

theorem steady_new {anchor : Option BlockHeader}
    (hnew : OrderedCommitCoordinator.new full.fromBlock full.toBlock anchor = .ok c) :
    Steady full c := by
  obtain ⟨hidle, -, -, hsome⟩ := idle_new hnew
  refine ⟨hidle.targetHeight, by rw [hidle.nextHeight]; omega, fun hanchor => ?_⟩
  rw [hidle.parentAnchor] at hanchor
  obtain ⟨a, ha⟩ := Option.isSome_iff_exists.1 hanchor
  have := hsome a ha
  rw [hidle.nextHeight]
  omega

/-- A push that is invalidated found an anchor, so `next_height` is not 0. -/
theorem Steady.push (h : Steady full c) :
    wp (OrderedCommitCoordinator.push commitRange fetched) (fun _ s => Steady full s.1)
      (fun e s => Steady full s.1 ∧ ∀ refetchFrom expected actual,
        e = .fetchedSuffixInvalidated refetchFrom expected actual → 0 < s.1.nextHeight) (c, k) := by
  refine OrderedCommitCoordinator.push_rule (fun e c' hrefused => ?_) fun _ _ _ => ?_
  · cases hrefused <;> exact ⟨⟨h.targetHeight, h.bounded, h.anchored⟩, by simp⟩
  · refine OrderedCommitCoordinator.drainLoop_wp (I := fun _ c _ => Steady full c) ?_ ?_ ?_
      (⟨h.targetHeight, h.bounded, h.anchored⟩ : Steady full (c.park fetched)) (Nat.le_refl _)
    · intro _ c k f last hI _ _ _
      have hnext : satAdd last.height 1 ≤ max full.fromBlock u64Max ∧ 0 < satAdd last.height 1 := by
        unfold satAdd u64Max
        omega
      unfold wp
      split
      · exact ⟨hI.targetHeight, hnext.1, fun _ => hnext.2⟩
      · exact ⟨⟨hI.targetHeight, hI.bounded, hI.anchored⟩, by simp⟩
    · intro _ c k f expected actual hI _ hbroken
      obtain ⟨first, -, a, ha, -⟩ := hbroken
      refine ⟨⟨hI.targetHeight, hI.bounded, hI.anchored⟩, fun _ _ _ _ => hI.anchored ?_⟩
      rw [Option.mem_def.1 ha]
      rfl
    · intro _ c k hI _
      exact hI

end

section
variable {anchor : Option BlockHeader} {coordinator : OrderedCommitCoordinator IndexedBlock}

/-- **Backfill progress is exact** in a run that returns, exactly if no push of it commits a range and
then finds one behind it that does not link. `next_height - 1` never underflows where a push was
invalidated. -/
theorem progress_exact_iff (full : BackfillRange)
    (hnew : OrderedCommitCoordinator.new full.fromBlock full.toBlock anchor = .ok coordinator)
    (provider : Provider σ) (config : AdaptiveFetchConfig) (commitRange : CommitRange κ IndexedBlock)
    (sizer : LogRangeSizer) (completions : List Completion) (shared : Shared σ) (k : κ)
    (window : Window) :
    let pushes := pushesOf provider config full (recorded commitRange) completions
      ⟨shared, coordinator, (k, []), Window.start config.workers full sizer⟩
    let outcome := exec (fetchAndCommitRanges provider config full (recorded commitRange) sizer
      completions) ⟨shared, coordinator, (k, []), window⟩
    (∀ progress, outcome.1 = .ok (some progress) →
      (Exact full outcome.2.sink.2 progress ↔ ∀ push ∈ pushes, push.dropped = [])) ∧
      ∀ push ∈ pushes, ∀ refetchFrom expected actual,
        (push.outcome (recorded commitRange)).1 =
            .error (.fetchedSuffixInvalidated refetchFrom expected actual) →
          0 < (push.outcome (recorded commitRange)).2.1.nextHeight := by
  intro pushes outcome
  obtain ⟨hidle, hle, -, -⟩ := idle_new hnew
  have hsteady := steady_new hnew
  have hpush : ∀ fetched c k, True → Steady full c →
      wp (OrderedCommitCoordinator.push (recorded commitRange) fetched) (fun _ s => Steady full s.1)
        (fun e s => (∃ message, e = .commit message) ∨ Steady full s.1) (c, k) :=
    fun _ _ _ _ h => wp_mono h.push (fun _ _ h => h) fun _ _ h => .inr h.1
  constructor
  · intro progress hok
    have hcomplete : wp (fetchAndCommitRanges provider config full (recorded commitRange) sizer
        completions) _ _ ⟨shared, coordinator, (k, []), window⟩ :=
      run_keeps (P := fun c _ => Steady full c) (R := fun _ => True) hpush
        (fun _ _ => wp_const trivial) hsteady sizer completions
    cases hrun : exec (fetchAndCommitRanges provider config full (recorded commitRange) sizer
        completions) ⟨shared, coordinator, (k, []), window⟩ with
    | mk r run =>
      have houtcome : outcome = (r, run) := hrun
      rw [houtcome] at hok ⊢
      have hok : r = .ok (some progress) := hok
      subst hok
      -- Complete: the target was passed, so it is not the last `u64`.
      obtain ⟨hend, hdone⟩ := wp_ok hcomplete hrun
      have htarget : full.toBlock < u64Max := by
        have hpassed := hdone rfl
        unfold OrderedCommitCoordinator.isComplete at hpassed
        have := hend.bounded
        have := hend.targetHeight
        simp only [decide_eq_true_eq] at hpassed
        omega
      obtain ⟨hfilled, hbusy⟩ := balanced_start hnew htarget config.workers_pos sizer shared k
      have hstart : Counted [] (Window.start config.workers full sizer).progress
          ([] : List (FetchedRange IndexedBlock × Bool)) := by
        rw [show (Window.start config.workers full sizer).progress = {} from
          fillFetchWindow_progress _]
        exact ⟨rfl, rfl, rfl, rfl⟩
      unfold fetchAndCommitRanges at hrun
      rw [exec_bind, exec_modify] at hrun
      have hcounted := wp_ok (loop_counted hstart hfilled hbusy hle htarget completions) hrun progress
        rfl
      have hall := (wp_ok (loop_wp hfilled hbusy hle htarget completions) hrun).2 rfl
      have hcarries : Carries coordinator := fun key f hget => by
        rw [Std.TreeMap.getElem?_eq_none (hidle.pending key)] at hget
        cases hget
      have hdropped : ∀ push ∈ pushes, ∀ f ∈ push.dropped, f.logs ≠ [] := by
        have hkeep : ∀ push ∈ pushes, Carries push.coordinator ∧ push.fetched.logs ≠ [] :=
          pushes_keep (P := fun c _ => Carries c) (R := fun f => f.logs ≠ [])
            (fun _ _ _ hlogs h => wp_mono (h.push hlogs) (fun _ _ h => h) fun _ _ h => .inr h)
            (fetchRange_logs provider config) hcarries completions
        exact fun push hmem => (hkeep push hmem).1.dropped (hkeep push hmem).2
      have hiff := hcounted.exact_iff hall hle (by simpa [pushes] using hdropped)
      simpa [pushes] using hiff
  · intro push hmem refetchFrom expected actual herror
    have hkeep : ∀ push ∈ pushes, Steady full push.coordinator ∧ True :=
      pushes_keep (P := fun c _ => Steady full c) (R := fun _ => True) hpush
        (fun _ _ => wp_const trivial) hsteady completions
    have hinvalidated : wp (OrderedCommitCoordinator.push (recorded commitRange) push.fetched) _ _
        (push.coordinator, push.sink) := (hkeep push hmem).1.push
    unfold Push.outcome at herror ⊢
    exact (wp_error hinvalidated (Prod.ext herror rfl)).2 _ _ _ rfl

/-- A node that moves to another fork after its first blocks. -/
def movesAfterOne : Provider Nat where
  getLogs _ _ := pure []
  getBlocks range := do
    let fork := if (← get) = 0 then 100 else 0
    modify (· + 1)
    pure (range.heights.map fun n => some ⟨(n + 1 + fork : Nat), (n + fork : Nat), n, 0⟩)

def threeWorkers : AdaptiveFetchConfig :=
  { twoWorkers with workers := twoWorkers.workers + 1, workers_pos := Nat.succ_pos _ }

def oneBlockSizer : LogRangeSizer := ⟨1, 1, 1, Nat.one_pos, Nat.one_pos, Nat.one_pos⟩

/-- Heights 1 to 3 in ranges of one block, the sink accepting everything. -/
def movedRun (completions : List Completion) (coordinator : OrderedCommitCoordinator IndexedBlock) :
    Except PipelineError (Option CommitProgress) × RecordedRun Nat Unit :=
  exec (fetchAndCommitRanges movesAfterOne threeWorkers ⟨1, 3⟩ (recorded fun _ => pure ())
      oneBlockSizer completions)
    ⟨⟨some roomyBudget, 0⟩, coordinator, ((), []), { nextUnallocated := 0, sizer := oneBlockSizer }⟩

theorem ok_of_toOption {ε α : Type} {r : Except ε α} {a : α} (h : r.toOption = some a) :
    r = .ok a := by
  cases r with
  | ok b => exact congrArg Except.ok (Option.some.inj h)
  | error e => cases h

/-- `progress_exact_iff` where the block of the old fork is at height 1: nothing is committed before
it is thrown away, and the others then come back last one first. -/
theorem progress_exact_iff_first :
    ∃ coordinator progress, OrderedCommitCoordinator.new 1 3 (some ⟨1, 0, 0⟩) = .ok coordinator ∧
      (movedRun [⟨0, [], false⟩, ⟨2, [], false⟩, ⟨1, [], false⟩, ⟨0, [], false⟩] coordinator).1 =
        .ok (some progress) ∧
      Exact ⟨1, 3⟩ (movedRun [⟨0, [], false⟩, ⟨2, [], false⟩, ⟨1, [], false⟩, ⟨0, [], false⟩]
        coordinator).2.sink.2 progress := by
  have hnew : OrderedCommitCoordinator.new 1 3 (some ⟨1, 0, 0⟩) =
      .ok (⟨1, 3, some ⟨1, 0, 0⟩, ∅⟩ : OrderedCommitCoordinator IndexedBlock) := rfl
  have hreturned : (movedRun [⟨0, [], false⟩, ⟨2, [], false⟩, ⟨1, [], false⟩, ⟨0, [], false⟩]
      ⟨1, 3, some ⟨1, 0, 0⟩, ∅⟩).1.toOption = some (some ⟨3, 3, 3, some 3⟩) := by
    decide +kernel
  have hnone : (pushesOf movesAfterOne threeWorkers ⟨1, 3⟩ (recorded fun _ => pure ())
      [⟨0, [], false⟩, ⟨2, [], false⟩, ⟨1, [], false⟩, ⟨0, [], false⟩]
      ⟨⟨some roomyBudget, 0⟩, ⟨1, 3, some ⟨1, 0, 0⟩, ∅⟩, ((), []),
        Window.start threeWorkers.workers ⟨1, 3⟩ oneBlockSizer⟩).all (·.dropped.isEmpty) = true := by
    decide +kernel
  have hok := ok_of_toOption hreturned
  refine ⟨_, _, hnew, hok, ?_⟩
  unfold movedRun at hok ⊢
  have hiff := (progress_exact_iff ⟨1, 3⟩ hnew movesAfterOne threeWorkers (fun _ => pure ())
    oneBlockSizer [⟨0, [], false⟩, ⟨2, [], false⟩, ⟨1, [], false⟩, ⟨0, [], false⟩]
    ⟨some roomyBudget, 0⟩ () { nextUnallocated := 0, sizer := oneBlockSizer }).1 _ hok
  rw [hiff]
  intro push hmem
  have hempty := List.all_eq_true.1 hnone push hmem
  exact List.isEmpty_iff.1 hempty

/-- **Progress lost.** The block of the old fork is at height 3 and arrives first; then 2, then 1. The
push of 1 commits 1 and 2 before it finds 3: one range and no log for two of each. -/
theorem progress_dropped :
    ∃ coordinator progress, OrderedCommitCoordinator.new 1 3 (some ⟨1, 0, 0⟩) = .ok coordinator ∧
      (movedRun [⟨2, [], false⟩, ⟨1, [], false⟩, ⟨0, [], false⟩, ⟨0, [], false⟩] coordinator).1 =
        .ok (some progress) ∧
      progress.committedRanges = 2 ∧ progress.committedLogs = 1 ∧
      ¬ Exact ⟨1, 3⟩ (movedRun [⟨2, [], false⟩, ⟨1, [], false⟩, ⟨0, [], false⟩, ⟨0, [], false⟩]
        coordinator).2.sink.2 progress := by
  have hnew : OrderedCommitCoordinator.new 1 3 (some ⟨1, 0, 0⟩) =
      .ok (⟨1, 3, some ⟨1, 0, 0⟩, ∅⟩ : OrderedCommitCoordinator IndexedBlock) := rfl
  have hreturned : (movedRun [⟨2, [], false⟩, ⟨1, [], false⟩, ⟨0, [], false⟩, ⟨0, [], false⟩]
      ⟨1, 3, some ⟨1, 0, 0⟩, ∅⟩).1.toOption = some (some ⟨2, 3, 1, some 3⟩) := by
    decide +kernel
  have hcommits : (commits (movedRun [⟨2, [], false⟩, ⟨1, [], false⟩, ⟨0, [], false⟩,
      ⟨0, [], false⟩] ⟨1, 3, some ⟨1, 0, 0⟩, ∅⟩).2.sink.2).length = 3 := by
    decide +kernel
  refine ⟨_, _, hnew, ok_of_toOption hreturned, rfl, rfl, fun hexact => ?_⟩
  have hranges := hexact.ranges
  rw [hcommits] at hranges
  cases hranges

end

end Chainweave.Pipeline
