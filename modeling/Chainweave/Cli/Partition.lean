import Chainweave.Cli.Pipeline
import Chainweave.Cli.FetchRules

/-!
# The pipeline loses and repeats nothing

At every round the heights of the full range lie in five places: committed, pending in
the coordinator, with a task, queued, or in the tail that no range was cut from yet.

* `Run.held` lists them. A step only moves heights from one place to another.
* `push_kept`: a push moves the heights of one range from the tasks to the pending ones,
  and from there to the committed ones, and is never refused. If the suffix is invalid,
  the heights from `next_height` on are cut into chunks again.
* `loses_nothing`: the run.
-/
namespace Chainweave.Pipeline

open Stateful Chainweave.Chain Chainweave.Backfill Chainweave.Postgres Chainweave.Rpc
  Chainweave.Fetch

/-! ## Cutting ranges -/

/-- A range that is not empty and within the target. -/
def Fits (target : Nat) (range : BackfillRange) : Prop :=
  range.fromBlock ≤ range.toBlock ∧ range.toBlock ≤ target

theorem heights_split {a m b : Nat} (ham : a ≤ m) (hmb : m ≤ b) :
    (⟨a, m⟩ : BackfillRange).heights ++ List.range' (m + 1) (b + 1 - (m + 1)) =
      List.range' a (b + 1 - a) := by
  have hnext : m + 1 = a + (m + 1 - a) := by omega
  have hlen : b + 1 - a = (m + 1 - a) + (b + 1 - (m + 1)) := by omega
  unfold BackfillRange.heights
  rw [hlen, ← List.range'_append_1]
  dsimp only
  rw [← hnext]

theorem range_nil {a b : Nat} (h : b < a) : List.range' a (b + 1 - a) = [] := by
  have h0 : b + 1 - a = 0 := by omega
  rw [h0]
  rfl

section
variable {target : Nat}

/-- The chunks are the heights from `from_block` on, and each is a proper range. -/
theorem chunksFrom_spec (htarget : target < u64Max) {chunkSize left fromBlock : Nat}
    (hleft : target + 1 - fromBlock ≤ left) :
    (chunksFrom target chunkSize left fromBlock).flatMap BackfillRange.heights =
        List.range' fromBlock (target + 1 - fromBlock) ∧
      ∀ r ∈ chunksFrom target chunkSize left fromBlock, Fits target r := by
  induction left generalizing fromBlock with
  | zero =>
    rw [range_nil (by omega)]
    exact ⟨rfl, by simp [chunksFrom]⟩
  | succ left ih =>
    unfold chunksFrom
    by_cases hend : target < fromBlock
    · rw [if_pos hend, range_nil hend]
      exact ⟨rfl, by simp⟩
    rw [if_neg hend]
    have hlast : fromBlock ≤ min (satAdd fromBlock (chunkSize - 1)) target := by
      unfold satAdd
      omega
    have hle : min (satAdd fromBlock (chunkSize - 1)) target ≤ target := Nat.min_le_right _ _
    generalize min (satAdd fromBlock (chunkSize - 1)) target = last at hlast hle ⊢
    dsimp only
    rw [if_neg (by omega)]
    obtain ⟨hheights, hfits⟩ := @ih (last + 1) (by omega)
    constructor
    · rw [List.flatMap_cons, hheights]
      exact heights_split hlast hle
    · intro r hr
      cases List.mem_cons.1 hr with
      | inl heq => subst heq; exact ⟨hlast, hle⟩
      | inr hr => exact hfits r hr

theorem enqueueChunksFront_spec (htarget : target < u64Max) (queued : List BackfillRange)
    (fromBlock chunkSize : Nat) :
    (enqueueChunksFront queued fromBlock target chunkSize).flatMap BackfillRange.heights =
        List.range' fromBlock (target + 1 - fromBlock) ++ queued.flatMap BackfillRange.heights ∧
      ∀ r ∈ enqueueChunksFront queued fromBlock target chunkSize, Fits target r ∨ r ∈ queued := by
  obtain ⟨hheights, hfits⟩ :=
    @chunksFrom_spec target htarget chunkSize (target + 1 - fromBlock) fromBlock (Nat.le_refl _)
  unfold enqueueChunksFront
  constructor
  · rw [List.flatMap_append, hheights]
  · intro r hr
    cases List.mem_append.1 hr with
    | inl hr => exact .inl (hfits r hr)
    | inr hr => exact .inr hr

/-! ## The window -/

namespace Window

/-- The heights that tasks were spawned for. -/
def flying (self : Window) : List Nat := self.joinSet.flatMap BackfillRange.heights

/-- The heights of the queue. -/
def queuedHeights (self : Window) : List Nat := self.queued.flatMap BackfillRange.heights

/-- The heights of the tail. -/
def tail (target : Nat) (self : Window) : List Nat :=
  List.range' self.nextUnallocated (target + 1 - self.nextUnallocated)

/-- The heights without a task. -/
def waiting (target : Nat) (self : Window) : List Nat := self.queuedHeights ++ self.tail target

/-- Proper ranges, and as many tasks as `in_flight` says. -/
structure Sound (target : Nat) (w : Window) : Prop where
  joinSet : ∀ r ∈ w.joinSet, Fits target r
  queued : ∀ r ∈ w.queued, Fits target r
  inFlight : w.inFlight = w.joinSet.length

variable {w w' : Window} {range : BackfillRange}

theorem nextRange_spec (htarget : target < u64Max) {sizer : LogRangeSizer} {fromBlock : Nat}
    (h : sizer.nextRange fromBlock target = some range) :
    range.fromBlock = fromBlock ∧ Fits target range := by
  unfold LogRangeSizer.nextRange at h
  split at h
  · cases h
  · cases h
    refine ⟨rfl, ?_, Nat.min_le_right _ _⟩
    show fromBlock ≤ min (satAdd fromBlock (sizer.currentBlocks - 1)) target
    unfold satAdd
    omega

/-- The range taken is the first of what waits. -/
theorem takeRange_some (htarget : target < u64Max) (hsound : w.Sound target)
    (h : w.takeRange target = some (range, w')) :
    w'.joinSet = w.joinSet ∧ (w'.spawnFetch range).Sound target ∧
      w.waiting target = range.heights ++ w'.waiting target := by
  have hspawned : ∀ taken : Window, taken.joinSet = w.joinSet → taken.inFlight = w.inFlight →
      Fits target range → (∀ r ∈ taken.queued, r ∈ w.queued) →
        (taken.spawnFetch range).Sound target := by
    intro taken hjoin hflight hfits hqueued
    refine ⟨fun r hr => ?_, fun r hr => hsound.queued r (hqueued r hr), ?_⟩
    · cases List.mem_append.1 hr with
      | inl hr => exact hsound.joinSet r (hjoin ▸ hr)
      | inr hr => rw [List.mem_singleton.1 hr]; exact hfits
    · show taken.inFlight + 1 = (taken.joinSet ++ [range]).length
      rw [hflight, hjoin, hsound.inFlight]
      simp
  unfold takeRange at h
  cases hq : w.queued with
  | cons r rest =>
    rw [hq] at h
    cases h
    have hfits := hsound.queued range (by rw [hq]; simp)
    refine ⟨rfl, hspawned _ rfl rfl hfits fun r' hr' => ?_, ?_⟩
    · rw [hq]
      exact List.mem_cons_of_mem _ hr'
    · simp [waiting, queuedHeights, hq, tail]
  | nil =>
    rw [hq] at h
    obtain ⟨r, hr, h⟩ := Option.map_eq_some_iff.1 h
    cases h
    obtain ⟨hfrom, hfits⟩ := nextRange_spec htarget hr
    refine ⟨rfl, hspawned _ rfl rfl hfits fun _ hr' => (List.not_mem_nil hr').elim, ?_⟩
    · have hnext : satAdd range.toBlock 1 = range.toBlock + 1 := by
        have := hfits.2
        unfold satAdd
        omega
      unfold waiting queuedHeights tail
      dsimp only
      rw [hq, hnext, List.flatMap_nil, List.nil_append, List.nil_append, ← hfrom]
      exact (heights_split hfits.1 hfits.2).symm

theorem takeRange_none (h : w.takeRange target = none) : w.waiting target = [] := by
  unfold takeRange at h
  cases hq : w.queued with
  | cons r rest => rw [hq] at h; cases h
  | nil =>
    rw [hq, Option.map_eq_none_iff] at h
    unfold LogRangeSizer.nextRange at h
    split at h
    · rename_i hend
      unfold waiting queuedHeights tail
      rw [hq, range_nil hend]
      rfl
    · cases h

/-- Filling moves what waits first behind what flies last. -/
theorem fill_spec (htarget : target < u64Max) (room : Nat) (hsound : w.Sound target) :
    (w.fill target room).Sound target ∧
      (w.fill target room).flying ++ (w.fill target room).waiting target =
        w.flying ++ w.waiting target ∧ w.joinSet <+: (w.fill target room).joinSet := by
  induction room generalizing w with
  | zero => exact ⟨hsound, rfl, List.prefix_rfl⟩
  | succ room ih =>
    unfold fill
    cases htake : w.takeRange target with
    | none => exact ⟨hsound, rfl, List.prefix_rfl⟩
    | some taken =>
      obtain ⟨range, w'⟩ := taken
      obtain ⟨hjoin, hspawned, hwaiting⟩ := takeRange_some htarget hsound htake
      obtain ⟨hs, hheights, hprefix⟩ := ih hspawned
      refine ⟨hs, ?_, List.IsPrefix.trans ?_ hprefix⟩
      · dsimp only
        rw [hheights, hwaiting]
        show (w'.joinSet ++ [range]).flatMap BackfillRange.heights ++ w'.waiting target = _
        rw [hjoin]
        simp [flying]
      · show w.joinSet <+: w'.joinSet ++ [range]
        rw [hjoin]
        exact List.prefix_append _ _

/-- After filling a window with room, there is a task or there is nothing left to fetch. -/
theorem fillFetchWindow_busy (htarget : target < u64Max) {workers : Nat} (hworkers : 0 < workers)
    (hsound : w.Sound target) (hidle : (w.fillFetchWindow workers target).joinSet = []) :
    (w.fillFetchWindow workers target).waiting target = [] := by
  unfold fillFetchWindow at hidle ⊢
  cases hroom : workers - w.inFlight with
  | zero =>
    rw [hroom] at hidle
    have hnone : w.joinSet = [] := hidle
    have := hsound.inFlight
    rw [hnone, List.length_nil] at this
    omega
  | succ room =>
    rw [hroom] at hidle
    unfold fill at hidle ⊢
    cases htake : w.takeRange target with
    | none => exact takeRange_none htake
    | some taken =>
      obtain ⟨range, w'⟩ := taken
      rw [htake] at hidle
      obtain ⟨-, hspawned, -⟩ := takeRange_some htarget hsound htake
      have hprefix := (fill_spec htarget room hspawned).2.2
      rw [show ((w'.spawnFetch range).fill target room).joinSet = [] from hidle] at hprefix
      have := List.prefix_nil.1 hprefix
      simp [spawnFetch] at this

end Window

/-- Joining takes one task's range out of those that fly. -/
theorem Window.joinNext_some {w w' : Window} {task : Nat} {range : BackfillRange}
    (hsound : w.Sound target) (h : w.joinNext task = some (range, w')) :
    w'.Sound target ∧ Fits target range ∧ w'.waiting target = w.waiting target ∧
      (range.heights ++ w'.flying).Perm w.flying := by
  unfold Window.joinNext at h
  obtain ⟨r, hr, h⟩ := Option.map_eq_some_iff.1 h
  cases h
  obtain ⟨hlt, hget⟩ := List.getElem?_eq_some_iff.1 hr
  have hmem : range ∈ w.joinSet := hget ▸ List.getElem_mem hlt
  have hperm : (range :: w.joinSet.eraseIdx (task % w.joinSet.length)).Perm w.joinSet := by
    rw [← hget]
    exact List.getElem_cons_eraseIdx_perm hlt
  refine ⟨⟨fun r hr => ?_, hsound.queued, ?_⟩, hsound.joinSet range hmem, rfl, ?_⟩
  · exact hsound.joinSet r (hperm.subset (List.mem_cons_of_mem _ hr))
  · have := hperm.length_eq
    rw [List.length_cons] at this
    have := hsound.inFlight
    show w.inFlight - 1 = (w.joinSet.eraseIdx (task % w.joinSet.length)).length
    omega
  · have := hperm.flatMap_right BackfillRange.heights
    rwa [List.flatMap_cons] at this

/-! ## Pending ranges -/

variable {L κ : Type}

/-- The heights of the pending ranges. -/
def pendingHeights (c : OrderedCommitCoordinator L) : List Nat :=
  c.pending.toList.flatMap fun entry => entry.2.range.heights

/-- The heights committed, in commit order. -/
def committedHeights (attempts : List (FetchedRange L × Bool)) : List Nat :=
  (committedHeaders attempts).map (·.height)

section
variable {c : OrderedCommitCoordinator L} {fetched : FetchedRange L} {height : Nat}

theorem mem_pendingHeights : height ∈ pendingHeights c ↔
    ∃ (key : Nat) (f : FetchedRange L), c.pending[key]? = some f ∧ height ∈ f.range.heights := by
  unfold pendingHeights
  rw [List.mem_flatMap]
  constructor
  · intro hex
    obtain ⟨entry, hmem, hheight⟩ := hex
    exact ⟨entry.1, entry.2, Std.TreeMap.mem_toList_iff_getElem?_eq_some.1 hmem, hheight⟩
  · intro hex
    obtain ⟨key, f, hget, hheight⟩ := hex
    exact ⟨(key, f), Std.TreeMap.mem_toList_iff_getElem?_eq_some.2 hget, hheight⟩

/-- A range parked at a free height adds its own heights. -/
theorem pendingHeights_park (hfree : fetched.range.fromBlock ∉ c.pending) :
    (pendingHeights (c.park fetched)).Perm (fetched.range.heights ++ pendingHeights c) := by
  have hperm := @Std.TreeMap.toList_insert_perm Nat (FetchedRange L) compare c.pending _ _ _
    fetched.range.fromBlock fetched
  have hkeep : c.pending.toList.filter (fun entry => ¬ fetched.range.fromBlock == entry.1) =
      c.pending.toList := by
    refine List.filter_eq_self.2 fun entry hentry => ?_
    have hin := Std.TreeMap.mem_toList_iff_getElem?_eq_some.1 hentry
    have hmem : entry.1 ∈ c.pending := by
      rw [Std.TreeMap.mem_iff_isSome_getElem?, hin]
      rfl
    simp only [decide_eq_true_eq, beq_iff_eq]
    intro heq
    exact hfree (heq ▸ hmem)
  rw [hkeep] at hperm
  have := hperm.flatMap_right fun entry : Nat × FetchedRange L => entry.2.range.heights
  rwa [List.flatMap_cons] at this

/-- The ready range takes its heights along. -/
theorem pendingHeights_pop (hnext : c.pending[c.nextHeight]? = some fetched)
    (hkey : fetched.range.fromBlock = c.nextHeight) :
    (fetched.range.heights ++ pendingHeights c.pop).Perm (pendingHeights c) := by
  have hfree : fetched.range.fromBlock ∉ c.pop.pending := by
    rw [hkey]
    show c.nextHeight ∉ c.pending.erase c.nextHeight
    simp
  refine (pendingHeights_park hfree).symm.trans ?_
  have hequiv : (c.pop.park fetched).pending.Equiv c.pending := by
    refine Std.TreeMap.Equiv.of_forall_constGet?_eq fun key => ?_
    show ((c.pending.erase c.nextHeight).insert fetched.range.fromBlock fetched)[key]? = _
    rw [Std.TreeMap.getElem?_insert, Std.TreeMap.getElem?_erase, hkey]
    by_cases heq : c.nextHeight = key
    · subst heq
      simp [hnext]
    · have hne : ¬ compare c.nextHeight key = .eq := by simpa using heq
      simp [hne]
  exact (Std.TreeMap.equiv_iff_toList_perm.1 hequiv).flatMap_right _

end

/-! ## Pushing -/

section
variable {full : BackfillRange} {anchor : Option BlockHeader} {c : OrderedCommitCoordinator L}
  {attempts : List (FetchedRange L × Bool)} {fetched : FetchedRange L} {heights : List Nat}

/-- No pending range is empty. -/
def Proper (c : OrderedCommitCoordinator L) : Prop :=
  ∀ (key : Nat) (f : FetchedRange L), c.pending[key]? = some f → f.range.fromBlock ≤ f.range.toBlock

/-- The coordinator between two pushes: the committed and the pending heights are these. -/
structure Has (full : BackfillRange) (anchor : Option BlockHeader) (heights : List Nat)
    (c : OrderedCommitCoordinator L) (attempts : List (FetchedRange L × Bool)) : Prop where
  inOrder : InOrder full.fromBlock full.toBlock anchor c attempts
  proper : Proper c
  perm : (committedHeights attempts ++ pendingHeights c).Perm heights

/-- `next_height` is the height after the committed ones. -/
theorem Has.nextHeight (h : Has full anchor heights c attempts) (hle : full.fromBlock ≤ full.toBlock)
    (htarget : full.toBlock < u64Max) (hsub : ∀ n ∈ heights, n ≤ full.toBlock) :
    c.nextHeight = full.fromBlock + (committedHeights attempts).length ∧
      c.nextHeight ≤ full.toBlock + 1 ∧
      committedHeights attempts =
        List.range' full.fromBlock (c.nextHeight - full.fromBlock) := by
  have hheights := h.inOrder.heights
  have hlen : (committedHeights attempts).length = (committedHeaders attempts).length :=
    List.length_map _
  have hnext := h.inOrder.nextHeight
  cases hend : (committedHeaders attempts).getLast? with
  | none =>
    have hnil := List.getLast?_eq_none_iff.1 hend
    rw [hend] at hnext
    have hnext : c.nextHeight = full.fromBlock := hnext
    have hzero : (committedHeights attempts).length = 0 := by rw [hlen, hnil]; rfl
    refine ⟨by omega, by omega, ?_⟩
    rw [hnext, Nat.sub_self, List.length_eq_zero_iff.1 hzero]
    rfl
  | some last =>
    have hlast := getLast_height hheights hend
    have hin : last.height ∈ heights := by
      refine h.perm.subset (List.mem_append_left _ (List.mem_map.2 ⟨last, ?_, rfl⟩))
      exact List.mem_of_getLast? hend
    have := hsub _ hin
    rw [hend] at hnext
    have hnext : c.nextHeight = last.height + 1 := by
      rw [hnext]
      show satAdd last.height 1 = _
      unfold satAdd
      omega
    refine ⟨by omega, by omega, ?_⟩
    rw [hnext, hlast, Nat.add_sub_cancel_left]
    exact hheights

theorem heights_eq (hle : fetched.range.fromBlock ≤ fetched.range.toBlock)
    (hto : fetched.range.toBlock < u64Max) :
    fetched.headers.map (·.height) = fetched.range.heights := by
  have := BackfillRange.len_eq hle hto
  rw [fetched.map_height]
  unfold BackfillRange.heights
  congr 1
  omega

theorem Has.park (h : Has full anchor heights c attempts) (hfits : Fits full.toBlock fetched.range)
    (hfree : fetched.range.fromBlock ∉ c.pending) :
    Has full anchor (heights ++ fetched.range.heights) (c.park fetched) attempts := by
  refine ⟨h.inOrder.park (by rw [h.inOrder.targetHeight]; exact hfits.2), fun key f hget => ?_, ?_⟩
  · have hget : (c.pending.insert fetched.range.fromBlock fetched)[key]? = some f := hget
    rw [Std.TreeMap.getElem?_insert] at hget
    split at hget
    · obtain rfl := Option.some.inj hget
      exact hfits.1
    · exact h.proper key f hget
  · refine List.perm_iff_count.2 fun n => ?_
    have hold := List.perm_iff_count.1 h.perm n
    have hparked := List.perm_iff_count.1 (pendingHeights_park hfree) n
    simp only [List.count_append] at hold hparked ⊢
    omega

/-- A commit moves the heights of the ready range behind the committed ones. -/
theorem Has.commit {last : BlockHeader} (h : Has full anchor heights c attempts)
    (htarget : full.toBlock < u64Max) (hnext : c.pending[c.nextHeight]? = some fetched)
    (hlast : fetched.headers.getLast? = some last) (hlinks : c.Links fetched) :
    Has full anchor heights (c.pop.advance last) (attempts ++ [(fetched, true)]) := by
  obtain ⟨hkey, hto⟩ := h.inOrder.keys _ _ hnext
  refine ⟨h.inOrder.commit hnext hlast hlinks, fun key f hget => h.proper key f (getElem?_pop hget), ?_⟩
  have hheights : committedHeights (attempts ++ [(fetched, true)]) =
      committedHeights attempts ++ fetched.range.heights := by
    unfold committedHeights
    rw [committedHeaders_true, List.map_append,
      heights_eq (h.proper _ _ hnext) (Nat.lt_of_le_of_lt hto htarget)]
  refine List.perm_iff_count.2 fun n => ?_
  have hold := List.perm_iff_count.1 h.perm n
  have hpopped := List.perm_iff_count.1 (pendingHeights_pop hnext hkey) n
  show ((committedHeights (attempts ++ [(fetched, true)])) ++ pendingHeights c.pop).count n = _
  rw [hheights]
  simp only [List.count_append] at hold hpopped ⊢
  omega

theorem pendingHeights_cleared : pendingHeights c.cleared = [] := by
  simp [pendingHeights, OrderedCommitCoordinator.cleared]

/-- **A push of a range that no one else holds**: it is not refused. Its heights are kept, pending
or committed; or the suffix is invalid, nothing stays pending and `next_height` is where the fetch
starts again; or the sink fails. -/
theorem push_kept {κ : Type} {commitRange : CommitRange κ L} {k : κ}
    {rest : List Nat} (hle : full.fromBlock ≤ full.toBlock) (htarget : full.toBlock < u64Max)
    (h : Has full anchor heights c attempts)
    (hfits : Fits full.toBlock fetched.range)
    (hall : (heights ++ fetched.range.heights ++ rest).Perm full.heights) :
    wp (OrderedCommitCoordinator.push (recorded commitRange) fetched)
      (fun _ s => Has full anchor (heights ++ fetched.range.heights) s.1 s.2.2 ∧ Rests s.1)
      (fun e s => (∃ message, e = .commit message) ∨
        ∃ expected actual, e = .fetchedSuffixInvalidated s.1.nextHeight expected actual ∧
          Has full anchor (committedHeights s.2.2) s.1 s.2.2 ∧ Rests s.1 ∧
            committedHeights s.2.2 ++
              List.range' s.1.nextHeight (full.toBlock + 1 - s.1.nextHeight) = full.heights)
      (c, (k, attempts)) := by
  have hsub : ∀ n ∈ heights ++ fetched.range.heights, full.fromBlock ≤ n ∧ n ≤ full.toBlock := by
    intro n hn
    exact mem_heights_iff.1 (hall.subset (List.mem_append_left rest hn))
  have hnodup : (heights ++ fetched.range.heights).Nodup := by
    have hfull : full.heights.Nodup := List.nodup_range'
    exact (List.nodup_append.1 (hall.nodup_iff.2 hfull)).1
  have hfrom : fetched.range.fromBlock ∈ fetched.range.heights :=
    mem_heights_iff.2 ⟨Nat.le_refl _, hfits.1⟩
  have hnew : fetched.range.fromBlock ∉ heights := fun hin =>
    (List.nodup_append.1 hnodup).2.2 _ hin _ hfrom rfl
  refine OrderedCommitCoordinator.push_rule (fun e c' hrefused => ?_) fun _ _ hfree => ?_
  · cases hrefused with
    | beyond hbeyond =>
      have := hfits.2
      rw [h.inOrder.targetHeight] at hbeyond
      omega
    | stale hstale =>
      obtain ⟨-, -, hcommitted⟩ := h.nextHeight hle htarget fun n hn =>
        (hsub n (List.mem_append_left _ hn)).2
      refine absurd (h.perm.subset (List.mem_append_left _ ?_)) hnew
      rw [hcommitted, List.mem_range'_1]
      have := (hsub _ (List.mem_append_right _ hfrom)).1
      omega
    | duplicate _ _ hdup =>
      obtain ⟨f, hf⟩ := Option.isSome_iff_exists.1 (Std.TreeMap.mem_iff_isSome_getElem?.1 hdup)
      refine absurd (h.perm.subset (List.mem_append_right _ ?_)) hnew
      refine mem_pendingHeights.2 ⟨_, f, hf, mem_heights_iff.2 ?_⟩
      have hkey := (h.inOrder.keys _ _ hf).1
      have := h.proper _ _ hf
      omega
  · refine OrderedCommitCoordinator.drainLoop_wp
      (I := fun _ c s => Has full anchor (heights ++ fetched.range.heights) c s.2) ?_ ?_ ?_
      (h.park hfits hfree) (Nat.le_refl _)
    · intro _ c s f last hI hnext hlast hlinks
      exact wp_recorded (fun _ => hI.commit htarget hnext hlast hlinks) fun e _ => .inl ⟨e, rfl⟩
    · intro _ c s f expected actual hI hnext _
      obtain ⟨hclear, hrest⟩ := hI.inOrder.clear
      obtain ⟨-, hbound, hcommitted⟩ := hI.nextHeight hle htarget fun n hn => (hsub n hn).2
      refine .inr ⟨expected, actual, ?_, ⟨hclear, ?_, ?_⟩, hrest, ?_⟩
      · rw [(hI.inOrder.keys _ _ hnext).1]
        rfl
      · intro key f hget
        simp [OrderedCommitCoordinator.cleared] at hget
      · rw [pendingHeights_cleared, List.append_nil]
      · have hge : full.fromBlock ≤ c.nextHeight := by
          have := (hI.nextHeight hle htarget fun n hn => (hsub n hn).2).1
          omega
        show committedHeights s.2 ++
          List.range' c.nextHeight (full.toBlock + 1 - c.nextHeight) = full.heights
        have hat : c.nextHeight = full.fromBlock + (c.nextHeight - full.fromBlock) := by omega
        unfold BackfillRange.heights
        rw [hcommitted]
        nth_rewrite 2 [hat]
        rw [List.range'_append_1]
        congr 1
        omega
    · intro _ c s hI hnone
      exact ⟨hI, hnone⟩

end

end

/-! ## The run -/

section
variable {σ κ : Type}

/-- A run whose sink records its commits. -/
abbrev RecordedRun (σ κ : Type) := Run σ (κ × List (FetchedRange IndexedBlock × Bool))

/-- The heights in the five places: committed, pending, with a task, queued, in the tail. -/
def Run.held (full : BackfillRange) (run : RecordedRun σ κ) : List Nat :=
  committedHeights run.sink.2 ++ pendingHeights run.coordinator ++ run.window.flying ++
    run.window.queuedHeights ++ run.window.tail full.toBlock

/-- **The invariant of the loop.** -/
structure Balanced (full : BackfillRange) (anchor : Option BlockHeader) (run : RecordedRun σ κ) :
    Prop where
  has : ∃ heights, Has full anchor heights run.coordinator run.sink.2
  rests : Rests run.coordinator
  sound : run.window.Sound full.toBlock
  held : (run.held full).Perm full.heights

/-- What is waiting waits for a task. -/
def Busy (full : BackfillRange) (run : RecordedRun σ κ) : Prop :=
  run.window.joinSet = [] → run.window.waiting full.toBlock = []

/-- No refusal and no early end. -/
def PipelineError.Expected : PipelineError → Prop
  | .taskPanicked => True
  | .push (.commit _) => True
  | .push _ => False
  | .fetch _ => True
  | .incomplete _ => False

variable {full : BackfillRange} {anchor : Option BlockHeader} {run : RecordedRun σ κ}

theorem Run.held_eq : run.held full = committedHeights run.sink.2 ++ pendingHeights run.coordinator ++
    (run.window.flying ++ run.window.waiting full.toBlock) := by
  unfold Run.held Window.waiting
  simp only [List.append_assoc]

/-- The loop ends with everything committed. -/
theorem Balanced.ended (h : Balanced full anchor run) (hle : full.fromBlock ≤ full.toBlock)
    (htarget : full.toBlock < u64Max) (hbusy : Busy full run) (hidle : run.window.joinSet = []) :
    run.coordinator.isComplete = true ∧ committedHeights run.sink.2 = full.heights := by
  obtain ⟨heights, hhas⟩ := h.has
  have hheld := h.held
  have hflying : run.window.flying = [] := by unfold Window.flying; rw [hidle]; rfl
  rw [Run.held_eq, hflying, hbusy hidle, List.append_nil, List.append_nil] at hheld
  have hperm : heights.Perm full.heights := hhas.perm.symm.trans hheld
  obtain ⟨hnext, hbound, hcommitted⟩ := hhas.nextHeight hle htarget fun n hn =>
    (mem_heights_iff.1 (hperm.subset hn)).2
  -- A height that is not committed would be pending, and then the next range would be ready.
  have hdone : run.coordinator.nextHeight = full.toBlock + 1 := by
    by_contra hne
    have hin : run.coordinator.nextHeight ∈ full.heights :=
      mem_heights_iff.2 (by omega)
    have hnodup : (committedHeights run.sink.2 ++ pendingHeights run.coordinator).Nodup :=
      hheld.nodup_iff.2 List.nodup_range'
    cases List.mem_append.1 (hheld.mem_iff.2 hin) with
    | inl hc =>
      rw [hcommitted, List.mem_range'_1] at hc
      omega
    | inr hp =>
      obtain ⟨key, f, hget, hheight⟩ := mem_pendingHeights.1 hp
      have hkey := (hhas.inOrder.keys _ _ hget).1
      have hproper := hhas.proper _ _ hget
      have hfirst : f.range.fromBlock ∈ pendingHeights run.coordinator :=
        mem_pendingHeights.2 ⟨key, f, hget, mem_heights_iff.2 ⟨Nat.le_refl _, hproper⟩⟩
      rw [mem_heights_iff] at hheight
      have hge : run.coordinator.nextHeight ≤ f.range.fromBlock := by
        by_contra hlt
        have hfrom := mem_heights_iff.1 (hheld.subset (List.mem_append_right _ hfirst))
        refine (List.nodup_append.1 hnodup).2.2 _ ?_ _ hfirst rfl
        rw [hcommitted, List.mem_range'_1]
        omega
      have heq : key = run.coordinator.nextHeight := by omega
      have hrests := h.rests
      unfold Rests at hrests
      rw [← heq, hget] at hrests
      cases hrests
  constructor
  · unfold OrderedCommitCoordinator.isComplete
    rw [hhas.inOrder.targetHeight]
    simp
    omega
  · rw [hcommitted, hdone]
    rfl

/-- Filling the window keeps the balance, and what waits then waits for a task. -/
theorem Balanced.fill (h : Balanced full anchor run) (htarget : full.toBlock < u64Max)
    {workers : Nat} (hworkers : 0 < workers) :
    Balanced full anchor (run.onWindow (Window.fillFetchWindow workers full.toBlock)) ∧
      Busy full (run.onWindow (Window.fillFetchWindow workers full.toBlock)) := by
  obtain ⟨hsound, hheights, -⟩ :=
    Window.fill_spec htarget (workers - run.window.inFlight) h.sound
  refine ⟨⟨h.has, h.rests, hsound, ?_⟩, fun hidle => ?_⟩
  · have hheld := h.held
    rw [Run.held_eq] at hheld ⊢
    rw [← hheights] at hheld
    exact hheld
  · exact Window.fillFetchWindow_busy htarget hworkers h.sound hidle

/-- One range is out of all places, with the task that was joined. -/
structure Joined (full : BackfillRange) (anchor : Option BlockHeader) (range : BackfillRange)
    (run : RecordedRun σ κ) : Prop where
  has : ∃ heights, Has full anchor heights run.coordinator run.sink.2
  rests : Rests run.coordinator
  sound : run.window.Sound full.toBlock
  fits : Fits full.toBlock range
  held : (range.heights ++ run.held full).Perm full.heights

theorem Balanced.join (h : Balanced full anchor run) {task : Nat} {range : BackfillRange}
    {window : Window} (hjoin : run.window.joinNext task = some (range, window)) :
    Joined full anchor range (run.onWindow fun _ => window) := by
  obtain ⟨hsound, hfits, hwaiting, hflying⟩ := Window.joinNext_some h.sound hjoin
  refine ⟨h.has, h.rests, hsound, hfits, ?_⟩
  have hheld := h.held
  rw [Run.held_eq] at hheld ⊢
  refine List.perm_iff_count.2 fun n => ?_
  have hold := List.perm_iff_count.1 hheld n
  have hfly := List.perm_iff_count.1 hflying n
  show (range.heights ++ (committedHeights run.sink.2 ++ pendingHeights run.coordinator ++
    (window.flying ++ window.waiting full.toBlock))).count n = _
  rw [hwaiting]
  simp only [List.count_append] at hold hfly ⊢
  omega

/-- What the coordinator holds, the joined range and the rest of the window are all there is. -/
theorem Joined.all {range : BackfillRange} {fetched : FetchedRange IndexedBlock} {heights : List Nat}
    (h : Joined full anchor range run) (hhas : Has full anchor heights run.coordinator run.sink.2)
    (hrange : fetched.range = range) :
    (heights ++ fetched.range.heights ++
      (run.window.flying ++ run.window.waiting full.toBlock)).Perm full.heights := by
  refine List.perm_iff_count.2 fun n => ?_
  have hheld := List.perm_iff_count.1 h.held n
  have hperm := List.perm_iff_count.1 hhas.perm n
  rw [Run.held_eq] at hheld
  rw [hrange]
  simp only [List.count_append] at hheld hperm ⊢
  omega

/-- A range the provider refused is queued again, in chunks. -/
theorem Joined.split {range : BackfillRange} (h : Joined full anchor range run)
    (htarget : full.toBlock < u64Max) :
    Balanced full anchor (run.onWindow (Window.splitRange range)) := by
  have hto := Nat.lt_of_le_of_lt h.fits.2 htarget
  obtain ⟨hheights, hfits⟩ := enqueueChunksFront_spec hto run.window.queued range.fromBlock
    run.window.sizer.recordProviderLimit.currentBlocks
  refine ⟨h.has, h.rests, ⟨h.sound.joinSet, fun r hr => ?_, h.sound.inFlight⟩, ?_⟩
  · cases hfits r hr with
    | inl hfit => exact ⟨hfit.1, Nat.le_trans hfit.2 h.fits.2⟩
    | inr hr => exact h.sound.queued r hr
  · refine List.perm_iff_count.2 fun n => ?_
    have hold := List.perm_iff_count.1 h.held n
    have hqueue := congrArg (List.count n) hheights
    show (committedHeights run.sink.2 ++ pendingHeights run.coordinator ++ run.window.flying ++
      List.flatMap BackfillRange.heights (enqueueChunksFront run.window.queued range.fromBlock
        range.toBlock run.window.sizer.recordProviderLimit.currentBlocks) ++
      run.window.tail full.toBlock).count n = _
    unfold Run.held Window.queuedHeights BackfillRange.heights at hold
    unfold BackfillRange.heights at hqueue ⊢
    simp only [List.count_append] at hold hqueue ⊢
    omega

section
variable {provider : Provider σ} {config : AdaptiveFetchConfig}
  {commitRange : CommitRange κ IndexedBlock} {Q : Unit → RecordedRun σ κ → Prop}
  {E : PipelineError → RecordedRun σ κ → Prop}

/-- **A range that arrived** is pushed: its heights are kept, or everything not committed is cut
again. -/
theorem Joined.push {range : BackfillRange} {fetched : FetchedRange IndexedBlock}
    (h : Joined full anchor range run) (hle : full.fromBlock ≤ full.toBlock)
    (htarget : full.toBlock < u64Max) (hrange : fetched.range = range) :
    wp (pushRange full (recorded commitRange) fetched)
      (fun _ run => Balanced full anchor run) (fun e _ => e.Expected) run := by
  obtain ⟨heights, hhas⟩ := h.has
  have hall := h.all hhas hrange
  unfold pushRange
  rw [wp_bind, wp_modify, wp_bind, wp_get, wp_bind]
  refine wp_attempt (wp_zoom (wp_mono (push_kept (k := run.sink.1) hle htarget hhas
    (hrange ▸ h.fits) hall) (fun progress s hs => ?_) fun e s hs => ?_))
  · obtain ⟨hhas', hrests⟩ := hs
    refine ⟨⟨_, hhas'⟩, hrests, ⟨h.sound.joinSet, h.sound.queued, h.sound.inFlight⟩, ?_⟩
    rw [Run.held_eq]
    exact (hhas'.perm.append_right _).trans hall
  · obtain ⟨message, rfl⟩ | ⟨expected, actual, rfl, hhas', hrests, hcut⟩ := hs
    · exact trivial
    dsimp only
    rw [wp_modify]
    obtain ⟨hheights, hfits⟩ := enqueueChunksFront_spec htarget [] s.1.nextHeight
      run.window.sizer.recordSuccess.currentBlocks
    refine ⟨⟨_, hhas'⟩, hrests, ⟨fun r hr => ?_, fun r hr => ?_, rfl⟩, ?_⟩
    · cases hr
    · exact (hfits r hr).resolve_right List.not_mem_nil
    · -- Nothing but the committed heights and the chunks is left.
      have hsat : satAdd full.toBlock 1 = full.toBlock + 1 := by
        unfold satAdd
        omega
      have hpending : pendingHeights s.1 = [] := by
        have hlen := hhas'.perm.length_eq
        rw [List.length_append] at hlen
        exact List.length_eq_zero_iff.1 (by omega)
      show (committedHeights s.2.2 ++ pendingHeights s.1 ++ [] ++
        List.flatMap BackfillRange.heights (enqueueChunksFront [] s.1.nextHeight full.toBlock
          run.window.sizer.recordSuccess.currentBlocks) ++
        List.range' (satAdd full.toBlock 1) (full.toBlock + 1 - satAdd full.toBlock 1)).Perm _
      rw [hheights, hpending, hsat, Nat.sub_self, List.append_nil, List.append_nil, List.flatMap_nil,
        List.append_nil, hcut]
      simp

/-- **One round** keeps the balance. -/
theorem round_wp (h : Balanced full anchor run) (hbusy : Busy full run)
    (hle : full.fromBlock ≤ full.toBlock) (htarget : full.toBlock < u64Max)
    (completion : Completion) :
    wp (round provider config full (recorded commitRange) completion)
      (fun _ run => Balanced full anchor run ∧ Busy full run) (fun e _ => e.Expected) run := by
  have h : Balanced full anchor (run.spend completion.spent) := ⟨h.has, h.rests, h.sound, h.held⟩
  have hbusy : Busy full (run.spend completion.spent) := hbusy
  refine round_rule rfl (fun _ => ⟨h, hbusy⟩) (fun _ => trivial) fun range window hjoin _ => ?_
  have hjoined := h.join hjoin
  have hend : ∀ run : RecordedRun σ κ, Balanced full anchor run →
      Balanced full anchor (run.onWindow (Window.fillFetchWindow config.workers full.toBlock)) ∧
        Busy full (run.onWindow (Window.fillFetchWindow config.workers full.toBlock)) :=
    fun run hrun => hrun.fill htarget config.workers_pos
  refine wp_mono (fetchRange_about provider range config _) (fun fetched shared hrange => ?_)
    fun e shared habout => ?_
  · have hshared : Joined full anchor range { run.spend completion.spent with shared, window } :=
      ⟨hjoined.has, hjoined.rests, hjoined.sound, hjoined.fits, hjoined.held⟩
    exact wp_mono (hshared.push hle htarget hrange) (fun _ run hrun => hend run hrun) fun _ _ he => he
  · have hshared : Joined full anchor range { run.spend completion.spent with shared, window } :=
      ⟨hjoined.has, hjoined.rests, hjoined.sound, hjoined.fits, hjoined.held⟩
    refine ⟨fun refused source heq => ?_, fun _ => trivial⟩
    subst heq
    obtain rfl : refused = range := habout refused rfl
    exact hend _ (hshared.split htarget)

/-- **The loop** keeps the balance, and when it ends everything is committed. -/
theorem loop_wp (h : Balanced full anchor run) (hbusy : Busy full run)
    (hle : full.fromBlock ≤ full.toBlock) (htarget : full.toBlock < u64Max)
    (completions : List Completion) :
    wp (loop provider config full (recorded commitRange) completions)
      (fun progress run => Balanced full anchor run ∧
        (progress.isSome = true → committedHeights run.sink.2 = full.heights))
      (fun e _ => e.Expected) run := by
  refine loop_rule (I := fun run => Balanced full anchor run ∧ Busy full run)
    (fun completion _ hI => round_wp hI.1 hI.2 hle htarget completion) (fun run hI hidle _ => ?_)
    (fun run hI hidle hshort => ?_) (fun _ hI => ⟨hI.1, by simp⟩) ⟨h, hbusy⟩ completions
  · have hended := hI.1.ended hle htarget hI.2 (List.isEmpty_iff.1 hidle)
    exact ⟨hI.1, fun _ => hended.2⟩
  · -- The loop does not end before the coordinator is complete.
    have hended := hI.1.ended hle htarget hI.2 (List.isEmpty_iff.1 hidle)
    rw [hended.1] at hshort
    cases hshort

end

/-- The start is balanced, and its window is filled. -/
theorem balanced_start {coordinator : OrderedCommitCoordinator IndexedBlock}
    (hnew : OrderedCommitCoordinator.new full.fromBlock full.toBlock anchor = .ok coordinator)
    (htarget : full.toBlock < u64Max) {workers : Nat} (hworkers : 0 < workers) (sizer : LogRangeSizer)
    (shared : Shared σ) (k : κ) :
    let start : RecordedRun σ κ := ⟨shared, coordinator, (k, []), Window.start workers full sizer⟩
    Balanced full anchor start ∧ Busy full start := by
  obtain ⟨hidle, -, -, -⟩ := idle_new hnew
  obtain ⟨hinOrder, hrests⟩ := inOrder_new hnew
  have hempty : coordinator.pending = ∅ := eq_empty_of_forall fun n => by
    rw [Std.TreeMap.getElem?_eq_none]
    exact hidle.pending n
  have hpending : pendingHeights coordinator = [] := by
    unfold pendingHeights
    rw [hempty]
    simp
  have hstart : Balanced full anchor
      (⟨shared, coordinator, (k, []), { nextUnallocated := full.fromBlock, sizer }⟩ :
        RecordedRun σ κ) := by
    refine ⟨⟨[], hinOrder, fun key f hget => ?_, ?_⟩, hrests, ⟨by simp, by simp, rfl⟩, ?_⟩
    · rw [hempty] at hget
      simp at hget
    · rw [hpending]
      exact List.Perm.refl _
    · unfold Run.held
      rw [hpending]
      exact List.Perm.refl _
  exact hstart.fill htarget hworkers

/-- **The whole run**, from a new coordinator. -/
theorem fetchAndCommitRanges_wp {coordinator : OrderedCommitCoordinator IndexedBlock}
    (hnew : OrderedCommitCoordinator.new full.fromBlock full.toBlock anchor = .ok coordinator)
    (htarget : full.toBlock < u64Max) (provider : Provider σ) (config : AdaptiveFetchConfig)
    (commitRange : CommitRange κ IndexedBlock) (sizer : LogRangeSizer)
    (completions : List Completion) (shared : Shared σ) (k : κ) (window : Window) :
    wp (fetchAndCommitRanges provider config full (recorded commitRange) sizer completions)
      (fun progress run => Balanced full anchor run ∧
        (progress.isSome = true → committedHeights run.sink.2 = full.heights))
      (fun (e : PipelineError) _ => e.Expected) ⟨shared, coordinator, (k, []), window⟩ := by
  obtain ⟨-, hle, -, -⟩ := idle_new hnew
  obtain ⟨hfilled, hbusy⟩ := balanced_start hnew htarget config.workers_pos sizer shared k
  unfold fetchAndCommitRanges
  rw [wp_bind, wp_modify]
  exact loop_wp hfilled hbusy hle htarget completions

/-- **The pipeline loses and repeats nothing.** Whatever tasks complete, in whatever order and with
whatever result, after every round the heights in the five places are those of the full range, each
once. No push is refused, the run does not end before the coordinator is complete, and when it ends
it has committed every height once, in ascending order. -/
theorem loses_nothing (full : BackfillRange) {anchor : Option BlockHeader}
    {coordinator : OrderedCommitCoordinator IndexedBlock}
    (hnew : OrderedCommitCoordinator.new full.fromBlock full.toBlock anchor = .ok coordinator)
    (htarget : full.toBlock < u64Max) (provider : Provider σ) (config : AdaptiveFetchConfig)
    (commitRange : CommitRange κ IndexedBlock)
    (sizer : LogRangeSizer) (completions : List Completion) (shared : Shared σ) (k : κ)
    (window : Window) :
    let outcome := exec (fetchAndCommitRanges provider config full (recorded commitRange) sizer
      completions) ⟨shared, coordinator, (k, []), window⟩
    (∀ progress, outcome.1 = .ok progress → (outcome.2.held full).Perm full.heights) ∧
      (∀ progress, outcome.1 = .ok (some progress) →
        (committedHeaders outcome.2.sink.2).map (·.height) = full.heights) ∧
      ∀ e, outcome.1 = .error e → (∀ a b, e ≠ .push (.rangeBeyondTarget a b)) ∧
        (∀ a b, e ≠ .push (.staleRange a b)) ∧ (∀ a, e ≠ .push (.duplicateRange a)) ∧
        ∀ n, e ≠ .incomplete n := by
  intro outcome
  have hwp := fetchAndCommitRanges_wp hnew htarget provider config commitRange sizer completions
    shared k window
  cases hrun : exec (fetchAndCommitRanges provider config full (recorded commitRange) sizer
      completions) ⟨shared, coordinator, (k, []), window⟩ with
  | mk r run =>
    have houtcome : outcome = (r, run) := hrun
    rw [houtcome]
    cases r with
    | ok progress =>
      obtain ⟨hbalanced, hall⟩ := wp_ok hwp hrun
      refine ⟨fun _ _ => hbalanced.held, fun p hp => ?_, by simp⟩
      obtain rfl := Except.ok.inj hp
      exact hall rfl
    | error e =>
      have he := wp_error hwp hrun
      refine ⟨by simp, by simp, fun e' he' => ?_⟩
      obtain rfl := Except.error.inj he'
      refine ⟨fun a b hb => ?_, fun a b hb => ?_, fun a hb => ?_, fun n hb => ?_⟩ <;>
        · subst hb
          exact he

/-- A node whose chain has the hash `n + 1` at height `n`, and which refuses `eth_getLogs` for more
than one block. -/
def smallAnswers : Provider Unit where
  getLogs range _ :=
    if range.fromBlock = range.toBlock then pure []
    else throw (.rpc (.request "query exceeds max block range"))
  getBlocks range := pure (range.heights.map fun n => some ⟨(n + 1 : Nat), (n : Nat), n, 0⟩)

def twoWorkers : AdaptiveFetchConfig where
  workers := 2
  retryPolicy := ⟨2, 1, 1, 0, Nat.two_pos, Nat.one_pos, Nat.one_pos⟩
  filter := none
  abiRegistry := none
  workers_pos := Nat.two_pos

def twoBlockSizer : LogRangeSizer := ⟨2, 1, 2, Nat.one_pos, Nat.two_pos, Nat.one_lt_two⟩

def roomyBudget : RpcBudget := ⟨100, 500, 0, 0, Nat.succ_pos _, Nat.succ_pos _, Nat.zero_le _, Nat.zero_le _⟩

/-- The run of six completions over heights 1 to 4, the sink accepting everything. -/
def smallRun (coordinator : OrderedCommitCoordinator IndexedBlock) :
    Except PipelineError (Option CommitProgress) × RecordedRun Unit Unit :=
  exec (fetchAndCommitRanges smallAnswers twoWorkers ⟨1, 4⟩ (recorded fun _ => pure ()) twoBlockSizer
      [⟨1, [], false⟩, ⟨0, [.getLogs], false⟩, ⟨1, [], false⟩, ⟨1, [], false⟩, ⟨1, [], false⟩,
        ⟨1, [], false⟩])
    ⟨⟨some roomyBudget, ()⟩, coordinator, ((), []), { nextUnallocated := 0, sizer := twoBlockSizer }⟩

/-- `loses_nothing` for heights 1 to 4: both first tasks are refused for their size, and smaller ones
come back last one first. -/
theorem loses_nothing_refused :
    ∃ coordinator, OrderedCommitCoordinator.new 1 4 (some ⟨1, 0, 0⟩) = .ok coordinator ∧
      ((smallRun coordinator).1.toOption.any (·.isSome)) = true ∧
        (committedHeaders (smallRun coordinator).2.sink.2).map (·.height) = [1, 2, 3, 4] := by
  have hnew : OrderedCommitCoordinator.new 1 4 (some ⟨1, 0, 0⟩) =
      .ok (⟨1, 4, some ⟨1, 0, 0⟩, ∅⟩ : OrderedCommitCoordinator IndexedBlock) := rfl
  have hsome : ((smallRun ⟨1, 4, some ⟨1, 0, 0⟩, ∅⟩).1.toOption.any (·.isSome)) = true := by
    decide +kernel
  refine ⟨_, hnew, hsome, ?_⟩
  have hall := (loses_nothing ⟨1, 4⟩ hnew (by decide) smallAnswers twoWorkers
    (fun _ => pure ()) twoBlockSizer
    [⟨1, [], false⟩, ⟨0, [.getLogs], false⟩, ⟨1, [], false⟩, ⟨1, [], false⟩, ⟨1, [], false⟩,
      ⟨1, [], false⟩] ⟨some roomyBudget, ()⟩ () { nextUnallocated := 0, sizer := twoBlockSizer }).2.1
  cases hr : (smallRun ⟨1, 4, some ⟨1, 0, 0⟩, ∅⟩).1 with
  | error e => rw [hr] at hsome; cases hsome
  | ok progress =>
    cases progress with
    | none => rw [hr] at hsome; cases hsome
    | some progress =>
      unfold smallRun
      rw [hall progress hr]
      decide

end

end Chainweave.Pipeline
