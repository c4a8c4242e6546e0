import Chainweave.Core.Backfill

/-!
# What the coordinator does with a range

* `FetchedRange.linked`, `FetchedRange.map_height`: what `FetchedRange::new` has
  checked. A fetched range is a non-empty chain of consecutive heights.
* `insertPending_cases`: the ways a push can be refused.
* `drainLoop_wp`: the rule of the drain loop. Its invariant is shown once for a
  range that links to the parent anchor, and once for one that does not.
* `push_rule`: a push from both.
-/
namespace Chainweave.Backfill

open Stateful HashLink Chainweave.Chain

variable {L κ : Type}

/-! ## Fetched ranges -/

theorem validateFrom_ok {range : BackfillRange} {offset : Nat} {parent : Option BlockHeader}
    {headers : List BlockHeader} (h : validateFrom range offset parent headers = .ok ()) :
    headers.map (·.height) = List.range' (range.fromBlock + offset) headers.length ∧
      Linked (parent.toList ++ headers) := by
  induction headers generalizing offset parent with
  | nil =>
    refine ⟨rfl, ?_⟩
    cases parent with
    | none => exact .nil
    | some p => exact .singleton p
  | cons header headers ih =>
    unfold validateFrom at h
    split at h
    · cases h
    rename_i hheight
    split at h
    · cases h
    rename_i hlink
    obtain ⟨hheights, hlinked⟩ := ih h
    refine ⟨?_, ?_⟩
    · rw [List.map_cons, hheights, List.length_cons, List.range'_succ]
      simp only [ne_eq, not_not] at hheight
      rw [hheight, Nat.add_assoc]
    · cases parent with
      | none => exact hlinked
      | some p =>
        refine List.isChain_cons_cons.2 ⟨?_, hlinked⟩
        simp only [Option.any_some, decide_eq_true_eq, not_or, ne_eq, not_not] at hlink
        exact hlink

namespace BackfillRange

theorem len_pos (range : BackfillRange) : 0 < range.len := by
  unfold len satAdd u64Max
  omega

theorem len_eq {range : BackfillRange} (hle : range.fromBlock ≤ range.toBlock)
    (hto : range.toBlock < u64Max) : range.fromBlock + range.len = range.toBlock + 1 := by
  unfold len satAdd
  omega

end BackfillRange

namespace FetchedRange

variable (fetched : FetchedRange L)

theorem length_headers : fetched.headers.length = fetched.range.len := by
  have h := fetched.valid
  unfold validateHeaders at h
  split at h
  · cases h
  · rename_i hlen
    simpa using hlen

theorem validated : validateFrom fetched.range 0 none fetched.headers = .ok () := by
  have h := fetched.valid
  unfold validateHeaders at h
  split at h
  · cases h
  · exact h

/-- The headers have consecutive heights, from the first of the range. -/
theorem map_height : fetched.headers.map (·.height) =
    List.range' fetched.range.fromBlock fetched.range.len := by
  rw [← length_headers]
  exact (validateFrom_ok fetched.validated).1

theorem linked : Linked fetched.headers := (validateFrom_ok fetched.validated).2

/-- A fetched range is not empty: its first header has the first height, its last the last. -/
theorem exists_ends : ∃ first rest last, fetched.headers = first :: rest ∧
    fetched.headers.getLast? = some last ∧ first.height = fetched.range.fromBlock ∧
    last.height + 1 = fetched.range.fromBlock + fetched.range.len := by
  have hheights := fetched.map_height
  have hlen := fetched.range.len_pos
  cases hh : fetched.headers with
  | nil => rw [hh, List.map_nil] at hheights; simp at hheights; omega
  | cons first rest =>
    have hlast : ∃ last, (first :: rest).getLast? = some last :=
      Option.isSome_iff_exists.1 (List.getLast?_isSome.2 (by simp))
    obtain ⟨last, hlast⟩ := hlast
    refine ⟨first, rest, last, rfl, hlast, ?_, ?_⟩
    · have hhead := congrArg List.head? hheights
      rw [hh, List.head?_range'] at hhead
      simpa [Nat.ne_of_gt hlen] using hhead
    · have hend := congrArg List.getLast? hheights
      rw [hh, List.getLast?_map, hlast, List.getLast?_range'] at hend
      simp [Nat.ne_of_gt hlen] at hend
      omega

end FetchedRange

/-! ## Ranges of one block -/

theorem BackfillRange.new_self (height : Nat) :
    BackfillRange.new height height = .ok ⟨height, height⟩ := by
  unfold BackfillRange.new
  rw [if_neg (Nat.lt_irrefl _)]

theorem BackfillRange.len_self (height : Nat) : (⟨height, height⟩ : BackfillRange).len = 1 := by
  unfold BackfillRange.len satAdd
  rw [Nat.sub_self]
  decide

theorem validateHeaders_one {height : Nat} {header : BlockHeader} {u : Unit} :
    validateHeaders ⟨height, height⟩ [header] = .ok u ↔ header.height = height := by
  unfold validateHeaders
  rw [BackfillRange.len_self, if_neg (by simp)]
  unfold validateFrom
  by_cases h : header.height = height
  · rw [if_neg (by simpa using h)]
    simp [h, validateFrom]
  · rw [if_pos (by simpa using h)]
    simp [h]

/-! ## New coordinators -/

/-- A coordinator that holds nothing back. -/
structure Idle (coordinator : OrderedCommitCoordinator L) (nextHeight targetHeight : Nat)
    (parentAnchor : Option BlockHeader) : Prop where
  nextHeight : coordinator.nextHeight = nextHeight
  targetHeight : coordinator.targetHeight = targetHeight
  parentAnchor : coordinator.parentAnchor = parentAnchor
  pending : ∀ height, height ∉ coordinator.pending

theorem idle_new {fromBlock target : Nat} {anchor : Option BlockHeader}
    {coordinator : OrderedCommitCoordinator L}
    (h : OrderedCommitCoordinator.new fromBlock target anchor = .ok coordinator) :
    Idle coordinator fromBlock target anchor ∧ fromBlock ≤ target ∧
      (anchor = none → fromBlock = 0) ∧ ∀ a ∈ anchor, fromBlock = a.height + 1 := by
  unfold OrderedCommitCoordinator.new at h
  dsimp only at h
  split at h
  · cases h
  rename_i hle
  split at h
  · rename_i hzero
    split at h
    · cases h
    · rename_i hnone
      cases h
      have hn : anchor = none := by simpa using hnone
      exact ⟨⟨rfl, rfl, rfl, by simp⟩, by omega, fun _ => hzero, by simp [hn]⟩
  · split at h
    · cases h
    · split at h
      · cases h
      · rename_i ha
        cases h
        exact ⟨⟨rfl, rfl, rfl, by simp⟩, by omega, by simp, by
          simp only [Option.mem_def, Option.some.injEq, forall_eq']; omega⟩

theorem new_exists {fromBlock target : Nat} {anchor : Option BlockHeader} (hle : fromBlock ≤ target)
    (hnone : anchor = none → fromBlock = 0) (hsome : ∀ a ∈ anchor, fromBlock = a.height + 1) :
    ∃ coordinator : OrderedCommitCoordinator L,
      OrderedCommitCoordinator.new fromBlock target anchor = .ok coordinator := by
  unfold OrderedCommitCoordinator.new
  dsimp only
  rw [if_neg (by omega)]
  cases anchor with
  | none => rw [if_pos (hnone rfl)]; exact ⟨_, rfl⟩
  | some a =>
    have := hsome a rfl
    rw [if_neg (by omega)]
    dsimp only
    rw [if_neg (by omega)]
    exact ⟨_, rfl⟩

namespace OrderedCommitCoordinator

/-! ## Parts of a push -/

/-- With a range put among the pending ones. -/
def park (self : OrderedCommitCoordinator L) (fetched : FetchedRange L) :
    OrderedCommitCoordinator L :=
  { self with pending := self.pending.insert fetched.range.fromBlock fetched }

/-- Without the range at `next_height`. -/
def pop (self : OrderedCommitCoordinator L) : OrderedCommitCoordinator L :=
  { self with pending := self.pending.erase self.nextHeight }

/-- After a commit up to `last`. -/
def advance (self : OrderedCommitCoordinator L) (last : BlockHeader) : OrderedCommitCoordinator L :=
  { self with parentAnchor := some last, nextHeight := satAdd last.height 1 }

/-- Without any pending range. -/
def cleared (self : OrderedCommitCoordinator L) : OrderedCommitCoordinator L :=
  { self with pending := ∅ }

/-- The ways a range can be refused, and the pending ranges after it. -/
inductive Refused (self : OrderedCommitCoordinator L) (fetched : FetchedRange L) :
    BackfillError → OrderedCommitCoordinator L → Prop
  | beyond (h : self.targetHeight < fetched.range.toBlock) :
      Refused self fetched (.rangeBeyondTarget fetched.range.toBlock self.targetHeight) self
  | stale (h : fetched.range.fromBlock < self.nextHeight) :
      Refused self fetched (.staleRange fetched.range.fromBlock self.nextHeight) self
  | duplicate (hto : fetched.range.toBlock ≤ self.targetHeight)
      (hnext : self.nextHeight ≤ fetched.range.fromBlock)
      (h : fetched.range.fromBlock ∈ self.pending) :
      Refused self fetched (.duplicateRange fetched.range.fromBlock) (self.park fetched)

/-- A range is refused, or it is parked at a height not taken yet. -/
theorem insertPending_cases (self : OrderedCommitCoordinator L) (fetched : FetchedRange L) :
    (∃ e c, Refused self fetched e c ∧ self.insertPending fetched = (.error e, c)) ∨
      fetched.range.toBlock ≤ self.targetHeight ∧ self.nextHeight ≤ fetched.range.fromBlock ∧
        fetched.range.fromBlock ∉ self.pending ∧
          self.insertPending fetched = (.ok (), self.park fetched) := by
  unfold insertPending
  dsimp only
  by_cases hbeyond : self.targetHeight < fetched.range.toBlock
  · rw [if_pos hbeyond]
    exact .inl ⟨_, _, .beyond hbeyond, rfl⟩
  rw [if_neg hbeyond]
  by_cases hstale : fetched.range.fromBlock < self.nextHeight
  · rw [if_pos hstale]
    exact .inl ⟨_, _, .stale hstale, rfl⟩
  rw [if_neg hstale]
  by_cases hdup : fetched.range.fromBlock ∈ self.pending
  · rw [if_pos hdup]
    exact .inl ⟨_, _, .duplicate (by omega) (by omega) hdup, rfl⟩
  · rw [if_neg hdup]
    exact .inr ⟨by omega, by omega, hdup, rfl⟩

/-- The first header links to the parent anchor, if there is one. -/
def Links (self : OrderedCommitCoordinator L) (fetched : FetchedRange L) : Prop :=
  ∀ first ∈ fetched.firstHeader, ∀ a ∈ self.parentAnchor, IsChild first a

/-- The first header does not link to the parent anchor: the hash of the one, and the parent hash of
the other. -/
def Broken (self : OrderedCommitCoordinator L) (fetched : FetchedRange L)
    (expected actual : BlockHash) : Prop :=
  ∃ first ∈ fetched.firstHeader, ∃ a ∈ self.parentAnchor, ¬ IsChild first a ∧ expected = a.hash ∧
    actual = first.parentHash

theorem Broken.not_links {self : OrderedCommitCoordinator L} {fetched : FetchedRange L}
    {expected actual : BlockHash} (h : self.Broken fetched expected actual) : ¬ self.Links fetched := by
  obtain ⟨first, hfirst, a, ha, hnot, -⟩ := h
  exact fun hlinks => hnot (hlinks first hfirst a ha)

/-- A ready range is good if it links; else nothing stays pending. -/
theorem validateReadyRange_cases (self : OrderedCommitCoordinator L) (fetched : FetchedRange L) :
    (∃ last, fetched.headers.getLast? = some last ∧ self.Links fetched ∧
        self.validateReadyRange fetched = (.ok last, self)) ∨
      ∃ refetchFrom expected actual, self.Broken fetched expected actual ∧
        refetchFrom = fetched.range.fromBlock ∧ self.validateReadyRange fetched =
          (.error (.fetchedSuffixInvalidated refetchFrom expected actual), self.cleared) := by
  obtain ⟨first, rest, last, hheaders, hlast, hfirst, -⟩ := fetched.exists_ends
  have hhead : fetched.firstHeader = some first := by
    unfold FetchedRange.firstHeader
    rw [hheaders]
    rfl
  unfold validateReadyRange Links Broken FetchedRange.lastHeader
  rw [hhead, hlast]
  cases hp : self.parentAnchor with
  | none => exact .inl ⟨last, rfl, by simp, rfl⟩
  | some a =>
    by_cases hc : IsChild first a
    · have hn : ¬ (first.parentHash ≠ a.hash ∨ first.height ≠ a.height + 1) := by
        rw [not_or, not_not, not_not]
        exact hc
      refine .inl ⟨last, rfl, by simpa using hc, ?_⟩
      simp [hn]
    · have hn : first.parentHash ≠ a.hash ∨ first.height ≠ a.height + 1 := by
        rw [← not_and_or]
        exact hc
      refine .inr ⟨first.height, a.hash, first.parentHash, ⟨first, rfl, a, rfl, hc, rfl, rfl⟩, hfirst, ?_⟩
      simp [hn]
      rfl

/-- The progress after one more range. -/
def progressAfter (progress : CommitProgress) (fetched : FetchedRange L) (last : BlockHeader) :
    CommitProgress where
  committedRanges := progress.committedRanges + 1
  committedBlocks := progress.committedBlocks + fetched.range.len
  committedLogs := progress.committedLogs + fetched.logs.length
  lastCommittedHeight := some last.height

theorem size_pop {self : OrderedCommitCoordinator L} {fetched : FetchedRange L}
    (h : self.pending[self.nextHeight]? = some fetched) :
    self.pop.pending.size + 1 = self.pending.size := by
  have hmem : self.nextHeight ∈ self.pending := by
    rw [Std.TreeMap.mem_iff_isSome_getElem?, h]
    rfl
  have hpos : self.pending.size ≠ 0 := by
    intro h0
    have hempty : self.pending.isEmpty = true := by
      simpa [Std.TreeMap.isEmpty_eq_size_eq_zero] using h0
    exact Std.TreeMap.isEmpty_iff_forall_not_mem.1 hempty _ hmem
  unfold pop
  rw [Std.TreeMap.size_erase, if_pos (Std.TreeMap.mem_iff_contains.1 hmem)]
  omega

/-! ## The drain loop -/

section
variable {commitRange : CommitRange κ L} {Q : CommitProgress → OrderedCommitCoordinator L × κ → Prop}
  {E : BackfillError → OrderedCommitCoordinator L × κ → Prop}

/-- **The rule of the drain loop.** `I` holds whenever the loop looks for the next range. -/
theorem drainLoop_wp {I : CommitProgress → OrderedCommitCoordinator L → κ → Prop}
    (hready : ∀ progress c k fetched last, I progress c k →
      c.pending[c.nextHeight]? = some fetched → fetched.headers.getLast? = some last →
      c.Links fetched → wp (commitRange fetched)
        (fun _ k' => I (progressAfter progress fetched last) (c.pop.advance last) k')
        (fun e k' => E (.commit e) (c.pop, k')) k)
    (hbroken : ∀ progress c k fetched expected actual, I progress c k →
      c.pending[c.nextHeight]? = some fetched → c.Broken fetched expected actual →
      E (.fetchedSuffixInvalidated fetched.range.fromBlock expected actual) (c.cleared, k))
    (hdone : ∀ progress c k, I progress c k → c.pending[c.nextHeight]? = none → Q progress (c, k))
    {left : Nat} {progress : CommitProgress} {c : OrderedCommitCoordinator L} {k : κ}
    (hI : I progress c k) (hleft : c.pending.size ≤ left) :
    wp (drainLoop commitRange left progress) Q E (c, k) := by
  induction left generalizing progress c k with
  | zero =>
    refine hdone progress c k hI ?_
    have hempty : c.pending.isEmpty = true := by
      rw [Std.TreeMap.isEmpty_eq_size_eq_zero]
      simpa using Nat.le_zero.1 hleft
    rw [Std.TreeMap.getElem?_eq_none]
    exact Std.TreeMap.isEmpty_iff_forall_not_mem.1 hempty _
  | succ left ih =>
    unfold drainLoop
    rw [wp_bind, wp_get]
    dsimp only
    cases hnext : c.pending[c.nextHeight]? with
    | none => exact hdone progress c k hI hnext
    | some fetched =>
      dsimp only
      rw [wp_bind, wp_modify, wp_bind]
      obtain ⟨last, hlast, hlinks, hv⟩ | ⟨refetch, expected, actual, hbreak, rfl, hv⟩ :=
        validateReadyRange_cases c.pop fetched
      · refine wp_of_eq (r := .ok last) (t := (c.pop, k)) ?_ ?_ (by simp)
        · show ((c.pop.validateReadyRange fetched).1, ((c.pop.validateReadyRange fetched).2, k)) = _
          rw [hv]
        intro l hl
        obtain rfl := Except.ok.inj hl
        rw [wp_bind]
        refine wp_mapError (wp_zoom (wp_mono (hready progress c k fetched last hI hnext hlast hlinks)
          ?_ fun e k' h => h))
        intro _ k' hI'
        rw [wp_bind, wp_modify]
        refine ih hI' ?_
        have := size_pop hnext
        show c.pop.pending.size ≤ left
        omega
      · refine wp_of_eq (t := (c.cleared, k))
          (r := .error (.fetchedSuffixInvalidated fetched.range.fromBlock expected actual))
          ?_ (by simp) ?_
        · show ((c.pop.validateReadyRange fetched).1, ((c.pop.validateReadyRange fetched).2, k)) = _
          rw [hv]
          rfl
        intro e he
        obtain rfl := Except.error.inj he
        exact hbroken progress c k fetched expected actual hI hnext hbreak

/-- **A push**: it is refused, or the range is parked and the loop runs. -/
theorem push_rule {fetched : FetchedRange L} {c : OrderedCommitCoordinator L} {k : κ}
    (hrefused : ∀ e c', Refused c fetched e c' → E e (c', k))
    (hparked : fetched.range.toBlock ≤ c.targetHeight → c.nextHeight ≤ fetched.range.fromBlock →
      fetched.range.fromBlock ∉ c.pending →
      wp (drainLoop commitRange (c.park fetched).pending.size {}) Q E (c.park fetched, k)) :
    wp (push commitRange fetched) Q E (c, k) := by
  unfold push drainReady
  rw [wp_bind]
  obtain ⟨e, c', hrefuse, hins⟩ | ⟨hto, hnext, hfree, hins⟩ := insertPending_cases c fetched
  · refine wp_of_eq (r := .error e) (t := (c', k)) ?_ (by simp) ?_
    · show ((c.insertPending fetched).1, ((c.insertPending fetched).2, k)) = _
      rw [hins]
    intro e' he
    obtain rfl := Except.error.inj he
    exact hrefused _ _ hrefuse
  · refine wp_of_eq (r := .ok ()) (t := (c.park fetched, k)) ?_ ?_ (by simp)
    · show ((c.insertPending fetched).1, ((c.insertPending fetched).2, k)) = _
      rw [hins]
    intro _ _
    rw [wp_bind, wp_get]
    exact hparked hto hnext hfree

end

end OrderedCommitCoordinator

end Chainweave.Backfill
