import Chainweave.Live.Source
import Chainweave.Sink.Extend

/-!
# A source that answers every request

A run over a source that answers every request about its chain (`Beyond`), and a
database with no fault to come (`Unbroken`): only the code itself stops it.

* `fetchAndPushHeight_serves`: the next block of the chain is committed exactly
  if the tables take it. `startLoop_serves` and `checkpointLoop_serves`: so are
  the blocks up to the head.
* `start_works_iff`: when a run without a checkpoint works. Its coordinator wants a
  parent anchor for every start above 0, and there is none.
-/
namespace Chainweave.Live

open Stateful HashLink Chainweave.Chain Chainweave.Backfill Chainweave.Postgres Chainweave.Runtime
open BlockingPostgresLiveSink (checkpointRow)

namespace SourceChain

variable {V : Set BlockHeader} (c : SourceChain V)

/-- The requests that name no block of the chain. -/
def Beyond : Request → Prop
  | .head => False
  | .verify => False
  | .number height => c.height < height
  | .header height => c.height < height
  | .hash hash => ∀ n ≤ c.height, (c.block n).header.hash ≠ hash

/-- The block below a height. -/
def below : Nat → Option BlockHeader
  | 0 => none
  | n + 1 => some (c.block n).header

variable {c} {n : Nat}

theorem follows_below (hn : n ≤ c.height) : Follows (c.below n) (c.block n).header := by
  cases n with
  | zero => exact ⟨fun _ => c.height_eq 0 hn, by simp [below]⟩
  | succ n =>
    refine ⟨by simp [below], fun a ha => ?_⟩
    obtain rfl := Option.some.inj ha
    exact c.linked n hn

end SourceChain

/-- The sink as the runtime makes it, over rows of `V`, with no fault to come. -/
structure Unbroken (V : Set BlockHeader) (k : BlockingPostgresLiveSink) : Prop where
  rows : ∀ x ∈ k.server.db.1.headers, x ∈ V
  reads : k.server.readFaults = []
  commits : k.server.commitFaults = []
  anchor : k.parentAnchor = checkpointRow k.server.db

section
variable {σ ε : Type} {V : Set BlockHeader} {c : SourceChain V} {source : BlockSource σ ε}
  {config : LiveConfig} {s : TrackState σ} {n : Nat}
  {coordinator : OrderedCommitCoordinator IndexedBlock}

/-- The block at height `n` was committed. -/
structure Pushed (c : SourceChain V) (n : Nat) (k k' : BlockingPostgresLiveSink) : Prop where
  unbroken : Unbroken V k'
  top : checkpointRow k'.server.db = c.below (n + 1)
  history : k'.server.history.map (·.1.events) =
    k.server.history.map (·.1.events) ++ [[.apply (c.block n)]]
  canonical : ∀ x, x ∈ k'.server.db.1.canonical ↔
    x ∈ k.server.db.1.canonical ∨ x = (c.block n).header

theorem pushed_of_commit (hV : HashId V) (hn : n ≤ c.height) {k k' : BlockingPostgresLiveSink}
    (hk : Unbroken V k) {anchor : Option BlockHeader}
    (hdid : DidCommit (blockBatch anchor (c.block n)) k.server k'.server)
    (hanchor : k'.parentAnchor = some (c.block n).header) :
    Takes k.server.db.1 (c.block n) ∧ Pushed c n k k' := by
  obtain ⟨report, hap⟩ := hdid.applied
  have hb : ∀ b ∈ [c.block n], b.header ∈ V := by
    intro b hb
    rw [List.mem_singleton.1 hb]
    exact c.mem n hn
  have hext := (extends_refl hk.rows).batch hV hb rfl rfl rfl hap
  have hcanonical : ∀ x, x ∈ k'.server.db.1.canonical ↔
      x ∈ k.server.db.1.canonical ∨ x = (c.block n).header := by
    intro x
    rw [hext.canonical]
    simp
  have htop : checkpointRow k'.server.db = some (c.block n).header :=
    checkpointRow_of_mem ((hcanonical _).2 (.inr rfl)) (hext.checkpoint _ rfl)
  refine ⟨(applyBatch_block hV hk.rows (c.mem n hn) rfl).1 ⟨report, _, hap⟩, ?_, htop, ?_, hcanonical⟩
  · exact ⟨hext.rows, hdid.readFaults.trans hk.reads, hdid.commitFaults hk.commits,
      hanchor.trans htop.symm⟩
  · rw [hdid.history, List.map_append]
    rfl

/-- **One height.** The block of the chain there is committed, exactly if the tables take it. -/
theorem fetchAndPushHeight_serves {k : BlockingPostgresLiveSink} (hsink : s.2.sink = k)
    (hV : HashId V) (hA : Answers c.replies c.Beyond source) (hk : Unbroken V k) (hn : n ≤ c.height)
    (htop : checkpointRow k.server.db = c.below n) (hidle : Idle coordinator n c.height (c.below n)) :
    wp (fetchAndPushHeight source.toLiveSource BlockingPostgresLiveSink.liveSink coordinator n)
      (fun coordinator' s' => Takes k.server.db.1 (c.block n) ∧ Pushed c n k s'.2.sink ∧
        Idle coordinator' (n + 1) c.height (c.below (n + 1)) ∧
        s'.1.report.halted = s.1.report.halted)
      (fun e _ => ¬ Takes k.server.db.1 (c.block n) ∧ e.needsReconcile = false) s := by
  subst hsink
  refine fetchAndPushHeight_wp hA hidle hn ?_ ?_ ?_ ?_ ?_
  · intro block hoffered k' _ hdid hanchor coordinator' s' hidle' hleft
    obtain ⟨-, rfl⟩ := hoffered.reply
    obtain ⟨htakes, hpushed⟩ := pushed_of_commit hV hn hk hdid hanchor
    refine ⟨htakes, hleft.sink ▸ hpushed, ?_, hleft.halted⟩
    have hsat : satAdd n 1 = n + 1 := by
      have hfits := htakes.fits.height
      rw [c.height_eq n hn] at hfits
      unfold satAdd u64Max
      unfold bigintMax at hfits
      omega
    rwa [hsat] at hidle'
  · intro hbeyond
    exact absurd hbeyond (Nat.not_lt.2 hn)
  · intro block hreply hheight
    obtain ⟨-, rfl⟩ := hreply
    exact absurd (c.height_eq n hn) hheight
  · intro block a hreply _ ha hchild
    obtain ⟨-, rfl⟩ := hreply
    exact absurd ((SourceChain.follows_below hn).2 a ha) hchild
  · intro block hoffered k' _ hblame m s' _
    obtain ⟨-, rfl⟩ := hoffered.reply
    refine ⟨fun htakes => ?_, rfl⟩
    have hfollows : Follows s.2.sink.parentAnchor (c.block n).header := by
      rw [hk.anchor, htop]
      exact SourceChain.follows_below hn
    obtain ⟨e, he⟩ := hblame hk.commits hfollows
    have hev : (blockBatch s.2.sink.parentAnchor (c.block n)).events = [.apply (c.block n)] := rfl
    obtain ⟨report, db', hap⟩ := (applyBatch_block hV hk.rows (c.mem n hn) hev).2 htakes
    cases he.symm.trans hap

/-! ## All heights -/

/-- The tables take the blocks of the chain from height `n` on. -/
def TakesFrom (c : SourceChain V) (n : Nat) (t : Tables) : Prop :=
  ∀ i, n ≤ i → i ≤ c.height → Takes t (c.block i)

/-- The blocks of the chain from height `n` on were committed, one by one. -/
structure Caught (c : SourceChain V) (n : Nat) (k k' : BlockingPostgresLiveSink) : Prop where
  unbroken : Unbroken V k'
  top : checkpointRow k'.server.db = some c.head
  history : k'.server.history.map (·.1.events) =
    k.server.history.map (·.1.events) ++ (c.blocksFrom n).map fun block => [.apply block]

variable {k k1 k' : BlockingPostgresLiveSink}

theorem caught_self (hk : Unbroken V k) (htop : checkpointRow k.server.db = some c.head) :
    Caught c (c.height + 1) k k := by
  refine ⟨hk, htop, ?_⟩
  rw [SourceChain.blocksFrom_nil (Nat.lt_succ_self _)]
  simp

theorem Pushed.caught (hn : n ≤ c.height) (h : Pushed c n k k1) (h' : Caught c (n + 1) k1 k') :
    Caught c n k k' := by
  refine ⟨h'.unbroken, h'.top, ?_⟩
  rw [h'.history, h.history, SourceChain.blocksFrom_cons hn, List.append_assoc]
  rfl

/-- A commit of block `n` does not stand in the way of the blocks above. -/
theorem Pushed.takesFrom (hn : n ≤ c.height) (h : Pushed c n k k1)
    (htakes : Takes k.server.db.1 (c.block n)) :
    TakesFrom c (n + 1) k1.server.db.1 ↔ TakesFrom c n k.server.db.1 := by
  constructor
  · intro hrest i hi hle
    by_cases heq : i = n
    · rwa [heq]
    · obtain ⟨hfits, hfree⟩ := hrest i (by omega) hle
      exact ⟨hfits, fun x hx => hfree x ((h.canonical x).2 (.inl hx))⟩
  · intro hall i hi hle
    obtain ⟨hfits, hfree⟩ := hall i (by omega) hle
    refine ⟨hfits, fun x hx hheight => ?_⟩
    cases (h.canonical x).1 hx with
    | inl hx => exact hfree x hx hheight
    | inr hx =>
      rw [hx, c.height_eq n hn, c.height_eq i hle] at hheight
      omega

/-- Block `n` was committed: the blocks from `n` on are those above it, whatever goes on with them. -/
theorem Pushed.rest {x : Track σ BlockingPostgresLiveSink Unit} {halted : Option LiveHaltReason}
    (hn : n ≤ c.height) (h : Pushed c n k s.2.sink) (htakes : Takes k.server.db.1 (c.block n))
    (hhalted : s.1.report.halted = halted)
    (hx : wp x (fun _ s' => TakesFrom c (n + 1) s.2.sink.server.db.1 ∧
        Caught c (n + 1) s.2.sink s'.2.sink ∧ s'.1.report.halted = s.1.report.halted)
      (fun _ _ => ¬ TakesFrom c (n + 1) s.2.sink.server.db.1) s) :
    wp x (fun _ s' => TakesFrom c n k.server.db.1 ∧ Caught c n k s'.2.sink ∧
        s'.1.report.halted = halted)
      (fun _ _ => ¬ TakesFrom c n k.server.db.1) s := by
  have hiff := h.takesFrom hn htakes
  refine wp_mono hx (fun _ s' h' => ?_) (fun _ _ hrest hall => hrest (hiff.2 hall))
  obtain ⟨hrest, hcaught, hsame⟩ := h'
  exact ⟨hiff.1 hrest, h.caught hn hcaught, hsame.trans hhalted⟩

/-- The loop of a start: `m` heights still to go. -/
theorem startLoop_serves (hV : HashId V) (hA : Answers c.replies c.Beyond source) {m : Nat}
    (hk : Unbroken V s.2.sink) (hm : n + m = c.height + 1)
    (htop : checkpointRow s.2.sink.server.db = c.below n)
    (hidle : Idle coordinator n c.height (c.below n)) :
    wp (startLoop source.toLiveSource BlockingPostgresLiveSink.liveSink (fun _ => false)
        (List.range' n m) coordinator)
      (fun _ s' => TakesFrom c n s.2.sink.server.db.1 ∧ Caught c n s.2.sink s'.2.sink ∧
        s'.1.report.halted = s.1.report.halted)
      (fun _ _ => ¬ TakesFrom c n s.2.sink.server.db.1) s := by
  induction m generalizing n coordinator s with
  | zero =>
    obtain rfl : n = c.height + 1 := hm
    exact ⟨fun i hi hle => absurd hle (by omega), caught_self hk htop, rfl⟩
  | succ m ih =>
    have hn : n ≤ c.height := by omega
    rw [List.range'_succ]
    unfold startLoop
    rw [wp_bind]
    refine ensureNotCancelled_wp (fun s1 h1 => ?_) (by simp)
    rw [wp_bind]
    refine wp_mono (fetchAndPushHeight_serves h1.sink hV hA hk hn htop hidle) ?_ ?_
    · intro coordinator' s2 h
      obtain ⟨htakes, hpushed, hidle', hhalted⟩ := h
      exact hpushed.rest hn htakes (hhalted.trans h1.halted)
        (ih hpushed.unbroken (by omega) hpushed.top hidle')
    · intro e _ h hall
      exact h.1 (hall n (Nat.le_refl n) hn)

/-- The loop from the checkpoint: `m` heights still to go. -/
theorem checkpointLoop_serves (hV : HashId V) (hA : Answers c.replies c.Beyond source) {m : Nat}
    (hk : Unbroken V s.2.sink) (hm : n + m = c.height + 1)
    (htop : checkpointRow s.2.sink.server.db = c.below n)
    (hidle : Idle coordinator n c.height (c.below n)) :
    wp (checkpointLoop config source.toLiveSource BlockingPostgresLiveSink.liveSink (fun _ => false)
        (List.range' n m) coordinator)
      (fun _ s' => TakesFrom c n s.2.sink.server.db.1 ∧ Caught c n s.2.sink s'.2.sink ∧
        s'.1.report.halted = s.1.report.halted)
      (fun _ _ => ¬ TakesFrom c n s.2.sink.server.db.1) s := by
  induction m generalizing n coordinator s with
  | zero =>
    obtain rfl : n = c.height + 1 := hm
    exact ⟨fun i hi hle => absurd hle (by omega), caught_self hk htop, rfl⟩
  | succ m ih =>
    have hn : n ≤ c.height := by omega
    rw [List.range'_succ]
    unfold checkpointLoop
    rw [wp_bind]
    refine ensureNotCancelled_wp (fun s1 h1 => ?_) (by simp)
    rw [wp_bind]
    refine wp_attempt (wp_mono (fetchAndPushHeight_serves h1.sink hV hA hk hn htop hidle) ?_ ?_)
    · intro coordinator' s2 h
      obtain ⟨htakes, hpushed, hidle', hhalted⟩ := h
      exact hpushed.rest hn htakes (hhalted.trans h1.halted)
        (ih hpushed.unbroken (by omega) hpushed.top hidle')
    · intro e _ h
      obtain ⟨hnot, hneeds⟩ := h
      dsimp only
      rw [hneeds]
      exact fun hall => hnot (hall n (Nat.le_refl n) hn)

/-! ## A start -/

/-- The run from `p` returned; it committed the chain from height `start` on, one block at a time, and
the checkpoint is the head. -/
structure Started (c : SourceChain V) (start : Nat) (p : Peers σ BlockingPostgresLiveSink)
    (r : Except LiveError LiveReport × Peers σ BlockingPostgresLiveSink) : Prop where
  returned : ∃ report, r.1 = .ok report ∧ report.halted = none ∧
    report.finalCheckpoint = some c.head
  caught : r.2.sink.server.history.map (·.1.events) =
    p.sink.server.history.map (·.1.events) ++ (c.blocksFrom start).map fun block => [.apply block]
  checkpoint : checkpointRow r.2.sink.server.db = some c.head

/-- The conditions for a start: it is at 0, there is a budget, and the tables take every block. -/
structure CanStart (c : SourceChain V) (config : LiveConfig) (start : Nat) (t : Tables) : Prop where
  genesis : start = 0
  budget : config.liveBudgetCostUnitsPerMinute ≠ 0
  takes : ∀ block ∈ c.blocksFrom 0, Takes t block

theorem takesFrom_zero {t : Tables} : TakesFrom c 0 t ↔ ∀ block ∈ c.blocksFrom 0, Takes t block := by
  constructor
  · intro h block hblock
    obtain ⟨i, hi, hle, rfl⟩ := SourceChain.mem_blocksFrom.1 hblock
    exact h i hi hle
  · intro h i _ hi
    exact h _ (SourceChain.mem_blocksFrom.2 ⟨i, Nat.zero_le i, hi, rfl⟩)

/-- Catch-up from a start, to the end of the run. -/
theorem catchUpFromStart_serves (hV : HashId V) (hA : Answers c.replies c.Beyond source)
    (hk : Unbroken V s.2.sink) (htop : checkpointRow s.2.sink.server.db = none) {start : Nat}
    (hstart : config.explicitStart = some start) (hbudget : config.liveBudgetCostUnitsPerMinute ≠ 0)
    (hhalted : s.1.report.halted = none) :
    wp (do
        catchUpFromStart config source.toLiveSource BlockingPostgresLiveSink.liveSink (fun _ => false)
          c.head
        finish BlockingPostgresLiveSink.liveSink)
      (fun _ s' => CanStart c config start s.2.sink.server.db.1 ∧
        Started c start s.2 (.ok s'.1.report, s'.2))
      (fun _ _ => ¬ CanStart c config start s.2.sink.server.db.1) s := by
  rw [wp_bind]
  unfold catchUpFromStart
  rw [wp_bind, wp_lift, hstart, Option.getD_some]
  refine ⟨fun coordinator hnew => ?_, fun e herror h => ?_⟩
  · obtain ⟨hidle, -, hzero, -⟩ := idle_new (mapError_ok.1 hnew)
    obtain rfl : start = 0 := hzero rfl
    unfold heightsTo
    rw [SourceChain.head_height] at hidle ⊢
    refine wp_mono (startLoop_serves hV hA hk (by omega) htop hidle) ?_ ?_
    · intro _ s1 h
      obtain ⟨hall, hcaught, hhalted1⟩ := h
      refine finish_wp hcaught.unbroken.reads fun s2 h2 hfinal => ?_
      refine ⟨⟨rfl, hbudget, takesFrom_zero.1 hall⟩,
        ⟨s2.1.report, rfl, ?_, hfinal.trans hcaught.top⟩, ?_, ?_⟩
      · exact h2.halted.trans (hhalted1.trans hhalted)
      · show s2.2.sink.server.history.map (·.1.events) = _
        rw [h2.sink]
        exact hcaught.history
      · show checkpointRow s2.2.sink.server.db = _
        rw [h2.sink]
        exact hcaught.top
    · intro _ _ hnot h
      exact hnot (takesFrom_zero.2 h.takes)
  · -- A start at 0 needs no parent anchor.
    obtain rfl : start = 0 := h.genesis
    obtain ⟨coordinator, hnew⟩ := new_exists (L := IndexedBlock) (Nat.zero_le c.head.height)
      (fun _ => rfl) (by simp : ∀ a ∈ (none : Option BlockHeader), 0 = a.height + 1)
    rw [hnew] at herror
    cases herror

/-- **An explicit start works only at genesis.** Over a source that answers every request, a run
without a checkpoint commits the chain from its start on if and only if the start is 0, there is a
budget, and the tables take every block of the chain. -/
theorem start_works_iff (hV : HashId V) (hA : Answers c.replies c.Beyond source)
    {p : Peers σ BlockingPostgresLiveSink} (hk : Unbroken V p.sink)
    (hnone : p.sink.server.db.1.checkpoint = none) {start : Nat}
    (hstart : config.explicitStart = some start) (events : List LiveHeadEvent) :
    Started c start p (exec (run config source.toLiveSource BlockingPostgresLiveSink.liveSink events)
        p) ↔ CanStart c config start p.sink.server.db.1 := by
  have htop : checkpointRow p.sink.server.db = none := by
    unfold BlockingPostgresLiveSink.checkpointRow
    rw [hnone]
  have hwp : wp (run config source.toLiveSource BlockingPostgresLiveSink.liveSink events)
      (fun report p' => CanStart c config start p.sink.server.db.1 ∧
        Started c start p (.ok report, p'))
      (fun _ _ => ¬ CanStart c config start p.sink.server.db.1) p := by
    refine runWithCancellation_wp hk.reads (by simp) (fun hzero _ _ _ h => h.budget hzero) ?_
    intro hbudget s hsink _ hhalted
    have hsome : ∀ {checkpoint : BlockHeader},
        checkpointRow s.2.sink.server.db ≠ some checkpoint := by
      intro checkpoint h
      rw [hsink, htop] at h
      cases h
    refine trackHead_wp hA (by rw [hsink]; exact hk.reads) ?_ ?_ ?_ ?_ ?_ ?_ ?_
    · intro h
      exact (h.elim id id).elim
    · intro _ hmissing
      rw [hstart] at hmissing
      cases hmissing
    · intro head hhead _ _ s1 h1
      obtain rfl : head = c.head := hhead
      have hsink1 : s1.2.sink = p.sink := h1.sink.trans hsink
      have hrun := catchUpFromStart_serves (s := s1) hV hA (hsink1.symm ▸ hk)
        (hsink1.symm ▸ htop) hstart hbudget (h1.halted.trans hhalted)
      rw [hsink1] at hrun
      refine wp_mono hrun (fun _ s2 h => ⟨h.1, h.2.returned, ?_, h.2.checkpoint⟩) fun _ _ h => h
      rw [← hsink1]
      exact h.2.caught
    · exact fun _ _ _ h => absurd h hsome
    · exact fun _ _ _ h => absurd h hsome
    · exact fun _ _ _ h => absurd h hsome
    · exact fun _ _ _ h => absurd h hsome
  cases hx : exec (run config source.toLiveSource BlockingPostgresLiveSink.liveSink events) p with
  | mk result p' =>
    cases result with
    | ok report =>
      obtain ⟨hcan, hstarted⟩ := wp_ok hwp hx
      exact ⟨fun _ => hcan, fun _ => hstarted⟩
    | error e =>
      refine ⟨fun h => ?_, fun h => absurd h (wp_error hwp hx)⟩
      obtain ⟨report, hok, -⟩ := h.returned
      cases hok

end

/-- A script that has the blocks of the chain answers every request about it. -/
theorem beyond_of_missing {V : Set BlockHeader} {c : SourceChain V}
    {byNumber byHash : List IndexedBlock} (hnumber : ∀ n ≤ c.height, c.block n ∈ byNumber)
    (hhash : ∀ n ≤ c.height, c.block n ∈ byHash) (r : Request)
    (h : Missing byNumber byHash r) : c.Beyond r := by
  cases r with
  | head => exact h
  | verify => exact h
  | number height => exact Nat.lt_of_not_le fun hle => h _ (hnumber height hle) (c.height_eq _ hle)
  | header height => exact Nat.lt_of_not_le fun hle => h _ (hnumber height hle) (c.height_eq _ hle)
  | hash hash => exact fun n hn => h _ (hhash n hn)

theorem servesA : Answers chainA.replies chainA.Beyond
    (blockingTrackerSource (scriptedRpc [a2] blocksA treeBlocks)) :=
  answersA.mono (beyond_of_missing (by decide) (by decide))

theorem servesB : Answers chainB.replies chainB.Beyond
    (blockingTrackerSource (scriptedRpc [b2] blocksB treeBlocks)) :=
  answersB.mono (beyond_of_missing (by decide) (by decide))

theorem startOn_empty : Unbroken {x | x ∈ smallTree} (startOn (Database.empty 1)).sink :=
  ⟨by simp [startOn, Database.empty, Tables.headers], rfl, rfl, rfl⟩

/-- A run from an explicit start on an empty database. -/
def startRun (start : Nat) : Except LiveError LiveReport × Peers Nat BlockingPostgresLiveSink :=
  runScript { smallConfig with explicitStart := some start } [a2] blocksA treeBlocks
    (Database.empty 1)

/-- `start_works_iff` from genesis. -/
theorem start_works_iff_genesis : Started chainA 0 (startOn (Database.empty 1)) (startRun 0) := by
  refine (start_works_iff smallTree_hashId servesA startOn_empty rfl rfl []).2
    ⟨rfl, by decide, fun block hblock => ⟨?_, by simp [startOn, Database.empty, Tables.canonical]⟩⟩
  have hplain : ∀ block ∈ chainA.blocksFrom 0, block.header.height ≤ bigintMax ∧ block.logs = [] := by
    decide
  obtain ⟨hheight, hlogs⟩ := hplain block hblock
  exact ⟨hheight, by simp [hlogs], by simp [hlogs]⟩

/-- A run from height 1 fails before it reads a block. -/
theorem start_above_genesis :
    Answers chainA.replies chainA.Beyond
        (blockingTrackerSource (scriptedRpc [a2] blocksA treeBlocks)) ∧
      (Database.empty 1).1.checkpoint = none ∧ 1 ≤ chainA.height ∧
      (startRun 1).1.toOption = none ∧ (startRun 1).2.sink.server.history = [] ∧
      ¬ Started chainA 1 (startOn (Database.empty 1)) (startRun 1) := by
  have hfails : (startRun 1).1.toOption = none := by decide +kernel
  refine ⟨servesA, rfl, by decide, hfails, by decide +kernel, fun h => ?_⟩
  obtain ⟨report, hok, -⟩ := h.returned
  rw [hok] at hfails
  cases hfails

end Chainweave.Live
