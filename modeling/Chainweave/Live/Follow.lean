import Chainweave.Live.Reorg

/-!
# What stops a reorg

Two limits of the walks that a run over a reorg makes.

* `halts_at_depth_iff`: the depth limit counts the missing range too, for the walk down
  starts at the source's head.
* `follows_iff`: from a source without the orphans a run rolls back one row and no more,
  for the walk down from the checkpoint asks the source for the others.
-/
namespace Chainweave.Live

open Stateful HashLink Chainweave.Chain Chainweave.Backfill Chainweave.Postgres Chainweave.Runtime
open BlockingPostgresLiveSink (checkpointRow)

variable {σ ε : Type} {V : Set BlockHeader} {c : SourceChain V} {L : List BlockHeader}
  {cp a : BlockHeader} {source : BlockSource σ ε} {config : LiveConfig}
  {k : BlockingPostgresLiveSink}

section
variable {p : Peers σ BlockingPostgresLiveSink} {s : TrackState σ}
  {Q : Unit → TrackState σ → Prop} {E : LiveError → TrackState σ → Prop}

/-! ## The depth limit -/

/-- A head that can only be resolved is committed. -/
theorem applyChainState_commits (h : Parted c L s.2.sink cp a) (hA : Answers c.replies c.Beyond source)
    {batch : ChainBatch} (hpos : config.maxReorgDepth ≠ 0)
    (hok : ∀ r, Outcome config source s.2.sink cp c.head r → r = .ok batch)
    (hcommit : ∀ s', Quiet s s' → wp (commitChainBatch source.toLiveSource
      BlockingPostgresLiveSink.liveSink (fun _ => false) c.head batch) Q E s') :
    wp (applyChainState config source.toLiveSource BlockingPostgresLiveSink.liveSink (fun _ => false)
      c.head) Q E s := by
  refine applyChainState_wp h.hashId SourceChain.replies_within hA h.unbroken.rows h.unbroken.reads
    h.row (c.mem _ (Nat.le_refl _)) (fun hzero => absurd hzero hpos) ?_ ?_ ?_ ?_
  · intro batch' _ _ hout _ _
    obtain rfl : batch' = batch := Except.ok.inj (hok _ hout)
    exact hcommit
  · intro d hout
    cases hok _ hout
  · intro f b hout
    cases hok _ hout
  · intro e hout
    cases hok _ hout

/-- A head that can only be too far halts the run. -/
theorem applyChainState_halts (h : Parted c L s.2.sink cp a) (hA : Answers c.replies c.Beyond source)
    {d : Nat} (hpos : config.maxReorgDepth ≠ 0)
    (hmax : ∀ r, Outcome config source s.2.sink cp c.head r → r = .error (.maxDepthExceeded d)) :
    wp (applyChainState config source.toLiveSource BlockingPostgresLiveSink.liveSink (fun _ => false)
      c.head) (fun _ s' => s'.2.sink = s.2.sink ∧ s'.1.report.halted = some .maxReorgDepth)
      (fun _ _ => False) s := by
  refine applyChainState_wp h.hashId SourceChain.replies_within hA h.unbroken.rows h.unbroken.reads
    h.row (c.mem _ (Nat.le_refl _)) (fun hzero => absurd hzero hpos) ?_ ?_ ?_ ?_
  · intro batch _ _ hout
    cases hmax _ hout
  · intro _ _ s' hsink _ hhalted
    exact ⟨hsink, hhalted⟩
  · intro f b hout
    cases hmax _ hout
  · intro e hout hnot
    exact absurd (Except.error.inj (hmax _ hout)) (hnot d)

/-- A commit does not halt the run. -/
theorem commitChainBatch_halted {head : BlockHeader} {batch : ChainBatch}
    (hA : Answers c.replies c.Beyond source) (hreads : s.2.sink.server.readFaults = []) :
    wp (commitChainBatch source.toLiveSource BlockingPostgresLiveSink.liveSink (fun _ => false) head
        batch)
      (fun _ s' => s'.1.report.halted = s.1.report.halted ∧ s'.2.sink.server.readFaults = [])
      (fun _ _ => True) s := by
  refine commitChainBatch_wp (F := fun _ => True) (hA.mono fun _ _ => trivial) hreads
    (fun _ _ _ _ _ => trivial) ?_ (fun _ _ _ _ _ _ _ => trivial) (fun _ _ _ => trivial)
    (fun _ _ _ _ _ _ _ _ _ => trivial)
  intro _ durable k' _ _ _ hdid s' hleft
  refine ⟨hleft.halted, ?_⟩
  rw [hleft.sink]
  cases hdid with
  | inl hempty => exact hempty.2.readFaults.trans hreads
  | inr hdid => exact hdid.readFaults.trans hreads

/-- The run returned, and its report says that it halted at the depth limit. -/
def HaltsAtDepth (r : Except LiveError LiveReport × Peers σ BlockingPostgresLiveSink) : Prop :=
  ∃ report, r.1 = .ok report ∧ report.halted = some .maxReorgDepth

/-- **The head of a reorg** halts the run exactly if the walk down from it is too long. -/
theorem applyChainState_depth (h : Parted c L s.2.sink cp a) (hne : cp ≠ a) (hup : a.height < c.height)
    (hA : Answers c.replies c.Beyond source)
    (hserved : ∀ x, c.line.Has x ∨ x ∈ L → HasHeader source x)
    (hdepth : cp.height - a.height ≤ config.maxReorgDepth)
    (hfinal : ∀ f ∈ config.finalizedHeight, f ≤ a.height) (hhalted : s.1.report.halted = none) :
    wp (do
        applyChainState config source.toLiveSource BlockingPostgresLiveSink.liveSink (fun _ => false)
          c.head
        finish BlockingPostgresLiveSink.liveSink)
      (fun _ s' => s'.1.report.halted = some .maxReorgDepth ↔
        config.maxReorgDepth < c.height - a.height)
      (fun _ _ => ¬ config.maxReorgDepth < c.height - a.height) s := by
  have hpos : config.maxReorgDepth ≠ 0 := by
    have := (h.cp_orphan hne).1
    omega
  have hon : ∀ x, c.line.Has x → HasHeader source x := fun x hx => hserved x (.inl hx)
  have hback : ∀ x ∈ L, a.height ≤ x.height → x.height < cp.height → HasHeader source x :=
    fun x hx _ _ => hserved x (.inr hx)
  rw [wp_bind]
  by_cases hfar : config.maxReorgDepth < c.height - a.height
  · refine wp_mono (applyChainState_halts h hA hpos fun r => outcome_beyond h hne hup hon hback hfar) ?_
      fun _ _ hfalse => hfalse.elim
    intro _ s1 h1
    refine finish_wp (by rw [h1.1]; exact h.unbroken.reads) fun s2 h2 _ => ?_
    exact iff_of_true (h2.halted.trans h1.2) hfar
  · obtain ⟨batch, -, -, -, hok⟩ := outcome_within h hne hup hon hback (by omega) hdepth hfinal
    refine applyChainState_commits h hA hpos hok fun s1 h1 => ?_
    refine wp_mono (commitChainBatch_halted hA (by rw [h1.sink]; exact h.unbroken.reads)) ?_
      fun _ _ _ => hfar
    intro _ s2 h2
    refine finish_wp h2.2 fun s3 h3 _ => iff_of_false ?_ hfar
    rw [h3.halted, h2.1, h1.halted, hhalted]
    simp

/-- **The depth limit counts the missing range too.** A reorg within the limit, over a source that
answers every request, does not halt the run if and only if the source's head is within the limit of
the common ancestor as well (or there is no reorg, or no budget to see it with). -/
theorem halts_at_depth_iff (h : Parted c L p.sink cp a) (hA : Answers c.replies c.Beyond source)
    (hserved : ∀ x, c.line.Has x ∨ x ∈ L → HasHeader source x)
    (hdepth : cp.height - a.height ≤ config.maxReorgDepth)
    (hfinal : ∀ f ∈ config.finalizedHeight, f ≤ a.height) (events : List LiveHeadEvent) :
    ¬ HaltsAtDepth (exec (run config source.toLiveSource BlockingPostgresLiveSink.liveSink events) p) ↔
      c.height - a.height ≤ config.maxReorgDepth ∨ cp = a ∨
        config.liveBudgetCostUnitsPerMinute = 0 := by
  have hcase : ∀ {P : Prop}, wp (run config source.toLiveSource BlockingPostgresLiveSink.liveSink
      events) (fun report _ => report.halted = some .maxReorgDepth ↔ P) (fun _ _ => ¬ P) p →
      (HaltsAtDepth (exec (run config source.toLiveSource BlockingPostgresLiveSink.liveSink events)
        p) ↔ P) := fun hwp => wp_iff hwp
  by_cases hne : cp = a
  · subst hne
    have hno := hcase (P := False) (wp_mono (run_straight h hA events)
      (fun _ _ hr => iff_of_false (by rw [hr.2.1]; simp) id) fun _ _ _ => id)
    exact iff_of_true hno.1 (.inr (.inl rfl))
  by_cases hup : a.height < c.height
  · have hyes := hcase (P := config.liveBudgetCostUnitsPerMinute ≠ 0 ∧
        config.maxReorgDepth < c.height - a.height) (run_turn h hne hup hA
      (fun hzero _ _ hand => hand.1 hzero) (fun hb s hsink hhalted => ?_) events)
    · rw [hyes]
      constructor
      · intro hnot
        by_cases hb : config.liveBudgetCostUnitsPerMinute = 0
        · exact .inr (.inr hb)
        · exact .inl (Nat.le_of_not_lt fun hlt => hnot ⟨hb, hlt⟩)
      · intro hor hand
        obtain hle | heq | hzero := hor
        · omega
        · exact hne heq
        · exact hand.1 hzero
    · refine wp_mono (applyChainState_depth (hsink.symm ▸ h) hne hup hA hserved hdepth hfinal hhalted)
        (fun _ _ hiff => hiff.trans (and_iff_right hb).symm) fun _ _ hnot hand => hnot hand.2
  · have hbehind : a.height = c.height := Nat.le_antisymm h.fork_le (Nat.le_of_not_lt hup)
    have hno := hcase (P := False) (wp_mono (run_behind h hne hbehind hA events)
      (fun _ _ hr => iff_of_false (by rw [hr.1]; simp) id) fun _ _ _ => id)
    exact iff_of_true hno.1 (.inl (by omega))

end

/-! ## A small tree -/

/-- A store of one chain, in the small tree. -/
theorem startOn_parted {c : SourceChain {x | x ∈ smallTree}} {chain : List BlockHeader}
    {cp a : BlockHeader} (hl : Linked chain) (hmem : ∀ x ∈ chain, x ∈ smallTree)
    (hlast : chain.getLast? = some cp) (hfork : ForkAt c chain a) :
    Parted c chain (startOn (storeOf chain)).sink cp a := by
  have hne : chain ≠ [] := by
    intro hnil
    subst hnil
    cases hlast
  have hsmall : ∀ x ∈ smallTree, x.height ≤ bigintMax := by decide
  have hwf : WellFormed {x | x ∈ smallTree} (storeOf chain).1 chain :=
    storeOf_wellFormed smallTree_hashId hne hl hmem fun x hx => hsmall x (hmem x hx)
  exact ⟨smallTree_hashId, ⟨hwf.rows, rfl, rfl, rfl⟩, hwf, hlast, hfork⟩

/-- The second branch leaves the first at the genesis block. -/
theorem parted_small : Parted chainB [genesis, a1] (startOn (storeOf [genesis, a1])).sink a1 genesis :=
  startOn_parted (by decide) (by decide) rfl ⟨by decide, by decide, by decide⟩

theorem scripted_has {heads : List BlockHeader} {byNumber byHash : List IndexedBlock} {x : BlockHeader}
    (h : (byHash.find? (·.header.hash = x.hash)).map (·.header) = some x) :
    HasHeader (blockingTrackerSource (scriptedRpc heads byNumber byHash)) x := fun _ =>
  congrArg Except.ok h

theorem scripted_lacks {heads : List BlockHeader} {byNumber byHash : List IndexedBlock}
    {hash : BlockHash} (h : byHash.find? (·.header.hash = hash) = none) :
    LacksHeader (blockingTrackerSource (scriptedRpc heads byNumber byHash)) hash := by
  intro _
  show ((byHash.find? (·.header.hash = hash)).map (·.header)) = none
  rw [h]
  rfl

theorem tree_has {heads : List BlockHeader} {byNumber : List IndexedBlock} {x : BlockHeader}
    (hx : x ∈ smallTree) :
    HasHeader (blockingTrackerSource (scriptedRpc heads byNumber treeBlocks)) x := by
  have hall : ∀ y ∈ smallTree, (treeBlocks.find? (·.header.hash = y.hash)).map (·.header) = some y := by
    decide
  exact scripted_has (hall x hx)

/-- `halts_at_depth_iff` with both distances within the limit. -/
theorem halts_at_depth_iff_small :
    ¬ HaltsAtDepth (runScript smallConfig [b2] blocksB treeBlocks (storeOf [genesis, a1])) :=
  (halts_at_depth_iff parted_small servesB
    (fun _ hx => tree_has (hx.elim (fun hx => hx.mem) parted_small.mem))
    (by decide) (by decide) []).2 (.inl (by decide))

/-- One row to roll back and two blocks to apply: a limit of one halts the run. -/
theorem halts_within_depth :
    Parted chainB [genesis, a1] (startOn (storeOf [genesis, a1])).sink a1 genesis ∧
      Answers chainB.replies chainB.Beyond
        (blockingTrackerSource (scriptedRpc [b2] blocksB treeBlocks)) ∧
      (∀ x, chainB.line.Has x ∨ x ∈ [genesis, a1] →
        HasHeader (blockingTrackerSource (scriptedRpc [b2] blocksB treeBlocks)) x) ∧
      a1.height - genesis.height ≤ 1 ∧
      HaltsAtDepth (runScript { smallConfig with maxReorgDepth := 1 } [b2] blocksB treeBlocks
        (storeOf [genesis, a1])) := by
  refine ⟨parted_small, servesB, fun _ hx => tree_has (hx.elim (fun hx => hx.mem) parted_small.mem),
    by decide, ?_⟩
  obtain ⟨report, hr, hhalted⟩ := ok_of_halted (show (runScript { smallConfig with maxReorgDepth := 1 }
    [b2] blocksB treeBlocks (storeOf [genesis, a1])).1.toOption.map (·.halted) =
      some (some .maxReorgDepth) by decide +kernel)
  exact ⟨report, congrArg Prod.fst hr, hhalted⟩

/-! ## Pruned orphans -/

section
variable {s : TrackState σ}

/-- **The commit of a reorg** succeeds exactly if the blocks fit their columns. -/
theorem commitChainBatch_follows (h : Parted c L s.2.sink cp a) (hup : a.height < c.height)
    (hA : Answers c.replies c.Beyond source) {batch : ChainBatch} {base ups : List BlockHeader}
    (ht : Turn V L c.head batch base ups ((c.blocksFrom (a.height + 1)).map (·.header))) :
    wp (commitChainBatch source.toLiveSource BlockingPostgresLiveSink.liveSink (fun _ => false) c.head
        batch)
      (fun _ s' => (∀ block ∈ c.blocksFrom (a.height + 1), Fits block) ∧
        checkpointRow s'.2.sink.server.db = some c.head ∧ s'.2.sink.server.readFaults = [])
      (fun _ _ => ¬ ∀ block ∈ c.blocksFrom (a.height + 1), Fits block) s := by
  have hheaders : applyHeaders batch.events = (c.blocksFrom (a.height + 1)).map (·.header) := by
    rw [ht.events, applyHeaders_append]
  have hon : ∀ x ∈ applyHeaders batch.events, ∃ n ≤ c.height, (c.block n).header = x := by
    intro x hx
    rw [hheaders] at hx
    obtain ⟨b, hb, rfl⟩ := List.mem_map.1 hx
    obtain ⟨n, -, hn, rfl⟩ := SourceChain.mem_blocksFrom.1 hb
    exact ⟨n, hn, rfl⟩
  have hwhole : ∀ {blocks : List IndexedBlock},
      blocks.map (·.header) = (c.blocksFrom (a.height + 1)).map (·.header) →
      (∀ b ∈ blocks, c.replies.blockOf b.header.hash b) → blocks = c.blocksFrom (a.height + 1) :=
    SourceChain.blocksFrom_unique hup
  have hV : ∀ {blocks : List IndexedBlock}, (∀ b ∈ blocks, c.replies.blockOf b.header.hash b) →
      ∀ b ∈ blocks, b.header ∈ V := fun hblocks b hb => (hblocks b hb).1
  refine commitChainBatch_wp hA h.unbroken.reads ?_ ?_ ?_ (by simp) ?_
  · intro x hx b hb hother
    obtain ⟨n, hn, rfl⟩ := hon x hx
    exact absurd (congrArg IndexedBlock.header (hb.2 n hn rfl)) hother
  · intro blocks durable k' hmap hblocks hd hdid s' hleft
    rw [hheaders] at hmap
    have hne := ht.nonempty h.hashId (hV hblocks) hd
    cases hdid with
    | inl hempty => exact absurd hempty.1 (by simp [hne])
    | inr hdid =>
      obtain ⟨report, hap⟩ := hdid.applied
      obtain ⟨hwf, -, bs, hbs, hsub, hev⟩ := ht.commit h.hashId h.wellFormed (hV hblocks) hd hap
      obtain ⟨u, -, hrun, -⟩ := applyBatch_events hap
      obtain rfl := hwhole hbs fun b hb => hblocks b (hsub b hb)
      rw [hleft.sink]
      refine ⟨fun block hblock => runEvents_fits hrun ?_, ?_, hdid.readFaults.trans h.unbroken.reads⟩
      · rw [hev]
        exact List.mem_append_right _ (List.mem_map_of_mem hblock)
      · rw [checkpointRow_wellFormed hwf]
        exact ht.top
  · intro x hx hbeyond
    obtain ⟨n, hn, rfl⟩ := hon x hx
    exact absurd rfl (hbeyond n hn)
  · intro blocks k' hmap hblocks _ hblame m s' _ hfit
    rw [hheaders] at hmap
    obtain rfl := hwhole hmap hblocks
    have hne : (c.blocksFrom (a.height + 1)).map (·.header) ≠ [] := by
      rw [SourceChain.blocksFrom_cons hup]
      simp
    obtain ⟨durable, report, db', hd, hap, -⟩ := writer_transition h.hashId h.wellFormed
      (.moved ht.split hne ht.linked (fun x hx => (ht.new x hx).1) ht.events)
      (hheaders ▸ List.Perm.refl _) hfit
    obtain ⟨e, he⟩ := hblame h.unbroken.commits durable hd
    cases he.symm.trans hap

/-- A head that cannot be resolved changes no row. -/
theorem applyChainState_stays (h : Parted c L s.2.sink cp a) (hA : Answers c.replies c.Beyond source)
    (hnot : ∀ batch, ¬ Outcome config source s.2.sink cp c.head (.ok batch)) :
    wp (applyChainState config source.toLiveSource BlockingPostgresLiveSink.liveSink (fun _ => false)
      c.head) (fun _ s' => s'.2.sink = s.2.sink) (fun _ _ => True) s := by
  refine applyChainState_wp h.hashId SourceChain.replies_within hA h.unbroken.rows h.unbroken.reads
    h.row (c.mem _ (Nat.le_refl _)) (fun _ _ _ => trivial) ?_ ?_ ?_ (fun _ _ _ _ _ _ => trivial)
  · intro batch _ _ hout
    exact absurd hout (hnot batch)
  · intro _ _ _ hsink _ _
    exact hsink
  · intro _ _ _ _ hsink _ _
    exact hsink

/-- The conditions for a source without the orphans: there is a budget, its blocks fit their columns,
and at most one row has to be rolled back, for a block above it. -/
structure CanFollow (c : SourceChain V) (config : LiveConfig) (cp a : BlockHeader) : Prop where
  budget : config.liveBudgetCostUnitsPerMinute ≠ 0
  fits : ∀ block ∈ c.blocksFrom (a.height + 1), Fits block
  near : cp = a ∨ cp.height = a.height + 1 ∧ a.height < c.height

/-- **One orphan.** The walk down from the checkpoint ends at the fork, which the source has. -/
theorem applyChainState_follows (h : Parted c L s.2.sink cp a) (hone : cp.height = a.height + 1)
    (hup : a.height < c.height) (hA : Answers c.replies c.Beyond source)
    (hserved : ∀ x, c.line.Has x → HasHeader source x)
    (hback : cp.height - a.height ≤ config.maxReorgDepth)
    (hdepth : c.height - a.height ≤ config.maxReorgDepth)
    (hfinal : ∀ f ∈ config.finalizedHeight, f ≤ a.height) :
    wp (do
        applyChainState config source.toLiveSource BlockingPostgresLiveSink.liveSink (fun _ => false)
          c.head
        finish BlockingPostgresLiveSink.liveSink)
      (fun _ s' => (∀ block ∈ c.blocksFrom (a.height + 1), Fits block) ∧
        checkpointRow s'.2.sink.server.db = some c.head)
      (fun _ _ => ¬ ∀ block ∈ c.blocksFrom (a.height + 1), Fits block) s := by
  have hne : cp ≠ a := by
    intro hsame
    subst hsame
    omega
  -- The only row that the walk asks the source for is the fork.
  have hfork : ∀ x ∈ L, a.height ≤ x.height → x.height < cp.height → HasHeader source x := by
    intro x hx hle hlt
    have heq : x = a := h.wellFormed.linked.eq_of_height hx h.fork.mem (by
      simp only [block_height]
      omega)
    exact hserved x (heq ▸ h.fork.has)
  obtain ⟨batch, base, ups, hturn, hok⟩ := outcome_within h hne hup hserved hfork hdepth hback hfinal
  rw [wp_bind]
  refine applyChainState_commits h hA (by omega) hok fun s1 h1 => ?_
  refine wp_mono (commitChainBatch_follows (h1.sink.symm ▸ h) hup hA hturn) ?_ fun _ _ => id
  intro _ s2 h2
  obtain ⟨hfits, htop, hreads⟩ := h2
  refine finish_wp hreads fun s3 h3 _ => ⟨hfits, ?_⟩
  rw [h3.sink]
  exact htop

end

/-- Above the checkpoint the tables take every block that fits. -/
theorem Parted.takesFrom (h : Parted c L k cp a) :
    TakesFrom c (cp.height + 1) k.server.db.1 ↔ ∀ block ∈ c.blocksFrom (cp.height + 1), Fits block := by
  constructor
  · intro htakes block hblock
    obtain ⟨i, hi, hle, rfl⟩ := SourceChain.mem_blocksFrom.1 hblock
    exact (htakes i hi hle).fits
  · intro hfits i hi hle
    refine ⟨hfits _ (SourceChain.mem_blocksFrom.2 ⟨i, hi, hle, rfl⟩), fun x hx hheight => ?_⟩
    have hrow : x.height ≤ cp.height :=
      h.wellFormed.linked.height_le h.last ((h.wellFormed.canonical x).1 hx)
    rw [c.height_eq i hle] at hheight
    omega

/-- The run returned, and the checkpoint is the source's head. -/
def Followed (c : SourceChain V) (r : Except LiveError LiveReport × Peers σ BlockingPostgresLiveSink) :
    Prop :=
  ∃ report, r.1 = .ok report ∧ checkpointRow r.2.sink.server.db = some c.head

/-- **One orphan can be followed, two cannot.** The source has its own chain and nothing of the
orphans, which are all rows of the sink. A reorg within the limits is followed if and only if there is
a budget, the new blocks fit their columns, and no more than one row is rolled back: the walk down
from the checkpoint asks the source for the others. -/
theorem follows_iff {p : Peers σ BlockingPostgresLiveSink} (h : Parted c L p.sink cp a)
    (hA : Answers c.replies c.Beyond source) (hserved : ∀ x, c.line.Has x → HasHeader source x)
    (hpruned : ∀ x ∈ c.orphans L, LacksHeader source x.hash)
    (hback : cp.height - a.height ≤ config.maxReorgDepth)
    (hdepth : c.height - a.height ≤ config.maxReorgDepth)
    (hfinal : ∀ f ∈ config.finalizedHeight, f ≤ a.height) (events : List LiveHeadEvent) :
    (∀ x ∈ c.orphans L, x ∈ p.sink.server.db.1.headers) ∧
      (Followed c (exec (run config source.toLiveSource BlockingPostgresLiveSink.liveSink events) p) ↔
        CanFollow c config cp a) := by
  refine ⟨fun x hx => Tables.canonical_subset ((h.wellFormed.canonical x).2 (h.orphan_mem hx)), ?_⟩
  refine wp_iff (G := fun _ (p' : Peers σ BlockingPostgresLiveSink) =>
    checkpointRow p'.sink.server.db = some c.head) ?_
  by_cases hne : cp = a
  · subst hne
    have hcan : CanFollow c config cp cp ↔ config.liveBudgetCostUnitsPerMinute ≠ 0 ∧
        TakesFrom c (cp.height + 1) p.sink.server.db.1 := by
      rw [h.takesFrom]
      exact ⟨fun hcan => ⟨hcan.budget, hcan.fits⟩, fun hand => ⟨hand.1, hand.2, .inl rfl⟩⟩
    rw [hcan]
    exact wp_mono (run_straight h hA events) (fun _ _ hr => iff_of_true hr.2.2 hr.1) fun _ _ => id
  have hpos := (h.cp_orphan hne).1
  -- A run that changes no row leaves the checkpoint, which is not the source's head.
  have hstays : ∀ {k' : BlockingPostgresLiveSink}, k' = p.sink → ¬ CanFollow c config cp a →
      (checkpointRow k'.server.db = some c.head ↔ CanFollow c config cp a) := by
    intro k' hk hnot
    refine iff_of_false (fun htop => ?_) hnot
    rw [hk, h.row] at htop
    exact (h.cp_orphan hne).2 (Option.some.inj htop ▸ SourceChain.has_head)
  by_cases hup : a.height < c.height
  · refine run_turn h hne hup hA (fun hzero _ _ hcan => hcan.budget hzero) (fun hb s hsink _ => ?_) events
    by_cases hone : cp.height = a.height + 1
    · refine wp_mono (applyChainState_follows (hsink.symm ▸ h) hone hup hA hserved hback hdepth hfinal)
        ?_ fun _ _ hnot hcan => hnot hcan.fits
      intro _ s1 h1
      exact iff_of_true h1.2 ⟨hb, h1.1, .inr ⟨hone, hup⟩⟩
    · have hnot : ¬ CanFollow c config cp a := by
        intro hcan
        cases hcan.near with
        | inl heq => exact hne heq
        | inr hand => exact hone hand.1
      rw [wp_bind]
      refine wp_mono (applyChainState_stays (hsink.symm ▸ h) hA fun _ => ?_) ?_ fun _ _ _ => hnot
      · exact outcome_stuck (hsink.symm ▸ h) (by omega) hup hserved hpruned hdepth hfinal
      · intro _ s1 h1
        have hsink1 : s1.2.sink = p.sink := h1.trans hsink
        refine finish_wp (by rw [hsink1]; exact h.unbroken.reads) fun s2 h2 _ => ?_
        exact hstays (h2.sink.trans hsink1) hnot
  · have hnot : ¬ CanFollow c config cp a := by
      intro hcan
      cases hcan.near with
      | inl heq => exact hne heq
      | inr hand => exact hup hand.2
    have hbehind : a.height = c.height := Nat.le_antisymm h.fork_le (Nat.le_of_not_lt hup)
    exact wp_mono (run_behind h hne hbehind hA events) (fun _ _ hr => hstays hr.2 hnot)
      fun _ _ _ => hnot

/-- The source has its own branch only. -/
theorem prunedB : Answers chainB.replies chainB.Beyond
    (blockingTrackerSource (scriptedRpc [b2] blocksB blocksB)) :=
  (@scripted_constant _ chainB _ _ (by decide)
    (by show ∀ b ∈ blocksB, b.header ∈ smallTree ∧ _; decide)).mono
      (beyond_of_missing (by decide) (by decide))

theorem prunedB_has {x : BlockHeader} (hx : chainB.line.Has x) :
    HasHeader (blockingTrackerSource (scriptedRpc [b2] blocksB blocksB)) x := by
  have hall : ∀ y ∈ smallTree, chainB.line.Has y →
      (blocksB.find? (·.header.hash = y.hash)).map (·.header) = some y := by
    decide
  exact scripted_has (hall x hx.mem hx)

theorem prunedB_lacks {L : List BlockHeader}
    (hL : ∀ x ∈ chainB.orphans L, blocksB.find? (·.header.hash = x.hash) = none) :
    ∀ x ∈ chainB.orphans L,
      LacksHeader (blockingTrackerSource (scriptedRpc [b2] blocksB blocksB)) x.hash := fun x hx =>
  scripted_lacks (hL x hx)

/-- `follows_iff` with one orphan. -/
theorem follows_iff_one :
    (∀ x ∈ chainB.orphans [genesis, a1], x ∈ (storeOf [genesis, a1]).1.headers) ∧
      Followed chainB (runScript smallConfig [b2] blocksB blocksB (storeOf [genesis, a1])) := by
  have hplain : ∀ block ∈ chainB.blocksFrom (genesis.height + 1),
      block.header.height ≤ bigintMax ∧ block.logs = [] := by
    decide
  obtain ⟨hrows, hiff⟩ := @follows_iff _ _ _ _ _ _ _ _ smallConfig _ parted_small prunedB
    (fun _ => prunedB_has) (prunedB_lacks (by decide)) (by decide) (by decide) (by decide) []
  refine ⟨hrows, hiff.2 ⟨by decide, fun block hblock => ?_, .inr (by decide)⟩⟩
  obtain ⟨hheight, hlogs⟩ := hplain block hblock
  exact ⟨hheight, by simp [hlogs], by simp [hlogs]⟩

/-- Two rows to roll back, and a source that has neither. -/
theorem two_orphans_stuck :
    Parted chainB [genesis, a1, a2] (startOn (storeOf [genesis, a1, a2])).sink a2 genesis ∧
      Answers chainB.replies chainB.Beyond
        (blockingTrackerSource (scriptedRpc [b2] blocksB blocksB)) ∧
      (∀ x, chainB.line.Has x →
        HasHeader (blockingTrackerSource (scriptedRpc [b2] blocksB blocksB)) x) ∧
      (∀ x ∈ chainB.orphans [genesis, a1, a2],
        LacksHeader (blockingTrackerSource (scriptedRpc [b2] blocksB blocksB)) x.hash) ∧
      a2.height - genesis.height ≤ smallConfig.maxReorgDepth ∧
      chainB.height - genesis.height ≤ smallConfig.maxReorgDepth ∧
      ¬ Followed chainB (runScript smallConfig [b2] blocksB blocksB
        (storeOf [genesis, a1, a2])) := by
  refine ⟨startOn_parted (by decide) (by decide) rfl ⟨by decide, by decide, by decide⟩, prunedB,
    fun _ => prunedB_has, prunedB_lacks (by decide), by decide, by decide, fun hfollowed => ?_⟩
  obtain ⟨report, hok, -⟩ := hfollowed
  have hfails : (runScript smallConfig [b2] blocksB blocksB
      (storeOf [genesis, a1, a2])).1.toOption = none := by
    decide +kernel
  rw [hok] at hfails
  cases hfails

end Chainweave.Live
