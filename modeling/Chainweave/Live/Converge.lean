import Chainweave.Live.Source

/-!
# Runs on a source of one chain

Whatever calls fail, a run on a source of one chain carries out a front part of the
plan, and so do runs that are cut short and started again (`Underway`).

* `run_converges`: a run that returns without a halt has carried out the whole plan,
  and another run commits nothing.
* `interrupted_agrees`: runs cut short anywhere, and then one that returns without a
  halt, leave what one run does.
-/
namespace Chainweave.Live

open Stateful HashLink Chainweave.Chain Chainweave.Backfill Chainweave.Postgres Chainweave.Runtime
open BlockingPostgresLiveSink (checkpointRow)

variable {σ ε : Type} {V : Set BlockHeader} {c : SourceChain V} {config : LiveConfig}
  {source : BlockSource σ ε}

/-- From `db0`, `done` was carried out, and the plan of the chain reached is what is left of
`plan`. -/
structure Underway (c : SourceChain V) (db0 : Database) (plan : List DurableChainEvent)
    (db : Database) (L : List BlockHeader) (done : List DurableChainEvent) : Prop where
  wellFormed : WellFormed V db.1 L
  ran : RunsTo db0 done db
  plan : done ++ c.plan L = plan

/-- A durable state with a front part of the plan carried out. -/
def OnPlan (c : SourceChain V) (db0 : Database) (plan : List DurableChainEvent)
    (db : Database) : Prop :=
  ∃ L done, Underway c db0 plan db L done

section
variable {db0 db db' : Database} {plan : List DurableChainEvent} {L L' : List BlockHeader}
  {events done : List DurableChainEvent} {v v' : View}

theorem Underway.start (h : WellFormed V db.1 L) : Underway c db (c.plan L) db L [] :=
  ⟨h, .refl db, rfl⟩

theorem Underway.commit (h : Underway c db0 plan db L done) (hwf : WellFormed V db'.1 L')
    (hrun : RunsTo db events db') (hplan : c.plan L = events ++ c.plan L') :
    Underway c db0 plan db' L' (done ++ events) :=
  ⟨hwf, h.ran.trans hrun, by rw [List.append_assoc, ← hplan, h.plan]⟩

/-- The source's head goes to the chain state only while the chain does not hold it. -/
theorem offer_off_chain (hwf : WellFormed V v.db.1 L) {head : BlockHeader}
    {k : BlockingPostgresLiveSink} {batch : ChainBatch}
    (ho : Offer V c.replies config source v head k batch) : head = c.head ∧ c.head ∉ L := by
  obtain rfl : head = c.head := ho.reply
  refine ⟨rfl, fun hmem => ?_⟩
  obtain ⟨cp, hcp⟩ := Option.isSome_iff_exists.1 (List.getLast?_isSome.2 (List.ne_nil_of_mem hmem))
  have htop : checkpointRow v.db = some cp := by rw [checkpointRow_wellFormed hwf, hcp]
  have hle : c.head.height ≤ cp.height := hwf.linked.height_le hcp hmem
  have hcan : c.head ∈ v.db.1.canonical := (hwf.canonical _).2 hmem
  cases ho.reason with
  | reread _ _ hfirst hbelow =>
    obtain rfl : _ = c.head := hfirst
    exact absurd (hbelow cp htop) (Nat.not_lt.2 hle)
  | remote _ _ hanswer hother =>
    have hremote := hanswer.2 (Nat.le_of_eq SourceChain.head_height)
    rw [hremote, rowAt_of_mem hcan, SourceChain.head_height] at hother
    simp [sameHash, SourceChain.head] at hother
  | @sibling cp' htop' hheight hhash =>
    obtain rfl := Option.some.inj (htop.symm.trans htop')
    have heq := hwf.linked.eq_of_height hmem (List.mem_of_getLast? hcp) hheight
    exact hhash (by rw [heq])

/-- What a commit of a run does to the plan. -/
inductive Commit (c : SourceChain V) (db : Database) (L : List BlockHeader) (db' : Database) :
    Prop
  | mk {L' : List BlockHeader} {events : List DurableChainEvent} (hwf : WellFormed V db'.1 L')
      (hrun : RunsTo db events db') (hplan : c.plan L = events ++ c.plan L') (hne : events ≠ [])

/-- **A move leaves the store, or commits the next part of the plan.** -/
theorem move_commit (hV : HashId V) (hwf : WellFormed V v.db.1 L)
    (hm : Move V c.replies config source v v') :
    v'.db = v.db ∧ v'.history = v.history ∨
      Commit c v.db L v'.db ∧ ∃ batch, v'.history = v.history ++ [(batch, v'.db)] := by
  cases hm with
  | remote => exact .inl ⟨rfl, rfl⟩
  | reread => exact .inl ⟨rfl, rfl⟩
  | offer => exact .inl ⟨rfl, rfl⟩
  | @extend block anchor report db' hreply hfollows hcommit =>
    rw [checkpointRow_wellFormed hwf] at hfollows
    obtain ⟨hwf', hrun⟩ := blockBatch_commit hV hwf
      (SourceChain.replies_within.block _ _ hreply) hfollows hcommit
    exact .inr ⟨⟨hwf', hrun, SourceChain.plan_extend hV hwf hreply hfollows, by simp [blockBatch]⟩,
      _, rfl⟩
  | @commit head k batch blocks durable report db' hoffer _ hmap hblocks hdurable hne hcommit =>
    obtain ⟨rfl, hnew⟩ := offer_off_chain hwf hoffer
    have hin := SourceChain.replies_within (c := c)
    obtain ⟨htop, -⟩ | ⟨base, ups, applies, ht⟩ := offer_turn hV hin hwf hoffer
    · exact absurd (List.mem_of_getLast? ((checkpointRow_wellFormed hwf).symm.trans htop)) hnew
    · obtain ⟨hwf', hrun, bs, hbs, hsub, hev⟩ := ht.commit hV hwf
        (fun b hb => hin.blockOf _ b (hblocks b hb)) hdurable hcommit
      obtain ⟨hplan, hrest⟩ := SourceChain.plan_turn hV hwf ht hnew hbs
        (fun b hb => hblocks b (hsub b hb))
      refine .inr ⟨⟨hwf', hrun, by rw [hev, hrest, hplan, List.append_nil], ?_⟩, _, rfl⟩
      intro h0
      simp [DurableChainBatch.isEmpty, h0] at hne

/-- Moves keep to the plan, in every durable state on the way. -/
theorem moves_onPlan (hV : HashId V) (h : OnPlan c db0 plan v.db)
    (hm : Relation.ReflTransGen (Move V c.replies config source) v v') :
    OnPlan c db0 plan v'.db ∧ ∃ new, v'.history = v.history ++ new ∧
      ∀ entry ∈ new, OnPlan c db0 plan entry.2 := by
  induction hm with
  | refl => exact ⟨h, [], by simp, by simp⟩
  | @tail b v' _ hstep ih =>
    obtain ⟨⟨L, done, hon⟩, new, hnew, hall⟩ := ih
    obtain ⟨hdb, hh⟩ | ⟨⟨hwf, hrun, hplan, -⟩, batch, hh⟩ := move_commit hV hon.wellFormed hstep
    · exact ⟨⟨L, done, hdb ▸ hon⟩, new, hh.trans hnew, hall⟩
    · have hon' : OnPlan c db0 plan v'.db := ⟨_, _, hon.commit hwf hrun hplan⟩
      refine ⟨hon', new ++ [(batch, v'.db)], by rw [hh, hnew, List.append_assoc], ?_⟩
      intro entry he
      rcases List.mem_append.1 he with he | he
      · exact hall entry he
      · obtain rfl := List.mem_singleton.1 he
        exact hon'

/-- On a chain that holds the source's head nothing is left to commit. -/
theorem moves_idle (hV : HashId V) (hwf : WellFormed V v.db.1 L) (hhead : c.head ∈ L)
    (hm : Relation.ReflTransGen (Move V c.replies config source) v v') :
    v'.db = v.db ∧ v'.history = v.history := by
  induction hm with
  | refl => exact ⟨rfl, rfl⟩
  | @tail b v' _ hstep ih =>
    obtain ⟨hdb, hh⟩ := ih
    obtain ⟨hdb', hh'⟩ | ⟨⟨-, -, hplan, hne⟩, -⟩ := move_commit hV (hdb ▸ hwf) hstep
    · exact ⟨hdb'.trans hdb, hh'.trans hh⟩
    · rw [SourceChain.plan_of_mem hhead] at hplan
      exact absurd (List.append_eq_nil_iff.1 hplan.symm).1 hne

/-- A settled chain holds the source's head. -/
theorem settled_head (hV : HashId V) (hwf : WellFormed V db.1 L) (h : Settled c.replies db) :
    c.head ∈ L := by
  obtain ⟨head, rfl, hcases⟩ := h
  rw [← hwf.canonical]
  rcases hcases with hmem | ⟨block, ⟨-, rfl⟩, hmem⟩ | ⟨remote, row, hremote, hmem, hhash⟩
  · exact hmem
  · rwa [SourceChain.head_height] at hmem
  · have hr := hremote.2 (Nat.le_of_eq SourceChain.head_height)
    rw [Option.some.injEq, SourceChain.head_height] at hr
    have heq : c.head = row := hV (c.mem _ (Nat.le_refl _))
      (hwf.rows _ (Tables.canonical_subset hmem)) (hr ▸ hhash)
    rwa [heq]

/-- The whole plan leaves one database. -/
theorem Underway.final_unique {db1 db2 : Database} {L1 L2 : List BlockHeader}
    {done1 done2 : List DurableChainEvent} (h1 : Underway c db0 plan db1 L1 done1)
    (h2 : Underway c db0 plan db2 L2 done2) (hhead1 : c.head ∈ L1) (hhead2 : c.head ∈ L2) :
    db1 = db2 := by
  have hdone1 : done1 = plan := by rw [← h1.plan, SourceChain.plan_of_mem hhead1, List.append_nil]
  have hdone2 : done2 = plan := by rw [← h2.plan, SourceChain.plan_of_mem hhead2, List.append_nil]
  subst hdone1
  subst hdone2
  obtain ⟨u, hu, hdb1⟩ := h1.ran
  obtain ⟨w, hw, hdb2⟩ := h2.ran
  obtain rfl := Except.ok.inj (hu.symm.trans hw)
  have hcan : ∀ x, x ∈ L1 ↔ x ∈ L2 := by
    intro x
    rw [← h1.wellFormed.canonical, ← h2.wellFormed.canonical, hdb1, hdb2]
    rfl
  have hL : L1 = L2 := h1.wellFormed.linked.ext h2.wellFormed.linked hcan
  have hcp : db1.1.checkpoint = db2.1.checkpoint := by
    rw [h1.wellFormed.checkpoint, h2.wellFormed.checkpoint, hL]
  exact Subtype.ext (by rw [hdb1, hdb2, hcp])

/-- `db'` is `db` taken to the source's head: the blocks `base` that the source has stay as they are,
and the source's blocks above them take the place of the others. -/
structure CaughtUp (c : SourceChain V) (db : Database) (base : List BlockHeader) (db' : Database) :
    Prop where
  checkpoint : db'.1.checkpoint = some (checkpointOf c.head)
  canonical : ∀ x, x ∈ db'.1.canonical ↔ x ∈ base ∨
    ∃ n, SourceChain.nextHeight base ≤ n ∧ n ≤ c.height ∧ x = (c.block n).header
  rows : ∀ row : BlockRow, row.header ∈ base → (row ∈ db'.1.blocks ↔ row ∈ db.1.blocks)

/-- What the whole plan leaves. -/
theorem Underway.caughtUp (hV : HashId V) (hwf : WellFormed V db.1 L) {base ups : List BlockHeader}
    (hleaves : c.Leaves L base ups) (hhead : c.head ∉ L)
    (h : Underway c db (c.plan L) db' L' done) (hhead' : c.head ∈ L') :
    CaughtUp c db base db' := by
  have hLV : ∀ x ∈ L, x ∈ V := fun x hx =>
    hwf.rows x (Tables.canonical_subset ((hwf.canonical x).2 hx))
  have hbaseV : ∀ x ∈ base, x ∈ V := fun x hx =>
    hLV x (hleaves.split ▸ List.mem_append_left _ hx)
  have hblocksV : ∀ b ∈ c.blocksFrom (SourceChain.nextHeight base), b.header ∈ V := by
    intro b hb
    obtain ⟨n, -, hn, rfl⟩ := SourceChain.mem_blocksFrom.1 hb
    exact c.mem n hn
  have hnew := SourceChain.linked_shared (c := c) (hleaves.split ▸ hwf.linked).left hleaves.last
  -- the events of the plan, on the chain
  obtain ⟨t, ht, hdb'⟩ := h.ran
  rw [← List.append_nil done, ← SourceChain.plan_of_mem hhead', h.plan, hleaves.plan hhead] at ht
  obtain ⟨w, hroll, happly⟩ := runEvents_append_ok.1 ht
  obtain ⟨w', hroll', hholds, -⟩ := runEvents_rollbacks (hleaves.split ▸ hwf.toHolds)
  obtain rfl : w' = w := Except.ok.inj (hroll'.symm.trans hroll)
  obtain ⟨hfinal, -⟩ := runEvents_applies hV hholds hblocksV hnew happly
  have hcan : ∀ x, x ∈ db'.1.canonical ↔
      x ∈ base ++ (c.blocksFrom (SourceChain.nextHeight base)).map (·.header) := by
    intro x
    rw [← hfinal.canonical, hdb']
    rfl
  refine ⟨?_, fun x => ?_, fun row hrow => ?_⟩
  · have hL' : L' = base ++ (c.blocksFrom (SourceChain.nextHeight base)).map (·.header) :=
      h.wellFormed.linked.ext hnew fun x => by rw [← h.wellFormed.canonical, hcan]
    have hlast := SourceChain.blocksFrom_last (hleaves.next_le hhead)
    have hne : (c.blocksFrom (SourceChain.nextHeight base)).map (·.header) ≠ [] := by
      intro h0
      rw [h0] at hlast
      cases hlast
    rw [h.wellFormed.checkpoint, hL', List.getLast?_append_of_ne_nil _ hne, hlast]
    rfl
  · rw [hcan, List.mem_append, List.mem_map]
    refine or_congr_right ?_
    constructor
    · intro hex
      rcases hex with ⟨b, hb, rfl⟩
      obtain ⟨n, h1, h2, rfl⟩ := SourceChain.mem_blocksFrom.1 hb
      exact ⟨n, h1, h2, rfl⟩
    · intro hex
      rcases hex with ⟨n, h1, h2, rfl⟩
      exact ⟨c.block n, SourceChain.mem_blocksFrom.2 ⟨n, h1, h2, rfl⟩, rfl⟩
  · rw [hdb']
    refine runEvents_frame ht fun event he hhash => ?_
    have hrowV := hbaseV _ hrow
    rcases List.mem_append.1 he with he | he
    · obtain ⟨x, hx, rfl⟩ := List.mem_map.1 he
      rw [List.mem_reverse] at hx
      have heq : row.header = x :=
        hV hrowV (hLV x (hleaves.split ▸ List.mem_append_right _ hx)) hhash
      exact hleaves.orphaned x hx (heq ▸ hleaves.shared _ hrow)
    · obtain ⟨b, hb, rfl⟩ := List.mem_map.1 he
      have heq : row.header = b.header := hV hrowV (hblocksV b hb) hhash
      have hlt := (List.pairwise_append.1 hnew.pairwise).2.2 _ hrow _
        (List.mem_map.2 ⟨b, hb, rfl⟩)
      rw [heq] at hlt
      exact Nat.lt_irrefl _ hlt

end

/-! ## Runs -/

section
variable {p p' q q' : Peers σ BlockingPostgresLiveSink} {L : List BlockHeader}
  {events events' : List LiveHeadEvent} {isCancelled isCancelled' : Nat → Bool}
  {config' : LiveConfig} {report report' : LiveReport}

/-- A run, as moves; if it returns without a halt, the chain holds the source's head. -/
theorem run_last (hV : HashId V) (hA : Answers c.replies (fun _ => True) source)
    (hreads : p.sink.server.readFaults = []) (hwf : WellFormed V p.sink.server.db.1 L)
    (hrun : exec (runWithCancellation config source.toLiveSource BlockingPostgresLiveSink.liveSink
      isCancelled events) p = (.ok report, p')) (hhalt : report.halted = none) :
    Relation.ReflTransGen (Move V c.replies config source) (view p) (view p') ∧
      ∀ L', WellFormed V p'.sink.server.db.1 L' → c.head ∈ L' := by
  obtain ⟨hmoves, hsettled⟩ := wp_ok (run_moves hV SourceChain.replies_within hA (fun _ => trivial)
    hreads ⟨L, hwf⟩ events) hrun
  exact ⟨hmoves.moves, fun L' hwf' => settled_head hV hwf' (hsettled hhalt)⟩

/-- **Live tracking converges.** While the sink's reads answer, a run over a source of one chain that
returns without a halt found the source's head on the chain and left the store, or took the chain to
it; and any further run commits nothing. -/
theorem run_converges (hV : HashId V) (hA : Answers c.replies (fun _ => True) source)
    (hreads : p.sink.server.readFaults = []) (hwf : WellFormed V p.sink.server.db.1 L)
    (hrun : exec (runWithCancellation config source.toLiveSource BlockingPostgresLiveSink.liveSink
      isCancelled events) p = (.ok report, p')) (hhalt : report.halted = none) :
    (c.head ∈ L ∧ p'.sink.server.db = p.sink.server.db ∧
        p'.sink.server.history = p.sink.server.history ∨
      c.head ∉ L ∧ ∃ base ups, c.Leaves L base ups ∧
        CaughtUp c p.sink.server.db base p'.sink.server.db) ∧
    ∀ (config' : LiveConfig) (isCancelled' : Nat → Bool) (events' : List LiveHeadEvent)
      (q : Peers σ BlockingPostgresLiveSink), q.sink.server.db = p'.sink.server.db →
      q.sink.server.readFaults = [] →
      let last := (exec (runWithCancellation config' source.toLiveSource
        BlockingPostgresLiveSink.liveSink isCancelled' events') q).2.sink.server
      last.db = q.sink.server.db ∧ last.history = q.sink.server.history := by
  obtain ⟨hmoves, hhead⟩ := run_last hV hA hreads hwf hrun hhalt
  obtain ⟨⟨L', done, hon⟩, -⟩ := moves_onPlan hV ⟨L, [], Underway.start hwf⟩ hmoves
  have hhead' := hhead L' hon.wellFormed
  refine ⟨?_, fun config' isCancelled' events' q hdb hq => ?_⟩
  · by_cases hmem : c.head ∈ L
    · exact .inl ⟨hmem, moves_idle hV hwf hmem hmoves⟩
    · obtain ⟨base, ups, hleaves⟩ := SourceChain.exists_leaves (c := c) hV hwf
      exact .inr ⟨hmem, base, ups, hleaves, hon.caughtUp hV hwf hleaves hmem hhead'⟩
  · have hwf' : WellFormed V q.sink.server.db.1 L' := hdb ▸ hon.wellFormed
    exact moves_idle hV hwf' hhead' (running_last config' isCancelled' hV
      SourceChain.replies_within hA hq ⟨L', hwf'⟩ events').moves

/-- `run_converges` where the source is on the other branch. -/
theorem run_converges_fork :
    let last := (runScript smallConfig [b2] blocksB treeBlocks (storeOf [genesis, a1])).2.sink.server
    (∃ base ups, chainB.Leaves [genesis, a1] base ups ∧
      CaughtUp chainB (storeOf [genesis, a1]) base last.db) ∧
      last.db.1.checkpoint = some (checkpointOf b2) ∧
      (runScript smallConfig [b2] blocksB treeBlocks last.db).2.sink.server.db = last.db := by
  have hA : Answers chainB.replies (fun _ => True)
      (blockingTrackerSource (scriptedRpc [b2] blocksB treeBlocks)) :=
    answersB.mono fun _ _ => trivial
  have hhalt : (runScript smallConfig [b2] blocksB treeBlocks
      (storeOf [genesis, a1])).1.toOption.map (·.halted) = some none := by decide +kernel
  obtain ⟨report, hrun, hnone⟩ := ok_of_halted hhalt
  have hnew : chainB.head ∉ [genesis, a1] := by decide
  rw [runScript_eq] at hrun
  obtain ⟨hcases, hagain⟩ := run_converges smallTree_hashId hA
    (startOn_reads (storeOf [genesis, a1]))
    wellFormed_small hrun hnone
  rw [← runScript_eq] at hcases
  dsimp only
  refine ⟨?_, by decide +kernel, ?_⟩
  · obtain ⟨hmem, -⟩ | ⟨-, base, ups, hleaves, hup⟩ := hcases
    · exact absurd hmem hnew
    · exact ⟨base, ups, hleaves, hup⟩
  · rw [← runScript_eq] at hagain
    have h := hagain smallConfig (fun _ => false) [] (startOn (runScript smallConfig [b2] blocksB
      treeBlocks (storeOf [genesis, a1])).2.sink.server.db) (startOn_db _) (startOn_reads _)
    rw [← runScript_eq] at h
    exact h.1.trans (startOn_db _)

/-- The durable states of runs from `db` that are cut short: before a commit, after one, or by an
error. -/
inductive CutShort (source : BlockSource σ ε) (db : Database) : Database → Prop
  | mk {config : LiveConfig} {isCancelled : Nat → Bool} {events : List LiveHeadEvent}
      {p : Peers σ BlockingPostgresLiveSink} {db' : Database} (hdb : p.sink.server.db = db)
      (hreads : p.sink.server.readFaults = []) (hhistory : p.sink.server.history = [])
      (hcut : db' = db ∨ ∃ entry ∈ (exec (runWithCancellation config source.toLiveSource
        BlockingPostgresLiveSink.liveSink isCancelled events) p).2.sink.server.history,
          entry.2 = db') :
      CutShort source db db'

/-- A run that is cut short keeps to the plan. -/
theorem cutShort_onPlan (hV : HashId V) (hA : Answers c.replies (fun _ => True) source)
    {db0 db db' : Database} {plan : List DurableChainEvent} (h : OnPlan c db0 plan db)
    (hcut : CutShort source db db') : OnPlan c db0 plan db' := by
  cases hcut with
  | @mk config isCancelled events p _ hdb hreads hhistory hcut =>
    subst hdb
    obtain ⟨L, done, hon⟩ := h
    have hrun := running_last config isCancelled hV SourceChain.replies_within hA hreads
      ⟨L, hon.wellFormed⟩ events
    obtain ⟨-, new, hnew, hall⟩ := moves_onPlan hV ⟨L, done, hon⟩ hrun.moves
    rcases hcut with rfl | ⟨entry, he, rfl⟩
    · exact ⟨L, done, hon⟩
    · have hlast : (view (exec (runWithCancellation config source.toLiveSource
          BlockingPostgresLiveSink.liveSink isCancelled events) p).2).history = new := by
        rw [hnew]
        exact congrArg (· ++ new) hhistory
      exact hall entry (hlast ▸ he)

theorem cutsShort_onPlan (hV : HashId V) (hA : Answers c.replies (fun _ => True) source)
    {db0 db db' : Database} {plan : List DurableChainEvent} (h : OnPlan c db0 plan db)
    (hcuts : Relation.ReflTransGen (CutShort source) db db') : OnPlan c db0 plan db' := by
  induction hcuts with
  | refl => exact h
  | tail _ hstep ih => exact cutShort_onPlan hV hA ih hstep

/-- **Crashes do not change the outcome.** While the sink's reads answer, any runs over a source of one
chain, each cut short anywhere, and then one that returns without a halt, leave the tables that one
such run leaves. -/
theorem interrupted_agrees (hV : HashId V) (hA : Answers c.replies (fun _ => True) source)
    {db : Database} (hwf : WellFormed V db.1 L)
    (hcuts : Relation.ReflTransGen (CutShort source) db p.sink.server.db)
    (hreads : p.sink.server.readFaults = [])
    (hrun : exec (runWithCancellation config source.toLiveSource BlockingPostgresLiveSink.liveSink
      isCancelled events) p = (.ok report, p')) (hhalt : report.halted = none)
    (hdb : q.sink.server.db = db) (hreads' : q.sink.server.readFaults = [])
    (hrun' : exec (runWithCancellation config' source.toLiveSource
      BlockingPostgresLiveSink.liveSink isCancelled' events') q = (.ok report', q'))
    (hhalt' : report'.halted = none) : p'.sink.server.db = q'.sink.server.db := by
  obtain ⟨L1, done1, hon1⟩ := cutsShort_onPlan hV hA ⟨L, [], Underway.start hwf⟩ hcuts
  obtain ⟨hmoves, hhead⟩ := run_last hV hA hreads hon1.wellFormed hrun hhalt
  obtain ⟨⟨L1', done1', hon1'⟩, -⟩ := moves_onPlan hV ⟨L1, done1, hon1⟩ hmoves
  subst hdb
  obtain ⟨hmoves', hhead'⟩ := run_last hV hA hreads' hwf hrun' hhalt'
  obtain ⟨⟨L2, done2, hon2⟩, -⟩ := moves_onPlan hV ⟨L, [], Underway.start hwf⟩ hmoves'
  exact hon1'.final_unique hon2 (hhead L1' hon1'.wellFormed) (hhead' L2 hon2.wellFormed)

end

/-- The peers after a run that is cancelled once it has committed a block. -/
def cancelledRun : Peers Nat BlockingPostgresLiveSink :=
  (exec (runWithCancellation smallConfig
    (blockingTrackerSource (scriptedRpc [a2] blocksA treeBlocks)).toLiveSource
    BlockingPostgresLiveSink.liveSink (2 ≤ ·) []) (startOn (storeOf [genesis]))).2

/-- `interrupted_agrees` where the first run is cancelled after one block. -/
theorem interrupted_agrees_cancelled :
    cancelledRun.sink.server.db.1.checkpoint = some (checkpointOf a1) ∧
      (runScript smallConfig [a2] blocksA treeBlocks cancelledRun.sink.server.db).2.sink.server.db =
        (runScript smallConfig [a2] blocksA treeBlocks (storeOf [genesis])).2.sink.server.db := by
  have hA : Answers chainA.replies (fun _ => True)
      (blockingTrackerSource (scriptedRpc [a2] blocksA treeBlocks)) :=
    answersA.mono fun _ _ => trivial
  have hwf : WellFormed {x | x ∈ smallTree} (storeOf [genesis]).1 [genesis] :=
    storeOf_wellFormed smallTree_hashId (by simp) (by decide)
      (by show ∀ x ∈ [genesis], x ∈ smallTree; decide) (by decide)
  have hcut : CutShort (blockingTrackerSource (scriptedRpc [a2] blocksA treeBlocks))
      (storeOf [genesis]) cancelledRun.sink.server.db := by
    have hlast : ∃ entry ∈ cancelledRun.sink.server.history,
        entry.2 = cancelledRun.sink.server.db := by decide +kernel
    unfold cancelledRun at hlast ⊢
    exact @CutShort.mk _ _ _ _ smallConfig (2 ≤ ·) [] (startOn (storeOf [genesis])) _ (startOn_db _)
      (startOn_reads _) (startOn_history _) (.inr hlast)
  have hhalt : (runScript smallConfig [a2] blocksA treeBlocks
      cancelledRun.sink.server.db).1.toOption.map (·.halted) = some none := by decide +kernel
  have hhalt' : (runScript smallConfig [a2] blocksA treeBlocks
      (storeOf [genesis])).1.toOption.map (·.halted) = some none := by decide +kernel
  obtain ⟨report, hrun, hnone⟩ := ok_of_halted hhalt
  obtain ⟨report', hrun', hnone'⟩ := ok_of_halted hhalt'
  rw [runScript_eq] at hrun hrun'
  refine ⟨by decide +kernel, ?_⟩
  rw [runScript_eq, runScript_eq]
  rw [← startOn_db cancelledRun.sink.server.db] at hcut
  exact interrupted_agrees smallTree_hashId hA hwf (.single hcut) (startOn_reads _) hrun hnone
    (startOn_db (storeOf [genesis])) (startOn_reads (storeOf [genesis])) hrun' hnone'

end Chainweave.Live
