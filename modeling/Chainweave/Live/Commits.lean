import Chainweave.Cli.LiveRuntime
import Chainweave.Core.Coordinator
import Chainweave.Sink.Refine
import Chainweave.Sink.Server

/-!
# Commits of the live sink

* `push_wp`: a coordinator that holds nothing back hands a one-block range to the
  sink if it follows the parent anchor, and reports it invalidated otherwise.
* `commitRange_wp`: the live sink commits exactly the block it is given
  (`blockBatch`), through a coordinator of its own.
* `checkpoint_read`, ...: what the sink's reads return while none of them fails.
-/
namespace Chainweave.Backfill

open Stateful HashLink Chainweave.Chain

variable {L κ : Type}

/-- A range of one block. -/
structure OneBlock (fetched : FetchedRange L) (header : BlockHeader) (block : L) : Prop where
  range : fetched.range = ⟨header.height, header.height⟩
  headers : fetched.headers = [header]
  logs : fetched.logs = [block]

/-- A range of one block exists for the block's own height, and for no other. -/
theorem oneBlockRange_ok {height : Nat} {header : BlockHeader} {block : L}
    {fetched : FetchedRange L} (h : Live.oneBlockRange height header block = .ok fetched) :
    header.height = height ∧ OneBlock fetched header block := by
  unfold Live.oneBlockRange at h
  rw [BackfillRange.new_self] at h
  simp only [bind, Except.bind] at h
  obtain ⟨hrange, hheaders, hlogs⟩ := FetchedRange.new_ok h
  have hvalid := fetched.valid
  rw [hrange, hheaders] at hvalid
  have hheight := validateHeaders_one.1 hvalid
  exact ⟨hheight, by rw [hrange, hheight], hheaders, hlogs⟩

theorem oneBlockRange_exists (header : BlockHeader) (block : L) :
    ∃ fetched, Live.oneBlockRange header.height header block = .ok fetched ∧
      OneBlock fetched header block := by
  have hvalid : validateHeaders ⟨header.height, header.height⟩ [header] = .ok () :=
    validateHeaders_one.2 rfl
  obtain ⟨fetched, hnew⟩ : ∃ fetched,
      FetchedRange.new ⟨header.height, header.height⟩ [header] [block] = .ok fetched :=
    FetchedRange.new_of_valid hvalid
  obtain ⟨hrange, hheaders, hlogs⟩ := FetchedRange.new_ok hnew
  refine ⟨fetched, ?_, hrange, hheaders, hlogs⟩
  unfold Live.oneBlockRange
  rw [BackfillRange.new_self]
  exact hnew

section
variable {commitRange : CommitRange κ L} {coordinator : OrderedCommitCoordinator L}
  {fetched : FetchedRange L} {header : BlockHeader} {block : L} {target : Nat}
  {anchor : Option BlockHeader}

/-- What a push of one block reports. -/
def oneBlockProgress (header : BlockHeader) : CommitProgress where
  committedRanges := 1
  committedBlocks := 1
  committedLogs := 1
  lastCommittedHeight := some header.height

/-- **A push of one block**: it goes to the sink if it follows the anchor. -/
theorem push_wp {Q : CommitProgress → OrderedCommitCoordinator L × κ → Prop}
    {E : BackfillError → OrderedCommitCoordinator L × κ → Prop} {k : κ}
    (hone : OneBlock fetched header block)
    (hidle : Idle coordinator header.height target anchor) (hle : header.height ≤ target)
    (hbad : ∀ a ∈ anchor, ¬ IsChild header a → ∀ c,
      E (.fetchedSuffixInvalidated header.height a.hash header.parentHash) (c, k))
    (hgood : (∀ a ∈ anchor, IsChild header a) → wp (commitRange fetched)
      (fun _ k' => ∀ c, Idle c (satAdd header.height 1) target (some header) →
        Q (oneBlockProgress header) (c, k'))
      (fun e k' => ∀ c, E (.commit e) (c, k')) k) :
    wp (OrderedCommitCoordinator.push commitRange fetched) Q E (coordinator, k) := by
  have hfrom : fetched.range.fromBlock = header.height := congrArg BackfillRange.fromBlock hone.range
  have hto : fetched.range.toBlock = header.height := congrArg BackfillRange.toBlock hone.range
  have hfirst : fetched.firstHeader = some header := by
    unfold FetchedRange.firstHeader
    rw [hone.headers]
    rfl
  have hnone : ∀ {c : OrderedCommitCoordinator L} {key : Nat}, (∀ height, height ∉ c.pending) →
      c.pending[key]? = none := fun hempty => Std.TreeMap.getElem?_eq_none (hempty _)
  have hparked : (coordinator.park fetched).pending[(coordinator.park fetched).nextHeight]? =
      some fetched := by
    show (coordinator.pending.insert fetched.range.fromBlock fetched)[coordinator.nextHeight]? = _
    rw [hfrom, hidle.nextHeight, Std.TreeMap.getElem?_insert_self]
  have hpopped : ∀ last : BlockHeader, Idle ((coordinator.park fetched).pop.advance last)
      (satAdd last.height 1) target (some last) := by
    refine fun last => ⟨rfl, hidle.targetHeight, rfl, fun height hm => ?_⟩
    change height ∈ (coordinator.pending.insert fetched.range.fromBlock fetched).erase
      coordinator.nextHeight at hm
    rw [hfrom, hidle.nextHeight, Std.TreeMap.mem_erase, Std.TreeMap.mem_insert] at hm
    exact hm.2.elim hm.1 (hidle.pending height)
  refine OrderedCommitCoordinator.push_rule (fun e c' hrefused => ?_) fun _ _ _ => ?_
  · -- A range at `next_height` is not refused.
    cases hrefused with
    | beyond hbeyond =>
      rw [hto, hidle.targetHeight] at hbeyond
      omega
    | stale hstale =>
      rw [hfrom, hidle.nextHeight] at hstale
      omega
    | duplicate _ _ hmem => exact absurd hmem (hidle.pending _)
  · refine OrderedCommitCoordinator.drainLoop_wp (I := fun progress c k' =>
      progress = {} ∧ c = coordinator.park fetched ∧ k' = k ∨
        (∀ height, height ∉ c.pending) ∧ Q progress (c, k')) ?_ ?_ ?_ (.inl ⟨rfl, rfl, rfl⟩)
        (Nat.le_refl _)
    · intro progress c k' f last hI hnext hlast hlinks
      rcases hI with ⟨rfl, rfl, rfl⟩ | ⟨hempty, -⟩
      · obtain rfl := Option.some.inj (hparked.symm.trans hnext)
        obtain rfl : header = last := by
          rw [hone.headers] at hlast
          exact Option.some.inj hlast
        refine wp_mono (hgood fun a ha => ?_) (fun _ k' hQ => ?_) fun e k' hE => hE _
        · exact hlinks header hfirst a (hidle.parentAnchor ▸ ha)
        · have hidle' := hpopped header
          refine .inr ⟨hidle'.pending, ?_⟩
          have hQ := hQ _ hidle'
          unfold OrderedCommitCoordinator.progressAfter
          rw [hone.range, BackfillRange.len_self, hone.logs]
          exact hQ
      · rw [hnone hempty] at hnext
        cases hnext
    · intro progress c k' f expected actual hI hnext hbreak
      rcases hI with ⟨rfl, rfl, rfl⟩ | ⟨hempty, -⟩
      · obtain rfl := Option.some.inj (hparked.symm.trans hnext)
        obtain ⟨first, hf, a, ha, hnot, rfl, rfl⟩ := hbreak
        obtain rfl := Option.some.inj (hfirst.symm.trans hf)
        rw [hfrom]
        exact hbad a (hidle.parentAnchor ▸ ha) hnot _
      · rw [hnone hempty] at hnext
        cases hnext
    · intro progress c k' hI hnext
      rcases hI with ⟨rfl, rfl, rfl⟩ | ⟨-, hQ⟩
      · cases hparked.symm.trans hnext
      · exact hQ

end

end Chainweave.Backfill

namespace Chainweave.Postgres

open Stateful HashLink Chainweave.Chain Chainweave.Backfill

/-- The batch of one block. -/
def blockBatch (parentAnchor : Option BlockHeader) (block : IndexedBlock) : DurableChainBatch where
  transition := if parentAnchor.isSome then .gap else .bootstrap
  commonAncestor := parentAnchor
  events := [.apply block]

theorem fromChainBatch_one (parentAnchor : Option BlockHeader) (block : IndexedBlock) :
    DurableChainBatch.fromChainBatch
      (PostgresBackfillCommitter.rangeBatch parentAnchor [block.header]) [block] =
        .ok (blockBatch parentAnchor block) := by
  obtain ⟨durable, hd⟩ := @fromChainBatch_exists
    (PostgresBackfillCommitter.rangeBatch parentAnchor [block.header]) [block] (.refl _)
    (by simp [PostgresBackfillCommitter.rangeBatch, applyHeaders])
  obtain ⟨ht, hca, hev⟩ := fromChainBatch_ok hd
  obtain ⟨transition, commonAncestor, events⟩ := durable
  dsimp only at ht hca hev
  subst ht hca
  cases hev with
  | cons h hnil =>
    cases hnil
    cases h with
    | apply hmem hhash =>
      obtain rfl := List.mem_singleton.1 hmem
      exact hd

/-- The committer's commit of one block. -/
theorem committer_wp {fetched : FetchedRange IndexedBlock} {block : IndexedBlock}
    (hone : OneBlock fetched block.header block) (committer : PostgresBackfillCommitter)
    (server : Server) :
    wp (PostgresBackfillCommitter.commitRange fetched)
      (fun _ s' => DidCommit (blockBatch committer.parentAnchor block) server s'.2)
      (fun _ s' => (SameRows server s'.2 ∨
          DidCommit (blockBatch committer.parentAnchor block) server s'.2) ∧
        (server.commitFaults = [] → ∃ e, Postgres.applyBatch server.db
          (blockBatch committer.parentAnchor block) = .error e)) (committer, server) := by
  unfold PostgresBackfillCommitter.commitRange
  rw [hone.headers, hone.logs]
  simp only [List.getLast?_singleton]
  rw [wp_bind, wp_get]
  dsimp only
  rw [fromChainBatch_one, wp_bind]
  refine wp_mapError ((wp_lift _).2 ⟨?_, by simp⟩)
  intro durable hd
  obtain rfl := Except.ok.inj hd
  rw [wp_bind]
  refine wp_mapError (wp_zoom (wp_mono (Server.applyBatch_wp server _) ?_ fun _ _ h => h))
  intro _ s' hpost
  rcases hpost with ⟨he, -⟩ | h
  · cases he
  · exact h

end Chainweave.Postgres

namespace Chainweave.Runtime

open Stateful HashLink Chainweave.Chain Chainweave.Backfill Chainweave.Postgres

/-! ## The live sink -/

/-- The first header a coordinator with this anchor lets through. -/
def Follows (parentAnchor : Option BlockHeader) (header : BlockHeader) : Prop :=
  (parentAnchor = none → header.height = 0) ∧ ∀ a ∈ parentAnchor, IsChild header a

/-- What a commit of one block does, `anchor` being the sink's parent anchor. -/
theorem commitOneBlock_wp (anchor : Option BlockHeader) (block : IndexedBlock) (server : Server) :
    wp (PostgresLiveStore.commitOneBlock anchor block)
      (fun _ s' => Follows anchor block.header ∧ DidCommit (blockBatch anchor block) server s')
      (fun _ s' => (SameRows server s' ∨
          Follows anchor block.header ∧ DidCommit (blockBatch anchor block) server s') ∧
        (server.commitFaults = [] → Follows anchor block.header →
          ∃ e, Postgres.applyBatch server.db (blockBatch anchor block) = .error e)) server := by
  unfold PostgresLiveStore.commitOneBlock
  rw [wp_bind, wp_lift]
  constructor
  · rintro ⟨fetched, coordinator⟩ hok
    have hok' : PostgresLiveStore.oneBlock anchor block = .ok (fetched, coordinator) := by
      cases h : PostgresLiveStore.oneBlock anchor block with
      | error e => rw [h] at hok; cases hok
      | ok r => rw [h] at hok; rw [Except.ok.inj hok]
    obtain ⟨f, hf, hok'⟩ := ok_bind.1 hok'
    obtain ⟨c, hc, hok'⟩ := ok_bind.1 hok'
    cases hok'
    obtain ⟨-, hone⟩ := oneBlockRange_ok hf
    obtain ⟨hidle, -, hnone, -⟩ := idle_new hc
    dsimp only
    rw [wp_bind]
    refine wp_mapError (wp_withLocal (wp_withLocal (push_wp hone hidle (Nat.le_refl _) ?_ ?_)))
    · intro a ha hno _
      exact ⟨.inl (.refl server), fun _ hfol => absurd (hfol.2 a ha) hno⟩
    · intro hchild
      refine wp_mono (committer_wp hone (PostgresBackfillCommitter.new anchor) server) ?_ ?_
      · intro _ s' h c _
        exact ⟨⟨hnone, hchild⟩, h⟩
      · intro e s' h c
        exact ⟨h.1.imp_right fun h => ⟨⟨hnone, hchild⟩, h⟩, fun hf _ => h.2 hf⟩
  · intro e herr
    refine ⟨.inl (.refl server), fun _ hfol => ?_⟩
    -- the range and the coordinator exist for a block that follows the anchor
    obtain ⟨f, hf, -⟩ := oneBlockRange_exists block.header block
    obtain ⟨c, hc⟩ := new_exists (L := IndexedBlock) (Nat.le_refl block.header.height) hfol.1
      (fun a ha => (hfol.2 a ha).2)
    have hok : PostgresLiveStore.oneBlock anchor block = .ok (f, c) :=
      ok_bind.2 ⟨f, hf, ok_bind.2 ⟨c, hc, rfl⟩⟩
    rw [hok] at herr
    cases herr

namespace BlockingPostgresLiveSink

/-- **The live sink's commit of a range of one block.** -/
theorem commitRange_wp {fetched : FetchedRange IndexedBlock} {block : IndexedBlock}
    (hone : OneBlock fetched block.header block) (k : BlockingPostgresLiveSink) :
    wp (commitRange fetched)
      (fun _ k' => Follows k.parentAnchor block.header ∧
        DidCommit (blockBatch k.parentAnchor block) k.server k'.server ∧
          k'.parentAnchor = some block.header)
      (fun _ k' => (SameRows k.server k'.server ∨ Follows k.parentAnchor block.header ∧
          DidCommit (blockBatch k.parentAnchor block) k.server k'.server) ∧
        (k.server.commitFaults = [] → Follows k.parentAnchor block.header →
          ∃ e, Postgres.applyBatch k.server.db (blockBatch k.parentAnchor block) = .error e)) k := by
  unfold commitRange
  rw [hone.headers, hone.logs]
  simp only [List.getLast?_singleton, List.head?_cons]
  rw [wp_bind, wp_get, wp_bind]
  refine wp_mapError (wp_zoom (wp_mono (commitOneBlock_wp k.parentAnchor block k.server) ?_ ?_))
  · intro _ s' h
    exact ⟨h.1, h.2, rfl⟩
  · intro e s' h
    exact h

section
variable {k : BlockingPostgresLiveSink}

theorem exec_query {α : Type} {server : Server} (h : server.readFaults = [])
    (read : Database → Except PostgresStateError α) :
    exec (Server.query read) server = (read server.db, server) := by
  obtain ⟨db, commitFaults, readFaults, history⟩ := server
  dsimp only at h
  subst h
  rfl

/-- The canonical row at the checkpoint. -/
def checkpointRow (db : Database) : Option BlockHeader :=
  match db.1.checkpoint with
  | none => none
  | some c => (db.canonicalHeaderAtHeight c.lastHeight).toOption.join

theorem checkpoint_read (h : k.server.readFaults = []) :
    k.checkpoint = (checkpointRow k.server.db, k) := by
  have hx : exec PostgresLiveStore.checkpointHeader k.server =
      ((exec PostgresLiveStore.checkpointHeader k.server).1, k.server) ∧
      (exec PostgresLiveStore.checkpointHeader k.server).1.toOption.join =
        checkpointRow k.server.db := by
    unfold PostgresLiveStore.checkpointHeader checkpointRow
    rw [exec_bind, exec_mapError]
    unfold Server.checkpoint
    rw [exec_query h]
    dsimp only [Except.mapError]
    cases hc : k.server.db.1.checkpoint with
    | none => exact ⟨rfl, rfl⟩
    | some c =>
      dsimp only
      rw [exec_bind, exec_mapError]
      unfold Server.canonicalHeaderAtHeight
      rw [exec_query h]
      cases hr : k.server.db.canonicalHeaderAtHeight c.lastHeight with
      | error e => exact ⟨rfl, rfl⟩
      | ok o => cases o <;> exact ⟨rfl, rfl⟩
  unfold checkpoint readOrNone
  rw [hx.1]
  exact Prod.ext hx.2 rfl

theorem canonicalHeaderByHash_read (h : k.server.readFaults = []) (hash : BlockHash) :
    liveSink.canonicalHeaderByHash hash k = (k.server.db.canonicalHeaderByHash hash, k) := by
  unfold liveSink readOrNone PostgresLiveStore.canonicalHeaderByHash Server.canonicalHeaderByHash
  dsimp only
  rw [exec_mapError, exec_query h]
  rfl

theorem canonicalHeaderAtHeight_read (h : k.server.readFaults = []) (height : Nat) :
    liveSink.canonicalHeaderAtHeight height k =
      ((k.server.db.canonicalHeaderAtHeight height).toOption.join, k) := by
  unfold liveSink readOrNone PostgresLiveStore.canonicalHeaderAtHeight
    Server.canonicalHeaderAtHeight
  dsimp only
  rw [exec_mapError, exec_query h]
  cases k.server.db.canonicalHeaderAtHeight height <;> rfl

/-- **The live sink's commit of a batch.** -/
theorem commitBatch_wp (h : k.server.readFaults = []) (batch : ChainBatch)
    (applyBlocks : List IndexedBlock) :
    wp (commitBatch batch applyBlocks)
      (fun _ k' => ∃ durable, DurableChainBatch.fromChainBatch batch applyBlocks = .ok durable ∧
        (durable.isEmpty = true ∧ SameRows k.server k'.server ∨
          DidCommit durable k.server k'.server))
      (fun _ k' => (SameRows k.server k'.server ∨
          ∃ durable, DurableChainBatch.fromChainBatch batch applyBlocks = .ok durable ∧
            DidCommit durable k.server k'.server) ∧
        (k.server.commitFaults = [] → ∀ durable,
          DurableChainBatch.fromChainBatch batch applyBlocks = .ok durable →
            ∃ e, Postgres.applyBatch k.server.db durable = .error e)) k := by
  unfold commitBatch
  rw [wp_bind]
  refine wp_mapError ((wp_lift _).2 ⟨?_, ?_⟩)
  · intro durable hd
    rw [wp_bind]
    refine wp_mapError (wp_zoom (wp_mono (Server.applyBatch_wp k.server durable) ?_ ?_))
    · intro _ s' hs
      have hr : s'.readFaults = [] := by
        rcases hs with ⟨-, rfl⟩ | hs
        · exact h
        · rw [hs.readFaults, h]
      rw [wp_modify, checkpoint_read hr]
      refine ⟨durable, hd, ?_⟩
      rcases hs with ⟨he, rfl⟩ | hs
      · exact .inl ⟨he, .refl _⟩
      · exact .inr hs
    · intro e s' hpost
      rcases hpost with ⟨hs, hblame⟩
      refine ⟨hs.imp_right fun hs => ⟨durable, hd, hs⟩, fun hf d hd' => ?_⟩
      obtain rfl := Except.ok.inj (hd.symm.trans hd')
      exact hblame hf
  · intro e he
    refine ⟨.inl (.refl _), fun _ d hd => ?_⟩
    rw [hd] at he
    cases he

end

end BlockingPostgresLiveSink

/-- The row at the checkpoint, where the checkpoint names a canonical row. -/
theorem checkpointRow_of_mem {db : Database} {top : BlockHeader} (hmem : top ∈ db.1.canonical)
    (hcheckpoint : db.1.checkpoint = some (checkpointOf top)) :
    BlockingPostgresLiveSink.checkpointRow db = some top := by
  unfold BlockingPostgresLiveSink.checkpointRow
  rw [hcheckpoint]
  exact Database.canonicalHeaderAtHeight_of_mem hmem

/-- In well-formed tables the row at the checkpoint is the top of the chain. -/
theorem checkpointRow_wellFormed {V : Set BlockHeader} {db : Database} {L : List BlockHeader}
    (h : WellFormed V db.1 L) : BlockingPostgresLiveSink.checkpointRow db = L.getLast? := by
  cases hl : L.getLast? with
  | none =>
    unfold BlockingPostgresLiveSink.checkpointRow
    rw [h.checkpoint, hl]
    rfl
  | some top =>
    refine checkpointRow_of_mem ((h.canonical top).2 (List.mem_of_getLast? hl)) ?_
    rw [h.checkpoint, hl]
    rfl

end Chainweave.Runtime
