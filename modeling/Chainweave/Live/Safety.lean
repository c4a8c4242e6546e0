import Chainweave.Live.Moves

/-!
# What a run may commit

* `run_wellFormed`: over any source, every durable state of a run is well formed,
  and each follows from the one before by one block on top of the checkpoint or by
  one whole batch of the chain state (`CommitStep`). A path that fails or halts
  before its commit leaves the store.
* `rollback_off_chain`: what keeps a lagging node from rolling blocks back. The
  check of a head against the stored row is made once, on a head below the
  checkpoint; a head read again during catch-up goes to the chain state unchecked
  (`reread_rolls_back`).
-/
namespace Chainweave.Live

open Stateful HashLink Chainweave.Chain Chainweave.Backfill Chainweave.Postgres Chainweave.Runtime
open BlockingPostgresLiveSink (checkpointRow)

variable {σ ε : Type}

/-- Nothing is known of the answers, but that their headers are in `V`. -/
def Replies.inside (V : Set BlockHeader) : Replies where
  head h := h ∈ V
  block _ b := b.header ∈ V
  blockOf _ b := b.header ∈ V
  remote _ o := ∀ x ∈ o, x ∈ V
  parent _ o := ∀ x ∈ o, x ∈ V

theorem Replies.inside_within (V : Set BlockHeader) : (Replies.inside V).Within V :=
  ⟨fun _ h => h, fun _ _ h => h, fun _ _ h => h, fun _ _ h => h, fun _ _ h => h⟩

/-- A well-formed store that is not empty. -/
def Formed (V : Set BlockHeader) (db : Database) : Prop :=
  ∃ L, L ≠ [] ∧ WellFormed V db.1 L

/-- One durable state from the one before. -/
inductive CommitStep (config : LiveConfig) (source : BlockSource σ ε) (db : Database)
    (batch : DurableChainBatch) (db' : Database) : Prop
  | child {parent : BlockHeader} {block : IndexedBlock} {anchor : Option BlockHeader}
      {report : ApplyReport} (hcheckpoint : db.1.checkpoint = some (checkpointOf parent))
      (hparent : parent ∈ db.1.canonical) (hchild : IsChild block.header parent)
      (hbatch : batch = blockBatch anchor block)
      (hcommit : Postgres.applyBatch db batch = .ok (report, db'))
  | chainState {checkpoint head : BlockHeader} {k : BlockingPostgresLiveSink}
      {chainBatch : ChainBatch} {blocks : List IndexedBlock} {report : ApplyReport}
      (hcheckpoint : db.1.checkpoint = some (checkpointOf checkpoint))
      (hparent : checkpoint ∈ db.1.canonical) (hk : k.server.db = db)
      (houtcome : Outcome config source k checkpoint head (.ok chainBatch))
      (hblocks : blocks.map (·.header) = applyHeaders chainBatch.events)
      (hbatch : DurableChainBatch.fromChainBatch chainBatch blocks = .ok batch)
      (hcommit : Postgres.applyBatch db batch = .ok (report, db'))

/-- The durable states from `db` on, each with the batch that led to it. -/
inductive Commits (V : Set BlockHeader) (config : LiveConfig) (source : BlockSource σ ε) :
    Database → List (DurableChainBatch × Database) → Database → Prop
  | nil {db : Database} (h : Formed V db) : Commits V config source db [] db
  | cons {db db' last : Database} {batch : DurableChainBatch}
      {rest : List (DurableChainBatch × Database)} (h : Formed V db)
      (hstep : CommitStep config source db batch db') (hrest : Commits V config source db' rest last) :
      Commits V config source db ((batch, db') :: rest) last

section
variable {V : Set BlockHeader} {A : Replies} {F : Request → Prop} {config : LiveConfig}
  {source : BlockSource σ ε} {isCancelled : Nat → Bool}

theorem Commits.snoc {db last db' : Database} {batch : DurableChainBatch}
    {new : List (DurableChainBatch × Database)} (h : Commits V config source db new last)
    (hstep : CommitStep config source last batch db') (hf : Formed V db') :
    Commits V config source db (new ++ [(batch, db')]) db' := by
  induction h with
  | nil h => exact .cons h hstep (.nil hf)
  | cons h hs _ ih => exact .cons h hs (ih hstep)

theorem Formed.checkpoint {db : Database} (h : Formed V db) :
    ∃ top, checkpointRow db = some top ∧ db.1.checkpoint = some (checkpointOf top) ∧
      top ∈ db.1.canonical := by
  obtain ⟨L, hne, hwf⟩ := h
  obtain ⟨top, htop⟩ := Option.isSome_iff_exists.1 (List.getLast?_isSome.2 hne)
  have hrow : checkpointRow db = some top := by rw [checkpointRow_wellFormed hwf, htop]
  exact ⟨top, hrow, by rw [hwf.checkpoint, htop]; rfl, checkpointRow_mem hrow⟩

theorem move_formed (hV : HashId V) (hin : A.Within V) {v v' : View} (h : Formed V v.db)
    (hm : Move V A config source v v') : Formed V v'.db := by
  obtain ⟨L, hne, hwf⟩ := h
  obtain ⟨L', hwf', hne'⟩ := move_wellFormed hV hin hwf hm
  exact ⟨L', hne' hne, hwf'⟩

/-- The moves of a run, as a chain of commits. -/
theorem moves_commits (hV : HashId V) (hin : A.Within V) {v v' : View} (h : Formed V v.db)
    (hm : Relation.ReflTransGen (Move V A config source) v v') :
    ∃ new, v'.history = v.history ++ new ∧ Commits V config source v.db new v'.db ∧
      Formed V v'.db := by
  induction hm with
  | refl => exact ⟨[], by simp, .nil h, h⟩
  | @tail b c _ hstep ih =>
    obtain ⟨new, hh, hc, hb⟩ := ih
    have hf := move_formed hV hin hb hstep
    obtain ⟨top, hrow, hcp, hmem⟩ := hb.checkpoint
    cases hstep with
    | remote => exact ⟨new, hh, hc, hf⟩
    | reread => exact ⟨new, hh, hc, hf⟩
    | offer => exact ⟨new, hh, hc, hf⟩
    | @extend block anchor report db' hreply hfollows hcommit =>
      refine ⟨new ++ [(blockBatch anchor block, db')], by simp [hh], hc.snoc ?_ hf, hf⟩
      exact .child hcp hmem (hfollows.2 top hrow) rfl hcommit
    | @commit head k batch blocks durable report db' hoffer _ hmap _ hdurable _ hcommit =>
      refine ⟨new ++ [(durable, db')], by simp [hh], hc.snoc ?_ hf, hf⟩
      obtain ⟨cp, _, _, hcp', hout, -, -⟩ := hoffer.outcome
      obtain rfl := Option.some.inj (hrow.symm.trans hcp')
      exact .chainState hcp hmem hoffer.sink hout hmap hdurable hcommit

end

/-! ## A store and a source to run on -/

/-- A block without logs. -/
def plainBlock (header : BlockHeader) : IndexedBlock where
  header := header
  timestamp := 0
  status := .Unsafe
  statusSource := .Observed
  logs := []

/-- The batch of a whole chain. -/
def seedBatch (chain : List BlockHeader) : DurableChainBatch where
  transition := .gap
  commonAncestor := none
  events := transitionEvents [] (chain.map plainBlock)

/-- The store after the blocks of a chain. -/
def storeOf (chain : List BlockHeader) : Database :=
  match Postgres.applyBatch (Database.empty 1) (seedBatch chain) with
  | .ok (_, db) => db
  | .error _ => Database.empty 1

theorem storeOf_wellFormed {V : Set BlockHeader} (hV : HashId V) {chain : List BlockHeader}
    (hne : chain ≠ []) (hl : Linked chain) (hmem : ∀ x ∈ chain, x ∈ V)
    (hfit : ∀ x ∈ chain, x.height ≤ bigintMax) : WellFormed V (storeOf chain).1 chain := by
  have hempty : WellFormed V (Database.empty 1).1 ([] ++ []) :=
    ⟨⟨(Database.empty 1).2, by simp [Database.empty, Tables.headers], .nil,
      by simp [Database.empty, Tables.canonical]⟩, rfl⟩
  have hmap : (chain.map plainBlock).map (·.header) = chain := by
    rw [List.map_map]
    exact List.map_id chain
  have hb : ∀ b ∈ chain.map plainBlock, b.header ∈ V := by
    intro b hb
    obtain ⟨x, hx, rfl⟩ := List.mem_map.1 hb
    exact hmem x hx
  have hblocks : chain.map plainBlock ≠ [] := by simpa using hne
  have hlinked : Linked ([] ++ (chain.map plainBlock).map (·.header)) := by simpa [hmap] using hl
  have hne' : [] ++ (chain.map plainBlock).map (·.header) ≠ [] := by simpa using hne
  obtain ⟨report, t, hap⟩ := @transition_exists V _ [] []
    (chain.map plainBlock) (seedBatch chain) hV hempty hb hlinked hne' rfl
    (fun h => absurd h hblocks) (by
      intro b hb'
      obtain ⟨x, hx, rfl⟩ := List.mem_map.1 hb'
      exact ⟨hfit x hx, by simp [plainBlock], by simp [plainBlock]⟩)
  obtain ⟨hwf, -, -⟩ := @transition_ok V _ t [] [] (chain.map plainBlock)
    (seedBatch chain) hV hempty hb hlinked hne' rfl
    (fun h => absurd h hblocks) report hap
  have hnempty : (seedBatch chain).isEmpty = false := by
    simp [DurableChainBatch.isEmpty, seedBatch, transitionEvents, hne]
  obtain ⟨db, hdb, rfl⟩ := applyBatch_of_tables hnempty hap
  have hstore : storeOf chain = db := by
    unfold storeOf
    rw [hdb]
  rw [hstore, ← hmap]
  simpa using hwf

/-- A source that follows a script: its heads in turn, the last one for ever, and two lists of
blocks. -/
def scriptedRpc (heads : List BlockHeader) (byNumber byHash : List IndexedBlock) : RpcCalls Nat where
  currentHead := do
    let n ← get
    modify (· + 1)
    match (heads[n]?).or heads.getLast? with
    | some head => pure head
    | none => throw "no head"
  blockByNumber height :=
    match byNumber.find? (·.header.height = height) with
    | some block => pure block
    | none => throw "eth_getLogs by blockHash: block not found"
  blockByHash hash :=
    match byHash.find? (·.header.hash = hash) with
    | some block => pure block
    | none => throw "block not found"
  headerByNumber height :=
    match byNumber.find? (·.header.height = height) with
    | some block => pure block.header
    | none => throw "block not found"
  headerByHash hash := pure ((byHash.find? (·.header.hash = hash)).map (·.header))
  verifyRecent _ _ := pure .Unavailable

/-- The peers of a run on a store, as the runtime makes them. -/
def startOn (db : Database) : Peers Nat BlockingPostgresLiveSink where
  source := 0
  sink := { server := { db }, parentAnchor := checkpointRow db }

theorem startOn_db (db : Database) : (startOn db).sink.server.db = db := rfl

theorem startOn_reads (db : Database) : (startOn db).sink.server.readFaults = [] := rfl

theorem startOn_history (db : Database) : (startOn db).sink.server.history = [] := rfl

/-- A run of the live sink on a scripted source. -/
def runScript (config : LiveConfig) (heads : List BlockHeader)
    (byNumber byHash : List IndexedBlock) (db : Database) :
    Except LiveError LiveReport × Peers Nat BlockingPostgresLiveSink :=
  exec (run config (blockingTrackerSource (scriptedRpc heads byNumber byHash)).toLiveSource
    BlockingPostgresLiveSink.liveSink []) (startOn db)

theorem runScript_eq (config : LiveConfig) (heads : List BlockHeader)
    (byNumber byHash : List IndexedBlock) (db : Database) :
    runScript config heads byNumber byHash db = exec (runWithCancellation config
      (blockingTrackerSource (scriptedRpc heads byNumber byHash)).toLiveSource
      BlockingPostgresLiveSink.liveSink (fun _ => false) []) (startOn db) := rfl

theorem scripted_inside {V : Set BlockHeader} {heads : List BlockHeader}
    {byNumber byHash : List IndexedBlock} (hheads : ∀ x ∈ heads, x ∈ V)
    (hnumber : ∀ b ∈ byNumber, b.header ∈ V) (hhash : ∀ b ∈ byHash, b.header ∈ V) :
    Answers (Replies.inside V) (fun _ => True) (blockingTrackerSource (scriptedRpc heads byNumber byHash)) where
  currentHead n := by
    show wp (scriptedRpc heads byNumber byHash).currentHead _ _ n
    unfold scriptedRpc
    dsimp only
    rw [wp_bind, wp_get, wp_bind, wp_modify]
    split
    · rename_i head hhead
      refine hheads head ?_
      rw [Option.or_eq_some_iff] at hhead
      rcases hhead with h | ⟨-, h⟩
      · exact List.mem_of_getElem? h
      · exact List.mem_of_getLast? h
    · trivial
  blockByNumber height n := by
    show wp ((scriptedRpc heads byNumber byHash).blockByNumber height) _ _ n
    unfold scriptedRpc
    dsimp only
    split
    · rename_i b hb
      exact hnumber b (List.mem_of_find?_eq_some hb)
    · trivial
  blockByHash hash n := by
    show wp ((scriptedRpc heads byNumber byHash).blockByHash hash) _ _ n
    unfold scriptedRpc
    dsimp only
    split
    · rename_i b hb
      exact hhash b (List.mem_of_find?_eq_some hb)
    · trivial
  headerByNumber height n := by
    show wp (some <$> (scriptedRpc heads byNumber byHash).headerByNumber height) _ _ n
    rw [map_eq_pure_bind, wp_bind]
    unfold scriptedRpc
    dsimp only
    split
    · rename_i b hb
      intro x hx
      obtain rfl := Option.some.inj hx
      exact hnumber b (List.mem_of_find?_eq_some hb)
    · trivial
  headerByHash hash n := by
    show ∀ x ∈ _, x ∈ V
    intro x hx
    obtain ⟨b, hb, rfl⟩ := Option.map_eq_some_iff.1 hx
    exact hhash b (List.mem_of_find?_eq_some hb)
  verifyRecent _ _ _ := trivial
  logs _ _ _ _ := trivial
  logsOf _ _ _ _ := trivial

/-- A small tree: two branches on the genesis block. -/
def genesis : BlockHeader := ⟨1, 0, 0⟩
def a1 : BlockHeader := ⟨2, 1, 1⟩
def a2 : BlockHeader := ⟨3, 2, 2⟩
def b1 : BlockHeader := ⟨12, 1, 1⟩
def b2 : BlockHeader := ⟨13, 12, 2⟩

def smallTree : List BlockHeader := [genesis, a1, a2, b1, b2]

theorem smallTree_hashId : HashId {x | x ∈ smallTree} := by
  have h : ∀ x ∈ smallTree, ∀ y ∈ smallTree, x.hash = y.hash → x = y := by decide
  exact fun x hx y hy hh => h x hx y hy hh

theorem wellFormed_small : WellFormed {x | x ∈ smallTree} (storeOf [genesis, a1]).1 [genesis, a1] :=
  storeOf_wellFormed smallTree_hashId (by simp) (by decide)
    (by show ∀ x ∈ [genesis, a1], x ∈ smallTree; decide) (by decide)

def smallConfig : LiveConfig where
  maxReorgDepth := 8
  liveBudgetCostUnitsPerMinute := 1000
  explicitStart := none
  finalizedHeight := none
  budgetWindow := 60 * 10 ^ 9

section
variable {V : Set BlockHeader} {A : Replies} {F : Request → Prop} {config : LiveConfig}
  {source : BlockSource σ ε} {isCancelled : Nat → Bool}

/-! ## Paths without a commit -/

/-- The store after a path that committed nothing. -/
def SameStore (s s' : TrackState σ) : Prop :=
  s'.2.sink.server.db = s.2.sink.server.db ∧
    s'.2.sink.server.history = s.2.sink.server.history

theorem Quiet.sameStore {s s' : TrackState σ} (h : Quiet s s') : SameStore s s' := by
  unfold SameStore
  rw [h.sink]
  exact ⟨rfl, rfl⟩

/-- A height that fails before its commit commits nothing. -/
theorem fetchAndPushHeight_uncommitted (hA : Answers A F source)
    {c : OrderedCommitCoordinator IndexedBlock} {height target : Nat} {anchor : Option BlockHeader}
    (hidle : Idle c height target anchor) (hle : height ≤ target) (s : TrackState σ) :
    wp (fetchAndPushHeight source.toLiveSource BlockingPostgresLiveSink.liveSink c height)
      (fun _ _ => True) (fun e s' => (∀ m, e ≠ .backfill (.commit m)) → SameStore s s') s := by
  refine fetchAndPushHeight_wp hA hidle hle (by simp) ?_ ?_ ?_ ?_
  · intro _ e s' _ h _
    exact h.sameStore
  · intro _ _ _ s' h _
    exact h.sameStore
  · intro _ _ _ _ _ _ s' h _
    exact h.sameStore
  · intro _ _ k' _ _ m s' _ h
    exact absurd rfl (h m)

/-- A head that fails or halts before its commit commits nothing. -/
theorem applyChainState_uncommitted (hV : HashId V) (hin : A.Within V) (hA : Answers A (fun _ => True) source)
    {s : TrackState σ} (hreads : s.2.sink.server.readFaults = [])
    (hf : Formed V s.2.sink.server.db) {head : BlockHeader} (hhead : head ∈ V) :
    wp (applyChainState config source.toLiveSource BlockingPostgresLiveSink.liveSink isCancelled
        head)
      (fun _ s' => s'.1.report.halted ≠ s.1.report.halted → SameStore s s')
      (fun e s' => (∀ m, e ≠ .sink m) → SameStore s s') s := by
  obtain ⟨top, hrow, -, -⟩ := hf.checkpoint
  obtain ⟨L, -, hwf⟩ := hf
  refine applyChainState_wp hV hin hA hwf.rows hreads hrow hhead (fun _ s' h _ => h.sameStore) ?_
    ?_ ?_ (fun _ _ _ _ s' h _ => h.sameStore)
  · intro batch state state' _ _ _ s1 h1
    refine commitChainBatch_wp hA (by rw [h1.sink]; exact hreads) (fun _ _ _ _ _ => trivial) ?_ ?_
      ?_ ?_
    · intro _ _ _ _ _ _ _ s' h hne
      exact absurd (h.halted.trans h1.halted) hne
    · intro _ _ _ e s' _ h _
      exact (h1.trans h).sameStore
    · intro _ s' h _
      exact (h1.trans h).sameStore
    · intro _ _ _ _ _ _ m s' _ h
      exact absurd rfl (h m)
  · intro _ _ s' hs _ _ _
    exact ⟨by rw [hs], by rw [hs]⟩
  · intro _ _ _ s' hs _ _ _
    exact ⟨by rw [hs], by rw [hs]⟩

/-- Whatever a run ends with, it made only moves. -/
theorem running_last (config : LiveConfig) (isCancelled : Nat → Bool) (hV : HashId V)
    (hin : A.Within V) (hA : Answers A (fun _ => True) source)
    {p : Peers σ BlockingPostgresLiveSink} (hreads : p.sink.server.readFaults = [])
    (hwf : ∃ L, WellFormed V p.sink.server.db.1 L) (events : List LiveHeadEvent) :
    Running V A config source (view p) (exec (runWithCancellation config source.toLiveSource
      BlockingPostgresLiveSink.liveSink isCancelled events) p).2 := by
  have h : wp (runWithCancellation config source.toLiveSource BlockingPostgresLiveSink.liveSink
      isCancelled events) _ _ p :=
    run_moves hV hin hA (fun _ => trivial) hreads hwf events
  cases hr : (exec (runWithCancellation config source.toLiveSource
      BlockingPostgresLiveSink.liveSink isCancelled events) p).1 with
  | ok report => exact (wp_ok h (Prod.ext hr rfl)).1
  | error e => exact wp_error h (Prod.ext hr rfl)

/-- **A run keeps the durable chain well formed, whatever its source answers.** From a well-formed
store, every durable state of a run is well formed, and follows from the one before by one child of
the checkpoint or by one whole batch of the chain state; nothing is committed on a path that fails
or halts before its commit. -/
theorem run_wellFormed (config : LiveConfig) (isCancelled : Nat → Bool) (hV : HashId V)
    (hA : Answers (Replies.inside V) (fun _ => True) source)
    {p : Peers σ BlockingPostgresLiveSink} (hreads : p.sink.server.readFaults = [])
    (hformed : Formed V p.sink.server.db) (events : List LiveHeadEvent) :
    let last := (exec (runWithCancellation config source.toLiveSource
      BlockingPostgresLiveSink.liveSink isCancelled events) p).2.sink.server
    (∃ new, last.history = p.sink.server.history ++ new ∧
      Commits V config source p.sink.server.db new last.db) ∧ Formed V last.db ∧
    (∀ (s : TrackState σ) (c : OrderedCommitCoordinator IndexedBlock) (height target : Nat)
      (anchor : Option BlockHeader), Idle c height target anchor → height ≤ target →
      wp (fetchAndPushHeight source.toLiveSource BlockingPostgresLiveSink.liveSink c height)
        (fun _ _ => True) (fun e s' => (∀ m, e ≠ .backfill (.commit m)) → SameStore s s') s) ∧
    ∀ (s : TrackState σ) (head : BlockHeader), s.2.sink.server.readFaults = [] →
      Formed V s.2.sink.server.db → head ∈ V →
      wp (applyChainState config source.toLiveSource BlockingPostgresLiveSink.liveSink isCancelled
          head)
        (fun _ s' => s'.1.report.halted ≠ s.1.report.halted → SameStore s s')
        (fun e s' => (∀ m, e ≠ .sink m) → SameStore s s') s := by
  have hin := Replies.inside_within V
  obtain ⟨L, hne, hwf⟩ := hformed
  have hrun := running_last config isCancelled hV (Replies.inside_within V) hA hreads ⟨L, hwf⟩ events
  obtain ⟨new, hh, hc, hf⟩ := moves_commits hV hin ⟨L, hne, hwf⟩ hrun.moves
  refine ⟨⟨new, hh, hc⟩, hf, ?_, ?_⟩
  · intro s c height target anchor hidle hle
    exact fetchAndPushHeight_uncommitted hA hidle hle s
  · intro s head hr hf' hhead
    exact applyChainState_uncommitted hV hin hA hr hf' hhead

end

/-- `run_wellFormed` where the source is on the other branch. -/
theorem run_wellFormed_fork :
    ∃ new, (runScript smallConfig [b2] [plainBlock b1, plainBlock b2] (smallTree.map plainBlock)
        (storeOf [genesis, a1])).2.sink.server.history = new ∧ new.length = 1 ∧
      Commits {x | x ∈ smallTree} smallConfig
        (blockingTrackerSource (scriptedRpc [b2] [plainBlock b1, plainBlock b2]
          (smallTree.map plainBlock))) (storeOf [genesis, a1]) new
        (runScript smallConfig [b2] [plainBlock b1, plainBlock b2] (smallTree.map plainBlock)
          (storeOf [genesis, a1])).2.sink.server.db := by
  have hformed : Formed {x | x ∈ smallTree} (storeOf [genesis, a1]) :=
    ⟨[genesis, a1], by simp, wellFormed_small⟩
  have hA := @scripted_inside {x | x ∈ smallTree} [b2] [plainBlock b1, plainBlock b2]
    (smallTree.map plainBlock) (by show ∀ x ∈ [b2], x ∈ smallTree; decide)
    (by show ∀ b ∈ [plainBlock b1, plainBlock b2], b.header ∈ smallTree; decide)
    (by show ∀ b ∈ smallTree.map plainBlock, b.header ∈ smallTree; decide)
  obtain ⟨⟨new, hnew, hcommits⟩, -⟩ := run_wellFormed smallConfig (fun _ => false)
    smallTree_hashId hA (startOn_reads (storeOf [genesis, a1]))
    hformed []
  rw [← runScript_eq] at hnew hcommits
  rw [startOn_history, List.nil_append] at hnew
  refine ⟨new, hnew, ?_, hcommits⟩
  rw [← hnew]
  decide +kernel

/-! ## Rollbacks -/

/-- The step does not show a head that is on the chain below the checkpoint, or the source confirms
it by number. -/
def LagSeen : LiveStep BlockingPostgresLiveSink → Prop
  | .remote head k answer => head ∈ k.server.db.1.canonical →
      ∃ remote, answer = some remote ∧ remote.hash = head.hash
  | .reread head k => head ∈ k.server.db.1.canonical → checkpointRow k.server.db = some head
  | .batch _ _ _ => True

instance (step : LiveStep BlockingPostgresLiveSink) : Decidable (LagSeen step) :=
  match step with
  | .remote head k none =>
    decidable_of_iff (head ∉ k.server.db.1.canonical) (by simp [LagSeen])
  | .remote head k (some remote) =>
    decidable_of_iff (head ∈ k.server.db.1.canonical → remote.hash = head.hash)
      (by simp [LagSeen])
  | .reread _ _ => inferInstanceAs (Decidable (_ → _))
  | .batch _ _ _ => inferInstanceAs (Decidable True)

/-- The heads on the chain had empty batches, and the batches with rollbacks had other heads. -/
structure OffChain (v0 v : View) : Prop where
  offered : ∀ head k batch, .batch head k batch ∈ v.trace →
    head ∈ k.server.db.1.canonical → batch.events = []
  committed : ∃ new, v.history = v0.history ++ new ∧
    ∀ entry ∈ new, ∀ header, .rollback header ∈ entry.1.events →
      ∃ head k batch blocks report, .batch head k batch ∈ v.trace ∧
        DurableChainBatch.fromChainBatch batch blocks = .ok entry.1 ∧
        Postgres.applyBatch k.server.db entry.1 = .ok (report, entry.2) ∧
        head ∉ k.server.db.1.canonical

section
variable {V : Set BlockHeader} {A : Replies} {config : LiveConfig} {source : BlockSource σ ε}
  {isCancelled : Nat → Bool}

/-- A turn does not end where the chain ended. -/
theorem Turn.top_ne {L : List BlockHeader} {head : BlockHeader} {batch : ChainBatch}
    {base ups applies : List BlockHeader} (ht : Turn V L head batch base ups applies)
    (hl : Linked L) : L.getLast? ≠ some head := by
  intro hlast
  by_cases happ : applies = []
  · have hups : ups ≠ [] := ht.moved.resolve_right (not_not.2 happ)
    have hbase : head ∈ base := by
      have h := ht.top
      rw [happ, List.append_nil] at h
      exact List.mem_of_getLast? h
    rw [ht.split, List.getLast?_append_of_ne_nil _ hups] at hlast
    rw [ht.split] at hl
    have hlt := (List.pairwise_append.1 hl.pairwise).2.2 head hbase head (List.mem_of_getLast? hlast)
    exact Nat.lt_irrefl _ hlt
  · have h := ht.top
    rw [List.getLast?_append_of_ne_nil _ happ] at h
    exact (ht.new head (List.mem_of_getLast? h)).2 (List.mem_of_getLast? hlast)

theorem rowAt_of_mem {db : Database} {x : BlockHeader} (hx : x ∈ db.1.canonical) :
    rowAt db x.height = some x :=
  Database.canonicalHeaderAtHeight_of_mem hx

/-- Where lag is seen, a head on the chain that goes to the chain state is the checkpoint. -/
theorem reason_onChain {v : View} {head : BlockHeader} (hr : Reason A v head)
    (hseen : ∀ step ∈ v.trace, LagSeen step) (hhead : head ∈ v.db.1.canonical) :
    checkpointRow v.db = some head := by
  cases hr with
  | reread hnoted hk _ _ =>
    have h := hseen _ hnoted
    simp only [LagSeen, hk] at h
    exact h hhead
  | remote hnoted hk _ hother =>
    have h := hseen _ hnoted
    simp only [LagSeen, hk] at h
    obtain ⟨remote, rfl, hh⟩ := h hhead
    rw [rowAt_of_mem hhead] at hother
    simp [sameHash, hh] at hother
  | @sibling cp htop hheight hhash =>
    have heq := v.db.2.canonical_height head hhead cp (checkpointRow_mem htop) hheight
    exact absurd (by rw [heq]) hhash

theorem offer_onChain (hV : HashId V) (hin : A.Within V) {v : View} {L : List BlockHeader}
    (hwf : WellFormed V v.db.1 L) {head : BlockHeader} {k : BlockingPostgresLiveSink}
    {batch : ChainBatch} (ho : Offer V A config source v head k batch)
    (hseen : ∀ step ∈ v.trace, LagSeen step) (hhead : head ∈ v.db.1.canonical) :
    batch.events = [] := by
  have htop := reason_onChain ho.reason hseen hhead
  rw [checkpointRow_wellFormed hwf] at htop
  obtain ⟨-, hev⟩ | ⟨base, ups, applies, ht⟩ := offer_turn hV hin hwf ho
  · exact hev
  · exact absurd htop (ht.top_ne hwf.linked)

theorem moves_offChain (hV : HashId V) (hin : A.Within V) {v0 v : View} {L : List BlockHeader}
    (hwf : WellFormed V v0.db.1 L) (h0 : v0.trace = [])
    (hm : Relation.ReflTransGen (Move V A config source) v0 v)
    (hseen : ∀ step ∈ v.trace, LagSeen step) : OffChain v0 v := by
  induction hm with
  | refl => exact ⟨by simp [h0], [], by simp, by simp⟩
  | @tail b c hpre hstep ih =>
    obtain ⟨Lb, hwfb, -⟩ := moves_wellFormed hV hin hwf hpre
    have hsub : ∀ step ∈ b.trace, step ∈ c.trace := by
      cases hstep with
      | extend => exact fun step h => h
      | commit => exact fun step h => h
      | _ => exact fun step h => List.mem_append_left _ h
    obtain ⟨hoff, new, hnew, hroll⟩ := ih fun step h => hseen step (hsub step h)
    have hkeep : ∀ entry ∈ new, ∀ header, .rollback header ∈ entry.1.events →
        ∃ head k batch blocks report, .batch head k batch ∈ c.trace ∧
          DurableChainBatch.fromChainBatch batch blocks = .ok entry.1 ∧
          Postgres.applyBatch k.server.db entry.1 = .ok (report, entry.2) ∧
          head ∉ k.server.db.1.canonical := by
      intro entry he header hh
      obtain ⟨head, k, batch, blocks, report, hmem, h1, h2, h3⟩ := hroll entry he header hh
      exact ⟨head, k, batch, blocks, report, hsub _ hmem, h1, h2, h3⟩
    cases hstep with
    | remote => exact ⟨by simpa using hoff, new, hnew, hkeep⟩
    | reread => exact ⟨by simpa using hoff, new, hnew, hkeep⟩
    | @offer head k batch hoffer =>
      refine ⟨?_, new, hnew, hkeep⟩
      intro head' k' batch' hmem hhead
      rcases List.mem_append.1 hmem with hmem | hmem
      · exact hoff head' k' batch' hmem hhead
      · simp only [List.mem_singleton, LiveStep.batch.injEq] at hmem
        obtain ⟨rfl, rfl, rfl⟩ := hmem
        rw [hoffer.sink] at hhead
        exact offer_onChain hV hin hwfb hoffer (fun step h => hseen step (hsub step h)) hhead
    | @extend block anchor report db' _ _ hcommit =>
      refine ⟨hoff, new ++ [(blockBatch anchor block, db')], by simp [hnew], ?_⟩
      intro entry he header hh
      rcases List.mem_append.1 he with he | he
      · exact hkeep entry he header hh
      · obtain rfl := List.mem_singleton.1 he
        simp [blockBatch] at hh
    | @commit head k batch blocks durable report db' hoffer hnoted _ _ hdurable hne hcommit =>
      refine ⟨hoff, new ++ [(durable, db')], by simp [hnew], ?_⟩
      intro entry he header hh
      rcases List.mem_append.1 he with he | he
      · exact hkeep entry he header hh
      · obtain rfl := List.mem_singleton.1 he
        refine ⟨head, k, batch, blocks, report, hnoted, hdurable, ?_, fun hhead => ?_⟩
        · rw [hoffer.sink]
          exact hcommit
        · -- the batch of a head on the chain is empty, and an empty one is not committed
          obtain ⟨-, -, hcar⟩ := fromChainBatch_ok hdurable
          rw [hoff head k batch hnoted hhead] at hcar
          rw [List.forall₂_nil_left_iff.1 hcar] at hh
          cases hh

/-- **When a lagging node causes no rollback.** In every run whose sink's reads answer, and whose source
confirms by number the heads that are on the chain, and never goes back to such a head below the
checkpoint while a run catches up, no batch computed from a head on the chain rolls anything back. -/
theorem rollback_off_chain (config : LiveConfig) (isCancelled : Nat → Bool) (hV : HashId V)
    (hA : Answers (Replies.inside V) (fun _ => True) source)
    {p : Peers σ BlockingPostgresLiveSink} (hreads : p.sink.server.readFaults = [])
    (hwf : ∃ L, WellFormed V p.sink.server.db.1 L) (htrace : p.trace = [])
    (events : List LiveHeadEvent)
    (hseen : ∀ step ∈ (exec (runWithCancellation config source.toLiveSource
      BlockingPostgresLiveSink.liveSink isCancelled events) p).2.trace, LagSeen step) :
    let last := (exec (runWithCancellation config source.toLiveSource
      BlockingPostgresLiveSink.liveSink isCancelled events) p).2
    (∀ head k batch, .batch head k batch ∈ last.trace → head ∈ k.server.db.1.canonical →
      ∀ event ∈ batch.events, event.isRollback = false) ∧
    ∃ new, last.sink.server.history = p.sink.server.history ++ new ∧
      ∀ entry ∈ new, ∀ header, .rollback header ∈ entry.1.events →
        ∃ head k batch blocks report, .batch head k batch ∈ last.trace ∧
          DurableChainBatch.fromChainBatch batch blocks = .ok entry.1 ∧
          Postgres.applyBatch k.server.db entry.1 = .ok (report, entry.2) ∧
          head ∉ k.server.db.1.canonical := by
  obtain ⟨L, hL⟩ := hwf
  have hrun := running_last config isCancelled hV (Replies.inside_within V) hA hreads ⟨L, hL⟩ events
  obtain ⟨hoff, hnew⟩ := moves_offChain hV (Replies.inside_within V) hL htrace hrun.moves hseen
  refine ⟨fun head k batch hmem hhead event he => ?_, hnew⟩
  rw [hoff head k batch hmem hhead] at he
  cases he

end

/-- A step that hands over a rollback for a head on the chain. -/
def rollsBackOnChain : LiveStep BlockingPostgresLiveSink → Bool
  | .batch head k batch => head ∈ k.server.db.1.canonical && batch.events.any (·.isRollback)
  | _ => false

/-- `rollback_off_chain` where the head read again is on the other branch. -/
theorem rollback_off_chain_fork :
    let last := (runScript smallConfig [b2] [plainBlock b1, plainBlock b2]
      (smallTree.map plainBlock) (storeOf [genesis, a1])).2
    last.sink.server.history.length = 1 ∧
      ∀ entry ∈ last.sink.server.history, ∀ header, .rollback header ∈ entry.1.events →
        ∃ head k batch, .batch head k batch ∈ last.trace ∧ head ∉ k.server.db.1.canonical := by
  have hA := @scripted_inside {x | x ∈ smallTree} [b2] [plainBlock b1, plainBlock b2]
    (smallTree.map plainBlock) (by show ∀ x ∈ [b2], x ∈ smallTree; decide)
    (by show ∀ b ∈ [plainBlock b1, plainBlock b2], b.header ∈ smallTree; decide)
    (by show ∀ b ∈ smallTree.map plainBlock, b.header ∈ smallTree; decide)
  have hseen : ∀ step ∈ (runScript smallConfig [b2] [plainBlock b1, plainBlock b2]
      (smallTree.map plainBlock) (storeOf [genesis, a1])).2.trace, LagSeen step := by
    decide +kernel
  rw [runScript_eq] at hseen
  obtain ⟨-, new, hnew, hroll⟩ := rollback_off_chain smallConfig (fun _ => false)
    smallTree_hashId hA (startOn_reads (storeOf [genesis, a1]))
    ⟨_, wellFormed_small⟩ rfl [] hseen
  rw [← runScript_eq] at hnew hroll
  rw [startOn_history, List.nil_append] at hnew
  refine ⟨by decide +kernel, fun entry he header hh => ?_⟩
  obtain ⟨head, k, batch, _, _, hmem, -, -, hoff⟩ := hroll entry (hnew ▸ he) header hh
  exact ⟨head, k, batch, hmem, hoff⟩

/-- A source of one chain that lags while a run catches up: its head was `a2`, the logs of `a2` are
not there yet, and the head read again is `genesis`, a row of the chain. The row `a1` is rolled
back. -/
theorem reread_rolls_back :
    let last := (runScript smallConfig [a2, genesis] [plainBlock genesis, plainBlock a1]
      (smallTree.map plainBlock) (storeOf [genesis, a1])).2
    (∃ L, WellFormed {x | x ∈ smallTree} (storeOf [genesis, a1]).1 L) ∧
      last.sink.server.history.map (fun entry => (entry.1.events, entry.2.1.checkpoint)) =
        [([.rollback a1], some (checkpointOf genesis))] ∧
      ¬ ∀ head k batch, .batch head k batch ∈ last.trace → head ∈ k.server.db.1.canonical →
        ∀ event ∈ batch.events, event.isRollback = false := by
  refine ⟨⟨_, wellFormed_small⟩, by decide +kernel, fun hno => ?_⟩
  have hany : (runScript smallConfig [a2, genesis] [plainBlock genesis, plainBlock a1]
      (smallTree.map plainBlock) (storeOf [genesis, a1])).2.trace.any rollsBackOnChain = true := by
    decide +kernel
  obtain ⟨step, hmem, hstep⟩ := List.any_eq_true.1 hany
  cases step with
  | remote => cases hstep
  | reread => cases hstep
  | batch head k batch =>
    simp only [rollsBackOnChain, Bool.and_eq_true, decide_eq_true_eq, List.any_eq_true] at hstep
    obtain ⟨hhead, event, he, hroll⟩ := hstep
    rw [hno head k batch hmem hhead event he] at hroll
    cases hroll

end Chainweave.Live
