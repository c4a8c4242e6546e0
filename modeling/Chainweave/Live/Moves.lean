import Chainweave.Live.Rules

/-!
# The moves of a run

What a run of the tracker does to the store is a sequence of five moves (`Move`):
it notes a head of its source, hands a batch to the sink, or commits one block on
top of the checkpoint or one batch of the chain state.

* `move_wellFormed`: every move keeps the store well formed.
* `run_moves`: a run, over any source, makes only such moves. If it returns
  without a halt, the head it read is on the canonical chain (`Settled`).
-/
namespace Chainweave.Live

open Stateful HashLink Chainweave.Chain Chainweave.Backfill Chainweave.Postgres Chainweave.Runtime
open BlockingPostgresLiveSink (checkpointRow checkpoint_read canonicalHeaderAtHeight_read)

/-! ## Commits on a chain -/

section
variable {V : Set BlockHeader} {db db' : Database} {L : List BlockHeader}
  {durable : DurableChainBatch} {report : ApplyReport}

/-- The tables of `db'` are those of `db` after `events`, but for the checkpoint. -/
def RunsTo (db : Database) (events : List DurableChainEvent) (db' : Database) : Prop :=
  ∃ u, runEvents db.1 events = .ok u ∧ db'.1 = { u with checkpoint := db'.1.checkpoint }

theorem RunsTo.refl (db : Database) : RunsTo db [] db := ⟨db.1, rfl, rfl⟩

theorem RunsTo.trans {db'' : Database} {e f : List DurableChainEvent} (h : RunsTo db e db')
    (h' : RunsTo db' f db'') : RunsTo db (e ++ f) db'' := by
  obtain ⟨u, hu, hdb'⟩ := h
  obtain ⟨w, hw, hdb''⟩ := h'
  rw [hdb', runEvents_checkpoint] at hw
  cases hf : runEvents u f with
  | error e => rw [hf] at hw; cases hw
  | ok w' =>
    rw [hf] at hw
    obtain rfl := Except.ok.inj hw
    exact ⟨w', runEvents_append_ok.2 ⟨u, hu, hf⟩, hdb''⟩

/-- A commit of one block on top of the chain. -/
theorem blockBatch_commit (hV : HashId V) (h : WellFormed V db.1 L) {block : IndexedBlock}
    (hb : block.header ∈ V) (hf : Follows L.getLast? block.header) {anchor : Option BlockHeader}
    (hap : Postgres.applyBatch db (blockBatch anchor block) = .ok (report, db')) :
    WellFormed V db'.1 (L ++ [block.header]) ∧ RunsTo db (blockBatch anchor block).events db' := by
  have hl : Linked (L ++ [block.header]) := by
    refine List.isChain_append.2 ⟨h.linked, .singleton _, ?_⟩
    intro x hx y hy
    obtain rfl : block.header = y := by simpa using hy
    exact hf.2 x hx
  obtain ⟨hwf, -, hrun⟩ := @transition_ok V db.1 db'.1 L [] [block] (blockBatch anchor block) hV
    (by simpa using h) (by simpa using hb) (by simpa using hl) (by simp) rfl (by simp) report
    ((applyBatch_ok rfl).1 hap)
  exact ⟨by simpa using hwf, hrun⟩

/-- A batch of the chain state as a change of the chain `L`: `ups` off, `applies` on. -/
structure Turn (V : Set BlockHeader) (L : List BlockHeader) (head : BlockHeader)
    (batch : ChainBatch) (base ups applies : List BlockHeader) : Prop where
  split : L = base ++ ups
  linked : Linked (base ++ applies)
  new : ∀ x ∈ applies, x ∈ V ∧ x ∉ L
  events : batch.events = ups.reverse.map .rollback ++ applies.map .apply
  ancestor : batch.commonAncestor = base.getLast?
  base_ne : base ≠ []
  top : (base ++ applies).getLast? = some head
  moved : ups ≠ [] ∨ applies ≠ []

/-- A head on the checkpoint is the checkpoint, or turns the chain. -/
theorem applied_turn (hV : HashId V) (h : WellFormed V db.1 L) {config : LiveConfig}
    {checkpoint head : BlockHeader} (htop : L.getLast? = some checkpoint)
    {state state' : ChainState} (hfrom : FromCheckpoint config checkpoint state)
    (hhead : head ∈ V) {batch : ChainBatch}
    (hap : Applied V (· ∈ db.1.canonical) (· ∉ db.1.canonical) state head batch state') :
    (head = checkpoint ∧ batch.events = []) ∨ ∃ base ups applies, Turn V L head batch base ups applies := by
  have hLV : ∀ x ∈ L, x ∈ V := fun x hx =>
    h.rows x (Tables.canonical_subset ((h.canonical x).2 hx))
  have hcp : checkpoint ∈ L := List.mem_of_getLast? htop
  cases hap with
  | duplicate hdup =>
    refine .inl ⟨?_, rfl⟩
    rcases hdup with hdup | hdup
    · exact hfrom.known head hdup
    · rw [hfrom.tip] at hdup
      exact hV hhead (hLV _ hcp) (by simpa using hdup : checkpoint.hash = head.hash).symm
  | bootstrap htip =>
    rw [hfrom.tip] at htip
    cases htip
  | @extend _ tip htip hchild hb =>
    rw [hfrom.tip] at htip
    obtain rfl := Option.some.inj htip
    refine .inr ⟨L, [], [head], ⟨by simp, ?_, ?_, by rw [hb]; rfl, by rw [hb, htop], ?_, by simp,
      .inr (by simp)⟩⟩
    · refine List.isChain_append.2 ⟨h.linked, .singleton _, ?_⟩
      intro x hx y hy
      obtain rfl : checkpoint = x := by rw [htop] at hx; simpa using hx
      obtain rfl : head = y := by simpa using hy
      exact hchild
    · intro x hx
      obtain rfl := List.mem_singleton.1 hx
      refine ⟨hhead, fun hm => ?_⟩
      have hle := h.linked.height_le htop hm
      have := hchild.2
      simp only [block_height] at hle this
      omega
    · intro heq
      subst heq
      cases htop
  | @resolved _ tip ancestor rollbacks descending htip _ hnew _ happly hroll hancestor hmatch
      hmiss hold _ _ _ hb =>
    rw [hfrom.tip] at htip
    obtain rfl := Option.some.inj htip
    obtain ⟨pre, hpre⟩ := h.linked.path_eq hV hLV htop ((h.canonical _).1 hmatch) hroll hold
    have hbase : L = (pre ++ [ancestor]) ++ rollbacks.reverse := by rw [hpre]; simp
    refine .inr ⟨pre ++ [ancestor], rollbacks.reverse, descending.reverse, ⟨hbase, ?_, ?_, ?_, ?_,
      by simp, ?_, ?_⟩⟩
    · have hleft : Linked (pre ++ [ancestor]) := (hbase ▸ h.linked).left
      have := hleft.append happly.linked
      simpa using this
    · intro x hx
      obtain ⟨hxV, hxn⟩ := hmiss x (by simpa using hx)
      exact ⟨hxV, fun hm => hxn ((h.canonical x).2 hm)⟩
    · rw [hb, List.reverse_reverse]
    · rw [hb]
      simp
    · by_cases hd : descending = []
      · subst hd
        simpa using happly.eq_of_nil
      · rw [List.getLast?_append_of_ne_nil _ (by simpa using hd), List.getLast?_reverse]
        exact happly.head?_eq hd
    · by_contra hno
      rw [not_or, not_not, not_not] at hno
      obtain rfl : rollbacks = [] := by simpa using hno.1
      obtain rfl : descending = [] := by simpa using hno.2
      obtain rfl := hroll.eq_of_nil
      obtain rfl := happly.eq_of_nil
      exact hnew rfl

/-- The durable batch of a turn is not empty. -/
theorem Turn.nonempty (hV : HashId V) {head : BlockHeader} {batch : ChainBatch}
    {base ups applies : List BlockHeader} (ht : Turn V L head batch base ups applies)
    {blocks : List IndexedBlock} (hb : ∀ b ∈ blocks, b.header ∈ V)
    (hd : DurableChainBatch.fromChainBatch batch blocks = .ok durable) : durable.isEmpty = false := by
  obtain ⟨-, bs, hev, hmap, -⟩ := fromChainBatch_transition hV hb ht.events
    (fun x hx => (ht.new x hx).1) hd
  unfold DurableChainBatch.isEmpty
  rw [hev]
  rcases ht.moved with hm | hm
  · simp [transitionEvents, hm]
  · have hbs : bs ≠ [] := by rintro rfl; exact hm hmap.symm
    simp [transitionEvents, hbs]

/-- A commit of a turn. -/
theorem Turn.commit (hV : HashId V) (h : WellFormed V db.1 L) {head : BlockHeader}
    {batch : ChainBatch} {base ups applies : List BlockHeader}
    (ht : Turn V L head batch base ups applies) {blocks : List IndexedBlock}
    (hb : ∀ b ∈ blocks, b.header ∈ V)
    (hd : DurableChainBatch.fromChainBatch batch blocks = .ok durable)
    (hap : Postgres.applyBatch db durable = .ok (report, db')) :
    WellFormed V db'.1 (base ++ applies) ∧ RunsTo db durable.events db' ∧
      ∃ bs : List IndexedBlock, bs.map (·.header) = applies ∧ (∀ b ∈ bs, b ∈ blocks) ∧
        durable.events = transitionEvents ups bs := by
  obtain ⟨hca, bs, hev, hmap, hsub⟩ := fromChainBatch_transition hV hb ht.events
    (fun x hx => (ht.new x hx).1) hd
  have hne := ht.nonempty hV hb hd
  have hl : Linked (base ++ bs.map (·.header)) := by rw [hmap]; exact ht.linked
  obtain ⟨hwf, -, hrun⟩ := transition_ok hV (ht.split ▸ h) (fun b hb' => hb b (hsub b hb')) hl
    (by simp [ht.base_ne]) hev (fun _ => by rw [hca, ht.ancestor]) ((applyBatch_ok hne).1 hap)
  exact ⟨hmap ▸ hwf, hrun, bs, hmap, hsub, hev⟩

end

/-! ## Moves -/

/-- The store as it is seen from outside a run, and the run's trace. -/
structure View where
  db : Database
  history : List (DurableChainBatch × Database)
  trace : List (LiveStep BlockingPostgresLiveSink)

variable {σ ε : Type}

def view (p : Peers σ BlockingPostgresLiveSink) : View :=
  ⟨p.sink.server.db, p.sink.server.history, p.trace⟩

/-- The row at a height, as the sink reads it. -/
def rowAt (db : Database) (height : Nat) : Option BlockHeader :=
  (db.canonicalHeaderAtHeight height).toOption.join

/-- Why a run hands a head to the chain state. -/
inductive Reason (A : Replies) (v : View) (head : BlockHeader) : Prop
  | reread {k : BlockingPostgresLiveSink} {first : BlockHeader}
      (hnoted : .reread head k ∈ v.trace) (hk : k.server.db = v.db) (hfirst : A.head first)
      (hbelow : ∀ cp, checkpointRow v.db = some cp → cp.height < first.height)
  | remote {k : BlockingPostgresLiveSink} {answer : Option BlockHeader}
      (hnoted : .remote head k answer ∈ v.trace) (hk : k.server.db = v.db)
      (hanswer : A.remote head.height answer)
      (hother : sameHash answer (rowAt v.db head.height) = false)
  | sibling {cp : BlockHeader} (htop : checkpointRow v.db = some cp)
      (hheight : head.height = cp.height) (hhash : head.hash ≠ cp.hash)

section
variable (V : Set BlockHeader) (A : Replies) (config : LiveConfig) (source : BlockSource σ ε)

/-- A batch of the chain state, for a head of the source on the checkpoint of `v`. -/
structure Offer (v : View) (head : BlockHeader) (k : BlockingPostgresLiveSink)
    (batch : ChainBatch) : Prop where
  sink : k.server.db = v.db
  reads : k.server.readFaults = []
  reply : A.head head
  reason : Reason A v head
  outcome : ∃ cp state state', checkpointRow v.db = some cp ∧
    Outcome config source k cp head (.ok batch) ∧ FromCheckpoint config cp state ∧
      Applied V (· ∈ v.db.1.canonical) (· ∉ v.db.1.canonical) state head batch state'

/-- One move of a run. -/
inductive Move : View → View → Prop
  | remote {v : View} {head : BlockHeader} {k : BlockingPostgresLiveSink}
      {answer : Option BlockHeader} (hk : k.server.db = v.db) (hhead : A.head head)
      (hanswer : A.remote head.height answer) :
      Move v { v with trace := v.trace ++ [.remote head k answer] }
  | reread {v : View} {head : BlockHeader} {k : BlockingPostgresLiveSink} (hk : k.server.db = v.db)
      (hhead : A.head head) : Move v { v with trace := v.trace ++ [.reread head k] }
  | offer {v : View} {head : BlockHeader} {k : BlockingPostgresLiveSink} {batch : ChainBatch}
      (hoffer : Offer V A config source v head k batch) :
      Move v { v with trace := v.trace ++ [.batch head k batch] }
  | extend {v : View} {block : IndexedBlock} {anchor : Option BlockHeader} {report : ApplyReport}
      {db' : Database} (hreply : A.block block.header.height block)
      (hfollows : Follows (checkpointRow v.db) block.header)
      (hcommit : Postgres.applyBatch v.db (blockBatch anchor block) = .ok (report, db')) :
      Move v ⟨db', v.history ++ [(blockBatch anchor block, db')], v.trace⟩
  | commit {v : View} {head : BlockHeader} {k : BlockingPostgresLiveSink} {batch : ChainBatch}
      {blocks : List IndexedBlock} {durable : DurableChainBatch} {report : ApplyReport}
      {db' : Database} (hoffer : Offer V A config source v head k batch)
      (hnoted : .batch head k batch ∈ v.trace)
      (hmap : blocks.map (·.header) = applyHeaders batch.events)
      (hblocks : ∀ b ∈ blocks, A.blockOf b.header.hash b)
      (hdurable : DurableChainBatch.fromChainBatch batch blocks = .ok durable)
      (hne : durable.isEmpty = false)
      (hcommit : Postgres.applyBatch v.db durable = .ok (report, db')) :
      Move v ⟨db', v.history ++ [(durable, db')], v.trace⟩

/-- The moves so far, over a store that was well formed at the start. -/
structure Running (v0 : View) (p : Peers σ BlockingPostgresLiveSink) : Prop where
  reads : p.sink.server.readFaults = []
  start : ∃ L, WellFormed V v0.db.1 L
  moves : Relation.ReflTransGen (Move V A config source) v0 (view p)

end

section
variable {V : Set BlockHeader} {A : Replies} {config : LiveConfig} {source : BlockSource σ ε}

theorem offer_turn (hV : HashId V) (hin : A.Within V) {v : View} {L : List BlockHeader}
    (h : WellFormed V v.db.1 L) {head : BlockHeader} {k : BlockingPostgresLiveSink}
    {batch : ChainBatch} (ho : Offer V A config source v head k batch) :
    (checkpointRow v.db = some head ∧ batch.events = []) ∨
      ∃ base ups applies, Turn V L head batch base ups applies := by
  obtain ⟨cp, state, state', htop, -, hfrom, hap⟩ := ho.outcome
  have hlast : L.getLast? = some cp := by rw [← checkpointRow_wellFormed h, htop]
  obtain ⟨rfl, hev⟩ | hturn := applied_turn hV h hlast hfrom (hin.head _ ho.reply) hap
  · exact .inl ⟨htop, hev⟩
  · exact .inr hturn

/-- **Every move keeps the store well formed**: the chain stays, or grows by one block, or turns. -/
theorem move_wellFormed (hV : HashId V) (hin : A.Within V) {v v' : View} {L : List BlockHeader}
    (h : WellFormed V v.db.1 L) (hm : Move V A config source v v') :
    ∃ L', WellFormed V v'.db.1 L' ∧ (L ≠ [] → L' ≠ []) := by
  cases hm with
  | remote => exact ⟨L, h, id⟩
  | reread => exact ⟨L, h, id⟩
  | offer => exact ⟨L, h, id⟩
  | @extend block anchor report db' hreply hfollows hcommit =>
    rw [checkpointRow_wellFormed h] at hfollows
    exact ⟨_, (blockBatch_commit hV h (hin.block _ _ hreply) hfollows hcommit).1, fun _ => by simp⟩
  | @commit head k batch blocks durable report db' hoffer hnoted hmap hblocks hdurable hne hcommit =>
    obtain ⟨-, hev⟩ | ⟨base, ups, applies, ht⟩ := offer_turn hV hin h hoffer
    · obtain ⟨-, -, hcar⟩ := fromChainBatch_ok hdurable
      rw [hev] at hcar
      have hnil : durable.events = [] := List.forall₂_nil_left_iff.1 hcar
      unfold DurableChainBatch.isEmpty at hne
      rw [hnil] at hne
      cases hne
    · have hb : ∀ b ∈ blocks, b.header ∈ V := fun b hb => hin.blockOf _ b (hblocks b hb)
      exact ⟨_, (ht.commit hV h hb hdurable hcommit).1, fun _ => by simp [ht.base_ne]⟩

theorem moves_wellFormed (hV : HashId V) (hin : A.Within V) {v v' : View} {L : List BlockHeader}
    (h : WellFormed V v.db.1 L) (hm : Relation.ReflTransGen (Move V A config source) v v') :
    ∃ L', WellFormed V v'.db.1 L' ∧ (L ≠ [] → L' ≠ []) := by
  induction hm with
  | refl => exact ⟨L, h, id⟩
  | tail _ hstep ih =>
    obtain ⟨L1, h1, hne⟩ := ih
    obtain ⟨L2, h2, hne'⟩ := move_wellFormed hV hin h1 hstep
    exact ⟨L2, h2, fun h0 => hne' (hne h0)⟩

section
variable {v0 : View} {p p' : Peers σ BlockingPostgresLiveSink} {s s' : TrackState σ}

theorem Running.wellFormed (hV : HashId V) (hin : A.Within V)
    (h : Running V A config source v0 p) : ∃ L, WellFormed V p.sink.server.db.1 L := by
  obtain ⟨L0, h0⟩ := h.start
  obtain ⟨L, hL, -⟩ := moves_wellFormed hV hin h0 h.moves
  exact ⟨L, hL⟩

theorem Running.step (h : Running V A config source v0 p) (hreads : p'.sink.server.readFaults = [])
    (hm : Move V A config source (view p) (view p')) : Running V A config source v0 p' :=
  ⟨hreads, h.start, h.moves.tail hm⟩

theorem Running.of_view (h : Running V A config source v0 p)
    (hreads : p'.sink.server.readFaults = []) (hv : view p' = view p) :
    Running V A config source v0 p' :=
  ⟨hreads, h.start, hv ▸ h.moves⟩

theorem Quiet.view (h : Quiet s s') : view s'.2 = Live.view s.2 := by
  unfold Live.view
  rw [h.sink, show s'.2.trace = s.2.trace by simpa using h.trace]

theorem Running.quiet (h : Running V A config source v0 s.2) (hq : Quiet s s') :
    Running V A config source v0 s'.2 :=
  h.of_view (by rw [hq.sink]; exact h.reads) hq.view

end

/-! ## The methods -/

/-- The head a run read is on the canonical chain, or the source's block at its height is. -/
def Settled (A : Replies) (db : Database) : Prop :=
  ∃ head, A.head head ∧ (head ∈ db.1.canonical ∨
    (∃ block, A.block head.height block ∧ block.header ∈ db.1.canonical) ∨
    ∃ remote row, A.remote head.height (some remote) ∧ row ∈ db.1.canonical ∧ remote.hash = row.hash)

section
variable {F : Request → Prop} {isCancelled : Nat → Bool} {v0 : View} {s : TrackState σ}

/-- A height pushed by a run: it extends the chain, or fails; it commits only if the commit itself
went wrong afterwards. -/
theorem fetchAndPushHeight_running (hV : HashId V) (hin : A.Within V) (hA : Answers A F source)
    (hs : Running V A config source v0 s.2) {c : OrderedCommitCoordinator IndexedBlock}
    {height target : Nat} {anchor : Option BlockHeader} (hidle : Idle c height target anchor)
    (hle : height ≤ target) (hnone : anchor = none → height = 0)
    (htop : checkpointRow s.2.sink.server.db = anchor) :
    wp (fetchAndPushHeight source.toLiveSource BlockingPostgresLiveSink.liveSink c height)
      (fun c' s' => Running V A config source v0 s'.2 ∧
        s'.1.report.halted = s.1.report.halted ∧
        ∃ block, A.block height block ∧ block.header.height = height ∧
          Idle c' (height + 1) target (some block.header) ∧
          checkpointRow s'.2.sink.server.db = some block.header)
      (fun e s' => Running V A config source v0 s'.2 ∧
        s'.1.report.halted = s.1.report.halted ∧
        ((∀ m, e ≠ .backfill (.commit m)) → view s'.2 = view s.2)) s := by
  obtain ⟨L, hwf⟩ := hs.wellFormed hV hin
  have hfollows : ∀ block : IndexedBlock, Offered A height anchor block →
      Follows (checkpointRow s.2.sink.server.db) block.header := by
    intro block hoff
    rw [htop]
    exact ⟨fun h => hoff.height_eq.trans (hnone h), hoff.child⟩
  have hrun : ∀ (block : IndexedBlock) (k' : BlockingPostgresLiveSink) (s' : TrackState σ),
      Offered A height anchor block →
      DidCommit (blockBatch s.2.sink.parentAnchor block) s.2.sink.server k'.server →
      Left k' [] s s' → Running V A config source v0 s'.2 ∧
        checkpointRow s'.2.sink.server.db = some block.header ∧ block.header.height ≤ bigintMax := by
    intro block k' s' hoff hdid hleft
    obtain ⟨report, hap⟩ := hdid.applied
    have hreply : A.block block.header.height block := by rw [hoff.height_eq]; exact hoff.reply
    have hview : view s'.2 = ⟨k'.server.db, s.2.sink.server.history ++
        [(blockBatch s.2.sink.parentAnchor block, k'.server.db)], s.2.trace⟩ := by
      unfold view
      rw [hleft.sink, hdid.history, show s'.2.trace = s.2.trace by simpa using hleft.trace]
    have hwf' := (blockBatch_commit hV hwf (hin.block _ _ hreply)
      (checkpointRow_wellFormed hwf ▸ hfollows block hoff) hap).1
    refine ⟨hs.step ?_ (hview ▸ .extend hreply (hfollows block hoff) hap), ?_, ?_⟩
    · rw [hleft.sink, hdid.readFaults]
      exact hs.reads
    · rw [hleft.sink, checkpointRow_wellFormed hwf']
      simp
    · exact k'.server.db.2.block_height _ (Tables.canonical_subset ((hwf'.canonical _).2 (by simp)))
  refine fetchAndPushHeight_wp hA hidle hle ?_ ?_ ?_ ?_ ?_
  · intro block hoff k' _ hdid _ c' s' hidle' hleft
    obtain ⟨h1, h2, hmax⟩ := hrun block k' s' hoff hdid hleft
    refine ⟨h1, hleft.halted, block, hoff.reply, hoff.height_eq, ?_, h2⟩
    have hsat : satAdd height 1 = height + 1 := by
      have := hoff.height_eq
      unfold satAdd u64Max
      unfold bigintMax at hmax
      omega
    rwa [hsat] at hidle'
  · intro _ e s' _ hq
    exact ⟨hs.quiet hq, hq.halted, fun _ => hq.view⟩
  · intro block _ _ s' hq
    exact ⟨hs.quiet hq, hq.halted, fun _ => hq.view⟩
  · intro block a _ _ _ _ s' hq
    exact ⟨hs.quiet hq, hq.halted, fun _ => hq.view⟩
  · intro block hoff k' hdid _ m s' hleft
    refine ⟨?_, hleft.halted, fun h => absurd rfl (h m)⟩
    rcases hdid with hsame | ⟨-, hdid⟩
    · refine hs.of_view ?_ ?_
      · rw [hleft.sink, hsame.readFaults]
        exact hs.reads
      · unfold view
        rw [hleft.sink, hsame.db, hsame.history,
          show s'.2.trace = s.2.trace by simpa using hleft.trace]
    · exact (hrun block k' s' hoff hdid hleft).1

/-- The commit of a batch that was offered. -/
theorem commitChainBatch_running (hV : HashId V) (hin : A.Within V) (hA : Answers A F source)
    (hF : ∀ r, F r) (hs : Running V A config source v0 s.2) {head : BlockHeader} {batch : ChainBatch}
    (hoffer : Offer V A config source (view s.2) head s.2.sink batch) :
    wp (commitChainBatch source.toLiveSource BlockingPostgresLiveSink.liveSink isCancelled head
        batch)
      (fun _ s' => Running V A config source v0 s'.2 ∧
        s'.1.report.halted = s.1.report.halted ∧ head ∈ s'.2.sink.server.db.1.canonical)
      (fun e s' => Running V A config source v0 s'.2 ∧
        ((∀ m, e ≠ .sink m) → view s'.2 = view s.2)) s := by
  obtain ⟨L, hwf⟩ := hs.wellFormed hV hin
  -- the batch is noted, and then the sink commits it or does not
  have hnote : ∀ (k' : BlockingPostgresLiveSink) (s' : TrackState σ),
      SameRows s.2.sink.server k'.server → Left k' [.batch head s.2.sink batch] s s' →
      Running V A config source v0 s'.2 := by
    intro k' s' hsame hleft
    refine hs.step (by rw [hleft.sink, hsame.readFaults]; exact hs.reads) ?_
    have hview : view s'.2 = { view s.2 with
        trace := (view s.2).trace ++ [.batch head s.2.sink batch] } := by
      unfold view
      rw [hleft.sink, hleft.trace, hsame.db, hsame.history]
    rw [hview]
    exact .offer hoffer
  have hrun : ∀ (blocks : List IndexedBlock) (durable : DurableChainBatch)
      (k' : BlockingPostgresLiveSink) (s' : TrackState σ),
      blocks.map (·.header) = applyHeaders batch.events →
      (∀ b ∈ blocks, A.blockOf b.header.hash b) →
      DurableChainBatch.fromChainBatch batch blocks = .ok durable →
      DidCommit durable s.2.sink.server k'.server →
      Left k' [.batch head s.2.sink batch] s s' →
      Running V A config source v0 s'.2 ∧ head ∈ s'.2.sink.server.db.1.canonical := by
    intro blocks durable k' s' hmap hblocks hd hdid hleft
    obtain ⟨report, hap⟩ := hdid.applied
    let noted : View := { view s.2 with
      trace := (view s.2).trace ++ [.batch head s.2.sink batch] }
    have hoffer' : Offer V A config source noted head s.2.sink batch := by
      refine { hoffer with reason := ?_ }
      cases hoffer.reason with
      | reread hn hk hf hb => exact .reread (List.mem_append_left _ hn) hk hf hb
      | remote hn hk ha ho => exact .remote (List.mem_append_left _ hn) hk ha ho
      | sibling ht hh hx => exact .sibling ht hh hx
    have hview : view s'.2 =
        ⟨k'.server.db, noted.history ++ [(durable, k'.server.db)], noted.trace⟩ := by
      show Live.view s'.2 = ⟨_, s.2.sink.server.history ++ _, s.2.trace ++ _⟩
      unfold view
      rw [hleft.sink, hleft.trace, hdid.history]
    have hmid : Relation.ReflTransGen (Move V A config source) v0 noted := hs.moves.tail (.offer hoffer)
    have hmove : Move V A config source noted (view s'.2) := by
      rw [hview]
      exact .commit hoffer' (by simp [noted]) hmap hblocks hd hdid.nonempty hap
    refine ⟨⟨by rw [hleft.sink, hdid.readFaults]; exact hs.reads, hs.start, hmid.tail hmove⟩, ?_⟩
    rw [hleft.sink]
    obtain ⟨-, hev⟩ | ⟨base, ups, applies, ht⟩ := offer_turn hV hin hwf hoffer
    · have hne := hdid.nonempty
      obtain ⟨-, -, hcar⟩ := fromChainBatch_ok hd
      rw [hev] at hcar
      unfold DurableChainBatch.isEmpty at hne
      rw [List.forall₂_nil_left_iff.1 hcar] at hne
      cases hne
    · have hwf' := (ht.commit hV hwf (fun b hb => hin.blockOf _ b (hblocks b hb)) hd hap).1
      exact (hwf'.canonical head).2 (List.mem_of_getLast? ht.top)
  refine commitChainBatch_wp hA hs.reads (fun _ _ _ _ _ => hF _) ?_ ?_ ?_ ?_
  · intro blocks durable k' hmap hblocks hd hdid s' hleft
    rcases hdid with ⟨hempty, hsame⟩ | hdid
    · refine ⟨hnote k' s' hsame hleft, hleft.halted, ?_⟩
      rw [hleft.sink, hsame.db]
      obtain ⟨htop, -⟩ | ⟨base, ups, applies, ht⟩ := offer_turn hV hin hwf hoffer
      · exact checkpointRow_mem htop
      · rw [ht.nonempty hV (fun b hb => hin.blockOf _ b (hblocks b hb)) hd] at hempty
        cases hempty
    · obtain ⟨h1, h2⟩ := hrun blocks durable k' s' hmap hblocks hd hdid hleft
      exact ⟨h1, hleft.halted, h2⟩
  · intro _ _ _ e s' _ hq
    exact ⟨hs.quiet hq, fun _ => hq.view⟩
  · intro _ s' hq
    exact ⟨hs.quiet hq, fun _ => hq.view⟩
  · intro blocks k' hmap hblocks hdid _ m s' hleft
    refine ⟨?_, fun h => absurd rfl (h m)⟩
    rcases hdid with hsame | ⟨durable, hd, hdid⟩
    · exact hnote k' s' hsame hleft
    · exact (hrun blocks durable k' s' hmap hblocks hd hdid hleft).1

/-- A head handed to the chain state: it is on the chain afterwards, or the run has halted. -/
theorem applyChainState_running (hV : HashId V) (hin : A.Within V) (hA : Answers A F source)
    (hF : ∀ r, F r) (hs : Running V A config source v0 s.2) {checkpoint head : BlockHeader}
    (htop : checkpointRow s.2.sink.server.db = some checkpoint) (hhead : A.head head)
    (hreason : Reason A (view s.2) head) :
    wp (applyChainState config source.toLiveSource BlockingPostgresLiveSink.liveSink isCancelled
        head)
      (fun _ s' => Running V A config source v0 s'.2 ∧
        (s'.1.report.halted = s.1.report.halted ∧ head ∈ s'.2.sink.server.db.1.canonical ∨
          s'.1.report.halted ≠ none ∧ view s'.2 = view s.2))
      (fun e s' => Running V A config source v0 s'.2 ∧
        ((∀ m, e ≠ .sink m) → view s'.2 = view s.2)) s := by
  obtain ⟨L, hwf⟩ := hs.wellFormed hV hin
  have hquiet : ∀ e (s' : TrackState σ), Quiet s s' → Running V A config source v0 s'.2 ∧
      ((∀ m, e ≠ LiveError.sink m) → view s'.2 = view s.2) := fun e s' hq =>
    ⟨hs.quiet hq, fun _ => hq.view⟩
  have hhalt : ∀ (s' : TrackState σ) (reason : LiveHaltReason), s'.2.sink = s.2.sink →
      s'.2.trace = s.2.trace → s'.1.report.halted = some reason →
      Running V A config source v0 s'.2 ∧
        (s'.1.report.halted = s.1.report.halted ∧ head ∈ s'.2.sink.server.db.1.canonical ∨
          s'.1.report.halted ≠ none ∧ view s'.2 = view s.2) := by
    intro s' reason hsink htrace hh
    have hv : view s'.2 = view s.2 := by
      unfold view
      rw [hsink, htrace]
    exact ⟨hs.of_view (by rw [hsink]; exact hs.reads) hv, .inr ⟨by simp [hh], hv⟩⟩
  refine applyChainState_wp hV hin hA hwf.rows hs.reads htop (hin.head _ hhead)
    (fun _ s' hq => hquiet _ s' hq) ?_ (fun d _ s' h1 h2 h3 => hhalt s' _ h1 h2 h3)
    (fun a f _ s' h1 h2 h3 => hhalt s' _ h1 h2 h3) (fun e _ _ _ s' hq => hquiet _ s' hq)
  intro batch state state' hout hfrom hap s' hq
  have hv := hq.view
  have hoffer : Offer V A config source (view s'.2) head s'.2.sink batch := by
    rw [hv, hq.sink]
    exact ⟨rfl, hs.reads, hhead, hreason, checkpoint, state, state', htop, hout, hfrom, hap⟩
  refine wp_mono (commitChainBatch_running hV hin hA hF (hs.quiet hq) hoffer) ?_ ?_
  · intro _ s2 hpost
    rcases hpost with ⟨h1, h2, h3⟩
    exact ⟨h1, .inl ⟨h2.trans hq.halted, h3⟩⟩
  · intro e s2 hpost
    rcases hpost with ⟨h1, h2⟩
    exact ⟨h1, fun h => (h2 h).trans hv⟩

/-- The head read again, and handed to the chain state. -/
theorem reconcileCurrentHead_running (hV : HashId V) (hin : A.Within V) (hA : Answers A F source)
    (hF : ∀ r, F r) (hs : Running V A config source v0 s.2) {checkpoint first : BlockHeader}
    (htop : checkpointRow s.2.sink.server.db = some checkpoint) (hfirst : A.head first)
    (hbelow : checkpoint.height < first.height) :
    wp (reconcileCurrentHead config source.toLiveSource BlockingPostgresLiveSink.liveSink
        isCancelled)
      (fun _ s' => Running V A config source v0 s'.2 ∧
        (s'.1.report.halted = none → Settled A s'.2.sink.server.db))
      (fun _ s' => Running V A config source v0 s'.2) s := by
  unfold reconcileCurrentHead
  rw [wp_bind]
  refine ensureNotCancelled_wp ?_ (fun _ s' h => hs.quiet h)
  intro s1 h1
  rw [wp_bind]
  refine modifyReport_wp (by simp) fun s2 h2 => ?_
  rw [wp_bind]
  refine record_wp fun s3 h3 => ?_
  have hq3 : Quiet s s3 := h1.trans (h2.trans h3)
  rw [wp_bind]
  refine callSource_wp hA.currentHead ?_ (fun _ e s' _ h => hs.quiet (hq3.trans h))
  intro head s4 hhead h4
  have hq4 : Quiet s s4 := hq3.trans h4
  have hs4 := hs.quiet hq4
  rw [wp_bind]
  refine note_wp ?_
  have hdb : s4.2.sink.server.db = s.2.sink.server.db := by rw [hq4.sink]
  have hs5 : Running V A config source v0
      { s4.2 with trace := s4.2.trace ++ [.reread head s4.2.sink] } :=
    hs4.step hs4.reads (.reread rfl hhead)
  have htop4 : checkpointRow s4.2.sink.server.db = some checkpoint := by rw [hdb]; exact htop
  refine wp_mono (applyChainState_running (s := (s4.1, _)) hV hin hA hF hs5 htop4 hhead ?_) ?_
    (fun _ _ h => h.1)
  · refine .reread (k := s4.2.sink) (by simp [view]) rfl hfirst ?_
    intro cp hcp
    have hcp' : checkpointRow s4.2.sink.server.db = some cp := hcp
    rw [htop4] at hcp'
    obtain rfl := Option.some.inj hcp'
    exact hbelow
  · intro _ s6 hpost
    rcases hpost with ⟨h6, hcases⟩
    refine ⟨h6, fun hnone => ?_⟩
    rcases hcases with ⟨-, hmem⟩ | ⟨hhalt, -⟩
    · exact ⟨head, hhead, .inl hmem⟩
    · exact absurd hnone hhalt

theorem checkpointRow_settled {db : Database} {first : BlockHeader} (hfirst : A.head first)
    {block : IndexedBlock} (hreply : A.block first.height block)
    (htop : checkpointRow db = some block.header) : Settled A db :=
  ⟨first, hfirst, .inr (.inl ⟨block, hreply, checkpointRow_mem htop⟩)⟩

/-- Catch-up from a start height, `n` heights still to go. -/
theorem startLoop_running (hV : HashId V) (hin : A.Within V) (hA : Answers A F source) :
    ∀ (n height : Nat) (c : OrderedCommitCoordinator IndexedBlock) (anchor : Option BlockHeader)
      (target : Nat) (s : TrackState σ), Running V A config source v0 s.2 →
      Idle c height target anchor → height + n = target + 1 → (anchor = none → height = 0) →
      checkpointRow s.2.sink.server.db = anchor →
      (n = 0 → ∃ block, A.block target block ∧ anchor = some block.header) →
      wp (startLoop source.toLiveSource BlockingPostgresLiveSink.liveSink isCancelled
          (List.range' height n) c)
        (fun _ s' => Running V A config source v0 s'.2 ∧
          s'.1.report.halted = s.1.report.halted ∧
          ∃ block, A.block target block ∧
            checkpointRow s'.2.sink.server.db = some block.header)
        (fun _ s' => Running V A config source v0 s'.2) s
  | 0, height, c, anchor, target, s, hs, _, _, _, htop, hzero => by
    obtain ⟨block, hb, rfl⟩ := hzero rfl
    exact ⟨hs, rfl, block, hb, htop⟩
  | n + 1, height, c, anchor, target, s, hs, hidle, hn, hnone, htop, _ => by
    rw [List.range'_succ]
    unfold startLoop
    rw [wp_bind]
    refine ensureNotCancelled_wp ?_ (fun _ s' h => hs.quiet h)
    intro s1 h1
    rw [wp_bind]
    have hs1 := hs.quiet h1
    refine wp_mono (fetchAndPushHeight_running hV hin hA hs1 hidle (by omega) hnone
      (by rw [h1.sink]; exact htop)) ?_ (fun _ _ h => h.1)
    intro c' s2 hpost
    rcases hpost with ⟨h2, hhalt, block, hreply, hheight, hidle', htop'⟩
    refine wp_mono (startLoop_running hV hin hA n (height + 1) c' _ target s2 h2 hidle' (by omega)
      (by simp) htop' ?_) ?_ (fun _ _ h => h)
    · intro h0
      obtain rfl : height = target := by omega
      exact ⟨block, hreply, rfl⟩
    · intro _ s3 hpost
      rcases hpost with ⟨h3, hhalt', hblock⟩
      exact ⟨h3, hhalt'.trans (hhalt.trans h1.halted), hblock⟩

/-- Catch-up from the checkpoint, `n` heights still to go. -/
theorem checkpointLoop_running (hV : HashId V) (hin : A.Within V) (hA : Answers A F source)
    (hF : ∀ r, F r) {first : BlockHeader} (hfirst : A.head first) :
    ∀ (n height : Nat) (c : OrderedCommitCoordinator IndexedBlock) (anchor : BlockHeader)
      (s : TrackState σ), Running V A config source v0 s.2 →
      Idle c height first.height (some anchor) → height + n = first.height + 1 →
      anchor.height + 1 = height → checkpointRow s.2.sink.server.db = some anchor →
      (n = 0 → Settled A s.2.sink.server.db) →
      wp (checkpointLoop config source.toLiveSource BlockingPostgresLiveSink.liveSink isCancelled
          (List.range' height n) c)
        (fun _ s' => Running V A config source v0 s'.2 ∧
          (s'.1.report.halted = none → Settled A s'.2.sink.server.db))
        (fun _ s' => Running V A config source v0 s'.2) s
  | 0, height, c, anchor, s, hs, _, _, _, _, hzero => ⟨hs, fun _ => hzero rfl⟩
  | n + 1, height, c, anchor, s, hs, hidle, hn, hanchor, htop, _ => by
    rw [List.range'_succ]
    unfold checkpointLoop
    rw [wp_bind]
    refine ensureNotCancelled_wp ?_ (fun _ s' h => hs.quiet h)
    intro s1 h1
    rw [wp_bind]
    have hs1 := hs.quiet h1
    refine wp_attempt (wp_mono (fetchAndPushHeight_running hV hin hA hs1 hidle (by omega) (by simp)
      (by rw [h1.sink]; exact htop)) ?_ ?_)
    · intro c' s2 hpost
      rcases hpost with ⟨h2, -, block, hreply, hheight, hidle', htop'⟩
      refine checkpointLoop_running hV hin hA hF hfirst n (height + 1) c' block.header s2 h2 hidle'
        (by omega) (by omega) htop' ?_
      intro h0
      obtain rfl : height = first.height := by omega
      exact checkpointRow_settled hfirst hreply htop'
    · intro e s2 hpost
      rcases hpost with ⟨h2, -, hsame⟩
      dsimp only
      split
      · rename_i hneeds
        -- nothing was committed on the way to these errors
        have hv : view s2.2 = view s.2 := by
          refine (hsame fun m hm => ?_).trans h1.view
          rw [hm] at hneeds
          cases hneeds
        have hdb : s2.2.sink.server.db = s.2.sink.server.db := congrArg View.db hv
        rw [wp_bind]
        refine modifyReport_wp rfl fun s3 h3 => ?_
        refine reconcileCurrentHead_running hV hin hA hF (h2.quiet h3) ?_ hfirst
          (show anchor.height < first.height by omega)
        rw [h3.sink, hdb, htop]
      · exact h2

theorem halted_markReady (report : LiveReport) :
    (markReadyIfHealthy report).halted = report.halted := by
  unfold markReadyIfHealthy
  split
  · simp
  · rfl

theorem finish_wp {Q : Unit → TrackState σ → Prop} {E : LiveError → TrackState σ → Prop}
    (hreads : s.2.sink.server.readFaults = []) (hq : ∀ s', Quiet s s' →
      s'.1.report.finalCheckpoint = checkpointRow s.2.sink.server.db → Q () s') :
    wp (finish BlockingPostgresLiveSink.liveSink) Q E s := by
  unfold finish
  rw [wp_bind]
  refine readSink_wp (checkpoint_read hreads) fun s1 h1 => ?_
  refine hq _ ⟨h1.sink, h1.trace, (halted_markReady _).trans h1.halted⟩ ?_
  show (markReadyIfHealthy _).finalCheckpoint = _
  unfold markReadyIfHealthy LiveReport.transition
  split
  · split <;> rfl
  · rfl

theorem sameHash_true {remote row : Option BlockHeader} (h : sameHash remote row = true) :
    ∃ r l, remote = some r ∧ row = some l ∧ r.hash = l.hash := by
  unfold sameHash at h
  split at h
  · exact ⟨_, _, rfl, rfl, by simpa using h⟩
  · cases h

theorem rowAt_mem {db : Database} {height : Nat} {row : BlockHeader}
    (h : rowAt db height = some row) : row ∈ db.1.canonical :=
  Database.mem_of_canonicalHeaderAtHeight h

/-- The end of a run that has settled. -/
theorem finish_settled (hs : Running V A config source v0 s.2)
    (hsettled : s.1.report.halted = none → Settled A s.2.sink.server.db) :
    wp (finish BlockingPostgresLiveSink.liveSink)
      (fun _ s' => Running V A config source v0 s'.2 ∧
        (s'.1.report.halted = none → Settled A s'.2.sink.server.db))
      (fun _ s' => Running V A config source v0 s'.2) s := by
  refine finish_wp hs.reads fun s' h _ => ⟨hs.quiet h, fun hnone => ?_⟩
  rw [h.sink]
  exact hsettled (h.halted ▸ hnone)

/-- A head handed to the chain state, at the end of a run. -/
theorem applyChainState_finish (hV : HashId V) (hin : A.Within V) (hA : Answers A F source)
    (hF : ∀ r, F r) (hs : Running V A config source v0 s.2) {checkpoint head : BlockHeader}
    (htop : checkpointRow s.2.sink.server.db = some checkpoint) (hhead : A.head head)
    (hreason : Reason A (view s.2) head) :
    wp (do
        applyChainState config source.toLiveSource BlockingPostgresLiveSink.liveSink isCancelled head
        finish BlockingPostgresLiveSink.liveSink)
      (fun _ s' => Running V A config source v0 s'.2 ∧
        (s'.1.report.halted = none → Settled A s'.2.sink.server.db))
      (fun _ s' => Running V A config source v0 s'.2) s := by
  rw [wp_bind]
  refine wp_mono (applyChainState_running hV hin hA hF hs htop hhead hreason) ?_ (fun _ _ h => h.1)
  intro _ s1 hpost
  rcases hpost with ⟨h1, hcases⟩
  refine finish_settled h1 fun hnone => ?_
  rcases hcases with ⟨-, hmem⟩ | ⟨hhalt, -⟩
  · exact ⟨head, hhead, .inl hmem⟩
  · exact absurd hnone hhalt

/-- A head below the checkpoint: the source lags, or the head goes to the chain state. -/
theorem lowerHead_running (hV : HashId V) (hin : A.Within V) (hA : Answers A F source) (hF : ∀ r, F r)
    (hs : Running V A config source v0 s.2) {checkpoint head : BlockHeader}
    (htop : checkpointRow s.2.sink.server.db = some checkpoint) (hhead : A.head head) :
    wp (lowerHead config source.toLiveSource BlockingPostgresLiveSink.liveSink isCancelled checkpoint
        head)
      (fun _ s' => Running V A config source v0 s'.2 ∧
        (s'.1.report.halted = none → Settled A s'.2.sink.server.db))
      (fun _ s' => Running V A config source v0 s'.2) s := by
  unfold lowerHead
  rw [wp_bind]
  refine record_wp fun s1 h1 => ?_
  rw [wp_bind]
  refine callSource_wp (hA.headerByNumber head.height) ?_
    (fun _ e s' _ h => hs.quiet (h1.trans h))
  intro remote s2 hremote h2
  have hq2 : Quiet s s2 := h1.trans h2
  rw [wp_bind]
  refine readSink_wp (canonicalHeaderAtHeight_read (hs.quiet hq2).reads head.height) fun s3 h3 => ?_
  have hq3 : Quiet s s3 := hq2.trans h3
  have hs3 := hs.quiet hq3
  have hdb : s3.2.sink.server.db = s.2.sink.server.db := by rw [hq3.sink]
  have hrow : (s2.2.sink.server.db.canonicalHeaderAtHeight head.height).toOption.join =
      rowAt s3.2.sink.server.db head.height := by
    rw [hdb, ← hq2.sink]
    rfl
  rw [wp_bind, hrow]
  refine note_wp ?_
  have hs4 : Running V A config source v0
      { s3.2 with trace := s3.2.trace ++ [.remote head s3.2.sink remote] } :=
    hs3.step hs3.reads (.remote rfl hhead hremote)
  split
  · rename_i hsame
    obtain ⟨r, l, rfl, hl, hh⟩ := sameHash_true hsame
    refine modifyReport_wp (s := (s3.1, _)) (by simp) fun s5 h5 => ?_
    refine ⟨hs4.quiet (s := (s3.1, _)) h5, fun _ => ?_⟩
    refine ⟨head, hhead, .inr (.inr ⟨r, l, hremote, ?_, hh⟩)⟩
    rw [h5.sink]
    exact rowAt_mem hl
  · rename_i hother
    refine applyChainState_finish (s := (s3.1, _)) hV hin hA hF hs4
      (show checkpointRow s3.2.sink.server.db = some checkpoint by rw [hdb, htop]) hhead ?_
    exact .remote (k := s3.2.sink) (by simp [view]) rfl hremote
      (Bool.eq_false_iff.2 hother)

theorem trackHead_running (hV : HashId V) (hin : A.Within V) (hA : Answers A F source) (hF : ∀ r, F r)
    (hs : Running V A config source v0 s.2) :
    wp (trackHead config source.toLiveSource BlockingPostgresLiveSink.liveSink isCancelled)
      (fun _ s' => Running V A config source v0 s'.2 ∧
        (s'.1.report.halted = none → Settled A s'.2.sink.server.db))
      (fun _ s' => Running V A config source v0 s'.2) s := by
  have hrow : ∀ {s' : TrackState σ} {row : Option BlockHeader}, Quiet s s' →
      checkpointRow s.2.sink.server.db = row → checkpointRow s'.2.sink.server.db = row := by
    intro s' row hq htop
    rw [hq.sink]
    exact htop
  refine trackHead_wp hA hs.reads ?_ ?_ ?_ ?_ ?_ ?_ ?_
  · intro _ _ s' _ hq
    exact hs.quiet hq
  · intro _ _ s' hsink htrace hhalt
    refine ⟨hs.of_view (by rw [hsink]; exact hs.reads) ?_, fun hnone => by rw [hhalt] at hnone; cases hnone⟩
    unfold view
    rw [hsink, htrace]
  · intro head hhead htop _ s' hq
    rw [wp_bind]
    unfold catchUpFromStart
    rw [wp_bind, wp_lift]
    refine ⟨fun c hc => ?_, fun _ _ => hs.quiet hq⟩
    obtain ⟨hidle, hle, hzero, -⟩ := idle_new (mapError_ok.1 hc)
    refine wp_mono (startLoop_running hV hin hA _ _ c none head.height s' (hs.quiet hq) hidle
      (by omega) hzero (hrow hq htop) (by omega)) ?_ (fun _ _ h => h)
    intro _ s6 hpost
    rcases hpost with ⟨h6, -, block, hb, htop6⟩
    exact finish_settled h6 fun _ => checkpointRow_settled hhead hb htop6
  · intro head checkpoint hhead htop _ s' hq
    exact lowerHead_running hV hin hA hF (hs.quiet hq) (hrow hq htop) hhead
  · intro head checkpoint hhead htop hheight hhash s' hq
    exact applyChainState_finish hV hin hA hF (hs.quiet hq) (hrow hq htop) hhead
      (.sibling (hrow hq htop) hheight hhash)
  · intro head checkpoint hhead htop hhash s' hq
    refine finish_settled (hs.quiet hq) fun _ => ⟨head, hhead, .inl ?_⟩
    have hcp := checkpointRow_mem (hrow hq htop)
    obtain ⟨L, hwf⟩ := (hs.quiet hq).wellFormed hV hin
    have heq : head = checkpoint := hV (hin.head _ hhead)
      (hwf.rows _ (Tables.canonical_subset hcp)) hhash
    exact heq ▸ hcp
  · intro head checkpoint hhead htop hheight s' hq
    rw [wp_bind]
    unfold catchUpFromCheckpoint
    rw [wp_bind, wp_lift]
    refine ⟨fun c hc => ?_, fun _ _ => hs.quiet hq⟩
    obtain ⟨hidle, -, -, -⟩ := idle_new (mapError_ok.1 hc)
    refine wp_mono (checkpointLoop_running hV hin hA hF hhead _ _ c checkpoint s' (hs.quiet hq) hidle
      (by omega) rfl (hrow hq htop) (by omega)) ?_ (fun _ _ h => h)
    intro _ s6 hpost
    rcases hpost with ⟨h6, hsettled⟩
    exact finish_settled h6 hsettled

/-- **A run makes only moves.** Over any source, and cut short by any error, what it did to the store
is a sequence of moves. If it returns without a halt, the chain holds a head of the source. -/
theorem run_moves (hV : HashId V) (hin : A.Within V) (hA : Answers A F source) (hF : ∀ r, F r)
    {p : Peers σ BlockingPostgresLiveSink} (hreads : p.sink.server.readFaults = [])
    (hwf : ∃ L, WellFormed V p.sink.server.db.1 L) (events : List LiveHeadEvent) :
    wp (runWithCancellation config source.toLiveSource BlockingPostgresLiveSink.liveSink isCancelled
        events)
      (fun report p' => Running V A config source (view p) p' ∧
        (report.halted = none → Settled A p'.sink.server.db))
      (fun _ p' => Running V A config source (view p) p') p := by
  have hs : Running V A config source (view p) p := ⟨hreads, hwf, .refl⟩
  have hstay : ∀ p' : Peers σ BlockingPostgresLiveSink, p'.sink = p.sink → p'.trace = p.trace →
      Running V A config source (view p) p' := by
    intro p' hsink htrace
    refine hs.of_view (by rw [hsink]; exact hreads) ?_
    unfold view
    rw [hsink, htrace]
  refine runWithCancellation_wp hreads (fun _ p' => hstay p') (fun _ p' => hstay p') ?_
  intro _ s hsink htrace _
  exact trackHead_running hV hin hA hF (hstay s.2 hsink htrace)

end

end

end Chainweave.Live
