import Mathlib
import Chainweave.Live.Converge
import Chainweave.Sink.Consumer

/-!
# From a node to a consumer

Live mode, the writers of other chains and the dispatchers work on one set of tables, in
any interleaving; a consumer reads the topic.

* `Applies`: the tables after some batches, one after the other. A run of live mode gives
  such a list, `moves_applies`; so do the events of a world, `run_databases`.
* `consumer_follows`: what a consumer holds after a run over a node of one chain.
-/
namespace Chainweave.Live

open Stateful HashLink Chainweave.Chain Chainweave.Postgres Chainweave.Runtime Chainweave.Kafka

variable {σ ε : Type} {n : Nat}

/-! ## The batches of a writer -/

/-- Each batch is applied to what the one before it left. -/
inductive Applies : Database → List DurableChainBatch → Database → Prop
  | nil (db : Database) : Applies db [] db
  | cons {db mid db' : Database} {batch : DurableChainBatch} {batches : List DurableChainBatch}
      {report : ApplyReport} (apply : applyBatch db batch = .ok (report, mid))
      (rest : Applies mid batches db') : Applies db (batch :: batches) db'

theorem Applies.concat {db mid db' : Database} {batch : DurableChainBatch}
    {batches : List DurableChainBatch} {report : ApplyReport} (h : Applies db batches mid)
    (happly : applyBatch mid batch = .ok (report, db')) : Applies db (batches ++ [batch]) db' := by
  induction h with
  | nil => exact .cons happly (.nil db')
  | cons hfirst _ ih => exact .cons hfirst (ih happly)

/-- What an event has for the writer of a chain. -/
def batchOf (chainId : Nat) : Event n → Option DurableChainBatch
  | .applyBatch other batch _ => if other = chainId then some batch else none
  | .dispatch _ => none

/-- The batches of the writer of a chain. -/
def batchesOf (chainId : Nat) (events : List (Event n)) : List DurableChainBatch :=
  events.filterMap (batchOf chainId)

section
variable {w w' : World n} {chainId : Nat} {event : Event n} {events : List (Event n)}

/-- Another event leaves the chain's tables. -/
theorem step_other (hs : w.step event = some w') (h : batchOf chainId event = none) :
    w'.databases chainId = w.databases chainId := by
  cases event with
  | applyBatch other batch eventIds =>
    have hne : other ≠ chainId := by
      intro heq
      rw [batchOf, if_pos heq] at h
      cases h
    simp only [World.step] at hs
    split at hs
    · cases hs
      rfl
    · split at hs
      · obtain ⟨kafka, -, rfl⟩ := Option.map_eq_some_iff.1 hs
        exact Function.update_of_ne hne.symm _ _
      · cases hs
  | dispatch action =>
    unfold World.step at hs
    split at hs
    · rename_i heq
      cases heq
    · cases hs
    · rename_i heq
      cases heq
      obtain ⟨kafka, -, rfl⟩ := Option.map_eq_some_iff.1 hs
      rfl

/-- A batch of the chain that applies is applied. -/
theorem step_own {batch : DurableChainBatch} {report : ApplyReport} {db : Database}
    (hs : w.step event = some w') (h : batchOf chainId event = some batch)
    (happly : applyBatch (w.databases chainId) batch = .ok (report, db)) :
    w'.databases chainId = db := by
  cases event with
  | dispatch action => cases h
  | applyBatch other batch' eventIds =>
    rw [batchOf] at h
    split at h
    · rename_i heq
      subst heq
      cases h
      simp only [World.step, happly] at hs
      split at hs
      · obtain ⟨kafka, -, rfl⟩ := Option.map_eq_some_iff.1 hs
        exact Function.update_self _ _ _
      · cases hs
    · cases h

/-- **A writer's tables** are what its own batches make of them, whatever happens between them. -/
theorem run_databases (hrun : w.run events = some w') {db : Database}
    (h : Applies (w.databases chainId) (batchesOf chainId events) db) : w'.databases chainId = db := by
  unfold World.run at hrun
  induction events generalizing w with
  | nil =>
    cases hrun
    cases h
    rfl
  | cons event events ih =>
    obtain ⟨mid, hs, hrun⟩ := Option.bind_eq_some_iff.1 hrun
    unfold batchesOf at h
    cases hbatch : batchOf chainId event with
    | none =>
      rw [List.filterMap_cons_none hbatch] at h
      refine ih hrun ?_
      rw [step_other hs hbatch]
      exact h
    | some batch =>
      rw [List.filterMap_cons_some hbatch] at h
      cases h with
      | cons happly hrest =>
        refine ih hrun ?_
        rw [step_own hs hbatch happly]
        exact hrest

end

/-! ## A run of live mode -/

section
variable {V : Set BlockHeader} {A : Replies} {config : LiveConfig} {source : BlockSource σ ε} {v v' : View}

theorem move_applies (hm : Move V A config source v v') :
    v'.db = v.db ∧ v'.history = v.history ∨ ∃ batch report,
      applyBatch v.db batch = .ok (report, v'.db) ∧ v'.history = v.history ++ [(batch, v'.db)] := by
  cases hm with
  | remote => exact .inl ⟨rfl, rfl⟩
  | reread => exact .inl ⟨rfl, rfl⟩
  | offer => exact .inl ⟨rfl, rfl⟩
  | extend _ _ hcommit => exact .inr ⟨_, _, hcommit, rfl⟩
  | commit _ _ _ _ _ _ hcommit => exact .inr ⟨_, _, hcommit, rfl⟩

/-- **The history of a run** is what took its tables where they are. -/
theorem moves_applies (hm : Relation.ReflTransGen (Move V A config source) v v') :
    ∃ new, v'.history = v.history ++ new ∧ Applies v.db (new.map (·.1)) v'.db := by
  induction hm with
  | refl => exact ⟨[], (List.append_nil _).symm, .nil _⟩
  | tail _ hstep ih =>
    obtain ⟨new, hnew, happlies⟩ := ih
    obtain ⟨hdb, hh⟩ | ⟨batch, report, happly, hh⟩ := move_applies hstep
    · exact ⟨new, hh.trans hnew, by rw [hdb]; exact happlies⟩
    · refine ⟨new ++ [(batch, _)], by rw [hh, hnew, List.append_assoc], ?_⟩
      rw [List.map_append]
      exact happlies.concat happly

end

/-! ## The consumer -/

/-- The chain that a run of live mode leaves: the one before it if that has the node's head, and else the
node's chain on top of what it shares with the one before. -/
structure Reached {V : Set BlockHeader} (c : SourceChain V) (L L' : List BlockHeader) : Prop where
  linked : Linked L'
  head : c.head ∈ L'
  kept : c.head ∈ L → L' = L
  turned : c.head ∉ L → ∃ base ups, c.Leaves L base ups ∧
    ∀ x, x ∈ L' ↔ x ∈ base ∨ ∃ n, SourceChain.nextHeight base ≤ n ∧ n ≤ c.height ∧ x = (c.block n).header

section
variable {V : Set BlockHeader} {c : SourceChain V} {config : LiveConfig} {source : BlockSource σ ε}
  {p p' : Peers σ BlockingPostgresLiveSink} {L : List BlockHeader} {events : List LiveHeadEvent}
  {isCancelled : Nat → Bool} {report : LiveReport}

/-- What a run that returns without a halt leaves. -/
theorem run_reaches (hV : HashId V) (hA : Answers c.replies (fun _ => True) source)
    (hreads : p.sink.server.readFaults = []) (hwf : WellFormed V p.sink.server.db.1 L)
    (hrun : exec (runWithCancellation config source.toLiveSource BlockingPostgresLiveSink.liveSink
      isCancelled events) p = (.ok report, p')) (hhalt : report.halted = none) :
    (∃ L', WellFormed V p'.sink.server.db.1 L' ∧ Reached c L L') ∧
      ∃ new, p'.sink.server.history = p.sink.server.history ++ new ∧
        Applies p.sink.server.db (new.map (·.1)) p'.sink.server.db := by
  obtain ⟨hmoves, hhead⟩ := run_last hV hA hreads hwf hrun hhalt
  refine ⟨?_, moves_applies hmoves⟩
  obtain ⟨⟨L', done, hon⟩, -⟩ := moves_onPlan hV ⟨L, [], Underway.start hwf⟩ hmoves
  have hhead' := hhead L' hon.wellFormed
  refine ⟨L', hon.wellFormed, hon.wellFormed.linked, hhead', fun hmem => ?_, fun hmem => ?_⟩
  · obtain ⟨hdb, -⟩ := moves_idle hV hwf hmem hmoves
    refine hon.wellFormed.linked.ext hwf.linked fun x => ?_
    rw [← hon.wellFormed.canonical, ← hwf.canonical]
    show x ∈ (view p').db.1.canonical ↔ _
    rw [hdb]
    rfl
  · obtain ⟨base, ups, hleaves⟩ := SourceChain.exists_leaves (c := c) hV hwf
    have hcaught := hon.caughtUp hV hwf hleaves hmem hhead'
    exact ⟨base, ups, hleaves, fun x => by rw [← hon.wellFormed.canonical, hcaught.canonical]⟩

/-- The texts of a well-formed chain. -/
theorem canonicalTexts_wellFormed {t : Tables} (h : WellFormed V t L) :
    canonicalTexts t = (L.map fun x => hashText x.hash).toFinset := by
  unfold canonicalTexts
  ext text
  simp only [List.mem_toFinset, List.mem_map, h.canonical]

/-- **A consumer follows the node.** Live mode runs over a node of one chain, whatever calls of the
node and commits fail while the sink's reads answer, from any well-formed tables, however they came
about; between its commits, and before and after the run, the writers of other chains commit and the
dispatchers attempt, fail and repeat. If the run returns without a halt, and its rows get marked, a
consumer that drops repeats holds a parent-linked chain with the node's head on it: the one it had
if the head was there, and else the blocks shared with the node and above them the node's, no
orphan. -/
theorem consumer_follows (hV : HashId V) (hA : Answers c.replies (fun _ => True) source)
    (hreads : p.sink.server.readFaults = []) (chainId : Nat) {before during : List (Event n)}
    {w w' : World n} (hbefore : World.init.run before = some w)
    (hdb : p.sink.server.db = w.databases chainId) (hwf : WellFormed V (w.databases chainId).1 L)
    (hrun : exec (runWithCancellation config source.toLiveSource BlockingPostgresLiveSink.liveSink
      isCancelled events) p = (.ok report, p')) (hhalt : report.halted = none)
    (hduring : w.run during = some w')
    (hbatches : p'.sink.server.history.map (·.1) =
      p.sink.server.history.map (·.1) ++ batchesOf chainId during)
    (hmarked : ∀ entry ∈ ofChain (toString chainId) w'.kafka.outbox, entry.published = true) :
    ∃ L', WellFormed V (w'.databases chainId).1 L' ∧ Reached c L L' ∧
      Kafka.view (messagesOf (toString chainId) w'.kafka.topic) =
        some (L'.map fun x => hashText x.hash).toFinset := by
  have hwf' : WellFormed V p.sink.server.db.1 L := by
    rw [hdb]
    exact hwf
  obtain ⟨⟨L', hwf', hreached⟩, new, hnew, happlies⟩ := run_reaches hV hA hreads hwf' hrun hhalt
  have hown : batchesOf chainId during = new.map (·.1) := by
    rw [hnew, List.map_append] at hbatches
    exact (List.append_cancel_left hbatches).symm
  rw [hdb, ← hown] at happlies
  have hlast := run_databases hduring happlies
  have hsound := World.run_sound (World.run_sound World.sound_init hbefore) hduring
  refine ⟨L', by rw [hlast]; exact hwf', hreached, ?_⟩
  rw [hsound.view_marked hmarked, hlast, canonicalTexts_wellFormed hwf']

end

/-- The one dispatcher. -/
def only : Fin 1 := ⟨0, Nat.one_pos⟩

/-- A dispatcher sends and marks the next row, this often. -/
def sendNext (count : Nat) : List (Event 1) :=
  (List.replicate count [.dispatch (.start only none), .dispatch (.lock only), .dispatch (.publish only 1 (.ok ())),
    .dispatch (.mark only), .dispatch (.commit only)]).flatten

/-- Two blocks are committed. -/
def twoSeeded : List (Event 1) := [.applyBatch 1 (seedBatch [genesis, a1]) [1, 2]]

/-- The run onto the other branch. -/
def forkRun : Except LiveError LiveReport × Peers Nat BlockingPostgresLiveSink :=
  runScript smallConfig [b2] blocksB treeBlocks (storeOf [genesis, a1])

/-- A row is sent, and another one whose mark fails; the run commits; the rest is sent. -/
def forkEvents : List (Event 1) :=
  sendNext 1 ++ [.dispatch (.start only none), .dispatch (.lock only), .dispatch (.publish only 1 (.ok ())),
    .dispatch (.fail only)] ++
  forkRun.2.sink.server.history.map (fun entry => .applyBatch 1 entry.1 [3, 4, 5]) ++ sendNext 4

/-- `consumer_follows` for these events. -/
theorem consumer_follows_fork : ∃ w w' : World 1, World.init.run twoSeeded = some w ∧
    w.run forkEvents = some w' ∧ w'.kafka.topic.map (·.eventId) = [1, 2, 2, 3, 4, 5] ∧
      ∃ L', WellFormed {x | x ∈ smallTree} (w'.databases 1).1 L' ∧ Reached chainB [genesis, a1] L' ∧
        Kafka.view (messagesOf (toString 1) w'.kafka.topic) =
          some (L'.map fun x => hashText x.hash).toFinset := by
  have hseeded : ((World.init.run twoSeeded).map fun w => w.databases 1) =
      some (storeOf [genesis, a1]) := by decide +kernel
  obtain ⟨w, hw, hdb⟩ := Option.map_eq_some_iff.1 hseeded
  have hsent : (((World.init.run twoSeeded).bind (·.run forkEvents)).map fun w =>
      (w.kafka.topic.map (·.eventId), w.kafka.outbox.map (·.published))) =
        some ([1, 2, 2, 3, 4, 5], [true, true, true, true, true]) := by decide +kernel
  rw [hw, Option.bind_some] at hsent
  obtain ⟨w', hw', hs⟩ := Option.map_eq_some_iff.1 hsent
  obtain ⟨hids, hmarks⟩ := Prod.mk.inj hs
  have hA : Answers chainB.replies (fun _ => True)
      (blockingTrackerSource (scriptedRpc [b2] blocksB treeBlocks)) :=
    answersB.mono fun _ _ => trivial
  have hhalt : forkRun.1.toOption.map (·.halted) = some none := by decide +kernel
  have hown : forkRun.2.sink.server.history.map (·.1) = batchesOf 1 forkEvents := by decide +kernel
  obtain ⟨report, hrun, hnone⟩ := ok_of_halted hhalt
  unfold forkRun at hrun
  rw [runScript_eq] at hrun
  refine ⟨w, w', hw, hw', hids, ?_⟩
  refine consumer_follows smallTree_hashId hA (startOn_reads (storeOf [genesis, a1])) 1 hw ?_ ?_ hrun hnone
    hw' ?_ ?_
  · rw [startOn_db, hdb]
  · rw [hdb]
    exact wellFormed_small
  · rw [startOn_history, List.map_nil, List.nil_append, ← hown, forkRun, runScript_eq]
  · intro entry hentry
    have hmem := List.mem_map_of_mem (f := (·.published)) (List.mem_of_mem_filter hentry)
    rw [hmarks] at hmem
    simpa using hmem

end Chainweave.Live
