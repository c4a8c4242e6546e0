import Mathlib.Logic.Relation
import Chainweave.Core.ChainCommit
import Chainweave.Sink.Batches

/-!
# The durable store refines the chain state

* `Related V self db`: the canonical rows are the canonical chain of the state
  and the checkpoint is its tip.
* `apply_transition`: a batch of `ChainState::apply`, over lookups that read the
  canonical chain, is empty or a transition of that chain, and the state after it
  tracks the new chain.
* `apply_refines`: the same batch, with one block for each apply, goes through the
  writer, and the two are related again; so they are after any number of steps.
-/
namespace Chainweave.Postgres

open Stateful HashLink Chainweave.Chain

/-- The canonical rows are the state's canonical chain, and the checkpoint is its tip. -/
structure Related (V : Set BlockHeader) (state : ChainState) (db : Database) : Prop where
  within : Within V state
  rows : ∀ x ∈ db.1.headers, x ∈ V
  chain : ∃ L, Tracks state L
  canonical : ∀ x, x ∈ db.1.canonical ↔ x ∈ state.canonicalChain
  checkpoint : db.1.checkpoint = state.tip.map checkpointOf

/-- A resolver whose canonical lookups read the database. -/
structure ReadsDatabase {ρ : Type} (V : Set BlockHeader) (db : Database)
    (resolver : AncestryResolver ρ) : Prop where
  headerByHash : HeadersIn V resolver
  canonicalHeaderByHash : ∀ hash s, wp (resolver.canonicalHeaderByHash hash)
    (fun o _ => o = db.canonicalHeaderByHash hash) (fun _ _ => True) s
  canonicalHeaderAtHeight : ∀ height s, wp (resolver.canonicalHeaderAtHeight height)
    (fun o _ => o = (db.canonicalHeaderAtHeight height).toOption.join) (fun _ _ => True) s

section
variable {V : Set BlockHeader} {self self' : ChainState} {db : Database} {ρ : Type}
  {resolver : AncestryResolver ρ} {newHead : BlockHeader} {batch : ChainBatch}

theorem Related.wellFormed (h : Related V self db) :
    ∃ L, Tracks self L ∧ WellFormed V db.1 L := by
  obtain ⟨L, hL⟩ := h.chain
  refine ⟨L, hL, ⟨⟨db.2, h.rows, hL.linked, fun x => ?_⟩, ?_⟩⟩
  · rw [h.canonical, hL.mem_canonicalChain]
  · rw [h.checkpoint, hL.tip]

theorem Related.of_wellFormed {L : List BlockHeader} (hw : Within V self) (ht : Tracks self L)
    (h : WellFormed V db.1 L) : Related V self db where
  within := hw
  rows := h.rows
  chain := ⟨L, ht⟩
  canonical x := by rw [ht.mem_canonicalChain, h.canonical]
  checkpoint := by rw [ht.tip, h.checkpoint]

theorem ReadsDatabase.lookups (h : ReadsDatabase V db resolver) :
    Lookups (fun _ => True) V db.1.canonical resolver where
  headerByHash hash s _ :=
    wp_mono (h.headerByHash hash s) (fun _ _ h => ⟨trivial, h⟩) (fun _ _ h => h)
  canonicalHeaderByHash hash s _ :=
    wp_mono (h.canonicalHeaderByHash hash s) (fun _ _ h => ⟨trivial, h⟩) (fun _ _ h => h)
  canonicalHeaderAtHeight height s _ := by
    refine wp_mono (h.canonicalHeaderAtHeight height s) (fun o _ h => ⟨trivial, ?_⟩) (fun _ _ h => h)
    intro x hx
    rw [h] at hx
    exact Database.mem_of_canonicalHeaderAtHeight hx

/-- A batch of `apply` as a transition of the canonical chain. -/
inductive Transition (V : Set BlockHeader) (L : List BlockHeader) (batch : ChainBatch) :
    List BlockHeader → Prop
  | unchanged (hev : batch.events = []) : Transition V L batch L
  | moved {base ups applies : List BlockHeader} (hL : L = base ++ ups) (hne : applies ≠ [])
      (hlinked : Linked (base ++ applies)) (happ : ∀ x ∈ applies, x ∈ V)
      (hev : batch.events = ups.reverse.map .rollback ++ applies.map .apply) :
      Transition V L batch (base ++ applies)

/-- The batch of `apply` is a transition of the chain that the state tracks, and the state it leaves
tracks the new chain. -/
theorem apply_transition {L : List BlockHeader} (hV : HashId V) (hLV : ∀ x ∈ L, x ∈ V)
    (ht : Tracks self L) (hn : newHead ∈ V)
    (h : Applied V (· ∈ L) (· ∉ L) self newHead batch self') :
    ∃ L', Transition V L batch L' ∧ Tracks self' L' := by
  cases h with
  | duplicate =>
    exact ⟨L, .unchanged rfl, ⟨⟨ht.byHeight, ht.hashes⟩, ht.linked, ht.tip⟩⟩
  | bootstrap htip hheight hb =>
    have hnil : L = [] := by rw [ht.tip] at htip; exact List.getLast?_eq_none_iff.1 htip
    subst hnil
    have hev : batch.events = ([] : List BlockHeader).reverse.map .rollback ++
        [newHead].map .apply := by rw [hb]; rfl
    have hl : Linked ([] ++ [newHead]) := .singleton _
    exact ⟨[] ++ [newHead], .moved rfl (by simp) hl (by simpa using hn) hev,
      commit_tracks hV (by simp) (by simpa using ht) hl (by simp) hev⟩
  | @extend _ tip htip hchild hb =>
    rw [ht.tip] at htip
    have hl : Linked (L ++ [newHead]) := by
      refine List.isChain_append.2 ⟨ht.linked, .singleton _, ?_⟩
      intro x hx y hy
      obtain rfl : tip = x := by rw [htip] at hx; simpa using hx
      obtain rfl : newHead = y := by simpa using hy
      exact hchild
    have hev : batch.events = ([] : List BlockHeader).reverse.map .rollback ++
        [newHead].map .apply := by rw [hb]; rfl
    exact ⟨L ++ [newHead], .moved (by simp) (by simp) hl (by simpa using hn) hev,
      commit_tracks hV (by simpa using hLV) (by simpa using ht) hl (by simp) hev⟩
  | @resolved _ tip ancestor rollbacks descending htip hknown _ _ happly hroll hancestor hmatch
      hmiss hold _ _ _ hb =>
    rw [ht.tip] at htip
    obtain ⟨pre, hpre⟩ := ht.linked.path_eq hV hLV htip hmatch hroll hold
    have hne : descending.reverse ≠ [] := by
      -- a head that is the ancestor itself is on the chain, which the state knows
      intro h0
      obtain rfl : descending = [] := by simpa using h0
      obtain rfl := happly.eq_of_nil
      rw [ht.isKnownCanonical.2 hmatch] at hknown
      cases hknown
    have hbase : L = (pre ++ [ancestor]) ++ rollbacks.reverse := by rw [hpre]; simp
    have hl : Linked ((pre ++ [ancestor]) ++ descending.reverse) := by
      have hleft : Linked (pre ++ [ancestor]) := (hbase ▸ ht.linked).left
      have := hleft.append happly.linked
      simpa using this
    have hev : batch.events = rollbacks.reverse.reverse.map .rollback ++
        descending.reverse.map .apply := by rw [hb, List.reverse_reverse]
    refine ⟨_, .moved hbase hne hl (fun x hx => (hmiss x (by simpa using hx)).1) hev, ?_⟩
    exact commit_tracks hV (hbase ▸ hLV) (hbase ▸ ht) hl hne hev

theorem applyHeaders_append (ups applies : List BlockHeader) :
    applyHeaders (ups.map .rollback ++ applies.map .apply) = applies := by
  unfold applyHeaders
  rw [List.filterMap_append, List.filterMap_map, List.filterMap_map]
  have hroll : ups.filterMap (fun _ => (none : Option BlockHeader)) = [] := by simp
  have happ : applies.filterMap (fun x => some x) = applies := by simp
  exact (congrArg₂ (· ++ ·) hroll happ).trans (by simp)

/-- A transition with one block for each apply goes through the writer. -/
theorem writer_transition (hV : HashId V) {L L' : List BlockHeader} (h : WellFormed V db.1 L)
    (ht : Transition V L batch L') {blocks : List IndexedBlock}
    (hperm : (blocks.map (·.header)).Perm (applyHeaders batch.events))
    (hfit : ∀ b ∈ blocks, Fits b) :
    ∃ durable report db', DurableChainBatch.fromChainBatch batch blocks = .ok durable ∧
      applyBatch db durable = .ok (report, db') ∧ WellFormed V db'.1 L' ∧
      ∃ rows, db'.1.outbox = db.1.outbox ++ rows ∧
        rows.map OutboxRow.key = batch.events.map eventKey := by
  have hexists : ∃ durable, DurableChainBatch.fromChainBatch batch blocks = .ok durable := by
    refine fromChainBatch_exists hperm ?_
    cases ht with
    | unchanged hev => simp [hev, applyHeaders]
    | moved hL hne hlinked happ hev =>
      rw [hev, applyHeaders_append]
      refine List.Nodup.map_on (fun x hx y hy hh => hV (happ x hx) (happ y hy) hh) ?_
      refine hlinked.right.pairwise.imp ?_
      intro a b hlt hsame
      subst hsame
      exact Nat.lt_irrefl _ hlt
  obtain ⟨durable, hd⟩ := hexists
  cases ht with
  | unchanged hev =>
    obtain ⟨-, -, hcar⟩ := fromChainBatch_ok hd
    have hnil : durable.events = [] := by rw [hev] at hcar; exact List.forall₂_nil_left_iff.1 hcar
    refine ⟨durable, {}, db, hd, ?_, h, [], by simp, by simp [hev]⟩
    refine applyBatch_empty db ?_
    unfold DurableChainBatch.isEmpty
    rw [hnil]
    rfl
  | @moved base ups applies hL hne hlinked happ hev =>
    subst hL
    have hsV : ∀ b ∈ blocks, b.header ∈ V := by
      intro b hb
      refine happ _ ?_
      rw [hev, applyHeaders_append] at hperm
      exact hperm.mem_iff.1 (List.mem_map_of_mem hb)
    obtain ⟨-, bs, hdev, rfl, hsub⟩ := fromChainBatch_transition hV hsV hev happ hd
    have hbs : bs ≠ [] := by rintro rfl; exact hne rfl
    have hbV : ∀ b ∈ bs, b.header ∈ V := fun b hb => hsV b (hsub b hb)
    have hne' : base ++ bs.map (·.header) ≠ [] := by simp [hbs]
    obtain ⟨report, t', hap⟩ := transition_exists hV h hbV hlinked hne' hdev
      (fun h0 => absurd h0 hbs) (fun b hb => hfit b (hsub b hb))
    obtain ⟨hwf, ⟨rows, hrows, hkeys⟩, -⟩ := transition_ok hV h hbV hlinked hne' hdev
      (fun h0 => absurd h0 hbs) hap
    have hnempty : durable.isEmpty = false := by
      unfold DurableChainBatch.isEmpty transitionEvents at *
      rw [hdev]
      simp [hbs]
    obtain ⟨db', hdb, rfl⟩ := applyBatch_of_tables hnempty hap
    refine ⟨durable, report, db', hd, hdb, hwf, rows, hrows, ?_⟩
    rw [hkeys, hdev, hev, transitionEvents]
    simp [DurableChainEvent.key, DurableChainEvent.kind, DurableChainEvent.header, eventKey,
      Function.comp_def]

end

/-! ## The refinement -/

/-- One step of the pair: a head that the state applies, and its batch through the writer. -/
inductive Step (V : Set BlockHeader) : ChainState × Database → ChainState × Database → Prop
  | apply {self self' : ChainState} {db db' : Database} {ρ : Type}
      {resolver : AncestryResolver ρ} {s s' : ρ} {newHead : BlockHeader} {batch : ChainBatch}
      {blocks : List IndexedBlock} {durable : DurableChainBatch} {report : ApplyReport}
      (hr : ReadsDatabase V db resolver) (hn : newHead ∈ V)
      (happly : exec (ChainState.apply resolver newHead) (self, s) = (.ok batch, (self', s')))
      (hperm : (blocks.map (·.header)).Perm (applyHeaders batch.events))
      (hfit : ∀ b ∈ blocks, Fits b)
      (hdurable : DurableChainBatch.fromChainBatch batch blocks = .ok durable)
      (hcommit : applyBatch db durable = .ok (report, db')) : Step V (self, db) (self', db')

section
variable {V : Set BlockHeader} {self : ChainState} {db : Database}

theorem refine_step (hV : HashId V) (h : Related V self db) {ρ : Type}
    {resolver : AncestryResolver ρ} (hr : ReadsDatabase V db resolver) {newHead : BlockHeader}
    (hn : newHead ∈ V) {s s' : ρ} {self' : ChainState} {batch : ChainBatch}
    (happly : exec (ChainState.apply resolver newHead) (self, s) = (.ok batch, (self', s')))
    {blocks : List IndexedBlock}
    (hperm : (blocks.map (·.header)).Perm (applyHeaders batch.events))
    (hfit : ∀ b ∈ blocks, Fits b) :
    ∃ durable report db', DurableChainBatch.fromChainBatch batch blocks = .ok durable ∧
      applyBatch db durable = .ok (report, db') ∧ Related V self' db' ∧
      ∃ rows, db'.1.outbox = db.1.outbox ++ rows ∧
        rows.map OutboxRow.key = batch.events.map eventKey := by
  obtain ⟨L, ht, hwf⟩ := h.wellFormed
  have hknown : ∀ x, self.isKnownCanonical x = true → x ∈ db.1.canonical := fun x hx =>
    (hwf.canonical x).2 (ht.isKnownCanonical.1 hx)
  have happlied := wp_ok (apply_wp hV (steps_canonical h.within hknown hr.lookups) h.within.tip hn
    trivial) happly
  have hself' := happlied.2.within h.within hn
  have hLV : ∀ x ∈ L, x ∈ V := fun x hx =>
    h.rows x (Tables.canonical_subset ((hwf.canonical x).2 hx))
  have happlied' : Applied V (· ∈ L) (· ∉ L) self newHead batch self' := by
    have heq : (fun x => x ∈ db.1.canonical) = fun x => x ∈ L :=
      funext fun x => propext (hwf.canonical x)
    have hneq : (fun x => x ∉ db.1.canonical) = fun x => x ∉ L :=
      funext fun x => propext (not_congr (hwf.canonical x))
    have := happlied.2
    rwa [heq, hneq] at this
  obtain ⟨L', htr, ht'⟩ := apply_transition hV hLV ht hn happlied'
  obtain ⟨durable, report, db', hd, hap, hwf', hrows⟩ := writer_transition hV hwf htr hperm hfit
  exact ⟨durable, report, db', hd, hap, .of_wellFormed hself' ht' hwf', hrows⟩

/-- **The durable store refines the chain state.** From related states, a batch that `apply` returns
goes through the writer when its blocks fit the columns: one outbox row for each event, in order,
and related states again. So any number of such steps keeps the two related. -/
theorem apply_refines (hV : HashId V) (h : Related V self db) :
    (∀ (ρ : Type) (resolver : AncestryResolver ρ) (s s' : ρ) (newHead : BlockHeader)
        (self' : ChainState) (batch : ChainBatch) (blocks : List IndexedBlock),
      ReadsDatabase V db resolver → newHead ∈ V →
      exec (ChainState.apply resolver newHead) (self, s) = (.ok batch, (self', s')) →
      (blocks.map (·.header)).Perm (applyHeaders batch.events) → (∀ b ∈ blocks, Fits b) →
      ∃ durable report db', DurableChainBatch.fromChainBatch batch blocks = .ok durable ∧
        applyBatch db durable = .ok (report, db') ∧ Related V self' db' ∧
        ∃ rows, db'.1.outbox = db.1.outbox ++ rows ∧
          rows.map OutboxRow.key = batch.events.map eventKey) ∧
    ∀ self' db', Relation.ReflTransGen (Step V) (self, db) (self', db') → Related V self' db' := by
  refine ⟨fun ρ resolver s s' newHead self' batch blocks hr hn happly hperm hfit =>
    refine_step hV h hr hn happly hperm hfit, ?_⟩
  intro self' db' hrun
  generalize hp : (self', db') = p at hrun
  induction hrun generalizing self' db' with
  | refl => cases hp; exact h
  | tail _ hstep ih =>
    cases hstep with
    | apply hr hn happly hperm hfit hdurable hcommit =>
      cases hp
      obtain ⟨durable', report', db1, hd, hap, hrel, -⟩ :=
        refine_step hV (ih _ _ rfl) hr hn happly hperm hfit
      cases hd.symm.trans hdurable
      cases hap.symm.trans hcommit
      exact hrel

end

/-- A resolver that reads the database, and knows the headers of a list. -/
def databaseResolver (db : Database) (headers : List BlockHeader) : AncestryResolver Unit where
  headerByHash hash := pure (headers.find? (·.hash = hash))
  canonicalHeaderByHash hash := pure (db.canonicalHeaderByHash hash)
  canonicalHeaderAtHeight height := pure (db.canonicalHeaderAtHeight height).toOption.join

theorem databaseResolver_reads {V : Set BlockHeader} (db : Database) {headers : List BlockHeader}
    (h : ∀ x ∈ headers, x ∈ V) : ReadsDatabase V db (databaseResolver db headers) where
  headerByHash _ _ x hx := h x (List.mem_of_find?_eq_some hx)
  canonicalHeaderByHash _ _ := rfl
  canonicalHeaderAtHeight _ _ := rfl

/-- The canonical rows are a chain, with its top as the checkpoint, and the state is read from them. -/
theorem related_fromCanonicalChain {V : Set BlockHeader} (hV : HashId V) {self : ChainState} {db : Database}
    {size depth : Nat} (hrows : ∀ x ∈ db.1.headers, x ∈ V)
    (h : ChainState.fromCanonicalChain db.1.canonical size depth = .ok self)
    (hcheckpoint : db.1.checkpoint = db.1.canonical.getLast?.map checkpointOf) : Related V self db := by
  have htracks := tracks_fromCanonicalChain h
  have hwithin := reachable_within hV
    (.fromCanonicalChain (fun x hx => hrows x (Tables.canonical_subset hx)) h)
  exact .of_wellFormed hwithin htracks ⟨⟨db.2, hrows, htracks.linked, fun x => Iff.rfl⟩, hcheckpoint⟩

/-- The block at height 1 was replaced by another, which has a child. -/
def replacedTables : Tables where
  chainId := 1
  blocks := [⟨⟨1, 0, 0⟩, 0, true, .Unsafe, .Observed⟩, ⟨⟨2, 1, 1⟩, 0, false, .Unsafe, .Observed⟩,
    ⟨⟨3, 1, 1⟩, 0, true, .Unsafe, .Observed⟩, ⟨⟨4, 3, 2⟩, 0, true, .Unsafe, .Observed⟩]
  logs := []
  checkpoint := some ⟨2, 4⟩
  outbox := []

theorem replacedTables_valid : replacedTables.Valid := by decide

def replacedStore : Database := ⟨replacedTables, replacedTables_valid⟩

/-- The block that was replaced, and what came after it. -/
def returningBlocks : List IndexedBlock :=
  [⟨⟨2, 1, 1⟩, 0, .Unsafe, .Observed, []⟩, ⟨⟨5, 2, 2⟩, 0, .Unsafe, .Observed, []⟩,
    ⟨⟨6, 5, 3⟩, 0, .Unsafe, .Observed, []⟩]

/-- The headers of the rows and of the blocks. -/
def replacedHeaders : List BlockHeader :=
  [⟨1, 0, 0⟩, ⟨2, 1, 1⟩, ⟨3, 1, 1⟩, ⟨4, 3, 2⟩, ⟨5, 2, 2⟩, ⟨6, 5, 3⟩]

/-- `apply_refines` for a reorganisation back to a block that was rolled back: the batch rolls back the two
blocks above genesis, and applies the orphan again before its descendants. -/
theorem apply_refines_returning :
    ∃ self self' batch durable report db',
      ChainState.fromCanonicalChain replacedStore.1.canonical 4 8 = .ok self ∧
      exec (ChainState.apply (databaseResolver replacedStore replacedHeaders) ⟨6, 5, 3⟩) (self, ()) =
        (.ok batch, (self', ())) ∧
      batch.events = [.rollback ⟨4, 3, 2⟩, .rollback ⟨3, 1, 1⟩, .apply ⟨2, 1, 1⟩, .apply ⟨5, 2, 2⟩,
        .apply ⟨6, 5, 3⟩] ∧
      DurableChainBatch.fromChainBatch batch returningBlocks = .ok durable ∧
      applyBatch replacedStore durable = .ok (report, db') ∧
      Related {x | x ∈ replacedHeaders} self' db' ∧
      db'.1.outbox.map OutboxRow.key = [(.rollback, 4, 2), (.rollback, 3, 1), (.apply, 2, 1), (.apply, 5, 2),
        (.apply, 6, 3)] := by
  have hV : HashId {x | x ∈ replacedHeaders} := by
    have hnodup : (replacedHeaders.map (·.hash)).Nodup := by decide
    exact fun x hx y hy heq => List.inj_on_of_nodup_map hnodup hx hy heq
  obtain ⟨self, hself⟩ : ∃ self, ChainState.fromCanonicalChain replacedStore.1.canonical 4 8 = .ok self :=
    ⟨_, rfl⟩
  have hrelated : Related {x | x ∈ replacedHeaders} self replacedStore :=
    related_fromCanonicalChain hV (by decide) hself (by decide)
  have hcomputed : (ChainState.fromCanonicalChain replacedStore.1.canonical 4 8).map (fun self =>
      (exec (ChainState.apply (databaseResolver replacedStore replacedHeaders) ⟨6, 5, 3⟩) (self, ())).1) =
        .ok (.ok ⟨.reorg, some ⟨1, 0, 0⟩, [.rollback ⟨4, 3, 2⟩, .rollback ⟨3, 1, 1⟩, .apply ⟨2, 1, 1⟩,
          .apply ⟨5, 2, 2⟩, .apply ⟨6, 5, 3⟩]⟩) := by decide +kernel
  rw [hself] at hcomputed
  have happly := Except.ok.inj hcomputed
  obtain ⟨hstep, -⟩ := apply_refines hV hrelated
  obtain ⟨durable, report, db', hdurable, hcommit, hrelated', rows, houtbox, hkeys⟩ := hstep Unit _ () ()
    ⟨6, 5, 3⟩ _ _ returningBlocks (databaseResolver_reads _ fun x hx => hx) (by simp [replacedHeaders])
    (Prod.ext happly rfl) (.refl _)
    (fun b hb => by
      simp only [returningBlocks, List.mem_cons, List.not_mem_nil, or_false] at hb
      rcases hb with rfl | rfl | rfl <;> exact ⟨by decide, by simp, by simp⟩)
  refine ⟨self, _, _, durable, report, db', hself, Prod.ext happly rfl, rfl, hdurable, hcommit, hrelated', ?_⟩
  rw [houtbox, List.map_append, hkeys]
  rfl

end Chainweave.Postgres
