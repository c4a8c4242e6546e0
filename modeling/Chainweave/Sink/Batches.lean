import Mathlib.Data.List.Forall2
import Chainweave.Sink.Durable

/-!
# From a chain batch to a durable batch

`from_chain_batch` attaches the fetched blocks to the apply events by hash.

* `fromChainBatch_ok`: the durable events are the events of the batch, in order,
  each apply carrying a supplied block of its hash.
* `fromChainBatch_transition`: for rollbacks followed by applies, over headers of
  `V`, the durable events are a transition (`transitionEvents`).
* `fromChainBatch_exists`: one block for each apply is enough.
-/
namespace Chainweave.Postgres

open HashLink Chainweave.Chain

/-- The durable event of a batch event: a rollback as it is, an apply with a supplied block of its
hash. -/
inductive Carries (supplied : List IndexedBlock) : ChainEvent → DurableChainEvent → Prop
  | rollback (header : BlockHeader) : Carries supplied (.rollback header) (.rollback header)
  | apply {header : BlockHeader} {block : IndexedBlock} (hmem : block ∈ supplied)
      (hhash : block.header.hash = header.hash) : Carries supplied (.apply header) (.apply block)

/-- The kind, hash and height of a batch event. -/
def eventKey : ChainEvent → EventKind × BlockHash × Nat
  | .apply header => (.apply, header.hash, header.height)
  | .rollback header => (.rollback, header.hash, header.height)

/-- A map from hashes to supplied blocks of that hash. -/
def Indexes (blocks : Std.TreeMap BlockHash IndexedBlock) (supplied : List IndexedBlock) : Prop :=
  ∀ (hash : BlockHash) (block : IndexedBlock), blocks[hash]? = some block →
    block ∈ supplied ∧ block.header.hash = hash

section
variable {supplied : List IndexedBlock} {blocks : Std.TreeMap BlockHash IndexedBlock}

theorem indexes_foldl (rest : List IndexedBlock) (h : Indexes blocks supplied)
    (hsub : ∀ b ∈ rest, b ∈ supplied) :
    Indexes (rest.foldl (fun blocks block => blocks.insert block.header.hash block) blocks)
      supplied := by
  induction rest generalizing blocks with
  | nil => exact h
  | cons b rest ih =>
    refine ih ?_ (fun c hc => hsub c (List.mem_cons_of_mem _ hc))
    intro hash block hb
    rw [Std.TreeMap.getElem?_insert] at hb
    split at hb
    · rename_i he
      cases hb
      exact ⟨hsub b (by simp), by simpa using he⟩
    · exact h hash block hb

theorem isSome_foldl (rest : List IndexedBlock) (hash : BlockHash) :
    (rest.foldl (fun blocks block => blocks.insert block.header.hash block) blocks)[hash]?.isSome ↔
      blocks[hash]?.isSome ∨ ∃ b ∈ rest, b.header.hash = hash := by
  induction rest generalizing blocks with
  | nil => simp
  | cons b rest ih =>
    rw [List.foldl_cons, ih, Std.TreeMap.getElem?_insert]
    by_cases he : b.header.hash = hash
    · simp [he]
    · simp [he]

theorem takeBlocks_ok :
    ∀ {events : List ChainEvent} {blocks : Std.TreeMap BlockHash IndexedBlock}
      {r : List DurableChainEvent × Std.TreeMap BlockHash IndexedBlock}, Indexes blocks supplied →
      DurableChainBatch.takeBlocks blocks events = .ok r →
        List.Forall₂ (Carries supplied) events r.1
  | [], _, _, _, h => by cases h; exact .nil
  | .rollback header :: events, blocks, r, hi, h => by
    obtain ⟨r', hr, h⟩ := Stateful.ok_bind.1 h
    cases h
    exact .cons (.rollback header) (takeBlocks_ok hi hr)
  | .apply header :: events, blocks, r, hi, h => by
    unfold DurableChainBatch.takeBlocks at h
    split at h
    · cases h
    · rename_i block hb
      obtain ⟨hmem, hhash⟩ := hi _ _ hb
      obtain ⟨r', hr, h⟩ := Stateful.ok_bind.1 h
      cases h
      refine .cons (.apply hmem hhash) (takeBlocks_ok ?_ hr)
      intro hash b hb'
      rw [Std.TreeMap.getElem?_erase] at hb'
      split at hb'
      · cases hb'
      · exact hi hash b hb'

end

theorem fromChainBatch_ok {batch : ChainBatch} {supplied : List IndexedBlock}
    {durable : DurableChainBatch}
    (h : DurableChainBatch.fromChainBatch batch supplied = .ok durable) :
    durable.transition = batch.transition ∧ durable.commonAncestor = batch.commonAncestor ∧
      List.Forall₂ (Carries supplied) batch.events durable.events := by
  obtain ⟨⟨events, rest⟩, ht, h⟩ := Stateful.ok_bind.1 h
  dsimp only at h
  split at h
  · cases h
  cases h
  refine ⟨rfl, rfl, takeBlocks_ok ?_ ht⟩
  exact indexes_foldl supplied (by intro hash block hb; simp at hb) (fun b hb => hb)

/-! ## Transitions -/

section
variable {V : Set BlockHeader} {supplied : List IndexedBlock}

theorem carries_applies (hV : HashId V) (hs : ∀ b ∈ supplied, b.header ∈ V) :
    ∀ {applies : List BlockHeader} {events : List DurableChainEvent}, (∀ x ∈ applies, x ∈ V) →
      List.Forall₂ (Carries supplied) (applies.map .apply) events →
      ∃ blocks : List IndexedBlock, events = blocks.map .apply ∧ blocks.map (·.header) = applies ∧
        ∀ b ∈ blocks, b ∈ supplied
  | [], _, _, h => by cases h; exact ⟨[], rfl, rfl, fun b hb => absurd hb List.not_mem_nil⟩
  | x :: applies, _, hx, h => by
    cases h with
    | cons hc ht =>
      cases hc with
      | @apply _ block hmem hhash =>
        obtain rfl := hV (hs block hmem) (hx x (by simp)) hhash
        obtain ⟨blocks, rfl, rfl, hsub⟩ :=
          carries_applies hV hs (fun y hy => hx y (List.mem_cons_of_mem _ hy)) ht
        exact ⟨block :: blocks, rfl, rfl, by simpa using ⟨hmem, hsub⟩⟩

theorem carries_rollbacks {applies : List ChainEvent} :
    ∀ {rollbacks : List BlockHeader} {events : List DurableChainEvent},
      List.Forall₂ (Carries supplied) (rollbacks.map .rollback ++ applies) events →
      ∃ rest, events = rollbacks.map .rollback ++ rest ∧
        List.Forall₂ (Carries supplied) applies rest
  | [], events, h => ⟨events, rfl, h⟩
  | x :: rollbacks, _, h => by
    cases h with
    | cons hc ht =>
      cases hc with
      | rollback =>
        obtain ⟨rest, rfl, h⟩ := carries_rollbacks ht
        exact ⟨rest, rfl, h⟩

/-- The durable batch of rollbacks followed by applies. -/
theorem fromChainBatch_transition (hV : HashId V) (hs : ∀ b ∈ supplied, b.header ∈ V)
    {batch : ChainBatch} {ups applies : List BlockHeader}
    (hev : batch.events = ups.reverse.map .rollback ++ applies.map .apply)
    (happ : ∀ x ∈ applies, x ∈ V) {durable : DurableChainBatch}
    (h : DurableChainBatch.fromChainBatch batch supplied = .ok durable) :
    durable.commonAncestor = batch.commonAncestor ∧
      ∃ blocks : List IndexedBlock, durable.events = transitionEvents ups blocks ∧ blocks.map (·.header) = applies ∧
        ∀ b ∈ blocks, b ∈ supplied := by
  obtain ⟨-, hca, hcar⟩ := fromChainBatch_ok h
  rw [hev] at hcar
  obtain ⟨rest, hrest, hcar⟩ := carries_rollbacks hcar
  obtain ⟨blocks, rfl, hmap, hsub⟩ := carries_applies hV hs happ hcar
  exact ⟨hca, blocks, hrest, hmap, hsub⟩

end

/-- The headers of the apply events. -/
def applyHeaders (events : List ChainEvent) : List BlockHeader :=
  events.filterMap fun
    | .apply header => some header
    | .rollback _ => none

theorem takeBlocks_exists :
    ∀ {events : List ChainEvent} {blocks : Std.TreeMap BlockHash IndexedBlock},
      ((applyHeaders events).map (·.hash)).Nodup →
      (∀ x ∈ applyHeaders events, (blocks[x.hash]?).isSome) →
      ∃ r, DurableChainBatch.takeBlocks blocks events = .ok r ∧
        ∀ hash ∈ r.2, hash ∈ blocks ∧ hash ∉ (applyHeaders events).map (·.hash)
  | [], blocks, _, _ => ⟨_, rfl, fun hash h => ⟨h, by simp [applyHeaders]⟩⟩
  | .rollback header :: events, blocks, hnd, hsome => by
    obtain ⟨r, hr, hrest⟩ := @takeBlocks_exists events blocks hnd hsome
    exact ⟨_, Stateful.ok_bind.2 ⟨r, hr, rfl⟩, hrest⟩
  | .apply header :: events, blocks, hnd, hsome => by
    have happ : applyHeaders (.apply header :: events) = header :: applyHeaders events := rfl
    rw [happ, List.map_cons, List.nodup_cons] at hnd
    obtain ⟨block, hb⟩ := Option.isSome_iff_exists.1 (hsome header (by simp [happ]))
    obtain ⟨r, hr, hrest⟩ := @takeBlocks_exists events (blocks.erase header.hash) hnd.2 (by
      intro x hx
      rw [Std.TreeMap.getElem?_erase, if_neg]
      · exact hsome x (by simp [happ, hx])
      · intro he
        rw [Std.compare_eq_iff_eq] at he
        exact hnd.1 (List.mem_map.2 ⟨x, hx, he.symm⟩))
    unfold DurableChainBatch.takeBlocks
    rw [hb]
    refine ⟨_, Stateful.ok_bind.2 ⟨r, hr, rfl⟩, fun hash hh => ?_⟩
    obtain ⟨h1, h2⟩ := hrest hash hh
    rw [Std.TreeMap.mem_erase] at h1
    refine ⟨h1.2, ?_⟩
    rw [happ, List.map_cons, List.mem_cons, not_or]
    exact ⟨fun he => by simp [he] at h1, h2⟩

/-- One supplied block of each hash that is applied is enough. -/
theorem fromChainBatch_takes {batch : ChainBatch} {supplied : List IndexedBlock}
    (hnd : ((applyHeaders batch.events).map (·.hash)).Nodup)
    (hmem : ∀ hash, hash ∈ (applyHeaders batch.events).map (·.hash) ↔
      hash ∈ supplied.map (·.header.hash)) :
    ∃ durable, DurableChainBatch.fromChainBatch batch supplied = .ok durable := by
  have hsupplied : ∀ hash, (∃ b ∈ supplied, b.header.hash = hash) ↔
      hash ∈ (applyHeaders batch.events).map (·.hash) := by
    intro hash
    rw [hmem]
    simp
  obtain ⟨r, hr, hrest⟩ := @takeBlocks_exists batch.events
    (supplied.foldl (fun blocks block => blocks.insert block.header.hash block) ∅) hnd (by
      intro x hx
      rw [isSome_foldl, hsupplied]
      exact .inr (List.mem_map_of_mem hx))
  have hnone : r.2.keys.head? = none := by
    rw [List.head?_eq_none_iff, List.eq_nil_iff_forall_not_mem]
    intro hash hh
    obtain ⟨h1, h2⟩ := hrest hash (Std.TreeMap.mem_keys.1 hh)
    rw [Std.TreeMap.mem_iff_isSome_getElem?, isSome_foldl, hsupplied] at h1
    rcases h1 with h1 | h1
    · simp at h1
    · exact h2 h1
  refine ⟨{ transition := batch.transition, commonAncestor := batch.commonAncestor,
            events := r.1 }, Stateful.ok_bind.2 ⟨r, hr, ?_⟩⟩
  dsimp only
  rw [hnone]
  rfl

/-- One supplied block for each apply, in any order. -/
theorem fromChainBatch_exists {batch : ChainBatch} {supplied : List IndexedBlock}
    (hperm : (supplied.map (·.header)).Perm (applyHeaders batch.events))
    (hnd : ((applyHeaders batch.events).map (·.hash)).Nodup) :
    ∃ durable, DurableChainBatch.fromChainBatch batch supplied = .ok durable := by
  refine fromChainBatch_takes hnd fun hash => ?_
  rw [← (hperm.map (·.hash)).mem_iff, List.map_map]
  rfl

end Chainweave.Postgres
