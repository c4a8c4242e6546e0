import Chainweave.Sink.Batches

/-!
# Which payloads are accepted

`from_chain_batch` looks a payload up by the hash of the event, and never compares
the headers.

* `fromChainBatch_accepts`: it accepts if and only if no hash is applied twice, and
  the hashes applied are those supplied.
* `matchesExactly_iff`: so a payload supplied twice is dropped, one of another height
  or parent is taken, and these, with two events of one hash, are the only inputs on
  which the headers are not matched exactly.
-/
namespace Chainweave.Postgres

open Chainweave.Chain

/-- The kind and header of a batch event. -/
def eventHeader : ChainEvent → EventKind × BlockHeader
  | .apply header => (.apply, header)
  | .rollback header => (.rollback, header)

/-- The payload headers are those of the apply events, in some order, and none twice. -/
def ExactPayloads (batch : ChainBatch) (supplied : List IndexedBlock) : Prop :=
  (supplied.map (·.header)).Perm (applyHeaders batch.events) ∧ (supplied.map (·.header)).Nodup

/-- Exact payloads are accepted and no others, and the durable events are those of the batch. -/
def MatchesExactly (batch : ChainBatch) (supplied : List IndexedBlock) : Prop :=
  ((∃ durable, DurableChainBatch.fromChainBatch batch supplied = .ok durable) ↔
    ExactPayloads batch supplied) ∧
  ∀ durable, DurableChainBatch.fromChainBatch batch supplied = .ok durable →
    durable.events.map (fun event => (event.kind, event.header)) = batch.events.map eventHeader

/-- No hash is applied twice, and the hashes applied are those supplied. -/
def HashesMatch (batch : ChainBatch) (supplied : List IndexedBlock) : Prop :=
  ((applyHeaders batch.events).map (·.hash)).Nodup ∧
    ∀ hash, hash ∈ (applyHeaders batch.events).map (·.hash) ↔ hash ∈ supplied.map (·.header.hash)

/-! ## What is accepted -/

/-- The loop takes a block for each apply, and leaves the others. -/
theorem takeBlocks_taken :
    ∀ {events : List ChainEvent} {blocks : Std.TreeMap BlockHash IndexedBlock}
      {r : List DurableChainEvent × Std.TreeMap BlockHash IndexedBlock},
      DurableChainBatch.takeBlocks blocks events = .ok r →
      ((applyHeaders events).map (·.hash)).Nodup ∧ ∀ hash, hash ∈ blocks ↔
        hash ∈ r.2 ∨ hash ∈ (applyHeaders events).map (·.hash)
  | [], _, _, h => by
    cases h
    exact ⟨List.nodup_nil, fun hash => by simp [applyHeaders]⟩
  | .rollback header :: events, blocks, r, h => by
    obtain ⟨r', hr, h⟩ := Stateful.ok_bind.1 h
    cases h
    have htaken := takeBlocks_taken hr
    exact htaken
  | .apply header :: events, blocks, r, h => by
    unfold DurableChainBatch.takeBlocks at h
    split at h
    · cases h
    · rename_i block hb
      obtain ⟨r', hr, h⟩ := Stateful.ok_bind.1 h
      cases h
      obtain ⟨hnodup, hmem⟩ := takeBlocks_taken hr
      have happ : applyHeaders (.apply header :: events) = header :: applyHeaders events := rfl
      have hin : header.hash ∈ blocks := by
        rw [Std.TreeMap.mem_iff_isSome_getElem?, hb]
        rfl
      have hout : header.hash ∉ blocks.erase header.hash := by simp
      rw [happ, List.map_cons, List.nodup_cons]
      refine ⟨⟨fun hmore => hout ((hmem _).2 (.inr hmore)), hnodup⟩, fun hash => ?_⟩
      rw [List.mem_cons]
      by_cases he : hash = header.hash
      · rw [he]
        exact ⟨fun _ => .inr (.inl rfl), fun _ => hin⟩
      · have herase : hash ∈ blocks.erase header.hash ↔ hash ∈ blocks := by
          rw [Std.TreeMap.mem_erase]
          simp [Ne.symm he]
        rw [← herase, hmem hash]
        simp [he]

/-- **What is accepted.** -/
theorem fromChainBatch_accepts {batch : ChainBatch} {supplied : List IndexedBlock} :
    (∃ durable, DurableChainBatch.fromChainBatch batch supplied = .ok durable) ↔
      HashesMatch batch supplied := by
  have hmem : ∀ hash : BlockHash,
      hash ∈ supplied.foldl (fun blocks block => blocks.insert block.header.hash block)
        (∅ : Std.TreeMap BlockHash IndexedBlock) ↔ hash ∈ supplied.map (·.header.hash) := by
    intro hash
    rw [Std.TreeMap.mem_iff_isSome_getElem?, isSome_foldl]
    simp
  constructor
  · intro hex
    obtain ⟨durable, h⟩ := hex
    obtain ⟨⟨events, rest⟩, ht, h⟩ := Stateful.ok_bind.1 h
    dsimp only at h
    split at h
    · cases h
    · rename_i hnone
      obtain ⟨hnodup, htaken⟩ := takeBlocks_taken ht
      refine ⟨hnodup, fun hash => ?_⟩
      have hout : hash ∉ rest := by
        rw [← Std.TreeMap.mem_keys, List.head?_eq_none_iff.1 hnone]
        exact List.not_mem_nil
      rw [← hmem hash, htaken hash, or_iff_right hout]
  · intro hmatch
    exact fromChainBatch_takes hmatch.1 hmatch.2

/-! ## Where the headers match exactly -/

/-- Two payloads of one hash, of which the last is taken and the others are dropped. -/
def Overwritten (batch : ChainBatch) (supplied : List IndexedBlock) : Prop :=
  HashesMatch batch supplied ∧ ¬ (supplied.map (·.header.hash)).Nodup

/-- A payload of an event's hash and of another height or parent. -/
def Mistaken (batch : ChainBatch) (supplied : List IndexedBlock) : Prop :=
  HashesMatch batch supplied ∧ ∃ header ∈ applyHeaders batch.events, ∃ block ∈ supplied,
    block.header.hash = header.hash ∧ block.header ≠ header

/-- Two events of one hash and of different headers, each with its payload. -/
def Clashing (batch : ChainBatch) (supplied : List IndexedBlock) : Prop :=
  ExactPayloads batch supplied ∧ ∃ a ∈ applyHeaders batch.events, ∃ b ∈ applyHeaders batch.events,
    a.hash = b.hash ∧ a ≠ b

section
variable {batch : ChainBatch} {supplied : List IndexedBlock}

theorem map_events (hsame : ∀ header ∈ applyHeaders batch.events, ∀ block ∈ supplied,
      block.header.hash = header.hash → block.header = header)
    {durable : DurableChainBatch}
    (h : DurableChainBatch.fromChainBatch batch supplied = .ok durable) :
    durable.events.map (fun event => (event.kind, event.header)) =
      batch.events.map eventHeader := by
  obtain ⟨-, -, hcarries⟩ := fromChainBatch_ok h
  generalize batch.events = events at hcarries hsame
  generalize durable.events = durables at hcarries
  induction hcarries with
  | nil => rfl
  | @cons event durableEvent events durables hcarry _ ih =>
    cases hcarry with
    | rollback header =>
      rw [List.map_cons, List.map_cons, ih hsame]
      rfl
    | @apply header block hmem hhash =>
      have happ : applyHeaders (.apply header :: events) = header :: applyHeaders events := rfl
      rw [happ] at hsame
      have hheader : block.header = header := hsame header (by simp) block hmem hhash
      rw [List.map_cons, List.map_cons, ih fun x hx => hsame x (List.mem_cons_of_mem _ hx)]
      simp only [DurableChainEvent.kind, DurableChainEvent.header, eventHeader, hheader]

/-- Different headers of different hashes. -/
theorem nodup_hashes {headers : List BlockHeader} (hnodup : headers.Nodup)
    (happart : ¬ ∃ a ∈ headers, ∃ b ∈ headers, a.hash = b.hash ∧ a ≠ b) :
    (headers.map (·.hash)).Nodup := by
  refine hnodup.map_on fun a ha b hb hab => ?_
  by_contra hne
  exact happart ⟨a, ha, b, hb, hab, hne⟩

/-- Matched hashes, with nothing overwritten or mistaken, are exact payloads. -/
theorem exact_of_match (h : HashesMatch batch supplied)
    (hnodup : (supplied.map (·.header.hash)).Nodup)
    (hsame : ∀ header ∈ applyHeaders batch.events, ∀ block ∈ supplied,
      block.header.hash = header.hash → block.header = header) : ExactPayloads batch supplied := by
  have hheaders : (supplied.map (·.header)).Nodup := by
    refine List.Nodup.of_map (·.hash) ?_
    rw [List.map_map]
    exact hnodup
  refine ⟨(List.perm_ext_iff_of_nodup hheaders (.of_map _ h.1)).2 fun header => ?_, hheaders⟩
  constructor
  · intro hin
    obtain ⟨block, hblock, rfl⟩ := List.mem_map.1 hin
    obtain ⟨applied, happlied, heq⟩ := List.mem_map.1 ((h.2 _).2 (List.mem_map_of_mem hblock))
    rw [hsame applied happlied block hblock heq.symm]
    exact happlied
  · intro happlied
    obtain ⟨block, hblock, heq⟩ := List.mem_map.1 ((h.2 _).1 (List.mem_map_of_mem happlied))
    rw [← hsame header happlied block hblock heq]
    exact List.mem_map_of_mem hblock

end

/-- **Where payloads are matched exactly**: but for a payload supplied twice, one of another height
or parent than its event, and two events of one hash. -/
theorem matchesExactly_iff (batch : ChainBatch) (supplied : List IndexedBlock) :
    MatchesExactly batch supplied ↔
      ¬ Overwritten batch supplied ∧ ¬ Mistaken batch supplied ∧ ¬ Clashing batch supplied := by
  unfold MatchesExactly
  rw [fromChainBatch_accepts]
  constructor
  · intro hand
    obtain ⟨hiff, -⟩ := hand
    refine ⟨fun hover => ?_, fun hmis => ?_, fun hclash => ?_⟩
    · obtain ⟨hmatch, hdup⟩ := hover
      have hperm := (hiff.1 hmatch).1.map (·.hash)
      rw [List.map_map] at hperm
      exact hdup (hperm.nodup_iff.2 hmatch.1)
    · obtain ⟨hmatch, header, hheader, block, hblock, hhash, hne⟩ := hmis
      have hin := (hiff.1 hmatch).1.mem_iff.1 (List.mem_map_of_mem hblock)
      exact hne (List.inj_on_of_nodup_map hmatch.1 hin hheader hhash)
    · obtain ⟨hexact, a, ha, b, hb, hhash, hne⟩ := hclash
      exact hne (List.inj_on_of_nodup_map (hiff.2 hexact).1 ha hb hhash)
  · intro hand
    obtain ⟨hover, hmis, hclash⟩ := hand
    have hsame : HashesMatch batch supplied → ∀ header ∈ applyHeaders batch.events,
        ∀ block ∈ supplied, block.header.hash = header.hash → block.header = header := by
      intro hmatch header hheader block hblock hhash
      by_contra hne
      exact hmis ⟨hmatch, header, hheader, block, hblock, hhash, hne⟩
    refine ⟨⟨fun hmatch => ?_, fun hexact => ?_⟩, fun durable h => ?_⟩
    · have hnodup : (supplied.map (·.header.hash)).Nodup := by
        by_contra hdup
        exact hover ⟨hmatch, hdup⟩
      exact exact_of_match hmatch hnodup (hsame hmatch)
    · have happlied : (applyHeaders batch.events).Nodup := hexact.1.nodup_iff.1 hexact.2
      have hhashes := nodup_hashes happlied fun hex => hclash ⟨hexact, hex⟩
      rw [← fromChainBatch_accepts]
      exact fromChainBatch_exists hexact.1 hhashes
    · exact map_events (hsame (fromChainBatch_accepts.1 ⟨durable, h⟩)) h

/-- A payload of the batch's only event, with the given logs. -/
def genesisPayload (header : BlockHeader) (logs : List RawLog) : IndexedBlock where
  header
  timestamp := 0
  status := .Unsafe
  statusSource := .Observed
  logs

/-- Two payloads of one block are accepted, and one is dropped; and so is a payload of another
height and parent than the event's. -/
theorem repeated_payload_accepted :
    let batch : ChainBatch := ⟨.bootstrap, none, [.apply ⟨1, 0, 0⟩]⟩
    ¬ MatchesExactly batch [genesisPayload ⟨1, 0, 0⟩ [], genesisPayload ⟨1, 0, 0⟩ []] ∧
      ¬ MatchesExactly batch [genesisPayload ⟨1, 9, 7⟩ []] := by
  intro batch
  constructor
  · intro hexact
    have hmatch : HashesMatch batch [genesisPayload ⟨1, 0, 0⟩ [], genesisPayload ⟨1, 0, 0⟩ []] :=
      ⟨by decide, fun hash => by simp [batch, applyHeaders, genesisPayload]⟩
    have hnodup := (hexact.1.1 (fromChainBatch_accepts.2 hmatch)).2
    exact absurd hnodup (by decide)
  · intro hexact
    have hmatch : HashesMatch batch [genesisPayload ⟨1, 9, 7⟩ []] :=
      ⟨by decide, fun hash => by simp [batch, applyHeaders, genesisPayload]⟩
    have hperm := (hexact.1.1 (fromChainBatch_accepts.2 hmatch)).1
    exact absurd hperm (by decide)

end Chainweave.Postgres
