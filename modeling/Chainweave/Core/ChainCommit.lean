import Chainweave.Core.ChainShape

/-!
# What a commit does to the canonical chain

`Tracks self L`: the canonical map, the canonical hashes and the tip of a state
describe the linked chain `L`.

* `Maps.remove`, `Maps.insert`: one rollback of the top, one apply of a child.
* `commit_tracks`: rolling back the blocks above `base` and applying a chain on
  top of it leaves a state that tracks `base` with that chain.
* `tracks_new`, `tracks_fromCanonicalChain`: the constructors track what they
  were given.
-/
namespace Chainweave.Chain

open HashLink

/-- The canonical map and the canonical hashes describe `L`. -/
structure Maps (state : ChainState) (L : List BlockHeader) : Prop where
  byHeight : ∀ (n : Nat) (x : BlockHeader),
    state.canonicalByHeight[n]? = some x ↔ x ∈ L ∧ x.height = n
  hashes : ∀ k, k ∈ state.canonicalHashes ↔ ∃ x ∈ L, x.hash = k

/-- The state describes the linked chain `L`. -/
structure Tracks (state : ChainState) (L : List BlockHeader) : Prop extends Maps state L where
  linked : Linked L
  tip : state.tip = L.getLast?

section
variable {V : Set BlockHeader} {self : ChainState} {L base ups applies : List BlockHeader}
  {x : BlockHeader}

theorem Linked.height_lt {y : BlockHeader} (h : Linked (L ++ [x])) (hy : y ∈ L) :
    y.height < x.height :=
  (List.pairwise_append.1 h.pairwise).2.2 y hy x (by simp)

theorem Maps.remove (hV : HashId V) (hL : ∀ y ∈ L ++ [x], y ∈ V) (hl : Linked (L ++ [x]))
    (h : Maps self (L ++ [x])) : Maps (self.removeCanonical x) L := by
  have hx : self.canonicalByHeight[x.height]? = some x := (h.byHeight _ _).2 ⟨by simp, rfl⟩
  unfold ChainState.removeCanonical
  rw [hx]
  rw [if_pos (by simp)]
  refine ⟨fun n y => ?_, fun k => ?_⟩
  · rw [Std.TreeMap.getElem?_erase]
    split
    · rename_i he
      have hn : x.height = n := by simpa using he
      subst hn
      simp only [reduceCtorEq, false_iff, not_and]
      exact fun hy hh => Nat.lt_irrefl _ (hh ▸ Linked.height_lt hl hy)
    · rename_i he
      have hn : x.height ≠ n := by simpa using he
      rw [h.byHeight, List.mem_append, List.mem_singleton]
      constructor
      · intro hex
        rcases hex with ⟨hy | rfl, hh⟩
        · exact ⟨hy, hh⟩
        · exact absurd hh hn
      · intro hex
        rcases hex with ⟨hy, hh⟩
        exact ⟨.inl hy, hh⟩
  · rw [Finset.mem_erase, h.hashes]
    constructor
    · intro hex
      rcases hex with ⟨hk, y, hy, rfl⟩
      rcases List.mem_append.1 hy with hy | hy
      · exact ⟨y, hy, rfl⟩
      · obtain rfl := List.mem_singleton.1 hy
        exact absurd rfl hk
    · intro hex
      rcases hex with ⟨y, hy, rfl⟩
      refine ⟨fun hh => ?_, y, List.mem_append_left _ hy, rfl⟩
      obtain rfl := hV (hL y (List.mem_append_left _ hy)) (hL x (by simp)) hh
      exact Nat.lt_irrefl _ (Linked.height_lt hl hy)

theorem Maps.insert (hl : Linked (L ++ [x])) (h : Maps self L) :
    Maps (self.insertCanonical x) (L ++ [x]) := by
  unfold ChainState.insertCanonical
  refine ⟨fun n y => ?_, fun k => ?_⟩
  · rw [Std.TreeMap.getElem?_insert]
    split
    · rename_i he
      have hn : x.height = n := by simpa using he
      subst hn
      rw [List.mem_append, List.mem_singleton, Option.some.injEq]
      constructor
      · intro heq
        subst heq
        exact ⟨.inr rfl, rfl⟩
      · intro hex
        rcases hex with ⟨hy | rfl, hh⟩
        · exact absurd hh (Nat.ne_of_lt (Linked.height_lt hl hy))
        · rfl
    · rename_i he
      have hn : x.height ≠ n := by simpa using he
      rw [h.byHeight, List.mem_append, List.mem_singleton]
      constructor
      · intro hex
        rcases hex with ⟨hy, hh⟩
        exact ⟨.inl hy, hh⟩
      · intro hex
        rcases hex with ⟨hy | rfl, hh⟩
        · exact ⟨hy, hh⟩
        · exact absurd hh hn
  · rw [Finset.mem_insert, h.hashes]
    simp only [List.mem_append, List.mem_singleton]
    constructor
    · intro hex
      rcases hex with rfl | ⟨y, hy, rfl⟩
      · exact ⟨x, .inr rfl, rfl⟩
      · exact ⟨y, .inl hy, rfl⟩
    · intro hex
      rcases hex with ⟨y, hy | rfl, rfl⟩
      · exact .inr ⟨y, hy, rfl⟩
      · exact .inl rfl

theorem Maps.rollbackAll (hV : HashId V) (hL : ∀ y ∈ base ++ ups, y ∈ V) (hl : Linked (base ++ ups))
    (h : Maps self (base ++ ups)) :
    Maps ((ups.reverse.map ChainEvent.rollback).foldl ChainState.commitEvent self) base := by
  induction ups using List.reverseRecOn generalizing self with
  | nil => simpa using h
  | append_singleton ups x ih =>
    rw [← List.append_assoc] at hL hl h
    rw [List.reverse_append, List.reverse_singleton, List.singleton_append, List.map_cons,
      List.foldl_cons]
    exact ih (fun y hy => hL y (List.mem_append_left _ hy)) hl.left (h.remove hV hL hl)

theorem Maps.applyAll (hl : Linked (base ++ applies)) (h : Maps self base) :
    Maps ((applies.map ChainEvent.apply).foldl ChainState.commitEvent self) (base ++ applies) := by
  induction applies generalizing self base with
  | nil => simpa using h
  | cons x applies ih =>
    have hl' : Linked (base ++ [x] ++ applies) := by simpa using hl
    rw [List.append_cons]
    exact ih hl' (h.insert hl'.left)

theorem lastApply_eq (ups applies : List BlockHeader) :
    ChainState.lastApply (ups.map .rollback ++ applies.map .apply) = applies.getLast? := by
  unfold ChainState.lastApply
  rw [List.reverse_append, List.findSome?_append, ← List.map_reverse, ← List.map_reverse,
    List.findSome?_map, List.findSome?_map]
  have hroll : ups.reverse.findSome? (fun _ => (none : Option BlockHeader)) = none := by simp
  have happ : applies.reverse.findSome? (fun x => some x) = applies.getLast? := by
    rw [← List.head?_reverse]
    cases applies.reverse <;> rfl
  exact (congrArg₂ Option.or happ hroll).trans (by simp)

/-- **A transition of the chain state.** -/
theorem commit_tracks (hV : HashId V) (hL : ∀ y ∈ base ++ ups, y ∈ V)
    (h : Tracks self (base ++ ups)) (hl : Linked (base ++ applies)) (hne : applies ≠ [])
    {batch : ChainBatch}
    (hev : batch.events = ups.reverse.map .rollback ++ applies.map .apply) :
    Tracks (self.commit batch) (base ++ applies) := by
  have hmaps := (h.toMaps.rollbackAll hV hL h.linked).applyAll hl
  obtain ⟨top, htop⟩ := Option.isSome_iff_exists.1 (List.getLast?_isSome.2 hne)
  have hlast := (lastApply_eq ups.reverse applies).trans htop
  have hcommit : self.commit batch =
      { batch.events.foldl ChainState.commitEvent self with tip := some top } := by
    unfold ChainState.commit
    rw [hev, hlast]
  rw [hcommit, hev, List.foldl_append]
  refine ⟨⟨hmaps.byHeight, hmaps.hashes⟩, hl, ?_⟩
  rw [List.getLast?_append_of_ne_nil _ hne, htop]

/-- A header the state knows as canonical is on the chain, and the other way round. -/
theorem Maps.isKnownCanonical (h : Maps self L) : self.isKnownCanonical x = true ↔ x ∈ L := by
  unfold ChainState.isKnownCanonical
  simp only [Bool.and_eq_true, decide_eq_true_eq, beq_iff_eq]
  rw [h.hashes, h.byHeight]
  constructor
  · intro hex
    rcases hex with ⟨-, hx, -⟩
    exact hx
  · intro hx; exact ⟨⟨x, hx, rfl⟩, hx, rfl⟩

theorem Maps.mem_canonicalChain (h : Maps self L) : x ∈ self.canonicalChain ↔ x ∈ L := by
  unfold ChainState.canonicalChain
  rw [List.mem_map]
  constructor
  · intro hex
    rcases hex with ⟨⟨n, y⟩, hy, rfl⟩
    rw [Std.TreeMap.mem_toList_iff_getElem?_eq_some, h.byHeight] at hy
    exact hy.1
  · intro hx
    refine ⟨(x.height, x), ?_, rfl⟩
    rw [Std.TreeMap.mem_toList_iff_getElem?_eq_some, h.byHeight]
    exact ⟨hx, rfl⟩

theorem tracks_new {size depth : Nat} (h : ChainState.new size depth = .ok self) :
    Tracks self [] := by
  obtain ⟨_, rfl⟩ := ChainState.new_eq h
  exact ⟨⟨by simp, by simp⟩, .nil, rfl⟩

theorem linked_of_brokenLink : ∀ {headers : List BlockHeader},
    ChainState.brokenLink headers = none → Linked headers
  | [], _ => .nil
  | [_], _ => .singleton _
  | parent :: child :: headers, h => by
    unfold ChainState.brokenLink at h
    split at h
    · cases h
    rename_i hc
    rw [not_or, not_not, not_not] at hc
    exact List.isChain_cons_cons.2 ⟨⟨hc.2, hc.1⟩, linked_of_brokenLink h⟩

/-- A linked chain inserted block by block, with its last block as the tip. -/
theorem tracks_foldl {headers : List BlockHeader} (h : Tracks self []) (hl : Linked headers) :
    Tracks { headers.foldl ChainState.insertCanonical self with tip := headers.getLast? } headers := by
  have hl' : Linked ([] ++ headers) := by simpa using hl
  have hmaps := h.toMaps.applyAll hl'
  rw [List.foldl_map] at hmaps
  exact ⟨⟨hmaps.byHeight, hmaps.hashes⟩, hl, rfl⟩

theorem tracks_fromCanonicalChain {headers : List BlockHeader} {size depth : Nat}
    (h : ChainState.fromCanonicalChain headers size depth = .ok self) : Tracks self headers := by
  obtain ⟨-, hb, empty, hn, rfl⟩ := fromCanonicalChain_eq h
  exact tracks_foldl (tracks_new hn) (linked_of_brokenLink hb)

end

end Chainweave.Chain
