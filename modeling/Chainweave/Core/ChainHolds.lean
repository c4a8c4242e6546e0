import Chainweave.Core.ChainCommit

/-!
# The chain a state holds after each transition

`commit` replays a batch on the canonical map and the canonical hashes, and moves
the tip by a rule of its own: to the last apply of the batch, or nowhere.

* `Holds self L`: map and hashes describe the linked chain `L`, and the tip is
  its top unless `L` is empty.
* `Holds.commit_resolved`, `Holds.commit_apply`: every outcome of `apply` keeps `Holds`; what it
  takes for the tip to follow is an apply in the batch.
* `reachable_holds`: so every state a `ChainState` can be in holds some chain.
* `Describes`: map, hashes and tip describe one chain. A batch that only rolls
  back empties the map and leaves the tip, and it is the only one that does
  (`describes_step`).
-/
namespace Chainweave.Chain

open Stateful HashLink

/-- The map and the hashes describe `L`; the tip is the top of `L` if it has one. -/
structure Holds (state : ChainState) (L : List BlockHeader) : Prop extends Maps state L where
  linked : Linked L
  top : ∀ x ∈ L.getLast?, state.tip = some x

section
variable {V : Set BlockHeader} {self : ChainState} {L xs applies : List BlockHeader}
  {x a tip : BlockHeader}

theorem Tracks.holds (h : Tracks self L) : Holds self L :=
  { h.toMaps with linked := h.linked, top := fun _ hx => h.tip.trans hx }

/-- A state that holds a chain with a top tracks it. -/
theorem Holds.tracks (h : Holds self L) (hne : L ≠ []) : Tracks self L := by
  obtain ⟨top, htop⟩ := Option.isSome_iff_exists.1 (List.getLast?_isSome.2 hne)
  exact { h.toMaps with linked := h.linked, tip := (h.top top htop).trans htop.symm }

theorem Maps.mem (h : Maps self L) (hself : Within V self) : ∀ y ∈ L, y ∈ V := by
  intro y hy
  exact hself.canonical y.height y ((h.byHeight _ _).2 ⟨hy, rfl⟩)

/-- A rollback of a block that an empty map does not have. -/
theorem Maps.remove_nil (h : Maps self []) (x : BlockHeader) : Maps (self.removeCanonical x) [] := by
  have hnone : self.canonicalByHeight[x.height]? = none := by
    rw [Option.eq_none_iff_forall_ne_some]
    intro y hy
    exact absurd ((h.byHeight _ _).1 hy).1 (by simp)
  unfold ChainState.removeCanonical
  rw [hnone]
  exact ⟨h.byHeight, h.hashes⟩

theorem Maps.rollback_nil (h : Maps self []) (xs : List BlockHeader) :
    Maps ((xs.map ChainEvent.rollback).foldl ChainState.commitEvent self) [] := by
  induction xs generalizing self with
  | nil => exact h
  | cons x xs ih => exact ih (h.remove_nil x)

/-- What the events make of the map is what the commit makes of it. -/
theorem Maps.commit {batch : ChainBatch}
    (h : Maps (batch.events.foldl ChainState.commitEvent self) L) : Maps (self.commit batch) L := by
  unfold ChainState.commit
  dsimp only
  split
  · exact ⟨h.byHeight, h.hashes⟩
  split
  · exact ⟨h.byHeight, h.hashes⟩
  · exact ⟨h.byHeight, h.hashes⟩

/-- A walk down from the tip passes the upper part of the chain held; it ends in the chain or goes on
below all of it. -/
theorem Holds.rollback_split (hV : HashId V) (h : Holds self L) (hself : Within V self)
    (htip : self.tip = some tip) (hp : Path tip xs a) (hx : ∀ y ∈ xs, y ∈ V) (ha : a ∈ V) :
    ∃ base ups below, L = base ++ ups ∧ xs = ups.reverse ++ below ∧
      (base = [] ∨ below = [] ∧ base.getLast? = some a) := by
  have hL := h.toMaps.mem hself
  by_cases hne : L = []
  · exact ⟨[], [], xs, by simpa using hne, rfl, .inl rfl⟩
  have htop : L.getLast? = some tip := (h.tracks hne).tip.symm.trans htip
  by_cases haL : a ∈ L
  · obtain ⟨pre, rfl⟩ := h.linked.path_eq hV hL htop haL hp hx
    exact ⟨pre ++ [a], xs.reverse, [], by simp, by simp, .inr ⟨rfl, by simp⟩⟩
  -- The walk ends outside the chain, so it passes the bottom block.
  obtain ⟨bottom, rest, rfl⟩ := List.exists_cons_of_ne_nil hne
  have hy : Path tip rest.reverse bottom := h.linked.path_down htop
  have hyV : ∀ z ∈ rest.reverse, z ∈ V := fun z hz => hL z (by simp [List.mem_reverse.1 hz])
  have hbV : bottom ∈ V := hL bottom (by simp)
  rcases Nat.le_total xs.length rest.reverse.length with hle | hle
  · obtain ⟨zs, heq, hz⟩ := hp.initial hV hy hx hyV ha hbV hle
    refine absurd ?_ haL
    cases hz with
    | nil => simp
    | cons =>
      have hmem : a ∈ rest.reverse := by
        rw [heq]
        simp
      exact List.mem_cons_of_mem _ (List.mem_reverse.1 hmem)
  · obtain ⟨zs, rfl, hz⟩ := hy.initial hV hp hyV hx hbV ha hle
    cases hz with
    | nil => exact absurd (by simp) haL
    | @cons _ _ _ below => exact ⟨[], bottom :: rest, below, rfl, by simp, .inl rfl⟩

/-- **A transition of the chain held.** Rolling back a walk down from the tip and applying a walk up
from where it ended leaves a chain whose top is the last apply, or no chain above the end of the
walk if nothing is applied. -/
theorem Holds.commit_resolved (hV : HashId V) (h : Holds self L) (hself : Within V self)
    (htip : self.tip = some tip) (hp : Path tip xs a) (hx : ∀ y ∈ xs, y ∈ V) (ha : a ∈ V)
    (hl : Linked (a :: applies)) {batch : ChainBatch}
    (hev : batch.events = xs.map .rollback ++ applies.map .apply) :
    ∃ base, Maps (self.commit batch) (base ++ applies) ∧ Linked (base ++ applies) ∧
      (base = [] ∨ a ∈ L ∧ base.getLast? = some a) := by
  obtain ⟨base, ups, below, rfl, rfl, hbase⟩ := h.rollback_split hV hself htip hp hx ha
  have hL := h.toMaps.mem hself
  have hups := h.toMaps.rollbackAll hV hL h.linked
  have hmaps : Maps (((ups.reverse ++ below).map ChainEvent.rollback).foldl
      ChainState.commitEvent self) base := by
    rw [List.map_append, List.foldl_append]
    rcases hbase with rfl | ⟨rfl, -⟩
    · exact hups.rollback_nil below
    · exact hups
  have hlinked : Linked (base ++ applies) := by
    rcases hbase with rfl | ⟨-, hlast⟩
    · exact hl.tail
    · obtain ⟨pre, rfl⟩ := List.getLast?_eq_some_iff.1 hlast
      rw [List.append_assoc]
      exact h.linked.left.append hl
  have hall := hmaps.applyAll hlinked
  rw [← List.foldl_append, ← hev] at hall
  refine ⟨base, hall.commit, hlinked, hbase.imp id fun hb => ⟨?_, hb.2⟩⟩
  exact List.mem_append_left _ (List.mem_of_getLast? hb.2)

theorem commitEvents_tip (events : List ChainEvent) (self : ChainState) :
    (events.foldl ChainState.commitEvent self).tip = self.tip := by
  induction events generalizing self with
  | nil => rfl
  | cons e events ih =>
    rw [List.foldl_cons, ih]
    cases e with
    | apply header => rfl
    | rollback header =>
      unfold ChainState.commitEvent ChainState.removeCanonical
      dsimp only
      split
      · rfl
      · rfl

theorem commit_tip_apply {batch : ChainBatch} (h : ChainState.lastApply batch.events = some x) :
    (self.commit batch).tip = some x := by
  unfold ChainState.commit
  rw [h]

/-- Rollbacks alone leave the tip. -/
theorem commit_tip_rollback {batch : ChainBatch} (h : ChainState.lastApply batch.events = none)
    (hd : batch.transition ≠ .duplicate) : (self.commit batch).tip = self.tip := by
  unfold ChainState.commit
  rw [h]
  dsimp only
  rw [if_neg hd]
  exact commitEvents_tip batch.events self

/-- How an apply that returned moved the chain held. -/
inductive Moved (self self' : ChainState) (newHead : BlockHeader) (batch : ChainBatch)
    (L L' : List BlockHeader) : Prop
  | stay (hdup : batch.transition = .duplicate) (hev : batch.events = []) (hL : L' = L)
      (htip : self'.tip = self.tip)
  | advance (hnew : batch.transition ≠ .duplicate) (hL : L'.getLast? = some newHead)
      (hlast : ChainState.lastApply batch.events = some newHead)
  | emptied (hnew : batch.transition ≠ .duplicate) (hL : L' = [])
      (hlast : ChainState.lastApply batch.events = none) (htip : self'.tip = self.tip)
      (hsome : ∃ tip, self.tip = some tip ∧ tip ≠ newHead)

/-- A commit of one apply on top of what the state holds. -/
theorem Holds.commit_apply (h : Holds self L) (hl : Linked (L ++ [x])) {batch : ChainBatch}
    (hev : batch.events = [.apply x]) : Holds (self.commit batch) (L ++ [x]) := by
  have hlast : ChainState.lastApply batch.events = some x := by rw [hev]; rfl
  have hmaps := h.toMaps.insert hl
  have hcommit : self.commit batch = { self.insertCanonical x with tip := some x } := by
    unfold ChainState.commit
    rw [hlast, hev]
    rfl
  rw [hcommit]
  exact { byHeight := hmaps.byHeight, hashes := hmaps.hashes, linked := hl, top := by simp }

/-- **What an apply that returned did to the chain held.** -/
theorem Applied.moved (hV : HashId V) {Yes No : BlockHeader → Prop} {self' : ChainState}
    {newHead : BlockHeader} {batch : ChainBatch} (h : Holds self L) (hself : Within V self)
    (ha : Applied V Yes No self newHead batch self') :
    ∃ L', Holds self' L' ∧ Moved self self' newHead batch L L' := by
  cases ha with
  | duplicate _ =>
    refine ⟨L, ?_, .stay rfl rfl rfl rfl⟩
    exact { byHeight := h.byHeight, hashes := h.hashes, linked := h.linked, top := h.top }
  | bootstrap htip hheight hb =>
    subst hb
    have hL : L = [] := by
      by_contra hne
      obtain ⟨top, htop⟩ := Option.isSome_iff_exists.1 (List.getLast?_isSome.2 hne)
      exact absurd (htip.symm.trans (h.top top htop)) (by simp)
    subst hL
    exact ⟨[newHead], h.commit_apply (.singleton _) rfl, .advance (by simp) rfl rfl⟩
  | @extend _ tip htip hchild hb =>
    subst hb
    have hl : Linked (L ++ [newHead]) := by
      refine List.isChain_append.2 ⟨h.linked, .singleton _, ?_⟩
      intro y hy z hz
      obtain rfl : newHead = z := by simpa using hz
      obtain rfl : y = tip := Option.some.inj ((h.top y hy).symm.trans htip)
      exact hchild
    exact ⟨L ++ [newHead], h.commit_apply hl rfl, .advance (by simp) (by simp) rfl⟩
  | @resolved _ tip ancestor rollbacks descending htip hknown hnew hlink hpath hroll haV hy hmiss hold
      hlen hrlen hfin hb =>
    have hl : Linked (ancestor :: descending.reverse) := hpath.linked
    have hevents : batch.events = rollbacks.map .rollback ++ descending.reverse.map .apply := by rw [hb]
    obtain ⟨base, hmaps, hlinked, hbase⟩ := h.commit_resolved hV hself htip hroll hold haV hl hevents
    have hlast := lastApply_eq rollbacks descending.reverse
    rw [List.getLast?_reverse, ← hevents] at hlast
    cases descending with
    | nil =>
      obtain rfl := hpath.eq_of_nil
      -- Only rollbacks: the head is not in the chain held, so all of it goes.
      have hb0 : base = [] := hbase.resolve_right fun hb => by
        rw [h.toMaps.isKnownCanonical.2 hb.1] at hknown
        cases hknown
      subst hb0
      have hrne : rollbacks ≠ [] := by
        rintro rfl
        exact hnew (congrArg BlockHeader.hash hroll.eq_of_nil)
      have htrans : batch.transition ≠ .duplicate := by
        rw [hb]
        unfold ChainState.resolvedTransition
        dsimp only
        rw [if_neg (by simpa using hrne)]
        split
        · simp
        · simp
      refine ⟨[], { hmaps with linked := .nil, top := by simp }, .emptied htrans rfl hlast
        (commit_tip_rollback hlast htrans) ⟨tip, htip, ?_⟩⟩
      intro he
      exact hnew (congrArg BlockHeader.hash he).symm
    | cons x descending =>
      obtain rfl := hpath.head_eq
      have htop : (base ++ (x :: descending).reverse).getLast? = some x := by
        rw [List.getLast?_append_of_ne_nil _ (by simp), List.getLast?_reverse]
        rfl
      refine ⟨base ++ (x :: descending).reverse, ?_, .advance ?_ htop hlast⟩
      · refine { hmaps with linked := hlinked, top := ?_ }
        intro y hy
        rw [htop] at hy
        rw [commit_tip_apply hlast]
        exact hy
      · rw [hb]
        unfold ChainState.resolvedTransition
        dsimp only
        rw [if_neg (by simp)]
        split
        · simp
        · simp

end

/-! ## Reachable states -/

theorem holds_fromTip {tip : BlockHeader} {size depth : Nat} {self : ChainState}
    (h : ChainState.fromTip tip size depth = .ok self) : Holds self [tip] := by
  obtain ⟨empty, hn, rfl⟩ := fromTip_eq h
  have hl : Linked ([] ++ [tip]) := .singleton _
  have hmaps := (tracks_new hn).toMaps.insert hl
  exact { byHeight := hmaps.byHeight, hashes := hmaps.hashes, linked := .singleton _, top := by simp }

theorem Holds.setFinalizedHeight {self : ChainState} {L : List BlockHeader} (h : Holds self L)
    (finalizedHeight : Option Nat) : Holds (self.setFinalizedHeight finalizedHeight) L :=
  { byHeight := h.byHeight, hashes := h.hashes, linked := h.linked, top := h.top }

/-- Every state a `ChainState` can be in holds some chain. -/
theorem reachable_holds {V : Set BlockHeader} (hV : HashId V) {self : ChainState}
    (h : Reachable V self) : ∃ L, Holds self L := by
  induction h with
  | new h => exact ⟨[], (tracks_new h).holds⟩
  | fromTip _ h => exact ⟨_, holds_fromTip h⟩
  | fromCanonicalChain _ h => exact ⟨_, (tracks_fromCanonicalChain h).holds⟩
  | setFinalizedHeight f _ ih =>
    obtain ⟨L, hL⟩ := ih
    exact ⟨L, hL.setFinalizedHeight f⟩
  | apply s hself hr hn ih =>
    obtain ⟨L, hL⟩ := ih
    have hwithin := reachable_within hV hself
    have h := apply_wp_any hV hwithin hr hn s
    unfold wp at h
    split at h
    · rename_i he
      rw [he]
      obtain ⟨L', hL', -⟩ := h.moved hV hL hwithin
      exact ⟨L', hL'⟩
    · rename_i he
      rw [he]
      exact ⟨L, h ▸ hL⟩

/-! ## The chain described -/

/-- The map as a list is the chain it describes. -/
theorem Maps.canonicalChain_eq {self : ChainState} {L : List BlockHeader} (h : Maps self L)
    (hl : Linked L) : self.canonicalChain = L := by
  have hpair : self.canonicalChain.Pairwise (·.height < ·.height) := by
    unfold ChainState.canonicalChain
    rw [List.pairwise_map]
    refine Std.TreeMap.ordered_keys_toList.imp_of_mem fun {p q} hp hq hlt => ?_
    rw [Std.TreeMap.mem_toList_iff_getElem?_eq_some, h.byHeight] at hp hq
    rw [hp.2, hq.2]
    exact Nat.compare_eq_lt.1 hlt
  have hirrefl : Std.Irrefl fun a b : BlockHeader => a.height < b.height :=
    ⟨fun _ => Nat.lt_irrefl _⟩
  have hanti : Std.Antisymm fun a b : BlockHeader => a.height < b.height :=
    ⟨fun _ _ h1 h2 => absurd h1 (Nat.lt_asymm h2)⟩
  exact hpair.eq_of_mem_iff hl.pairwise fun x => h.mem_canonicalChain

/-- The canonical map is a linked chain filed under its heights, the canonical hashes are its hashes,
and the tip is its top: there is one exactly if the map is not empty. -/
structure Describes (state : ChainState) : Prop where
  tip_isSome : state.tip.isSome ↔ state.canonicalChain ≠ []
  heights : ∀ (n : Nat) (x : BlockHeader), state.canonicalByHeight[n]? = some x → x.height = n
  linked : Linked state.canonicalChain
  highest : state.canonicalChain.getLast? = state.tip
  hashes : ∀ k, k ∈ state.canonicalHashes ↔ ∃ x ∈ state.canonicalChain, x.hash = k

theorem describes_iff {self : ChainState} : Describes self ↔ ∃ L, Tracks self L := by
  constructor
  · intro h
    refine ⟨self.canonicalChain, ⟨fun n x => ?_, h.hashes⟩, h.linked, h.highest.symm⟩
    unfold ChainState.canonicalChain
    rw [List.mem_map]
    constructor
    · intro hx
      exact ⟨⟨(n, x), Std.TreeMap.mem_toList_iff_getElem?_eq_some.2 hx, rfl⟩, h.heights n x hx⟩
    · intro hx
      obtain ⟨⟨⟨m, y⟩, hy, rfl⟩, rfl⟩ := hx
      rw [Std.TreeMap.mem_toList_iff_getElem?_eq_some] at hy
      have hm : y.height = m := h.heights m y hy
      rwa [hm]
  · intro h
    obtain ⟨L, hL⟩ := h
    have hchain := hL.toMaps.canonicalChain_eq hL.linked
    refine ⟨?_, fun n x hx => ((hL.byHeight n x).1 hx).2, ?_, ?_, ?_⟩
    · rw [hchain, hL.tip, List.getLast?_isSome]
    · rw [hchain]
      exact hL.linked
    · rw [hchain, hL.tip]
    · rw [hchain]
      exact hL.hashes

/-! ## Heads that only the resolver knows -/

section
variable {ρ : Type} {self : ChainState} {resolver : AncestryResolver ρ} {newHead : BlockHeader}

/-- The resolver's canonical lookups, asked from `s`, name `header`. -/
def Persisted (resolver : AncestryResolver ρ) (s : ρ) (header : BlockHeader) : Prop :=
  match exec (resolver.canonicalHeaderByHash header.hash) s with
  | (.ok (some canonical), _) => canonical = header
  | (.ok none, s') =>
    match exec (resolver.canonicalHeaderAtHeight header.height) s' with
    | (.ok (some canonical), _) => canonical = header
    | _ => False
  | _ => False

/-- A head that is neither in the canonical map, nor the tip, nor names the tip as its parent, and
that the resolver has as a persisted canonical header. -/
def ResolverOnly (self : ChainState) (resolver : AncestryResolver ρ) (s : ρ) (newHead : BlockHeader) :
    Prop :=
  self.isKnownCanonical newHead = false ∧
    (∃ tip ∈ self.tip, newHead.hash ≠ tip.hash ∧ newHead.parentHash ≠ tip.hash) ∧
    Persisted resolver s newHead

theorem canonicalMatch_persisted (resolver : AncestryResolver ρ)
    (hknown : self.isKnownCanonical newHead = false) (s : ρ) :
    wp (self.canonicalMatch resolver newHead) (fun o _ => o.isSome ↔ Persisted resolver s newHead)
      (fun _ _ => True) s := by
  unfold ChainState.canonicalMatch Persisted
  rw [if_neg (by simp [hknown]), wp_bind]
  refine wp_mapError ?_
  cases h : exec (resolver.canonicalHeaderByHash newHead.hash) s with
  | mk r s' =>
    refine wp_of_eq h (fun o ho => ?_) (fun _ _ => trivial)
    subst ho
    cases o with
    | some canonical =>
      simp only [wp_bind, wp_lift, wp_pure, Option.isSome_some, true_iff]
      exact ⟨fun _ hs => (validateSameHeader_ok.1 hs).symm, fun _ _ => trivial⟩
    | none =>
      simp only
      rw [wp_bind]
      refine wp_mapError ?_
      cases h' : exec (resolver.canonicalHeaderAtHeight newHead.height) s' with
      | mk r' s'' =>
        refine wp_of_eq h' (fun o ho => ?_) (fun _ _ => trivial)
        subst ho
        cases o with
        | none => simp
        | some canonical =>
          simp only
          split
          · simp only [wp_bind, wp_lift, wp_pure, Option.isSome_some, true_iff]
            exact ⟨fun _ hs => (validateSameHeader_ok.1 hs).symm, fun _ _ => trivial⟩
          · rename_i hne
            simp only [wp_pure, Option.isSome_none, Bool.false_eq_true, false_iff]
            intro he
            exact hne (congrArg BlockHeader.hash he)

/-- The replacement is empty exactly if the resolver names the head at once. -/
theorem resolveLoop_persisted (hknown : self.isKnownCanonical newHead = false) (left : Nat) (s : ρ) :
    wp (self.resolveLoop resolver left newHead) (fun r _ => r.2 = [] ↔ Persisted resolver s newHead)
      (fun _ _ => True) s := by
  have hmatch := canonicalMatch_persisted resolver hknown s
  unfold ChainState.resolveLoop
  rw [wp_bind]
  refine wp_mono hmatch (fun o s' h => ?_) (fun _ _ h => h)
  cases o with
  | some canonical =>
    simp only [wp_pure]
    simpa using h
  | none =>
    have hno : ¬ Persisted resolver s newHead := by simpa using h
    cases left with
    | zero => exact trivial
    | succ left =>
      rw [wp_bind]
      refine wp_of_eq rfl (fun parent _ => ?_) (fun _ _ => trivial)
      rw [wp_bind]
      refine wp_of_eq rfl (fun r _ => ?_) (fun _ _ => trivial)
      simpa using hno

/-- A batch over a tip has no apply exactly if the head is one that only the resolver knows. -/
theorem apply_lastApply (s : ρ) :
    wp (ChainState.apply resolver newHead)
      (fun batch _ => batch.transition ≠ .duplicate →
        (ChainState.lastApply batch.events = none ↔ ResolverOnly self resolver s newHead))
      (fun _ _ => True) (self, s) := by
  unfold ChainState.apply
  rw [wp_bind, wp_get]
  dsimp only
  split
  · intro h
    exact absurd rfl h
  rename_i hdup
  simp only [Bool.or_eq_true, not_or] at hdup
  have hknown : self.isKnownCanonical newHead = false := by simpa using hdup.1
  split
  · rename_i htip
    split
    · exact trivial
    · intro _
      refine iff_of_false (by simp [ChainState.lastApply]) fun hr => ?_
      obtain ⟨-, ⟨tip, ht, -⟩, -⟩ := hr
      rw [htip] at ht
      cases ht
  rename_i tip htip
  split
  · rename_i hlink
    split
    · exact trivial
    · intro _
      refine iff_of_false (by simp [ChainState.lastApply]) fun hr => ?_
      obtain ⟨-, ⟨tip', ht, -, hne⟩, -⟩ := hr
      obtain rfl : tip = tip' := Option.some.inj (htip.symm.trans ht)
      exact hne hlink
  rename_i hlink
  have hnew : newHead.hash ≠ tip.hash := fun he => hdup.2 (by simp [htip, he])
  have honly : ResolverOnly self resolver s newHead ↔ Persisted resolver s newHead := by
    constructor
    · intro h
      exact h.2.2
    · intro h
      exact ⟨hknown, ⟨tip, htip, hnew, hlink⟩, h⟩
  rw [wp_bind]
  refine wp_zoom (wp_mono (resolveLoop_persisted hknown self.maxReorgDepth s) ?_ (fun _ _ h => h))
  intro r s1 hr
  obtain ⟨ancestor, descending⟩ := r
  rw [wp_bind, wp_lift]
  refine ⟨fun _ _ => ?_, fun _ _ => trivial⟩
  rw [wp_bind]
  refine wp_zoom (wp_of_eq rfl (fun rollbacks _ => ?_) (fun _ _ => trivial))
  intro _
  dsimp only at hr
  rw [honly, ← hr, lastApply_eq]
  simp

/-- From a state that describes its chain, an apply that returned leaves one that does, with the head
as its tip unless it was a duplicate, exactly if the head is not one that only the resolver knows. -/
theorem describes_step {V : Set BlockHeader} (hV : HashId V) (hself : Within V self)
    (hd : Describes self) (hr : HeadersIn V resolver) (hn : newHead ∈ V) {s : ρ} {batch : ChainBatch}
    {s' : ChainState × ρ} (hx : exec (ChainState.apply resolver newHead) (self, s) = (.ok batch, s')) :
    (batch.transition = .duplicate → Describes s'.1) ∧
      (batch.transition ≠ .duplicate →
        (s'.1.tip = some newHead ↔ ¬ ResolverOnly self resolver s newHead) ∧
        (Describes s'.1 ↔ ¬ ResolverOnly self resolver s newHead)) := by
  obtain ⟨L, hL⟩ := describes_iff.1 hd
  have honly := wp_ok (apply_lastApply s) hx
  obtain ⟨L', hL', hmoved⟩ := (wp_ok (apply_wp_any hV hself hr hn s) hx).moved hV hL.holds hself
  cases hmoved with
  | stay hdup hev heq htip =>
    subst heq
    refine ⟨fun _ => describes_iff.2 ⟨L', ?_⟩, fun hne => absurd hdup hne⟩
    exact { hL'.toMaps with linked := hL'.linked, tip := htip.trans hL.tip }
  | advance hnew htop hlast =>
    have hone : ¬ ResolverOnly self resolver s newHead := by
      rw [← honly hnew, hlast]
      simp
    refine ⟨fun hdup => absurd hdup hnew, fun _ => ⟨iff_of_true (hL'.top _ htop) hone, ?_⟩⟩
    refine iff_of_true (describes_iff.2 ⟨L', hL'.tracks ?_⟩) hone
    intro hnil
    rw [hnil] at htop
    cases htop
  | emptied hnew hnil hlast htip hsome =>
    have hone : ResolverOnly self resolver s newHead := (honly hnew).1 hlast
    obtain ⟨tip, ht, hne⟩ := hsome
    refine ⟨fun hdup => absurd hdup hnew, fun _ => ⟨?_, ?_⟩⟩
    · refine iff_of_false (fun h => ?_) (not_not.2 hone)
      rw [htip, ht] at h
      exact hne (Option.some.inj h)
    · refine iff_of_false (fun h => ?_) (not_not.2 hone)
      have hchain := hL'.toMaps.canonicalChain_eq hL'.linked
      have hmem := h.tip_isSome
      rw [hchain, hnil, htip, ht] at hmem
      simp at hmem

end

end Chainweave.Chain
