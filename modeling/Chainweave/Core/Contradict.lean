import Chainweave.Core.Wrapping

/-!
# Heads that contradict a canonical header

A head may carry the hash of a canonical header with another height or another
parent. `canonical_match` compares the whole header and fails; the checks before
it compare hashes only, or none.

* `canonicalMatch_contradicted`: the ancestor search refuses such a head at once.
* `refused_iff`: so `apply` refuses it, and leaves the state as it was, exactly
  if the search is reached or a height check stops it before: the head must not
  have the hash of the tip, nor be a child of it by the `u64` sum of the code
  (which wraps, so a block of height 0 is a child of a tip at `u64::MAX`), nor be
  a genesis block of an empty state.
-/
namespace Chainweave.Chain

open Stateful HashLink Chainweave.Backfill

/-- The canonical lookups of the resolver read `canon`, and so does the state's own chain. -/
structure Agrees {ρ : Type} (canon : BlockHash → Option BlockHeader) (state : ChainState)
    (resolver : AncestryResolver ρ) : Prop where
  canonicalHeaderByHash : ∀ hash s, wp (resolver.canonicalHeaderByHash hash)
    (fun o _ => o = canon hash) (fun _ _ => True) s
  canonicalHeaderAtHeight : ∀ height s, wp (resolver.canonicalHeaderAtHeight height)
    (fun o _ => ∀ x ∈ o, x.height = height ∧ canon x.hash = some x) (fun _ _ => True) s
  canonicalChain : ∀ x ∈ state.canonicalChain, canon x.hash = some x

section
variable {ρ : Type} {canon : BlockHash → Option BlockHeader} {self : ChainState}
  {resolver : AncestryResolver ρ} {newHead canonical : BlockHeader}

theorem mem_canonicalChain_of_known (h : self.isKnownCanonical newHead = true) :
    newHead ∈ self.canonicalChain := by
  unfold ChainState.isKnownCanonical at h
  simp only [Bool.and_eq_true, beq_iff_eq] at h
  unfold ChainState.canonicalChain
  exact List.mem_map.2 ⟨(newHead.height, newHead),
    Std.TreeMap.mem_toList_iff_getElem?_eq_some.2 h.2, rfl⟩

/-- The canonical map does not have the head: it has the other header of that hash. -/
theorem Agrees.not_known (h : Agrees canon self resolver) (hc : canon newHead.hash = some canonical)
    (hne : canonical ≠ newHead) : self.isKnownCanonical newHead = false := by
  rw [Bool.eq_false_iff]
  intro hk
  have hself := h.canonicalChain newHead (mem_canonicalChain_of_known hk)
  exact hne (Option.some.inj (hc.symm.trans hself))

/-- The match fails: the resolver has the canonical header, and it is not the head. -/
theorem canonicalMatch_contradicted (h : Agrees canon self resolver)
    (hc : canon newHead.hash = some canonical) (hne : canonical ≠ newHead) (s : ρ) :
    wp (self.canonicalMatch resolver newHead) (fun _ _ => False) (fun _ _ => True) s := by
  unfold ChainState.canonicalMatch
  rw [if_neg (by simp [h.not_known hc hne]), wp_bind]
  refine wp_mapError (wp_mono (h.canonicalHeaderByHash newHead.hash s) ?_ (fun _ _ _ => trivial))
  intro o s' ho
  rw [hc] at ho
  subst ho
  dsimp only
  rw [wp_bind, wp_lift]
  exact ⟨fun _ hs => hne (validateSameHeader_ok.1 hs).symm, fun _ _ => trivial⟩

theorem resolveLoop_contradicted (h : Agrees canon self resolver)
    (hc : canon newHead.hash = some canonical) (hne : canonical ≠ newHead) (left : Nat) (s : ρ) :
    wp (self.resolveLoopWrapping resolver left newHead) (fun _ _ => False) (fun _ _ => True) s := by
  unfold ChainState.resolveLoopWrapping
  rw [wp_bind]
  exact wp_mono (canonicalMatch_contradicted h hc hne s) (fun _ _ hf => hf.elim) (fun _ _ h => h)

/-- A child of the tip, as the checks for a direct extension have it. -/
def Extends (newHead tip : BlockHeader) : Prop :=
  newHead.parentHash = tip.hash ∧ newHead.height = nextHeight tip.height

/-- What lets `apply` reach the ancestor search, or a height check that stops the head before it. -/
def Searched (self : ChainState) (newHead : BlockHeader) : Prop :=
  match self.tip with
  | none => newHead.height ≠ 0
  | some tip => newHead.hash ≠ tip.hash ∧ ¬ Extends newHead tip

/-- **Contradictory headers fail closed**, exactly if the head is searched for: with the hash of
another canonical header it is refused with the state, cache included, as it was. -/
theorem refused_iff (h : Agrees canon self resolver) (hc : canon newHead.hash = some canonical)
    (hne : canonical ≠ newHead) (s : ρ) :
    (∃ e s', exec (ChainState.applyWrapping resolver newHead) (self, s) = (.error e, (self, s'))) ↔
      Searched self newHead := by
  have hknown := h.not_known hc hne
  have hiff : wp (ChainState.applyWrapping resolver newHead) (fun _ _ => ¬ Searched self newHead)
      (fun _ s' => Searched self newHead ∧ s'.1 = self) (self, s) := by
    unfold ChainState.applyWrapping Searched
    rw [wp_bind, wp_get]
    dsimp only
    rw [hknown, Bool.false_or]
    split
    · rename_i hdup
      cases htip : self.tip with
      | none => simp [htip] at hdup
      | some tip =>
        simp only [htip, Option.any_some, decide_eq_true_eq] at hdup
        exact fun hs : newHead.hash ≠ tip.hash ∧ ¬ Extends newHead tip => hs.1 hdup.symm
    rename_i hdup
    cases htip : self.tip with
    | none =>
      dsimp only
      split
      · rename_i hheight
        exact ⟨hheight, rfl⟩
      · rename_i hheight
        exact fun hs : newHead.height ≠ 0 => hheight hs
    | some tip =>
      have hnew : newHead.hash ≠ tip.hash := by
        intro he
        exact hdup (by simp [htip, he])
      dsimp only
      split
      · rename_i hlink
        split
        · rename_i hheight
          exact ⟨⟨hnew, fun hchild => hheight hchild.2⟩, rfl⟩
        · rename_i hheight
          have hchild : Extends newHead tip := ⟨hlink, by simpa using hheight⟩
          exact fun hs : newHead.hash ≠ tip.hash ∧ ¬ Extends newHead tip => hs.2 hchild
      · rename_i hlink
        have hrefused : newHead.hash ≠ tip.hash ∧ ¬ Extends newHead tip :=
          ⟨hnew, fun hchild => hlink hchild.1⟩
        rw [wp_bind]
        refine wp_zoom (wp_mono (resolveLoop_contradicted h hc hne self.maxReorgDepth s) ?_ ?_)
        · exact fun _ _ hf => hf.elim
        · exact fun _ _ _ => ⟨hrefused, rfl⟩
  cases hx : exec (ChainState.applyWrapping resolver newHead) (self, s) with
  | mk r s' =>
    cases r with
    | ok batch =>
      refine iff_of_false (fun hex => ?_) (wp_ok hiff hx)
      obtain ⟨e, t, he⟩ := hex
      cases he
    | error e =>
      obtain ⟨hsearched, hsame⟩ := wp_error hiff hx
      exact iff_of_true ⟨e, s'.2, by rw [← hsame]⟩ hsearched

end

/-- The rows of a list read by a resolver from memory, as one assignment. -/
theorem memoryResolver_agrees {self : ChainState} {headers K : List BlockHeader}
    (hK : ∀ x ∈ K, K.find? (·.hash = x.hash) = some x) (hchain : ∀ x ∈ self.canonicalChain, x ∈ K) :
    Agrees (fun hash => K.find? (·.hash = hash)) self (memoryResolver headers K) where
  canonicalHeaderByHash _ _ := rfl
  canonicalHeaderAtHeight height _ := by
    intro x hx
    have hmem := List.mem_of_find?_eq_some hx
    exact ⟨by simpa using List.find?_some hx, hK x hmem⟩
  canonicalChain x hx := hK x (hchain x hx)

/-- `refused_iff` below the tip: the hash of the parent of the tip, with another parent. -/
theorem refused_below : ∃ self : ChainState, self.tip = some ⟨2, 1, 1⟩ ∧ ∃ e s',
    exec (ChainState.applyWrapping (memoryResolver [] [⟨1, 0, 0⟩, ⟨2, 1, 1⟩]) ⟨1, 9, 0⟩) (self, ()) =
      (.error e, (self, s')) := by
  obtain ⟨self, hself⟩ : ∃ self, ChainState.fromCanonicalChain [⟨1, 0, 0⟩, ⟨2, 1, 1⟩] 4 8 = .ok self :=
    ⟨_, rfl⟩
  have htracks := tracks_fromCanonicalChain hself
  have htip : self.tip = some ⟨2, 1, 1⟩ := htracks.tip
  have hagrees : Agrees (fun hash => [(⟨1, 0, 0⟩ : BlockHeader), ⟨2, 1, 1⟩].find? (·.hash = hash)) self
      (memoryResolver [] [⟨1, 0, 0⟩, ⟨2, 1, 1⟩]) :=
    memoryResolver_agrees (by decide) (fun x hx => htracks.mem_canonicalChain.1 hx)
  refine ⟨self, htip,
    (@refused_iff Unit _ self _ ⟨1, 9, 0⟩ ⟨1, 0, 0⟩ hagrees rfl (by decide) ()).2 ?_⟩
  unfold Searched Extends
  rw [htip]
  decide

/-- With the hash of the tip and another parent the head is taken for a duplicate, and the cache has
it in place of the tip. -/
theorem wrong_tip_cached : ∃ self : ChainState, ChainState.fromTip ⟨2, 1, 1⟩ 4 8 = .ok self ∧
    Agrees (fun hash => [(⟨2, 1, 1⟩ : BlockHeader)].find? (·.hash = hash)) self
      (memoryResolver [] [⟨2, 1, 1⟩]) ∧
    ∃ self' : ChainState,
      exec (ChainState.applyWrapping (memoryResolver [] [⟨2, 1, 1⟩]) ⟨2, 9, 1⟩) (self, ()) =
        (.ok { transition := .duplicate, commonAncestor := some ⟨2, 9, 1⟩, events := [] },
          (self', ())) ∧
      self.cache.get 2 = some ⟨2, 1, 1⟩ ∧ self'.cache.get 2 = some ⟨2, 9, 1⟩ := by
  refine ⟨_, rfl, memoryResolver_agrees (by decide) (fun x hx => ?_), _, rfl, by decide +kernel,
    by decide +kernel⟩
  have hholds := @holds_fromTip ⟨2, 1, 1⟩ 4 8 _ rfl
  exact hholds.mem_canonicalChain.1 hx

end Chainweave.Chain
