import Chainweave.Core.Chain

/-!
# The two walks of a reorg, and what `apply` can do

`resolve_common_ancestor` walks down from the new head, `rollback_path` down
from the tip. Each step is a lookup (`canonical_match`) or a parent step
(`parent_for`) that may be answered by the cache, by the canonical map or by the
resolver. `Steps` says once what the two give, for any resolver: `Yes` and `No`
are what a match and a miss tell about a header, `I` what the resolver keeps.

* `resolveLoop_wp`, `rollbackLoop_wp`: each walk returns a `Path`.
* `apply_wp`: every outcome of `ChainState::apply` (`Applied`), and a failure
  leaves the chain state as it was.
* `resolveLoop_gives`, `rollbackLoop_gives`: the outcome of a walk whose single
  steps are known.
-/
namespace Chainweave.Chain

open Stateful HashLink

variable {ρ : Type}

theorem isChild_iff {c p : BlockHeader} :
    IsChild c p ↔ c.parentHash = p.hash ∧ c.height = p.height + 1 := Iff.rfl

theorem validateSameHeader_ok {a b : BlockHeader} {u : Unit} :
    validateSameHeader a b = .ok u ↔ a = b := by
  unfold validateSameHeader; split <;> simp_all

theorem validateParentLink_ok {c p : BlockHeader} {u : Unit} :
    validateParentLink c p = .ok u ↔ IsChild c p := by
  unfold validateParentLink
  rw [isChild_iff]
  split
  · rename_i h; simp only [reduceCtorEq, false_iff, not_and_or]; exact h
  · rename_i h; simpa [not_or] using h

/-- What a match (`Yes`), a miss (`No`) and a parent step give, over a resolver that keeps `I`. -/
structure Steps (I : ρ → Prop) (V : Set BlockHeader) (Yes No : BlockHeader → Prop)
    (state : ChainState) (resolver : AncestryResolver ρ) : Prop where
  canonicalMatch : ∀ header ∈ V, ∀ s, I s → wp (state.canonicalMatch resolver header)
    (fun o s' => I s' ∧ match o with
      | some canonical => canonical = header ∧ Yes header
      | none => No header)
    (fun _ s' => I s') s
  parentFor : ∀ child ∈ V, ∀ s, I s → wp (state.parentFor resolver child)
    (fun parent s' => I s' ∧ parent ∈ V ∧ IsChild child parent) (fun _ s' => I s') s

section
variable {I : ρ → Prop} {V : Set BlockHeader} {Yes No : BlockHeader → Prop} {self : ChainState}
  {resolver : AncestryResolver ρ}

/-- The replacement walk: down from `current` over misses to a match. -/
theorem resolveLoop_wp (hw : Steps I V Yes No self resolver) :
    ∀ (left : Nat) (current : BlockHeader), current ∈ V → ∀ s, I s →
      wp (self.resolveLoop resolver left current)
        (fun r s' => I s' ∧ Path current r.2 r.1 ∧ r.2.length ≤ left ∧ r.1 ∈ V ∧ Yes r.1 ∧
          ∀ x ∈ r.2, x ∈ V ∧ No x)
        (fun _ s' => I s') s := by
  intro left
  induction left with
  | zero =>
    intro current hc s hs
    unfold ChainState.resolveLoop
    rw [wp_bind]
    refine wp_mono (hw.canonicalMatch current hc s hs) ?_ (fun _ _ h => h)
    rintro (_ | canonical) s' ⟨hI, h⟩
    · exact hI
    · obtain ⟨rfl, hy⟩ := h
      exact ⟨hI, .nil _, Nat.zero_le _, hc, hy, by simp⟩
  | succ left ih =>
    intro current hc s hs
    unfold ChainState.resolveLoop
    rw [wp_bind]
    refine wp_mono (hw.canonicalMatch current hc s hs) ?_ (fun _ _ h => h)
    rintro (_ | canonical) s' ⟨hI, h⟩
    · rw [wp_bind]
      refine wp_mono (hw.parentFor current hc s' hI) ?_ (fun _ _ h => h)
      intro parent s'' hpost
      rcases hpost with ⟨hI', hp, hch⟩
      rw [wp_bind]
      refine wp_mono (ih parent hp s'' hI') ?_ (fun _ _ h => h)
      rintro ⟨ancestor, descending⟩ t ⟨hI'', hpath, hlen, ha, hy, hmem⟩
      refine ⟨hI'', .cons hch hpath, by simpa using hlen, ha, hy, ?_⟩
      intro x hx
      rcases List.mem_cons.1 hx with rfl | hx
      · exact ⟨hc, h⟩
      · exact hmem x hx
    · obtain ⟨rfl, hy⟩ := h
      exact ⟨hI, .nil _, Nat.zero_le _, hc, hy, by simp⟩

/-- The rollback walk: down from `current` to a block at or below the ancestor's height with the
ancestor's hash. -/
theorem rollbackLoop_wp (hw : Steps I V Yes No self resolver) (ancestor : BlockHeader) :
    ∀ (left : Nat) (current : BlockHeader), current ∈ V → ∀ s, I s →
      wp (self.rollbackLoop resolver ancestor left current)
        (fun xs s' => I s' ∧ (∃ b ∈ V, Path current xs b ∧ b.height ≤ ancestor.height ∧
            b.hash = ancestor.hash) ∧ xs.length ≤ left ∧
          ∀ x ∈ xs, x ∈ V ∧ ancestor.height < x.height)
        (fun _ s' => I s') s := by
  intro left
  induction left with
  | zero =>
    intro current hc s hs
    unfold ChainState.rollbackLoop
    split
    · exact hs
    split
    · exact hs
    rename_i hh hn
    exact ⟨hs, ⟨current, hc, .nil _, Nat.le_of_not_lt hh, by simpa using hn⟩, Nat.zero_le _, by simp⟩
  | succ left ih =>
    intro current hc s hs
    unfold ChainState.rollbackLoop
    split
    · rename_i hlt
      rw [wp_bind]
      refine wp_mono (hw.parentFor current hc s hs) ?_ (fun _ _ h => h)
      intro parent s' hpost
      rcases hpost with ⟨hI, hp, hch⟩
      rw [wp_bind]
      refine wp_mono (ih parent hp s' hI) ?_ (fun _ _ h => h)
      intro xs t hpost
      rcases hpost with ⟨hI', ⟨b, hb, hpath, hle, hhash⟩, hlen, hmem⟩
      refine ⟨hI', ⟨b, hb, .cons hch hpath, hle, hhash⟩, by simpa using hlen, ?_⟩
      intro x hx
      rcases List.mem_cons.1 hx with rfl | hx
      · exact ⟨hc, hlt⟩
      · exact hmem x hx
    · split
      · exact hs
      rename_i hh hn
      exact ⟨hs, ⟨current, hc, .nil _, Nat.le_of_not_lt hh, by simpa using hn⟩, Nat.zero_le _,
        by simp⟩

/-- The rollback walk ends at the ancestor itself. -/
theorem rollbackLoop_wp_path (hV : HashId V) (hw : Steps I V Yes No self resolver)
    {ancestor : BlockHeader} (ha : ancestor ∈ V) (left : Nat) {tip : BlockHeader} (ht : tip ∈ V)
    {s : ρ} (hs : I s) :
    wp (self.rollbackLoop resolver ancestor left tip)
      (fun xs s' => I s' ∧ Path tip xs ancestor ∧ xs.length ≤ left ∧ ∀ x ∈ xs, x ∈ V)
      (fun _ s' => I s') s := by
  refine wp_mono (rollbackLoop_wp hw ancestor left tip ht s hs) ?_ (fun _ _ h => h)
  intro xs s' hpost
  rcases hpost with ⟨hI, ⟨b, hb, hp, -, hhash⟩, hlen, hmem⟩
  obtain rfl : b = ancestor := hV hb ha hhash
  exact ⟨hI, hp, hlen, fun x hx => (hmem x hx).1⟩

end

/-! ## `apply` -/

/-- Every way `ChainState::apply` returns: the batch, and the state it leaves. -/
inductive Applied (V : Set BlockHeader) (Yes No : BlockHeader → Prop) (self : ChainState)
    (newHead : BlockHeader) : ChainBatch → ChainState → Prop
  | duplicate (h : self.isKnownCanonical newHead = true ∨ self.tip.any (·.hash = newHead.hash) = true) :
      Applied V Yes No self newHead
        { transition := .duplicate, commonAncestor := some newHead, events := [] }
        { self with cache := self.cache.insert newHead }
  | bootstrap {batch : ChainBatch} (htip : self.tip = none) (hheight : newHead.height = 0)
      (hbatch : batch =
        { transition := .bootstrap, commonAncestor := none, events := [.apply newHead] }) :
      Applied V Yes No self newHead batch (self.commit batch)
  | extend {batch : ChainBatch} {tip : BlockHeader} (htip : self.tip = some tip)
      (hchild : IsChild newHead tip)
      (hbatch : batch =
        { transition := .extend, commonAncestor := some tip, events := [.apply newHead] }) :
      Applied V Yes No self newHead batch (self.commit batch)
  | resolved {batch : ChainBatch} {tip ancestor : BlockHeader} {rollbacks descending : List BlockHeader}
      (htip : self.tip = some tip) (hknown : self.isKnownCanonical newHead = false)
      (hnew : newHead.hash ≠ tip.hash) (hlink : newHead.parentHash ≠ tip.hash)
      (happly : Path newHead descending ancestor) (hroll : Path tip rollbacks ancestor)
      (hancestor : ancestor ∈ V) (hmatch : Yes ancestor) (hmiss : ∀ x ∈ descending, x ∈ V ∧ No x)
      (hold : ∀ x ∈ rollbacks, x ∈ V)
      (happly_len : descending.length ≤ self.maxReorgDepth)
      (hroll_len : rollbacks.length ≤ self.maxReorgDepth)
      (hfinal : ∀ f ∈ self.finalizedHeight, f ≤ ancestor.height)
      (hbatch : batch =
        { transition :=
            ChainState.resolvedTransition (rollbacks.map .rollback ++ descending.reverse.map .apply)
          commonAncestor := some ancestor
          events := rollbacks.map .rollback ++ descending.reverse.map .apply }) :
      Applied V Yes No self newHead batch (self.commit batch)

theorem enforceFinalizedBoundary_ok {self : ChainState} {a : BlockHeader} {u : Unit} :
    self.enforceFinalizedBoundary a = .ok u ↔ ∀ f ∈ self.finalizedHeight, f ≤ a.height := by
  unfold ChainState.enforceFinalizedBoundary
  cases self.finalizedHeight with
  | none => simp
  | some f =>
    simp only [Option.mem_def, Option.some.injEq, forall_eq']
    split <;> simp_all

section
variable {I : ρ → Prop} {V : Set BlockHeader} {Yes No : BlockHeader → Prop} {self : ChainState}
  {resolver : AncestryResolver ρ}

/-- **What `apply` does.** It returns one of the outcomes of `Applied`, or fails and leaves the
chain state, cache included, as it was. -/
theorem apply_wp (hV : HashId V) (hw : Steps I V Yes No self resolver)
    (htV : ∀ tip ∈ self.tip, tip ∈ V) {newHead : BlockHeader} (hnV : newHead ∈ V) {s : ρ} (hs : I s) :
    wp (ChainState.apply resolver newHead)
      (fun batch s' => I s'.2 ∧ Applied V Yes No self newHead batch s'.1)
      (fun _ s' => I s'.2 ∧ s'.1 = self) (self, s) := by
  unfold ChainState.apply
  rw [wp_bind, wp_get]
  dsimp only
  split
  · rename_i h
    exact ⟨hs, .duplicate (by simpa using h)⟩
  rename_i hdup
  simp only [Bool.or_eq_true, not_or] at hdup
  split
  · rename_i htip
    split
    · exact ⟨hs, rfl⟩
    · rename_i hh
      exact ⟨hs, .bootstrap htip (by simpa using hh) rfl⟩
  rename_i tip htip
  split
  · rename_i hlink
    split
    · exact ⟨hs, rfl⟩
    · rename_i hh
      exact ⟨hs, .extend htip ⟨hlink, by simpa using hh⟩ rfl⟩
  rename_i hlink
  have htV' := htV tip (by simp [htip])
  rw [wp_bind]
  refine wp_zoom (wp_mono (resolveLoop_wp hw self.maxReorgDepth newHead hnV s hs) ?_ ?_)
  swap
  · exact fun _ _ h => ⟨h, rfl⟩
  rintro ⟨ancestor, descending⟩ s1 ⟨hI1, hpath, hlen, haV, hy, hmem⟩
  rw [wp_bind, wp_lift]
  refine ⟨?_, fun _ _ => ⟨hI1, rfl⟩⟩
  intro _ hfin
  rw [wp_bind]
  refine wp_zoom (wp_mono (rollbackLoop_wp_path hV hw haV self.maxReorgDepth htV' hI1) ?_ ?_)
  swap
  · exact fun _ _ h => ⟨h, rfl⟩
  intro rollbacks s2 hpost
  rcases hpost with ⟨hI2, hroll, hrlen, hrmem⟩
  refine ⟨hI2, .resolved htip (by simpa using hdup.1) ?_ hlink hpath hroll haV hy hmem hrmem hlen hrlen
    (enforceFinalizedBoundary_ok.1 hfin) rfl⟩
  intro he
  exact hdup.2 (by simp [htip, he])

end

/-! ## Walks whose steps are known -/

section
variable {I : ρ → Prop} {self : ChainState} {resolver : AncestryResolver ρ}

/-- One step more, before a walk of `n` steps with `left` of them allowed. -/
theorem gives_step {ε α β : Type} {x : Prog ρ ε α} {f : α → Prog ρ ε β} {n left : Nat} {a : α} {b : β}
    {e : ε} (h : Gives I x (if n ≤ left then .ok a else .error e)) (hf : Gives I (f a) (.ok b)) :
    Gives I (x >>= f) (if n + 1 ≤ left + 1 then .ok b else .error e) := by
  by_cases hle : n ≤ left
  · rw [if_pos hle] at h
    rw [if_pos (by omega)]
    exact h.bind hf
  · rw [if_neg hle] at h
    rw [if_neg (by omega)]
    exact h.bind_error

/-- The replacement walk over a path of misses down to a match: it returns the path, or stops at
the depth limit when the path is longer. -/
theorem resolveLoop_gives {x a : BlockHeader} {xs : List BlockHeader} (hp : Path x xs a)
    (hmiss : ∀ y ∈ xs, Gives I (self.canonicalMatch resolver y) (.ok none))
    (hmatch : Gives I (self.canonicalMatch resolver a) (.ok (some a)))
    (hstep : ∀ y z, y ∈ xs → (z ∈ xs ∨ z = a) → IsChild y z →
      Gives I (self.parentFor resolver y) (.ok z)) (left : Nat) :
    Gives I (self.resolveLoop resolver left x)
      (if xs.length ≤ left then .ok (a, xs) else .error (.maxDepthExceeded self.maxReorgDepth)) := by
  induction hp generalizing left with
  | nil =>
    unfold ChainState.resolveLoop
    simp only [List.length_nil, Nat.zero_le, if_true]
    exact hmatch.bind (.pure _)
  | @cons x y a xs hc hp ih =>
    unfold ChainState.resolveLoop
    refine (hmiss x (by simp)).bind ?_
    cases left with
    | zero => simpa using .throw _
    | succ left =>
      refine (hstep x y (by simp) (hp.start_mem.imp (List.mem_cons_of_mem _) id) hc).bind ?_
      have h := ih (fun z hz => hmiss z (List.mem_cons_of_mem _ hz)) hmatch
        (fun z w hz hw => hstep z w (List.mem_cons_of_mem _ hz)
          (hw.imp (List.mem_cons_of_mem _) id)) left
      exact gives_step h (.pure _)

/-- The rollback walk over a path down to the ancestor: it returns the path, or stops at the depth
limit when the path is longer. -/
theorem rollbackLoop_gives {x a : BlockHeader} {xs : List BlockHeader} (hp : Path x xs a)
    (hstep : ∀ y z, y ∈ xs → (z ∈ xs ∨ z = a) → IsChild y z →
      Gives I (self.parentFor resolver y) (.ok z)) (left : Nat) :
    Gives I (self.rollbackLoop resolver a left x)
      (if xs.length ≤ left then .ok xs else .error (.maxDepthExceeded self.maxReorgDepth)) := by
  induction hp generalizing left with
  | nil a =>
    have h0 : self.rollbackLoop resolver a left a = pure [] := by
      cases left <;> simp [ChainState.rollbackLoop]
    rw [h0]
    simpa using .pure _
  | @cons x y a xs hc hp ih =>
    have hlt : a.height < x.height := by
      have h1 : x.height = y.height + 1 := hc.2
      have h2 : y.height = a.height + xs.length := hp.height_eq
      omega
    unfold ChainState.rollbackLoop
    rw [if_pos hlt]
    cases left with
    | zero => simpa using .throw _
    | succ left =>
      refine (hstep x y (by simp) (hp.start_mem.imp (List.mem_cons_of_mem _) id) hc).bind ?_
      have h := ih (fun z w hz hw => hstep z w (List.mem_cons_of_mem _ hz)
        (hw.imp (List.mem_cons_of_mem _) id)) left
      exact gives_step h (.pure _)

end

end Chainweave.Chain
