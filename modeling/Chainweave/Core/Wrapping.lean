import Chainweave.Core.Backfill
import Chainweave.Core.ChainHolds

/-!
# Heights at the end of `u64`

Three checks of `crates/chainweave-core/src/chain.rs` add one to a `u64` height
(lines 219, 300 and 526). A debug build panics when the sum overflows; a release
build wraps, and that is the build here. The functions with such a sum, and
those that call them, are written again with `nextHeight` in its place.

* `exec_parentForWrapping`: `parent_for` refuses a child of height 0 before it
  compares heights, so the walks never see the wrap.
* `exec_applyWrapping`, `applyWrapping_wraps`: `apply` is the one over `Nat`
  except on a new head of height 0 that names a tip at `u64::MAX` as its parent
  (`Wraps`), which it takes for an extension.
* `shapeKept_iff`: every transition has its shape exactly if its head is no such
  head.
* `describes_inMemory`: over runs without such a head, and without one that only
  the resolver knows, every state describes its chain.
-/
namespace Chainweave.Chain

open Stateful HashLink Chainweave.Backfill

/-- `height + 1` of a `u64` height in a release build. -/
def nextHeight (height : Nat) : Nat := if height = u64Max then 0 else height + 1

/-- It is the sum of 64-bit words. -/
theorem nextHeight_eq_mod {height : Nat} (h : height ≤ u64Max) :
    nextHeight height = (height + 1) % 2 ^ 64 := by
  unfold nextHeight
  split
  · rename_i he
    subst he
    rfl
  · rename_i hne
    unfold u64Max at h hne
    exact (Nat.mod_eq_of_lt (by omega)).symm

/-- Below `u64::MAX` there is a next height, and nothing else has it. -/
theorem eq_nextHeight {child parent : Nat} (hpos : child ≠ 0) (hu : child ≤ u64Max) :
    child = nextHeight parent ↔ child = parent + 1 := by
  unfold nextHeight
  split
  · omega
  · exact Iff.rfl

/-- mirrors crates/chainweave-core/src/chain.rs:525-535 -/
def validateParentLinkWrapping (child parent : BlockHeader) : Except ChainError Unit :=
  if child.parentHash ≠ parent.hash ∨ child.height ≠ nextHeight parent.height then
    .error (.invalidParentLink child.height parent.height child.parentHash parent.hash)
  else .ok ()

namespace ChainState

/-- mirrors crates/chainweave-core/src/chain.rs:215-224 -/
def brokenLinkWrapping : List BlockHeader → Option Nat
  | parent :: child :: headers =>
    if child.height ≠ nextHeight parent.height ∨ child.parentHash ≠ parent.hash then
      some child.height
    else brokenLinkWrapping (child :: headers)
  | _ => none

/-- mirrors crates/chainweave-core/src/chain.rs:206-231 -/
def fromCanonicalChainWrapping (headers : List BlockHeader) (headerCacheSize maxReorgDepth : Nat) :
    Except ChainError ChainState := do
  if headers.isEmpty then throw .emptyCanonicalChain
  let state ← new headerCacheSize maxReorgDepth
  match brokenLinkWrapping headers with
  | some height => throw (.brokenCanonicalChain height)
  | none => return { headers.foldl insertCanonical state with tip := headers.getLast? }

variable {ρ : Type} (self : ChainState) (resolver : AncestryResolver ρ)

/-- mirrors crates/chainweave-core/src/chain.rs:423-453 -/
def parentForWrapping (child : BlockHeader) : Prog ρ ChainError BlockHeader := do
  if child.height = 0 then throw (.missingParent child.parentHash)
  else
    match ← self.lookupParent resolver child with
    | none => throw (.missingParent child.parentHash)
    | some parent =>
      lift (validateParentLinkWrapping child parent)
      pure parent

/-- The loop of `resolve_common_ancestor`, as `resolveLoop`. -/
def resolveLoopWrapping : Nat → BlockHeader → Prog ρ ChainError (BlockHeader × List BlockHeader)
  | left, current => do
    match ← self.canonicalMatch resolver current with
    | some canonical => pure (canonical, [])
    | none =>
      match left with
      | 0 => throw (.maxDepthExceeded self.maxReorgDepth)
      | left + 1 =>
        let parent ← self.parentForWrapping resolver current
        let (ancestor, descending) ← resolveLoopWrapping left parent
        pure (ancestor, current :: descending)

/-- mirrors crates/chainweave-core/src/chain.rs:347-369 -/
def resolveCommonAncestorWrapping (newHead : BlockHeader) :
    Prog ρ ChainError (BlockHeader × List BlockHeader) :=
  self.resolveLoopWrapping resolver self.maxReorgDepth newHead

/-- The loop of `rollback_path`, as `rollbackLoop`. -/
def rollbackLoopWrapping (ancestor : BlockHeader) :
    Nat → BlockHeader → Prog ρ ChainError (List BlockHeader)
  | left, current =>
    if ancestor.height < current.height then
      match left with
      | 0 => throw (.maxDepthExceeded self.maxReorgDepth)
      | left + 1 => do
        let parent ← self.parentForWrapping resolver current
        let rollbacks ← rollbackLoopWrapping ancestor left parent
        pure (current :: rollbacks)
    else if current.hash ≠ ancestor.hash then throw (.missingParent ancestor.hash)
    else pure []

/-- mirrors crates/chainweave-core/src/chain.rs:371-397 -/
def rollbackPathWrapping (tip ancestor : BlockHeader) : Prog ρ ChainError (List BlockHeader) :=
  self.rollbackLoopWrapping resolver ancestor self.maxReorgDepth tip

end ChainState

namespace ChainState

variable {ρ : Type} (resolver : AncestryResolver ρ)

/-- mirrors crates/chainweave-core/src/chain.rs:268-345 -/
def applyWrapping (newHead : BlockHeader) : Prog (ChainState × ρ) ChainError ChainBatch := do
  let (self, _) ← get
  if self.isKnownCanonical newHead || self.tip.any (·.hash = newHead.hash) then
    modifySelf fun self => { self with cache := self.cache.insert newHead }
    pure { transition := .duplicate, commonAncestor := some newHead, events := [] }
  else
    match self.tip with
    | none =>
      if newHead.height ≠ 0 then throw (.missingParent newHead.parentHash)
      else
        let batch : ChainBatch :=
          { transition := .bootstrap, commonAncestor := none, events := [.apply newHead] }
        modifySelf (·.commit batch)
        pure batch
    | some tip =>
      if newHead.parentHash = tip.hash then
        if newHead.height ≠ nextHeight tip.height then
          throw (.invalidExtensionHeight newHead.height tip.height)
        else
          let batch : ChainBatch :=
            { transition := .extend, commonAncestor := some tip, events := [.apply newHead] }
          modifySelf (·.commit batch)
          pure batch
      else
        let (ancestor, descending) ←
          onResolver (self.resolveCommonAncestorWrapping resolver newHead)
        lift (self.enforceFinalizedBoundary ancestor)
        let rollbacks ← onResolver (self.rollbackPathWrapping resolver tip ancestor)
        let events := rollbacks.map .rollback ++ descending.reverse.map .apply
        let batch : ChainBatch :=
          { transition := resolvedTransition events, commonAncestor := some ancestor, events }
        modifySelf (·.commit batch)
        pure batch

end ChainState

/-! ## Where the wrap shows -/

section
variable {ρ : Type} {self : ChainState} {resolver : AncestryResolver ρ} {newHead : BlockHeader}

theorem validateParentLinkWrapping_eq {child parent : BlockHeader} (hpos : child.height ≠ 0)
    (hu : child.height ≤ u64Max) :
    validateParentLinkWrapping child parent = validateParentLink child parent := by
  unfold validateParentLinkWrapping validateParentLink
  simp only [ne_eq, eq_nextHeight hpos hu]

theorem parentForWrapping_eq {child : BlockHeader} (hu : child.height ≤ u64Max) :
    self.parentForWrapping resolver child = self.parentFor resolver child := by
  unfold ChainState.parentForWrapping ChainState.parentFor
  split
  · rfl
  · rename_i hpos
    refine bind_congr fun found => ?_
    cases found with
    | none => rfl
    | some parent =>
      show (lift (validateParentLinkWrapping child parent) >>= fun _ => pure parent) =
        (lift (validateParentLink child parent) >>= fun _ => pure parent : Prog ρ ChainError BlockHeader)
      rw [validateParentLinkWrapping_eq hpos hu]

/-- A parent step goes one down, so what follows it is asked of a `u64` height again. -/
theorem exec_parentFor_bind {α : Type} {child : BlockHeader} (hu : child.height ≤ u64Max)
    {f g : BlockHeader → Prog ρ ChainError α}
    (hfg : ∀ parent s, parent.height ≤ u64Max → exec (f parent) s = exec (g parent) s) (s : ρ) :
    exec (self.parentForWrapping resolver child >>= f) s =
      exec (self.parentFor resolver child >>= g) s := by
  rw [parentForWrapping_eq hu, exec_bind, exec_bind]
  have hwithin : Within Set.univ self := ⟨by simp, by simp, by simp⟩
  have hstep := @parentFor_wp ρ Set.univ self resolver hwithin child (fun _ => True) s trivial
    (wp_of_eq rfl (fun _ _ => by simp) (fun _ _ => trivial))
  cases hx : exec (self.parentFor resolver child) s with
  | mk r s' =>
    cases r with
    | error e => rfl
    | ok parent =>
      have hlink : IsChild child parent := (wp_ok hstep hx).2.2
      have hheight : child.height = parent.height + 1 := hlink.2
      exact hfg parent s' (by omega)

theorem exec_resolveLoopWrapping (left : Nat) {current : BlockHeader} (hu : current.height ≤ u64Max)
    (s : ρ) :
    exec (self.resolveLoopWrapping resolver left current) s =
      exec (self.resolveLoop resolver left current) s := by
  induction left generalizing current s with
  | zero =>
    unfold ChainState.resolveLoopWrapping ChainState.resolveLoop
    rfl
  | succ left ih =>
    unfold ChainState.resolveLoopWrapping ChainState.resolveLoop
    rw [exec_bind, exec_bind]
    cases hx : exec (self.canonicalMatch resolver current) s with
    | mk r s' =>
      cases r with
      | error e => rfl
      | ok o =>
        cases o with
        | some canonical => rfl
        | none =>
          refine exec_parentFor_bind hu (fun parent s hp => ?_) s'
          rw [exec_bind, exec_bind, ih hp s]

theorem exec_rollbackLoopWrapping {ancestor : BlockHeader} (left : Nat) {current : BlockHeader}
    (hu : current.height ≤ u64Max) (s : ρ) :
    exec (self.rollbackLoopWrapping resolver ancestor left current) s =
      exec (self.rollbackLoop resolver ancestor left current) s := by
  induction left generalizing current s with
  | zero =>
    unfold ChainState.rollbackLoopWrapping ChainState.rollbackLoop
    rfl
  | succ left ih =>
    unfold ChainState.rollbackLoopWrapping ChainState.rollbackLoop
    split
    · refine exec_parentFor_bind hu (fun parent s hp => ?_) s
      rw [exec_bind, exec_bind, ih hp s]
    · rfl

theorem exec_onResolver {α : Type} {x y : Prog ρ ChainError α} (h : ∀ s, exec x s = exec y s)
    (t : ChainState × ρ) : exec (ChainState.onResolver x) t = exec (ChainState.onResolver y) t := by
  unfold ChainState.onResolver
  rw [exec_zoom, exec_zoom, h]

/-- A new head of height 0 that names a tip at `u64::MAX` as its parent. -/
def Wraps (self : ChainState) (newHead : BlockHeader) : Prop :=
  self.isKnownCanonical newHead = false ∧ newHead.height = 0 ∧
    ∃ tip ∈ self.tip, tip.height = u64Max ∧ newHead.hash ≠ tip.hash ∧ newHead.parentHash = tip.hash

/-- The head such a step is taken for an extension of the tip. -/
theorem applyWrapping_wraps (resolver : AncestryResolver ρ) (h : Wraps self newHead) (s : ρ) :
    ∃ tip ∈ self.tip, tip.height = u64Max ∧ ∃ batch : ChainBatch,
      batch = { transition := .extend, commonAncestor := some tip, events := [.apply newHead] } ∧
      exec (ChainState.applyWrapping resolver newHead) (self, s) =
        (.ok batch, (self.commit batch, s)) := by
  obtain ⟨hknown, hheight, tip, htip, hmax, hnew, hlink⟩ := h
  refine ⟨tip, htip, hmax, _, rfl, ?_⟩
  have hsome : self.tip = some tip := htip
  have hfirst : (self.isKnownCanonical newHead || self.tip.any (·.hash = newHead.hash)) = false := by
    simp [hknown, hsome, Ne.symm hnew]
  have hnext : newHead.height = nextHeight tip.height := by simp [nextHeight, hheight, hmax]
  unfold ChainState.applyWrapping
  rw [exec_bind, exec_get]
  dsimp only
  rw [hfirst, hsome]
  simp only [Bool.false_eq_true, if_false, if_pos hlink, hnext, ne_eq, not_true_eq_false]
  rfl

/-- **On every other head `apply` adds as over `Nat`.** -/
theorem exec_applyWrapping (resolver : AncestryResolver ρ) (hu : newHead.height ≤ u64Max)
    (htip : ∀ tip ∈ self.tip, tip.height ≤ u64Max) (h : ¬ Wraps self newHead) (s : ρ) :
    exec (ChainState.applyWrapping resolver newHead) (self, s) =
      exec (ChainState.apply resolver newHead) (self, s) := by
  unfold ChainState.applyWrapping ChainState.apply
  rw [exec_bind, exec_bind, exec_get]
  dsimp only
  split
  · rfl
  rename_i hdup
  simp only [Bool.or_eq_true, not_or] at hdup
  cases hsome : self.tip with
  | none => rfl
  | some tip =>
    dsimp only
    have hmax : tip.height ≤ u64Max := htip tip hsome
    split
    · rename_i hlink
      have hnext : newHead.height = nextHeight tip.height ↔ newHead.height = tip.height + 1 := by
        by_cases hzero : newHead.height = 0
        · refine iff_of_false (fun hn => h ?_) (by omega)
          refine ⟨by simpa using hdup.1, hzero, tip, hsome, ?_, ?_, hlink⟩
          · unfold nextHeight at hn
            split at hn
            · assumption
            · omega
          · intro he
            exact hdup.2 (by simp [hsome, he])
        · exact eq_nextHeight hzero hu
      simp only [ne_eq, hnext]
    · have hresolve (t : ChainState × ρ) :
          exec (ChainState.onResolver (self.resolveCommonAncestorWrapping resolver newHead)) t =
            exec (ChainState.onResolver (self.resolveCommonAncestor resolver newHead)) t :=
        exec_onResolver (exec_resolveLoopWrapping self.maxReorgDepth hu) t
      have hrollback (ancestor : BlockHeader) (t : ChainState × ρ) :
          exec (ChainState.onResolver (self.rollbackPathWrapping resolver tip ancestor)) t =
            exec (ChainState.onResolver (self.rollbackPath resolver tip ancestor)) t :=
        exec_onResolver (exec_rollbackLoopWrapping self.maxReorgDepth hmax) t
      simp only [exec_bind, hresolve, hrollback]

end

/-! ## Reachable states -/

/-- Every height fits `u64`. -/
def FitsU64 (V : Set BlockHeader) : Prop := ∀ x ∈ V, x.height ≤ u64Max

/-- As `Reachable`, with the sums of a release build. -/
inductive ReachableWrapping (V : Set BlockHeader) : ChainState → Prop
  | new {size depth : Nat} {self : ChainState} (h : ChainState.new size depth = .ok self) :
      ReachableWrapping V self
  | fromTip {tip : BlockHeader} {size depth : Nat} {self : ChainState} (ht : tip ∈ V)
      (h : ChainState.fromTip tip size depth = .ok self) : ReachableWrapping V self
  | fromCanonicalChain {headers : List BlockHeader} {size depth : Nat} {self : ChainState}
      (hh : ∀ x ∈ headers, x ∈ V)
      (h : ChainState.fromCanonicalChainWrapping headers size depth = .ok self) :
      ReachableWrapping V self
  | setFinalizedHeight {self : ChainState} (finalizedHeight : Option Nat)
      (h : ReachableWrapping V self) : ReachableWrapping V (self.setFinalizedHeight finalizedHeight)
  | apply {self : ChainState} {ρ : Type} {resolver : AncestryResolver ρ} {newHead : BlockHeader}
      (s : ρ) (h : ReachableWrapping V self) (hr : HeadersIn V resolver) (hn : newHead ∈ V) :
      ReachableWrapping V (exec (ChainState.applyWrapping resolver newHead) (self, s)).2.1

theorem fromCanonicalChainWrapping_eq {headers : List BlockHeader} {size depth : Nat}
    {self : ChainState}
    (h : ChainState.fromCanonicalChainWrapping headers size depth = .ok self) :
    ChainState.brokenLinkWrapping headers = none ∧ ∃ empty, ChainState.new size depth = .ok empty ∧
      self = { headers.foldl ChainState.insertCanonical empty with tip := headers.getLast? } := by
  unfold ChainState.fromCanonicalChainWrapping at h
  cases headers with
  | nil => cases h
  | cons x headers =>
    cases hn : ChainState.new size depth with
    | error e => rw [hn] at h; cases h
    | ok empty =>
      rw [hn] at h
      cases hb : ChainState.brokenLinkWrapping (x :: headers) with
      | some height => simp [hb, bind, Except.bind] at h
      | none =>
        simp only [hb, bind, Except.bind] at h
        exact ⟨rfl, empty, rfl, (Except.ok.inj h).symm⟩

section
variable {V : Set BlockHeader} {ρ : Type} {self : ChainState} {resolver : AncestryResolver ρ}
  {newHead : BlockHeader}

/-- An apply keeps the headers in `V`; one that failed changes nothing. -/
theorem Within.applyWrapping (hV : HashId V) (hu : FitsU64 V) (hself : Within V self)
    (hr : HeadersIn V resolver) (hn : newHead ∈ V) (s : ρ) :
    wp (ChainState.applyWrapping resolver newHead) (fun _ s' => Within V s'.1)
      (fun _ s' => s'.1 = self) (self, s) := by
  by_cases hw : Wraps self newHead
  · obtain ⟨tip, htip, -, batch, hb, hx⟩ := applyWrapping_wraps resolver hw s
    have hin : Within V (self.commit batch) := by
      subst hb
      exact hself.commit (by simpa [ChainEvent.header]) (by simpa using hself.tip tip htip)
    exact wp_of_eq hx (fun _ _ => hin) (fun _ he => by cases he)
  · have heq := exec_applyWrapping resolver (hu newHead hn)
      (fun tip ht => hu tip (hself.tip tip ht)) hw s
    have h := apply_wp_any hV hself hr hn s
    unfold wp at h ⊢
    rw [heq]
    split at h
    · exact h.within hself hn
    · exact h

theorem reachableWrapping_within (hV : HashId V) (hu : FitsU64 V) (h : ReachableWrapping V self) :
    Within V self := by
  induction h with
  | new h => exact within_new h
  | fromTip ht h => exact reachable_within hV (.fromTip ht h)
  | fromCanonicalChain hh h =>
    obtain ⟨-, empty, hn, rfl⟩ := fromCanonicalChainWrapping_eq h
    exact { within_foldl (within_new hn) hh with
      tip := fun x hx => hh x (List.mem_of_getLast? hx) }
  | setFinalizedHeight f _ ih => exact ⟨ih.tip, ih.cache, ih.canonical⟩
  | apply s _ hr hn ih =>
    have h := ih.applyWrapping hV hu hr hn s
    unfold wp at h
    split at h
    · rename_i he; rw [he]; exact h
    · rename_i he; rw [he]; exact h ▸ ih

/-! ## The shape -/

/-- What an apply from here returns over a tip, with events, has the shape of a transition. -/
def ShapeKept (self : ChainState) (resolver : AncestryResolver ρ) (s : ρ) (newHead : BlockHeader) :
    Prop :=
  ∀ (tip : BlockHeader) (batch : ChainBatch), self.tip = some tip →
    (exec (ChainState.applyWrapping resolver newHead) (self, s)).1 = .ok batch →
    batch.events ≠ [] → ∃ rollbacks applies ancestor,
      TransitionShape self tip newHead batch rollbacks applies ancestor

/-- An extension that wraps is no child of the block it extends. -/
theorem Wraps.not_shapeKept (hw : Wraps self newHead) (resolver : AncestryResolver ρ) (s : ρ) :
    ¬ ShapeKept self resolver s newHead := by
  intro hshape
  obtain ⟨tip, htip, -, batch, rfl, hx⟩ := applyWrapping_wraps resolver hw s
  obtain ⟨rollbacks, applies, ancestor, h⟩ := hshape tip _ htip (by rw [hx]) (by simp)
  -- The only apply is the head, and the common ancestor is the tip.
  have hevents := h.events
  cases rollbacks with
  | cons x rollbacks => simp at hevents
  | nil =>
    have happlies : applies = [newHead] := by
      have hmap : applies.map ChainEvent.apply = [newHead].map ChainEvent.apply := hevents.symm
      exact List.map_injective_iff.2 (fun a b hab => by cases hab; rfl) hmap
    have hchild : IsChild newHead ancestor := h.first_apply newHead (by simp [happlies])
    have hzero : newHead.height = 0 := hw.2.1
    have hnext : newHead.height = ancestor.height + 1 := hchild.2
    omega

/-- **Shape and limits of every transition.** From every reachable state a non-empty batch over a tip
rolls back a walk down from the tip to the common ancestor and applies a walk up from it to the new
head, each at most `max_reorg_depth` long, with nothing rolled back at or below the finalized height,
exactly if the head is no new head of height 0 on a tip at `u64::MAX`. -/
theorem shapeKept_iff (hV : HashId V) (hu : FitsU64 V) (hself : ReachableWrapping V self)
    (hr : HeadersIn V resolver) (hn : newHead ∈ V) (s : ρ) :
    ShapeKept self resolver s newHead ↔ ¬ Wraps self newHead := by
  have hwithin := reachableWrapping_within hV hu hself
  constructor
  · exact fun hshape hw => hw.not_shapeKept resolver s hshape
  · intro hw tip batch htip hx hne
    rw [exec_applyWrapping resolver (hu newHead hn) (fun t ht => hu t (hwithin.tip t ht)) hw] at hx
    exact apply_shape hV hwithin hr hn htip hx hne

end

/-! ## The chain described -/

section
variable {V : Set BlockHeader} {ρ : Type} {self : ChainState} {resolver : AncestryResolver ρ}
  {newHead : BlockHeader}

/-- With the head on top the tip is a block of height 0, over a map that has `u64::MAX`. -/
theorem Wraps.not_describes (hw : Wraps self newHead) (hd : Describes self) {tip : BlockHeader}
    (htip : self.tip = some tip) (hmax : tip.height = u64Max) {batch : ChainBatch}
    (hev : batch.events = [.apply newHead]) :
    (self.commit batch).tip = some newHead ∧ ¬ Describes (self.commit batch) := by
  have hnew : (self.commit batch).tip = some newHead := commit_tip_apply (by rw [hev]; rfl)
  refine ⟨hnew, fun hd' => ?_⟩
  have hzero : newHead.height = 0 := hw.2.1
  obtain ⟨L, hL⟩ := describes_iff.1 hd
  obtain ⟨L', hL'⟩ := describes_iff.1 hd'
  have hmem : tip ∈ L := List.mem_of_getLast? (hL.tip.symm.trans htip)
  have hold : (self.commit batch).canonicalByHeight[tip.height]? = some tip := by
    have hcommit : self.commit batch = { self.insertCanonical newHead with tip := some newHead } := by
      unfold ChainState.commit
      rw [hev]
      rfl
    have hne : newHead.height ≠ tip.height := by
      rw [hzero, hmax]
      decide
    rw [hcommit]
    unfold ChainState.insertCanonical
    dsimp only
    rw [Std.TreeMap.getElem?_insert, if_neg (by simpa using hne)]
    exact (hL.byHeight _ _).2 ⟨hmem, rfl⟩
  obtain ⟨pre, rfl⟩ := List.getLast?_eq_some_iff.1 (hL'.tip.symm.trans hnew)
  rcases List.mem_append.1 ((hL'.byHeight _ _).1 hold).1 with hpre | htop
  · have hlt := Linked.height_lt hL'.linked hpre
    omega
  · obtain rfl := List.mem_singleton.1 htop
    rw [hzero] at hmax
    exact absurd hmax (by decide)

/-- From a state that describes its chain, an apply that returned leaves one that does, with the head
as its tip unless it was a duplicate, exactly if the head is neither one that only the resolver knows
nor one whose height wraps. -/
theorem describes_stepWrapping (hV : HashId V) (hu : FitsU64 V) (hself : Within V self)
    (hd : Describes self) (hr : HeadersIn V resolver) (hn : newHead ∈ V) {s : ρ} {batch : ChainBatch}
    {s' : ChainState × ρ}
    (hx : exec (ChainState.applyWrapping resolver newHead) (self, s) = (.ok batch, s')) :
    (batch.transition = .duplicate → Describes s'.1) ∧
      (batch.transition ≠ .duplicate →
        (s'.1.tip = some newHead ↔ ¬ ResolverOnly self resolver s newHead) ∧
        (Describes s'.1 ↔ ¬ ResolverOnly self resolver s newHead ∧ ¬ Wraps self newHead)) := by
  by_cases hw : Wraps self newHead
  · obtain ⟨tip, htip, hmax, batch', hb, hx'⟩ := applyWrapping_wraps resolver hw s
    have heq := hx.symm.trans hx'
    obtain rfl : batch = batch' := by simpa using congrArg Prod.fst heq
    obtain rfl : s' = (self.commit batch, s) := congrArg Prod.snd heq
    have hev : batch.events = [.apply newHead] := by rw [hb]
    obtain ⟨hnew, hnot⟩ := hw.not_describes hd htip hmax hev
    have hlinked : ¬ ResolverOnly self resolver s newHead := by
      rintro ⟨-, ⟨tip', htip', -, hlink⟩, -⟩
      obtain ⟨-, -, tip'', htip'', -, -, hparent⟩ := hw
      obtain rfl : tip' = tip'' := Option.some.inj (htip'.symm.trans htip'')
      exact hlink hparent
    refine ⟨fun hdup => ?_, fun _ => ⟨iff_of_true hnew hlinked, iff_of_false hnot fun h => h.2 hw⟩⟩
    rw [hb] at hdup
    cases hdup
  · rw [exec_applyWrapping resolver (hu newHead hn) (fun t ht => hu t (hself.tip t ht)) hw] at hx
    obtain ⟨hdup, hnew⟩ := describes_step hV hself hd hr hn hx
    refine ⟨hdup, fun hne => ⟨(hnew hne).1, (hnew hne).2.trans ?_⟩⟩
    exact ⟨fun h => ⟨h, hw⟩, And.left⟩

/-- Below `u64::MAX` the windows of a chain are compared as over `Nat`. -/
theorem brokenLinkWrapping_eq : ∀ {headers : List BlockHeader},
    (∀ x ∈ headers.dropLast, x.height ≠ u64Max) →
      ChainState.brokenLinkWrapping headers = ChainState.brokenLink headers
  | [], _ => rfl
  | [_], _ => rfl
  | parent :: child :: headers, h => by
    have hparent : nextHeight parent.height = parent.height + 1 := if_neg (h parent (by simp))
    have hrest := @brokenLinkWrapping_eq (child :: headers) fun x hx =>
      h x (by rw [List.dropLast_cons_cons]; exact List.mem_cons_of_mem _ hx)
    unfold ChainState.brokenLinkWrapping ChainState.brokenLink
    rw [hparent, hrest]

/-- The states of a `ChainState` used in any order, as in `ReachableWrapping`, where no head given to
`apply` is one that only the resolver knows or one whose height wraps, and no chain given to
`from_canonical_chain` goes on above `u64::MAX`. -/
inductive ReachableInMemory (V : Set BlockHeader) : ChainState → Prop
  | new {size depth : Nat} {self : ChainState} (h : ChainState.new size depth = .ok self) :
      ReachableInMemory V self
  | fromTip {tip : BlockHeader} {size depth : Nat} {self : ChainState} (ht : tip ∈ V)
      (h : ChainState.fromTip tip size depth = .ok self) : ReachableInMemory V self
  | fromCanonicalChain {headers : List BlockHeader} {size depth : Nat} {self : ChainState}
      (hh : ∀ x ∈ headers, x ∈ V)
      (h : ChainState.fromCanonicalChainWrapping headers size depth = .ok self)
      (hmax : ∀ x ∈ headers.dropLast, x.height ≠ u64Max) : ReachableInMemory V self
  | setFinalizedHeight {self : ChainState} (finalizedHeight : Option Nat)
      (h : ReachableInMemory V self) : ReachableInMemory V (self.setFinalizedHeight finalizedHeight)
  | apply {self : ChainState} {ρ : Type} {resolver : AncestryResolver ρ} {newHead : BlockHeader}
      (s : ρ) (h : ReachableInMemory V self) (hr : HeadersIn V resolver) (hn : newHead ∈ V)
      (hown : ¬ ResolverOnly self resolver s newHead) (hwrap : ¬ Wraps self newHead) :
      ReachableInMemory V (exec (ChainState.applyWrapping resolver newHead) (self, s)).2.1

theorem ReachableInMemory.reachable (h : ReachableInMemory V self) : ReachableWrapping V self := by
  induction h with
  | new h => exact .new h
  | fromTip ht h => exact .fromTip ht h
  | fromCanonicalChain hh h _ => exact .fromCanonicalChain hh h
  | setFinalizedHeight f _ ih => exact .setFinalizedHeight f ih
  | apply s _ hr hn _ _ ih => exact .apply s ih hr hn

/-- Every state of such a run describes its chain. -/
theorem ReachableInMemory.describes (hV : HashId V) (hu : FitsU64 V) (h : ReachableInMemory V self) :
    Describes self := by
  induction h with
  | new h => exact describes_iff.2 ⟨[], tracks_new h⟩
  | fromTip _ h => exact describes_iff.2 ⟨_, (holds_fromTip h).tracks (by simp)⟩
  | @fromCanonicalChain headers size depth self _ h hmax =>
    obtain ⟨hb, empty, hn, rfl⟩ := fromCanonicalChainWrapping_eq h
    rw [brokenLinkWrapping_eq hmax] at hb
    exact describes_iff.2 ⟨headers, tracks_foldl (tracks_new hn) (linked_of_brokenLink hb)⟩
  | setFinalizedHeight f _ ih => exact ⟨ih.tip_isSome, ih.heights, ih.linked, ih.highest, ih.hashes⟩
  | @apply self ρ resolver newHead s h hr hn hown hwrap ih =>
    have hwithin := reachableWrapping_within hV hu h.reachable
    cases hx : exec (ChainState.applyWrapping resolver newHead) (self, s) with
    | mk r s' =>
      cases r with
      | error e =>
        have hsame : s'.1 = self := wp_error (hwithin.applyWrapping hV hu hr hn s) hx
        exact hsame ▸ ih
      | ok batch =>
        obtain ⟨hdup, hnew⟩ := describes_stepWrapping hV hu hwithin ih hr hn hx
        by_cases ht : batch.transition = .duplicate
        · exact hdup ht
        · exact (hnew ht).2.2 ⟨hown, hwrap⟩

/-- **The state after a transition describes the new chain**, in every run where no head is one that
only the resolver knows and no height goes on above `u64::MAX`; a further head that does one or the
other leaves, if accepted, a state that does not. -/
theorem describes_inMemory (hV : HashId V) (hu : FitsU64 V) (h : ReachableInMemory V self) :
    Describes self ∧ ∀ {ρ : Type} (resolver : AncestryResolver ρ) (s : ρ) (newHead : BlockHeader),
      HeadersIn V resolver → newHead ∈ V → ∀ batch s',
        exec (ChainState.applyWrapping resolver newHead) (self, s) = (.ok batch, s') →
        batch.transition ≠ .duplicate →
          (s'.1.tip = some newHead ↔ ¬ ResolverOnly self resolver s newHead) ∧
          (Describes s'.1 ↔ ¬ ResolverOnly self resolver s newHead ∧ ¬ Wraps self newHead) := by
  refine ⟨h.describes hV hu, fun resolver s newHead hr hn batch s' hx hne => ?_⟩
  have hwithin := reachableWrapping_within hV hu h.reachable
  exact (describes_stepWrapping hV hu hwithin (h.describes hV hu) hr hn hx).2 hne

end

/-- `shapeKept_iff` on a one-block reorg below a tip seeded from its chain. -/
theorem shapeKept_reorg :
    ∃ self batch rollbacks applies ancestor,
      (exec (ChainState.applyWrapping (memoryResolver [] []) ⟨3, 1, 1⟩) (self, ())).1 = .ok batch ∧
      batch.events = [.rollback ⟨2, 1, 1⟩, .apply ⟨3, 1, 1⟩] ∧
      TransitionShape self ⟨2, 1, 1⟩ ⟨3, 1, 1⟩ batch rollbacks applies ancestor := by
  let V : Set BlockHeader := {⟨1, 0, 0⟩, ⟨2, 1, 1⟩, ⟨3, 1, 1⟩}
  have hV : HashId V := by
    rintro a (rfl | rfl | rfl) b (rfl | rfl | rfl) h <;> first | rfl | exact absurd h (by decide)
  have hu : FitsU64 V := by
    rintro a (rfl | rfl | rfl) <;> exact (by decide)
  obtain ⟨self, hself⟩ :
      ∃ self, ChainState.fromCanonicalChainWrapping [⟨1, 0, 0⟩, ⟨2, 1, 1⟩] 4 8 = .ok self := ⟨_, rfl⟩
  have hshape := (shapeKept_iff hV hu (.fromCanonicalChain (by simp [V]) hself)
    (@memoryResolver_headersIn V [] [] (by simp))
    (show (⟨3, 1, 1⟩ : BlockHeader) ∈ V by simp [V]) ()).2 (fun h => absurd h.2.1 (by decide))
  cases hself
  obtain ⟨rollbacks, applies, ancestor, h⟩ := hshape ⟨2, 1, 1⟩
    { transition := .reorg, commonAncestor := some ⟨1, 0, 0⟩,
      events := [.rollback ⟨2, 1, 1⟩, .apply ⟨3, 1, 1⟩] } rfl (by decide +kernel) (by simp)
  exact ⟨_, _, rollbacks, applies, ancestor, by decide +kernel, rfl, h⟩

/-- A head of height 0 that names a tip at `u64::MAX` as its parent is taken for an extension. -/
theorem extended_past_max : ∃ (V : Set BlockHeader) (self : ChainState),
    HashId V ∧ FitsU64 V ∧ ReachableWrapping V self ∧ self.tip = some ⟨2, 1, u64Max⟩ ∧
    HeadersIn V (memoryResolver [] []) ∧ (⟨3, 2, 0⟩ : BlockHeader) ∈ V ∧
    (exec (ChainState.applyWrapping (memoryResolver [] []) ⟨3, 2, 0⟩) (self, ())).1 =
      .ok { transition := .extend, commonAncestor := some ⟨2, 1, u64Max⟩,
            events := [.apply ⟨3, 2, 0⟩] } ∧
    ¬ ShapeKept self (memoryResolver [] []) () ⟨3, 2, 0⟩ := by
  let V : Set BlockHeader := {⟨2, 1, u64Max⟩, ⟨3, 2, 0⟩}
  have hV : HashId V := by
    rintro a (rfl | rfl) b (rfl | rfl) h <;> first | rfl | exact absurd h (by decide)
  have hu : FitsU64 V := by
    rintro a (rfl | rfl) <;> exact (by decide)
  have hseed := @ReachableWrapping.fromTip V ⟨2, 1, u64Max⟩ 4 8 _ (by simp [V]) rfl
  refine ⟨V, _, hV, hu, hseed, rfl, memoryResolver_headersIn (by simp), by simp [V],
    by decide +kernel, Wraps.not_shapeKept ⟨by decide +kernel, rfl, ⟨2, 1, u64Max⟩, rfl, rfl, ?_⟩ _ ()⟩
  exact ⟨by decide, rfl⟩

/-- `describes_inMemory` on a chain of two blocks and its next block. -/
theorem describes_inMemory_extend : ∃ self : ChainState, self.tip = some ⟨3, 2, 2⟩ ∧
    Describes self := by
  let V : Set BlockHeader := {⟨1, 0, 0⟩, ⟨2, 1, 1⟩, ⟨3, 2, 2⟩}
  have hV : HashId V := by
    rintro a (rfl | rfl | rfl) b (rfl | rfl | rfl) h <;> first | rfl | exact absurd h (by decide)
  have hu : FitsU64 V := by
    rintro a (rfl | rfl | rfl) <;> exact (by decide)
  have hseed := @ReachableInMemory.fromCanonicalChain V [⟨1, 0, 0⟩, ⟨2, 1, 1⟩] 4 8 _ (by simp [V]) rfl
    (by decide)
  have hstep := @ReachableInMemory.apply V _ Unit (memoryResolver [] []) ⟨3, 2, 2⟩ () hseed
    (memoryResolver_headersIn (by simp)) (by simp [V]) (fun h => h.2.2)
    (fun h => absurd h.2.1 (by decide))
  exact ⟨_, by decide +kernel, (describes_inMemory hV hu hstep).1⟩

/-- A restarted state given a head below its tip, which the resolver has as a canonical row: the batch
rolls the tip back, the map is empty, and the tip is still there. -/
theorem rolled_back_tip_stays : ∃ (V : Set BlockHeader) (self : ChainState),
    HashId V ∧ FitsU64 V ∧ ReachableWrapping V self ∧ ∃ (batch : ChainBatch) (self' : ChainState),
      exec (ChainState.applyWrapping (memoryResolver [⟨1, 0, 0⟩] [⟨1, 0, 0⟩]) ⟨1, 0, 0⟩) (self, ()) =
        (.ok batch, (self', ())) ∧
      batch.transition = .reorg ∧ ReachableWrapping V self' ∧ self'.tip = some ⟨2, 1, 1⟩ ∧
        self'.canonicalChain = [] ∧ ¬ Describes self' := by
  let V : Set BlockHeader := {⟨1, 0, 0⟩, ⟨2, 1, 1⟩}
  let batch : ChainBatch :=
    { transition := .reorg, commonAncestor := some ⟨1, 0, 0⟩, events := [.rollback ⟨2, 1, 1⟩] }
  have hV : HashId V := by
    rintro a (rfl | rfl) b (rfl | rfl) h <;> first | rfl | exact absurd h (by decide)
  have hu : FitsU64 V := by
    rintro a (rfl | rfl) <;> exact (by decide)
  have hseed := @ReachableWrapping.fromTip V ⟨2, 1, 1⟩ 4 8 _ (by simp [V]) rfl
  have hr : HeadersIn V (memoryResolver [⟨1, 0, 0⟩] [⟨1, 0, 0⟩]) :=
    memoryResolver_headersIn (by simp [V])
  have hstep := @ReachableWrapping.apply V _ Unit _ ⟨1, 0, 0⟩ () hseed hr (by simp [V])
  refine ⟨V, _, hV, hu, hseed, batch, _, Prod.ext (by decide +kernel) rfl, rfl, hstep,
    by decide +kernel, by decide +kernel, ?_⟩
  intro h
  exact absurd h.tip_isSome (by decide +kernel)

end Chainweave.Chain
