import Chainweave.Core.ChainShape

/-!
# Exact reorg resolution

Over a tree of blocks and a canonical path `K` of it from the root to the tip,
with a resolver that answers truthfully, the outcome of `apply` is a function of
the tree, `K`, the new head and the two limits (`expected`).

* `canonicalMatch_gives`: a header matches exactly when it is on `K`.
* `parentFor_gives`: the parent step gives the parent in the tree, whichever of
  cache, canonical map and resolver answers it.
* `apply_outcome`: `apply` returns `expected`; how much of `K` the state was
  seeded with and what its cache still holds does not show.
-/
namespace Chainweave.Chain

open Stateful HashLink

/-- A resolver that knows the tree and the canonical path. -/
structure Truthful {ρ : Type} (T : HashLink.Tree BlockHeader) (K : List BlockHeader)
    (resolver : AncestryResolver ρ) : Prop where
  headerByHash : ∀ b ∈ T.blocks, Gives (fun _ => True) (resolver.headerByHash b.hash) (.ok (some b))
  canonicalHeaderByHash : ∀ hash, Gives (fun _ => True) (resolver.canonicalHeaderByHash hash)
    (.ok (K.find? (·.hash = hash)))
  canonicalHeaderAtHeight : ∀ height, Gives (fun _ => True) (resolver.canonicalHeaderAtHeight height)
    (.ok (K.find? (·.height = height)))

/-- `K` is a path of the tree from its root to `tip`. -/
structure CanonicalPath (T : HashLink.Tree BlockHeader) (K : List BlockHeader) (tip : BlockHeader) : Prop where
  linked : Linked K
  root : K.head? = some T.root
  tip : K.getLast? = some tip
  mem : ∀ b ∈ K, b ∈ T.blocks

/-- A state built from the tip alone, or from any non-empty end of `K`. -/
inductive Seeded (K : List BlockHeader) (tip : BlockHeader) (depth : Nat) (finalized : Option Nat) :
    ChainState → Prop
  | fromTip {size : Nat} {self : ChainState} (h : ChainState.fromTip tip size depth = .ok self) :
      Seeded K tip depth finalized (self.setFinalizedHeight finalized)
  | fromCanonicalChain {suffix : List BlockHeader} {size : Nat} {self : ChainState}
      (hsuf : suffix <:+ K) (h : ChainState.fromCanonicalChain suffix size depth = .ok self) :
      Seeded K tip depth finalized (self.setFinalizedHeight finalized)

namespace Seeded

variable {T : HashLink.Tree BlockHeader} {K : List BlockHeader} {tip : BlockHeader} {depth : Nat}
  {finalized : Option Nat} {self : ChainState}

theorem reachable (h : Seeded K tip depth finalized self) (ht : K.getLast? = some tip) :
    Reachable {b | b ∈ K} self := by
  cases h with
  | fromTip h => exact .setFinalizedHeight _ (.fromTip (List.mem_of_getLast? ht) h)
  | fromCanonicalChain hsuf h =>
    exact .setFinalizedHeight _ (.fromCanonicalChain (fun x hx => hsuf.subset hx) h)

/-- Everything a seeded state holds is on `K`. -/
theorem within (h : Seeded K tip depth finalized self) (hK : CanonicalPath T K tip) :
    Within {b | b ∈ K} self :=
  reachable_within (T.hashId.mono hK.mem) (h.reachable hK.tip)

theorem new_maxReorgDepth {size : Nat} (h : ChainState.new size depth = .ok self) :
    self.maxReorgDepth = depth := by
  obtain ⟨_, rfl⟩ := ChainState.new_eq h
  rfl

theorem foldl_maxReorgDepth (headers : List BlockHeader) (self : ChainState) :
    (headers.foldl ChainState.insertCanonical self).maxReorgDepth = self.maxReorgDepth := by
  induction headers generalizing self with
  | nil => rfl
  | cons x headers ih => exact ih _

/-- A seeded state has the tip and the limits it was given. -/
theorem fields (h : Seeded K tip depth finalized self) (ht : K.getLast? = some tip) :
    self.tip = some tip ∧ self.maxReorgDepth = depth ∧ self.finalizedHeight = finalized := by
  cases h with
  | fromTip h =>
    obtain ⟨empty, hn, rfl⟩ := fromTip_eq h
    exact ⟨rfl, @new_maxReorgDepth depth empty _ hn, rfl⟩
  | @fromCanonicalChain suffix _ _ hsuf h =>
    obtain ⟨hne, -, empty, hn, rfl⟩ := fromCanonicalChain_eq h
    refine ⟨?_, (foldl_maxReorgDepth suffix empty).trans (new_maxReorgDepth hn), rfl⟩
    obtain ⟨pre, rfl⟩ := hsuf
    rwa [List.getLast?_append_of_ne_nil _ hne] at ht

theorem brokenLink_eq_none : ∀ {headers : List BlockHeader}, Linked headers →
    ChainState.brokenLink headers = none
  | [], _ => rfl
  | [_], _ => rfl
  | parent :: child :: headers, h => by
    obtain ⟨hc, hl⟩ := List.isChain_cons_cons.1 h
    unfold ChainState.brokenLink
    rw [isChild_iff] at hc
    rw [if_neg (by simp [hc.1, hc.2])]
    exact brokenLink_eq_none hl

/-- Every non-empty end of `K`, cache size and depth above zero give a seeded state. -/
theorem exists_of_suffix (hK : CanonicalPath T K tip) {suffix : List BlockHeader}
    (hsuf : suffix <:+ K) (hne : suffix ≠ []) {size : Nat} (hs : size ≠ 0) (hd : depth ≠ 0) :
    ∃ self, ChainState.fromCanonicalChain suffix size depth = .ok self ∧
      Seeded K tip depth finalized (self.setFinalizedHeight finalized) := by
  obtain ⟨pre, rfl⟩ := hsuf
  cases h : ChainState.fromCanonicalChain suffix size depth with
  | ok self => exact ⟨self, rfl, .fromCanonicalChain ⟨pre, rfl⟩ h⟩
  | error e =>
    unfold ChainState.fromCanonicalChain ChainState.new at h
    rw [if_neg hs, dif_neg hd, brokenLink_eq_none hK.linked.right, if_neg (by simpa using hne)] at h
    cases h

end Seeded

/-! ## The single steps -/

/-- The canonical reads of a resolver find the rows of `K`. -/
structure ReadsRows {ρ : Type} (I : ρ → Prop) (K : List BlockHeader)
    (resolver : AncestryResolver ρ) : Prop where
  byHash : ∀ hash, Gives I (resolver.canonicalHeaderByHash hash) (.ok (K.find? (·.hash = hash)))
  atHeight : ∀ height,
    Gives I (resolver.canonicalHeaderAtHeight height) (.ok (K.find? (·.height = height)))

theorem Truthful.readsRows {ρ : Type} {T : HashLink.Tree BlockHeader} {K : List BlockHeader}
    {resolver : AncestryResolver ρ} (h : Truthful T K resolver) :
    ReadsRows (fun _ => True) K resolver := ⟨h.canonicalHeaderByHash, h.canonicalHeaderAtHeight⟩

theorem isKnownCanonical_mem {K : List BlockHeader} {self : ChainState}
    (hself : Within {b | b ∈ K} self) {header : BlockHeader}
    (h : self.isKnownCanonical header = true) : header ∈ K := by
  unfold ChainState.isKnownCanonical at h
  simp only [Bool.and_eq_true, beq_iff_eq] at h
  exact hself.canonical _ _ h.2

section
variable {ρ : Type} {V : Set BlockHeader} {I : ρ → Prop} {K : List BlockHeader}
  {self : ChainState} {resolver : AncestryResolver ρ} {y z : BlockHeader}

/-- A header matches exactly when the state knows it or it is one of the rows. -/
theorem canonicalMatch_gives_row (self : ChainState) (hV : HashId V) (hK : ∀ b ∈ K, b ∈ V)
    (hy : y ∈ V)
    (hhash : Gives I (resolver.canonicalHeaderByHash y.hash) (.ok (K.find? (·.hash = y.hash))))
    (hat : Gives I (resolver.canonicalHeaderAtHeight y.height)
      (.ok (K.find? (·.height = y.height)))) :
    Gives I (self.canonicalMatch resolver y)
      (.ok (if self.isKnownCanonical y = true ∨ y ∈ K then some y else none)) := by
  unfold ChainState.canonicalMatch
  by_cases hk : self.isKnownCanonical y = true
  · rw [if_pos hk, if_pos (.inl hk)]
    exact .pure _
  rw [if_neg hk]
  have hfind : (K.find? fun b => decide (b.hash = y.hash)) = if y ∈ K then some y else none := by
    cases hf : K.find? fun b => decide (b.hash = y.hash) with
    | some c =>
      have hc := List.mem_of_find?_eq_some hf
      obtain rfl : c = y := hV (hK c hc) hy (by simpa using List.find?_some hf)
      rw [if_pos hc]
    | none =>
      rw [if_neg fun hmem => ?_]
      simpa using List.find?_eq_none.1 hf y hmem
  refine (hhash.mapError).bind ?_
  rw [hfind]
  by_cases hmem : y ∈ K
  · simp only [if_pos hmem, if_pos (Or.inr hmem)]
    have hsame : validateSameHeader y y = .ok () := validateSameHeader_ok.2 rfl
    rw [hsame]
    exact .pure _
  · simp only [if_neg hmem, if_neg (not_or.2 ⟨hk, hmem⟩)]
    refine (hat.mapError).bind ?_
    cases hf : K.find? fun b => decide (b.height = y.height) with
    | none => exact .pure _
    | some c =>
      have hne : c.hash ≠ y.hash := by
        intro he
        have hc := List.mem_of_find?_eq_some hf
        exact hmem (hV (hK c hc) hy he ▸ hc)
      simp only [if_neg hne]
      exact .pure _

/-- Where the state knows rows only, a header matches exactly when it is one of them. -/
theorem canonicalMatch_gives (hV : HashId V) (hK : ∀ b ∈ K, b ∈ V)
    (hknown : ∀ x, self.isKnownCanonical x = true → x ∈ K) (hr : ReadsRows I K resolver)
    (hy : y ∈ V) :
    Gives I (self.canonicalMatch resolver y) (.ok (if y ∈ K then some y else none)) := by
  have h := canonicalMatch_gives_row self hV hK hy (hr.byHash y.hash) (hr.atHeight y.height)
  simpa only [or_iff_right_of_imp (hknown y)] using h

/-- The parent step gives the parent, if the resolver has it. -/
theorem parentFor_gives (hV : HashId V) (hself : Within V self) (hz : z ∈ V)
    (hserved : Gives I (resolver.headerByHash z.hash) (.ok (some z))) (hc : IsChild y z) :
    Gives I (self.parentFor resolver y) (.ok z) := by
  have hlookup : Gives I (self.lookupParent resolver y) (.ok (some z)) := by
    unfold ChainState.lookupParent
    split
    · rename_i parent hp
      unfold ChainState.localParent at hp
      rw [Option.filter_eq_some_iff, Option.or_eq_some_iff] at hp
      obtain ⟨hlocal, hhash⟩ := hp
      have hparent : parent ∈ V := by
        rcases hlocal with h | ⟨-, h⟩
        · exact hself.cache _ _ h
        · exact hself.canonical _ _ h
      obtain rfl : parent = z := hV hparent hz ((of_decide_eq_true hhash).trans hc.1)
      exact .pure _
    · have h := hserved.mapError (g := ChainError.resolver)
      rwa [← show y.parentHash = z.hash from hc.1] at h
  have hheight : y.height = z.height + 1 := hc.2
  unfold ChainState.parentFor
  rw [if_neg (by omega)]
  refine hlookup.bind ?_
  have hlink : validateParentLink y z = .ok () := validateParentLink_ok.2 hc
  simp only [hlink]
  exact .pure _

end

/-! ## The outcome -/

/-- The batch of a head `x` over the walks down to the common ancestor `a`. -/
def resolvedBatch (a : BlockHeader) (rollbacks descending : List BlockHeader) : ChainBatch :=
  let events := rollbacks.map .rollback ++ descending.reverse.map .apply
  { transition := ChainState.resolvedTransition events, commonAncestor := some a, events }

/-- What `apply` returns on a head whose walk down to the canonical path is `descending`, ending at
`a`, with `rollbacks` the canonical blocks above `a`, top first. -/
def expected (depth : Nat) (finalized : Option Nat) (tip x a : BlockHeader)
    (rollbacks descending : List BlockHeader) : Except ChainError ChainBatch :=
  if IsChild x tip then
    .ok { transition := .extend, commonAncestor := some tip, events := [.apply x] }
  else if depth < descending.length then .error (.maxDepthExceeded depth)
  else
    match finalized.filter (a.height < ·) with
    | some finalizedHeight => .error (.finalizedBoundary a.height finalizedHeight)
    | none =>
      if depth < rollbacks.length then .error (.maxDepthExceeded depth)
      else .ok (resolvedBatch a rollbacks descending)

section
variable {ρ : Type} {T : HashLink.Tree BlockHeader} {K : List BlockHeader} {tip : BlockHeader}
  {resolver : AncestryResolver ρ} {depth : Nat} {finalized : Option Nat} {self : ChainState}

theorem enforceFinalizedBoundary_eq {a : BlockHeader} (h : self.finalizedHeight = finalized) :
    self.enforceFinalizedBoundary a = match finalized.filter (a.height < ·) with
      | some f => .error (.finalizedBoundary a.height f)
      | none => .ok () := by
  unfold ChainState.enforceFinalizedBoundary
  subst h
  cases self.finalizedHeight with
  | none => rfl
  | some f =>
    by_cases hf : a.height < f
    · simp [Option.filter, hf]
    · simp [Option.filter, hf]

theorem onResolver_gives {I : ρ → Prop} {α : Type} (self : ChainState) {x : Prog ρ ChainError α}
    {r : Except ChainError α} (h : Gives I x r) :
    Gives (fun s => s.1 = self ∧ I s.2) (ChainState.onResolver x) r :=
  h.zoom (fun _ hs => hs.2) (fun _ _ hs ht => ⟨ht.1, hs⟩)

section
variable {I : ρ → Prop} {x a : BlockHeader} {rollbacks descending : List BlockHeader}

/-- `apply` on a new head that does not extend the tip: the two walks, and the batch. -/
theorem apply_walks (htip : self.tip = some tip) (hknown : self.isKnownCanonical x = false)
    (hnew : x.hash ≠ tip.hash) (hlink : x.parentHash ≠ tip.hash) (s : ρ) :
    exec (ChainState.apply resolver x) (self, s) = exec (do
      let (ancestor, descending) ← ChainState.onResolver (self.resolveCommonAncestor resolver x)
      lift (self.enforceFinalizedBoundary ancestor)
      let rollbacks ← ChainState.onResolver (self.rollbackPath resolver tip ancestor)
      ChainState.modifySelf (·.commit (resolvedBatch ancestor rollbacks descending))
      pure (resolvedBatch ancestor rollbacks descending)) (self, s) := by
  unfold ChainState.apply
  rw [exec_bind, exec_get]
  dsimp only
  rw [if_neg (by simp [hknown, htip, hnew.symm]), htip]
  dsimp only
  rw [if_neg hlink]
  rfl

/-- Once the common ancestor is found, and is not below the finalized height, what is left is the walk
down from the tip. -/
theorem apply_resolved (htip : self.tip = some tip) (hknown : self.isKnownCanonical x = false)
    (hnew : x.hash ≠ tip.hash) (hlink : x.parentHash ≠ tip.hash)
    (hresolve : Gives I (self.resolveCommonAncestor resolver x) (.ok (a, descending)))
    (hfinal : self.enforceFinalizedBoundary a = .ok ()) {s : ρ} (hs : I s)
    {P : Except ChainError ChainBatch → Prop}
    (hroll : ∀ s1, I s1 → P ((exec (self.rollbackPath resolver tip a) s1).1.map
      (resolvedBatch a · descending))) :
    P (exec (ChainState.apply resolver x) (self, s)).1 := by
  obtain ⟨hresolved, hs1⟩ := onResolver_gives self hresolve (self, s) ⟨rfl, hs⟩
  rw [apply_walks htip hknown hnew hlink, exec_bind]
  cases hx : exec (ChainState.onResolver (self.resolveCommonAncestor resolver x)) (self, s) with
  | mk r s1 =>
    rw [hx] at hresolved hs1
    cases hresolved
    obtain ⟨state, s1⟩ := s1
    obtain ⟨hstate, hI⟩ := hs1
    obtain rfl : self = state := hstate.symm
    dsimp only
    rw [exec_bind, exec_lift, hfinal]
    dsimp only
    rw [exec_bind]
    have h := hroll s1 hI
    unfold ChainState.onResolver
    rw [exec_zoom]
    cases hr : exec (self.rollbackPath resolver tip a) s1 with
    | mk r s2 =>
      rw [hr] at h
      cases r with
      | error e => exact h
      | ok rollbacks => exact h

/-- `apply` on a head off the canonical path, from its two walks. -/
theorem apply_expected (htip : self.tip = some tip) (hknown : self.isKnownCanonical x = false)
    (hnew : x.hash ≠ tip.hash) (hlink : x.parentHash = tip.hash → IsChild x tip)
    (hresolve : Gives I (self.resolveCommonAncestor resolver x)
      (if descending.length ≤ self.maxReorgDepth then .ok (a, descending)
        else .error (.maxDepthExceeded self.maxReorgDepth)))
    (hrollback : Gives I (self.rollbackPath resolver tip a)
      (if rollbacks.length ≤ self.maxReorgDepth then .ok rollbacks
        else .error (.maxDepthExceeded self.maxReorgDepth))) {s : ρ} (hs : I s) :
    (exec (ChainState.apply resolver x) (self, s)).1 =
      expected self.maxReorgDepth self.finalizedHeight tip x a rollbacks descending := by
  unfold expected
  by_cases hchild : IsChild x tip
  · have hheight : x.height = tip.height + 1 := hchild.2
    unfold ChainState.apply
    rw [exec_bind, exec_get]
    dsimp only
    rw [if_neg (by simp [hknown, htip, hnew.symm]), htip]
    dsimp only
    rw [if_pos (show x.parentHash = tip.hash from hchild.1), if_neg (not_not.2 hheight),
      if_pos hchild]
    rfl
  have hother : x.parentHash ≠ tip.hash := fun h => hchild (hlink h)
  rw [if_neg hchild]
  by_cases hn : descending.length ≤ self.maxReorgDepth
  swap
  · rw [if_neg hn] at hresolve
    rw [if_pos (by omega), apply_walks htip hknown hnew hother]
    exact ((onResolver_gives self hresolve).bind_error (self, s) ⟨rfl, hs⟩).1
  rw [if_pos hn] at hresolve
  rw [if_neg (by omega)]
  have hfinalized := @enforceFinalizedBoundary_eq self.finalizedHeight self a rfl
  cases hf : self.finalizedHeight.filter (a.height < ·) with
  | some f =>
    rw [hf] at hfinalized
    rw [apply_walks htip hknown hnew hother]
    refine (onResolver_gives self hresolve).outcome_bind ⟨rfl, hs⟩ fun s1 _ => ?_
    dsimp only
    rw [exec_bind, exec_lift, hfinalized]
  | none =>
    rw [hf] at hfinalized
    dsimp only
    refine apply_resolved (P := (· = _)) htip hknown hnew hother hresolve hfinalized hs
      fun s1 hs1 => ?_
    rw [(hrollback s1 hs1).1]
    by_cases hm : rollbacks.length ≤ self.maxReorgDepth
    · rw [if_pos hm, if_neg (by omega)]
      rfl
    · rw [if_neg hm, if_pos (by omega)]
      rfl

end

/-- **The outcome of `apply`** on a head of the tree off the canonical path is `expected`. -/
theorem apply_outcome (hK : CanonicalPath T K tip) (hself : Seeded K tip depth finalized self)
    (hr : Truthful T K resolver) {x a : BlockHeader} {pre rollbacks descending : List BlockHeader}
    (hx : x ∈ T.blocks) (hxK : x ∉ K) (hsplit : K = pre ++ a :: rollbacks.reverse)
    (hroll : Path tip rollbacks a) (hdesc : Path x descending a)
    (hmem : ∀ z ∈ descending, z ∈ T.blocks ∧ z ∉ K) (s : ρ) :
    (exec (ChainState.apply resolver x) (self, s)).1 =
      expected depth finalized tip x a rollbacks descending := by
  have hwithin := hself.within hK
  have htree : Within {b | b ∈ T.blocks} self :=
    ⟨fun z hz => hK.mem z (hwithin.tip z hz), fun k z hz => hK.mem z (hwithin.cache k z hz),
      fun k z hz => hK.mem z (hwithin.canonical k z hz)⟩
  have hknown : ∀ z, self.isKnownCanonical z = true → z ∈ K := fun z =>
    isKnownCanonical_mem hwithin
  obtain ⟨htip, rfl, rfl⟩ := hself.fields hK.tip
  have htipK : tip ∈ K := List.mem_of_getLast? hK.tip
  have haK : a ∈ K := by simp [hsplit]
  have hold : ∀ z ∈ rollbacks, z ∈ K := by intro z hz; simp [hsplit, hz]
  have hmatches := fun {y} (hy : y ∈ T.blocks) =>
    canonicalMatch_gives (I := fun _ => True) T.hashId hK.mem hknown hr.readsRows hy
  have hstep : ∀ y z, z ∈ T.blocks → IsChild y z →
      Gives (fun _ => True) (self.parentFor resolver y) (.ok z) := fun y z hz hc =>
    parentFor_gives T.hashId htree hz (hr.headerByHash z hz) hc
  refine apply_expected (I := fun _ => True) htip ?_ ?_ ?_ ?_ ?_ trivial
  · rw [Bool.eq_false_iff]
    exact fun h => hxK (hknown x h)
  · exact fun he => hxK (T.hashId hx (hK.mem _ htipK) he ▸ htipK)
  · intro hlink
    obtain ⟨p, hp, hc⟩ := T.parent x hx (fun he => hxK (he ▸ List.mem_of_head? hK.root))
    have hpt : p.hash = tip.hash := hc.1.symm.trans hlink
    exact T.hashId hp (hK.mem _ htipK) hpt ▸ hc
  · refine resolveLoop_gives hdesc (fun y hy => ?_) ?_ (fun y z _ hz hc => ?_) _
    · have h := hmatches (hmem y hy).1
      rwa [if_neg (hmem y hy).2] at h
    · have h := hmatches (hK.mem a haK)
      rwa [if_pos haK] at h
    · exact hstep y z (hz.elim (fun h => (hmem z h).1) (· ▸ hK.mem a haK)) hc
  · refine rollbackLoop_gives hroll (fun y z _ hz hc => ?_) _
    exact hstep y z (hz.elim (fun h => hK.mem z (hold z h)) (· ▸ hK.mem a haK)) hc

theorem expected_ok {x a : BlockHeader} {rollbacks descending : List BlockHeader}
    (hm : tip.height = a.height + rollbacks.length)
    (hn : x.height = a.height + descending.length) :
    (∃ batch, expected depth finalized tip x a rollbacks descending = .ok batch) ↔
      IsChild x tip ∨ (x.height - a.height ≤ depth ∧ tip.height - a.height ≤ depth ∧
        ∀ f ∈ finalized, f ≤ a.height) := by
  rw [hm, hn, Nat.add_sub_cancel_left, Nat.add_sub_cancel_left]
  unfold expected
  by_cases hchild : IsChild x tip
  · simp [hchild]
  rw [if_neg hchild]
  by_cases hd : depth < descending.length
  · simp [hd, hchild, Nat.not_le.2 hd]
  rw [if_neg hd]
  cases finalized with
  | none =>
    by_cases hr : depth < rollbacks.length
    · simp [hr, hchild, Nat.not_le.2 hr]
    · simp [hr, Nat.not_lt.1 hr, Nat.not_lt.1 hd]
  | some f =>
    by_cases hf : a.height < f
    · simp [Option.filter, hf, hchild, Nat.not_le.2 hf]
    by_cases hr : depth < rollbacks.length
    · simp [Option.filter, hf, hr, hchild, Nat.not_le.2 hr]
    · simp [Option.filter, hf, hr, Nat.not_lt.1 hr, Nat.not_lt.1 hd, Nat.not_lt.1 hf]

/-- A child of the tip leaves the canonical path at the tip. -/
theorem fork_of_child (hK : CanonicalPath T K tip) {x a : BlockHeader}
    {rollbacks descending : List BlockHeader} (hxK : x ∉ K) (haK : a ∈ K)
    (hroll : Path tip rollbacks a) (hdesc : Path x descending a)
    (hmem : ∀ z ∈ descending, z ∈ T.blocks ∧ z ∉ K) (hchild : IsChild x tip) :
    a = tip ∧ rollbacks = [] ∧ descending = [x] := by
  have htipK : tip ∈ K := List.mem_of_getLast? hK.tip
  have ha : a = tip ∧ descending = [x] := by
    cases hdesc with
    | nil => exact absurd haK hxK
    | @cons _ y _ ys hc hp =>
      have hyT : y ∈ T.blocks := by
        cases hp with
        | nil => exact hK.mem _ haK
        | cons => exact (hmem _ (by simp)).1
      obtain rfl : y = tip := IsChild.parent_unique T.hashId hyT (hK.mem _ htipK) hc hchild
      cases hp with
      | nil => exact ⟨rfl, rfl⟩
      | cons => exact absurd htipK (hmem _ (by simp)).2
  obtain ⟨rfl, hd⟩ := ha
  have hlen := hroll.height_eq
  exact ⟨rfl, List.eq_nil_of_length_eq_zero (by omega), hd⟩

theorem expected_events (hK : CanonicalPath T K tip) {x a : BlockHeader}
    {rollbacks descending : List BlockHeader} (hxK : x ∉ K) (haK : a ∈ K)
    (hroll : Path tip rollbacks a) (hdesc : Path x descending a)
    (hmem : ∀ z ∈ descending, z ∈ T.blocks ∧ z ∉ K) {batch : ChainBatch}
    (h : expected depth finalized tip x a rollbacks descending = .ok batch) :
    batch.commonAncestor = some a ∧
      batch.events = rollbacks.map .rollback ++ descending.reverse.map .apply := by
  unfold expected at h
  split at h
  · rename_i hchild
    obtain ⟨rfl, rfl, rfl⟩ := fork_of_child hK hxK haK hroll hdesc hmem hchild
    cases h
    exact ⟨rfl, rfl⟩
  split at h
  · cases h
  split at h
  · cases h
  split at h
  · cases h
  cases h
  exact ⟨rfl, rfl⟩

/-- **Exact reorg resolution.** `apply` of a head off the canonical path succeeds exactly when it
extends the tip, or both walks to the fork are within `max_reorg_depth` and the fork is not below
the finalized height. It then rolls back the canonical blocks above the fork, top first, and applies
the path up to the head. The outcome is the same from every seed, cache size and resolver state. -/
theorem apply_exact (hK : CanonicalPath T K tip) (hself : Seeded K tip depth finalized self)
    (hr : Truthful T K resolver) {x a : BlockHeader} (hx : x ∈ T.blocks) (hxK : x ∉ K)
    (ha : T.IsFork K x a) (s : ρ) :
    let outcome := (exec (ChainState.apply resolver x) (self, s)).1
    ((∃ batch, outcome = .ok batch) ↔
      IsChild x tip ∨ (x.height - a.height ≤ depth ∧ tip.height - a.height ≤ depth ∧
        ∀ f ∈ finalized, f ≤ a.height)) ∧
    (∀ batch, outcome = .ok batch → batch.commonAncestor = some a ∧
      ∃ pre rollbacks applies : List BlockHeader, K = pre ++ a :: rollbacks.reverse ∧
        (Linked (a :: applies) ∧ applies.getLast? = some x ∧ ∀ z ∈ applies, z ∈ T.blocks) ∧
        batch.events = rollbacks.map .rollback ++ applies.map .apply) ∧
    ∀ (ρ' : Type) (resolver' : AncestryResolver ρ') (self' : ChainState) (s' : ρ'),
      Truthful T K resolver' → Seeded K tip depth finalized self' →
        (exec (ChainState.apply resolver' x) (self', s')).1 = outcome := by
  obtain ⟨descending, hdesc, hmem⟩ := ha.path
  obtain ⟨pre, rollbacks, hsplit, hroll⟩ := hK.linked.path hK.tip ha.mem
  have hout := apply_outcome hK hself hr hx hxK hsplit hroll hdesc hmem s
  have hn : x.height = a.height + descending.length := hdesc.height_eq
  have hm : tip.height = a.height + rollbacks.length := hroll.height_eq
  have hne : descending ≠ [] := by
    intro heq
    subst heq
    exact hxK (hdesc.eq_of_nil ▸ ha.mem)
  have happlies : Linked (a :: descending.reverse) ∧ descending.reverse.getLast? = some x ∧
      ∀ z ∈ descending.reverse, z ∈ T.blocks :=
    ⟨hdesc.linked, by rw [List.getLast?_reverse]; exact hdesc.head?_eq hne,
      fun z hz => (hmem z (by simpa using hz)).1⟩
  dsimp only
  refine ⟨?_, ?_, ?_⟩
  · rw [hout]
    exact expected_ok hm hn
  · intro batch hb
    rw [hout] at hb
    obtain ⟨hca, hev⟩ := expected_events hK hxK ha.mem hroll hdesc hmem hb
    exact ⟨hca, pre, rollbacks, descending.reverse, hsplit, happlies, hev⟩
  · intro ρ' resolver' self' s' hr' hself'
    rw [hout]
    exact apply_outcome hK hself' hr' hx hxK hsplit hroll hdesc hmem s'

end

/-- The tree of a root with two children, and the path to one of them. -/
def twoChildren : HashLink.Tree BlockHeader where
  blocks := {⟨1, 0, 0⟩, ⟨2, 1, 1⟩, ⟨3, 1, 1⟩}
  root := ⟨1, 0, 0⟩
  root_mem := by simp
  hashId := by
    rintro a (rfl | rfl | rfl) b (rfl | rfl | rfl) h <;> first | rfl | exact absurd h (by decide)
  parent := by
    rintro b (rfl | rfl | rfl) hb
    · exact absurd rfl hb
    · exact ⟨⟨1, 0, 0⟩, by simp, by decide⟩
    · exact ⟨⟨1, 0, 0⟩, by simp, by decide⟩

/-- `apply_exact` where the head is the sibling of the tip and only the tip is in memory. -/
theorem apply_exact_sibling :
    ∃ self, Seeded [⟨1, 0, 0⟩, ⟨2, 1, 1⟩] ⟨2, 1, 1⟩ 8 none self ∧
      ∃ batch, (exec (ChainState.apply
        (memoryResolver [⟨1, 0, 0⟩, ⟨2, 1, 1⟩, ⟨3, 1, 1⟩] [⟨1, 0, 0⟩, ⟨2, 1, 1⟩]) ⟨3, 1, 1⟩)
        (self, ())).1 = .ok batch ∧ batch.commonAncestor = some ⟨1, 0, 0⟩ := by
  have hK : CanonicalPath twoChildren [⟨1, 0, 0⟩, ⟨2, 1, 1⟩] ⟨2, 1, 1⟩ :=
    ⟨by decide, rfl, rfl, by simp [twoChildren]⟩
  have hseed : ∃ self, ChainState.fromCanonicalChain [⟨2, 1, 1⟩] 1 8 = .ok self ∧
      Seeded [⟨1, 0, 0⟩, ⟨2, 1, 1⟩] ⟨2, 1, 1⟩ 8 none (self.setFinalizedHeight none) :=
    Seeded.exists_of_suffix hK (List.suffix_cons _ _) (by simp) (by decide) (by decide)
  obtain ⟨self, -, hself⟩ := hseed
  have hr : Truthful twoChildren [⟨1, 0, 0⟩, ⟨2, 1, 1⟩] (memoryResolver
      [⟨1, 0, 0⟩, ⟨2, 1, 1⟩, ⟨3, 1, 1⟩] [⟨1, 0, 0⟩, ⟨2, 1, 1⟩]) := by
    refine ⟨?_, fun _ => .pure _, fun _ => .pure _⟩
    rintro b (rfl | rfl | rfl) <;> exact .pure _
  have hfork : twoChildren.IsFork [⟨1, 0, 0⟩, ⟨2, 1, 1⟩] ⟨3, 1, 1⟩ ⟨1, 0, 0⟩ := by
    refine ⟨by simp, twoChildren.root_ancestor (by simp [twoChildren]), ?_⟩
    intro b hb hanc
    obtain ⟨-, xs, hp, -⟩ := hanc
    rcases List.mem_cons.1 hb with rfl | hb
    · exact Nat.le_refl _
    · obtain rfl : b = ⟨2, 1, 1⟩ := by simpa using hb
      have hlen := hp.height_eq
      obtain rfl : xs = [] := List.eq_nil_of_length_eq_zero (by simpa using hlen)
      exact absurd hp.eq_of_nil (by decide)
  obtain ⟨hiff, hevents, -⟩ :=
    apply_exact hK hself hr (by simp [twoChildren]) (by decide) hfork ()
  obtain ⟨batch, hb⟩ := hiff.2 (.inr ⟨by decide, by decide, by simp⟩)
  exact ⟨_, hself, batch, hb, (hevents batch hb).1⟩

end Chainweave.Chain
