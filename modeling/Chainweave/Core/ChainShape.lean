import Chainweave.Core.ChainWalk

/-!
# The shape of every transition

A resolver may answer anything; the only assumption is that the headers around
(seeds, heads and `header_by_hash` answers) come from a set `V` in which a hash
names one header.

* `Reachable V self`: the states of a `ChainState` used in any order.
* `reachable_within`: everything such a state holds is in `V`.
* `apply_shape`: a non-empty batch over a tip is a walk down from the tip to the
  common ancestor, rolled back, and a walk up from it to the new head, applied,
  each within `max_reorg_depth` and above the finalized height.
-/
namespace Chainweave.Chain

open Stateful HashLink

/-! ## What a state holds -/

theorem HeaderCache.get_evict {cache : HeaderCache} {k : BlockHash} {v : BlockHeader}
    (h : cache.evict.get k = some v) : cache.get k = some v := by
  unfold HeaderCache.evict at h
  split at h
  · split at h
    · exact h
    · simp only [HeaderCache.get, Std.TreeMap.getElem?_erase] at h
      split at h
      · cases h
      · exact h
  · exact h

/-- A cached header was cached before, or is the one inserted. -/
theorem HeaderCache.get_insert {cache : HeaderCache} {x v : BlockHeader} {k : BlockHash}
    (h : (cache.insert x).get k = some v) : v = x ∨ cache.get k = some v := by
  unfold HeaderCache.insert at h
  split at h
  · simp only [HeaderCache.get, Std.TreeMap.getElem?_insert] at h
    split at h
    · exact .inl (Option.some.inj h).symm
    · exact .inr h
  · simp only [HeaderCache.get, Std.TreeMap.getElem?_insert] at h
    split at h
    · exact .inl (Option.some.inj h).symm
    · exact .inr (get_evict h)

/-- Every header a state holds is in `V`. -/
structure Within (V : Set BlockHeader) (state : ChainState) : Prop where
  tip : ∀ x ∈ state.tip, x ∈ V
  cache : ∀ k x, state.cache.get k = some x → x ∈ V
  canonical : ∀ (k : Nat) (x : BlockHeader), state.canonicalByHeight[k]? = some x → x ∈ V

namespace Within

variable {V : Set BlockHeader} {self : ChainState} {header : BlockHeader}

theorem cache_insert (h : Within V self) (hx : header ∈ V) :
    Within V { self with cache := self.cache.insert header } :=
  { h with cache := fun k x hk => (HeaderCache.get_insert hk).elim (· ▸ hx) (h.cache k x) }

theorem insertCanonical (h : Within V self) (hx : header ∈ V) :
    Within V (self.insertCanonical header) where
  tip := h.tip
  cache := (h.cache_insert hx).cache
  canonical k x hk := by
    simp only [ChainState.insertCanonical, Std.TreeMap.getElem?_insert] at hk
    split at hk
    · exact Option.some.inj hk ▸ hx
    · exact h.canonical k x hk

theorem removeCanonical (h : Within V self) (hx : header ∈ V) :
    Within V (self.removeCanonical header) := by
  unfold ChainState.removeCanonical
  split
  · refine { h.cache_insert hx with canonical := ?_ }
    intro k x hk
    simp only [Std.TreeMap.getElem?_erase] at hk
    split at hk
    · cases hk
    · exact h.canonical k x hk
  · exact h.cache_insert hx

theorem commitEvents {events : List ChainEvent} (h : Within V self)
    (he : ∀ e ∈ events, e.header ∈ V) : Within V (events.foldl ChainState.commitEvent self) := by
  induction events generalizing self with
  | nil => exact h
  | cons e events ih =>
    refine ih ?_ (fun e' he' => he e' (List.mem_cons_of_mem _ he'))
    have hx := he e (by simp)
    cases e with
    | apply header => exact h.insertCanonical hx
    | rollback header => exact h.removeCanonical hx

theorem lastApply_mem {events : List ChainEvent} {x : BlockHeader}
    (h : ChainState.lastApply events = some x) : .apply x ∈ events := by
  unfold ChainState.lastApply at h
  obtain ⟨e, he, hx⟩ := List.exists_of_findSome?_eq_some h
  rw [List.mem_reverse] at he
  cases e with
  | apply header => simp only [Option.some.injEq] at hx; exact hx ▸ he
  | rollback header => cases hx

theorem commit {batch : ChainBatch} (h : Within V self) (he : ∀ e ∈ batch.events, e.header ∈ V)
    (ha : ∀ x ∈ batch.commonAncestor, x ∈ V) : Within V (self.commit batch) := by
  have hc := h.commitEvents he
  unfold ChainState.commit
  dsimp only
  split
  · rename_i x hx
    refine { hc with tip := ?_ }
    intro y hy
    obtain rfl : x = y := by simpa using hy
    exact he _ (lastApply_mem hx)
  split
  · refine { hc with tip := ?_ }
    intro y hy
    simp only [Option.mem_def, Option.or_eq_some_iff] at hy
    exact hy.elim (hc.tip y) (fun hy => ha y hy.2)
  · exact hc

end Within

/-- Every `header_by_hash` answer is in `V`. -/
def HeadersIn {ρ : Type} (V : Set BlockHeader) (resolver : AncestryResolver ρ) : Prop :=
  ∀ hash s, wp (resolver.headerByHash hash) (fun o _ => ∀ x ∈ o, x ∈ V) (fun _ _ => True) s

theorem canonicalMatch_wp {ρ : Type} {self : ChainState} {resolver : AncestryResolver ρ}
    (header : BlockHeader) (s : ρ) :
    wp (self.canonicalMatch resolver header) (fun o _ => ∀ x ∈ o, x = header) (fun _ _ => True) s := by
  unfold ChainState.canonicalMatch
  split
  · simp [wp_pure]
  rw [wp_bind]
  refine wp_mapError (wp_of_eq rfl (fun o _ => ?_) (fun _ _ => trivial))
  cases o with
  | some canonical =>
    simp only [wp_bind, wp_lift]
    exact ⟨fun _ h => by simp [validateSameHeader_ok.1 h], fun _ _ => trivial⟩
  | none =>
    rw [wp_bind]
    refine wp_mapError (wp_of_eq rfl (fun o _ => ?_) (fun _ _ => trivial))
    cases o with
    | some canonical =>
      dsimp only
      split
      · simp only [wp_bind, wp_lift]
        exact ⟨fun _ h => by simp [validateSameHeader_ok.1 h], fun _ _ => trivial⟩
      · simp
    | none => simp

/-- A parent step: a child of the block it returns, from the cache, the canonical map or the
resolver. -/
theorem parentFor_wp {ρ : Type} {V : Set BlockHeader} {self : ChainState}
    {resolver : AncestryResolver ρ} (hself : Within V self) (child : BlockHeader) {I : ρ → Prop}
    {s : ρ} (hs : I s)
    (hr : wp (resolver.headerByHash child.parentHash) (fun o s' => I s' ∧ ∀ x ∈ o, x ∈ V)
      (fun _ s' => I s') s) :
    wp (self.parentFor resolver child) (fun parent s' => I s' ∧ parent ∈ V ∧ IsChild child parent)
      (fun _ s' => I s') s := by
  have hlookup : wp (self.lookupParent resolver child) (fun o s' => I s' ∧ ∀ x ∈ o, x ∈ V)
      (fun _ s' => I s') s := by
    unfold ChainState.lookupParent
    split
    · rename_i parent hp
      refine ⟨hs, fun x hx => ?_⟩
      obtain rfl : parent = x := by simpa using hx
      unfold ChainState.localParent at hp
      rw [Option.filter_eq_some_iff, Option.or_eq_some_iff] at hp
      rcases hp.1 with h | ⟨-, h⟩
      · exact hself.cache _ _ h
      · exact hself.canonical _ _ h
    · exact wp_mapError hr
  unfold ChainState.parentFor
  split
  · exact hs
  rw [wp_bind]
  refine wp_mono hlookup ?_ (fun _ _ h => h)
  rintro (_ | parent) s' ⟨hI, ho⟩
  · exact hI
  · simp only [wp_bind, wp_lift]
    exact ⟨fun _ h => ⟨hI, ho parent rfl, validateParentLink_ok.1 h⟩, fun _ _ => hI⟩

/-- The steps of a walk, whatever the canonical lookups answer. -/
theorem steps_any {ρ : Type} {V : Set BlockHeader} {self : ChainState}
    {resolver : AncestryResolver ρ} (hself : Within V self) (hr : HeadersIn V resolver) :
    Steps (fun _ => True) V (fun _ => True) (fun _ => True) self resolver where
  canonicalMatch header _ s _ := by
    refine wp_mono (canonicalMatch_wp header s) ?_ (fun _ _ h => h)
    rintro (_ | x) s' h
    · exact ⟨trivial, trivial⟩
    · exact ⟨trivial, h x rfl, trivial⟩
  parentFor child _ s _ := parentFor_wp hself child trivial
    (wp_mono (hr child.parentHash s) (fun _ _ h => ⟨trivial, h⟩) (fun _ _ h => h))

/-- Canonical lookups that read the canonical chain `K`, over a resolver that keeps `I`. -/
structure Lookups {ρ : Type} (I : ρ → Prop) (V : Set BlockHeader) (K : List BlockHeader)
    (resolver : AncestryResolver ρ) : Prop where
  headerByHash : ∀ hash s, I s → wp (resolver.headerByHash hash)
    (fun o s' => I s' ∧ ∀ x ∈ o, x ∈ V) (fun _ s' => I s') s
  canonicalHeaderByHash : ∀ hash s, I s → wp (resolver.canonicalHeaderByHash hash)
    (fun o s' => I s' ∧ o = K.find? (·.hash = hash)) (fun _ s' => I s') s
  canonicalHeaderAtHeight : ∀ height s, I s → wp (resolver.canonicalHeaderAtHeight height)
    (fun o s' => I s' ∧ ∀ x ∈ o, x ∈ K) (fun _ s' => I s') s

/-- The steps of a walk over such lookups: a header matches exactly when it is on `K`. -/
theorem steps_canonical {ρ : Type} {I : ρ → Prop} {V : Set BlockHeader} {K : List BlockHeader}
    {self : ChainState} {resolver : AncestryResolver ρ} (hself : Within V self)
    (hknown : ∀ x, self.isKnownCanonical x = true → x ∈ K) (hr : Lookups I V K resolver) :
    Steps I V (· ∈ K) (· ∉ K) self resolver where
  parentFor child _ s hs := parentFor_wp hself child hs (hr.headerByHash child.parentHash s hs)
  canonicalMatch header _ s hs := by
    unfold ChainState.canonicalMatch
    split
    · rename_i hk
      exact ⟨hs, rfl, hknown header hk⟩
    rw [wp_bind]
    refine wp_mapError (wp_mono (hr.canonicalHeaderByHash header.hash s hs) ?_ (fun _ _ h => h))
    intro o s' hpost
    rcases hpost with ⟨hI, hfind⟩
    cases o with
    | some canonical =>
      have hmem : canonical ∈ K := List.mem_of_find?_eq_some hfind.symm
      simp only [wp_bind, wp_lift]
      refine ⟨fun _ h => ⟨hI, ?_⟩, fun _ _ => hI⟩
      obtain rfl := validateSameHeader_ok.1 h
      exact ⟨rfl, hmem⟩
    | none =>
      have hno : header ∉ K := fun hmem => by
        simpa using List.find?_eq_none.1 hfind.symm header hmem
      rw [wp_bind]
      refine wp_mapError (wp_mono (hr.canonicalHeaderAtHeight header.height s' hI) ?_
        (fun _ _ h => h))
      intro o s'' hpost
      rcases hpost with ⟨hI', hat⟩
      cases o with
      | none => exact ⟨hI', hno⟩
      | some canonical =>
        dsimp only
        split
        · simp only [wp_bind, wp_lift]
          refine ⟨fun _ h => ?_, fun _ _ => hI'⟩
          exact absurd (validateSameHeader_ok.1 h ▸ hat canonical rfl) hno
        · exact ⟨hI', hno⟩

/-! ## Reachable states -/

/-- The states of a `ChainState` built by a constructor and used in any order, with any heads of
`V` and any resolvers whose headers are in `V`. A failed `apply` counts too. -/
inductive Reachable (V : Set BlockHeader) : ChainState → Prop
  | new {size depth : Nat} {self : ChainState} (h : ChainState.new size depth = .ok self) :
      Reachable V self
  | fromTip {tip : BlockHeader} {size depth : Nat} {self : ChainState} (ht : tip ∈ V)
      (h : ChainState.fromTip tip size depth = .ok self) : Reachable V self
  | fromCanonicalChain {headers : List BlockHeader} {size depth : Nat} {self : ChainState}
      (hh : ∀ x ∈ headers, x ∈ V)
      (h : ChainState.fromCanonicalChain headers size depth = .ok self) : Reachable V self
  | setFinalizedHeight {self : ChainState} (finalizedHeight : Option Nat) (h : Reachable V self) :
      Reachable V (self.setFinalizedHeight finalizedHeight)
  | apply {self : ChainState} {ρ : Type} {resolver : AncestryResolver ρ} {newHead : BlockHeader}
      (s : ρ) (h : Reachable V self) (hr : HeadersIn V resolver) (hn : newHead ∈ V) :
      Reachable V (exec (ChainState.apply resolver newHead) (self, s)).2.1

theorem within_new {V : Set BlockHeader} {size depth : Nat} {self : ChainState}
    (h : ChainState.new size depth = .ok self) : Within V self := by
  obtain ⟨_, rfl⟩ := ChainState.new_eq h
  exact ⟨by simp, by simp [HeaderCache.get, HeaderCache.new], by simp⟩

theorem within_foldl {V : Set BlockHeader} {headers : List BlockHeader} {self : ChainState}
    (h : Within V self) (hh : ∀ x ∈ headers, x ∈ V) :
    Within V (headers.foldl ChainState.insertCanonical self) := by
  induction headers generalizing self with
  | nil => exact h
  | cons x headers ih =>
    exact ih (h.insertCanonical (hh x (by simp))) (fun y hy => hh y (List.mem_cons_of_mem _ hy))

theorem fromTip_eq {tip : BlockHeader} {size depth : Nat} {self : ChainState}
    (h : ChainState.fromTip tip size depth = .ok self) :
    ∃ empty, ChainState.new size depth = .ok empty ∧
      self = { empty.insertCanonical tip with tip := some tip } := by
  unfold ChainState.fromTip at h
  cases hn : ChainState.new size depth with
  | error e => rw [hn] at h; cases h
  | ok empty => rw [hn] at h; exact ⟨empty, rfl, (Except.ok.inj h).symm⟩

theorem fromCanonicalChain_eq {headers : List BlockHeader} {size depth : Nat} {self : ChainState}
    (h : ChainState.fromCanonicalChain headers size depth = .ok self) :
    headers ≠ [] ∧ ChainState.brokenLink headers = none ∧
      ∃ empty, ChainState.new size depth = .ok empty ∧
        self = { headers.foldl ChainState.insertCanonical empty with tip := headers.getLast? } := by
  unfold ChainState.fromCanonicalChain at h
  cases headers with
  | nil => cases h
  | cons x headers =>
    cases hn : ChainState.new size depth with
    | error e => rw [hn] at h; cases h
    | ok empty =>
      rw [hn] at h
      cases hb : ChainState.brokenLink (x :: headers) with
      | some height => simp [hb, bind, Except.bind] at h
      | none =>
        simp only [hb, bind, Except.bind] at h
        exact ⟨by simp, rfl, empty, rfl, (Except.ok.inj h).symm⟩

section
variable {V : Set BlockHeader} {ρ : Type} {self : ChainState} {resolver : AncestryResolver ρ}
  {newHead : BlockHeader}

/-- A returned batch holds headers of `V` only, and so does the state it leaves. -/
theorem Applied.within {Yes No : BlockHeader → Prop} {batch : ChainBatch} {self' : ChainState}
    (hself : Within V self) (hn : newHead ∈ V) (h : Applied V Yes No self newHead batch self') :
    Within V self' := by
  cases h with
  | duplicate _ => exact hself.cache_insert hn
  | bootstrap _ _ hb => subst hb; exact hself.commit (by simpa [ChainEvent.header]) (by simp)
  | extend htip _ hb =>
    subst hb
    exact hself.commit (by simpa [ChainEvent.header]) (by simpa using hself.tip _ htip)
  | resolved htip _ _ _ _ _ ha _ hmiss hold _ _ _ hb =>
    subst hb
    refine hself.commit ?_ (by simpa using ha)
    intro e he
    simp only [List.mem_append, List.mem_map, List.mem_reverse] at he
    rcases he with ⟨x, hx, rfl⟩ | ⟨x, hx, rfl⟩
    · exact hold x hx
    · exact (hmiss x hx).1

theorem apply_wp_any (hV : HashId V) (hself : Within V self) (hr : HeadersIn V resolver)
    (hn : newHead ∈ V) (s : ρ) :
    wp (ChainState.apply resolver newHead)
      (fun batch s' => Applied V (fun _ => True) (fun _ => True) self newHead batch s'.1)
      (fun _ s' => s'.1 = self) (self, s) :=
  wp_mono (apply_wp hV (steps_any hself hr) hself.tip hn trivial) (fun _ _ h => h.2)
    (fun _ _ h => h.2)

theorem reachable_within (hV : HashId V) (h : Reachable V self) : Within V self := by
  induction h with
  | new h => exact within_new h
  | fromTip ht h =>
    obtain ⟨empty, hn, rfl⟩ := fromTip_eq h
    refine { (within_new hn).insertCanonical ht with tip := ?_ }
    simpa using ht
  | fromCanonicalChain hh h =>
    obtain ⟨-, -, empty, hn, rfl⟩ := fromCanonicalChain_eq h
    exact { within_foldl (within_new hn) hh with
      tip := fun x hx => hh x (List.mem_of_getLast? hx) }
  | setFinalizedHeight f _ ih => exact ⟨ih.tip, ih.cache, ih.canonical⟩
  | apply s _ hr hn ih =>
    have h := apply_wp_any hV ih hr hn s
    unfold wp at h
    split at h
    · rename_i he; rw [he]; exact h.within ih hn
    · rename_i he; rw [he]; exact h ▸ ih

end

/-! ## The shape -/

/-- The rollbacks and applies of a batch that took `tip` to `newHead` over `ancestor`. -/
structure TransitionShape (state : ChainState) (tip newHead : BlockHeader) (batch : ChainBatch)
    (rollbacks applies : List BlockHeader) (ancestor : BlockHeader) : Prop where
  common_ancestor : batch.commonAncestor = some ancestor
  events : batch.events = rollbacks.map .rollback ++ applies.map .apply
  first_rollback : ∀ x ∈ rollbacks.head?, x = tip
  rollback_links : rollbacks.IsChain fun x next => IsChild x next
  last_rollback : ∀ x ∈ rollbacks.getLast?, IsChild x ancestor
  no_rollback : rollbacks = [] → ancestor = tip
  first_apply : ∀ x ∈ applies.head?, IsChild x ancestor
  apply_links : applies.IsChain fun x next => IsChild next x
  last_apply : ∀ x ∈ applies.getLast?, x = newHead
  no_apply : applies = [] → ancestor = newHead
  rollbacks_le : rollbacks.length ≤ state.maxReorgDepth
  applies_le : applies.length ≤ state.maxReorgDepth
  above_finalized : ∀ x ∈ rollbacks, ∀ f ∈ state.finalizedHeight, f < x.height

/-- Two walks to the common ancestor, as the shape of a batch. -/
theorem TransitionShape.of_paths {state : ChainState} {tip newHead ancestor : BlockHeader}
    {batch : ChainBatch} {rollbacks descending : List BlockHeader}
    (hroll : Path tip rollbacks ancestor) (happly : Path newHead descending ancestor)
    (hca : batch.commonAncestor = some ancestor)
    (hev : batch.events = rollbacks.map .rollback ++ descending.reverse.map .apply)
    (hr : rollbacks.length ≤ state.maxReorgDepth) (ha : descending.length ≤ state.maxReorgDepth)
    (hf : ∀ x ∈ rollbacks, ∀ f ∈ state.finalizedHeight, f < x.height) :
    TransitionShape state tip newHead batch rollbacks descending.reverse ancestor where
  common_ancestor := hca
  events := hev
  first_rollback x hx := by
    cases hroll with
    | nil => cases hx
    | cons => exact (Option.some.inj hx).symm
  rollback_links := hroll.isChild_chain
  last_rollback x hx := hroll.last_child hx
  no_rollback h := by subst h; exact hroll.eq_of_nil
  first_apply x hx := happly.last_child (by rwa [List.head?_reverse] at hx)
  apply_links := List.isChain_reverse.2 happly.isChild_chain
  last_apply x hx := by
    rw [List.getLast?_reverse] at hx
    cases happly with
    | nil => cases hx
    | cons => exact (Option.some.inj hx).symm
  no_apply h := by
    obtain rfl : descending = [] := by simpa using h
    exact happly.eq_of_nil
  rollbacks_le := hr
  applies_le := by simpa using ha
  above_finalized := hf

/-- **A transition from a state within `V` has its shape**, over heights that are numbers. -/
theorem apply_shape {V : Set BlockHeader} (hV : HashId V) {self : ChainState}
    (hself : Within V self) {ρ : Type} {resolver : AncestryResolver ρ}
    (hr : HeadersIn V resolver) {newHead tip : BlockHeader} (hn : newHead ∈ V)
    (htip : self.tip = some tip) {s : ρ} {batch : ChainBatch}
    (happly : (exec (ChainState.apply resolver newHead) (self, s)).1 = .ok batch)
    (hne : batch.events ≠ []) :
    ∃ rollbacks applies ancestor,
      TransitionShape self tip newHead batch rollbacks applies ancestor := by
  have h := wp_ok (apply_wp_any hV hself hr hn s) (Prod.ext happly rfl)
  generalize (exec (ChainState.apply resolver newHead) (self, s)).2.1 = self' at h
  cases h with
  | duplicate _ => exact absurd rfl hne
  | bootstrap hnone => rw [hnone] at htip; cases htip
  | extend htip' hchild hb =>
    obtain rfl := Option.some.inj (htip.symm.trans htip')
    refine ⟨[], [newHead], tip, ?_⟩
    have hpath : Path newHead [newHead] tip := .cons hchild (.nil _)
    exact TransitionShape.of_paths (.nil tip) hpath (by rw [hb]) (by rw [hb]; rfl) (Nat.zero_le _)
      self.maxReorgDepth_pos (by simp)
  | @resolved _ tip' ancestor rollbacks descending htip' _ _ _ hpath hroll _ _ _ _ hlen hrlen hfin hb =>
    obtain rfl := Option.some.inj (htip.symm.trans htip')
    refine ⟨rollbacks, descending.reverse, ancestor, TransitionShape.of_paths hroll hpath
      (by rw [hb]) (by rw [hb]) hrlen hlen ?_⟩
    intro x hx f hf
    have h1 : ancestor.height < x.height := (hroll.height_mem hx).1
    exact Nat.lt_of_le_of_lt (hfin f hf) h1

/-- A resolver that answers from two lists of headers. -/
def memoryResolver (headers canonical : List BlockHeader) : AncestryResolver Unit where
  headerByHash hash := pure (headers.find? (·.hash = hash))
  canonicalHeaderByHash hash := pure (canonical.find? (·.hash = hash))
  canonicalHeaderAtHeight height := pure (canonical.find? (·.height = height))

theorem memoryResolver_headersIn {V : Set BlockHeader} {headers canonical : List BlockHeader}
    (h : ∀ x ∈ headers, x ∈ V) : HeadersIn V (memoryResolver headers canonical) :=
  fun _ _ x hx => h x (List.mem_of_find?_eq_some hx)

end Chainweave.Chain
