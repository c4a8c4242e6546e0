import Chainweave.Core.ChainExact
import Chainweave.Core.ChainHolds

/-!
# Jumping over missed heads

A head several blocks above the tip is applied through the ancestor search; its
ancestors given one by one each take the direct extension. `SameJump` says that
the two leave the same chain and tip and give the same events.

* `applyEach_extends`: following the heads one by one always succeeds.
* `Missed.outcome`: what the search does over a truthful resolver.
* `jump_iff`: the two agree for a single head, and for more exactly if the
  finalized height is not above the tip, which only the search checks, and the
  tip is still known as canonical.
-/
namespace Chainweave.Chain

open Stateful HashLink

/-- The heads applied in turn. -/
def applyEach {ρ : Type} (resolver : AncestryResolver ρ) (heads : List BlockHeader) :
    Prog (ChainState × ρ) ChainError (List ChainBatch) :=
  heads.mapM (ChainState.apply resolver)

/-- `head` alone succeeds, as `below` and then `head` do, with the same events in all, the same
canonical chain and the same tip. -/
def SameJump {ρ : Type} (resolver : AncestryResolver ρ) (self : ChainState) (s : ρ)
    (below : List BlockHeader) (head : BlockHeader) : Prop :=
  ∃ (batch : ChainBatch) (jumped : ChainState × ρ) (batches : List ChainBatch)
    (followed : ChainState × ρ),
    exec (ChainState.apply resolver head) (self, s) = (.ok batch, jumped) ∧
    exec (applyEach resolver (below ++ [head])) (self, s) = (.ok batches, followed) ∧
    batch.events = batches.flatMap (·.events) ∧
    jumped.1.canonicalChain = followed.1.canonicalChain ∧ jumped.1.tip = followed.1.tip

theorem not_sameJump_of_error {ρ : Type} {resolver : AncestryResolver ρ} {self : ChainState} {s : ρ}
    {below : List BlockHeader} {head : BlockHeader} {e : ChainError}
    (h : (exec (ChainState.apply resolver head) (self, s)).1 = .error e) :
    ¬ SameJump resolver self s below head := by
  intro hsame
  obtain ⟨batch, jumped, -, -, hx, -⟩ := hsame
  rw [hx] at h
  cases h

/-- A resolver that answers truthfully about the tip and the headers above it: it has the headers,
and its canonical rows `K` are without those above the tip. -/
structure TruthfulAbove {ρ : Type} (I : ρ → Prop) (K : List BlockHeader) (tip : BlockHeader)
    (heads : List BlockHeader) (resolver : AncestryResolver ρ) : Prop where
  headerByHash : ∀ x ∈ tip :: heads, Gives I (resolver.headerByHash x.hash) (.ok (some x))
  canonicalHeaderByHash : ∀ x ∈ tip :: heads,
    Gives I (resolver.canonicalHeaderByHash x.hash) (.ok (K.find? (·.hash = x.hash)))
  canonicalHeaderAtHeight : ∀ x ∈ tip :: heads,
    Gives I (resolver.canonicalHeaderAtHeight x.height) (.ok (K.find? (·.height = x.height)))
  unapplied : ∀ x ∈ heads, x ∉ K

section
variable {V : Set BlockHeader} {ρ : Type} {self : ChainState} {resolver : AncestryResolver ρ}
  {L heads : List BlockHeader} {tip x : BlockHeader}

/-- The batch of a head that extends the tip. -/
def extendBatch (tip head : BlockHeader) : ChainBatch where
  transition := .extend
  commonAncestor := some tip
  events := [.apply head]

/-- No block above the tip is known as canonical. -/
theorem Holds.not_known (h : Holds self L) (htip : self.tip = some tip)
    (hx : tip.height < x.height) : self.isKnownCanonical x = false := by
  rw [Bool.eq_false_iff]
  intro hk
  have hxL : x ∈ L := h.toMaps.isKnownCanonical.1 hk
  have htop : L.getLast? = some tip := (h.tracks (List.ne_nil_of_mem hxL)).tip.symm.trans htip
  have hle : x.height ≤ tip.height := h.linked.height_le htop hxL
  omega

/-- A chain above the tip goes on top of what is held. -/
theorem Holds.linked_append (h : Holds self L) (htip : self.tip = some tip)
    (hl : Linked (tip :: heads)) : Linked (L ++ heads) := by
  by_cases hne : L = []
  · subst hne
    exact hl.tail
  have htop : L.getLast? = some tip := (h.tracks hne).tip.symm.trans htip
  obtain ⟨pre, rfl⟩ := List.getLast?_eq_some_iff.1 htop
  rw [List.append_assoc]
  exact h.linked.append hl

theorem apply_extend (resolver : AncestryResolver ρ) (htip : self.tip = some tip)
    (hknown : self.isKnownCanonical x = false) (hnew : x.hash ≠ tip.hash) (hc : IsChild x tip)
    (s : ρ) :
    exec (ChainState.apply resolver x) (self, s) =
      (.ok (extendBatch tip x), (self.commit (extendBatch tip x), s)) := by
  have hheight : x.height = tip.height + 1 := hc.2
  unfold ChainState.apply
  rw [exec_bind, exec_get]
  dsimp only
  rw [if_neg (by simp [hknown, htip, hnew.symm]), htip]
  dsimp only
  rw [if_pos (show x.parentHash = tip.hash from hc.1), if_neg (not_not.2 hheight)]
  rfl

/-- **One by one.** Successive children of the tip are each applied, and end on top of what the
state held. -/
theorem applyEach_extends (hV : HashId V) (h : Holds self L) (htip : self.tip = some tip)
    (hl : Linked (tip :: heads)) (hmem : ∀ x ∈ tip :: heads, x ∈ V) (s : ρ) :
    ∃ batches self', exec (applyEach resolver heads) (self, s) = (.ok batches, (self', s)) ∧
      batches.flatMap (·.events) = heads.map .apply ∧ Holds self' (L ++ heads) ∧
      self'.tip = (tip :: heads).getLast? := by
  induction heads generalizing self L tip with
  | nil => exact ⟨[], self, rfl, rfl, by simpa using h, by simpa using htip⟩
  | cons x heads ih =>
    have hc : IsChild x tip := (List.isChain_cons_cons.1 hl).1
    have hheight : x.height = tip.height + 1 := hc.2
    have hnew : x.hash ≠ tip.hash := by
      intro he
      have heq : x = tip := hV (hmem x (by simp)) (hmem tip (by simp)) he
      rw [heq] at hheight
      omega
    have hstep := apply_extend resolver htip (h.not_known htip (by omega)) hnew hc s
    have hx : Linked (L ++ [x]) :=
      h.linked_append htip (List.isChain_cons_cons.2 ⟨hc, .singleton x⟩)
    have h' : Holds (self.commit (extendBatch tip x)) (L ++ [x]) := h.commit_apply hx rfl
    obtain ⟨batches, self', hexec, hev, hholds, hlast⟩ :=
      ih h' (h'.top x (by simp)) (List.isChain_cons_cons.1 hl).2
        (fun y hy => hmem y (List.mem_cons_of_mem _ hy))
    refine ⟨extendBatch tip x :: batches, self', ?_, ?_, by simpa using hholds, ?_⟩
    · unfold applyEach at hexec ⊢
      rw [List.mapM_cons, exec_bind, hstep]
      dsimp only
      rw [exec_bind, hexec]
      rfl
    · rw [List.flatMap_cons, hev]
      rfl
    · rw [hlast, List.getLast?_cons_cons]

/-! ## The search -/

/-- The walk down over misses goes on from where they end. -/
theorem resolveLoop_over {I : ρ → Prop} {a : BlockHeader} {xs : List BlockHeader}
    (hp : Path x xs a) (hmiss : ∀ y ∈ xs, Gives I (self.canonicalMatch resolver y) (.ok none))
    (hstep : ∀ y z, (z ∈ xs ∨ z = a) → IsChild y z → Gives I (self.parentFor resolver y) (.ok z))
    {P : List BlockHeader → Prop}
    (hP : ∀ left s, I s → wp (self.resolveLoop resolver left a) (fun r _ => P r.2)
      (fun _ _ => True) s) :
    ∀ left s, I s → wp (self.resolveLoop resolver left x)
      (fun r _ => ∃ rest, r.2 = xs ++ rest ∧ P rest) (fun _ _ => True) s := by
  induction hp with
  | nil =>
    intro left s hs
    exact wp_mono (hP left s hs) (fun r _ h => ⟨r.2, rfl, h⟩) (fun _ _ h => h)
  | @cons x y a xs hc hp ih =>
    intro left s hs
    have hy : y ∈ x :: xs ∨ y = a := by
      cases hp with
      | nil => exact .inr rfl
      | cons => exact .inl (by simp)
    have hrest := ih (fun z hz => hmiss z (List.mem_cons_of_mem _ hz))
      (fun z w hw => hstep z w (hw.imp (List.mem_cons_of_mem _) id)) hP
    unfold ChainState.resolveLoop
    rw [wp_bind]
    refine (hmiss x (by simp)).wp hs (fun o ho s' hs' => ?_) (fun _ _ _ _ => trivial)
    cases ho
    cases left with
    | zero => exact trivial
    | succ left =>
      dsimp only
      rw [wp_bind]
      refine (hstep x y hy hc).wp hs' (fun z hz s'' hs'' => ?_) (fun _ _ _ _ => trivial)
      cases hz
      rw [wp_bind]
      refine wp_mono (hrest left s'' hs'') ?_ (fun _ _ h => h)
      intro r _ hr
      obtain ⟨rest, heq, hrest⟩ := hr
      exact ⟨rest, by simp [heq], hrest⟩

/-- From a miss the walk takes at least that block. -/
theorem resolveLoop_miss {I : ρ → Prop} (hmiss : Gives I (self.canonicalMatch resolver x) (.ok none))
    (left : Nat) (s : ρ) (hs : I s) :
    wp (self.resolveLoop resolver left x) (fun r _ => r.2 ≠ []) (fun _ _ => True) s := by
  unfold ChainState.resolveLoop
  rw [wp_bind]
  refine hmiss.wp hs (fun o ho s' _ => ?_) (fun _ _ _ _ => trivial)
  cases ho
  cases left with
  | zero => exact trivial
  | succ left =>
    dsimp only
    rw [wp_bind]
    refine wp_of_eq rfl (fun parent _ => ?_) (fun _ _ => trivial)
    rw [wp_bind]
    refine wp_of_eq rfl (fun r _ => ?_) (fun _ _ => trivial)
    simp

/-- What is known of a chain of heads above the tip, and of a resolver that has them. -/
structure Missed (V : Set BlockHeader) (I : ρ → Prop) (K L : List BlockHeader) (state : ChainState)
    (resolver : AncestryResolver ρ) (tip : BlockHeader) (below : List BlockHeader)
    (head : BlockHeader) : Prop where
  hashId : HashId V
  within : Within V state
  holds : Holds state L
  tip_eq : state.tip = some tip
  linked : Linked (tip :: (below ++ [head]))
  mem : ∀ x ∈ tip :: (below ++ [head]), x ∈ V
  rows : ∀ x ∈ K, x ∈ V
  truthful : TruthfulAbove I K tip (below ++ [head]) resolver

namespace Missed

variable {I : ρ → Prop} {K below : List BlockHeader} {head : BlockHeader} {s : ρ}

theorem path (h : Missed V I K L self resolver tip below head) :
    Path head (below ++ [head]).reverse tip := by
  refine h.linked.path_down ?_
  rw [← List.cons_append, List.getLast?_append_of_ne_nil _ (by simp)]
  rfl

theorem above (h : Missed V I K L self resolver tip below head) {x : BlockHeader}
    (hx : x ∈ below ++ [head]) : tip.height < x.height :=
  (h.path.height_mem (List.mem_reverse.2 hx)).1

theorem head_new (h : Missed V I K L self resolver tip below head) : head.hash ≠ tip.hash := by
  intro he
  have heq : head = tip := h.hashId (h.mem head (by simp)) (h.mem tip (by simp)) he
  have hlt := h.above (x := head) (by simp)
  rw [heq] at hlt
  omega

theorem miss (h : Missed V I K L self resolver tip below head) {x : BlockHeader}
    (hx : x ∈ below ++ [head]) : Gives I (self.canonicalMatch resolver x) (.ok none) := by
  have hxt : x ∈ tip :: (below ++ [head]) := List.mem_cons_of_mem _ hx
  have hgives := canonicalMatch_gives_row self h.hashId h.rows (h.mem x hxt)
    (h.truthful.canonicalHeaderByHash x hxt) (h.truthful.canonicalHeaderAtHeight x hxt)
  have hknown := h.holds.not_known h.tip_eq (h.above hx)
  rwa [if_neg (by simp [hknown, h.truthful.unapplied x hx])] at hgives

theorem tip_match (h : Missed V I K L self resolver tip below head) :
    Gives I (self.canonicalMatch resolver tip)
      (.ok (if self.isKnownCanonical tip = true ∨ tip ∈ K then some tip else none)) :=
  canonicalMatch_gives_row self h.hashId h.rows (h.mem tip (by simp))
    (h.truthful.canonicalHeaderByHash tip (by simp)) (h.truthful.canonicalHeaderAtHeight tip (by simp))

theorem step (h : Missed V I K L self resolver tip below head) {y z : BlockHeader}
    (hz : z ∈ (below ++ [head]).reverse ∨ z = tip) (hc : IsChild y z) :
    Gives I (self.parentFor resolver y) (.ok z) := by
  have hzt : z ∈ tip :: (below ++ [head]) := by
    rcases hz with hz | rfl
    · exact List.mem_cons_of_mem _ (List.mem_reverse.1 hz)
    · simp
  exact parentFor_gives h.hashId h.within (h.mem z hzt) (h.truthful.headerByHash z hzt) hc

/-- The head extends the tip itself exactly if nothing lies between them. -/
theorem isChild_iff (h : Missed V I K L self resolver tip below head) :
    IsChild head tip ↔ below = [] := by
  have hheight : head.height = tip.height + (below ++ [head]).reverse.length := h.path.height_eq
  simp only [List.length_reverse, List.length_append, List.length_singleton] at hheight
  constructor
  · intro hc
    have hone : head.height = tip.height + 1 := hc.2
    exact List.eq_nil_of_length_eq_zero (by omega)
  · intro hnil
    have hl := h.linked
    subst hnil
    exact (List.isChain_cons_cons.1 hl).1

theorem link_isChild (h : Missed V I K L self resolver tip below head)
    (hlink : head.parentHash = tip.hash) : IsChild head tip := by
  -- The parent of the head on the chain is the block with that hash.
  have hp := h.path
  rw [List.reverse_append, List.reverse_singleton, List.singleton_append] at hp
  cases hp with
  | @cons _ y _ _ hc hp =>
    have hy : y ∈ V := by
      cases hb : below.reverse with
      | nil =>
        rw [hb] at hp
        rw [← hp.eq_of_nil]
        exact h.mem tip (by simp)
      | cons z rest =>
        rw [hb] at hp
        obtain rfl := hp.head_eq
        have hz : z ∈ below := List.mem_reverse.1 (by rw [hb]; simp)
        exact h.mem z (by simp [hz])
    have hyt : y.hash = tip.hash := hc.1.symm.trans hlink
    exact h.hashId hy (h.mem tip (by simp)) hyt ▸ hc

/-- Where the tip is known as canonical, the head is applied on top of it, within the finalized
height. -/
theorem outcome (h : Missed V I K L self resolver tip below head)
    (hknown : self.isKnownCanonical tip = true ∨ tip ∈ K) (hs : I s) :
    (exec (ChainState.apply resolver head) (self, s)).1 =
      expected self.maxReorgDepth self.finalizedHeight tip head tip [] (below ++ [head]).reverse := by
  refine apply_expected h.tip_eq (h.holds.not_known h.tip_eq (h.above (by simp))) h.head_new
    h.link_isChild ?_ ?_ hs
  · refine resolveLoop_gives h.path (fun y hy => h.miss (List.mem_reverse.1 hy)) ?_
      (fun y z _ hz hc => h.step hz hc) _
    have htip := h.tip_match
    rwa [if_pos hknown] at htip
  · exact rollbackLoop_gives (.nil tip) (fun y z hy _ _ => absurd hy (by simp)) _

/-- Where it is not, more is applied than the heads above it. -/
theorem unknown_events (h : Missed V I K L self resolver tip below head) (hne : below ≠ [])
    (hknown : ¬ (self.isKnownCanonical tip = true ∨ tip ∈ K)) (hs : I s) {batch : ChainBatch}
    {s' : ChainState × ρ}
    (hx : exec (ChainState.apply resolver head) (self, s) = (.ok batch, s')) :
    (below ++ [head]).length < batch.events.length := by
  have htip := h.tip_match
  rw [if_neg hknown] at htip
  have hlink : head.parentHash ≠ tip.hash := fun hl => hne (h.isChild_iff.1 (h.link_isChild hl))
  have hwalk := (apply_walks h.tip_eq (h.holds.not_known h.tip_eq (h.above (by simp))) h.head_new hlink
    s).symm.trans hx
  refine wp_ok (Q := fun batch _ => (below ++ [head]).length < batch.events.length)
    (E := fun _ _ => True) ?_ hwalk
  rw [wp_bind]
  refine wp_zoom (wp_mono (resolveLoop_over h.path (fun y hy => h.miss (List.mem_reverse.1 hy))
    (fun y z hz hc => h.step hz hc) (P := (· ≠ [])) (resolveLoop_miss htip) self.maxReorgDepth s hs)
    ?_ (fun _ _ _ => trivial))
  intro r s1 hr
  obtain ⟨ancestor, descending⟩ := r
  obtain ⟨rest, heq, hrest⟩ := hr
  dsimp only at heq
  rw [wp_bind, wp_lift]
  refine ⟨fun _ _ => ?_, fun _ _ => trivial⟩
  rw [wp_bind]
  refine wp_zoom (wp_of_eq rfl (fun rollbacks _ => ?_) (fun _ _ => trivial))
  have hpos : 0 < rest.length := List.length_pos_iff.2 hrest
  show (below ++ [head]).length <
    (rollbacks.map ChainEvent.rollback ++ descending.reverse.map ChainEvent.apply).length
  rw [heq]
  simp only [List.length_append, List.length_map, List.length_reverse, List.length_singleton]
  omega

/-- Where the head was applied on top of the tip, the chain held is the old one with the heads. -/
theorem landed (h : Missed V I K L self resolver tip below head) {batch : ChainBatch}
    {s' : ChainState × ρ} (hr : HeadersIn V resolver)
    (hx : exec (ChainState.apply resolver head) (self, s) = (.ok batch, s'))
    (hev : batch.events = (below ++ [head]).map .apply) :
    s'.1.canonicalChain = L ++ (below ++ [head]) ∧ s'.1.tip = some head := by
  have hl : Linked (L ++ (below ++ [head])) := h.holds.linked_append h.tip_eq h.linked
  have hmaps : Maps (self.commit batch) (L ++ (below ++ [head])) := by
    refine Maps.commit ?_
    rw [hev]
    exact h.holds.toMaps.applyAll hl
  have hlast : ChainState.lastApply batch.events = some head := by
    have heq := lastApply_eq [] (below ++ [head])
    simp only [List.map_nil, List.nil_append] at heq
    rw [hev, heq]
    simp
  have hcommit : s'.1 = self.commit batch := by
    have happlied := wp_ok (apply_wp_any h.hashId h.within hr (h.mem head (by simp)) s) hx
    generalize s'.1 = self' at happlied
    cases happlied with
    | duplicate _ => exact absurd hev.symm (by simp)
    | bootstrap => rfl
    | extend => rfl
    | resolved => rfl
  rw [hcommit]
  exact ⟨hmaps.canonicalChain_eq hl, commit_tip_apply hlast⟩

end Missed

/-- **Jumping over missed heads.** From a reachable state with a tip, over a truthful resolver and up
to `max_reorg_depth` children above the tip, the last of them alone gives what all of them in turn
give exactly if it is the only one, or the finalized height is not above the tip and the tip is
canonical, in memory or for the resolver. -/
theorem jump_iff (hV : HashId V) (hself : Reachable V self) (htip : self.tip = some tip)
    {I : ρ → Prop} {K below : List BlockHeader} {head : BlockHeader}
    (hl : Linked (tip :: (below ++ [head]))) (hmem : ∀ x ∈ below ++ [head], x ∈ V)
    (hlen : (below ++ [head]).length ≤ self.maxReorgDepth) (hr : HeadersIn V resolver)
    (hK : ∀ x ∈ K, x ∈ V) (htrue : TruthfulAbove I K tip (below ++ [head]) resolver) {s : ρ}
    (hs : I s) :
    SameJump resolver self s below head ↔
      below = [] ∨ (∀ f ∈ self.finalizedHeight, f ≤ tip.height) ∧
        (self.isKnownCanonical tip = true ∨ tip ∈ K) := by
  obtain ⟨L, hL⟩ := reachable_holds hV hself
  have hwithin := reachable_within hV hself
  have htipV : tip ∈ V := hwithin.tip tip htip
  have hmem' : ∀ x ∈ tip :: (below ++ [head]), x ∈ V := by
    intro x hx
    rcases List.mem_cons.1 hx with rfl | hx
    · exact htipV
    · exact hmem x hx
  have h : Missed V I K L self resolver tip below head :=
    ⟨hV, hwithin, hL, htip, hl, hmem', hK, htrue⟩
  obtain ⟨batches, followed, hfollow, hevents, hheld, hlast⟩ := applyEach_extends hV hL htip hl hmem' s
  have hlast' : followed.tip = some head := by
    rw [hlast, ← List.cons_append, List.getLast?_append_of_ne_nil _ (by simp)]
    rfl
  have hchain := hheld.toMaps.canonicalChain_eq hheld.linked
  -- It is enough that the head alone succeeds with the applies of all.
  have henough : ∀ batch, (exec (ChainState.apply resolver head) (self, s)).1 = .ok batch →
      batch.events = (below ++ [head]).map .apply → SameJump resolver self s below head := by
    intro batch hb hev
    have hx : exec (ChainState.apply resolver head) (self, s) =
        (.ok batch, (exec (ChainState.apply resolver head) (self, s)).2) := Prod.ext hb rfl
    obtain ⟨hc, ht⟩ := h.landed hr hx hev
    exact ⟨batch, _, batches, (followed, s), hx, hfollow, hev.trans hevents.symm,
      hc.trans hchain.symm, ht.trans hlast'.symm⟩
  by_cases hbelow : below = []
  · refine iff_of_true ?_ (.inl hbelow)
    have hexec := apply_extend resolver htip (hL.not_known htip (h.above (by simp)))
      h.head_new (h.isChild_iff.2 hbelow) s
    refine henough (extendBatch tip head) (by rw [hexec]) ?_
    rw [hbelow]
    rfl
  rw [or_iff_right hbelow]
  by_cases hknown : self.isKnownCanonical tip = true ∨ tip ∈ K
  · have hout := h.outcome hknown hs
    unfold expected at hout
    rw [if_neg (fun hc => hbelow (h.isChild_iff.1 hc)), if_neg (by simpa using hlen)] at hout
    rw [and_iff_left hknown]
    cases hf : self.finalizedHeight.filter (tip.height < ·) with
    | none =>
      rw [hf, if_neg (by simp)] at hout
      refine iff_of_true (henough _ hout ?_) ?_
      · simp [resolvedBatch]
      · intro f hfin
        rw [Option.mem_def.1 hfin] at hf
        simpa [Option.filter] using hf
    | some f =>
      rw [hf] at hout
      have hsome := Option.filter_eq_some_iff.1 hf
      refine iff_of_false (not_sameJump_of_error hout) (fun hfin => ?_)
      have hle := hfin f hsome.1
      have hlt : tip.height < f := by simpa using hsome.2
      omega
  · refine iff_of_false (fun hsame => ?_) (fun hand => hknown hand.2)
    obtain ⟨batch, jumped, batches', followed', hx, hfollow', hev, -⟩ := hsame
    have hgt := h.unknown_events hbelow hknown hs hx
    rw [hfollow] at hfollow'
    cases hfollow'
    rw [hev, hevents, List.length_map] at hgt
    exact absurd hgt (Nat.lt_irrefl _)

end

/-- The chain of three blocks used below. -/
def threeBlocks : List BlockHeader := [⟨1, 0, 0⟩, ⟨2, 1, 1⟩, ⟨3, 2, 2⟩]

theorem threeBlocks_hashId : HashId {x | x ∈ threeBlocks} := by
  have h : ∀ a ∈ threeBlocks, ∀ b ∈ threeBlocks, a.hash = b.hash → a = b := by decide
  exact fun a ha b hb => h a ha b hb

/-- A resolver with the three blocks and a row for the first of them. -/
def threeBlocksResolver : AncestryResolver Unit := memoryResolver threeBlocks [⟨1, 0, 0⟩]

theorem threeBlocks_truthful : TruthfulAbove (fun _ => True) [⟨1, 0, 0⟩] ⟨1, 0, 0⟩
    [⟨2, 1, 1⟩, ⟨3, 2, 2⟩] threeBlocksResolver where
  headerByHash x hx := by
    have hfind : threeBlocks.find? (·.hash = x.hash) = some x := by
      revert x
      decide
    show Gives _ (pure (threeBlocks.find? (·.hash = x.hash))) _
    rw [hfind]
    exact .pure _
  canonicalHeaderByHash _ _ := .pure _
  canonicalHeaderAtHeight _ _ := .pure _
  unapplied := by decide

/-- `jump_iff` where the finalized height is that of the tip. -/
theorem jump_two : ∃ self : ChainState, self.finalizedHeight = some 0 ∧
    SameJump threeBlocksResolver self () [⟨2, 1, 1⟩] ⟨3, 2, 2⟩ := by
  have hseed := @Reachable.fromTip {x | x ∈ threeBlocks} ⟨1, 0, 0⟩ 4 8 _ (by decide) rfl
  refine ⟨_, rfl, (jump_iff threeBlocks_hashId (.setFinalizedHeight (some 0) hseed) rfl (by decide)
    (by decide) (by decide) (memoryResolver_headersIn (fun _ h => h)) (by decide) threeBlocks_truthful
    trivial).2 (.inr ⟨?_, .inr (by simp)⟩)⟩
  intro f hf
  obtain rfl : 0 = f := Option.some.inj hf
  exact Nat.le_refl 0

/-- With the finalized height above the tip, the first of two missed heads is applied and the second
then too, but the second alone is refused. -/
theorem jump_refused : ∃ (V : Set BlockHeader) (self : ChainState), HashId V ∧ Reachable V self ∧
    self.tip = some ⟨1, 0, 0⟩ ∧ Linked [(⟨1, 0, 0⟩ : BlockHeader), ⟨2, 1, 1⟩, ⟨3, 2, 2⟩] ∧
    2 ≤ self.maxReorgDepth ∧ self.isKnownCanonical ⟨1, 0, 0⟩ = true ∧
    HeadersIn V threeBlocksResolver ∧
    TruthfulAbove (fun _ => True) [⟨1, 0, 0⟩] ⟨1, 0, 0⟩ [⟨2, 1, 1⟩, ⟨3, 2, 2⟩] threeBlocksResolver ∧
    (exec (ChainState.apply threeBlocksResolver ⟨3, 2, 2⟩) (self, ())).1 =
      .error (.finalizedBoundary 0 5) ∧
    ¬ SameJump threeBlocksResolver self () [⟨2, 1, 1⟩] ⟨3, 2, 2⟩ := by
  have hseed := @Reachable.fromTip {x | x ∈ threeBlocks} ⟨1, 0, 0⟩ 4 8 _ (by decide) rfl
  refine ⟨_, _, threeBlocks_hashId, .setFinalizedHeight (some 5) hseed, rfl, by decide, by decide,
    by decide +kernel, memoryResolver_headersIn (fun _ h => h), threeBlocks_truthful,
    by decide +kernel, ?_⟩
  refine not_sameJump_of_error (e := .finalizedBoundary 0 5) ?_
  decide +kernel

end Chainweave.Chain
