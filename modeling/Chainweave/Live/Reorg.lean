import Chainweave.Live.Agree
import Chainweave.Live.Serve

/-!
# Following a reorg

A source of one chain and a sink whose rows leave it at `a` (`Parted`). The state that
`apply_chain_state` starts from knows the checkpoint and nothing else, so both walks ask
the source: `resolve_common_ancestor` for every block from the head down to `a`, and
`rollback_path` for every orphan below the checkpoint.

* `resolve_gives`, `rollback_gives`: the two walks, if the source has what they ask for.
  `rollback_stuck`: it does not have the orphans.
* `outcome_within`, `outcome_beyond`, `outcome_stuck`: the outcome of the source's head.
* `run_turn`: a run over a reorg is one `apply_chain_state` of the head. `run_straight`,
  `run_behind`: there is no reorg.
-/
namespace Chainweave.Live

open Stateful HashLink Chainweave.Chain Chainweave.Backfill Chainweave.Postgres Chainweave.Runtime
open BlockingPostgresLiveSink (checkpointRow)

variable {σ ε : Type} {V : Set BlockHeader} {c : SourceChain V} {L : List BlockHeader}
  {cp a : BlockHeader} {source : BlockSource σ ε} {config : LiveConfig}
  {k : BlockingPostgresLiveSink}

/-- The source answers `header_by_hash` for `x`. -/
def HasHeader (source : BlockSource σ ε) (x : BlockHeader) : Prop :=
  ∀ node, (exec (source.headerByHash x.hash) node).1 = .ok (some x)

/-- The source has no block of this hash: it says so, or fails. -/
def LacksHeader (source : BlockSource σ ε) (hash : BlockHash) : Prop :=
  ∀ node, wp (source.headerByHash hash) (fun o _ => o = none) (fun _ _ => True) node

/-! ## Two chains that part -/

/-- The rows of the sink are the chain `L` up to `cp`, and the source's chain leaves it at `a`. -/
structure Parted (c : SourceChain V) (L : List BlockHeader) (k : BlockingPostgresLiveSink)
    (cp a : BlockHeader) : Prop where
  hashId : HashId V
  unbroken : Unbroken V k
  wellFormed : WellFormed V k.server.db.1 L
  last : L.getLast? = some cp
  fork : ForkAt c L a

namespace Parted

theorem row (h : Parted c L k cp a) : checkpointRow k.server.db = some cp :=
  (checkpointRow_wellFormed h.wellFormed).trans h.last

theorem mem (h : Parted c L k cp a) {x : BlockHeader} (hx : x ∈ L) : x ∈ V :=
  h.wellFormed.rows x (Tables.canonical_subset ((h.wellFormed.canonical x).2 hx))

theorem cp_mem (h : Parted c L k cp a) : cp ∈ L := List.mem_of_getLast? h.last

theorem height_le (h : Parted c L k cp a) : a.height ≤ cp.height :=
  h.wellFormed.linked.height_le h.last h.fork.mem

theorem fork_le (h : Parted c L k cp a) : a.height ≤ c.height := h.fork.has.1

/-- Above the fork, no row is the source's. -/
theorem cp_orphan (h : Parted c L k cp a) (hne : cp ≠ a) : a.height < cp.height ∧ ¬ c.line.Has cp := by
  have hlt : a.height < cp.height := by
    refine Nat.lt_of_le_of_ne h.height_le fun heq => hne ?_
    exact h.wellFormed.linked.eq_of_height h.cp_mem h.fork.mem heq.symm
  exact ⟨hlt, h.fork.above cp h.cp_mem hlt⟩

theorem head_eq (h : Parted c L k cp a) (heq : a.height = c.height) : c.head = a := by
  have hat := h.fork.has.2
  rw [block_height, heq] at hat
  exact hat

/-- A block of the source above the fork is no row. -/
theorem not_mem (h : Parted c L k cp a) {x : BlockHeader} (hx : c.line.Has x)
    (hlt : a.height < x.height) : x ∉ L := fun hmem => h.fork.above x hmem hlt hx

/-- The walk down from the checkpoint, and the walk down from the head. -/
theorem walks (h : Parted c L k cp a) : ∃ pre rollbacks descending : List BlockHeader,
    L = pre ++ a :: rollbacks.reverse ∧ Path cp rollbacks a ∧ Path c.head descending a ∧
      (∀ y ∈ descending, c.line.Has y ∧ y ∉ L) ∧
      descending.reverse = (c.blocksFrom (a.height + 1)).map (·.header) := by
  obtain ⟨pre, rollbacks, hsplit, hroll⟩ := h.wellFormed.linked.path h.last h.fork.mem
  obtain ⟨descending, hpath, hon⟩ := c.line.exists_path h.fork_le (Nat.le_refl c.height)
  have hat : c.line.blockAt a.height = a := h.fork.has.2
  rw [hat] at hpath
  refine ⟨pre, rollbacks, descending, hsplit, hroll, hpath, fun y hy => ?_, ?_⟩
  · exact ⟨(hon y hy).1, h.not_mem (hon y hy).1 (hon y hy).2⟩
  · exact (walk_eq h.hashId hpath (fun y hy => (hon y hy).1.mem) (h.mem h.fork.mem)).2

theorem orphan_mem (_ : Parted c L k cp a) {x : BlockHeader} (hx : x ∈ c.orphans L) : x ∈ L := by
  rw [← c.shared_append_orphans L]
  exact List.mem_append_right _ hx

theorem mem_orphans (h : Parted c L k cp a) {x : BlockHeader} (hx : x ∈ L)
    (hlt : a.height < x.height) : x ∈ c.orphans L := by
  have hl := h.wellFormed.linked
  rw [← c.shared_append_orphans L] at hx hl
  cases List.mem_append.1 hx with
  | inl hshared =>
    have hle : x.height ≤ a.height :=
      hl.left.height_le (h.fork.shared_last h.wellFormed.linked) hshared
    omega
  | inr horphan => exact horphan

/-- The parent of the checkpoint, where more than one row is orphaned. -/
theorem exists_parent (h : Parted c L k cp a) (hdeep : a.height + 1 < cp.height) :
    ∃ parent ∈ c.orphans L, IsChild cp parent := by
  obtain ⟨parent, hmem, hheight⟩ := h.wellFormed.linked.exists_height h.fork.mem h.cp_mem
    (show a.height ≤ cp.height - 1 by omega) (show cp.height - 1 ≤ cp.height by omega)
  rw [block_height] at hheight
  refine ⟨parent, h.mem_orphans hmem (by omega), ?_⟩
  exact h.wellFormed.linked.isChild hmem h.cp_mem (by simp only [block_height]; omega)

end Parted

/-! ## The walks -/

section

/-- The resolver of a run over the sink `k`. -/
abbrev resolverOf (source : BlockSource σ ε) : AncestryResolver (TrackState σ) :=
  liveResolver source.toLiveSource BlockingPostgresLiveSink.liveSink

theorem resolver_reads (hv : k.server.readFaults = []) :
    ReadsRows (fun s : TrackState σ => s.2.sink = k) k.server.db.1.canonical
      (resolverOf source) where
  byHash hash s hs := by
    show Except.ok (BlockingPostgresLiveSink.liveSink.canonicalHeaderByHash hash s.2.sink).1 = _ ∧
      (BlockingPostgresLiveSink.liveSink.canonicalHeaderByHash hash s.2.sink).2 = k
    rw [hs, BlockingPostgresLiveSink.canonicalHeaderByHash_read hv hash]
    exact ⟨rfl, rfl⟩
  atHeight height s hs := by
    show Except.ok (BlockingPostgresLiveSink.liveSink.canonicalHeaderAtHeight height s.2.sink).1 = _ ∧
      (BlockingPostgresLiveSink.liveSink.canonicalHeaderAtHeight height s.2.sink).2 = k
    rw [hs, BlockingPostgresLiveSink.canonicalHeaderAtHeight_read hv height]
    exact ⟨congrArg Except.ok (Database.canonicalHeaderAtHeight_eq _ _), rfl⟩

theorem resolver_has {x : BlockHeader} (hx : HasHeader source x) :
    Gives (fun s : TrackState σ => s.2.sink = k)
      ((resolverOf source).headerByHash x.hash) (.ok (some x)) := by
  intro s hs
  refine ⟨?_, hs⟩
  show ((exec (source.headerByHash x.hash) s.2.source).1.mapError _) = _
  rw [hx]
  rfl

variable {state : ChainState} {descending rollbacks : List BlockHeader}

theorem state_within (h : Parted c L k cp a) (hfrom : FromCheckpoint config cp state) :
    Within V state := by
  have hcp : cp ∈ V := h.mem h.cp_mem
  exact ⟨fun x hx => hfrom.within.tip x hx ▸ hcp, fun n x hx => hfrom.within.cache n x hx ▸ hcp,
    fun n x hx => hfrom.within.canonical n x hx ▸ hcp⟩

theorem state_known (h : Parted c L k cp a) (hfrom : FromCheckpoint config cp state) (x : BlockHeader)
    (hx : state.isKnownCanonical x = true) : x ∈ k.server.db.1.canonical :=
  (h.wellFormed.canonical x).2 (hfrom.known x hx ▸ h.cp_mem)

/-- **The walk down from the head** arrives at the fork, if it is not longer than the limit. -/
theorem resolve_gives (h : Parted c L k cp a) (hfrom : FromCheckpoint config cp state)
    (hserved : ∀ x, c.line.Has x → HasHeader source x) (hpath : Path c.head descending a)
    (hnew : ∀ y ∈ descending, c.line.Has y ∧ y ∉ L) :
    Gives (fun s : TrackState σ => s.2.sink = k)
      (state.resolveCommonAncestor (resolverOf source) c.head)
      (if descending.length ≤ state.maxReorgDepth then .ok (a, descending)
        else .error (.maxDepthExceeded state.maxReorgDepth)) := by
  have hmatch : ∀ {y}, y ∈ V → Gives (fun s : TrackState σ => s.2.sink = k)
      (state.canonicalMatch (resolverOf source) y)
      (.ok (if y ∈ k.server.db.1.canonical then some y else none)) := fun hy =>
    canonicalMatch_gives h.hashId (fun b hb => h.wellFormed.rows b (Tables.canonical_subset hb))
      (state_known h hfrom) (resolver_reads h.unbroken.reads) hy
  refine resolveLoop_gives hpath (fun y hy => ?_) ?_ (fun y z _ hz hc => ?_) _
  · have hgives := hmatch (hnew y hy).1.mem
    rwa [if_neg fun hmem => (hnew y hy).2 ((h.wellFormed.canonical y).1 hmem)] at hgives
  · have hgives := hmatch (h.mem h.fork.mem)
    rwa [if_pos ((h.wellFormed.canonical a).2 h.fork.mem)] at hgives
  · have hhas : c.line.Has z := by
      cases hz with
      | inl hz => exact (hnew z hz).1
      | inr hz => exact hz ▸ h.fork.has
    exact parentFor_gives h.hashId (state_within h hfrom) hhas.mem (resolver_has (hserved z hhas)) hc

/-- **The walk down from the checkpoint**, if the source has the blocks below it. -/
theorem rollback_gives (h : Parted c L k cp a) (hfrom : FromCheckpoint config cp state)
    (hroll : Path cp rollbacks a) (hrows : ∀ y ∈ rollbacks, y ∈ L)
    (hserved : ∀ x ∈ L, a.height ≤ x.height → x.height < cp.height → HasHeader source x) :
    Gives (fun s : TrackState σ => s.2.sink = k)
      (state.rollbackPath (resolverOf source) cp a)
      (if rollbacks.length ≤ state.maxReorgDepth then .ok rollbacks
        else .error (.maxDepthExceeded state.maxReorgDepth)) := by
  refine rollbackLoop_gives hroll (fun y z hy hz hc => ?_) _
  have hheight : y.height = z.height + 1 := hc.2
  have hle : y.height ≤ cp.height := (hroll.height_mem hy).2
  have hmem : z ∈ L ∧ a.height ≤ z.height := by
    cases hz with
    | inl hz => exact ⟨hrows z hz, Nat.le_of_lt (hroll.height_mem hz).1⟩
    | inr hz => exact ⟨hz ▸ h.fork.mem, hz ▸ Nat.le_refl _⟩
  exact parentFor_gives h.hashId (state_within h hfrom) (h.mem hmem.1)
    (resolver_has (hserved z hmem.1 hmem.2 (by omega))) hc

/-- A source without the orphans: the walk down from the checkpoint does not get below the first. -/
theorem rollback_stuck (h : Parted c L k cp a) (hfrom : FromCheckpoint config cp state)
    (hdeep : a.height + 1 < cp.height)
    (hpruned : ∀ x ∈ c.orphans L, LacksHeader source x.hash)
    (p : TrackState σ) :
    wp (state.rollbackPath (resolverOf source) cp a) (fun _ _ => False) (fun _ _ => True) p := by
  obtain ⟨parent, hparent, hchild⟩ := h.exists_parent hdeep
  have hlacks := hpruned parent hparent
  have hparentV : parent ∈ V := h.mem (h.orphan_mem hparent)
  have hheight : cp.height = parent.height + 1 := hchild.2
  have hhash : cp.parentHash = parent.hash := hchild.1
  -- The state knows the checkpoint alone, which is not its own parent.
  have hlocal : state.localParent cp = none := by
    cases hp : state.localParent cp with
    | none => rfl
    | some found =>
      unfold ChainState.localParent at hp
      rw [Option.filter_eq_some_iff, Option.or_eq_some_iff] at hp
      obtain ⟨hfound, hsame⟩ := hp
      have heq : found = cp := by
        cases hfound with
        | inl hcache => exact hfrom.within.cache _ _ hcache
        | inr hrow => exact hfrom.within.canonical _ _ hrow.2
      have hself : cp = parent := h.hashId (h.mem h.cp_mem) hparentV
        (heq ▸ (of_decide_eq_true hsame).trans hhash)
      rw [hself] at hheight
      omega
  have hnone : wp (state.parentFor (resolverOf source) cp) (fun _ _ => False) (fun _ _ => True) p := by
    unfold ChainState.parentFor
    rw [if_neg (by omega), wp_bind]
    unfold ChainState.lookupParent
    rw [hlocal, hhash]
    refine wp_mapError ?_
    unfold resolverOf liveResolver
    rw [wp_bind]
    refine wp_zoom (wp_mapError (wp_zoom (wp_mono (hlacks p.2.source) ?_ fun _ _ _ => trivial)))
    intro o _ ho
    rw [ho]
    exact trivial
  unfold ChainState.rollbackPath
  cases state.maxReorgDepth with
  | zero =>
    unfold ChainState.rollbackLoop
    rw [if_pos (by omega)]
    exact trivial
  | succ left =>
    unfold ChainState.rollbackLoop
    rw [if_pos (by omega)]
    dsimp only
    rw [wp_bind]
    exact wp_mono hnone (fun _ _ hfalse => hfalse.elim) fun _ _ _ => trivial

/-! ## The outcome of a head -/

/-- The head of a source that has left the rows, and gone on. -/
theorem Parted.head_off (h : Parted c L k cp a) (hne : cp ≠ a) (hup : a.height < c.height) :
    c.head ≠ cp ∧ c.head.hash ≠ cp.hash ∧ c.head.parentHash ≠ cp.hash := by
  have hoff := (h.cp_orphan hne).2
  have hcp := h.mem h.cp_mem
  have hhead : c.head ≠ cp := fun heq => hoff (heq ▸ SourceChain.has_head)
  refine ⟨hhead, fun heq => hhead (h.hashId (c.mem _ (Nat.le_refl _)) hcp heq), fun heq => hoff ?_⟩
  obtain ⟨n, hn⟩ : ∃ n, c.height = n + 1 := ⟨c.height - 1, by omega⟩
  have hchild : IsChild c.head (c.block n).header := by
    have hl := c.linked n (by omega)
    rwa [← hn] at hl
  have hparent : (c.block n).header = cp :=
    h.hashId (c.mem n (by omega)) hcp (hchild.1.symm.trans heq)
  exact hparent ▸ Line.has_blockAt (c := c.line) (show n ≤ c.height by omega)

/-- **The outcome of the head** is `expected`, if the source has all that the walks ask for. -/
theorem outcome_eq (h : Parted c L k cp a) (hne : cp ≠ a) (hup : a.height < c.height)
    (hserved : ∀ x, c.line.Has x → HasHeader source x)
    (hback : ∀ x ∈ L, a.height ≤ x.height → x.height < cp.height → HasHeader source x)
    (hroll : Path cp rollbacks a) (hrows : ∀ y ∈ rollbacks, y ∈ L)
    (hpath : Path c.head descending a) (hnew : ∀ y ∈ descending, c.line.Has y ∧ y ∉ L)
    {r : Except ChainError ChainBatch} (hout : Outcome config source k cp c.head r) :
    r = expected config.maxReorgDepth config.finalizedHeight cp c.head a rollbacks descending := by
  obtain ⟨state, p, hstate, hp, rfl⟩ := hout
  have hfrom := (checkpointState_ok hstate).2
  obtain ⟨hhead, hhash, hlink⟩ := h.head_off hne hup
  rw [← hfrom.maxReorgDepth, ← hfrom.finalizedHeight]
  refine apply_expected hfrom.tip ?_ hhash (fun hparent => absurd hparent hlink)
    (resolve_gives h hfrom hserved hpath hnew) (rollback_gives h hfrom hroll hrows hback) hp
  rw [Bool.eq_false_iff]
  exact fun hknown => hhead (hfrom.known c.head hknown)

/-- A source without the orphans: more than one of them, and the head is not resolved. -/
theorem outcome_stuck (h : Parted c L k cp a) (hdeep : a.height + 1 < cp.height)
    (hup : a.height < c.height) (hserved : ∀ x, c.line.Has x → HasHeader source x)
    (hpruned : ∀ x ∈ c.orphans L, LacksHeader source x.hash)
    (hdepth : c.height - a.height ≤ config.maxReorgDepth)
    (hfinal : ∀ f ∈ config.finalizedHeight, f ≤ a.height) {batch : ChainBatch} :
    ¬ Outcome config source k cp c.head (.ok batch) := by
  intro hout
  obtain ⟨state, p, hstate, hp, hbatch⟩ := hout
  have hfrom := (checkpointState_ok hstate).2
  have hne : cp ≠ a := by
    intro hsame
    subst hsame
    omega
  obtain ⟨hhead, hhash, hlink⟩ := h.head_off hne hup
  obtain ⟨-, -, descending, -, -, hpath, hnew, -⟩ := h.walks
  have hlength : c.height = a.height + descending.length :=
    SourceChain.head_height.symm.trans hpath.height_eq
  have hresolve := resolve_gives h hfrom hserved hpath hnew
  rw [if_pos (by rw [hfrom.maxReorgDepth]; omega)] at hresolve
  have hboundary : state.enforceFinalizedBoundary a = .ok () := by
    unfold ChainState.enforceFinalizedBoundary
    rw [hfrom.finalizedHeight]
    cases hf : config.finalizedHeight with
    | none => rfl
    | some f =>
      dsimp only
      rw [if_neg (Nat.not_lt.2 (hfinal f hf))]
  have hknown : state.isKnownCanonical c.head = false := by
    rw [Bool.eq_false_iff]
    exact fun hknown => hhead (hfrom.known c.head hknown)
  refine apply_resolved (P := fun r => r ≠ .ok batch) hfrom.tip hknown hhash hlink hresolve hboundary
    hp (fun p1 _ => ?_) hbatch
  cases hx : exec (state.rollbackPath (resolverOf source) cp a) p1 with
  | mk r p2 =>
    cases r with
    | error e => exact fun heq => by cases heq
    | ok rollbacks => exact (wp_ok (rollback_stuck h hfrom hdeep hpruned p1) hx).elim

/-- Within the limits, `expected` is the batch of the two walks. -/
theorem expected_within {depth : Nat} {finalized : Option Nat} {tip x : BlockHeader}
    (hother : ¬ IsChild x tip) (hd : descending.length ≤ depth) (hr : rollbacks.length ≤ depth)
    (hfinal : ∀ f ∈ finalized, f ≤ a.height) :
    expected depth finalized tip x a rollbacks descending =
      .ok (resolvedBatch a rollbacks descending) := by
  unfold expected
  rw [if_neg hother, if_neg (by omega)]
  have hnone : finalized.filter (a.height < ·) = none := by
    cases finalized with
    | none => rfl
    | some f => simpa using hfinal f rfl
  rw [hnone]
  dsimp only
  rw [if_neg (by omega)]

/-- Beyond the depth limit, `expected` is the halt. -/
theorem expected_beyond {depth : Nat} {finalized : Option Nat} {tip x : BlockHeader}
    (hother : ¬ IsChild x tip) (hd : depth < descending.length) :
    expected depth finalized tip x a rollbacks descending = .error (.maxDepthExceeded depth) := by
  unfold expected
  rw [if_neg hother, if_pos hd]

/-- The batch of the two walks turns the rows to the source's chain. -/
theorem Parted.turn (h : Parted c L k cp a) {pre : List BlockHeader}
    (hsplit : L = pre ++ a :: rollbacks.reverse) (hpath : Path c.head descending a)
    (hnew : ∀ y ∈ descending, c.line.Has y ∧ y ∉ L) (hne : descending ≠ []) :
    Turn V L c.head (resolvedBatch a rollbacks descending) (pre ++ [a]) rollbacks.reverse
      descending.reverse where
  split := by simp [hsplit]
  linked := by
    have hassoc : L = (pre ++ [a]) ++ rollbacks.reverse := by simp [hsplit]
    have hleft : Linked (pre ++ [a]) := (hassoc ▸ h.wellFormed.linked).left
    simpa using hleft.append hpath.linked
  new x hx := ⟨(hnew x (List.mem_reverse.1 hx)).1.mem, (hnew x (List.mem_reverse.1 hx)).2⟩
  events := by
    rw [List.reverse_reverse]
    rfl
  ancestor := by simp [resolvedBatch]
  base_ne := by simp
  top := by
    rw [List.getLast?_append_of_ne_nil _ (by simpa using hne), List.getLast?_reverse]
    exact hpath.head?_eq hne
  moved := .inr (by simpa using hne)

/-- **A head beyond the depth limit** is too far, however short the reorg. -/
theorem outcome_beyond (h : Parted c L k cp a) (hne : cp ≠ a) (hup : a.height < c.height)
    (hserved : ∀ x, c.line.Has x → HasHeader source x)
    (hback : ∀ x ∈ L, a.height ≤ x.height → x.height < cp.height → HasHeader source x)
    (hfar : config.maxReorgDepth < c.height - a.height) {r : Except ChainError ChainBatch}
    (hout : Outcome config source k cp c.head r) :
    r = .error (.maxDepthExceeded config.maxReorgDepth) := by
  obtain ⟨pre, rollbacks, descending, hsplit, hroll, hpath, hnew, -⟩ := h.walks
  have hlength : c.height = a.height + descending.length :=
    SourceChain.head_height.symm.trans hpath.height_eq
  have hrows : ∀ y ∈ rollbacks, y ∈ L := by
    intro y hy
    rw [hsplit]
    simp [hy]
  rw [outcome_eq h hne hup hserved hback hroll hrows hpath hnew hout]
  exact expected_beyond (fun hchild => (h.head_off hne hup).2.2 hchild.1) (by omega)

/-- **A head within the limits** turns the rows to the source's chain. -/
theorem outcome_within (h : Parted c L k cp a) (hne : cp ≠ a) (hup : a.height < c.height)
    (hserved : ∀ x, c.line.Has x → HasHeader source x)
    (hback : ∀ x ∈ L, a.height ≤ x.height → x.height < cp.height → HasHeader source x)
    (hnear : c.height - a.height ≤ config.maxReorgDepth)
    (hdepth : cp.height - a.height ≤ config.maxReorgDepth)
    (hfinal : ∀ f ∈ config.finalizedHeight, f ≤ a.height) : ∃ batch base ups,
      Turn V L c.head batch base ups ((c.blocksFrom (a.height + 1)).map (·.header)) ∧
        ∀ r, Outcome config source k cp c.head r → r = .ok batch := by
  obtain ⟨pre, rollbacks, descending, hsplit, hroll, hpath, hnew, hblocks⟩ := h.walks
  have hlength : c.height = a.height + descending.length :=
    SourceChain.head_height.symm.trans hpath.height_eq
  have hrolled : cp.height = a.height + rollbacks.length := hroll.height_eq
  have hrows : ∀ y ∈ rollbacks, y ∈ L := by
    intro y hy
    rw [hsplit]
    simp [hy]
  refine ⟨resolvedBatch a rollbacks descending, pre ++ [a], rollbacks.reverse, ?_, fun r hout => ?_⟩
  · rw [← hblocks]
    exact h.turn hsplit hpath hnew (List.ne_nil_of_length_pos (by omega))
  · rw [outcome_eq h hne hup hserved hback hroll hrows hpath hnew hout]
    exact expected_within (fun hchild => (h.head_off hne hup).2.2 hchild.1) (by omega) (by omega) hfinal

end

/-! ## The run -/

section
variable {p : Peers σ BlockingPostgresLiveSink} {s : TrackState σ}
  {Q : Unit → TrackState σ → Prop} {E : LiveError → TrackState σ → Prop}

/-- There is a coordinator for the heights above a block. -/
theorem coordinator_above (anchor : BlockHeader) {top : Nat} (htop : anchor.height < top) :
    ∃ coordinator : OrderedCommitCoordinator IndexedBlock,
      OrderedCommitCoordinator.new (anchor.height + 1) top (some anchor) = .ok coordinator :=
  new_exists htop (by simp) (by simp)

/-- Catch-up from a checkpoint that the source has left meets the reorg at its first block. -/
theorem catchUpFromCheckpoint_turns (h : Parted c L s.2.sink cp a) (hne : cp ≠ a)
    (hhigher : cp.height < c.height) (hA : Answers c.replies c.Beyond source)
    (hQ : ∀ s' : TrackState σ, s'.2.sink = s.2.sink →
      s'.1.report.halted = s.1.report.halted →
      wp (applyChainState config source.toLiveSource BlockingPostgresLiveSink.liveSink (fun _ => false)
        c.head) Q E s') :
    wp (catchUpFromCheckpoint config source.toLiveSource BlockingPostgresLiveSink.liveSink
      (fun _ => false) cp c.head) Q E s := by
  have hoff := (h.cp_orphan hne).2
  have hcp := h.mem h.cp_mem
  obtain ⟨coordinator, hnew⟩ := coordinator_above cp
    (show cp.height < c.head.height by rw [SourceChain.head_height]; exact hhigher)
  have hidle := (idle_new hnew).1
  rw [SourceChain.head_height] at hidle
  unfold catchUpFromCheckpoint heightsTo
  rw [wp_bind, wp_lift, hnew]
  refine ⟨fun coordinator' hok => ?_, by simp [Except.mapError]⟩
  obtain rfl : coordinator = coordinator' := Except.ok.inj hok
  rw [SourceChain.head_height,
    show c.height + 1 - (cp.height + 1) = (c.height - (cp.height + 1)) + 1 by omega, List.range'_succ]
  unfold checkpointLoop
  rw [wp_bind]
  refine ensureNotCancelled_wp (fun s1 h1 => ?_) (by simp)
  rw [wp_bind]
  -- The block above the checkpoint is no child of it.
  have hother : ∀ block, c.replies.block (cp.height + 1) block → ¬ IsChild block.header cp := by
    intro block hreply hchild
    obtain ⟨hle, rfl⟩ := hreply
    exact hoff ((Line.has_blockAt (c := c.line) hle).parent h.hashId hcp hchild)
  refine wp_attempt (fetchAndPushHeight_wp hA hidle hhigher ?_ ?_ ?_ ?_ ?_)
  · intro block hoffered
    exact absurd (hoffered.child cp rfl) (hother block hoffered.reply)
  · intro hbeyond
    exact absurd hbeyond (Nat.not_lt.2 hhigher)
  · intro block hreply hheight
    obtain ⟨hle, rfl⟩ := hreply
    exact absurd (c.height_eq _ hle) hheight
  · intro block anchor _ _ _ _ s2 h2
    have hneeds : (LiveError.backfill (.fetchedSuffixInvalidated (cp.height + 1) anchor.hash
        block.header.parentHash)).needsReconcile = true := rfl
    dsimp only
    rw [if_pos hneeds, wp_bind]
    refine modifyReport_wp rfl fun s3 h3 => ?_
    unfold reconcileCurrentHead
    rw [wp_bind]
    refine ensureNotCancelled_wp (fun s4 h4 => ?_) (by simp)
    rw [wp_bind]
    refine modifyReport_wp (by simp) fun s5 h5 => ?_
    rw [wp_bind]
    refine record_wp fun s6 h6 => ?_
    rw [wp_bind]
    refine callSource_wp hA.currentHead ?_ (fun hfalse => hfalse.elim)
    intro head s7 hhead h7
    obtain rfl : head = c.head := hhead
    have hq : Quiet s s7 := h1.trans (h2.trans (h3.trans (h4.trans (h5.trans (h6.trans h7)))))
    rw [wp_bind]
    refine note_wp (hQ _ hq.sink hq.halted)
  · intro block hoffered
    exact absurd (hoffered.child cp rfl) (hother block hoffered.reply)

/-- A head below the checkpoint is compared with the row at its height. -/
theorem lowerHead_rule (hreads : s.2.sink.server.readFaults = [])
    (hA : Answers c.replies c.Beyond source)
    (hsame : sameHash (some c.head) (rowAt s.2.sink.server.db c.head.height) = true →
      ∀ s' : TrackState σ, s'.2.sink = s.2.sink → s'.1.report.halted = s.1.report.halted → Q ⟨⟩ s')
    (hother : sameHash (some c.head) (rowAt s.2.sink.server.db c.head.height) = false →
      ∀ s' : TrackState σ, s'.2.sink = s.2.sink → s'.1.report.halted = s.1.report.halted → wp (do
        applyChainState config source.toLiveSource BlockingPostgresLiveSink.liveSink (fun _ => false)
          c.head
        finish BlockingPostgresLiveSink.liveSink) Q E s') :
    wp (lowerHead config source.toLiveSource BlockingPostgresLiveSink.liveSink (fun _ => false) cp
      c.head) Q E s := by
  unfold lowerHead
  rw [wp_bind]
  refine record_wp fun s1 h1 => ?_
  rw [wp_bind]
  refine callSource_wp (hA.headerByNumber c.head.height) ?_
    (fun hbeyond => absurd hbeyond (by rw [SourceChain.head_height]; exact Nat.lt_irrefl _))
  intro remote s2 hremote h2
  obtain rfl : remote = some c.head := by
    have hat := hremote.2 (Nat.le_of_eq SourceChain.head_height)
    rwa [SourceChain.head_height] at hat
  have hq2 : Quiet s s2 := h1.trans h2
  rw [wp_bind]
  refine readSink_wp (BlockingPostgresLiveSink.canonicalHeaderAtHeight_read
    (by rw [hq2.sink]; exact hreads) c.head.height) fun s3 h3 => ?_
  have hq3 : Quiet s s3 := hq2.trans h3
  rw [wp_bind]
  refine note_wp ?_
  have hrow : rowAt s.2.sink.server.db c.head.height = rowAt s2.2.sink.server.db c.head.height := by
    rw [hq2.sink]
  rw [hrow] at hsame hother
  split
  · rename_i heq
    refine modifyReport_wp (by simp) fun s4 h4 => ?_
    exact hsame heq s4 (h4.sink.trans hq3.sink) (h4.halted.trans hq3.halted)
  · rename_i hne
    exact hother (Bool.eq_false_iff.2 hne) _ hq3.sink hq3.halted

/-- A head below the checkpoint, above the fork: the row at its height is another block. -/
theorem lowerHead_turns (h : Parted c L s.2.sink cp a) (hup : a.height < c.height)
    (hA : Answers c.replies c.Beyond source)
    (hQ : ∀ s' : TrackState σ, s'.2.sink = s.2.sink →
      s'.1.report.halted = s.1.report.halted → wp (do
        applyChainState config source.toLiveSource BlockingPostgresLiveSink.liveSink (fun _ => false)
          c.head
        finish BlockingPostgresLiveSink.liveSink) Q E s') :
    wp (lowerHead config source.toLiveSource BlockingPostgresLiveSink.liveSink (fun _ => false) cp
      c.head) Q E s := by
  refine lowerHead_rule h.unbroken.reads hA (fun hsame => ?_) fun _ => hQ
  obtain ⟨r, row, hr, hrow, hhash⟩ := sameHash_true hsame
  cases hr
  have hrowL := (h.wellFormed.canonical row).1 (rowAt_mem hrow)
  have hhead : row = c.head := h.hashId (h.mem hrowL) (c.mem _ (Nat.le_refl _)) hhash.symm
  refine absurd (hhead ▸ hrowL) (h.not_mem SourceChain.has_head ?_)
  rw [SourceChain.head_height]
  exact hup

/-- A run from a checkpoint: the head is compared with it. -/
theorem run_known (h : Parted c L p.sink cp a) (hA : Answers c.replies c.Beyond source)
    {Q : LiveReport → Peers σ BlockingPostgresLiveSink → Prop}
    {E : LiveError → Peers σ BlockingPostgresLiveSink → Prop}
    (hbudget : config.liveBudgetCostUnitsPerMinute = 0 → ∀ e p', E e p')
    (hlower : config.liveBudgetCostUnitsPerMinute ≠ 0 → c.height < cp.height → ∀ s : TrackState σ,
      s.2.sink = p.sink → s.1.report.halted = none →
      wp (lowerHead config source.toLiveSource BlockingPostgresLiveSink.liveSink (fun _ => false) cp
        c.head) (fun _ s' => Q s'.1.report s'.2) (fun e s' => E e s'.2) s)
    (hsibling : config.liveBudgetCostUnitsPerMinute ≠ 0 → c.height = cp.height →
      c.head.hash ≠ cp.hash → ∀ s : TrackState σ, s.2.sink = p.sink → s.1.report.halted = none → wp (do
        applyChainState config source.toLiveSource BlockingPostgresLiveSink.liveSink (fun _ => false)
          c.head
        finish BlockingPostgresLiveSink.liveSink) (fun _ s' => Q s'.1.report s'.2)
          (fun e s' => E e s'.2) s)
    (hsame : config.liveBudgetCostUnitsPerMinute ≠ 0 → c.head = cp → ∀ s : TrackState σ,
      s.2.sink = p.sink → s.1.report.halted = none → Q s.1.report s.2)
    (hhigher : config.liveBudgetCostUnitsPerMinute ≠ 0 → cp.height < c.height → ∀ s : TrackState σ,
      s.2.sink = p.sink → s.1.report.halted = none → wp (do
        catchUpFromCheckpoint config source.toLiveSource BlockingPostgresLiveSink.liveSink
          (fun _ => false) cp c.head
        finish BlockingPostgresLiveSink.liveSink) (fun _ s' => Q s'.1.report s'.2)
          (fun e s' => E e s'.2) s) (events : List LiveHeadEvent) :
    wp (run config source.toLiveSource BlockingPostgresLiveSink.liveSink events) Q E p := by
  refine runWithCancellation_wp h.unbroken.reads (by simp) (fun hzero p' _ _ => hbudget hzero _ p') ?_
  intro hb s hsink _ hhalted
  have hrow : checkpointRow s.2.sink.server.db = some cp := by
    rw [hsink]
    exact h.row
  have hreads : s.2.sink.server.readFaults = [] := by
    rw [hsink]
    exact h.unbroken.reads
  have hstays : ∀ s' : TrackState σ, Quiet s s' →
      s'.2.sink = p.sink ∧ s'.1.report.halted = none := fun s' hq =>
    ⟨hq.sink.trans hsink, hq.halted.trans hhalted⟩
  refine trackHead_wp hA hreads ?_ ?_ ?_ ?_ ?_ ?_ ?_
  · intro hfalse
    exact (hfalse.elim id id).elim
  · intro hnone
    rw [hrow] at hnone
    cases hnone
  · intro _ _ hnone
    rw [hrow] at hnone
    cases hnone
  · intro head checkpoint hhead htop hlow s1 h1
    obtain rfl : head = c.head := hhead
    obtain rfl : cp = checkpoint := Option.some.inj (hrow.symm.trans htop)
    rw [SourceChain.head_height] at hlow
    exact hlower hb hlow s1 (hstays s1 h1).1 (hstays s1 h1).2
  · intro head checkpoint hhead htop hheight hhash s1 h1
    obtain rfl : head = c.head := hhead
    obtain rfl : cp = checkpoint := Option.some.inj (hrow.symm.trans htop)
    rw [SourceChain.head_height] at hheight
    exact hsibling hb hheight hhash s1 (hstays s1 h1).1 (hstays s1 h1).2
  · intro head checkpoint hhead htop hhash s1 h1
    obtain rfl : head = c.head := hhead
    obtain rfl : cp = checkpoint := Option.some.inj (hrow.symm.trans htop)
    have hreads1 : s1.2.sink.server.readFaults = [] := by
      rw [h1.sink]
      exact hreads
    refine finish_wp hreads1 fun s2 h2 _ => ?_
    exact hsame hb (h.hashId (c.mem _ (Nat.le_refl _)) (h.mem h.cp_mem) hhash) s2
      (hstays s2 (h1.trans h2)).1 (hstays s2 (h1.trans h2)).2
  · intro head checkpoint hhead htop hhigh s1 h1
    obtain rfl : head = c.head := hhead
    obtain rfl : cp = checkpoint := Option.some.inj (hrow.symm.trans htop)
    rw [SourceChain.head_height] at hhigh
    exact hhigher hb hhigh s1 (hstays s1 h1).1 (hstays s1 h1).2

/-- **A run over a reorg** hands the head to the chain state, whatever its height. -/
theorem run_turn (h : Parted c L p.sink cp a) (hne : cp ≠ a) (hup : a.height < c.height)
    (hA : Answers c.replies c.Beyond source)
    {Q : LiveReport → Peers σ BlockingPostgresLiveSink → Prop}
    {E : LiveError → Peers σ BlockingPostgresLiveSink → Prop}
    (hbudget : config.liveBudgetCostUnitsPerMinute = 0 → ∀ e p', E e p')
    (hturn : config.liveBudgetCostUnitsPerMinute ≠ 0 → ∀ s : TrackState σ, s.2.sink = p.sink →
      s.1.report.halted = none → wp (do
        applyChainState config source.toLiveSource BlockingPostgresLiveSink.liveSink (fun _ => false)
          c.head
        finish BlockingPostgresLiveSink.liveSink) (fun _ s' => Q s'.1.report s'.2)
          (fun e s' => E e s'.2) s) (events : List LiveHeadEvent) :
    wp (run config source.toLiveSource BlockingPostgresLiveSink.liveSink events) Q E p := by
  refine run_known h hA hbudget ?_ ?_ ?_ ?_ events
  · intro hb _ s hsink hhalted
    refine lowerHead_turns (hsink.symm ▸ h) hup hA fun s1 hsink1 hhalted1 => ?_
    exact hturn hb s1 (hsink1.trans hsink) (hhalted1.trans hhalted)
  · intro hb _ _ s hsink hhalted
    exact hturn hb s hsink hhalted
  · intro _ heq
    exact absurd heq (h.head_off hne hup).1
  · intro hb hhigher s hsink hhalted
    rw [wp_bind]
    refine catchUpFromCheckpoint_turns (hsink.symm ▸ h) hne hhigher hA fun s1 hsink1 hhalted1 => ?_
    have hrun := hturn hb s1 (hsink1.trans hsink) (hhalted1.trans hhalted)
    rwa [wp_bind] at hrun

/-- A run whose checkpoint is the source's catches up. -/
theorem run_straight (h : Parted c L p.sink cp cp) (hA : Answers c.replies c.Beyond source)
    (events : List LiveHeadEvent) :
    wp (run config source.toLiveSource BlockingPostgresLiveSink.liveSink events)
      (fun report p' => (config.liveBudgetCostUnitsPerMinute ≠ 0 ∧
          TakesFrom c (cp.height + 1) p.sink.server.db.1) ∧ report.halted = none ∧
        checkpointRow p'.sink.server.db = some c.head)
      (fun _ _ => ¬ (config.liveBudgetCostUnitsPerMinute ≠ 0 ∧
        TakesFrom c (cp.height + 1) p.sink.server.db.1)) p := by
  have hle := h.fork_le
  have hat : (c.block cp.height).header = cp := h.fork.has.2
  refine run_known h hA (fun hzero _ _ hand => hand.1 hzero) ?_ ?_ ?_ ?_ events
  · intro _ hlower
    omega
  · intro _ hheight hhash
    exact absurd (congrArg BlockHeader.hash (h.head_eq hheight.symm)) hhash
  · intro hb heq s hsink hhalted
    have hheight : cp.height = c.height := heq ▸ SourceChain.head_height
    refine ⟨⟨hb, fun i hi hle => absurd hle (by omega)⟩, hhalted, ?_⟩
    rw [hsink, heq]
    exact h.row
  · intro hb hhigher s hsink hhalted
    have hbelow : c.below (cp.height + 1) = some cp := congrArg some hat
    rw [wp_bind]
    unfold catchUpFromCheckpoint heightsTo
    rw [wp_bind, wp_lift]
    refine ⟨fun coordinator hok => ?_, fun e he => ?_⟩
    · have hidle := (idle_new (mapError_ok.1 hok)).1
      rw [SourceChain.head_height] at hidle ⊢
      rw [← hbelow] at hidle
      refine wp_mono (checkpointLoop_serves h.hashId hA (by rw [hsink]; exact h.unbroken) (by omega)
        (by rw [hsink, hbelow]; exact h.row) hidle) ?_ ?_
      · intro _ s1 hcaught
        obtain ⟨htakes, hcaught, hhalted1⟩ := hcaught
        rw [hsink] at htakes
        refine finish_wp hcaught.unbroken.reads fun s2 h2 _ => ⟨⟨hb, htakes⟩, ?_, ?_⟩
        · exact h2.halted.trans (hhalted1.trans hhalted)
        · rw [h2.sink]
          exact hcaught.top
      · intro _ _ hnot hand
        rw [hsink] at hnot
        exact hnot hand.2
    · obtain ⟨coordinator, hnew⟩ := coordinator_above cp
        (show cp.height < c.head.height by rw [SourceChain.head_height]; exact hhigher)
      rw [hnew] at he
      cases he

/-- A run whose source is behind: its head is a row below the checkpoint, and nothing changes. -/
theorem run_behind (h : Parted c L p.sink cp a) (hne : cp ≠ a) (hbehind : a.height = c.height)
    (hA : Answers c.replies c.Beyond source) (events : List LiveHeadEvent) :
    wp (run config source.toLiveSource BlockingPostgresLiveSink.liveSink events)
      (fun report p' => report.halted = none ∧ p'.sink = p.sink)
      (fun _ _ => config.liveBudgetCostUnitsPerMinute = 0) p := by
  have hlow : c.height < cp.height := by
    rw [← hbehind]
    exact (h.cp_orphan hne).1
  have hhead : c.head = a := h.head_eq hbehind
  refine run_known h hA (fun hzero _ _ => hzero) ?_ ?_ ?_ ?_ events
  · intro _ _ s hsink hhalted
    have hmem : c.head ∈ p.sink.server.db.1.canonical := by
      rw [hhead]
      exact (h.wellFormed.canonical a).2 h.fork.mem
    have hsame : sameHash (some c.head) (rowAt s.2.sink.server.db c.head.height) = true := by
      rw [hsink, rowAt_of_mem hmem]
      simp [sameHash]
    refine lowerHead_rule (by rw [hsink]; exact h.unbroken.reads) hA (fun _ s' hsink' hhalted' => ?_) ?_
    · exact ⟨hhalted'.trans hhalted, hsink'.trans hsink⟩
    · intro hother
      rw [hsame] at hother
      cases hother
  · intro _ hheight
    omega
  · intro _ heq
    have hheight := congrArg BlockHeader.height heq
    rw [SourceChain.head_height] at hheight
    omega
  · intro _ hhigher
    omega

end

end Chainweave.Live
