import Chainweave.Core.ChainExact
import Chainweave.Live.Source
import Chainweave.Sink.Reconcile

/-!
# Two reorg implementations

`reconcile_to_head` compares heights from the lower tip down; `ChainState::apply` walks
parent hashes down from both tips. Over one linked chain of rows and one linked chain of
the source, both arrive at the highest row that the source has.

* `ForkAt c L a`: `a` is that row. `ForkAt.split`: the rows above it are the orphans.
* `reconciliationBatch_wp`: the batch of `reconcile_to_head`; `reconcileToHead_wp`: the
  rows it leaves.
* `apply_wp_turn`: the batch of `ChainState::apply`, from a state of the tip alone.
* `reorgs_agree`: the two are one.

The limits of the walks differ, and so do the runs that fail at them.
-/
namespace Chainweave.Live

open Stateful HashLink Chainweave.Chain Chainweave.Backfill Chainweave.Postgres
open Chainweave.Postgres.Reconcile

variable {σ : Type} {V : Set BlockHeader} {c : SourceChain V} {L : List BlockHeader}
  {common : BlockHeader}

/-! ## The fork -/

/-- The highest row that the source has. -/
structure ForkAt (c : SourceChain V) (L : List BlockHeader) (common : BlockHeader) : Prop where
  mem : common ∈ L
  has : c.line.Has common
  above : ∀ x ∈ L, common.height < x.height → ¬ c.line.Has x

/-- Up to the fork the rows are shared, above it they are orphans. -/
theorem ForkAt.split (hl : Linked L) (h : ForkAt c L common) : ∃ pre,
    c.shared L = pre ++ [common] ∧ L = (pre ++ [common]) ++ c.orphans L ∧
      ∀ x ∈ c.orphans L, common.height < x.height := by
  obtain ⟨pre, suf, rfl⟩ := List.append_of_mem h.mem
  have hsuf : ∀ x ∈ suf, common.height < x.height := by
    have hpair := (List.pairwise_append.1 hl.pairwise).2.1
    exact (List.pairwise_cons.1 hpair).1
  have hassoc : pre ++ common :: suf = (pre ++ [common]) ++ suf := by simp
  have hbase : ∀ x ∈ (pre ++ [common]).getLast?, c.line.Has x := by simpa using h.has
  obtain ⟨hshared, horphans⟩ := SourceChain.split_eq hbase fun x hx =>
    h.above x (by simp [hx]) (hsuf x hx)
  rw [hassoc, horphans]
  exact ⟨pre, hshared, rfl, hsuf⟩

theorem ForkAt.shared_last (hl : Linked L) (h : ForkAt c L common) :
    (c.shared L).getLast? = some common := by
  obtain ⟨pre, hshared, -, -⟩ := h.split hl
  simp [hshared]

theorem ForkAt.unique (hl : Linked L) (h : ForkAt c L common) {other : BlockHeader}
    (h' : ForkAt c L other) : common = other := by
  refine hl.eq_of_height h.mem h'.mem (Nat.le_antisymm ?_ ?_)
  · exact Nat.le_of_not_lt fun hlt => h'.above common h.mem hlt h.has
  · exact Nat.le_of_not_lt fun hlt => h.above other h'.mem hlt h'.has

/-- Where the tip is the source's, nothing is orphaned. -/
theorem forkAt_tip {tip : BlockHeader} (hl : Linked L) (htip : L.getLast? = some tip)
    (h : c.line.Has tip) : ForkAt c L tip ∧ c.orphans L = [] := by
  have hfork : ForkAt c L tip := by
    refine ⟨List.mem_of_getLast? htip, h, fun x hx hlt => ?_⟩
    have hle : x.height ≤ tip.height := hl.height_le htip hx
    omega
  obtain ⟨pre, -, hsplit, habove⟩ := hfork.split hl
  refine ⟨hfork, List.eq_nil_iff_forall_not_mem.2 fun x hx => ?_⟩
  have hle : x.height ≤ tip.height := hl.height_le htip (hsplit ▸ List.mem_append_right _ hx)
  have := habove x hx
  omega

/-! ## What the source and the server answer -/

/-- A source of one chain; it may fail. -/
structure Constant (c : SourceChain V) (source : ReconciliationSource σ) : Prop where
  head : ∀ node, wp source.head (fun block _ => block = c.block c.height) (fun _ _ => True) node
  blockByHeight : ∀ n ≤ c.height, ∀ node, wp (source.blockByHeight n)
    (fun o _ => ∀ block ∈ o, block = c.block n) (fun _ _ => True) node

section
variable {α : Type} {s : σ × Server} {source : ReconciliationSource σ}

theorem wp_ask {x : Prog σ ReconciliationError α} {Q : α → σ × Server → Prop}
    {E : ReconciliationError → σ × Server → Prop}
    (h : wp x (fun a node => Q a (node, s.2)) (fun e node => E e (node, s.2)) s.1) :
    wp (ask x) Q E s := wp_zoom h

theorem wp_stored {x : Prog Server PostgresStateError α} {Q : α → σ × Server → Prop}
    {E : ReconciliationError → σ × Server → Prop}
    (h : wp x (fun a server => Q a (s.1, server)) (fun e server => E (.state e) (s.1, server)) s.2) :
    wp (stored x) Q E s := wp_mapError (wp_zoom h)

/-- A read that returns has read the rows. -/
theorem query_wp (read : Database → Except PostgresStateError α) (server : Server) :
    wp (Server.query read) (fun a server' => read server.db = .ok a ∧ server'.db = server.db)
      (fun _ _ => True) server := by
  let next := { server with readFaults := server.readFaults.tail }
  by_cases hfault : server.readFaults.head? = some true
  · have hx : exec (Server.query read) server = (.error (.database .connection), next) := by
      show (if server.readFaults.head? = some true then _ else _) = _
      rw [if_pos hfault]
    exact wp_of_eq hx (by simp) fun _ _ => trivial
  · have hx : exec (Server.query read) server = (read server.db, next) := by
      show (if server.readFaults.head? = some true then _ else _) = _
      rw [if_neg hfault]
    exact wp_of_eq hx (fun a ha => ⟨ha, rfl⟩) fun _ _ => trivial

theorem sourceBlock_wp (hsource : Constant c source) {n : Nat} (hn : n ≤ c.height) :
    wp (sourceBlock source n) (fun block s' => block = c.block n ∧ s'.2 = s.2) (fun _ _ => True) s := by
  unfold sourceBlock
  rw [wp_bind]
  refine wp_ask (wp_mono (hsource.blockByHeight n hn s.1) (fun o node ho => ?_) fun _ _ _ => trivial)
  cases o with
  | none => exact trivial
  | some block => exact ⟨ho block rfl, rfl⟩

/-! ## The walk down -/

/-- At one height: the row there, and whether the source has it. -/
theorem matchAt_wp (hsource : Constant c source) (hrows : ∀ x, x ∈ s.2.db.1.canonical ↔ x ∈ L)
    {n : Nat} (hn : n ≤ c.height) :
    wp (matchAt source n) (fun o s' => s'.2.db = s.2.db ∧ ∃ x ∈ L, x.height = n ∧
        (o = some x ∧ c.line.Has x ∨ o = none ∧ ¬ c.line.Has x)) (fun _ _ => True) s := by
  unfold matchAt
  rw [wp_bind]
  refine wp_stored (wp_mono (query_wp _ s.2) (fun o server hread => ?_) fun _ _ _ => trivial)
  obtain ⟨hread, hdb⟩ := hread
  cases o with
  | none => exact trivial
  | some persisted =>
    dsimp only
    have hfind : s.2.db.1.canonical.find? (·.height = n) = some persisted := by
      rw [← Database.canonicalHeaderAtHeight_eq, hread]
      rfl
    have hmem : persisted ∈ L := (hrows _).1 (List.mem_of_find?_eq_some hfind)
    have hheight : persisted.height = n := by simpa using List.find?_some hfind
    rw [wp_bind]
    refine wp_mono (sourceBlock_wp hsource hn) (fun block s' hblock => ?_) fun _ _ _ => trivial
    obtain ⟨rfl, hs'⟩ := hblock
    have hhas : c.line.Has persisted ↔ persisted = (c.block n).header := by
      unfold Line.Has
      rw [block_height, hheight]
      exact ⟨fun h => h.2.symm, fun h => ⟨hn, h.symm⟩⟩
    rw [wp_pure, hs']
    refine ⟨hdb, persisted, hmem, hheight, ?_⟩
    split
    · rename_i heq
      exact .inl ⟨rfl, hhas.2 heq⟩
    · rename_i hne
      exact .inr ⟨rfl, fun h => hne (hhas.1 h)⟩

/-- **The walk down** ends at the fork, if no row above its start is the source's. -/
theorem walkBack_wp (hsource : Constant c source) (hl : Linked L) (maxWalkBackDepth : Nat) :
    ∀ (height walked : Nat) (s : σ × Server), height ≤ c.height →
      (∀ x, x ∈ s.2.db.1.canonical ↔ x ∈ L) → (∀ x ∈ L, height < x.height → ¬ c.line.Has x) →
      wp (walkBack source maxWalkBackDepth walked height)
        (fun common s' => s'.2.db = s.2.db ∧ ForkAt c L common) (fun _ _ => True) s := by
  intro height
  induction height with
  | zero =>
    intro walked s hle hrows habove
    unfold walkBack
    rw [wp_bind]
    refine wp_mono (matchAt_wp hsource hrows hle) (fun o s' h => ?_) fun _ _ _ => trivial
    obtain ⟨hdb, x, hx, hheight, ⟨rfl, hhas⟩ | ⟨rfl, -⟩⟩ := h
    · exact ⟨hdb, hx, hhas, hheight ▸ habove⟩
    · exact trivial
  | succ height ih =>
    intro walked s hle hrows habove
    unfold walkBack
    rw [wp_bind]
    refine wp_mono (matchAt_wp hsource hrows hle) (fun o s' h => ?_) fun _ _ _ => trivial
    obtain ⟨hdb, x, hx, hheight, ⟨rfl, hhas⟩ | ⟨rfl, hnot⟩⟩ := h
    · exact ⟨hdb, hx, hhas, hheight ▸ habove⟩
    · dsimp only
      split
      · exact trivial
      · have hnext : ∀ y ∈ L, height < y.height → ¬ c.line.Has y := by
          intro y hy hlt
          by_cases heq : y.height = height + 1
          · rwa [hl.eq_of_height hy hx (heq.trans hheight.symm)]
          · exact habove y hy (by omega)
        refine wp_mono (ih (walked + 1) s' (by omega) (by rw [hdb]; exact hrows) hnext)
          (fun common t h => ⟨h.1.trans hdb, h.2⟩) fun _ _ _ => trivial

/-! ## The batch -/

/-- The rows above the fork, the highest first, are the orphans. -/
theorem canonicalHeadersDescending_eq {db : Database} (hwell : WellFormed V db.1 L)
    (hfork : ForkAt c L common) {tip : BlockHeader} (htip : L.getLast? = some tip)
    {headers : List BlockHeader}
    (h : db.canonicalHeadersDescending tip.height common.height = .ok headers) :
    headers = (c.orphans L).reverse := by
  obtain ⟨pre, -, hsplit, habove⟩ := hfork.split hwell.linked
  have hpair : (c.orphans L).Pairwise fun a b => a.height < b.height := by
    have hpair := hwell.linked.pairwise
    rw [hsplit] at hpair
    exact (List.pairwise_append.1 hpair).2.1
  obtain ⟨m, hm, h⟩ := ok_bind.1 h
  obtain ⟨-, rfl⟩ := pgHeight_ok.1 hm
  obtain ⟨m, hm, h⟩ := ok_bind.1 h
  obtain ⟨-, rfl⟩ := pgHeight_ok.1 hm
  obtain rfl := Except.ok.inj h
  let found := db.1.canonical.filter fun x => common.height < x.height ∧ x.height ≤ tip.height
  have hmem : ∀ x, x ∈ found ↔ x ∈ c.orphans L := by
    intro x
    rw [List.mem_filter, hwell.canonical, decide_eq_true_eq]
    constructor
    · intro hx
      obtain ⟨hxL, hlt, -⟩ := hx
      rw [hsplit] at hxL
      cases List.mem_append.1 hxL with
      | inr hx => exact hx
      | inl hx =>
        have hle : x.height ≤ common.height := by
          have hlinked := hwell.linked
          rw [hsplit] at hlinked
          exact hlinked.left.height_le (by simp) hx
        omega
    · intro hx
      have hxL : x ∈ L := hsplit ▸ List.mem_append_right _ hx
      exact ⟨hxL, habove x hx, hwell.linked.height_le htip hxL⟩
  have hnodup : (found.map (·.height)).Nodup := by
    have hhash : (db.1.canonical.map (·.hash)).Nodup := by
      refine List.Nodup.sublist ?_ db.2.block_key
      exact (List.filter_sublist.map _).map _
    have hcanonical : db.1.canonical.Nodup := hhash.of_map _
    refine (List.nodup_map_iff_inj_on (hcanonical.filter _)).2 fun a ha b hb heq => ?_
    exact db.2.canonical_height a (List.mem_filter.1 ha).1 b (List.mem_filter.1 hb).1 heq
  have hsorted : (found.insertionSort fun a b => b.height ≤ a.height).Pairwise fun a b =>
      b.height < a.height := by
    have htotal : Std.Total fun a b : BlockHeader => b.height ≤ a.height :=
      ⟨fun a b => Nat.le_total b.height a.height⟩
    have htrans : IsTrans BlockHeader fun a b => b.height ≤ a.height :=
      ⟨fun _ _ _ h1 h2 => Nat.le_trans h2 h1⟩
    have hle := List.pairwise_insertionSort (fun a b : BlockHeader => b.height ≤ a.height) found
    have hperm := List.perm_insertionSort (fun a b : BlockHeader => b.height ≤ a.height) found
    have hne := List.pairwise_map.1 ((hperm.map (·.height)).nodup_iff.2 hnodup)
    exact (hle.and hne).imp fun h => Nat.lt_of_le_of_ne h.1 (Ne.symm h.2)
  have hirrefl : Std.Irrefl fun a b : BlockHeader => b.height < a.height :=
    ⟨fun _ => Nat.lt_irrefl _⟩
  have hanti : Std.Antisymm fun a b : BlockHeader => b.height < a.height :=
    ⟨fun _ _ h1 h2 => absurd h1 (Nat.lt_asymm h2)⟩
  refine hsorted.eq_of_mem_iff (List.pairwise_reverse.2 hpair) fun x => ?_
  rw [List.mem_insertionSort, List.mem_reverse]
  exact hmem x

/-- The loop that collects the applies. -/
theorem collectApply_wp (hsource : Constant c source) :
    ∀ (heights : List Nat) (collected : Option BlockHash × List DurableChainEvent)
      (s : σ × Server), (∀ n ∈ heights, n ≤ c.height) →
      wp (heights.foldlM (collectApply source) collected)
        (fun result s' => s'.2 = s.2 ∧
          result.2 = collected.2 ++ (heights.map c.block).map .apply) (fun _ _ => True) s := by
  intro heights
  induction heights with
  | nil =>
    intro collected s _
    exact ⟨rfl, by simp⟩
  | cons n heights ih =>
    intro collected s hle
    rw [List.foldlM_cons, wp_bind]
    unfold collectApply
    rw [wp_bind]
    refine wp_mono (sourceBlock_wp hsource (hle n (by simp))) (fun block s' hblock => ?_)
      fun _ _ _ => trivial
    obtain ⟨rfl, hs'⟩ := hblock
    split
    · exact trivial
    · rw [wp_pure]
      refine wp_mono (ih _ s' fun m hm => hle m (by simp [hm])) (fun result t ht => ?_)
        fun _ _ _ => trivial
      exact ⟨ht.1.trans hs', by rw [ht.2]; simp⟩

/-- **The batch of `reconcile_to_head`.** -/
theorem reconciliationBatch_wp (hsource : Constant c source) (hwell : WellFormed V s.2.db.1 L)
    {tip : BlockHeader} (htip : L.getLast? = some tip) (maxWalkBackDepth : Nat) :
    wp (reconciliationBatch source maxWalkBackDepth)
      (fun batch s' => s'.2.db = s.2.db ∧ ∃ common, ForkAt c L common ∧
        batch.commonAncestor = some common ∧
        batch.events = transitionEvents (c.orphans L) (c.blocksFrom (common.height + 1)))
      (fun _ _ => True) s := by
  have hcheckpoint : s.2.db.1.checkpoint = some (checkpointOf tip) := by
    rw [hwell.checkpoint, htip]
    rfl
  unfold reconciliationBatch
  rw [wp_bind]
  refine wp_ask (wp_mono (hsource.head s.1) (fun head node hhead => ?_) fun _ _ _ => trivial)
  rw [hhead, wp_bind]
  refine wp_stored (wp_mono (query_wp _ s.2) (fun o server hread => ?_) fun _ _ _ => trivial)
  obtain ⟨hread, hdb⟩ := hread
  rw [hcheckpoint] at hread
  cases hread
  have hheight : (c.block c.height).header.height = c.height := c.height_eq _ (Nat.le_refl _)
  rw [hheight, wp_bind]
  unfold findReconciliationCommonAncestor
  dsimp only
  rw [wp_bind]
  have hmin : ∀ x ∈ L, min tip.height c.height < x.height → ¬ c.line.Has x := by
    intro x hx hlt hhas
    have hle : x.height ≤ tip.height := hwell.linked.height_le htip hx
    have htop : x.height ≤ c.height := hhas.1
    omega
  have hrows : ∀ x, x ∈ server.db.1.canonical ↔ x ∈ L := by
    rw [hdb]
    exact hwell.canonical
  refine wp_mono (walkBack_wp hsource hwell.linked maxWalkBackDepth _ 0 (node, server)
    (Nat.min_le_right _ _) hrows hmin) (fun common s1 h1 => ?_) fun _ _ _ => trivial
  obtain ⟨hdb1, hfork⟩ := h1
  have hdb1 : s1.2.db = s.2.db := hdb1.trans hdb
  rw [wp_pure, wp_bind]
  refine wp_stored (wp_mono (query_wp _ s1.2) (fun rollbacks server2 hread => ?_) fun _ _ _ => trivial)
  obtain ⟨hread, hdb2⟩ := hread
  rw [hdb1] at hread
  have hrollbacks := canonicalHeadersDescending_eq hwell hfork htip hread
  rw [wp_bind]
  refine wp_mono (collectApply_wp hsource _ _ _ fun n hn => ?_) (fun result s3 h3 => ?_)
    fun _ _ _ => trivial
  · have hrange := List.mem_range'_1.1 hn
    simp only [Option.elim] at hrange
    omega
  · obtain ⟨hs3, hevents⟩ := h3
    refine ⟨by rw [hs3]; exact hdb2.trans hdb1, common, hfork, rfl, ?_⟩
    show result.2 = _
    rw [hevents, hrollbacks]
    rfl

/-- The rows that `reconcile_to_head` leaves, when it returns. -/
theorem reconcileToHead_wp (hV : HashId V) (hsource : Constant c source)
    (hwell : WellFormed V s.2.db.1 L) {tip : BlockHeader} (htip : L.getLast? = some tip)
    (maxWalkBackDepth : Nat) :
    wp (reconcileToHead source maxWalkBackDepth)
      (fun _ s' => ∃ common, ForkAt c L common ∧ WellFormed V s'.2.db.1
        (c.shared L ++ (c.blocksFrom (common.height + 1)).map (·.header))) (fun _ _ => True) s := by
  unfold reconcileToHead
  rw [wp_bind]
  refine wp_mono (reconciliationBatch_wp hsource hwell htip maxWalkBackDepth) (fun batch s1 h1 => ?_)
    fun _ _ _ => trivial
  obtain ⟨hdb1, common, hfork, hcommon, hevents⟩ := h1
  obtain ⟨pre, hshared, hsplit, -⟩ := hfork.split hwell.linked
  rw [← hdb1] at hwell
  have hblocks : ∀ b ∈ c.blocksFrom (common.height + 1), b.header ∈ V := by
    intro b hb
    obtain ⟨n, -, hn, rfl⟩ := SourceChain.mem_blocksFrom.1 hb
    exact c.mem n hn
  have hlast : (c.shared L).getLast? = some common := hfork.shared_last hwell.linked
  have hlinked : Linked (c.shared L ++ (c.blocksFrom (common.height + 1)).map (·.header)) := by
    have hbase : Linked (c.shared L) := by
      have hl := hwell.linked
      rw [hsplit, ← hshared] at hl
      exact hl.left
    rw [← SourceChain.nextHeight_of_last hlast]
    refine SourceChain.linked_shared hbase fun x hx => ?_
    rw [hlast] at hx
    cases hx
    exact hfork.has
  have hold : WellFormed V s1.2.db.1 (c.shared L ++ c.orphans L) := by
    rw [c.shared_append_orphans]
    exact hwell
  split
  · rename_i hempty
    have hnone : batch.events = [] := by simpa [DurableChainBatch.isEmpty] using hempty
    rw [hevents] at hnone
    obtain ⟨hups, happlies⟩ := List.append_eq_nil_iff.1 hnone
    have horphans : c.orphans L = [] := by simpa using hups
    have hnoblocks : c.blocksFrom (common.height + 1) = [] := by simpa using happlies
    rw [wp_bind]
    refine wp_stored (wp_mono (query_wp _ s1.2) (fun o server hread => ?_) fun _ _ _ => trivial)
    refine ⟨common, hfork, ?_⟩
    rw [hread.2, hnoblocks]
    rw [horphans] at hold
    exact hold
  · rename_i hne
    rw [wp_bind]
    refine wp_stored (wp_mono (Server.applyBatch_wp s1.2 batch) (fun report server h => ?_)
      fun _ _ _ => trivial)
    rw [wp_bind]
    refine wp_stored (wp_mono (query_wp _ server) (fun o server' hread => ?_) fun _ _ _ => trivial)
    refine ⟨common, hfork, ?_⟩
    show WellFormed V server'.db.1 _
    rw [hread.2]
    cases h with
    | inl hempty => exact absurd hempty.1 hne
    | inr hdid =>
      obtain ⟨report, hap⟩ := hdid.applied
      have hnonempty : c.shared L ++ (c.blocksFrom (common.height + 1)).map (·.header) ≠ [] := by
        simp [hshared]
      exact (transition_ok hV hold hblocks hlinked hnonempty hevents
        (fun _ => hcommon.trans hlast.symm) ((applyBatch_ok hdid.nonempty).1 hap)).1

end

/-! ## The batch of `ChainState::apply` -/

/-- The header of a durable event. -/
def chainEvent : DurableChainEvent → ChainEvent
  | .rollback header => .rollback header
  | .apply block => .apply block.header

theorem chainEvent_transition (ups : List BlockHeader) (blocks : List IndexedBlock) :
    (transitionEvents ups blocks).map chainEvent =
      ups.reverse.map .rollback ++ (blocks.map (·.header)).map .apply := by
  unfold transitionEvents
  rw [List.map_append, List.map_map, List.map_map, List.map_map]
  rfl

/-- The source's blocks above one of its blocks, from a walk down to it. -/
theorem walk_eq (hV : HashId V) {ancestor : BlockHeader} {descending : List BlockHeader}
    (hpath : Path c.head descending ancestor) (hmem : ∀ x ∈ descending, x ∈ V)
    (hancestor : ancestor ∈ V) :
    c.line.Has ancestor ∧
      descending.reverse = (c.blocksFrom (ancestor.height + 1)).map (·.header) := by
  obtain ⟨hhas, hall⟩ := SourceChain.has_head.path hV hpath hmem hancestor
  have hend : (ancestor :: descending.reverse).getLast? = some c.head := by
    cases descending with
    | nil => rw [hpath.eq_of_nil]; rfl
    | cons x xs =>
      rw [hpath.head_eq, List.reverse_cons, ← List.cons_append]
      exact List.getLast?_concat
  have hon : ∀ z ∈ ancestor :: descending.reverse, c.line.Has z := by
    intro z hz
    cases List.mem_cons.1 hz with
    | inl heq => exact heq ▸ hhas
    | inr hz => exact hall z (List.mem_reverse.1 hz)
  refine ⟨hhas, (Line.eq_range hpath.linked hon hend).trans ?_⟩
  rw [SourceChain.blocksFrom_headers, block_height, block_height, SourceChain.head_height]
  have hlen : c.height - ancestor.height = c.height + 1 - (ancestor.height + 1) := by omega
  rw [hlen]

section
variable {ρ : Type} {resolver : AncestryResolver ρ} {t : Tables} {tip : BlockHeader}
  {state : ChainState} {size depth : Nat}

/-- **The batch of `ChainState::apply`** from a state of the tip alone. -/
theorem apply_wp_turn (hV : HashId V) (hwell : WellFormed V t L) (htip : L.getLast? = some tip)
    (hlookups : Lookups (fun _ => True) V t.canonical resolver)
    (hstate : ChainState.fromTip tip size depth = .ok state) (r : ρ) :
    wp (ChainState.apply resolver c.head)
      (fun batch _ => ∃ common, ForkAt c L common ∧ batch.commonAncestor = some common ∧
        batch.events = (transitionEvents (c.orphans L)
          (c.blocksFrom (common.height + 1))).map chainEvent)
      (fun _ _ => True) (state, r) := by
  have htipL : tip ∈ L := List.mem_of_getLast? htip
  have hLV : ∀ x ∈ L, x ∈ V := fun x hx =>
    hwell.rows x (Tables.canonical_subset ((hwell.canonical x).2 hx))
  have htipV := hLV tip htipL
  have honly : HashId {x | x ∈ [tip]} := hV.mono fun x hx => by
    rw [List.mem_singleton.1 hx]
    exact htipV
  have hknown : ∀ x, state.isKnownCanonical x = true → x = tip := by
    intro x hx
    have hwithin : Within {x | x ∈ [tip]} state :=
      reachable_within honly (.fromTip (List.mem_singleton.2 rfl) hstate)
    exact List.mem_singleton.1 (isKnownCanonical_mem hwithin hx)
  have hsteps : Steps (fun _ => True) V (· ∈ t.canonical) (· ∉ t.canonical) state resolver :=
    steps_canonical (reachable_within hV (.fromTip htipV hstate))
      (fun x hx => hknown x hx ▸ (hwell.canonical tip).2 htipL) hlookups
  obtain ⟨empty, -, hfields⟩ := fromTip_eq hstate
  have hstateTip : state.tip = some tip := by rw [hfields]
  have hheadV : c.head ∈ V := c.mem _ (Nat.le_refl _)
  refine wp_mono (apply_wp hV hsteps (by rw [hstateTip]; simpa using htipV) hheadV trivial)
    (fun batch s' h => ?_) fun _ _ _ => trivial
  generalize s'.1 = state' at h
  obtain ⟨-, happlied⟩ := h
  cases happlied with
  | duplicate h =>
    have hhead : c.head = tip := by
      cases h with
      | inl hk => exact hknown _ hk
      | inr hh =>
        rw [hstateTip] at hh
        exact (hV htipV hheadV (by simpa using hh)).symm
    obtain ⟨hfork, horphans⟩ := forkAt_tip hwell.linked htip (hhead ▸ SourceChain.has_head)
    refine ⟨tip, hfork, congrArg some hhead, ?_⟩
    have hheight : tip.height = c.height := hhead ▸ SourceChain.head_height
    rw [horphans, SourceChain.blocksFrom_nil (by omega)]
    rfl
  | bootstrap hnone => rw [hstateTip] at hnone; cases hnone
  | @extend _ parent hparent hchild hbatch =>
    rw [hstateTip] at hparent
    cases hparent
    obtain ⟨hfork, horphans⟩ := forkAt_tip hwell.linked htip
      (SourceChain.has_head.parent hV htipV hchild)
    have hheight : c.height = tip.height + 1 := SourceChain.head_height.symm.trans hchild.2
    rw [hbatch]
    refine ⟨tip, hfork, rfl, ?_⟩
    rw [horphans, SourceChain.blocksFrom_cons (by omega), SourceChain.blocksFrom_nil (by omega),
      ← hheight]
    rfl
  | @resolved _ old ancestor rollbacks descending hold' hk hnew hlink happly hroll hancestor hmatch
      hmiss hold hlen hrlen hfinal hbatch =>
    rw [hstateTip] at hold'
    cases hold'
    obtain ⟨hhas, hdescending⟩ := walk_eq hV happly (fun x hx => (hmiss x hx).1) hancestor
    have hmemL : ancestor ∈ L := (hwell.canonical ancestor).1 hmatch
    -- A row of the source above the ancestor would have been met on the way down.
    have hfork : ForkAt c L ancestor := by
      refine ⟨hmemL, hhas, fun x hx hlt hxhas => ?_⟩
      have hmem : x ∈ descending.reverse := by
        rw [hdescending]
        refine List.mem_map.2 ⟨c.block x.height, ?_, hxhas.2⟩
        exact SourceChain.mem_blocksFrom.2 ⟨x.height, hlt, hxhas.1, rfl⟩
      exact (hmiss x (List.mem_reverse.1 hmem)).2 ((hwell.canonical x).2 hx)
    obtain ⟨pre, hpath⟩ := hwell.linked.path_eq hV hLV htip hmemL hroll hold
    have horphans : c.orphans L = rollbacks.reverse := by
      have hbase : ∀ x ∈ (pre ++ [ancestor]).getLast?, c.line.Has x := by simpa using hhas
      have hassoc : L = (pre ++ [ancestor]) ++ rollbacks.reverse := by simpa using hpath
      rw [hassoc]
      refine (SourceChain.split_eq hbase fun x hx => ?_).2
      have hxL : x ∈ L := hassoc ▸ List.mem_append_right _ hx
      exact hfork.above x hxL (hroll.height_mem (List.mem_reverse.1 hx)).1
    rw [hbatch]
    refine ⟨ancestor, hfork, rfl, ?_⟩
    rw [chainEvent_transition, horphans, ← hdescending, List.reverse_reverse]

/-- **The two reorg implementations agree**, whenever both return: the same common ancestor, the same
rollbacks and applies. The checkpoint is the source's head then, and the canonical rows above the
ancestor are the source's blocks. -/
theorem reorgs_agree (hV : HashId V) {source : ReconciliationSource σ} (hsource : Constant c source)
    {server : Server} (hwell : WellFormed V server.db.1 L) (htip : L.getLast? = some tip)
    (hlookups : Lookups (fun _ => True) V server.db.1.canonical resolver)
    (hstate : ChainState.fromTip tip size depth = .ok state)
    {maxWalkBackDepth : Nat} {node : σ} {summary : ReconciliationSummary} {s' : σ × Server}
    (hreconcile : exec (reconcileToHead source maxWalkBackDepth) (node, server) = (.ok summary, s'))
    {r : ρ} {batch : ChainBatch} {t' : ChainState × ρ}
    (happly : exec (ChainState.apply resolver c.head) (state, r) = (.ok batch, t')) :
    (∃ durable mid, exec (reconciliationBatch source maxWalkBackDepth) (node, server) =
        (.ok durable, mid) ∧ durable.commonAncestor = batch.commonAncestor ∧
        durable.events.map chainEvent = batch.events) ∧
      s'.2.db.1.checkpoint = some (checkpointOf c.head) ∧
      ∃ ancestor ∈ batch.commonAncestor, ∀ x,
        x ∈ s'.2.db.1.canonical ∧ ancestor.height < x.height ↔
          ∃ n, ancestor.height < n ∧ n ≤ c.height ∧ (c.block n).header = x := by
  have hl := hwell.linked
  obtain ⟨common, hfork, hcommon, hevents⟩ := wp_ok
    (apply_wp_turn (c := c) hV hwell htip hlookups hstate r) happly
  refine ⟨?_, ?_⟩
  · cases hbatch : exec (reconciliationBatch source maxWalkBackDepth) (node, server) with
    | mk result mid =>
      cases result with
      | error e =>
        unfold reconcileToHead at hreconcile
        rw [exec_bind, hbatch] at hreconcile
        cases hreconcile
      | ok durable =>
        obtain ⟨-, common', hfork', hcommon', hevents'⟩ := wp_ok
          (reconciliationBatch_wp hsource hwell htip maxWalkBackDepth) hbatch
        obtain rfl := hfork.unique hl hfork'
        exact ⟨durable, mid, rfl, hcommon'.trans hcommon.symm, by rw [hevents', hevents]⟩
  · obtain ⟨common', hfork', hafter⟩ := wp_ok
      (reconcileToHead_wp hV hsource hwell htip maxWalkBackDepth) hreconcile
    obtain rfl := hfork.unique hl hfork'
    obtain ⟨pre, hshared, -, -⟩ := hfork.split hl
    have hlast : (c.shared L ++ (c.blocksFrom (common.height + 1)).map (·.header)).getLast? =
        some c.head := by
      by_cases hnext : common.height + 1 ≤ c.height
      · rw [List.getLast?_append, SourceChain.blocksFrom_last hnext]
        rfl
      · have hheight : common.height = c.height := by
          have := hfork.has.1
          rw [block_height] at this
          exact Nat.le_antisymm this (by omega)
        rw [SourceChain.blocksFrom_nil (by omega), List.map_nil, List.append_nil,
          hfork.shared_last hl]
        have hblock := hfork.has.2
        rw [block_height, hheight] at hblock
        exact congrArg some hblock.symm
    refine ⟨by rw [hafter.checkpoint, hlast]; rfl, common, hcommon, fun x => ?_⟩
    rw [hafter.canonical, List.mem_append]
    constructor
    · intro hx
      obtain ⟨hx | hx, hlt⟩ := hx
      · have hle : x.height ≤ common.height :=
          hafter.linked.left.height_le (hfork.shared_last hl) hx
        omega
      · obtain ⟨b, hb, rfl⟩ := List.mem_map.1 hx
        obtain ⟨n, hn, hle, rfl⟩ := SourceChain.mem_blocksFrom.1 hb
        exact ⟨n, hn, hle, rfl⟩
    · intro hx
      obtain ⟨n, hn, hle, rfl⟩ := hx
      refine ⟨.inr (List.mem_map_of_mem (SourceChain.mem_blocksFrom.2 ⟨n, hn, hle, rfl⟩)), ?_⟩
      rw [c.height_eq n hle]
      exact hn

end

/-- A source of this chain. -/
def SourceChain.source (c : SourceChain V) : ReconciliationSource Unit where
  head := pure (c.block c.height)
  blockByHeight n := pure (if n ≤ c.height then some (c.block n) else none)

theorem SourceChain.source_constant (c : SourceChain V) : Constant c c.source := by
  refine ⟨fun _ => rfl, fun n hn node => ?_⟩
  show ∀ block ∈ (if n ≤ c.height then some (c.block n) else none), block = c.block n
  rw [if_pos hn]
  simp

theorem memoryResolver_lookups {headers canonical : List BlockHeader} (h : ∀ x ∈ headers, x ∈ V) :
    Lookups (fun _ => True) V canonical (memoryResolver headers canonical) where
  headerByHash _ _ _ := ⟨trivial, fun x hx => h x (List.mem_of_find?_eq_some hx)⟩
  canonicalHeaderByHash _ _ _ := ⟨trivial, rfl⟩
  canonicalHeaderAtHeight _ _ _ := ⟨trivial, fun _ hx => List.mem_of_find?_eq_some hx⟩

/-- The startup of a server with `genesis` and `a1`, for the source of the other branch. -/
def turnRun : Except ReconciliationError ReconciliationSummary × (Unit × Server) :=
  exec (reconcileToHead chainB.source 8) ((), { db := storeOf [genesis, a1] })

/-- `reorgs_agree` for this turn. -/
theorem reorgs_agree_turn : ∃ state batch, ChainState.fromTip a1 4 8 = .ok state ∧
    (exec (ChainState.apply (memoryResolver smallTree (storeOf [genesis, a1]).1.canonical) b2)
      (state, ())).1 = .ok batch ∧
    (∃ durable mid, exec (reconciliationBatch chainB.source 8) ((), { db := storeOf [genesis, a1] }) =
      (.ok durable, mid) ∧ durable.commonAncestor = batch.commonAncestor ∧
        durable.events.map chainEvent = batch.events) ∧
    batch.events = [.rollback a1, .apply b1, .apply b2] ∧
    turnRun.2.2.db.1.checkpoint = some (checkpointOf b2) := by
  have hbatch : ((ChainState.fromTip a1 4 8).toOption.bind fun state =>
      (exec (ChainState.apply (memoryResolver smallTree (storeOf [genesis, a1]).1.canonical) b2)
        (state, ())).1.toOption).map (·.events) = some [.rollback a1, .apply b1, .apply b2] := by
    decide +kernel
  have hsummary : turnRun.1.toOption.isSome = true := by decide +kernel
  cases hstate : ChainState.fromTip a1 4 8 with
  | error e => rw [hstate] at hbatch; cases hbatch
  | ok state =>
    rw [hstate] at hbatch
    obtain ⟨batch, happly, hevents⟩ := Option.map_eq_some_iff.1 hbatch
    cases hx : exec (ChainState.apply (memoryResolver smallTree
        (storeOf [genesis, a1]).1.canonical) b2) (state, ()) with
    | mk result t' =>
      dsimp only [Except.toOption, Option.bind] at happly
      rw [hx] at happly
      cases result with
      | error e => cases happly
      | ok batch' =>
        obtain rfl := Option.some.inj happly
        cases hrun : turnRun with
        | mk result s' =>
          rw [hrun] at hsummary
          cases result with
          | error e => cases hsummary
          | ok summary =>
            unfold turnRun at hrun
            obtain ⟨hagree, hcheckpoint, -⟩ := reorgs_agree smallTree_hashId chainB.source_constant
              wellFormed_small rfl (memoryResolver_lookups fun x hx => hx) hstate hrun hx
            exact ⟨state, batch', rfl, by rw [hx], hagree, hevents, hcheckpoint⟩

end Chainweave.Live
